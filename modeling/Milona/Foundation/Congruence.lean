import Milona.Foundation.Trace

/-!
# Congruences between actions

A congruence relates actions over two states and is respected by `pure`,
`panic` and sequencing.  A program that is written against its collaborators is
then related to itself under related collaborators.  Zooming into a part of the
state, instrumenting with a log, and emitting events of one kind are
congruences.
-/

namespace Milona.Foundation.Action

variable {σ τ ε : Type}

structure Congruence (R : ∀ α : Type, Action σ α → Action τ α → Prop) :
    Prop where
  pure : ∀ {α : Type} (value : α), R α (Pure.pure value) (Pure.pure value)
  panic : ∀ {α : Type}, R α Action.panic Action.panic
  bind : ∀ {α β : Type} {x : Action σ α} {y : Action τ α}
    {next : α → Action σ β} {next' : α → Action τ β}, R α x y →
      (∀ value, R β (next value) (next' value)) → R β (x >>= next) (y >>= next')

theorem congruence_zoom (lens : Lens τ σ) :
    Congruence fun _ (x : Action σ _) (y : Action τ _) => y = zoom lens x where
  pure value := (zoom_pure lens value).symm
  panic := (zoom_panic lens).symm
  bind := by
    intro α β x y next next' hx hnext
    rw [zoom_bind, hx, funext hnext]

theorem congruence_instruments :
    Congruence fun _ (x : Action σ _) (traced : Action (σ × List ε) _) =>
      Instruments x traced where
  pure := instruments_pure
  panic := fun _ _ => ⟨rfl, rfl⟩
  bind := Instruments.bind

theorem congruence_emitsOnly (p : ε → Prop) :
    Congruence fun _ (_ : Action σ _) (traced : Action (σ × List ε) _) =>
      EmitsOnly p traced where
  pure := emitsOnly_pure p
  panic := emits_panic (by simp)
  bind := EmitsOnly.bind

end Milona.Foundation.Action
