import Milona.Foundation.Action

/-!
# Traces

An instrumented action carries a log of events besides its state.  It
`Instruments` a plain action when it behaves like it up to the log, and it
`Emits` what its specification says of the events that one execution appends
and of how the execution ends.
-/

namespace Milona.Foundation.Action

variable {σ ε α β : Type}

/-- Run an action and log one event, which may tell how the action ended. -/
def logged (event : Outcome α → ε) (x : Action σ α) :
    Action (σ × List ε) α := fun s =>
  ((x s.1).1, ((x s.1).2, s.2 ++ [event (x s.1).1]))

/-! ## Erasing the log -/

def Instruments (x : Action σ α) (traced : Action (σ × List ε) α) : Prop :=
  ∀ s log, (traced (s, log)).1 = (x s).1 ∧ (traced (s, log)).2.1 = (x s).2

theorem instruments_pure (value : α) :
    Instruments (pure value : Action σ α)
      (pure value : Action (σ × List ε) α) := fun _ _ => ⟨rfl, rfl⟩

theorem instruments_logged (event : Outcome α → ε) (x : Action σ α) :
    Instruments x (logged event x) := fun _ _ => ⟨rfl, rfl⟩

theorem instruments_zoom (x : Action σ α) :
    Instruments x (zoom .fst x : Action (σ × List ε) α) :=
  fun _ _ => ⟨rfl, rfl⟩

theorem Instruments.bind {x : Action σ α} {traced : Action (σ × List ε) α}
    {next : α → Action σ β} {tracedNext : α → Action (σ × List ε) β}
    (h : Instruments x traced)
    (hnext : ∀ value, Instruments (next value) (tracedNext value)) :
    Instruments (x >>= next) (traced >>= tracedNext) := by
  intro s log
  obtain ⟨houtcome, hstate⟩ := h s log
  cases htraced : traced (s, log) with
  | mk outcome s' =>
      cases hx : x s with
      | mk outcome' middle =>
          rw [htraced, hx] at houtcome hstate
          change outcome = outcome' at houtcome
          change s'.1 = middle at hstate
          subst houtcome hstate
          cases outcome with
          | returned value =>
              rw [bind_of_returned htraced, bind_of_returned hx]
              exact hnext value s'.1 s'.2
          | panicked =>
              rw [bind_of_panicked htraced, bind_of_panicked hx]
              exact ⟨rfl, rfl⟩

/-! ## Specifications of the log -/

def Emits (traced : Action (σ × List ε) α)
    (P : Outcome α → List ε → Prop) : Prop :=
  ∀ s log, ∃ events, (traced (s, log)).2.2 = log ++ events ∧
    P (traced (s, log)).1 events

theorem emits_pure {value : α} {P : Outcome α → List ε → Prop}
    (h : P (.returned value) []) :
    Emits (pure value : Action (σ × List ε) α) P :=
  fun _ log => ⟨[], (List.append_nil log).symm, h⟩

theorem emits_panic {P : Outcome α → List ε → Prop} (h : P .panicked []) :
    Emits (panic : Action (σ × List ε) α) P :=
  fun _ log => ⟨[], (List.append_nil log).symm, h⟩

theorem emits_logged {event : Outcome α → ε} {x : Action σ α}
    {P : Outcome α → List ε → Prop}
    (h : ∀ outcome, P outcome [event outcome]) : Emits (logged event x) P :=
  fun _ _ => ⟨_, rfl, h _⟩

theorem emits_zoom {x : Action σ α} {P : Outcome α → List ε → Prop}
    (h : ∀ outcome, P outcome []) :
    Emits (zoom .fst x : Action (σ × List ε) α) P :=
  fun _ log => ⟨[], (List.append_nil log).symm, h _⟩

theorem Emits.mono {traced : Action (σ × List ε) α}
    {P Q : Outcome α → List ε → Prop} (h : Emits traced P)
    (himp : ∀ outcome events, P outcome events → Q outcome events) :
    Emits traced Q := by
  intro s log
  obtain ⟨events, hlog, hP⟩ := h s log
  exact ⟨events, hlog, himp _ _ hP⟩

theorem Emits.bind {traced : Action (σ × List ε) α}
    {next : α → Action (σ × List ε) β} {P : Outcome α → List ε → Prop}
    {Q : Outcome β → List ε → Prop} (h : Emits traced P)
    (hnext : ∀ value events, P (.returned value) events →
      Emits (next value) fun outcome later => Q outcome (events ++ later))
    (hpanic : ∀ events, P .panicked events → Q .panicked events) :
    Emits (traced >>= next) Q := by
  intro s log
  obtain ⟨events, hlog, hP⟩ := h s log
  cases htraced : traced (s, log) with
  | mk outcome s' =>
      rw [htraced] at hlog hP
      cases outcome with
      | returned value =>
          obtain ⟨later, hlater, hQ⟩ := hnext value events hP s'.1 s'.2
          rw [bind_of_returned htraced]
          refine ⟨events ++ later, ?_, hQ⟩
          rw [← List.append_assoc, ← hlog]
          exact hlater
      | panicked =>
          rw [bind_of_panicked htraced]
          exact ⟨events, hlog, hpanic events hP⟩

/-! ## Events of one kind -/

def EmitsOnly (p : ε → Prop) (traced : Action (σ × List ε) α) : Prop :=
  Emits traced fun _ events => ∀ event ∈ events, p event

theorem emitsOnly_pure (p : ε → Prop) (value : α) :
    EmitsOnly p (pure value : Action (σ × List ε) α) :=
  emits_pure (by simp)

theorem emitsOnly_logged {p : ε → Prop} {event : Outcome α → ε}
    (h : ∀ outcome, p (event outcome)) (x : Action σ α) :
    EmitsOnly p (logged event x) :=
  emits_logged (by simpa using h)

theorem EmitsOnly.bind {p : ε → Prop} {traced : Action (σ × List ε) α}
    {next : α → Action (σ × List ε) β} (h : EmitsOnly p traced)
    (hnext : ∀ value, EmitsOnly p (next value)) :
    EmitsOnly p (traced >>= next) := by
  refine Emits.bind h (fun value events hevents => ?_) fun _ hevents => hevents
  refine (hnext value).mono fun _ later hlater event hevent => ?_
  rcases List.mem_append.mp hevent with hfirst | hsecond
  · exact hevents event hfirst
  · exact hlater event hsecond

/-! ## A given list of effects -/

section Performs

variable {κ : Type} (effect : ε → κ) (unwound : ε → Prop)

/--
An execution that returns has these effects, in order, and none of them
unwound; an execution that panics has one that did.
-/
def Performs (effects : List κ) (outcome : Outcome α) (events : List ε) : Prop :=
  (∀ value, outcome = .returned value →
    events.map effect = effects ∧ ∀ event ∈ events, ¬ unwound event) ∧
    (outcome = .panicked → ∃ event ∈ events, unwound event)

variable {effect unwound}

theorem Performs.append {effects later : List κ} {value : α}
    {outcome : Outcome β} {events laterEvents : List ε}
    (h : Performs effect unwound effects (.returned value) events)
    (hlater : Performs effect unwound later outcome laterEvents) :
    Performs effect unwound (effects ++ later) outcome
      (events ++ laterEvents) := by
  obtain ⟨heffects, hreturned⟩ := h.1 value rfl
  constructor
  · intro result hresult
    obtain ⟨hlaterEffects, hlaterReturned⟩ := hlater.1 result hresult
    refine ⟨by rw [List.map_append, heffects, hlaterEffects], fun event hevent => ?_⟩
    rcases List.mem_append.mp hevent with hfirst | hsecond
    · exact hreturned event hfirst
    · exact hlaterReturned event hsecond
  · intro hpanicked
    obtain ⟨event, hevent, hunwound⟩ := hlater.2 hpanicked
    exact ⟨event, List.mem_append_right _ hevent, hunwound⟩

theorem Performs.of_panicked {effects effects' : List κ} {events : List ε}
    (h : Performs effect unwound effects (.panicked : Outcome α) events) :
    Performs effect unwound effects' (.panicked : Outcome β) events :=
  ⟨fun _ hreturned => (nomatch hreturned), fun _ => h.2 rfl⟩

theorem emits_performs_pure (value : α) :
    Emits (pure value : Action (σ × List ε) α) (Performs effect unwound []) :=
  emits_pure ⟨fun _ _ => ⟨rfl, by simp⟩, fun h => (nomatch h)⟩

variable (effect unwound) in
theorem emits_performs_logged (event : Outcome α → ε) {kind : κ}
    (hkind : ∀ outcome, effect (event outcome) = kind)
    (hunwound : ∀ outcome, unwound (event outcome) ↔ outcome = .panicked)
    (x : Action σ α) :
    Emits (logged event x) (Performs effect unwound [kind]) := by
  refine emits_logged fun outcome => ⟨fun value hvalue => ?_, fun hpanicked => ?_⟩
  · subst hvalue
    simp [hkind, hunwound]
  · exact ⟨_, List.mem_singleton_self _, (hunwound outcome).mpr hpanicked⟩

theorem emits_performs_bind {effects later : List κ}
    {traced : Action (σ × List ε) α} {next : α → Action (σ × List ε) β}
    (h : Emits traced (Performs effect unwound effects))
    (hnext : ∀ value, Emits (next value) (Performs effect unwound later)) :
    Emits (traced >>= next) (Performs effect unwound (effects ++ later)) := by
  refine h.bind (fun value events hevents => ?_) fun events hevents =>
    hevents.of_panicked
  exact (hnext value).mono fun outcome laterEvents hlater => hevents.append hlater

end Performs

end Milona.Foundation.Action
