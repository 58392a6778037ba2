import Mathlib.Data.List.Basic
import Mathlib.Data.List.Induction

/-!
# Runs

A run applies a list of events to a state from left to right.  `EachStep`
states a property of every step of a run, of the state it starts from and its
event.  Invariants carry such properties from one step to a whole run, and
`foldl_filter_related` is the purge argument: a relation that survives the
events that are kept on both sides, and the events that are erased on one side,
holds between a run and its purged run.  `LastSuch` splits a history at the last
event of a kind.
-/

namespace Milona.Foundation

variable {σ τ ε : Type}

def EachStep (next : σ → ε → σ) (P : σ → ε → Prop) : σ → List ε → Prop
  | _, [] => True
  | s, event :: events => P s event ∧ EachStep next P (next s event) events

namespace EachStep

variable {next : σ → ε → σ} {P Q : σ → ε → Prop}

@[simp] theorem nil (s : σ) : EachStep next P s [] := trivial

@[simp] theorem cons_iff {s : σ} {event : ε} {events : List ε} :
    EachStep next P s (event :: events) ↔
      P s event ∧ EachStep next P (next s event) events := Iff.rfl

instance decidable [∀ s event, Decidable (P s event)] (s : σ) :
    (events : List ε) → Decidable (EachStep next P s events)
  | [] => isTrue trivial
  | event :: events =>
      have := decidable (next s event) events
      inferInstanceAs (Decidable (P s event ∧ EachStep next P _ events))

theorem append_iff {s : σ} {before later : List ε} :
    EachStep next P s (before ++ later) ↔
      EachStep next P s before ∧
        EachStep next P (before.foldl next s) later := by
  induction before generalizing s with
  | nil => simp
  | cons event before ih => simp [ih, and_assoc]

theorem of_forall (h : ∀ s event, P s event) (s : σ) (events : List ε) :
    EachStep next P s events := by
  induction events generalizing s with
  | nil => trivial
  | cons event events ih => exact ⟨h s event, ih (next s event)⟩

theorem of_forall_mem {events : List ε} (h : ∀ event ∈ events, ∀ s, P s event) (s : σ) :
    EachStep next P s events := by
  induction events generalizing s with
  | nil => trivial
  | cons event events ih =>
      exact ⟨h event List.mem_cons_self s,
        ih (fun e he => h e (List.mem_cons_of_mem event he)) (next s event)⟩

theorem of_invariant (I : σ → Prop)
    (himp : ∀ s event, I s → Q s event → P s event)
    (hstep : ∀ s event, I s → Q s event → I (next s event))
    {s : σ} {events : List ε} (hs : I s) (h : EachStep next Q s events) :
    EachStep next P s events := by
  induction events generalizing s with
  | nil => trivial
  | cons event events ih =>
      exact ⟨himp s event hs h.1, ih (hstep s event hs h.1) h.2⟩

theorem of_step (I : σ → Prop) (himp : ∀ s event, I s → P s event)
    (hstep : ∀ s event, I s → I (next s event)) {s : σ} (hs : I s)
    (events : List ε) : EachStep next P s events := by
  induction events generalizing s with
  | nil => trivial
  | cons event events ih => exact ⟨himp s event hs, ih (hstep s event hs)⟩

theorem mono (himp : ∀ s event, Q s event → P s event) {s : σ}
    {events : List ε} (h : EachStep next Q s events) :
    EachStep next P s events :=
  of_invariant (fun _ => True) (fun s event _ => himp s event)
    (fun _ _ _ _ => trivial) trivial h

/-- Run lemma: steps that meet `Q` keep the invariant. -/
theorem foldl_invariant (I : σ → Prop)
    (hstep : ∀ s event, I s → Q s event → I (next s event))
    {s : σ} {events : List ε} (hs : I s) (h : EachStep next Q s events) :
    I (events.foldl next s) := by
  induction events generalizing s with
  | nil => exact hs
  | cons event events ih => exact ih (hstep s event hs h.1) h.2

/-- Two properties that agree where the invariant holds agree on runs. -/
theorem congr_of_invariant (I : σ → Prop)
    (hiff : ∀ s event, I s → (P s event ↔ Q s event))
    (hstep : ∀ s event, I s → Q s event → I (next s event))
    {s : σ} (hs : I s) (events : List ε) :
    EachStep next P s events ↔ EachStep next Q s events := by
  induction events generalizing s with
  | nil => simp
  | cons event events ih =>
      rw [cons_iff, cons_iff, hiff s event hs]
      constructor
      · exact fun h => ⟨h.1, (ih (hstep s event hs h.1)).mp h.2⟩
      · exact fun h => ⟨h.1, (ih (hstep s event hs h.1)).mpr h.2⟩

end EachStep

/-! ## The last event of a kind -/

/-- The last event with the property, and the events after it. -/
def LastSuch (p : ε → Prop) (events : List ε) (event : ε) (later : List ε) :
    Prop :=
  p event ∧ (∃ before, events = before ++ event :: later) ∧
    ∀ e ∈ later, ¬ p e

private theorem append_one_eq_append_cons {events before later : List ε}
    {e event : ε} :
    events ++ [e] = before ++ event :: later ↔
      (later = [] ∧ e = event ∧ events = before) ∨
        ∃ later', later = later' ++ [e] ∧ events = before ++ event :: later' := by
  constructor
  · intro h
    rcases List.eq_nil_or_concat' later with rfl | ⟨later', last, rfl⟩
    · obtain ⟨hevents, hlast⟩ := List.append_inj' h rfl
      exact .inl ⟨rfl, (List.cons.inj hlast).1, hevents⟩
    · have h' : events ++ [e] = (before ++ event :: later') ++ [last] := by
        simpa using h
      obtain ⟨hevents, hlast⟩ := List.append_inj' h' rfl
      rw [(List.cons.inj hlast).1]
      exact .inr ⟨later', rfl, hevents⟩
  · rintro (⟨rfl, rfl, rfl⟩ | ⟨later', rfl, rfl⟩)
    · rfl
    · simp

/-- An event with the property becomes the last one; others come after it. -/
theorem lastSuch_append_one {p : ε → Prop} {events later : List ε}
    {e event : ε} :
    LastSuch p (events ++ [e]) event later ↔
      (p e ∧ event = e ∧ later = []) ∨
        (¬ p e ∧ ∃ later', later = later' ++ [e] ∧
          LastSuch p events event later') := by
  simp only [LastSuch, append_one_eq_append_cons]
  constructor
  · rintro ⟨hp, ⟨before, ⟨rfl, rfl, rfl⟩ | ⟨later', rfl, rfl⟩⟩, hlater⟩
    · exact .inl ⟨hp, rfl, rfl⟩
    · refine .inr ⟨hlater e (by simp), later', rfl, hp, ⟨before, rfl⟩, ?_⟩
      exact fun e' he' => hlater e' (by simp [he'])
  · rintro (⟨hp, rfl, rfl⟩ | ⟨hp, later', rfl, hevent, ⟨before, rfl⟩, hlater⟩)
    · exact ⟨hp, ⟨events, .inl ⟨rfl, rfl, rfl⟩⟩, by simp⟩
    · refine ⟨hevent, ⟨before, .inr ⟨later', rfl, rfl⟩⟩, fun e' he' => ?_⟩
      rcases List.mem_append.mp he' with hold | hnew
      · exact hlater e' hold
      · rw [List.mem_singleton.mp hnew]
        exact hp

theorem LastSuch.unique {p : ε → Prop} {events later later' : List ε}
    {event event' : ε} (h : LastSuch p events event later)
    (h' : LastSuch p events event' later') : event = event' ∧ later = later' := by
  induction events using List.reverseRecOn generalizing later later' with
  | nil =>
      obtain ⟨-, ⟨before, hnil⟩, -⟩ := h
      simp at hnil
  | append_singleton events e ih =>
      rcases lastSuch_append_one.mp h with
        ⟨hp, rfl, rfl⟩ | ⟨hp, rest, rfl, hrest⟩ <;>
      rcases lastSuch_append_one.mp h' with
        ⟨hp', rfl, rfl⟩ | ⟨hp', rest', rfl, hrest'⟩
      · exact ⟨rfl, rfl⟩
      · exact absurd hp hp'
      · exact absurd hp' hp
      · obtain ⟨hevent, hlater⟩ := ih hrest hrest'
        exact ⟨hevent, by rw [hlater]⟩

theorem LastSuch.append {p : ε → Prop} {events later : List ε} {event : ε}
    (h : LastSuch p events event later) {rest : List ε}
    (hrest : ∀ e ∈ rest, ¬ p e) :
    LastSuch p (events ++ rest) event (later ++ rest) := by
  obtain ⟨hp, ⟨before, rfl⟩, hlater⟩ := h
  refine ⟨hp, ⟨before, by simp⟩, fun e he => ?_⟩
  rcases List.mem_append.mp he with hold | hnew
  · exact hlater e hold
  · exact hrest e hnew

/-! ## Erased events -/

/-- A run and the run without the erased events stay related. -/
theorem foldl_filter_related {R : σ → τ → Prop} {next : σ → ε → σ}
    {next' : τ → ε → τ} {keep : ε → Bool} {events : List ε}
    (hkeep : ∀ event ∈ events, keep event = true →
      ∀ s t, R s t → R (next s event) (next' t event))
    (herase : ∀ event ∈ events, keep event = false →
      ∀ s t, R s t → R (next s event) t)
    {s : σ} {t : τ} (h : R s t) :
    R (events.foldl next s) ((events.filter keep).foldl next' t) := by
  induction events generalizing s t with
  | nil => exact h
  | cons event events ih =>
      have hkeep' := fun e he => hkeep e (List.mem_cons_of_mem event he)
      have herase' := fun e he => herase e (List.mem_cons_of_mem event he)
      cases hevent : keep event with
      | true =>
          rw [List.filter_cons_of_pos hevent]
          exact ih hkeep' herase'
            (hkeep event List.mem_cons_self hevent s t h)
      | false =>
          rw [List.filter_cons_of_neg (by simp [hevent])]
          exact ih hkeep' herase'
            (herase event List.mem_cons_self hevent s t h)

end Milona.Foundation
