import Mathlib.Data.List.Destutter
import Milona.Foundation.Text

/-!
# Runs of blanks

A text is single spaced when no two blanks stand next to each other, and
normalised when it is trimmed besides.  `collapse` shortens every run of blanks
to its first one.
-/

namespace Milona.Foundation

variable (blank : Char → Bool)

def Apart (first second : Char) : Prop := ¬ (blank first ∧ blank second)

instance : DecidableRel (Apart blank) := fun _ _ => inferInstanceAs (Decidable (¬ _))

def SingleSpaced (text : List Char) : Prop := text.IsChain (Apart blank)

structure IsNormalised (text : List Char) : Prop extends IsTrimmed blank text where
  spaced : SingleSpaced blank text

def collapse (text : List Char) : List Char := text.destutter (Apart blank)

variable {blank}

theorem apart_of_left {first second : Char} (h : blank first = false) :
    Apart blank first second := by
  rintro ⟨hfirst, -⟩
  rw [h] at hfirst
  cases hfirst

theorem apart_of_right {first second : Char} (h : blank second = false) :
    Apart blank first second := by
  rintro ⟨-, hsecond⟩
  rw [h] at hsecond
  cases hsecond

theorem collapse_eq_self_iff {text : List Char} :
    collapse blank text = text ↔ SingleSpaced blank text :=
  List.destutter_eq_self_iff _ text

theorem collapse_eq_nil_iff {text : List Char} : collapse blank text = [] ↔ text = [] :=
  List.destutter_eq_nil _

theorem head?_destutter' (c : Char) (text : List Char) :
    (text.destutter' (Apart blank) c).head? = some c := by
  induction text generalizing c with
  | nil => rfl
  | cons d text ih =>
      rw [List.destutter'_cons]
      split
      · rfl
      · exact ih c

private theorem getLast?_destutter' {c e : Char} {text : List Char}
    (hlast : (c :: text).getLast? = some e) (he : blank e = false) :
    (text.destutter' (Apart blank) c).getLast? = some e := by
  induction text generalizing c with
  | nil => exact hlast
  | cons d text ih =>
      rw [List.getLast?_cons_cons] at hlast
      by_cases h : Apart blank c d
      · rw [List.destutter'_cons_pos _ h]
        have htail := ih hlast
        cases hdestutter : text.destutter' (Apart blank) d with
        | nil => exact absurd hdestutter (List.destutter'_ne_nil _ _)
        | cons x rest =>
            rw [hdestutter] at htail
            rwa [List.getLast?_cons_cons]
      · rw [List.destutter'_cons_neg _ h]
        cases text with
        | nil =>
            cases hlast
            exact absurd (apart_of_right he) h
        | cons x rest =>
            apply ih
            rwa [List.getLast?_cons_cons] at hlast ⊢

theorem isTrimmed_collapse {text : List Char} (h : IsTrimmed blank text) :
    IsTrimmed blank (collapse blank text) := by
  cases text with
  | nil => exact h
  | cons c text =>
      rw [collapse, List.destutter_cons']
      constructor
      · intro d hd
        rw [head?_destutter'] at hd
        exact h.head d hd
      · intro d hd
        obtain ⟨e, he⟩ : ∃ e, (c :: text).getLast? = some e :=
          ⟨_, List.getLast?_eq_some_getLast (List.cons_ne_nil c text)⟩
        have hblank := h.last e he
        rw [getLast?_destutter' he hblank] at hd
        cases hd
        exact hblank

theorem isTrimmed_trim (text : List Char) : IsTrimmed blank (trim blank text) where
  head := by
    intro c hc
    have hprefix : trim blank text <+: text.dropWhile blank := List.rdropWhile_prefix _ _
    have hhead : (text.dropWhile blank).head? = some c := by
      obtain ⟨rest, hrest⟩ := hprefix
      rw [← hrest, List.head?_append, hc]
      rfl
    have hnot := List.head?_dropWhile_not blank text
    rwa [hhead] at hnot
  last := by
    intro c hc
    have hne : trim blank text ≠ [] := by
      intro hnil
      rw [hnil] at hc
      cases hc
    have hlast := List.rdropWhile_last_not blank (text.dropWhile blank) hne
    rw [List.getLast?_eq_some_getLast hne] at hc
    cases hc
    exact eq_false_of_ne_true hlast

section Join

variable {first second : List Char} {separator : Char} {parts : List (List Char)}

theorem isTrimmed_append (hfirst : first ≠ []) (hsecond : second ≠ [])
    (hhead : IsTrimmed blank first) (hlast : IsTrimmed blank second)
    (middle : List Char) : IsTrimmed blank (first ++ middle ++ second) := by
  constructor
  · intro c hc
    rw [List.append_assoc, List.head?_append_of_ne_nil _ hfirst] at hc
    exact hhead.head c hc
  · intro c hc
    rw [List.getLast?_append_of_ne_nil _ hsecond] at hc
    exact hlast.last c hc

theorem singleSpaced_append_iff (hfirst : IsTrimmed blank first)
    (hsecond : IsTrimmed blank second) :
    SingleSpaced blank (first ++ [separator] ++ second) ↔
      SingleSpaced blank first ∧ SingleSpaced blank second := by
  unfold SingleSpaced
  rw [List.append_assoc, List.isChain_append, List.singleton_append, List.isChain_cons]
  constructor
  · rintro ⟨hleft, ⟨-, hright⟩, -⟩
    exact ⟨hleft, hright⟩
  · rintro ⟨hleft, hright⟩
    exact ⟨hleft, ⟨fun c hc => apart_of_right (hsecond.head c hc), hright⟩,
      fun c hc _ _ => apart_of_left (hfirst.last c hc)⟩

private theorem intercalate_ne_nil {part : List Char} (h : part ≠ []) :
    [separator].intercalate (part :: parts) ≠ [] := by
  cases parts with
  | nil => rwa [List.intercalate_singleton]
  | cons next parts => simp [h]

theorem isTrimmed_intercalate (hne : ∀ part ∈ parts, part ≠ [])
    (htrimmed : ∀ part ∈ parts, IsTrimmed blank part) :
    IsTrimmed blank ([separator].intercalate parts) := by
  induction parts with
  | nil => exact ⟨fun _ h => (nomatch h), fun _ h => (nomatch h)⟩
  | cons part parts ih =>
      obtain ⟨hpart, hparts⟩ := List.forall_mem_cons.mp hne
      obtain ⟨htrim, htrims⟩ := List.forall_mem_cons.mp htrimmed
      cases parts with
      | nil => rwa [List.intercalate_singleton]
      | cons next parts =>
          rw [List.intercalate_cons_cons]
          exact isTrimmed_append hpart
            (intercalate_ne_nil (hparts next List.mem_cons_self)) htrim
            (ih hparts htrims) _

theorem singleSpaced_intercalate_iff (hne : ∀ part ∈ parts, part ≠ [])
    (htrimmed : ∀ part ∈ parts, IsTrimmed blank part) :
    SingleSpaced blank ([separator].intercalate parts) ↔
      ∀ part ∈ parts, SingleSpaced blank part := by
  induction parts with
  | nil => simp [SingleSpaced]
  | cons part parts ih =>
      have hparts := (List.forall_mem_cons.mp hne).2
      obtain ⟨htrim, htrims⟩ := List.forall_mem_cons.mp htrimmed
      cases parts with
      | nil => simp
      | cons next parts =>
          rw [List.intercalate_cons_cons,
            singleSpaced_append_iff htrim (isTrimmed_intercalate hparts htrims),
            ih hparts htrims]
          exact List.forall_mem_cons.symm

/-- Only the inside of the parts can keep a join from being normalised. -/
theorem isNormalised_intercalate_iff (hne : ∀ part ∈ parts, part ≠ [])
    (htrimmed : ∀ part ∈ parts, IsTrimmed blank part) :
    IsNormalised blank ([separator].intercalate parts) ↔
      ∀ part ∈ parts, SingleSpaced blank part := by
  rw [← singleSpaced_intercalate_iff hne htrimmed]
  exact ⟨fun h => h.spaced, fun h => ⟨isTrimmed_intercalate hne htrimmed, h⟩⟩

end Join

end Milona.Foundation
