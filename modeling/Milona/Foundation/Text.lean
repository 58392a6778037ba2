import Mathlib.Data.List.DropRight

/-!
# Trimming and splitting

`trim` drops the blanks at both ends of a text, for any notion of a blank.
`splitN` splits at the first separators only, so that the last piece keeps the
separators that are left; its pieces before the last are those of `splitOn`.
-/

namespace Milona.Foundation

/-- The Unicode property `White_Space`. -/
def isWhitespace (c : Char) : Bool :=
  (9 ≤ c.val && c.val ≤ 13) || c.val = 0x20 || c.val = 0x85 || c.val = 0xA0 ||
    c.val = 0x1680 || (0x2000 ≤ c.val && c.val ≤ 0x200A) || c.val = 0x2028 ||
    c.val = 0x2029 || c.val = 0x202F || c.val = 0x205F || c.val = 0x3000

section Trim

variable (blank : Char → Bool)

def trim (text : List Char) : List Char :=
  (text.dropWhile blank).rdropWhile blank

/-- No blank at either end. -/
structure IsTrimmed (text : List Char) : Prop where
  head : ∀ c, text.head? = some c → blank c = false
  last : ∀ c, text.getLast? = some c → blank c = false

variable {blank}

theorem dropWhile_eq_self {text : List Char}
    (h : ∀ c, text.head? = some c → blank c = false) : text.dropWhile blank = text := by
  cases text with
  | nil => rfl
  | cons c text => simp [h c rfl]

theorem rdropWhile_eq_self {text : List Char}
    (h : ∀ c, text.getLast? = some c → blank c = false) :
    text.rdropWhile blank = text := by
  rw [List.rdropWhile, dropWhile_eq_self, List.reverse_reverse]
  intro c hc
  exact h c (by rwa [List.head?_reverse] at hc)

theorem trim_eq_self {text : List Char} (h : IsTrimmed blank text) :
    trim blank text = text := by
  rw [trim, dropWhile_eq_self h.head, rdropWhile_eq_self h.last]

theorem trim_eq_nil {text : List Char} (h : ∀ c ∈ text, blank c) :
    trim blank text = [] := by
  rw [trim, List.dropWhile_eq_nil_iff.mpr h]
  rfl

private theorem rdropWhile_append_blanks (text : List Char) {blanks : List Char}
    (h : ∀ c ∈ blanks, blank c) :
    (text ++ blanks).rdropWhile blank = text.rdropWhile blank := by
  rw [List.rdropWhile, List.reverse_append, List.dropWhile_append_of_pos]
  · rfl
  · intro c hc
    exact h c (List.mem_reverse.mp hc)

theorem trim_pad {before text after : List Char} (hbefore : ∀ c ∈ before, blank c)
    (hafter : ∀ c ∈ after, blank c) (htext : IsTrimmed blank text) :
    trim blank (before ++ text ++ after) = text := by
  rw [trim, List.append_assoc, List.dropWhile_append_of_pos hbefore]
  cases text with
  | nil =>
      rw [List.nil_append, List.dropWhile_eq_nil_iff.mpr hafter]
      rfl
  | cons c text =>
      rw [List.cons_append, List.dropWhile_cons_of_neg (by simp [htext.head c rfl]),
        ← List.cons_append, rdropWhile_append_blanks _ hafter,
        rdropWhile_eq_self htext.last]

end Trim

section Split

variable (separator : Char)

def splitN : Nat → List Char → List (List Char)
  | 0, _ => []
  | 1, text => [text]
  | pieces + 2, text =>
      match text.dropWhile (· ≠ separator) with
      | [] => [text]
      | _ :: rest =>
          text.takeWhile (· ≠ separator) :: splitN (pieces + 1) rest

variable {separator}

theorem separated_or_not (separator : Char) (text : List Char) :
    separator ∉ text ∨
      ∃ first rest, separator ∉ first ∧ text = first ++ separator :: rest := by
  by_cases h : separator ∈ text
  · obtain ⟨first, rest, htext, hfirst⟩ := List.eq_append_cons_of_mem h
    exact Or.inr ⟨first, rest, hfirst, htext⟩
  · exact Or.inl h

theorem splitN_of_notMem {text : List Char} (h : separator ∉ text) (pieces : Nat) :
    splitN separator (pieces + 1) text = [text] := by
  cases pieces with
  | zero => rfl
  | succ pieces =>
      have hdrop : text.dropWhile (· ≠ separator) = [] := by
        rw [List.dropWhile_eq_nil_iff]
        intro c hc
        simpa using ne_of_mem_of_not_mem hc h
      rw [splitN, hdrop]

theorem splitN_append {first : List Char} (h : separator ∉ first) (pieces : Nat)
    (rest : List Char) :
    splitN separator (pieces + 2) (first ++ separator :: rest) =
      first :: splitN separator (pieces + 1) rest := by
  have hall : ∀ c ∈ first, decide (c ≠ separator) = true := by
    intro c hc
    simpa using ne_of_mem_of_not_mem hc h
  rw [splitN, List.dropWhile_append_of_pos hall, List.takeWhile_append_of_pos hall]
  simp

theorem length_splitN (pieces : Nat) (text : List Char) :
    (splitN separator (pieces + 1) text).length =
      min (pieces + 1) (text.splitOn separator).length := by
  induction pieces generalizing text with
  | zero =>
      rcases separated_or_not separator text with h | ⟨first, rest, h, rfl⟩
      · rw [List.splitOn_eq_singleton h]
        rfl
      · rw [List.splitOn_append_cons_self_of_not_mem h]
        simp [splitN]
  | succ pieces ih =>
      rcases separated_or_not separator text with h | ⟨first, rest, h, rfl⟩
      · rw [List.splitOn_eq_singleton h, splitN_of_notMem h]
        simp
      · rw [List.splitOn_append_cons_self_of_not_mem h, splitN_append h, List.length_cons,
          List.length_cons, ih]
        omega

/-- The pieces before the last are those of an unbounded split. -/
theorem getElem?_splitN {pieces index : Nat} (text : List Char) (h : index < pieces) :
    (splitN separator (pieces + 1) text)[index]? = (text.splitOn separator)[index]? := by
  induction pieces generalizing text index with
  | zero => omega
  | succ pieces ih =>
      rcases separated_or_not separator text with hnone | ⟨first, rest, hfirst, rfl⟩
      · rw [List.splitOn_eq_singleton hnone, splitN_of_notMem hnone]
      · rw [List.splitOn_append_cons_self_of_not_mem hfirst, splitN_append hfirst]
        cases index with
        | zero => rfl
        | succ index => exact ih rest (by omega)

end Split

end Milona.Foundation
