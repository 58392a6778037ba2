import Mathlib.Algebra.Order.Ring.Int
import Mathlib.Data.List.Forall2

/-!
# Decimal fields

A record of natural numbers is written field by field: each number is padded
with zeros to the width of its field and followed by the separator of the field.
`readFields` undoes `renderFields`, and where every number fits its width the
text is ordered as the numbers are.
-/

namespace Milona.Foundation

def paddedDecimal (width n : Nat) : List Char :=
  List.replicate (width - (Nat.toDigits 10 n).length) '0' ++ Nat.toDigits 10 n

structure Field where
  width : Nat
  separator : Char

def renderFields : List Field → List Nat → List Char
  | field :: layout, n :: values =>
      paddedDecimal field.width n ++ field.separator :: renderFields layout values
  | _, _ => []

def readFields : List Field → List Char → Option (List Nat)
  | [], text => if text = [] then some [] else none
  | field :: layout, text =>
      match text.takeWhile Char.isDigit, text.dropWhile Char.isDigit with
      | digit :: digits, separator :: rest =>
          if separator = field.separator then
            (readFields layout rest).map (Nat.ofDigitChars 10 (digit :: digits) 0 :: ·)
          else none
      | _, _ => none

/-- A text of the given shape, where a digit of the shape stands for any digit. -/
def MatchesTemplate (template text : List Char) : Prop :=
  List.Forall₂ (fun expected c => if expected.isDigit then c.isDigit else c = expected)
    template text

def templateOf (layout : List Field) : List Char :=
  layout.flatMap fun field => List.replicate field.width '0' ++ [field.separator]

def FitsField (field : Field) (n : Nat) : Prop :=
  0 < field.width ∧ n < 10 ^ field.width

theorem isDigit_of_mem_paddedDecimal {width n : Nat} {c : Char}
    (h : c ∈ paddedDecimal width n) : c.isDigit := by
  rcases List.mem_append.mp h with hzero | hdigit
  · rw [(List.mem_replicate.mp hzero).2]
    rfl
  · exact Nat.isDigit_of_mem_toDigits (by decide) (by decide) hdigit

theorem paddedDecimal_ne_nil (width n : Nat) : paddedDecimal width n ≠ [] := by
  simp [paddedDecimal]

theorem ofDigitChars_paddedDecimal (width n : Nat) :
    Nat.ofDigitChars 10 (paddedDecimal width n) 0 = n := by
  simp [paddedDecimal, Nat.ofDigitChars_append]

theorem length_paddedDecimal {field : Field} {n : Nat} (h : FitsField field n) :
    (paddedDecimal field.width n).length = field.width := by
  have hlength := (Nat.length_toDigits_le_iff (by decide) h.1).mpr h.2
  rw [paddedDecimal, List.length_append, List.length_replicate]
  omega

private theorem digitValue_lt {c : Char} (h : c.isDigit) :
    c.toNat - '0'.toNat < 10 := by
  have hbounds := Char.isDigit_iff_toNat.mp h
  have hzero : '0'.toNat = 48 := rfl
  have hnine : '9'.toNat = 57 := rfl
  omega

theorem ofDigitChars_cons_zero (c : Char) (text : List Char) :
    Nat.ofDigitChars 10 (c :: text) 0 =
      10 ^ text.length * (c.toNat - '0'.toNat) + Nat.ofDigitChars 10 text 0 := by
  rw [Nat.ofDigitChars_cons, Nat.ofDigitChars_eq_ofDigitChars_zero]
  simp

private theorem ofDigitChars_lt_pow {text : List Char}
    (h : ∀ c ∈ text, c.isDigit) :
    Nat.ofDigitChars 10 text 0 < 10 ^ text.length := by
  induction text with
  | nil => simp
  | cons c text ih =>
      have hhead := digitValue_lt (h c List.mem_cons_self)
      have htail := ih fun d hd => h d (List.mem_cons_of_mem _ hd)
      rw [ofDigitChars_cons_zero, List.length_cons, Nat.pow_succ]
      calc
        10 ^ text.length * (c.toNat - '0'.toNat) + Nat.ofDigitChars 10 text 0
            < 10 ^ text.length * (c.toNat - '0'.toNat) + 10 ^ text.length :=
              Nat.add_lt_add_left htail _
        _ = 10 ^ text.length * (c.toNat - '0'.toNat + 1) := (Nat.mul_succ _ _).symm
        _ ≤ 10 ^ text.length * 10 := Nat.mul_le_mul_left _ hhead

private theorem ofDigitChars_lt_of_head_lt {c d : Char}
    {first second : List Char}
    (hlength : first.length = second.length) (hfirst : ∀ x ∈ c :: first, x.isDigit)
    (h : c < d) :
    Nat.ofDigitChars 10 (c :: first) 0 < Nat.ofDigitChars 10 (d :: second) 0 := by
  have hvalue : c.toNat - '0'.toNat + 1 ≤ d.toNat - '0'.toNat := by
    have hc := Char.isDigit_iff_toNat.mp (hfirst c List.mem_cons_self)
    have hlt : c.toNat < d.toNat := h
    have hzero : '0'.toNat = 48 := rfl
    omega
  have htail := ofDigitChars_lt_pow fun x hx => hfirst x (List.mem_cons_of_mem c hx)
  rw [ofDigitChars_cons_zero, ofDigitChars_cons_zero, ← hlength]
  calc
    10 ^ first.length * (c.toNat - '0'.toNat) + Nat.ofDigitChars 10 first 0
        < 10 ^ first.length * (c.toNat - '0'.toNat) + 10 ^ first.length :=
          Nat.add_lt_add_left htail _
    _ = 10 ^ first.length * (c.toNat - '0'.toNat + 1) := (Nat.mul_succ _ _).symm
    _ ≤ 10 ^ first.length * (d.toNat - '0'.toNat) := Nat.mul_le_mul_left _ hvalue
    _ ≤ _ := Nat.le_add_right _ _

private theorem lt_of_ofDigitChars_lt {first second : List Char}
    (hlength : first.length = second.length) (hfirst : ∀ c ∈ first, c.isDigit)
    (hsecond : ∀ c ∈ second, c.isDigit)
    (h : Nat.ofDigitChars 10 first 0 < Nat.ofDigitChars 10 second 0) :
    first < second := by
  induction first generalizing second with
  | nil =>
      rw [List.length_eq_zero_iff.mp hlength.symm] at h
      exact absurd h (Nat.lt_irrefl _)
  | cons c first ih =>
      cases second with
      | nil => cases hlength
      | cons d second =>
          have htails := Nat.succ.inj hlength
          rw [List.cons_lt_cons_iff]
          rcases Nat.lt_trichotomy c.toNat d.toNat with hlt | heq | hgt
          · exact Or.inl hlt
          · have hcd := Char.toNat_inj.mp heq
            subst hcd
            rw [ofDigitChars_cons_zero, ofDigitChars_cons_zero, htails] at h
            exact Or.inr ⟨rfl, ih htails
                (fun x hx => hfirst x (List.mem_cons_of_mem _ hx))
              (fun x hx => hsecond x (List.mem_cons_of_mem _ hx))
              (Nat.lt_of_add_lt_add_left h)⟩
          · have hback := ofDigitChars_lt_of_head_lt htails.symm hsecond hgt
            exact absurd h (Nat.lt_asymm hback)

theorem paddedDecimal_lt {field : Field} {n m : Nat} (hn : FitsField field n)
    (hm : FitsField field m) (h : n < m) :
    paddedDecimal field.width n < paddedDecimal field.width m := by
  apply lt_of_ofDigitChars_lt
  · rw [length_paddedDecimal hn, length_paddedDecimal hm]
  · exact fun c hc => isDigit_of_mem_paddedDecimal hc
  · exact fun c hc => isDigit_of_mem_paddedDecimal hc
  · rwa [ofDigitChars_paddedDecimal, ofDigitChars_paddedDecimal]

theorem append_lt_append {α : Type} [LT α] {first second : List α}
    (hlength : first.length = second.length) (h : first < second) (x y : List α) :
    first ++ x < second ++ y := by
  induction h with
  | nil => cases hlength
  | rel hrel => exact List.Lex.rel hrel
  | cons _ ih => exact List.Lex.cons (ih (Nat.succ.inj hlength))

private theorem takeWhile_isDigit_append (text : List Char)
    (h : ∀ c ∈ text, c.isDigit)
    {separator : Char} (hseparator : separator.isDigit = false) (rest : List Char) :
    (text ++ separator :: rest).takeWhile Char.isDigit = text ∧
      (text ++ separator :: rest).dropWhile Char.isDigit = separator :: rest := by
  induction text with
  | nil => simp [hseparator]
  | cons c text ih =>
      have hc := h c List.mem_cons_self
      have htail := ih fun d hd => h d (List.mem_cons_of_mem _ hd)
      simpa [hc] using htail

theorem readFields_renderFields {layout : List Field} {values : List Nat}
    (hlength : layout.length = values.length)
    (h : ∀ field ∈ layout, field.separator.isDigit = false) :
    readFields layout (renderFields layout values) = some values := by
  induction layout generalizing values with
  | nil =>
      rw [List.length_eq_zero_iff.mp hlength.symm]
      rfl
  | cons field layout ih =>
      cases values with
      | nil => cases hlength
      | cons n values =>
          have htail := ih (Nat.succ.inj hlength)
            fun other hother => h other (List.mem_cons_of_mem _ hother)
          have hsplit := takeWhile_isDigit_append (paddedDecimal field.width n)
            (fun c hc => isDigit_of_mem_paddedDecimal hc)
            (h field List.mem_cons_self) (renderFields layout values)
          obtain ⟨digit, digits, hdigits⟩ :=
            List.exists_cons_of_ne_nil (paddedDecimal_ne_nil field.width n)
          rw [renderFields, readFields, hsplit.1, hsplit.2, hdigits]
          simp only [if_true]
          rw [htail, ← hdigits, ofDigitChars_paddedDecimal]
          rfl

private theorem matchesTemplate_digits (text : List Char)
    (h : ∀ c ∈ text, c.isDigit) :
    MatchesTemplate (List.replicate text.length '0') text := by
  induction text with
  | nil => exact List.Forall₂.nil
  | cons c text ih =>
      refine List.Forall₂.cons ?_ (ih fun d hd => h d (List.mem_cons_of_mem _ hd))
      exact h c List.mem_cons_self

theorem matchesTemplate_renderFields {layout : List Field} {values : List Nat}
    (h : List.Forall₂ FitsField layout values)
    (hseparator : ∀ field ∈ layout, field.separator.isDigit = false) :
    MatchesTemplate (templateOf layout) (renderFields layout values) := by
  induction h with
  | nil => exact List.Forall₂.nil
  | @cons field n layout values hfits _ ih =>
      have htail := ih fun other hother =>
        hseparator other (List.mem_cons_of_mem _ hother)
      have hdigits := matchesTemplate_digits (paddedDecimal field.width n)
        fun c hc => isDigit_of_mem_paddedDecimal hc
      rw [length_paddedDecimal hfits] at hdigits
      have hlast : MatchesTemplate (field.separator :: templateOf layout)
          (field.separator :: renderFields layout values) := by
        refine List.Forall₂.cons ?_ htail
        simp [hseparator field List.mem_cons_self]
      rw [renderFields, templateOf, List.flatMap_cons, List.append_assoc]
      exact List.rel_append hdigits hlast

theorem renderFields_lt {layout : List Field} {first second : List Nat}
    (hfirst : List.Forall₂ FitsField layout first)
    (hsecond : List.Forall₂ FitsField layout second) (h : first < second) :
    renderFields layout first < renderFields layout second := by
  induction hfirst generalizing second with
  | nil =>
      cases hsecond
      exact absurd h (List.lt_irrefl _)
  | @cons field n layout first hn _ ih =>
      cases hsecond with
      | @cons _ m _ second hm htail =>
          rw [renderFields, renderFields]
          rcases List.cons_lt_cons_iff.mp h with hlt | ⟨heq, hrest⟩
          · apply append_lt_append _ (paddedDecimal_lt hn hm hlt)
            rw [length_paddedDecimal hn, length_paddedDecimal hm]
          · subst heq
            apply List.append_left_lt
            exact List.cons_lt_cons_iff.mpr (Or.inr ⟨rfl, ih htail hrest⟩)

end Milona.Foundation
