import Milona.Foundation.Spacing

/-!
# Words of a text

The words of a text are its pieces between blanks.  Blanks around a text and
repeated blanks inside of it do not matter, and a join over a blank has the
words of its parts.
-/

namespace Milona.Foundation

def words (blank : Char → Bool) (text : List Char) : List (List Char) :=
  (text.splitOnP blank).filter fun word => !word.isEmpty

variable {blank : Char → Bool} {separator : Char}

@[simp] theorem words_nil : words blank [] = [] := by
  rw [words, List.splitOnP_nil]
  rfl

theorem words_append_cons (h : blank separator = true) (first rest : List Char) :
    words blank (first ++ separator :: rest) =
      words blank first ++ words blank rest := by
  simp only [words, List.splitOnP_append_cons first rest h, List.filter_append]

theorem words_cons (h : blank separator = true) (text : List Char) :
    words blank (separator :: text) = words blank text :=
  words_append_cons h [] text

private theorem words_append_blanks (text : List Char) {blanks : List Char}
    (h : ∀ c ∈ blanks, blank c = true) :
    words blank (text ++ blanks) = words blank text := by
  induction blanks generalizing text with
  | nil => rw [List.append_nil]
  | cons c blanks ih =>
      obtain ⟨hc, hblanks⟩ := List.forall_mem_cons.mp h
      have hnone : words blank blanks = [] := by
        simpa using ih [] hblanks
      rw [words_append_cons hc, hnone, List.append_nil]

private theorem words_blanks_append {blanks : List Char}
    (h : ∀ c ∈ blanks, blank c = true)
    (text : List Char) : words blank (blanks ++ text) = words blank text := by
  induction blanks with
  | nil => rfl
  | cons c blanks ih =>
      obtain ⟨hc, hblanks⟩ := List.forall_mem_cons.mp h
      rw [List.cons_append, words_cons hc, ih hblanks]

theorem words_trim (text : List Char) :
    words blank (trim blank text) = words blank text := by
  have hfront : words blank (text.dropWhile blank) = words blank text := by
    conv_rhs => rw [← List.takeWhile_append_dropWhile (p := blank) (l := text)]
    exact (words_blanks_append (fun c hc => List.mem_takeWhile_imp hc) _).symm
  have hback : text.dropWhile blank =
      trim blank text ++ (text.dropWhile blank).rtakeWhile blank :=
    List.rdropWhile_append_rtakeWhile.symm
  rw [← hfront, hback]
  exact (words_append_blanks _ fun c hc => List.mem_rtakeWhile_imp hc).symm

/-- Two letters in front belong to one word. -/
theorem words_cons_cons {c d : Char} (hc : blank c = false) (hd : blank d = false)
    (text : List Char) :
    words blank (c :: d :: text) =
      (words blank (d :: text)).modifyHead (c :: ·) := by
  obtain ⟨piece, pieces, hpieces⟩ :=
    List.exists_cons_of_ne_nil (List.splitOnP_ne_nil blank text)
  have hfirst : ∀ letter : Char, blank letter = false → ∀ text : List Char,
      (letter :: text).splitOnP blank =
        (text.splitOnP blank).modifyHead (letter :: ·) := by
    intro letter hletter text
    rw [List.splitOnP_cons_eq_if_modifyHead, hletter]
    rfl
  simp only [words, hfirst c hc, hfirst d hd, hpieces, List.modifyHead_cons]
  rfl

private theorem words_destutter' (c : Char) (text : List Char) :
    words blank (text.destutter' (Apart blank) c) = words blank (c :: text) := by
  induction text generalizing c with
  | nil => rfl
  | cons d text ih =>
      by_cases h : Apart blank c d
      · rw [List.destutter'_cons_pos _ h]
        cases hc : blank c with
        | true => rw [words_cons hc, words_cons hc, ih]
        | false =>
            obtain ⟨rest, hrest⟩ : ∃ rest,
                text.destutter' (Apart blank) d = d :: rest :=
              List.head?_eq_some_iff.mp (head?_destutter' d text)
            have htail := ih d
            rw [hrest] at htail ⊢
            cases hd : blank d with
            | true =>
                rw [words_cons hd, words_cons hd] at htail
                have hletter := words_append_cons hd [c]
                simp only [List.singleton_append] at hletter
                rw [hletter, hletter, htail]
            | false => rw [words_cons_cons hc hd, words_cons_cons hc hd, htail]
      · rw [List.destutter'_cons_neg _ h, ih]
        obtain ⟨hc, hd⟩ := not_not.mp h
        rw [words_cons hc, words_cons hc, words_cons hd]

theorem words_collapse (text : List Char) :
    words blank (collapse blank text) = words blank text := by
  cases text with
  | nil => rfl
  | cons c text => exact words_destutter' c text

theorem words_eq_nil_iff {text : List Char} :
    words blank text = [] ↔ ∀ c ∈ text, blank c = true := by
  induction text with
  | nil => simp
  | cons c text ih =>
      cases hc : blank c with
      | true => rw [words_cons hc, ih, List.forall_mem_cons, hc, eq_self, true_and]
      | false =>
          have hword : words blank (c :: text) ≠ [] := by
            obtain ⟨piece, pieces, hpieces⟩ :=
              List.exists_cons_of_ne_nil (List.splitOnP_ne_nil blank text)
            rw [words, List.splitOnP_cons_eq_if_modifyHead, hc, hpieces]
            simp
          simp [hword, hc]

theorem words_intercalate (h : blank separator = true) (parts : List (List Char)) :
    words blank ([separator].intercalate parts) = parts.flatMap (words blank) := by
  induction parts with
  | nil => rfl
  | cons part parts ih =>
      cases parts with
      | nil => simp
      | cons next parts =>
          rw [List.intercalate_cons_cons, List.append_assoc, List.singleton_append,
            words_append_cons h, ih]
          rfl

/-! ## Joins of the same words -/

/-- A trimmed text does not go on with blanks. -/
theorem not_words_append_separator (h : blank separator = true)
    {first more : List Char}
    (htrimmed : IsTrimmed blank (first ++ separator :: more)) :
    words blank (first ++ separator :: more) ≠ words blank first := by
  intro hsame
  rw [words_append_cons h, List.append_right_eq_self, words_eq_nil_iff] at hsame
  obtain ⟨c, hc⟩ : ∃ c, (separator :: more).getLast? = some c :=
    ⟨_, List.getLast?_eq_some_getLast (List.cons_ne_nil separator more)⟩
  have hlast := htrimmed.last c (by
    rw [List.getLast?_append_of_ne_nil _ (List.cons_ne_nil separator more), hc])
  have hblank : blank c = true := by
    rcases List.mem_cons.mp (List.mem_of_getLast? hc) with rfl | hmem
    · exact h
    · exact hsame c hmem
  rw [hlast] at hblank
  cases hblank

private theorem append_separator_inj (h : blank separator = true)
    {first second rest rest' : List Char} (hfirst : IsTrimmed blank first)
    (hsecond : IsTrimmed blank second)
    (hwords : words blank first = words blank second)
    (hjoin : first ++ separator :: rest = second ++ separator :: rest') :
    first = second ∧ rest = rest' := by
  rcases List.append_eq_append_iff.mp hjoin with
    ⟨middle, rfl, hrest⟩ | ⟨middle, rfl, hrest⟩
  · cases middle with
    | nil => exact ⟨(List.append_nil _).symm, (List.cons.inj hrest).2⟩
    | cons c middle =>
        obtain ⟨rfl, -⟩ := List.cons.inj hrest
        exact absurd hwords.symm (not_words_append_separator h hsecond)
  · cases middle with
    | nil => exact ⟨List.append_nil _, (List.cons.inj hrest).2.symm⟩
    | cons c middle =>
        obtain ⟨rfl, -⟩ := List.cons.inj hrest
        exact absurd hwords (not_words_append_separator h hfirst)

/-- Trimmed parts that hold the same words are told apart by their join. -/
theorem intercalate_inj_of_words (h : blank separator = true)
    {parts parts' : List (List Char)}
    (htrimmed : ∀ part ∈ parts, IsTrimmed blank part)
    (htrimmed' : ∀ part ∈ parts', IsTrimmed blank part)
    (hwords : parts.map (words blank) = parts'.map (words blank))
    (hjoin : [separator].intercalate parts = [separator].intercalate parts') :
    parts = parts' := by
  induction parts generalizing parts' with
  | nil => exact (List.map_eq_nil_iff.mp hwords.symm).symm
  | cons first rest ih =>
      cases parts' with
      | nil => cases hwords
      | cons second rest' =>
          obtain ⟨hhead, hrest⟩ := List.cons.inj hwords
          obtain ⟨hfirst, hrests⟩ := List.forall_mem_cons.mp htrimmed
          obtain ⟨hsecond, hrests'⟩ := List.forall_mem_cons.mp htrimmed'
          cases rest with
          | nil =>
              cases List.map_eq_nil_iff.mp hrest.symm
              simpa using hjoin
          | cons next rest =>
              cases rest' with
              | nil => cases hrest
              | cons next' rest' =>
                  rw [List.intercalate_cons_cons, List.intercalate_cons_cons,
                    List.append_assoc, List.append_assoc, List.singleton_append,
                    List.singleton_append] at hjoin
                  obtain ⟨rfl, htail⟩ :=
                    append_separator_inj h hfirst hsecond hhead hjoin
                  rw [ih hrests hrests' hrest htail]

end Milona.Foundation
