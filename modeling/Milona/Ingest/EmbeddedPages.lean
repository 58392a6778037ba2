import Milona.Ingest.Embedder
import Milona.Ingest.Whitespace

/-!
# Embeddings of pages

The embedder sees the words of a text only.  The words of an extracted text are
those of the visible text nodes, in document order: the join neither glues two
words nor cuts one.  So the whitespace that extraction leaves inside of a text
node never reaches the embedding.
-/

namespace Milona.Ingest

open Milona.Core Milona.Foundation

def textWords (node : Node) : List (List Char) :=
  match node.asText with
  | some text => splitWhitespace text
  | none => []

/-- The words of the visible text nodes of a page, in document order. -/
def visibleWords (document : Html) (root : Subtree Node) : List (List Char) :=
  (document.nodes.occurrences []).flatMap fun occurrence =>
    if IsVisible root occurrence then textWords occurrence.value else []

theorem isWhitespace_space : isWhitespace ' ' = true := by decide

private theorem words_visibleText (root : Subtree Node)
    (occurrence : Occurrence Node) :
    (visibleText root occurrence).toList.flatMap (words isWhitespace) =
      if IsVisible root occurrence then textWords occurrence.value else [] := by
  unfold visibleText
  split
  · unfold Node.trimmedText textWords
    cases occurrence.value.asText with
    | none => rfl
    | some text =>
        have htrim : words isWhitespace (trim isWhitespace text.toList) =
            splitWhitespace text := words_trim text.toList
        dsimp only
        split
        next hblank =>
          rw [← htrim, List.isEmpty_iff.mp hblank]
          rfl
        next => simpa using htrim
  · rfl

theorem words_extractText (document : Html) :
    splitWhitespace (extractText document) =
      document.textParts.flatMap (words isWhitespace) := by
  rw [extractText, splitWhitespace, String.toList_ofList]
  exact words_intercalate isWhitespace_space document.textParts

/-- Extraction neither glues two visible words nor cuts one. -/
theorem splitWhitespace_extractText {document : Html} {root : Subtree Node}
    (hroot : document.IsTextRoot root) :
    splitWhitespace (extractText document) = visibleWords document root := by
  rw [words_extractText, document.textParts_eq, (document.isTextRoot_iff root).mp hroot,
    visibleWords, List.filterMap_eq_flatMap_toList, List.flatMap_assoc]
  exact List.flatMap_congr fun occurrence _ => words_visibleText root occurrence

private theorem splitWhitespace_collapse (document : Html) :
    splitWhitespace (extractText document.collapse) =
      splitWhitespace (extractText document) := by
  rw [words_extractText, words_extractText, document.textParts_collapse, List.flatMap_map]
  exact List.flatMap_congr fun part _ => words_collapse part

/-- Pages that differ only in whitespace have the same text if they have the same parts. -/
theorem extractText_inj_of_collapse {first second : Html}
    (h : first.collapse = second.collapse) :
    extractText first = extractText second ↔ first.textParts = second.textParts := by
  constructor
  · intro htext
    refine intercalate_inj_of_words isWhitespace_space
      (fun part hpart => (first.trimmed_textParts hpart).2)
      (fun part hpart => (second.trimmed_textParts hpart).2) ?_
      (String.ofList_injective htext)
    have hparts := congrArg Html.textParts h
    rw [Html.textParts_collapse, Html.textParts_collapse] at hparts
    have hwords := congrArg (List.map (words isWhitespace)) hparts
    have hcollapse : words isWhitespace ∘ Foundation.collapse isWhitespace =
        words isWhitespace := funext words_collapse
    rwa [List.map_map, List.map_map, hcollapse] at hwords
  · intro hparts
    rw [extractText, extractText, hparts]

namespace MockEmbedder

variable (hasher : Hasher) (embedder : MockEmbedder)

/--
The words of an extracted text are those of the visible text nodes, and a page
embeds as these words.  So pages that differ only in the amount of whitespace
embed alike, while their texts are the same only if all parts are.
-/
theorem embed_extractText {first second : Html} (h : first.collapse = second.collapse) :
    (∃ root, first.IsTextRoot root) ∧
    (∀ root, first.IsTextRoot root →
      splitWhitespace (extractText first) = visibleWords first root ∧
      embed hasher embedder (extractText first) =
        embedWords hasher embedder (visibleWords first root)) ∧
    embed hasher embedder (extractText second) =
      embed hasher embedder (extractText first) ∧
    (extractText second = extractText first ↔ second.textParts = first.textParts) := by
  refine ⟨⟨first.textRoot, (first.isTextRoot_iff _).mpr rfl⟩, fun root hroot => ?_, ?_,
    extractText_inj_of_collapse h.symm⟩
  · have hwords := splitWhitespace_extractText hroot
    exact ⟨hwords, by rw [embed, hwords]⟩
  · rw [embed, embed, ← splitWhitespace_collapse first,
      ← splitWhitespace_collapse second, h]

/-- Two pages with the same words and different texts. -/
theorem embed_extractText_doubledSpace :
    let hasher : Hasher := fun bytes dim => UInt64.ofNat (bytes.length + dim)
    let embedder : MockEmbedder := ⟨3, by decide⟩
    let first := page ['a', ' ', ' ', 'b']
    let second := page ['a', ' ', 'b']
    extractText second ≠ extractText first ∧
    (∃ root, first.IsTextRoot root) ∧
    (∀ root, first.IsTextRoot root →
      splitWhitespace (extractText first) = visibleWords first root ∧
      embed hasher embedder (extractText first) =
        embedWords hasher embedder (visibleWords first root)) ∧
    embed hasher embedder (extractText second) =
      embed hasher embedder (extractText first) ∧
    (extractText second = extractText first ↔ second.textParts = first.textParts) := by
  refine ⟨?_, embed_extractText _ _ (collapse_page rfl)⟩
  rw [extractText_page, extractText_page]
  intro h
  cases String.ofList_injective h

end MockEmbedder

end Milona.Ingest
