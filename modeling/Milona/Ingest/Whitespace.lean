import Milona.Foundation.Spacing
import Milona.Ingest.Web

/-!
# Whitespace in extracted text

`extractText` trims every text node and joins the trimmed texts, and leaves the
whitespace inside of a text node as it is.

`Html.collapse` trims the text nodes of a page and shortens every run of
whitespace in them; pages that differ only in the amount of whitespace in their
text nodes are those with the same `collapse`.
-/

namespace Milona.Ingest

open Milona.Foundation

namespace Node

def collapse (node : Node) : Node :=
  match node.value with
  | .text content =>
      ⟨node.id, .text (String.ofList
        (Foundation.collapse isWhitespace (trim isWhitespace content.toList)))⟩
  | _ => node

theorem id_collapse (node : Node) : node.collapse.id = node.id := by
  unfold collapse
  split <;> rfl

theorem isElement_collapse (node : Node) :
    node.collapse.isElement = node.isElement := by
  obtain ⟨id, value⟩ := node
  cases value <;> rfl

theorem isSelected_collapse (names : List String) (node : Node) :
    node.collapse.isSelected names = node.isSelected names := by
  obtain ⟨id, value⟩ := node
  cases value <;> rfl

theorem trimmedText_eq_some_iff {node : Node} {part : List Char} :
    node.trimmedText = some part ↔
      part ≠ [] ∧ ∃ text, node.asText = some text ∧
      trim isWhitespace text.toList = part := by
  unfold trimmedText
  cases node.asText with
  | none => simp
  | some text =>
      simp only [Option.ite_none_left_eq_some, Option.some.injEq, List.isEmpty_iff]
      constructor
      · rintro ⟨hne, rfl⟩
        exact ⟨hne, text, rfl, rfl⟩
      · rintro ⟨hne, _, rfl, rfl⟩
        exact ⟨hne, rfl⟩

theorem isTrimmed_trimmedText {node : Node} {part : List Char}
    (h : node.trimmedText = some part) :
    part ≠ [] ∧ IsTrimmed isWhitespace part := by
  obtain ⟨hne, text, -, rfl⟩ := trimmedText_eq_some_iff.mp h
  exact ⟨hne, isTrimmed_trim _⟩

theorem trimmedText_collapse (node : Node) :
    node.collapse.trimmedText =
      node.trimmedText.map (Foundation.collapse isWhitespace) := by
  obtain ⟨id, value⟩ := node
  cases value with
  | text content =>
      have htrimmed : IsTrimmed isWhitespace (trim isWhitespace content.toList) :=
        isTrimmed_trim _
      simp only [collapse, trimmedText, asText, String.toList_ofList,
        trim_eq_self (isTrimmed_collapse htrimmed), List.isEmpty_iff,
        collapse_eq_nil_iff]
      split <;> rfl
  | _ => rfl

end Node

namespace Html

def collapse (document : Html) : Html where
  nodes := document.nodes.map Node.collapse
  visits := document.visits.map (Subtree.map Node.collapse)
  ids_nodup := by
    have hids : Node.id ∘ Node.collapse = Node.id := funext Node.id_collapse
    rw [Forest.preorder_map, List.map_map, hids]
    exact document.ids_nodup
  visits_perm := by
    rw [Forest.subtrees_map]
    exact document.visits_perm.map _
  exists_root := by
    obtain ⟨tree, htree, hroot⟩ := document.exists_root
    rw [Forest.roots_map]
    refine ⟨tree.map Node.collapse, List.mem_map_of_mem htree, ?_⟩
    rwa [Subtree.map, Node.isElement_collapse]

variable (document : Html)

theorem select_collapse (names : List String) :
    document.collapse.select names =
      (document.select names).map (Subtree.map Node.collapse) := by
  simp only [select, collapse, List.filter_map, Function.comp_def, Subtree.map,
    Node.isSelected_collapse]

private theorem rootElement_collapse :
    document.collapse.rootElement = document.rootElement.map Node.collapse := by
  have hroot := (document.rootElement_eq_iff _).mp rfl
  rw [rootElement_eq_iff, collapse, Forest.roots_map, List.find?_map]
  simp only [Function.comp_def, Subtree.map, Node.isElement_collapse, hroot,
    Option.map_some]

private theorem textRoot_collapse :
    document.collapse.textRoot = document.textRoot.map Node.collapse := by
  rw [textRoot, textRoot, select_collapse, List.head?_map, rootElement_collapse]
  cases (document.select bodySelector).head? <;> rfl

private theorem noiseNodes_collapse :
    document.collapse.noiseNodes = document.noiseNodes := by
  have hids : Node.id ∘ Node.collapse = Node.id := funext Node.id_collapse
  simp only [noiseNodes, select_collapse, List.flatMap_map, Subtree.preorder_map,
    List.map_map, hids, Subtree.value_map, Node.id_collapse]

theorem textParts_collapse :
    document.collapse.textParts =
      document.textParts.map (Foundation.collapse isWhitespace) := by
  rw [textParts, textParts, textRoot_collapse, Subtree.preorder_map,
    List.filterMap_map,
    List.map_filterMap, noiseNodes_collapse]
  apply List.filterMap_congr
  intro node _
  simp only [Function.comp_apply, Node.id_collapse, Node.trimmedText_collapse]
  split <;> rfl

theorem trimmed_textParts {part : List Char} (h : part ∈ document.textParts) :
    part ≠ [] ∧ IsTrimmed isWhitespace part := by
  obtain ⟨node, -, hpart⟩ := List.mem_filterMap.mp h
  split at hpart
  · cases hpart
  · exact Node.isTrimmed_trimmedText hpart

/-- No visible text has two adjacent blanks between its first and its last word. -/
def IsSingleSpaced : Prop :=
  ∀ root, document.IsTextRoot root →
    ∀ occurrence ∈ document.nodes.occurrences [], IsVisible root occurrence →
      ∀ text, occurrence.value.asText = some text →
        SingleSpaced isWhitespace (trim isWhitespace text.toList)

theorem isSingleSpaced_iff :
    document.IsSingleSpaced ↔
      ∀ part ∈ document.textParts, SingleSpaced isWhitespace part := by
  rw [textParts_eq]
  constructor
  · intro h part hpart
    obtain ⟨occurrence, hoccurrence, hvisible⟩ := List.mem_filterMap.mp hpart
    obtain ⟨hroot, hpart⟩ := Option.ite_none_right_eq_some.mp hvisible
    obtain ⟨-, text, htext, rfl⟩ := Node.trimmedText_eq_some_iff.mp hpart
    exact h _ ((document.isTextRoot_iff _).mpr rfl) occurrence hoccurrence
      hroot text htext
  · intro h root hroot occurrence hoccurrence hvisible text htext
    rw [isTextRoot_iff] at hroot
    subst hroot
    by_cases hne : trim isWhitespace text.toList = []
    · rw [hne]
      exact .nil
    · apply h
      refine List.mem_filterMap.mpr ⟨occurrence, hoccurrence, ?_⟩
      rw [visibleText, if_pos hvisible]
      exact Node.trimmedText_eq_some_iff.mpr ⟨hne, text, htext, rfl⟩

theorem isNormalised_extractText_iff :
    IsNormalised isWhitespace (extractText document).toList ↔
    document.IsSingleSpaced := by
  rw [isSingleSpaced_iff, extractText, String.toList_ofList]
  exact isNormalised_intercalate_iff
    (fun part h => (document.trimmed_textParts h).1)
    (fun part h => (document.trimmed_textParts h).2)

private theorem textParts_collapse_eq_self (h : document.IsSingleSpaced) :
    document.collapse.textParts = document.textParts := by
  have hself : ∀ part ∈ document.textParts,
      Foundation.collapse isWhitespace part = id part := by
    intro part hpart
    exact collapse_eq_self_iff.mpr (document.isSingleSpaced_iff.mp h part hpart)
  rw [textParts_collapse, List.map_congr_left hself, List.map_id]

end Html

theorem extractText_normalised_iff {first second : Html}
    (h : first.collapse = second.collapse) :
    (IsNormalised isWhitespace (extractText first).toList ∧
        IsNormalised isWhitespace (extractText second).toList ∧
        extractText first = extractText second) ↔
      first.IsSingleSpaced ∧ second.IsSingleSpaced := by
  rw [Html.isNormalised_extractText_iff, Html.isNormalised_extractText_iff]
  constructor
  · rintro ⟨hfirst, hsecond, -⟩
    exact ⟨hfirst, hsecond⟩
  · rintro ⟨hfirst, hsecond⟩
    refine ⟨hfirst, hsecond, ?_⟩
    rw [extractText, extractText, ← first.textParts_collapse_eq_self hfirst, h,
      second.textParts_collapse_eq_self hsecond]

/-! ## A page of one text -/

def page (text : List Char) : Html where
  nodes :=
    .node ⟨0, .element "html"⟩
      (.node ⟨1, .element "body"⟩
        (.node ⟨2, .text (String.ofList text)⟩ .nil .nil) .nil)
      .nil
  visits :=
    [⟨⟨0, .element "html"⟩,
        .node ⟨1, .element "body"⟩
          (.node ⟨2, .text (String.ofList text)⟩ .nil .nil) .nil⟩,
      ⟨⟨1, .element "body"⟩, .node ⟨2, .text (String.ofList text)⟩ .nil .nil⟩,
      ⟨⟨2, .text (String.ofList text)⟩, .nil⟩]
  ids_nodup := by simp [Forest.preorder]
  visits_perm := .rfl
  exists_root := by simp [Forest.roots, Node.isElement]

theorem extractText_page (text : List Char) :
    extractText (page text) = String.ofList (trim isWhitespace text) := by
  have hparts : (page text).textParts =
      [(⟨2, .text (String.ofList text)⟩ : Node)].filterMap Node.trimmedText := rfl
  rw [extractText, hparts]
  cases htrim : trim isWhitespace text with
  | nil => simp [Node.trimmedText, Node.asText, htrim]
  | cons c rest => simp [Node.trimmedText, Node.asText, htrim]

theorem collapse_page {first second : List Char}
    (h : Foundation.collapse isWhitespace (trim isWhitespace first) =
      Foundation.collapse isWhitespace (trim isWhitespace second)) :
    (page first).collapse = (page second).collapse := by
  have hnode : (⟨2, .text (String.ofList first)⟩ : Node).collapse =
      (⟨2, .text (String.ofList second)⟩ : Node).collapse := by
    simp only [Node.collapse, String.toList_ofList, h]
  ext1
  · simp only [Html.collapse, page, Forest.map, hnode]
  · simp only [Html.collapse, page, Subtree.map, Forest.map, hnode, List.map_cons]

theorem extractText_normalised_iff_page :
    (page [' ', 'a', '\n', 'b']).collapse = (page ['a', '\n', 'b']).collapse ∧
      ((IsNormalised isWhitespace
          (extractText (page [' ', 'a', '\n', 'b'])).toList ∧
          IsNormalised isWhitespace (extractText (page ['a', '\n', 'b'])).toList ∧
          extractText (page [' ', 'a', '\n', 'b']) =
            extractText (page ['a', '\n', 'b'])) ↔
        (page [' ', 'a', '\n', 'b']).IsSingleSpaced ∧
          (page ['a', '\n', 'b']).IsSingleSpaced) :=
  ⟨collapse_page rfl, extractText_normalised_iff (collapse_page rfl)⟩

theorem doubled_space_stays :
    (page ['a', ' ', ' ', 'b']).collapse = (page ['a', ' ', 'b']).collapse ∧
      ¬ IsNormalised isWhitespace
          (extractText (page ['a', ' ', ' ', 'b'])).toList ∧
      extractText (page ['a', ' ', ' ', 'b']) ≠
        extractText (page ['a', ' ', 'b']) := by
  have htext : trim isWhitespace ['a', ' ', ' ', 'b'] = ['a', ' ', ' ', 'b'] := rfl
  refine ⟨collapse_page rfl, ?_, ?_⟩
  · rw [extractText_page, String.toList_ofList, htext]
    intro h
    have hspaced := collapse_eq_self_iff.mpr h.spaced
    cases hspaced
  · rw [extractText_page, extractText_page]
    intro h
    cases String.ofList_injective h

end Milona.Ingest
