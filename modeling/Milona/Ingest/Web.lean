import Milona.Foundation.Forest
import Milona.Foundation.Text

/-!
# Text of a web page

`extractText` collects the text under the body of a page, outside of scripts,
styles and `noscript`.

The parse of the page is given.  It is the forest of the nodes under the
document, with distinct identifiers, and the order in which `select` visits
them; the parser always makes a root element.
-/

namespace Milona.Ingest

open Milona.Foundation

inductive NodeValue where
  | element (name : String)
  | text (content : String)
  | other
  deriving DecidableEq

structure Node where
  id : Nat
  value : NodeValue
  deriving DecidableEq

namespace Node

def isElement (node : Node) : Bool :=
  match node.value with
  | .element _ => true
  | _ => false

def asText (node : Node) : Option String :=
  match node.value with
  | .text content => some content
  | _ => none

def isSelected (names : List String) (node : Node) : Bool :=
  match node.value with
  | .element name => name ∈ names
  | _ => false

def trimmedText (node : Node) : Option (List Char) :=
  match node.asText with
  | some text =>
      let trimmed := trim isWhitespace text.toList
      if trimmed.isEmpty then none else some trimmed
  | none => none

end Node

@[ext]
structure Html where
  nodes : Forest Node
  visits : List (Subtree Node)
  ids_nodup : (nodes.preorder.map Node.id).Nodup
  visits_perm : visits.Perm nodes.subtrees
  exists_root : ∃ tree ∈ nodes.roots, tree.value.isElement

def noiseSelector : List String := ["script", "style", "noscript"]

def bodySelector : List String := ["body"]

namespace Html

variable (document : Html)

def select (names : List String) : List (Subtree Node) :=
  document.visits.filter (·.value.isSelected names)

def rootElement : Subtree Node :=
  (document.nodes.roots.find? (·.value.isElement)).get
    (List.find?_isSome.mpr document.exists_root)

def textRoot : Subtree Node :=
  (document.select bodySelector).head?.getD document.rootElement

def noiseNodes : List Nat :=
  (document.select noiseSelector).flatMap fun el =>
    el.preorder.map Node.id ++ [el.value.id]

def textParts : List (List Char) :=
  document.textRoot.preorder.filterMap fun node =>
    if node.id ∈ document.noiseNodes then none else node.trimmedText

end Html

def extractText (document : Html) : String :=
  String.ofList ([' '].intercalate document.textParts)

/-! ## Visible text -/

namespace Html

/-- The first body that is visited; without a body, the first element of the page. -/
inductive IsTextRoot (document : Html) (root : Subtree Node) : Prop
  | body (before after : List (Subtree Node))
      (hvisits : document.visits = before ++ root :: after)
      (hroot : root.value.isSelected bodySelector)
      (hbefore : ∀ tree ∈ before, tree.value.isSelected bodySelector = false)
  | rootElement (before after : List (Subtree Node))
      (hnone : ∀ tree ∈ document.nodes.subtrees,
        tree.value.isSelected bodySelector = false)
      (hroots : document.nodes.roots = before ++ root :: after)
      (hroot : root.value.isElement)
      (hbefore : ∀ tree ∈ before, tree.value.isElement = false)

end Html

/-- At or under the root, and neither in a noise element nor one itself. -/
def IsVisible (root : Subtree Node) (occurrence : Occurrence Node) : Prop :=
  root.value ∈ occurrence.chain ∧
    ∀ node ∈ occurrence.chain, node.isSelected noiseSelector = false

instance (root : Subtree Node) (occurrence : Occurrence Node) :
    Decidable (IsVisible root occurrence) :=
  inferInstanceAs (Decidable (_ ∧ _))

def visibleText (root : Subtree Node) (occurrence : Occurrence Node) :
    Option (List Char) :=
  if IsVisible root occurrence then occurrence.value.trimmedText else none

namespace Html

variable (document : Html)

theorem preorder_nodup : document.nodes.preorder.Nodup :=
  document.ids_nodup.of_map

theorem mem_select {names : List String} {tree : Subtree Node} :
    tree ∈ document.select names ↔
      tree ∈ document.nodes.subtrees ∧ tree.value.isSelected names := by
  rw [select, List.mem_filter, document.visits_perm.mem_iff]

private theorem head?_select (names : List String) :
    (document.select names).head? = document.visits.find? (·.value.isSelected names) :=
  List.head?_filter ..

theorem rootElement_eq_iff (root : Subtree Node) :
    document.rootElement = root ↔
      document.nodes.roots.find? (·.value.isElement) = some root := by
  rw [Option.eq_some_iff_get_eq]
  exact ⟨fun h => ⟨_, h⟩, fun ⟨_, h⟩ => h⟩

theorem isTextRoot_iff (root : Subtree Node) :
    document.IsTextRoot root ↔ document.textRoot = root := by
  rw [textRoot, head?_select]
  constructor
  · rintro (⟨before, after, hvisits, hroot, hbefore⟩ |
      ⟨before, after, hnone, hroots, hroot, hbefore⟩)
    · have hfind : document.visits.find? (·.value.isSelected bodySelector) = some root :=
        List.find?_eq_some_iff_append.mpr
          ⟨hroot, before, after, hvisits, by simpa using hbefore⟩
      rw [hfind, Option.getD_some]
    · have hfind : document.visits.find? (·.value.isSelected bodySelector) = none := by
        rw [List.find?_eq_none]
        intro tree htree
        simp [hnone tree (document.visits_perm.mem_iff.mp htree)]
      rw [hfind, Option.getD_none, rootElement_eq_iff, List.find?_eq_some_iff_append]
      exact ⟨hroot, before, after, hroots, by simpa using hbefore⟩
  · intro h
    cases hfind : document.visits.find? (·.value.isSelected bodySelector) with
    | some body =>
        rw [hfind, Option.getD_some] at h
        subst h
        obtain ⟨hroot, before, after, hvisits, hbefore⟩ :=
          List.find?_eq_some_iff_append.mp hfind
        exact .body before after hvisits hroot (by simpa using hbefore)
    | none =>
        rw [hfind, Option.getD_none, rootElement_eq_iff] at h
        obtain ⟨hroot, before, after, hroots, hbefore⟩ :=
          List.find?_eq_some_iff_append.mp h
        refine .rootElement before after ?_ hroots hroot (by simpa using hbefore)
        intro tree htree
        simpa using
          List.find?_eq_none.mp hfind tree (document.visits_perm.mem_iff.mpr htree)

theorem textRoot_mem : document.textRoot ∈ document.nodes.subtrees := by
  rcases (document.isTextRoot_iff _).mpr rfl with
    ⟨before, after, hvisits, -, -⟩ | ⟨before, after, -, hroots, -, -⟩
  · rw [← document.visits_perm.mem_iff, hvisits]
    exact List.mem_append_right _ List.mem_cons_self
  · apply (Forest.roots_sublist_subtrees _).subset
    rw [hroots]
    exact List.mem_append_right _ List.mem_cons_self

private theorem value_eq_of_id_eq {first second : Node}
    (hfirst : first ∈ document.nodes.preorder)
    (hsecond : second ∈ document.nodes.preorder) (h : first.id = second.id) :
    first = second :=
  List.inj_on_of_nodup_map document.ids_nodup hfirst hsecond h

private theorem mem_noiseNodes {id : Nat} :
    id ∈ document.noiseNodes ↔
      ∃ tree ∈ document.nodes.subtrees, tree.value.isSelected noiseSelector ∧
        ∃ node ∈ tree.preorder, node.id = id := by
  simp only [noiseNodes, List.mem_flatMap, mem_select, List.mem_append, List.mem_map,
    List.mem_singleton, and_assoc]
  refine exists_congr fun tree => and_congr_right' (and_congr_right' ?_)
  constructor
  · rintro (hbelow | rfl)
    · exact hbelow
    · exact ⟨tree.value, List.mem_cons_self, rfl⟩
  · exact Or.inl

/-- An identifier is noise where a noise element stands at or above its node. -/
theorem id_mem_noiseNodes_iff {occurrence : Occurrence Node}
    (h : occurrence ∈ document.nodes.occurrences []) :
    occurrence.value.id ∈ document.noiseNodes ↔
      ∃ node ∈ occurrence.chain, node.isSelected noiseSelector := by
  rw [mem_noiseNodes]
  constructor
  · rintro ⟨tree, htree, hnoise, node, hnode, hid⟩
    have hbelow : node ∈ document.nodes.preorder :=
      Forest.mem_preorder_of_mem_subtree htree hnode
    have hsame : node = occurrence.value :=
      document.value_eq_of_id_eq hbelow (Forest.value_mem_of_mem_occurrences h) hid
    subst hsame
    exact ⟨tree.value,
      (Forest.mem_chain_iff document.preorder_nodup h _).mpr ⟨tree, htree, rfl, hnode⟩,
      hnoise⟩
  · rintro ⟨node, hnode, hnoise⟩
    obtain ⟨tree, htree, rfl, hbelow⟩ :=
      (Forest.mem_chain_iff document.preorder_nodup h _).mp hnode
    exact ⟨tree, htree, hnoise, occurrence.value, hbelow, rfl⟩

private theorem preorder_textRoot :
    document.textRoot.preorder =
      ((document.nodes.occurrences []).filter
        (document.textRoot.value ∈ ·.chain)).map Occurrence.value := by
  obtain ⟨higher, hfilter⟩ := Forest.filter_chain_subtree []
    document.preorder_nodup (fun _ _ => List.not_mem_nil) document.textRoot_mem
  rw [hfilter, Subtree.map_value_occurrences]

theorem textParts_eq :
    document.textParts =
      (document.nodes.occurrences []).filterMap (visibleText document.textRoot) := by
  rw [textParts, preorder_textRoot, List.filterMap_map, List.filterMap_filter]
  apply List.filterMap_congr
  intro occurrence hoccurrence
  have hnoise := document.id_mem_noiseNodes_iff hoccurrence
  by_cases hroot : document.textRoot.value ∈ occurrence.chain
  · by_cases hid : occurrence.value.id ∈ document.noiseNodes
    · have hhidden : ¬ IsVisible document.textRoot occurrence := by
        intro hvisible
        obtain ⟨node, hnode, hselected⟩ := hnoise.mp hid
        rw [hvisible.2 node hnode] at hselected
        cases hselected
      simp [visibleText, hhidden, hid]
    · have hvisible : IsVisible document.textRoot occurrence := by
        refine ⟨hroot, fun node hnode => ?_⟩
        rw [← Bool.not_eq_true]
        exact fun hselected => hid (hnoise.mpr ⟨node, hnode, hselected⟩)
      simp [visibleText, hvisible, hroot, hid]
  · simp [visibleText, IsVisible, hroot]

end Html

end Milona.Ingest
