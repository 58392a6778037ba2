import Mathlib.Data.List.Nodup

/-!
# Ordered forests

The nodes of a forest are read in pre-order: a node, what is below it, what
comes after it.  An `Occurrence` is a node with the nodes above it, the nearest
first.

In a forest of distinct values the occurrences below a node are those whose
chain of ancestors goes through it, and they stand together in the pre-order.
-/

namespace Milona.Foundation

universe u v

inductive Forest (α : Type u) where
  | nil
  | node (value : α) (children siblings : Forest α)
  deriving DecidableEq

structure Subtree (α : Type u) where
  value : α
  children : Forest α
  deriving DecidableEq

structure Occurrence (α : Type u) where
  value : α
  above : List α

variable {α : Type u} {β : Type v}

def Occurrence.chain (occurrence : Occurrence α) : List α :=
  occurrence.value :: occurrence.above

namespace Forest

def preorder : Forest α → List α
  | nil => []
  | node value children siblings =>
      value :: (children.preorder ++ siblings.preorder)

def subtrees : Forest α → List (Subtree α)
  | nil => []
  | node value children siblings =>
      ⟨value, children⟩ :: (children.subtrees ++ siblings.subtrees)

def roots : Forest α → List (Subtree α)
  | nil => []
  | node value children siblings => ⟨value, children⟩ :: siblings.roots

def occurrences : Forest α → List α → List (Occurrence α)
  | nil, _ => []
  | node value children siblings, above =>
      ⟨value, above⟩ ::
        (children.occurrences (value :: above) ++ siblings.occurrences above)

def map (f : α → β) : Forest α → Forest β
  | nil => nil
  | node value children siblings =>
      node (f value) (children.map f) (siblings.map f)

end Forest

namespace Subtree

def preorder (tree : Subtree α) : List α := tree.value :: tree.children.preorder

def occurrences (tree : Subtree α) (above : List α) : List (Occurrence α) :=
  ⟨tree.value, above⟩ :: tree.children.occurrences (tree.value :: above)

def map (f : α → β) (tree : Subtree α) : Subtree β :=
  ⟨f tree.value, tree.children.map f⟩

end Subtree

namespace Forest

theorem map_value_occurrences (forest : Forest α) (above : List α) :
    (forest.occurrences above).map Occurrence.value = forest.preorder := by
  induction forest generalizing above with
  | nil => rfl
  | node value children siblings ihChildren ihSiblings =>
      simp only [occurrences, preorder, List.map_cons, List.map_append, ihChildren,
        ihSiblings]

private theorem map_value_subtrees (forest : Forest α) :
    forest.subtrees.map Subtree.value = forest.preorder := by
  induction forest with
  | nil => rfl
  | node value children siblings ihChildren ihSiblings =>
      simp only [subtrees, preorder, List.map_cons, List.map_append, ihChildren,
        ihSiblings]

theorem roots_sublist_subtrees (forest : Forest α) :
    forest.roots.Sublist forest.subtrees := by
  induction forest with
  | nil => exact .slnil
  | node value children siblings _ ih =>
      exact (ih.trans (List.sublist_append_right _ _)).cons_cons _

theorem value_mem_preorder {forest : Forest α} {tree : Subtree α}
    (h : tree ∈ forest.subtrees) : tree.value ∈ forest.preorder := by
  rw [← map_value_subtrees]
  exact List.mem_map_of_mem h

theorem mem_preorder_of_mem_subtree {forest : Forest α} {tree : Subtree α}
    (htree : tree ∈ forest.subtrees) {value : α} (hvalue : value ∈ tree.preorder) :
    value ∈ forest.preorder := by
  induction forest with
  | nil => cases htree
  | node head children siblings ihChildren ihSiblings =>
      rcases List.mem_cons.mp htree with rfl | htree
      · rcases List.mem_cons.mp hvalue with rfl | hvalue
        · exact List.mem_cons_self
        · exact List.mem_cons_of_mem _ (List.mem_append_left _ hvalue)
      · rcases List.mem_append.mp htree with hchildren | hsiblings
        · exact List.mem_cons_of_mem _
            (List.mem_append_left _ (ihChildren hchildren))
        · exact List.mem_cons_of_mem _
            (List.mem_append_right _ (ihSiblings hsiblings))

theorem value_mem_of_mem_occurrences {forest : Forest α} {above : List α}
    {occurrence : Occurrence α} (h : occurrence ∈ forest.occurrences above) :
    occurrence.value ∈ forest.preorder := by
  rw [← map_value_occurrences forest above]
  exact List.mem_map_of_mem h

theorem exists_occurrence {forest : Forest α} {value : α} (above : List α)
    (h : value ∈ forest.preorder) :
    ∃ occurrence ∈ forest.occurrences above, occurrence.value = value := by
  rw [← map_value_occurrences forest above] at h
  exact List.mem_map.mp h

theorem mem_chain_of_mem_above {forest : Forest α} {above : List α}
    {occurrence : Occurrence α} (h : occurrence ∈ forest.occurrences above)
    {value : α} (hvalue : value ∈ above) : value ∈ occurrence.chain := by
  induction forest generalizing above with
  | nil => cases h
  | node head children siblings ihChildren ihSiblings =>
      rcases List.mem_cons.mp h with rfl | h
      · exact List.mem_cons_of_mem _ hvalue
      · rcases List.mem_append.mp h with hchildren | hsiblings
        · exact ihChildren hchildren (List.mem_cons_of_mem _ hvalue)
        · exact ihSiblings hsiblings hvalue

/-- The nodes at or above an occurrence are those whose subtree holds it. -/
theorem exists_subtree_of_mem_chain {forest : Forest α} {above : List α}
    {occurrence : Occurrence α} (h : occurrence ∈ forest.occurrences above)
    {value : α} (hvalue : value ∈ occurrence.chain) (habove : value ∉ above) :
    ∃ tree ∈ forest.subtrees,
      tree.value = value ∧ occurrence.value ∈ tree.preorder := by
  induction forest generalizing above with
  | nil => cases h
  | node head children siblings ihChildren ihSiblings =>
      rcases List.mem_cons.mp h with rfl | h
      · have hhead : value = head := (List.mem_cons.mp hvalue).resolve_right habove
        exact ⟨⟨head, children⟩, List.mem_cons_self, hhead.symm,
          List.mem_cons_self⟩
      · rcases List.mem_append.mp h with hchildren | hsiblings
        · by_cases hhead : value = head
          · exact ⟨⟨head, children⟩, List.mem_cons_self, hhead.symm,
              List.mem_cons_of_mem _ (value_mem_of_mem_occurrences hchildren)⟩
          · have hbelow : value ∉ head :: above := by
              simp [hhead, habove]
            obtain ⟨tree, htree, hfound⟩ := ihChildren hchildren hbelow
            exact ⟨tree, List.mem_cons_of_mem _ (List.mem_append_left _ htree),
              hfound⟩
        · obtain ⟨tree, htree, hfound⟩ := ihSiblings hsiblings habove
          exact ⟨tree, List.mem_cons_of_mem _ (List.mem_append_right _ htree),
            hfound⟩

private theorem exists_occurrence_below {forest : Forest α} {tree : Subtree α}
    (htree : tree ∈ forest.subtrees) {value : α} (hvalue : value ∈ tree.preorder)
    (above : List α) :
    ∃ occurrence ∈ forest.occurrences above,
      occurrence.value = value ∧ tree.value ∈ occurrence.chain := by
  induction forest generalizing above with
  | nil => cases htree
  | node head children siblings ihChildren ihSiblings =>
      rcases List.mem_cons.mp htree with rfl | htree
      · rcases List.mem_cons.mp hvalue with rfl | hvalue
        · exact ⟨⟨_, above⟩, List.mem_cons_self, rfl, List.mem_cons_self⟩
        · obtain ⟨occurrence, hmem, hfound⟩ :=
            exists_occurrence (head :: above) hvalue
          exact ⟨occurrence,
            List.mem_cons_of_mem _ (List.mem_append_left _ hmem), hfound,
            mem_chain_of_mem_above hmem List.mem_cons_self⟩
      · rcases List.mem_append.mp htree with hchildren | hsiblings
        · obtain ⟨occurrence, hmem, hfound⟩ := ihChildren hchildren (head :: above)
          exact ⟨occurrence,
            List.mem_cons_of_mem _ (List.mem_append_left _ hmem), hfound⟩
        · obtain ⟨occurrence, hmem, hfound⟩ := ihSiblings hsiblings above
          exact ⟨occurrence,
            List.mem_cons_of_mem _ (List.mem_append_right _ hmem), hfound⟩

theorem mem_chain_iff {forest : Forest α} (hnodup : forest.preorder.Nodup)
    {occurrence : Occurrence α} (h : occurrence ∈ forest.occurrences [])
    (value : α) :
    value ∈ occurrence.chain ↔
      ∃ tree ∈ forest.subtrees,
        tree.value = value ∧ occurrence.value ∈ tree.preorder := by
  constructor
  · intro hvalue
    exact exists_subtree_of_mem_chain h hvalue List.not_mem_nil
  · rintro ⟨tree, htree, rfl, hbelow⟩
    obtain ⟨found, hfound, hsame, hchain⟩ :=
      exists_occurrence_below htree hbelow []
    rw [← map_value_occurrences forest []] at hnodup
    rwa [← List.inj_on_of_nodup_map hnodup hfound h hsame]

private theorem notMem_chain {forest : Forest α} {above : List α} {value : α}
    (habove : value ∉ above) (hforest : value ∉ forest.preorder)
    {occurrence : Occurrence α} (h : occurrence ∈ forest.occurrences above) :
    value ∉ occurrence.chain := by
  intro hvalue
  obtain ⟨tree, htree, rfl, -⟩ := exists_subtree_of_mem_chain h hvalue habove
  exact hforest (value_mem_preorder htree)

section Filter

variable [DecidableEq α]

theorem filter_chain_eq_nil {forest : Forest α} {above : List α} {value : α}
    (habove : value ∉ above) (hforest : value ∉ forest.preorder) :
    (forest.occurrences above).filter (value ∈ ·.chain) = [] := by
  rw [List.filter_eq_nil_iff]
  intro occurrence h
  simpa using notMem_chain habove hforest h

private theorem filter_chain_eq_self {forest : Forest α} {above : List α}
    {value : α} (habove : value ∈ above) :
    (forest.occurrences above).filter (value ∈ ·.chain) =
      forest.occurrences above := by
  rw [List.filter_eq_self]
  intro occurrence h
  simpa using mem_chain_of_mem_above h habove

private theorem filter_chain_head {head : α} {siblings : Forest α}
    {above : List α}
    (habove : head ∉ above) (hsiblings : head ∉ siblings.preorder)
    (children : Forest α) :
    ((node head children siblings).occurrences above).filter (head ∈ ·.chain) =
      (Subtree.mk head children).occurrences above := by
  have hself : head ∈ (Occurrence.mk head above).chain := List.mem_cons_self
  rw [occurrences, List.filter_cons_of_pos (by simpa using hself),
    List.filter_append, filter_chain_eq_self List.mem_cons_self,
    filter_chain_eq_nil habove hsiblings, List.append_nil]
  rfl

theorem filter_chain_subtree {forest : Forest α} (above : List α)
    {tree : Subtree α} (hnodup : forest.preorder.Nodup)
    (habove : ∀ value ∈ forest.preorder, value ∉ above)
    (htree : tree ∈ forest.subtrees) :
    ∃ higher, (forest.occurrences above).filter (tree.value ∈ ·.chain) =
      tree.occurrences higher := by
  induction forest generalizing above with
  | nil => cases htree
  | node head children siblings ihChildren ihSiblings =>
      obtain ⟨hhead, hrest⟩ := List.nodup_cons.mp hnodup
      obtain ⟨hchildren, hsiblings, hdisjoint⟩ := List.nodup_append'.mp hrest
      rw [List.mem_append, not_or] at hhead
      rcases List.mem_cons.mp htree with rfl | htree
      · exact ⟨above, filter_chain_head (habove head List.mem_cons_self)
          hhead.2 children⟩
      · have hmem : tree.value ∈ children.preorder ++ siblings.preorder := by
          rcases List.mem_append.mp htree with h | h
          · exact List.mem_append_left _ (value_mem_preorder h)
          · exact List.mem_append_right _ (value_mem_preorder h)
        have hne : tree.value ≠ head := by
          rintro rfl
          exact (List.nodup_cons.mp hnodup).1 hmem
        have hnotAbove : tree.value ∉ above :=
          habove _ (List.mem_cons_of_mem _ hmem)
        have hself : tree.value ∉ (Occurrence.mk head above).chain := by
          simp [Occurrence.chain, hne, hnotAbove]
        rw [occurrences, List.filter_cons_of_neg (by simpa using hself),
          List.filter_append]
        rcases List.mem_append.mp htree with h | h
        · obtain ⟨higher, hfilter⟩ := ihChildren (head :: above) hchildren
            (by
              intro value hvalue
              have hdistinct : value ≠ head := by
                rintro rfl
                exact hhead.1 hvalue
              simp [hdistinct, habove value
                (List.mem_cons_of_mem _ (List.mem_append_left _ hvalue))]) h
          refine ⟨higher, ?_⟩
          rw [hfilter, filter_chain_eq_nil hnotAbove
            (hdisjoint (value_mem_preorder h)), List.append_nil]
        · obtain ⟨higher, hfilter⟩ := ihSiblings above hsiblings
            (fun value hvalue =>
              habove value
                (List.mem_cons_of_mem _ (List.mem_append_right _ hvalue))) h
          refine ⟨higher, ?_⟩
          rw [hfilter, filter_chain_eq_nil (by simp [hne, hnotAbove])
            (fun hvalue => hdisjoint hvalue (value_mem_preorder h)),
              List.nil_append]

end Filter

theorem preorder_map (f : α → β) (forest : Forest α) :
    (forest.map f).preorder = forest.preorder.map f := by
  induction forest with
  | nil => rfl
  | node value children siblings ihChildren ihSiblings =>
      simp only [map, preorder, ihChildren, ihSiblings, List.map_cons,
        List.map_append]

theorem subtrees_map (f : α → β) (forest : Forest α) :
    (forest.map f).subtrees = forest.subtrees.map (Subtree.map f) := by
  induction forest with
  | nil => rfl
  | node value children siblings ihChildren ihSiblings =>
      simp only [map, subtrees, ihChildren, ihSiblings, List.map_cons,
        List.map_append, Subtree.map]

theorem roots_map (f : α → β) (forest : Forest α) :
    (forest.map f).roots = forest.roots.map (Subtree.map f) := by
  induction forest with
  | nil => rfl
  | node value children siblings _ ih =>
      simp only [map, roots, ih, List.map_cons, Subtree.map]

end Forest

namespace Subtree

theorem map_value_occurrences (tree : Subtree α) (above : List α) :
    (tree.occurrences above).map Occurrence.value = tree.preorder := by
  rw [occurrences, List.map_cons, Forest.map_value_occurrences, preorder]

theorem value_map (f : α → β) (tree : Subtree α) :
    (tree.map f).value = f tree.value :=
  rfl

theorem preorder_map (f : α → β) (tree : Subtree α) :
    (tree.map f).preorder = tree.preorder.map f := by
  rw [map, preorder, preorder, Forest.preorder_map, List.map_cons]

end Subtree

end Milona.Foundation
