import Mathlib.Data.ENat.Lattice
import Mathlib.Data.Finset.Image
import Mathlib.Data.Finset.SDiff
import Mathlib.Data.List.Basic
import Mathlib.Data.Multiset.Filter
import Mathlib.Data.Set.Card

/-!
# Bounded reachability in a multigraph

A multigraph is a list of edges with a source and a target.  `Hops` counts the
edges of a walk exactly, and `closer edges start d` is the finite set of nodes
at directed distance strictly less than `d` from the start.  A node that no
walk reaches is at infinite distance.
-/

namespace Milona.Foundation

variable {V E : Type} (src dst : E → V)

/-- A walk of exactly the given number of edges. -/
inductive Hops (edges : List E) (start : V) : Nat → V → Prop where
  | refl : Hops edges start 0 start
  | tail {count : Nat} {edge : E} : Hops edges start count (src edge) →
      edge ∈ edges → Hops edges start (count + 1) (dst edge)

theorem Hops.mono {src dst : E → V} {edges edges' : List E} {start : V}
    (h : ∀ edge ∈ edges, edge ∈ edges')
    {count : Nat} {v : V} (hops : Hops src dst edges start count v) :
    Hops src dst edges' start count v := by
  induction hops with
  | refl => exact .refl
  | tail _ hedge ih => exact .tail ih (h _ hedge)

/-- The number of edges of a shortest walk. -/
noncomputable def distance (edges : List E) (start v : V) : ℕ∞ :=
  ⨅ count : {count : Nat // Hops src dst edges start count v}, (count.1 : ℕ∞)

def reachable (edges : List E) (start : V) : Set V :=
  {v | ∃ count, Hops src dst edges start count v}

theorem finite_reachable (edges : List E) (start : V) :
    (reachable src dst edges start).Finite := by
  refine ((List.finite_toSet (edges.map dst)).insert start).subset ?_
  rintro v ⟨count, hops⟩
  cases hops with
  | refl => exact Set.mem_insert _ _
  | tail _ hedge => exact .inr (List.mem_map_of_mem hedge)

variable [DecidableEq V]

def closer (edges : List E) (start : V) : Nat → Finset V
  | 0 => ∅
  | d + 1 =>
      insert start
        ((edges.filter fun edge => src edge ∈ closer edges start d).map
          dst).toFinset

variable {src dst} {edges : List E} {start : V}

theorem mem_closer_succ {d : Nat} {v : V} :
    v ∈ closer src dst edges start (d + 1) ↔
      v = start ∨ ∃ edge ∈ edges, src edge ∈ closer src dst edges start d ∧
        dst edge = v := by
  simp [closer, and_assoc]

theorem mem_closer_iff {d : Nat} {v : V} :
    v ∈ closer src dst edges start d ↔
      ∃ count < d, Hops src dst edges start count v := by
  induction d generalizing v with
  | zero => simp [closer]
  | succ d ih =>
      rw [mem_closer_succ]
      constructor
      · rintro (rfl | ⟨edge, hedge, hsrc, rfl⟩)
        · exact ⟨0, by omega, .refl⟩
        · obtain ⟨count, hcount, hops⟩ := ih.mp hsrc
          exact ⟨count + 1, by omega, .tail hops hedge⟩
      · rintro ⟨count, hcount, hops⟩
        cases hops with
        | refl => exact .inl rfl
        | @tail count edge hops hedge =>
            exact .inr ⟨edge, hedge, ih.mpr ⟨count, by omega, hops⟩, rfl⟩

theorem closer_subset_of_mem {edges' : List E} (h : ∀ edge ∈ edges, edge ∈ edges')
    (start : V) (d : Nat) :
    closer src dst edges start d ⊆ closer src dst edges' start d := by
  intro v hv
  obtain ⟨count, hcount, hops⟩ := mem_closer_iff.mp hv
  exact mem_closer_iff.mpr ⟨count, hcount, hops.mono h⟩

/-- Only the members of the edge list matter, not their order. -/
theorem closer_congr {edges' : List E}
    (h : ∀ edge, edge ∈ edges ↔ edge ∈ edges') (start : V) (d : Nat) :
    closer src dst edges start d = closer src dst edges' start d := by
  ext v
  simp only [mem_closer_iff]
  constructor
  · rintro ⟨count, hcount, hops⟩
    exact ⟨count, hcount, hops.mono fun edge => (h edge).mp⟩
  · rintro ⟨count, hcount, hops⟩
    exact ⟨count, hcount, hops.mono fun edge => (h edge).mpr⟩

theorem closer_one (edges : List E) (start : V) :
    closer src dst edges start 1 = {start} := by
  simp [closer]

theorem closer_subset_succ (d : Nat) :
    closer src dst edges start d ⊆ closer src dst edges start (d + 1) := by
  intro v hv
  obtain ⟨count, hcount, hops⟩ := mem_closer_iff.mp hv
  exact mem_closer_iff.mpr ⟨count, by omega, hops⟩

/-- Once a distance adds no node, no greater distance does. -/
theorem closer_stable {d : Nat}
    (h : closer src dst edges start (d + 1) = closer src dst edges start d)
    (more : Nat) :
    closer src dst edges start (d + more) = closer src dst edges start d := by
  induction more with
  | zero => rfl
  | succ more ih =>
      calc
        closer src dst edges start (d + (more + 1))
            = insert start ((edges.filter fun edge =>
                src edge ∈ closer src dst edges start (d + more)).map
                  dst).toFinset := rfl
        _ = closer src dst edges start (d + 1) := by rw [ih]; rfl
        _ = closer src dst edges start d := h

def layer (src dst : E → V) (edges : List E) (start : V) (d : Nat) : Finset V :=
  closer src dst edges start (d + 1) \ closer src dst edges start d

/-- The targets of a layer complete the next distance. -/
theorem closer_succ_succ (d : Nat) :
    closer src dst edges start (d + 2) =
      closer src dst edges start (d + 1) ∪
        ((edges.filter fun edge =>
          src edge ∈ layer src dst edges start d).map dst).toFinset := by
  ext v
  simp only [Finset.mem_union, List.mem_toFinset, List.mem_map,
    List.mem_filter, decide_eq_true_eq, layer, Finset.mem_sdiff]
  constructor
  · intro hv
    rcases mem_closer_succ.mp hv with rfl | ⟨edge, hedge, hsrc, rfl⟩
    · exact .inl (mem_closer_succ.mpr (.inl rfl))
    · by_cases hnear : src edge ∈ closer src dst edges start d
      · exact .inl (mem_closer_succ.mpr (.inr ⟨edge, hedge, hnear, rfl⟩))
      · exact .inr ⟨edge, ⟨hedge, hsrc, hnear⟩, rfl⟩
  · rintro (hv | ⟨edge, ⟨hedge, hsrc, -⟩, rfl⟩)
    · exact closer_subset_succ _ hv
    · exact mem_closer_succ.mpr (.inr ⟨edge, hedge, hsrc, rfl⟩)

/-! ## Distance -/

theorem mem_closer_iff_distance {d : Nat} {v : V} :
    v ∈ closer src dst edges start d ↔ distance src dst edges start v < d := by
  rw [mem_closer_iff, distance, iInf_lt_iff]
  constructor
  · rintro ⟨count, hcount, hops⟩
    exact ⟨⟨count, hops⟩, by exact_mod_cast hcount⟩
  · rintro ⟨⟨count, hops⟩, hcount⟩
    exact ⟨count, by exact_mod_cast hcount, hops⟩

theorem distance_of_mem_layer {d : Nat} {v : V}
    (h : v ∈ layer src dst edges start d) :
    distance src dst edges start v = d := by
  obtain ⟨hnext, hnear⟩ := Finset.mem_sdiff.mp h
  rw [mem_closer_iff_distance] at hnext hnear
  push_cast at hnext
  exact le_antisymm (ENat.lt_add_one_iff (ENat.natCast_ne_top d) |>.mp hnext)
    (not_lt.mp hnear)

theorem closer_card_le (edges : List E) (start : V) (d : Nat) :
    (closer src dst edges start d).card ≤
      (reachable src dst edges start).ncard := by
  rw [← Set.ncard_coe_finset]
  refine Set.ncard_le_ncard (fun v hv => ?_) (finite_reachable src dst edges start)
  obtain ⟨count, -, hops⟩ := mem_closer_iff.mp (Finset.mem_coe.mp hv)
  exact ⟨count, hops⟩

/-- A layer that is not empty makes the next distance hold more nodes. -/
theorem closer_card_lt {d : Nat} (h : (layer src dst edges start d).Nonempty) :
    (closer src dst edges start d).card <
      (closer src dst edges start (d + 1)).card := by
  refine Finset.card_lt_card ⟨closer_subset_succ d, fun hsubset => ?_⟩
  obtain ⟨v, hv⟩ := h
  obtain ⟨hnext, hnear⟩ := Finset.mem_sdiff.mp hv
  exact hnear (hsubset hnext)

/-! ## Edges by source -/

theorem filter_src_union (src : E → V) (edges : List E) {near far : Finset V}
    (h : Disjoint near far) :
    ((edges.filter fun edge => src edge ∈ near) ++
        edges.filter fun edge => src edge ∈ far).Perm
      (edges.filter fun edge => src edge ∈ near ∪ far) := by
  induction edges with
  | nil => exact .refl _
  | cons edge edges ih =>
      by_cases hnear : src edge ∈ near
      · have hfar : src edge ∉ far := Finset.disjoint_left.mp h hnear
        simpa [hnear, hfar] using ih
      · by_cases hfar : src edge ∈ far
        · have hmiddle := (List.perm_middle (a := edge)).trans (ih.cons edge)
          simpa [hnear, hfar] using hmiddle
        · simpa [hnear, hfar] using ih

/-- Visiting distinct nodes one by one lists the edges from them once each. -/
theorem flatMap_filter_src (src : E → V) (edges : List E) {nodes : List V}
    (h : nodes.Nodup) :
    (nodes.flatMap fun node => edges.filter fun edge => src edge = node).Perm
      (edges.filter fun edge => src edge ∈ nodes.toFinset) := by
  induction nodes with
  | nil => simp
  | cons node nodes ih =>
      obtain ⟨hnode, hnodes⟩ := List.nodup_cons.mp h
      have hdisjoint : Disjoint {node} nodes.toFinset := by
        simpa using hnode
      have hunion := filter_src_union src edges hdisjoint
      rw [List.flatMap_cons, List.toFinset_cons, Finset.insert_eq]
      refine (List.Perm.append_left _ (ih hnodes)).trans ?_
      simpa only [Finset.mem_singleton] using hunion

end Milona.Foundation
