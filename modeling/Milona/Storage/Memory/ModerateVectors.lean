import Milona.Foundation.Binary32
import Milona.Storage.Memory.VectorHistory

/-!
# Vectors whose similarity is a number

A search panics when a similarity is not a number.  Vectors with components of
magnitude at most `2 ^ 50` have none that is: sums of any length of their
products stay below `2 ^ 125`, the norm of a vector that is not zero is too far
from zero for the product of two norms to vanish, and a quotient of a finite
number by a nonzero one is a number.  In a run on such vectors every call is
answered, and every search selects the best of the caller's records.
-/

namespace Milona.Storage.Memory

open Milona.Core Milona.Foundation
open Milona.Foundation.Binary32

def IsModerate (vector : List Float32) : Prop :=
  ∀ component ∈ vector, IsBounded (2 ^ (50 : Int)) component

namespace InMemoryVectorStore

/-! ## Norms -/

def squares (vector : List Float32) : List Float32 := vector.map fun x => x * x

private theorem value_square {a : Float32} (h : IsBounded (2 ^ (50 : Int)) a) :
    ∃ y ∈ value (a * a), 0 ≤ y ∧ y ≤ 2 ^ (125 - 25 : Int) := by
  obtain ⟨x, hx, hbound⟩ := h
  have hsquare : x * x ≤ 2 ^ (100 : Int) := by
    rw [← abs_mul_abs_self x, show (100 : Int) = 50 + 50 by norm_num,
      RoundToNearest.two_zpow_add]
    exact mul_self_le_mul_self (abs_nonneg x) hbound
  have htop : |x * x| ≤ 2 ^ (127 : Int) := by
    rw [abs_mul_self]
    exact hsquare.trans (RoundToNearest.two_zpow_le (by omega))
  obtain ⟨y, hy, hnearest⟩ := value_mul hx hx htop
  exact ⟨y, hy, hnearest.ge .zero (mul_self_nonneg x),
    hnearest.le (isSingle_two_zpow (by omega)) hsquare⟩

theorem value_sum_squares {vector : List Float32} (h : IsModerate vector) :
    ∃ s, value (sum (squares vector)) = some s ∧ 0 ≤ s ∧ s ≤ 2 ^ (125 : Int) ∧
      ∀ a ∈ squares vector, ∀ y ∈ value a, y ≤ s := by
  have hzero : value (-0.0) = some 0 := rfl
  have hterms : ∀ a ∈ squares vector, ∃ y ∈ value a, 0 ≤ y ∧
    y ≤ 2 ^ (125 - 25 : Int) := by
    intro a ha
    obtain ⟨x, hx, rfl⟩ := List.mem_map.mp ha
    exact value_square (h x hx)
  exact foldl_add_ge (by omega) (by omega) hzero le_rfl
    (RoundToNearest.two_zpow_pos 125).le hterms

/-- A norm is zero or at least the root of the least float. -/
theorem value_norm {vector : List Float32} (h : IsModerate vector) :
    ∃ r, value (sum (squares vector)).sqrt = some r ∧ r ≤ 2 ^ (63 : Int) ∧
      (r = 0 ∨ 5 * 2 ^ (-77 : Int) ≤ r) := by
  obtain ⟨s, hs, hnonneg, hbound, -⟩ := value_sum_squares h
  have hhigh : s ≤ 2 ^ (63 : Int) * 2 ^ (63 : Int) :=
    hbound.trans (by norm_num)
  rcases hnonneg.eq_or_lt with hzero | hpos
  · obtain ⟨y, r, hr, hnearest, hlow, hle⟩ := value_sqrt hs le_rfl le_rfl
      (by rw [← hzero, zero_mul]) (by rw [← hzero, zero_mul])
        (RoundToNearest.two_zpow_pos 127).le
    have hy : y = 0 := le_antisymm hle hlow
    have hr0 : r = 0 := by
      rw [hy] at hnearest
      exact hnearest.eq_of_representable .zero
    exact ⟨r, hr, hr0.le.trans (RoundToNearest.two_zpow_pos 63).le, Or.inl hr0⟩
  · have hleast : (2 : ℚ) ^ (-149 : Int) ≤ s := by
      obtain ⟨k, hk⟩ := (isSingle_of_value hs).multiple (le_refl (-149 : Int))
      rw [hk] at hpos ⊢
      have hone : (1 : ℚ) ≤ k := by
        exact_mod_cast pos_of_mul_pos_left hpos (RoundToNearest.two_zpow_pos _).le
      exact le_mul_of_one_le_left (RoundToNearest.two_zpow_pos _).le hone
    obtain ⟨y, r, hr, hnearest, hlow, hle⟩ := value_sqrt hs
      (by norm_num : (0 : ℚ) ≤ 5 * 2 ^ (-77 : Int)) (by norm_num)
      (le_trans (by norm_num) hleast) hhigh (RoundToNearest.two_zpow_le (by omega))
    have hfive : IsSingle (5 * 2 ^ (-77 : Int)) :=
      .of_natCast (by decide : 5 ≤ _) (by decide)
    exact ⟨r, hr, hnearest.le (isSingle_two_zpow (by omega)) hle,
      Or.inr (hnearest.ge hfive hlow)⟩

/-- No component that is not tiny exceeds the norm. -/
theorem abs_le_norm {vector : List Float32} (h : IsModerate vector)
    {a : Float32} (ha : a ∈ vector) {x r : ℚ} (hx : value a = some x)
    (hlow : 2 ^ (-23 : Int) ≤ |x|)
    (hr : value (sum (squares vector)).sqrt = some r) : |x| ≤ r := by
  obtain ⟨s, hs, -, hbound, hmembers⟩ := value_sum_squares h
  obtain ⟨x', hx', hxBound⟩ := h a ha
  cases hx.symm.trans hx'
  have hsquare : |x * x| ≤ 2 ^ (127 : Int) := by
    rw [abs_mul]
    calc
      |x| * |x| ≤ 2 ^ (50 : Int) * 2 ^ (50 : Int) :=
        mul_self_le_mul_self (abs_nonneg x) hxBound
      _ ≤ 2 ^ (127 : Int) := by norm_num
  obtain ⟨q, hq, hnearest⟩ := value_mul hx hx hsquare
  rw [← abs_mul_abs_self] at hnearest
  obtain ⟨low, hlowNonneg, hlowSquare, hroot⟩ :=
    (isSingle_of_value hx).magnitude.exists_root_bound hlow (by decide)
      (by decide) hnearest
  have hqs : q ≤ s := hmembers (a * a) (List.mem_map_of_mem ha) q hq
  have hlowTop : low ≤ 2 ^ (63 : Int) := by
    apply (mul_self_le_mul_self_iff hlowNonneg
      (RoundToNearest.two_zpow_pos 63).le).mpr
    exact (hlowSquare.trans (hqs.trans hbound)).trans (by norm_num)
  obtain ⟨y, r', hr', hnearest', hle, -⟩ := value_sqrt hs hlowNonneg hlowTop
    (hlowSquare.trans hqs) (hbound.trans (by norm_num))
      (RoundToNearest.two_zpow_le (by omega))
  cases hr.symm.trans hr'
  exact hroot y r hle hnearest'

/-! ## Similarities -/

theorem value_dot {a b : List Float32} (ha : IsModerate a) (hb : IsModerate b) :
    ∃ s, value (sum (List.zipWith (· * ·) a b)) = some s := by
  have hterms : ∀ c ∈ List.zipWith (· * ·) a b,
      IsBounded (2 ^ (125 - 25 : Int)) c := by
    intro c hc
    rw [← List.map_uncurry_zip_eq_zipWith] at hc
    obtain ⟨⟨x, y⟩, hpair, rfl⟩ := List.mem_map.mp hc
    obtain ⟨hx, hy⟩ := List.of_mem_zip hpair
    exact isBounded_mul (ha x hx) (hb y hy) (by omega) (by omega)
  have hzero : IsBounded (2 ^ (125 : Int)) (-0.0) := ⟨0, rfl, by norm_num⟩
  obtain ⟨s, hs, -⟩ := isBounded_foldl_add (by omega) (by omega) hzero hterms
  exact ⟨s, hs⟩

/-- The product of two norms that are not zero is not rounded to zero. -/
theorem value_mul_norms {a b : Float32} {x y : ℚ} (ha : value a = some x)
    (hb : value b = some y) (hxLow : 5 * 2 ^ (-77 : Int) ≤ x)
    (hxTop : x ≤ 2 ^ (63 : Int)) (hyLow : 5 * 2 ^ (-77 : Int) ≤ y)
    (hyTop : y ≤ 2 ^ (63 : Int)) :
    ∃ r, value (a * b) = some r ∧ r ≠ 0 := by
  have hxPos : 0 ≤ x := le_trans (by norm_num) hxLow
  have hyPos : 0 ≤ y := le_trans (by norm_num) hyLow
  have hlow : (5 : ℚ) * 2 ^ (-77 : Int) * (5 * 2 ^ (-77 : Int)) ≤ x * y :=
    mul_le_mul hxLow hyLow (by norm_num) hxPos
  have htop : x * y ≤ 2 ^ (63 : Int) * 2 ^ (63 : Int) :=
    mul_le_mul hxTop hyTop hyPos (by norm_num)
  have habs : |x * y| ≤ 2 ^ (127 : Int) := by
    rw [abs_of_nonneg (mul_nonneg hxPos hyPos)]
    exact htop.trans (by norm_num)
  obtain ⟨r, hr, hnearest⟩ := value_mul ha hb habs
  refine ⟨r, hr, hnearest.ne_zero (isSingle_two_zpow (le_refl (-149)))
    (by norm_num) ?_⟩
  calc
    (2 : ℚ) ^ (-149 : Int) <
      2 * (5 * 2 ^ (-77 : Int) * (5 * 2 ^ (-77 : Int))) := by norm_num
    _ ≤ 2 * (x * y) := mul_le_mul_of_nonneg_left hlow two_pos.le

theorem cosineSimilarity_isNaN {a b : List Float32} (ha : IsModerate a)
    (hb : IsModerate b) : (cosineSimilarity a b).isNaN = false := by
  obtain ⟨dot, hdot⟩ := value_dot ha hb
  obtain ⟨x, hx, hxTop, hxLeast⟩ := value_norm ha
  obtain ⟨y, hy, hyTop, hyLeast⟩ := value_norm hb
  rw [cosineSimilarity]
  simp only [Bool.or_eq_true]
  split
  next => rfl
  next hnonzero =>
    rw [not_or] at hnonzero
    have hxLow := hxLeast.resolve_left ((beq_zero_iff hx).not.mp hnonzero.1)
    have hyLow := hyLeast.resolve_left ((beq_zero_iff hy).not.mp hnonzero.2)
    obtain ⟨r, hr, hne⟩ := value_mul_norms hx hy hxLow hxTop hyLow hyTop
    exact isNaN_div hdot hr hne

end InMemoryVectorStore

/-! ## Runs -/

namespace VectorCall

open InMemoryVectorStore

/-- The vector that the call brings has the property. -/
def Brings (P : List Float32 → Prop) : VectorCall → Prop
  | .upsert _ _ embedding => P embedding
  | .search _ _ query _ => P query
  | .deleteDocument .. => True

def HoldsOnly (P : List Float32 → Prop) (records : Records) : Prop :=
  ∀ id record, records.lookup id = some record → P record.embedding

abbrev BringsModerate (call : VectorCall) : Prop := call.Brings IsModerate

abbrev HoldsModerate (records : Records) : Prop := HoldsOnly IsModerate records

theorem Brings.imp {P Q : List Float32 → Prop}
    (hPQ : ∀ vector, P vector → Q vector) {call : VectorCall}
    (h : call.Brings P) : call.Brings Q := by
  cases call with
  | upsert ctx chunk embedding => exact hPQ _ h
  | search order ctx query topK => exact hPQ _ h
  | deleteDocument ctx documentId => trivial

theorem HoldsOnly.imp {P Q : List Float32 → Prop}
    (hPQ : ∀ vector, P vector → Q vector) {records : Records}
    (h : HoldsOnly P records) : HoldsOnly Q records :=
  fun id record hlookup => hPQ _ (h id record hlookup)

theorem sortable_of_moderate {records : Records} (hrecords : HoldsModerate records)
    {query : List Float32} (hquery : IsModerate query) (tenantId : TenantId) :
    Sortable tenantId query records := by
  refine Or.inr fun found hfound => ?_
  obtain ⟨record, hlookup, -, hscore⟩ := mem_scoredPool.mp hfound
  rw [hscore]
  exact cosineSimilarity_isNaN hquery (hrecords _ _ hlookup)

theorem not_faults_of_moderate {records : Records}
    (hrecords : HoldsModerate records) {call : VectorCall}
    (hcall : call.BringsModerate) : ¬ call.Faults records := by
  cases call with
  | upsert ctx chunk embedding => exact id
  | search order ctx query topK =>
      exact not_not.mpr (sortable_of_moderate hrecords hcall ctx.tenantId)
  | deleteDocument ctx documentId => exact id

/-- Step lemma: the records only ever hold vectors that were brought. -/
theorem holdsOnly_effect {P : List Float32 → Prop} {records : Records}
    (hrecords : HoldsOnly P records) {call : VectorCall} (hcall : call.Brings P) :
    HoldsOnly P (call.effect records) := by
  cases call with
  | upsert ctx chunk embedding =>
      intro id record hlookup
      by_cases hid : id = chunk.id
      · subst hid
        rw [effect, Finmap.lookup_insert] at hlookup
        cases hlookup
        exact hcall
      · rw [effect, Finmap.lookup_insert_of_ne records hid] at hlookup
        exact hrecords id record hlookup
  | search order ctx query topK => exact hrecords
  | deleteDocument ctx documentId =>
      intro id record hlookup
      rw [effect, HashMap.lookup_retain, Option.filter_eq_some_iff] at hlookup
      exact hrecords id record hlookup.1

/-- The reply to a call, in terms of the records that it meets. -/
structure Answered (store : InMemoryVectorStore) (call : VectorCall) : Prop where
  ok : ∃ reply : VectorReply, reply.isOk = true ∧
    call.perform store = (.returned reply, ⟨call.effect store.value, false⟩)
  best : ∀ order ctx query topK, call = .search order ctx query topK →
    ∃ found, (call.perform store).1 = .returned (.found (.ok found)) ∧
      SelectsBest store.value ctx.tenantId query topK found

theorem answered_of_moderate {records : Records}
    (hrecords : HoldsModerate records) {call : VectorCall}
    (hcall : call.BringsModerate) : Answered ⟨records, false⟩ call := by
  refine ⟨perform_of_not_faults (not_faults_of_moderate hrecords hcall), ?_⟩
  rintro order ctx query topK rfl
  have hsortable := sortable_of_moderate hrecords hcall ctx.tenantId
  obtain ⟨found, hsearch, hbest⟩ :=
    search_of_sortable order ctx query topK hsortable
  refine ⟨found, ?_, selectsBest_of_isTopK hbest hsortable⟩
  rw [perform, Action.bind_of_returned hsearch]
  rfl

/-- Run lemma: what holds of a call over records of such vectors holds in every run. -/
theorem run_of_brings {P : List Float32 → Prop}
    (hP : ∀ vector, P vector → IsModerate vector)
    {Q : InMemoryVectorStore → VectorCall → Prop}
    (hQ : ∀ records call, HoldsOnly P records → call.Brings P →
      Q ⟨records, false⟩ call)
    {calls : List VectorCall} (h : ∀ call ∈ calls, call.Brings P) :
    EachStep next Q empty calls := by
  have hrun : EachStep next (fun _ call => call.Brings P) empty calls :=
    .of_forall_mem (fun call hcall _ => h call hcall) empty
  refine .of_invariant (fun store => store.poisoned = false ∧
    HoldsOnly P store.value)
    ?_ ?_ ⟨rfl, fun id record hlookup => ?_⟩ hrun
  · rintro ⟨records, _⟩ call ⟨rfl, hrecords⟩ hcall
    exact hQ records call hrecords hcall
  · rintro ⟨records, _⟩ call ⟨rfl, hrecords⟩ hcall
    rw [next_of_not_faults
      (not_faults_of_moderate (hrecords.imp hP) (hcall.imp hP))]
    exact ⟨rfl, holdsOnly_effect hrecords hcall⟩
  · cases hlookup

/-- Every call of a run that brings moderate vectors only is answered. -/
theorem moderate_run_answered (calls : List VectorCall)
    (h : ∀ call ∈ calls, call.BringsModerate) :
    EachStep next Answered empty calls :=
  run_of_brings (fun _ hmoderate => hmoderate)
    (fun _ _ hrecords hcall => answered_of_moderate hrecords hcall) h

/-- Two vectors of one tenant, a search of both, and a vector with no norm. -/
def moderateCalls : List VectorCall :=
  let owner : TenantContext := ⟨⟨⟨1⟩⟩, .member, "user-1"⟩
  let order := IterationOrder.ascending ChunkId.number ChunkId.number_injective
  [.upsert owner ⟨⟨⟨1⟩⟩, ⟨⟨1⟩⟩, "first", 0, 1⟩ [1, -0.5],
    .upsert owner ⟨⟨⟨2⟩⟩, ⟨⟨1⟩⟩, "second", 1, 1⟩ [0],
    .search order owner [1, 1] 5]

theorem moderate_run_answered_moderateCalls :
    EachStep next Answered empty moderateCalls := by
  have hone : IsBounded (2 ^ (50 : Int)) 1 :=
    isBounded_of_finite .positive (2 ^ 23) (-23) (by decide) rfl (by norm_num)
  have hhalf : IsBounded (2 ^ (50 : Int)) (-0.5) :=
    isBounded_of_finite .negative (2 ^ 23) (-24) (by decide) rfl (by norm_num)
  have hzero : IsBounded (2 ^ (50 : Int)) 0 := ⟨0, rfl, by norm_num⟩
  apply moderate_run_answered
  rw [moderateCalls, List.forall_mem_cons, List.forall_mem_cons,
    List.forall_mem_singleton]
  refine ⟨?_, ?_, ?_⟩
  · exact List.forall_mem_cons.mpr ⟨hone, List.forall_mem_singleton.mpr hhalf⟩
  · exact List.forall_mem_singleton.mpr hzero
  · exact List.forall_mem_cons.mpr ⟨hone, List.forall_mem_singleton.mpr hone⟩

end VectorCall

end Milona.Storage.Memory
