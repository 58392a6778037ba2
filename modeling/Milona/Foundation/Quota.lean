import Mathlib.Data.List.Basic
import Mathlib.Order.Lattice

/-!
# Quotas

A gate lets an item pass or not, from the item's key and the number of items
with that key before it.  A gate keeps a quota if no key passes more often.

The quota of a key is a quota of a group of keys only where there is nothing to
add up: in a group whose items are few enough, or all have one key.
-/

namespace Milona.Foundation

variable {α K G : Type} [DecidableEq K]

abbrev Gate (K : Type) : Type := K → Nat → Bool

namespace Gate

def Keeps (gate : Gate K) (n : Nat) : Prop :=
  ∀ k m, (List.range m).countP (gate k) ≤ n

/-- The items that pass, after items with the keys `before`. -/
def passing (gate : Gate K) (key : α → K) : List K → List α → List α
  | _, [] => []
  | before, item :: items =>
      let later := gate.passing key (key item :: before) items
      if gate (key item) (before.count (key item)) then item :: later
      else later

theorem passing_sublist (gate : Gate K) (key : α → K) (before : List K)
    (items : List α) : (gate.passing key before items).Sublist items := by
  induction items generalizing before with
  | nil => exact List.Sublist.refl []
  | cons item items ih =>
      simp only [passing]
      split
      · exact (ih _).cons_cons item
      · exact (ih _).cons item

theorem countP_range_succ (p : Nat → Bool) (m : Nat) :
    (List.range (m + 1)).countP p =
      (List.range m).countP p + if p m then 1 else 0 := by
  rw [List.range_succ, List.countP_append, List.countP_singleton]

theorem countP_range_shift (p : Nat → Bool) (base m : Nat) :
    (List.range m).countP (fun i => decide (base ≤ i) && p (i - base)) =
      (List.range (m - base)).countP p := by
  induction m with
  | zero => simp
  | succ m ih =>
      rw [countP_range_succ, ih]
      by_cases h : base ≤ m
      · rw [Nat.succ_sub h, countP_range_succ]
        simp [h]
      · have hsub : m + 1 - base = m - base := by omega
        simp [h, hsub]

/-- The items of a key that pass are those of its checks that are granted. -/
theorem countP_passing (gate : Gate K) (key : α → K) (k : K)
    (before : List K) (items : List α) :
    (gate.passing key before items).countP (fun item => key item = k) +
        (List.range (before.count k)).countP (gate k) =
      (List.range (before.count k +
        items.countP fun item => key item = k)).countP (gate k) := by
  induction items generalizing before with
  | nil => simp [passing]
  | cons item items ih =>
      have hlater := ih (key item :: before)
      by_cases hkey : key item = k
      · subst hkey
        rw [List.count_cons_self, countP_range_succ] at hlater
        rw [List.countP_cons_of_pos (by simp), ← Nat.add_assoc,
          Nat.add_right_comm, ← hlater]
        simp only [passing]
        split
        · rw [List.countP_cons_of_pos (by simp)]
          omega
        · omega
      · rw [List.count_cons_of_ne (by simpa using hkey)] at hlater
        rw [List.countP_cons_of_neg (by simpa using hkey), ← hlater]
        simp only [passing]
        split
        · rw [List.countP_cons_of_neg (by simpa using hkey)]
        · rfl

theorem countP_passing_nil (gate : Gate K) (key : α → K) (k : K)
    (items : List α) :
    (gate.passing key [] items).countP (fun item => key item = k) =
      (List.range (items.countP fun item => key item = k)).countP (gate k) := by
  simpa using gate.countP_passing key k [] items

theorem Keeps.countP_passing_le {gate : Gate K} {n : Nat} (h : gate.Keeps n)
    (key : α → K) (k : K) (items : List α) :
    (gate.passing key [] items).countP (fun item => key item = k) ≤ n := by
  rw [countP_passing_nil]
  exact h k _

/-! ## The gate that lets most items pass -/

section Generous

variable (key : α → K) (wanted : α → Bool) (n : Nat) (items : List α)

def own (k : K) : List α := items.filter fun item => key item = k

/-- Grant the first `n` wanted items of each key. -/
def generous : Gate K := fun k i =>
  (own key items k)[i]?.any wanted &&
    decide (((own key items k).take i).countP wanted < n)

theorem countP_generous (k : K) (m : Nat) :
    (List.range m).countP (generous key wanted n items k) =
      min n (((own key items k).take m).countP wanted) := by
  induction m with
  | zero => simp
  | succ m ih =>
      rw [countP_range_succ, ih, List.take_add_one, List.countP_append]
      cases hitem : (own key items k)[m]? with
      | none => simp [generous, hitem]
      | some item =>
          simp only [generous, hitem, Option.any_some, Option.toList_some,
            List.countP_singleton, Bool.and_eq_true, decide_eq_true_eq]
          split <;> split <;> simp_all <;> omega

theorem keeps_generous : (generous key wanted n items).Keeps n := by
  intro k m
  rw [countP_generous]
  exact Nat.min_le_left _ _

variable {key wanted n items}

theorem own_of_split {earlier later : List α} {item : α}
    (hitems : items = earlier ++ item :: later) :
    own key items (key item) =
      own key earlier (key item) ++ item :: own key later (key item) := by
  rw [hitems]
  simp [own]

/-- The check of an item in the middle of the list. -/
theorem generous_of_split {before : List K} {earlier later : List α} {item : α}
    (hitems : items = earlier ++ item :: later)
    (hbefore : ∀ k, before.count k = earlier.countP fun a => key a = k) :
    generous key wanted n items (key item) (before.count (key item)) =
      (wanted item &&
        decide ((own key earlier (key item)).countP wanted < n)) := by
  have hindex : before.count (key item) =
      (own key earlier (key item)).length := by
    rw [hbefore, List.countP_eq_length_filter, own]
  rw [generous, own_of_split hitems, hindex]
  simp

theorem count_cons_of_split {before : List K} {earlier : List α}
    (hbefore : ∀ k, before.count k = earlier.countP fun a => key a = k)
    (item : α) (k : K) :
    (key item :: before).count k =
      (earlier ++ [item]).countP fun a => key a = k := by
  rw [List.count_cons, hbefore, List.countP_append, List.countP_singleton]
  simp

theorem wanted_of_mem_passing {before : List K} (earlier : List α)
    {later : List α} (hitems : items = earlier ++ later)
    (hbefore : ∀ k, before.count k = earlier.countP fun a => key a = k)
    {a : α}
    (ha : a ∈ (generous key wanted n items).passing key before later) :
    wanted a = true := by
  induction later generalizing before earlier with
  | nil => simp [passing] at ha
  | cons item later ih =>
      have hrest := ih (earlier ++ [item]) (by simp [hitems])
        (count_cons_of_split hbefore item)
      simp only [passing, generous_of_split hitems hbefore] at ha
      split at ha
      · rename_i hgranted
        rcases List.mem_cons.mp ha with rfl | hlater
        · exact (Bool.and_eq_true_iff.mp hgranted).1
        · exact hrest hlater
      · exact hrest ha

/-- A key with few wanted items loses none of them. -/
theorem countP_passing_of_few {p : α → Bool}
    (hp : ∀ a ∈ items, p a = true → wanted a = true ∧
      (own key items (key a)).countP wanted ≤ n)
    {before : List K} (earlier : List α) {later : List α}
    (hitems : items = earlier ++ later)
    (hbefore : ∀ k, before.count k = earlier.countP fun a => key a = k) :
    ((generous key wanted n items).passing key before later).countP p =
      later.countP p := by
  induction later generalizing before earlier with
  | nil => rfl
  | cons item later ih =>
      have hrest := ih (earlier ++ [item]) (by simp [hitems])
        (count_cons_of_split hbefore item)
      simp only [passing, generous_of_split hitems hbefore]
      cases hitem : p item with
      | true =>
          obtain ⟨hwanted, hfew⟩ := hp item (by simp [hitems]) hitem
          rw [own_of_split hitems, List.countP_append,
            List.countP_cons_of_pos hwanted] at hfew
          have hgranted : (own key earlier (key item)).countP wanted < n := by
            omega
          rw [if_pos (by simp [hwanted, hgranted]),
            List.countP_cons_of_pos hitem, List.countP_cons_of_pos hitem, hrest]
      | false =>
          rw [List.countP_cons_of_neg (by simp [hitem]), ← hrest]
          split
          · rw [List.countP_cons_of_neg (by simp [hitem])]
          · rfl

theorem countP_passing_generous (k : K) :
    ((generous key wanted n items).passing key [] items).countP
        (fun item => key item = k) =
      min n ((own key items k).countP wanted) := by
  have hlength : (items.countP fun item => key item = k) =
      (own key items k).length := by
    rw [List.countP_eq_length_filter, own]
  rw [countP_passing_nil, countP_generous, hlength, List.take_length]

end Generous

/-! ## Quotas of groups -/

theorem countP_add_le {p q r : α → Bool} {items : List α}
    (hdisjoint : ∀ a, ¬ (p a = true ∧ q a = true))
    (hp : ∀ a ∈ items, p a = true → r a = true)
    (hq : ∀ a ∈ items, q a = true → r a = true) :
    items.countP p + items.countP q ≤ items.countP r := by
  induction items with
  | nil => simp
  | cons item items ih =>
      have hrest := ih (fun a ha => hp a (List.mem_cons_of_mem item ha))
        fun a ha => hq a (List.mem_cons_of_mem item ha)
      have hpitem := hp item List.mem_cons_self
      have hqitem := hq item List.mem_cons_self
      have hnot := hdisjoint item
      simp only [List.countP_cons]
      split <;> split <;> split <;> simp_all <;> omega

def wantedIn [DecidableEq G] (group : α → G) (wanted : α → Bool) (g : G)
    (item : α) : Bool :=
  wanted item && decide (group item = g)

variable [DecidableEq G]

/-- One key uses up the quota, and another one is granted its first item. -/
theorem lt_countP_passing_generous {key : α → K} {group : α → G}
    {wanted : α → Bool} {n : Nat} (hn : 0 < n)
    (hgroup : ∀ a b, key a = key b → group a = group b) {items : List α}
    {c d : α} (hd : d ∈ items) (hwanted : wanted d = true)
    (hsame : group d = group c) (hcd : key c ≠ key d)
    (hmore : n < (own key items (key c)).countP wanted) :
    n < ((generous key wanted n items).passing key [] items).countP
      (wantedIn group wanted (group c)) := by
  have hin : ∀ e, group e = group c →
      ∀ a ∈ (generous key wanted n items).passing key [] items,
        decide (key a = key e) = true →
          wantedIn group wanted (group c) a = true := by
    intro e he a ha hkey
    have hgranted : wanted a = true :=
      wanted_of_mem_passing [] rfl (by simp) ha
    simp [wantedIn, hgranted, hgroup a e (by simpa using hkey), he]
  have hboth := countP_add_le (p := fun a => decide (key a = key c))
    (q := fun a => decide (key a = key d)) ?_ (hin c rfl) (hin d hsame)
  · rw [countP_passing_generous, countP_passing_generous] at hboth
    have hfirst : 0 < (own key items (key d)).countP wanted :=
      List.countP_pos_iff.mpr ⟨d, by simp [own, hd], hwanted⟩
    omega
  · intro a ha
    simp only [decide_eq_true_eq] at ha
    exact hcd (ha.1.symm.trans ha.2)

private theorem countP_passing_wantedIn_le {key : α → K} {group : α → G}
    {wanted : α → Bool} {n : Nat} {items : List α} {g : G} {gate : Gate K}
    (hgate : gate.Keeps n)
    (h : items.countP (wantedIn group wanted g) ≤ n ∨
      ∀ a ∈ items, ∀ b ∈ items, wantedIn group wanted g a = true →
        wantedIn group wanted g b = true → key a = key b) :
    (gate.passing key [] items).countP (wantedIn group wanted g) ≤ n := by
  have hsub := gate.passing_sublist key [] items
  rcases h with hfew | hone
  · exact hsub.countP_le.trans hfew
  · by_cases hnone : ∃ a ∈ gate.passing key [] items,
        wantedIn group wanted g a = true
    · obtain ⟨a, ha, hain⟩ := hnone
      refine le_trans (List.countP_mono_left fun b hb hbin => ?_)
        (hgate.countP_passing_le key (key a) items)
      simpa using hone b (hsub.mem hb) a (hsub.mem ha) hbin hain
    · rw [List.countP_eq_zero.mpr fun a ha hain => hnone ⟨a, ha, hain⟩]
      exact Nat.zero_le n

/-- Of two keys in a group, one differs from a given key. -/
theorem exists_key_ne {key : α → K} {a b c : α} {p : α → Prop} (ha : p a)
    (hb : p b) (hab : key a ≠ key b) : ∃ d, p d ∧ key c ≠ key d := by
  by_cases hca : key c = key a
  · exact ⟨b, hb, fun hcb => hab (hca.symm.trans hcb)⟩
  · exact ⟨a, ha, hca⟩

/--
A quota for each key bounds the wanted items of every group exactly if every
group has few of them or has them under one key.
-/
theorem group_quota_iff {key : α → K} {group : α → G} {wanted : α → Bool}
    {n : Nat} (hn : 0 < n)
    (hgroup : ∀ a b, key a = key b → group a = group b) (items : List α) :
    (∀ gate : Gate K, gate.Keeps n → ∀ g,
      (gate.passing key [] items).countP (wantedIn group wanted g) ≤ n) ↔
    ∀ g, items.countP (wantedIn group wanted g) ≤ n ∨
      ∀ a ∈ items, ∀ b ∈ items, wantedIn group wanted g a = true →
        wantedIn group wanted g b = true → key a = key b := by
  constructor
  · intro hcapped g
    have hgenerous := hcapped _ (keeps_generous key wanted n items) g
    by_contra hnot
    push Not at hnot
    obtain ⟨hmany, a, ha, b, hb, hain, hbin, hab⟩ := hnot
    by_cases hfew : ∀ c ∈ items, wantedIn group wanted g c = true →
        (own key items (key c)).countP wanted ≤ n
    · have hall : ∀ c ∈ items, wantedIn group wanted g c = true →
          wanted c = true ∧ (own key items (key c)).countP wanted ≤ n :=
        fun c hc hcin => ⟨(Bool.and_eq_true_iff.mp hcin).1, hfew c hc hcin⟩
      rw [countP_passing_of_few hall [] rfl (by simp)] at hgenerous
      omega
    · push Not at hfew
      obtain ⟨c, hc, hcin, hmore⟩ := hfew
      obtain ⟨d, ⟨hd, hdin⟩, hcd⟩ := exists_key_ne
        (p := fun a => a ∈ items ∧ wantedIn group wanted g a = true)
        ⟨ha, hain⟩ ⟨hb, hbin⟩ hab
      simp only [wantedIn, Bool.and_eq_true, decide_eq_true_eq] at hcin hdin
      have hmoreIn := lt_countP_passing_generous hn hgroup hd hdin.1
        (hdin.2.trans hcin.2.symm) hcd hmore
      rw [hcin.2] at hmoreIn
      omega
  · exact fun h gate hgate g => countP_passing_wantedIn_le hgate (h g)

end Gate

end Milona.Foundation
