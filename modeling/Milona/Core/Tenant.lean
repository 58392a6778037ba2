import Milona.Foundation.Digits

/-!
# Tenants, identifiers and the access policy

Every identifier of the system wraps a UUID.  Its text is the hyphenated
lower-case hexadecimal numeral, which determines the UUID and has 36
characters.
-/

namespace Milona.Core

open Milona.Foundation

structure Uuid where
  bits : BitVec 128
  deriving DecidableEq, Repr

namespace Uuid

def hexDigits (id : Uuid) : List Char :=
  (fixedDigits 16 32 id.bits.toNat).map Nat.digitChar

/-- The groups of 8, 4, 4, 4 and 12 digits. -/
def toChars (id : Uuid) : List Char :=
  let digits := id.hexDigits
  digits.take 8 ++ '-' :: (digits.drop 8).take 4 ++ '-' ::
    (digits.drop 12).take 4 ++ '-' :: (digits.drop 16).take 4 ++ '-' ::
      digits.drop 20

def hyphenated (id : Uuid) : String := String.ofList id.toChars

@[simp] theorem length_hexDigits (id : Uuid) : id.hexDigits.length = 32 := by
  simp [hexDigits]

@[simp] theorem length_toChars (id : Uuid) : id.toChars.length = 36 := by
  simp [toChars]

private theorem hexDigits_injective : Function.Injective hexDigits := by
  intro first second h
  have hdigits := map_digitChar_injOn (fixedDigits_lt (by decide) _ _)
    (fixedDigits_lt (by decide) _ _) h
  have hbits := fixedDigits_injOn (by simpa using first.bits.isLt)
    (by simpa using second.bits.isLt) hdigits
  cases first
  cases second
  simpa [BitVec.toNat_inj] using hbits

private theorem join_groups (digits : List Char) :
    digits.take 8 ++ ((digits.drop 8).take 4 ++ ((digits.drop 12).take 4 ++
      ((digits.drop 16).take 4 ++ digits.drop 20))) = digits := by
  have hgroup : ∀ n, (digits.drop n).take 4 ++ digits.drop (n + 4) =
      digits.drop n := by
    intro n
    rw [← List.drop_drop, List.take_append_drop]
  rw [hgroup 16, hgroup 12, hgroup 8, List.take_append_drop]

private theorem toChars_injective : Function.Injective toChars := by
  intro first second h
  apply hexDigits_injective
  simp only [toChars, List.append_assoc, List.cons_append] at h
  obtain ⟨h₁, h⟩ := List.append_inj h (by simp)
  obtain ⟨h₂, h⟩ := List.append_inj (List.cons.inj h).2 (by simp)
  obtain ⟨h₃, h⟩ := List.append_inj (List.cons.inj h).2 (by simp)
  obtain ⟨h₄, h⟩ := List.append_inj (List.cons.inj h).2 (by simp)
  have h₅ := (List.cons.inj h).2
  rw [← join_groups first.hexDigits, ← join_groups second.hexDigits, h₁, h₂,
    h₃, h₄, h₅]

theorem hyphenated_injective : Function.Injective hyphenated :=
  fun _ _ h => toChars_injective (String.ofList_injective h)

@[simp] theorem toList_hyphenated (id : Uuid) :
    id.hyphenated.toList = id.toChars := by
  simp [hyphenated]

def hexValue (c : Char) : Nat :=
  ((List.range 16).find? fun digit => Nat.digitChar digit = c).getD 0

/-- The reader of the hyphenated text, and of no other text. -/
def ofHyphenated (text : String) : Option Uuid :=
  let digits := text.toList.filter (· ≠ '-')
  let id : Uuid :=
    ⟨BitVec.ofNat 128 (digits.foldl (fun value c => 16 * value + hexValue c) 0)⟩
  if id.hyphenated = text then some id else none

private theorem hyphen_notMem_hexDigits (id : Uuid) : '-' ∉ id.hexDigits := by
  intro h
  obtain ⟨digit, hdigit, heq⟩ := List.mem_map.mp h
  have hlt := fixedDigits_lt (by decide) _ _ digit hdigit
  have hall : ∀ d < 16, Nat.digitChar d ≠ '-' := by decide
  exact hall digit hlt heq

theorem filter_toChars (id : Uuid) : id.toChars.filter (· ≠ '-') = id.hexDigits := by
  have hself : ∀ digits : List Char, (∀ c ∈ digits, c ∈ id.hexDigits) →
      digits.filter (· ≠ '-') = digits := by
    intro digits h
    rw [List.filter_eq_self]
    intro c hc
    simpa using ne_of_mem_of_not_mem (h c hc) id.hyphen_notMem_hexDigits
  have hfirst : ∀ c ∈ id.hexDigits.take 8, c ∈ id.hexDigits :=
    fun c hc => List.mem_of_mem_take hc
  have hgroup : ∀ k, ∀ c ∈ (id.hexDigits.drop k).take 4, c ∈ id.hexDigits :=
    fun k c hc => List.mem_of_mem_drop (List.mem_of_mem_take hc)
  have hdrop : ∀ c ∈ id.hexDigits.drop 20, c ∈ id.hexDigits :=
    fun c hc => List.mem_of_mem_drop hc
  simp only [toChars, List.append_assoc, List.cons_append, List.filter_append]
  simp only [List.filter_cons, ne_eq, not_true_eq_false, decide_false,
    Bool.false_eq_true, if_false, List.filter_append]
  rw [hself _ hfirst, hself _ (hgroup 8), hself _ (hgroup 12), hself _ (hgroup 16),
    hself _ hdrop]
  exact join_groups id.hexDigits

private theorem foldl_hexDigits (id : Uuid) :
    id.hexDigits.foldl (fun value c => 16 * value + hexValue c) 0 = id.bits.toNat := by
  have hvalue : ∀ digits : List Nat, (∀ d ∈ digits, d < 16) → ∀ value,
      (digits.map Nat.digitChar).foldl (fun value c => 16 * value + hexValue c) value =
        digits.foldl (fun value digit => 16 * value + digit) value := by
    intro digits
    induction digits with
    | nil => exact fun _ _ => rfl
    | cons digit digits ih =>
        intro h value
        have hdigit : ∀ d < 16, hexValue (Nat.digitChar d) = d := by decide
        rw [List.map_cons, List.foldl_cons, List.foldl_cons,
          hdigit digit (h digit List.mem_cons_self)]
        exact ih (fun d hd => h d (List.mem_cons_of_mem _ hd)) _
  rw [hexDigits, hvalue _ (fixedDigits_lt (by decide) _ _)]
  exact foldl_fixedDigits (by simpa using id.bits.isLt)

theorem ofHyphenated_hyphenated (id : Uuid) : ofHyphenated id.hyphenated = some id := by
  have hbits : (⟨BitVec.ofNat 128 id.bits.toNat⟩ : Uuid) = id := by simp
  simp only [ofHyphenated, toList_hyphenated, filter_toChars, foldl_hexDigits, hbits,
    if_true]

end Uuid

/-! ## Tenants -/

structure TenantId where
  uuid : Uuid
  deriving DecidableEq, Repr

def TenantId.display (tenantId : TenantId) : String :=
  tenantId.uuid.hyphenated

theorem TenantId.display_injective : Function.Injective TenantId.display := by
  rintro ⟨first⟩ ⟨second⟩ h
  exact congrArg TenantId.mk (Uuid.hyphenated_injective h)

inductive Role where
  | admin
  | member
  | readOnly
  | service
  deriving DecidableEq, Repr

def Role.debug : Role → String
  | .admin => "Admin"
  | .member => "Member"
  | .readOnly => "ReadOnly"
  | .service => "Service"

structure TenantContext where
  tenantId : TenantId
  role : Role
  subject : String
  deriving DecidableEq, Repr

/-! ## Documents and chunks -/

structure DocumentId where
  uuid : Uuid
  deriving DecidableEq, Repr

structure ChunkId where
  uuid : Uuid
  deriving DecidableEq, Repr

/-- The derived `Debug` text of a chunk id. -/
def ChunkId.debug (chunkId : ChunkId) : String :=
  "ChunkId(" ++ chunkId.uuid.hyphenated ++ ")"

def ChunkId.number (chunkId : ChunkId) : Nat := chunkId.uuid.bits.toNat

theorem ChunkId.number_injective : Function.Injective ChunkId.number := by
  rintro ⟨⟨first⟩⟩ ⟨⟨second⟩⟩ h
  exact congrArg (fun bits => ChunkId.mk ⟨bits⟩) (BitVec.toNat_inj.mp h)

structure Chunk where
  id : ChunkId
  documentId : DocumentId
  text : String
  sequence : Nat
  tokenCount : Nat
  deriving DecidableEq, Repr

/-! ## Access policy -/

structure AuthzPolicy where
  canRead : TenantContext → TenantId → Bool
  canWrite : TenantContext → TenantId → Bool

/-- A caller may only act within its own tenant; `ReadOnly` may not write. -/
def sameTenantPolicy : AuthzPolicy where
  canRead ctx resourceTenant := ctx.tenantId = resourceTenant
  canWrite ctx resourceTenant :=
    ctx.tenantId = resourceTenant && !(ctx.role = .readOnly : Bool)

@[simp] theorem sameTenantPolicy_canRead (ctx : TenantContext) :
    sameTenantPolicy.canRead ctx ctx.tenantId = true := by
  simp [sameTenantPolicy]

end Milona.Core
