import Milona.Presenter.Http

/-!
# API keys of the environment

`parseApiKeys` reads a list of entries `key:tenant:role:subject`, separated by
commas, and passes over the entries it cannot read.  The reader of UUIDs is a
parameter.

A value of the variable is described by `Segment`s: an entry, or text that is
malformed.
-/

namespace Milona.Presenter

open Milona.Core Milona.Foundation

def roleOfName (name : String) : Option Role :=
  match name with
  | "admin" => some .admin
  | "member" => some .member
  | "readonly" | "read_only" => some .readOnly
  | "service" => some .service
  | _ => none

def toAsciiLowercase (text : List Char) : String :=
  String.ofList (text.map Char.toLower)

def insertEntry (parseStr : String → Option Uuid) (keys : HashMap String ApiKeyRecord)
    (entry : List Char) : HashMap String ApiKeyRecord :=
  let entry := trim isWhitespace entry
  if entry.isEmpty then keys
  else
    match splitN ':' 4 entry with
    | [key, tenantStr, roleStr, subject] =>
        match parseStr (String.ofList tenantStr) with
        | none => keys
        | some tenantUuid =>
            match roleOfName (toAsciiLowercase roleStr) with
            | none => keys
            | some role =>
                keys.insert (String.ofList key)
                  ⟨⟨tenantUuid⟩, role, String.ofList subject⟩
    | _ => keys

def parseApiKeys (parseStr : String → Option Uuid) (raw : String) :
    HashMap String ApiKeyRecord :=
  (raw.toList.splitOn ',').foldl (insertEntry parseStr) ∅

/-! ## Segments -/

def roleNames : List (String × Role) :=
  [("admin", .admin), ("member", .member), ("readonly", .readOnly),
    ("read_only", .readOnly), ("service", .service)]

structure ApiKeyEntry where
  before : List Char
  key : List Char
  tenant : Uuid
  roleText : List Char
  role : Role
  subject : List Char
  after : List Char
  before_blank : ∀ c ∈ before, isWhitespace c
  key_plain : ',' ∉ key ∧ ':' ∉ key
  key_head : ∀ c, key.head? = some c → isWhitespace c = false
  role_named : (toAsciiLowercase roleText, role) ∈ roleNames
  subject_plain : ',' ∉ subject
  subject_last : ∀ c, subject.getLast? = some c → isWhitespace c = false
  after_blank : ∀ c ∈ after, isWhitespace c

/-- Blank, without four fields, or with a tenant or a role that is not one. -/
inductive Malformed (parseStr : String → Option Uuid) (text : List Char) : Prop
  | blank (h : ∀ c ∈ text, isWhitespace c)
  | short (h : ((trim isWhitespace text).splitOn ':').length < 4)
  | tenant (field : List Char)
      (hfield : ((trim isWhitespace text).splitOn ':')[1]? = some field)
      (h : parseStr (String.ofList field) = none)
  | role (field : List Char)
      (hfield : ((trim isWhitespace text).splitOn ':')[2]? = some field)
      (h : ∀ role, (toAsciiLowercase field, role) ∉ roleNames)

inductive Segment (parseStr : String → Option Uuid) where
  | entry (fields : ApiKeyEntry)
  | malformed (text : List Char) (plain : ',' ∉ text) (h : Malformed parseStr text)

namespace ApiKeyEntry

def core (entry : ApiKeyEntry) : List Char :=
  entry.key ++ ':' :: (entry.tenant.toChars ++ ':' ::
    (entry.roleText ++ ':' :: entry.subject))

def text (entry : ApiKeyEntry) : List Char :=
  entry.before ++ entry.core ++ entry.after

def record (entry : ApiKeyEntry) : ApiKeyRecord :=
  ⟨⟨entry.tenant⟩, entry.role, String.ofList entry.subject⟩

end ApiKeyEntry

namespace Segment

variable {parseStr : String → Option Uuid}

def text : Segment parseStr → List Char
  | .entry fields => fields.text
  | .malformed text _ _ => text

def inserted : Segment parseStr → Option (String × ApiKeyRecord)
  | .entry fields => some (String.ofList fields.key, fields.record)
  | .malformed _ _ _ => none

end Segment

def joinSegments {parseStr : String → Option Uuid} (segments : List (Segment parseStr)) :
    String :=
  String.ofList ([','].intercalate (segments.map Segment.text))

/-! ## Names of roles -/

theorem roleOfName_of_mem {name : String} {role : Role} (h : (name, role) ∈ roleNames) :
    roleOfName name = some role := by
  simp only [roleNames, List.mem_cons, Prod.mk.injEq, List.not_mem_nil, or_false] at h
  rcases h with ⟨rfl, rfl⟩ | ⟨rfl, rfl⟩ | ⟨rfl, rfl⟩ | ⟨rfl, rfl⟩ | ⟨rfl, rfl⟩ <;> rfl

theorem mem_of_roleOfName {name : String} {role : Role}
    (h : roleOfName name = some role) :
    (name, role) ∈ roleNames := by
  unfold roleOfName at h
  split at h
  all_goals first | (cases h; decide) | cases h

private theorem notMem_of_role_named {text : List Char} {role : Role} {c : Char}
    (hlower : c.toLower = c) (hc : ∀ entry ∈ roleNames, c ∉ entry.1.toList)
    (h : (toAsciiLowercase text, role) ∈ roleNames) : c ∉ text := by
  intro hmem
  apply hc _ h
  rw [toAsciiLowercase, String.toList_ofList]
  exact List.mem_map.mpr ⟨c, hmem, hlower⟩

private theorem notMem_toChars {c : Char} (hhyphen : c ≠ '-')
    (hdigit : ∀ d < 16, Nat.digitChar d ≠ c) (id : Uuid) : c ∉ id.toChars := by
  intro h
  have hfiltered : c ∈ id.toChars.filter (· ≠ '-') :=
    List.mem_filter.mpr ⟨h, by simpa using hhyphen⟩
  rw [Uuid.filter_toChars] at hfiltered
  obtain ⟨d, hd, heq⟩ := List.mem_map.mp hfiltered
  exact hdigit d (fixedDigits_lt (by decide) _ _ d hd) heq

/-! ## One entry -/

namespace ApiKeyEntry

variable (entry : ApiKeyEntry)

theorem roleText_plain : ',' ∉ entry.roleText ∧ ':' ∉ entry.roleText :=
  ⟨notMem_of_role_named rfl (by decide) entry.role_named,
    notMem_of_role_named rfl (by decide) entry.role_named⟩

theorem tenant_plain : ',' ∉ entry.tenant.toChars ∧ ':' ∉ entry.tenant.toChars :=
  ⟨notMem_toChars (by decide) (by decide) _, notMem_toChars (by decide) (by decide) _⟩

private theorem isTrimmed_core : IsTrimmed isWhitespace entry.core where
  head := by
    intro c hc
    unfold core at hc
    cases hkey : entry.key with
    | nil =>
        rw [hkey] at hc
        cases hc
        decide
    | cons d key =>
        rw [hkey] at hc
        exact entry.key_head c (by rw [hkey]; exact hc)
  last := by
    intro c hc
    have hlast : (':' :: entry.subject).getLast? = some c := by
      simpa [core, List.getLast?_append, List.getLast?_cons] using hc
    cases hsubject : entry.subject with
    | nil =>
        rw [hsubject] at hlast
        cases hlast
        decide
    | cons d subject =>
        rw [hsubject, List.getLast?_cons_cons] at hlast
        exact entry.subject_last c (by rw [hsubject]; exact hlast)

theorem trim_text : trim isWhitespace entry.text = entry.core :=
  trim_pad entry.before_blank entry.after_blank entry.isTrimmed_core

theorem splitN_core :
    splitN ':' 4 entry.core =
      [entry.key, entry.tenant.toChars, entry.roleText, entry.subject] := by
  rw [core, splitN_append entry.key_plain.2, splitN_append entry.tenant_plain.2,
    splitN_append entry.roleText_plain.2]
  rfl

theorem notMem_text : ',' ∉ entry.text := by
  have hblank : ∀ blanks : List Char, (∀ c ∈ blanks, isWhitespace c) → ',' ∉ blanks := by
    intro blanks h hmem
    exact absurd (h ',' hmem) (by decide)
  simp only [text, core, List.mem_append, List.mem_cons, not_or]
  exact ⟨⟨hblank _ entry.before_blank, entry.key_plain.1, by decide,
    entry.tenant_plain.1, by decide, entry.roleText_plain.1, by decide,
    entry.subject_plain⟩, hblank _ entry.after_blank⟩

private theorem core_ne_nil : entry.core.isEmpty = false := by
  unfold core
  cases entry.key <;> rfl

end ApiKeyEntry

section Reader

variable {parseStr : String → Option Uuid}

private theorem insertEntry_entry
    (hparse : ∀ id : Uuid, parseStr id.hyphenated = some id)
    (keys : HashMap String ApiKeyRecord) (entry : ApiKeyEntry) :
    insertEntry parseStr keys entry.text =
      keys.insert (String.ofList entry.key) entry.record := by
  have htenant : parseStr (String.ofList entry.tenant.toChars) = some entry.tenant :=
    hparse entry.tenant
  simp only [insertEntry, entry.trim_text, entry.core_ne_nil, entry.splitN_core, htenant,
    roleOfName_of_mem entry.role_named, Bool.false_eq_true, if_false]
  rfl

theorem insertEntry_malformed (keys : HashMap String ApiKeyRecord) {text : List Char}
    (h : Malformed parseStr text) : insertEntry parseStr keys text = keys := by
  unfold insertEntry
  simp only
  split
  next => rfl
  next hempty =>
    split
    next key tenantStr roleStr subject hsplit =>
      have hlength : (splitN ':' 4 (trim isWhitespace text)).length =
        min 4 ((trim isWhitespace text).splitOn ':').length := length_splitN 3 _
      have hsecond : (splitN ':' 4 (trim isWhitespace text))[1]? =
        ((trim isWhitespace text).splitOn ':')[1]? := getElem?_splitN _ (by decide)
      have hthird : (splitN ':' 4 (trim isWhitespace text))[2]? =
        ((trim isWhitespace text).splitOn ':')[2]? := getElem?_splitN _ (by decide)
      rw [hsplit] at hlength hsecond hthird
      cases h with
      | blank h =>
          rw [trim_eq_nil h] at hempty
          exact absurd rfl hempty
      | short h =>
          have hfour : [key, tenantStr, roleStr, subject].length = 4 := rfl
          omega
      | tenant field hfield h =>
          rw [hfield] at hsecond
          cases hsecond
          rw [h]
      | role field hfield h =>
          rw [hfield] at hthird
          cases hthird
          have hnone : roleOfName (toAsciiLowercase roleStr) = none := by
            rw [Option.eq_none_iff_forall_ne_some]
            intro role hrole
            exact h role (mem_of_roleOfName hrole)
          rw [hnone]
          cases parseStr (String.ofList tenantStr) <;> rfl
    next => rfl

private theorem insertEntry_text
    (hparse : ∀ id : Uuid, parseStr id.hyphenated = some id)
    (keys : HashMap String ApiKeyRecord) (segment : Segment parseStr) :
    insertEntry parseStr keys segment.text = keys.insertAll segment.inserted.toList := by
  cases segment with
  | entry fields => exact insertEntry_entry hparse keys fields
  | malformed text plain h => exact insertEntry_malformed keys h

/-! ## The whole value -/

theorem notMem_segment (segment : Segment parseStr) : ',' ∉ segment.text := by
  cases segment with
  | entry fields => exact fields.notMem_text
  | malformed text plain h => exact plain

private theorem foldl_insertEntry
    (hparse : ∀ id : Uuid, parseStr id.hyphenated = some id)
    (keys : HashMap String ApiKeyRecord) (segments : List (Segment parseStr)) :
    (segments.map Segment.text).foldl (insertEntry parseStr) keys =
      keys.insertAll (segments.filterMap Segment.inserted) := by
  induction segments generalizing keys with
  | nil => rfl
  | cons segment segments ih =>
      rw [List.map_cons, List.foldl_cons, insertEntry_text hparse, ih]
      cases hinserted : segment.inserted with
      | none => rw [List.filterMap_cons_none hinserted]; rfl
      | some entry => rw [List.filterMap_cons_some hinserted]; rfl

private theorem parseApiKeys_join
    (hparse : ∀ id : Uuid, parseStr id.hyphenated = some id)
    (segments : List (Segment parseStr)) :
    parseApiKeys parseStr (joinSegments segments) =
      HashMap.insertAll ∅ (segments.filterMap Segment.inserted) := by
  rw [parseApiKeys, joinSegments, String.toList_ofList]
  cases segments with
  | nil =>
      have hblank : Malformed parseStr [] :=
        .blank fun c hc => absurd hc List.not_mem_nil
      rw [List.map_nil, List.intercalate_nil, List.splitOn_nil]
      exact insertEntry_malformed ∅ hblank
  | cons segment segments =>
      rw [List.splitOn_intercalate, foldl_insertEntry hparse]
      · intro text htext
        obtain ⟨found, -, rfl⟩ := List.mem_map.mp htext
        exact notMem_segment found
      · simp

theorem parseApiKeys_segments (hparse : ∀ id : Uuid, parseStr id.hyphenated = some id)
    (segments : List (Segment parseStr)) :
    parseApiKeys parseStr (joinSegments segments) =
        HashMap.insertAll ∅ (segments.filterMap Segment.inserted) ∧
      ∀ key,
        (parseApiKeys parseStr (joinSegments segments)).lookup key =
          ((segments.filterMap Segment.inserted).reverse.find? (·.1 = key)).map
            (·.2) := by
  have hjoin := parseApiKeys_join hparse segments
  refine ⟨hjoin, fun key => ?_⟩
  rw [hjoin, HashMap.lookup_insertAll, Finmap.lookup_empty, Option.or_none]

end Reader

def sampleEntry (subject : List Char) (hplain : ',' ∉ subject)
    (hlast : ∀ c, subject.getLast? = some c → isWhitespace c = false) :
    ApiKeyEntry where
  before := [' ']
  key := ['k']
  tenant := ⟨1⟩
  roleText := "Member".toList
  role := .member
  subject := subject
  after := []
  before_blank := by simp; decide
  key_plain := by simp
  key_head := by simp; decide
  role_named := .tail _ (.head _)
  subject_plain := hplain
  subject_last := hlast
  after_blank := by simp

def sampleSegments : List (Segment Uuid.ofHyphenated) :=
  [.entry (sampleEntry [':', 'u'] (by simp) (by simp; decide)),
    .malformed [] (by simp) (.blank (by simp)),
    .entry (sampleEntry [] (by simp) (by simp))]

theorem parseApiKeys_sampleSegments :
    parseApiKeys Uuid.ofHyphenated (joinSegments sampleSegments) =
        HashMap.insertAll ∅ (sampleSegments.filterMap Segment.inserted) ∧
      ∀ key,
        (parseApiKeys Uuid.ofHyphenated (joinSegments sampleSegments)).lookup key =
          ((sampleSegments.filterMap Segment.inserted).reverse.find?
            (·.1 = key)).map (·.2) :=
  parseApiKeys_segments Uuid.ofHyphenated_hyphenated sampleSegments

end Milona.Presenter
