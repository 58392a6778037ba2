import Milona.Core.Traits
import Milona.Foundation.Numerals
import Milona.Tools.CurrentTime

/-!
# RFC 3339 timestamps

`formatRfc3339` renders a Unix timestamp.  The text is that of a `UtcTime`, from
which the timestamp is read back, and before the year 10000 texts are ordered as
the timestamps are.
-/

namespace Milona.Tools

open Milona.Core Milona.Foundation

def paddedInt (width : Nat) (n : Int) : List Char :=
  if n < 0 then '-' :: paddedDecimal (width - 1) n.natAbs
  else paddedDecimal width n.toNat

def formatRfc3339 (unixSecs : UInt64) : Option String := do
  let daysSinceEpoch := unixSecs.toNat / 86400
  let secsOfDay := unixSecs.toNat % 86400
  let (year, month, day) ← civilFromDays (I64.ofU64 daysSinceEpoch)
  let hour := secsOfDay / 3600
  let minute := (secsOfDay % 3600) / 60
  let second := secsOfDay % 60
  return String.ofList
    (paddedInt 4 year ++ '-' :: (paddedDecimal 2 month ++ '-' ::
      (paddedDecimal 2 day ++ 'T' :: (paddedDecimal 2 hour ++ ':' ::
        (paddedDecimal 2 minute ++ ':' :: (paddedDecimal 2 second ++ ['Z']))))))

namespace CurrentTimeTool

variable {σ : Type}

def reply : Option String → Action σ (Result ToolResult)
  | some content => return .ok ⟨content⟩
  | none => Action.panic

def invoke (clock : Action σ (Except String UInt64)) (_ctx : TenantContext)
    (_invocation : ToolInvocation) : Action σ (Result ToolResult) := do
  match ← clock with
  | .error e => return .error (.other ("system clock before epoch: " ++ e))
  | .ok now => reply (formatRfc3339 now)

def tool (clock : Action σ (Except String UInt64)) : Tool σ where
  name := "current_time"
  description :=
    "Returns the current UTC date and time in RFC 3339 format. Takes no arguments."
  invoke := invoke clock

end CurrentTimeTool

structure UtcTime where
  date : CivilDate
  hour : Nat
  minute : Nat
  second : Nat
  hour_lt : hour < 24
  minute_lt : minute < 60
  second_lt : second < 60

def rfc3339Layout : List Field :=
  [⟨4, '-'⟩, ⟨2, '-'⟩, ⟨2, 'T'⟩, ⟨2, ':'⟩, ⟨2, ':'⟩, ⟨2, 'Z'⟩]

namespace UtcTime

def toUnixSecs (time : UtcTime) : Int :=
  time.date.dayNumber * 86400 + time.hour * 3600 + time.minute * 60 + time.second

def ofFields (values : List Nat) : Option UtcTime :=
  match values with
  | [year, month, day, hour, minute, second] =>
      if h : hour < 24 ∧ minute < 60 ∧ second < 60 then
        (CivilDate.ofFields year month day).map fun date =>
          ⟨date, hour, minute, second, h.1, h.2.1, h.2.2⟩
      else none
  | _ => none

def fields (time : UtcTime) : List Nat :=
  [time.date.year.toNat, time.date.month, time.date.day, time.hour, time.minute,
    time.second]

theorem ofFields_fields {time : UtcTime} (h : 0 ≤ time.date.year) :
    ofFields time.fields = some time := by
  have hdate := time.date.ofFields_fields
  simp [ofFields, fields, time.hour_lt, time.minute_lt, time.second_lt, h, hdate]

/-- The time `secs` seconds after the start of `date`. -/
def ofDay (date : CivilDate) (secs : Nat) (h : secs < 86400) : UtcTime where
  date := date
  hour := secs / 3600
  minute := (secs % 3600) / 60
  second := secs % 60
  hour_lt := by omega
  minute_lt := by omega
  second_lt := by omega

theorem toUnixSecs_ofDay (date : CivilDate) {secs : Nat} (h : secs < 86400) :
    (ofDay date secs h).toUnixSecs = date.dayNumber * 86400 + secs := by
  simp only [toUnixSecs, ofDay]
  omega

theorem fields_lt {first second : UtcTime} (hyear : 0 ≤ first.date.year)
    (h : first.toUnixSecs < second.toUnixSecs) : first.fields < second.fields := by
  have hhour := first.hour_lt
  have hminute := first.minute_lt
  have hsecond := first.second_lt
  have hhour' := second.hour_lt
  have hminute' := second.minute_lt
  have hsecond' := second.second_lt
  unfold toUnixSecs at h
  simp only [fields, List.cons_lt_cons_iff, List.not_lt_nil, and_false, or_false]
  rcases lt_trichotomy first.date.dayNumber second.date.dayNumber with hday | hday | hday
  · have hprecedes := CivilDate.precedes_of_dayNumber_lt hday
    unfold CivilDate.Precedes at hprecedes
    omega
  · rw [CivilDate.dayNumber_injective hday] at h ⊢
    omega
  · omega

theorem year_nonneg (time : UtcTime) (h : 0 ≤ time.toUnixSecs) : 0 ≤ time.date.year := by
  have hhour := time.hour_lt
  have hminute := time.minute_lt
  have hsecond := time.second_lt
  have hyear : 1970 ≤ time.date.year := by
    apply CivilDate.le_year_of_le_dayNumber
    unfold toUnixSecs at h
    omega
  omega

private theorem year_lt {time : UtcTime} (h : time.toUnixSecs < 253402300800) :
    time.date.year < 10000 := by
  have hlast : daysBeforeYear 10000 - daysBeforeYear 1970 = 2932897 := by decide
  apply CivilDate.year_lt_of_dayNumber_lt
  rw [hlast]
  unfold toUnixSecs at h
  omega

theorem fits_fields {time : UtcTime} (h : time.toUnixSecs < 253402300800) :
    List.Forall₂ FitsField rfc3339Layout time.fields := by
  have hyear := year_lt h
  have hmonth := time.date.month_le
  have hday := time.date.day_le
  have hlength := monthLength_le time.date.year time.date.month
  have hhour := time.hour_lt
  have hminute := time.minute_lt
  have hsecond := time.second_lt
  simp only [rfc3339Layout, fields, List.forall₂_cons, FitsField,
    List.forall₂_nil_left_iff,
    and_true]
  omega

end UtcTime

def decodeRfc3339 (text : String) : Option UtcTime :=
  (readFields rfc3339Layout text.toList).bind UtcTime.ofFields

theorem formatRfc3339_eq (unixSecs : UInt64) :
    ∃ time : UtcTime,
      formatRfc3339 unixSecs =
        some (String.ofList (renderFields rfc3339Layout time.fields)) ∧
        time.toUnixSecs = unixSecs.toNat := by
  have hbound := unixSecs.toNat_lt
  obtain ⟨date, hdate, hday⟩ := civilFromDays_spec
    (z := (unixSecs.toNat / 86400 : Nat)) (by omega) (by omega)
  have hsecs : unixSecs.toNat % 86400 < 86400 := by omega
  have hunix := UtcTime.toUnixSecs_ofDay date hsecs
  rw [hday] at hunix
  refine ⟨UtcTime.ofDay date _ hsecs, ?_, by rw [hunix]; omega⟩
  have hyear : 0 ≤ date.year :=
    UtcTime.year_nonneg (UtcTime.ofDay date _ hsecs) (by rw [hunix]; omega)
  have hdays : I64.ofU64 (unixSecs.toNat / 86400) = (unixSecs.toNat / 86400 : Nat) :=
    I64.ofU64_eq (by omega)
  simp only [formatRfc3339, hdays, hdate, CivilDate.fields, Option.bind_eq_bind,
    Option.bind_some, paddedInt, if_neg (not_lt.mpr hyear)]
  rfl

private theorem decodeRfc3339_render {time : UtcTime} (h : 0 ≤ time.date.year) :
    decodeRfc3339 (String.ofList (renderFields rfc3339Layout time.fields)) =
      some time := by
  have hseparators : ∀ field ∈ rfc3339Layout, field.separator.isDigit = false := by
    decide
  have hlength : rfc3339Layout.length = time.fields.length := rfl
  have hread := readFields_renderFields hlength hseparators
  rw [decodeRfc3339, String.toList_ofList, hread, Option.bind_some,
    UtcTime.ofFields_fields h]

theorem decodeRfc3339_format (unixSecs : UInt64) :
    ∃ time : UtcTime,
      formatRfc3339 unixSecs =
        some (String.ofList (renderFields rfc3339Layout time.fields)) ∧
        decodeRfc3339 (String.ofList (renderFields rfc3339Layout time.fields)) =
          some time ∧
        time.toUnixSecs = unixSecs.toNat := by
  obtain ⟨time, hformat, hsecs⟩ := formatRfc3339_eq unixSecs
  have hyear : 0 ≤ time.date.year := time.year_nonneg (by omega)
  exact ⟨time, hformat, decodeRfc3339_render hyear, hsecs⟩

/-- A clock that yields a time makes the tool answer with that time. -/
theorem CurrentTimeTool.invoke_of_clock {σ : Type}
    {clock : Action σ (Except String UInt64)} {s s' : σ} {now : UInt64}
    (hclock : clock s = (.returned (.ok now), s')) (ctx : TenantContext)
    (invocation : ToolInvocation) :
    ∃ content time,
      invoke clock ctx invocation s = (.returned (.ok ⟨content⟩), s') ∧
        decodeRfc3339 content = some time ∧ time.toUnixSecs = now.toNat := by
  obtain ⟨time, hformat, hdecode, hsecs⟩ := decodeRfc3339_format now
  refine ⟨_, time, ?_, hdecode, hsecs⟩
  rw [invoke, Action.bind_of_returned hclock]
  change reply (formatRfc3339 now) s' = _
  rw [hformat]
  rfl

/-- A text of the shape `YYYY-MM-DDTHH:MM:SSZ`. -/
def IsRfc3339 (text : String) : Prop :=
  text.length = 20 ∧ MatchesTemplate "0000-00-00T00:00:00Z".toList text.toList

private theorem isRfc3339_render {time : UtcTime}
    (h : time.toUnixSecs < 253402300800) :
    IsRfc3339 (String.ofList (renderFields rfc3339Layout time.fields)) := by
  have htemplate : templateOf rfc3339Layout = "0000-00-00T00:00:00Z".toList := by
    decide
  have hmatches := matchesTemplate_renderFields (UtcTime.fits_fields h) (by decide)
  have hlength : (templateOf rfc3339Layout).length =
    (renderFields rfc3339Layout time.fields).length := List.Forall₂.length_eq hmatches
  refine ⟨?_, ?_⟩
  · rw [String.length_ofList, ← hlength]
    decide
  · rwa [← htemplate, String.toList_ofList]

theorem formatRfc3339_correct (s : UInt64) :
    (∃ text time,
        formatRfc3339 s = some text ∧
          decodeRfc3339 text = some time ∧
          time.hour < 24 ∧
          time.minute < 60 ∧ time.second < 60 ∧ time.toUnixSecs = s.toNat) ∧
      ∀ t : UInt64,
        s < t →
          t < 253402300800 →
            ∃ first second,
              formatRfc3339 s = some first ∧
                formatRfc3339 t = some second ∧
                IsRfc3339 first ∧ IsRfc3339 second ∧ first < second := by
  obtain ⟨time, hformat, hdecode, hsecs⟩ := decodeRfc3339_format s
  have hyear : 0 ≤ time.date.year := time.year_nonneg (by omega)
  constructor
  · exact ⟨_, time, hformat, hdecode, time.hour_lt, time.minute_lt, time.second_lt,
      hsecs⟩
  · intro t hst ht
    obtain ⟨later, hlater, htsecs⟩ := formatRfc3339_eq t
    have hlt : s.toNat < t.toNat := UInt64.lt_iff_toNat_lt.mp hst
    have hbound : t.toNat < 253402300800 := UInt64.lt_iff_toNat_lt.mp ht
    have hfirst : time.toUnixSecs < 253402300800 := by omega
    have hsecond : later.toUnixSecs < 253402300800 := by omega
    refine ⟨_, _, hformat, hlater, isRfc3339_render hfirst, isRfc3339_render hsecond, ?_⟩
    have horder := renderFields_lt (UtcTime.fits_fields hfirst)
      (UtcTime.fits_fields hsecond) (UtcTime.fields_lt hyear (by omega))
    change (String.ofList _).toList < (String.ofList _).toList
    rw [String.toList_ofList, String.toList_ofList]
    exact horder

theorem formatRfc3339_correct_leap_day :
    ∃ first second,
      formatRfc3339 951782399 = some first ∧
        formatRfc3339 951782400 = some second ∧
        IsRfc3339 first ∧ IsRfc3339 second ∧ first < second :=
  (formatRfc3339_correct 951782399).2 951782400 (by decide) (by decide)

end Milona.Tools
