import IptvRelay.Lib.Digits
import IptvRelay.Lib.Words
import IptvRelay.Parsers.Xmltv

/-!
# The grammar of XMLTV timestamps

Which texts are timestamps, and what they stand for: a time of the calendar to some precision,
then at most one zone.
-/

namespace IptvRelay.Parsers

open Checked

/-! ## Times of the calendar -/

/-- Pairs of digits behind the year. -/
def TimestampPrecision.pairs : TimestampPrecision → Nat
  | .year => 0
  | .month => 1
  | .day => 2
  | .hour => 3
  | .minute => 4
  | .second => 5

theorem timestampPrecision_eq_some {length : Nat} {precision : TimestampPrecision} :
    timestampPrecision length = some precision ↔ length = 4 + 2 * precision.pairs := by
  constructor
  · intro h
    unfold timestampPrecision at h
    split at h <;> cases h <;> rfl
  · rintro rfl
    cases precision <;> rfl

/-- A time of the calendar that is written to some precision, and stands at the beginning of
what is not written. -/
structure CalendarTime where
  precision : TimestampPrecision
  year : Nat
  month : Nat
  day : Nat
  hour : Nat
  minute : Nat
  second : Nat
  year_lt : year < 10000
  month_range : 1 ≤ month ∧ month ≤ 12
  day_range : 1 ≤ day ∧ day ≤ daysInMonth year month
  clock_range : hour < 24 ∧ minute < 60 ∧ second < 60
  unwritten : [month, day, hour, minute, second].drop precision.pairs =
    [1, 1, 0, 0, 0].drop precision.pairs

namespace CalendarTime

variable (time : CalendarTime)

def fields : List Nat := [time.month, time.day, time.hour, time.minute, time.second]

def text : List Char :=
  Text.padded 4 time.year ++ (time.fields.take time.precision.pairs).flatMap (Text.padded 2)

/-- Seconds from the beginning of 1970, by the clock of the time's zone. -/
def seconds : Int :=
  daysFromCivil time.year time.month time.day * 86400 + time.hour * 3600 + time.minute * 60 +
    time.second

theorem day_le : time.day ≤ 31 := by
  have hday := time.day_range.2
  unfold daysInMonth at hday
  split_ifs at hday <;> omega

theorem isDigit_text {c : Char} (h : c ∈ time.text) : c.isDigit = true := by
  rcases List.mem_append.mp h with h | h
  · exact Text.isDigit_of_mem_padded h
  · obtain ⟨field, -, h⟩ := List.mem_flatMap.mp h
    exact Text.isDigit_of_mem_padded h

end CalendarTime

/-! ## Reading the pairs -/

section Pairs

theorem length_flatMap_padded (fields : List Nat) :
    (fields.flatMap (Text.padded 2)).length = 2 * fields.length := by
  induction fields with
  | nil => rfl
  | cons field rest ih =>
    rw [List.flatMap_cons, List.length_append, ih, Text.length_padded, List.length_cons]
    omega

theorem take_drop_flatMap_padded {fields : List Nat} {place field : Nat}
    (hfield : fields[place]? = some field) :
    ((fields.flatMap (Text.padded 2)).drop (2 * place)).take 2 = Text.padded 2 field := by
  induction fields generalizing place with
  | nil => cases hfield
  | cons first rest ih =>
    rw [List.flatMap_cons]
    cases place with
    | zero =>
      obtain rfl := Option.some.inj hfield
      rw [Nat.mul_zero, List.drop_zero, List.take_left' (Text.length_padded 2 first)]
    | succ place =>
      rw [Nat.mul_succ, Nat.add_comm, ← List.drop_drop,
        List.drop_left' (Text.length_padded 2 first)]
      exact ih hfield

/-- The field at a place is its pair, or else its default. -/
theorem timestampField_padded {year : Nat} {fields defaults : List Nat} {pairs place : Nat}
    {field default : Nat} (hunwritten : fields.drop pairs = defaults.drop pairs)
    (hfield : fields[place]? = some field) (hdefault : defaults[place]? = some default)
    (hlt : field < 100) :
    timestampField (Text.padded 4 year ++ (fields.take pairs).flatMap (Text.padded 2))
      (4 + 2 * place) default = field := by
  have hplace := (List.getElem?_eq_some_iff.mp hfield).1
  unfold timestampField
  rw [List.length_append, Text.length_padded, length_flatMap_padded, List.length_take]
  by_cases hwritten : place < pairs
  · rw [if_neg (by omega), ← List.drop_drop, List.drop_left' (Text.length_padded 4 year),
      take_drop_flatMap_padded ((List.getElem?_take_of_lt hwritten).trans hfield),
      Text.digitsValue_padded hlt]
  · rw [if_pos (by omega)]
    have hsame : (fields.drop pairs)[place - pairs]? = (defaults.drop pairs)[place - pairs]? :=
      congrArg (fun rest => rest[place - pairs]?) hunwritten
    rw [List.getElem?_drop, List.getElem?_drop, Nat.add_sub_cancel' (Nat.le_of_not_lt hwritten),
      hfield, hdefault] at hsame
    exact (Option.some.inj hsame).symm

/-- Digits are the numbers of their pairs. -/
theorem flatMap_pairs {pairs : Nat} {digits : List Char} (hlength : digits.length = 2 * pairs)
    (hdigits : ∀ c ∈ digits, c.isDigit = true) :
    ((List.range pairs).map fun place =>
      Text.digitsValue ((digits.drop (2 * place)).take 2)).flatMap (Text.padded 2) = digits := by
  induction pairs generalizing digits with
  | zero => exact (List.length_eq_zero_iff.mp hlength).symm
  | succ pairs ih =>
    have hfirst : (digits.take 2).length = 2 := by rw [List.length_take]; omega
    have hpair : Text.padded (digits.take 2).length (Text.digitsValue (digits.take 2)) =
        digits.take 2 := Text.padded_digitsValue fun c hc => hdigits c (List.mem_of_mem_take hc)
    have hrest := @ih (digits.drop 2) (by rw [List.length_drop]; omega) fun c hc =>
      hdigits c (List.mem_of_mem_drop hc)
    rw [hfirst] at hpair
    rw [List.range_succ_eq_map, List.map_cons, List.flatMap_cons, List.map_map, Nat.mul_zero,
      List.drop_zero, hpair]
    simp only [List.drop_drop] at hrest
    conv_rhs => rw [← List.take_append_drop 2 digits, ← hrest]
    simp only [Function.comp_def, Nat.succ_eq_add_one, Nat.mul_add, Nat.mul_one, Nat.add_comm]

end Pairs

/-! ## Reading a time -/

/-- `parseXmltvTimestampInTimezone` on the digits. -/
def readNaive (digits : List Char) : Option Int :=
  naiveDateTime (Text.digitsValue (digits.take 4)) (timestampField digits 4 1)
    (timestampField digits 6 1) (timestampField digits 8 0) (timestampField digits 10 0)
    (timestampField digits 12 0)

namespace CalendarTime

theorem length_text (time : CalendarTime) :
    time.text.length = 4 + 2 * time.precision.pairs := by
  have hpairs : time.precision.pairs ≤ 5 := by cases time.precision <;> decide
  have hfields : time.fields.length = 5 := rfl
  rw [text, List.length_append, Text.length_padded, length_flatMap_padded, List.length_take,
    hfields, Nat.min_eq_left hpairs]

theorem readNaive_text (time : CalendarTime) : readNaive time.text = some time.seconds := by
  have hday := time.day_le
  obtain ⟨hmonth, hmonth'⟩ := time.month_range
  obtain ⟨hhour, hminute, hsecond⟩ := time.clock_range
  have hyear : Text.digitsValue (time.text.take 4) = time.year := by
    rw [text, List.take_left' (Text.length_padded 4 time.year),
      Text.digitsValue_padded time.year_lt]
  have hfield : ∀ {place field default : Nat}, time.fields[place]? = some field →
      [1, 1, 0, 0, 0][place]? = some default → field < 100 →
      timestampField time.text (4 + 2 * place) default = field :=
    fun hfield hdefault hlt => timestampField_padded time.unwritten hfield hdefault hlt
  have hm : timestampField time.text 4 1 = time.month := @hfield 0 _ _ rfl rfl (by omega)
  have hd : timestampField time.text 6 1 = time.day := @hfield 1 _ _ rfl rfl (by omega)
  have hh : timestampField time.text 8 0 = time.hour := @hfield 2 _ _ rfl rfl (by omega)
  have hmin : timestampField time.text 10 0 = time.minute := @hfield 3 _ _ rfl rfl (by omega)
  have hs : timestampField time.text 12 0 = time.second := @hfield 4 _ _ rfl rfl (by omega)
  rw [readNaive, hyear, hm, hd, hh, hmin, hs, naiveDateTime, seconds,
    if_pos ⟨hmonth, hmonth', time.day_range.1, time.day_range.2, hhour, hminute, hsecond⟩]

/-- Digits that name a time of the calendar are its text. -/
theorem exists_of_readNaive {digits : List Char} {precision : TimestampPrecision} {naive : Int}
    (hdigits : ∀ c ∈ digits, c.isDigit = true) (hlength : digits.length = 4 + 2 * precision.pairs)
    (h : readNaive digits = some naive) :
    ∃ time : CalendarTime,
      time.text = digits ∧ time.precision = precision ∧ time.seconds = naive := by
  unfold readNaive naiveDateTime at h
  split_ifs at h with hvalid
  obtain ⟨hmonth, hmonth', hday, hday', hhour, hminute, hsecond⟩ := hvalid
  have hfour : (digits.take 4).length = 4 := by rw [List.length_take]; omega
  have hyear : Text.digitsValue (digits.take 4) < 10 ^ (digits.take 4).length :=
    Text.digitsValue_lt fun c hc => hdigits c (List.mem_of_mem_take hc)
  have hyearText : Text.padded (digits.take 4).length (Text.digitsValue (digits.take 4)) =
      digits.take 4 := Text.padded_digitsValue fun c hc => hdigits c (List.mem_of_mem_take hc)
  rw [hfour] at hyear hyearText
  have hpairs := @flatMap_pairs precision.pairs (digits.drop 4)
    (by rw [List.length_drop]; omega) fun c hc => hdigits c (List.mem_of_mem_drop hc)
  simp only [List.drop_drop] at hpairs
  have hfields : [timestampField digits 4 1, timestampField digits 6 1, timestampField digits 8 0,
      timestampField digits 10 0, timestampField digits 12 0].take precision.pairs =
      (List.range precision.pairs).map fun place =>
        Text.digitsValue ((digits.drop (4 + 2 * place)).take 2) := by
    cases precision <;>
      simp [timestampField, hlength, TimestampPrecision.pairs, List.range_succ]
  refine ⟨⟨precision, Text.digitsValue (digits.take 4), timestampField digits 4 1,
    timestampField digits 6 1, timestampField digits 8 0, timestampField digits 10 0,
    timestampField digits 12 0, hyear, ⟨hmonth, hmonth'⟩, ⟨hday, hday'⟩,
    ⟨hhour, hminute, hsecond⟩, ?_⟩, ?_, rfl, Option.some.inj h⟩
  · cases precision <;> simp [timestampField, hlength, TimestampPrecision.pairs]
  · rw [text, fields, hfields, hpairs, hyearText, List.take_append_drop]

end CalendarTime

/-! ## Zones -/

/-- A sign, hours and minutes. -/
structure SignedOffset where
  negative : Bool
  hours : Nat
  minutes : Nat
  hours_le : hours ≤ 23
  minutes_le : minutes ≤ 59

namespace SignedOffset

variable (offset : SignedOffset)

def sign : Char := if offset.negative then '-' else '+'

/-- The offset without colons. -/
def text : List Char :=
  offset.sign :: (Text.padded 2 offset.hours ++ Text.padded 2 offset.minutes)

def seconds : Int :=
  if offset.negative then -(offset.hours * 3600 + offset.minutes * 60 : Int)
  else offset.hours * 3600 + offset.minutes * 60

end SignedOffset

theorem head_without_colons {zone : List Char} (hsign : zone.head? ∈ [some '+', some '-']) :
    (zone.filter (· ≠ ':')).head? = zone.head? := by
  cases zone with
  | nil => rfl
  | cons c rest =>
    have hc : c ≠ ':' := by
      rintro rfl
      simp at hsign
    simp [hc]

theorem parseOffset_text {zone : List Char} {offset : SignedOffset}
    (h : zone.filter (· ≠ ':') = offset.text) : parseOffset zone = some offset.seconds := by
  obtain ⟨negative, hours, minutes, hhours, hminutes⟩ := offset
  have hdrop : (Text.padded 2 hours ++ Text.padded 2 minutes).drop 2 = Text.padded 2 minutes :=
    List.drop_left' (Text.length_padded 2 hours)
  have htake : (Text.padded 2 hours ++ Text.padded 2 minutes).take 2 = Text.padded 2 hours :=
    List.take_left' (Text.length_padded 2 hours)
  have hdigits : (Text.padded 2 hours ++ Text.padded 2 minutes).all Char.isDigit = true :=
    List.all_eq_true.mpr fun c hc => (List.mem_append.mp hc).elim
      Text.isDigit_of_mem_padded Text.isDigit_of_mem_padded
  have hlength : (Text.padded 2 hours ++ Text.padded 2 minutes).length = 4 := by
    rw [List.length_append, Text.length_padded, Text.length_padded]
  unfold parseOffset
  simp only [h, SignedOffset.text, List.drop_succ_cons, List.drop_zero, hdrop, htake, hdigits,
    List.length_cons, hlength, List.head?_cons, Text.digitsValue_padded (Nat.lt_of_le_of_lt hhours
      (by decide : 23 < 10 ^ 2)), Text.digitsValue_padded (Nat.lt_of_le_of_lt hminutes
      (by decide : 59 < 10 ^ 2)), hhours, hminutes, and_self, if_true]
  cases negative <;> rfl

theorem padded_halves {digits : List Char} (hlength : digits.length = 4)
    (hdigits : ∀ c ∈ digits, c.isDigit = true) :
    Text.padded 2 (Text.digitsValue (digits.take 2)) ++
      Text.padded 2 (Text.digitsValue (digits.drop 2)) = digits := by
  have hpair : ∀ part : List Char, part.length = 2 → (∀ c ∈ part, c ∈ digits) →
      Text.padded 2 (Text.digitsValue part) = part := by
    intro part hpart hmem
    rw [← hpart]
    exact Text.padded_digitsValue fun c hc => hdigits c (hmem c hc)
  rw [hpair _ (by rw [List.length_take]; omega) fun _ => List.mem_of_mem_take,
    hpair _ (by rw [List.length_drop]; omega) fun _ => List.mem_of_mem_drop,
    List.take_append_drop]

theorem exists_of_parseOffset {zone : List Char} {seconds : Int}
    (hsign : zone.head? ∈ [some '+', some '-']) (h : parseOffset zone = some seconds) :
    ∃ offset : SignedOffset, zone.head? = some offset.sign ∧
      zone.filter (· ≠ ':') = offset.text ∧ offset.seconds = seconds := by
  have hhead := head_without_colons hsign
  rw [← hhead] at hsign ⊢
  unfold parseOffset at h
  generalize zone.filter (· ≠ ':') = compact at h hsign ⊢
  cases compact with
  | nil => simp at hsign
  | cons sign digits =>
    simp only [List.drop_succ_cons, List.drop_zero, List.head?_cons, Option.some_inj] at h
    split_ifs at h with hvalid hnegative
    all_goals
      obtain ⟨hlength, hdigits, hhours, hminutes⟩ := hvalid
      have hhalves := padded_halves (Nat.succ.inj hlength) (List.all_eq_true.mp hdigits)
    · refine ⟨⟨true, _, _, hhours, hminutes⟩, congrArg some hnegative, ?_, Option.some.inj h⟩
      rw [SignedOffset.text, hhalves, hnegative]
      rfl
    · have hpositive : sign = '+' := by simpa [hnegative] using hsign
      refine ⟨⟨false, _, _, hhours, hminutes⟩, congrArg some hpositive, ?_, Option.some.inj h⟩
      rw [SignedOffset.text, hhalves, hpositive]
      rfl

/-- The zones that a timestamp can have at a local time, with their offsets. -/
inductive ZoneOffset (timezone : String → Option (Int → LocalTime)) (naive : Int) :
    String → Int → Prop where
  | utc {zone : String} (h : zone ∈ ["Z", "UTC", "GMT"]) : ZoneOffset timezone naive zone 0
  | signed {zone : String} (offset : SignedOffset)
      (hsign : zone.toList.head? = some offset.sign)
      (htext : zone.toList.filter (· ≠ ':') = offset.text) :
      ZoneOffset timezone naive zone offset.seconds
  | named {zone : String} {localTime : Int → LocalTime} {utc offset : Int}
      (hutc : zone ∉ ["Z", "UTC", "GMT"]) (hsign : zone.toList.head? ∉ [some '+', some '-'])
      (hzone : timezone zone = some localTime) (hlocal : localTime naive = .single utc offset) :
      ZoneOffset timezone naive zone offset

/-- A local time that is found is the instant and the offset. -/
def LocalTimesAgree (timezone : String → Option (Int → LocalTime)) : Prop :=
  ∀ zone localTime naive utc offset, timezone zone = some localTime →
    localTime naive = .single utc offset → utc = naive - offset

theorem SignedOffset.sign_mem (offset : SignedOffset) :
    some offset.sign ∈ [some '+', some '-'] := by
  obtain ⟨negative, hours, minutes, hhours, hminutes⟩ := offset
  cases negative
  · exact List.mem_cons_self
  · exact List.mem_cons_of_mem _ List.mem_cons_self

theorem resolveTimezone_iff {timezone : String → Option (Int → LocalTime)}
    (htimezone : LocalTimesAgree timezone) {zone digits : String} {naive utc offset : Int} :
    resolveTimezone timezone zone digits naive = .ok (utc, offset) ↔
      ZoneOffset timezone naive zone offset ∧ utc = naive - offset := by
  constructor
  · intro h
    unfold resolveTimezone at h
    split_ifs at h with hutc hsign
    · obtain ⟨rfl, rfl⟩ := Prod.mk.inj (Except.ok.inj h)
      exact ⟨.utc hutc, (Int.sub_zero _).symm⟩
    · split at h
      · next seconds hseconds =>
        obtain ⟨rfl, rfl⟩ := Prod.mk.inj (Except.ok.inj h)
        obtain ⟨offset, hhead, htext, rfl⟩ := exists_of_parseOffset hsign hseconds
        exact ⟨.signed offset hhead htext, rfl⟩
      · cases h
    · split at h
      · cases h
      · next localTime hzone =>
        split at h
        · next hlocal =>
          obtain ⟨rfl, rfl⟩ := Prod.mk.inj (Except.ok.inj h)
          exact ⟨.named hutc hsign hzone hlocal, htimezone _ _ _ _ _ hzone hlocal⟩
        · cases h
        · cases h
  · rintro ⟨hzone, rfl⟩
    cases hzone with
    | utc h => rw [resolveTimezone, if_pos h, Int.sub_zero]
    | signed offset hsign htext =>
      have hmem := offset.sign_mem
      rw [← hsign] at hmem
      have hutc : zone ∉ ["Z", "UTC", "GMT"] := by
        intro hutc
        revert hmem
        simp only [List.mem_cons, List.not_mem_nil, or_false] at hutc
        rcases hutc with rfl | rfl | rfl <;> decide
      rw [resolveTimezone, if_neg hutc, if_pos hmem, parseOffset_text htext]
    | @named _ localTime found hutc hsign hzone hlocal =>
      rw [resolveTimezone, if_neg hutc, if_neg hsign, hzone]
      simp only [hlocal, htimezone _ _ _ _ _ hzone hlocal]

/-! ## Timestamps -/

/-- Exactly the times of the calendar with at most one zone are timestamps. The zone is the
default when there is none. -/
theorem parseXmltvTimestampInTimezone_iff {timezone : String → Option (Int → LocalTime)}
    (htimezone : LocalTimesAgree timezone) (value defaultTimezone : String)
    (timestamp : XmltvTimestamp) :
    parseXmltvTimestampInTimezone timezone value defaultTimezone = .ok timestamp ↔
      ∃ (time : CalendarTime) (zone : Option (List Char)),
        Text.splitWhitespace value.toList = time.text :: zone.toList ∧
        ZoneOffset timezone time.seconds ((zone.map String.ofList).getD defaultTimezone)
          timestamp.offsetSeconds ∧
        timestamp.utc = time.seconds - timestamp.offsetSeconds ∧
        timestamp.precision = time.precision ∧
        timestamp.timezoneWasImplicit = zone.isNone ∧
        timestamp.original = value := by
  constructor
  · intro h
    unfold parseXmltvTimestampInTimezone at h
    simp only [Text.splitWhitespace_trim] at h
    split at h
    · cases h
    · next digits parts hwords =>
      obtain ⟨_, hdigits, h⟩ := of_bind h
      have hdigits := List.all_eq_true.mp (of_ensure hdigits)
      split at h
      · cases h
      · next precision hprecision =>
        split at h
        · cases h
        · next naive hnaive =>
          obtain ⟨_, hparts, h⟩ := of_bind h
          obtain ⟨⟨utc, offset⟩, hzone, h⟩ := of_bind h
          obtain rfl := of_pure h
          obtain ⟨time, rfl, rfl, rfl⟩ := CalendarTime.exists_of_readNaive hdigits
            (timestampPrecision_eq_some.mp hprecision) hnaive
          obtain ⟨hzone, hutc⟩ := (resolveTimezone_iff htimezone).mp hzone
          refine ⟨time, parts.head?, ?_, hzone, hutc, rfl, ?_, rfl⟩
          · rw [hwords]
            cases parts with
            | nil => rfl
            | cons part rest =>
              have hrest := of_ensure hparts
              rw [List.length_cons] at hrest
              rw [List.length_eq_zero_iff.mp (by omega : rest.length = 0)]
              rfl
          · cases parts <;> rfl
  · rintro ⟨time, zone, hwords, hzone, hutc, hprecision, himplicit, horiginal⟩
    have hdigits : time.text.all Char.isDigit = true :=
      List.all_eq_true.mpr fun c hc => time.isDigit_text hc
    have hlength := timestampPrecision_eq_some.mpr time.length_text
    have hnaive := time.readNaive_text
    unfold readNaive at hnaive
    have hresolve := fun digits =>
      (@resolveTimezone_iff _ htimezone _ digits _ _ _).mpr ⟨hzone, hutc⟩
    unfold parseXmltvTimestampInTimezone
    simp only [Text.splitWhitespace_trim, hwords]
    rw [ensure_bind hdigits, hlength]
    simp only [hnaive]
    obtain ⟨utc, precision, offsetSeconds, implicit, original⟩ := timestamp
    simp only at hutc hprecision himplicit horiginal hresolve
    subst hprecision himplicit horiginal
    have hlength : zone.toList.length ≤ 1 := by cases zone <;> simp
    have hhead : zone.toList.head? = zone := by cases zone <;> rfl
    have hempty : zone.toList.isEmpty = zone.isNone := by cases zone <;> rfl
    rw [ensure_bind hlength, hhead, hresolve, hempty]
    rfl

/-- Central European time in winter. -/
def winterZones : String → Option (Int → LocalTime) := fun zone =>
  if zone = "Europe/Berlin" then some fun localTime => .single (localTime - 3600) 3600 else none

theorem winterZones_agree : LocalTimesAgree winterZones := by
  intro zone localTime naive utc offset hzone hlocal
  unfold winterZones at hzone
  split_ifs at hzone
  obtain rfl := Option.some.inj hzone
  obtain ⟨rfl, rfl⟩ := LocalTime.single.inj hlocal
  rfl

theorem winter_noon_read :
    parseXmltvTimestampInTimezone winterZones " 2026010112 Europe/Berlin" "UTC" =
      .ok ⟨1767265200, .hour, 3600, false, " 2026010112 Europe/Berlin"⟩ := by
  have hberlin : String.ofList "Europe/Berlin".toList = "Europe/Berlin" := String.ofList_toList
  refine (parseXmltvTimestampInTimezone_iff winterZones_agree _ _ _).mpr
    ⟨⟨.hour, 2026, 1, 1, 12, 0, 0, by decide, by decide, by decide, by decide, rfl⟩,
      some "Europe/Berlin".toList, by decide +kernel, ?_, by decide +kernel, rfl, rfl, rfl⟩
  rw [Option.map_some, Option.getD_some, hberlin]
  refine @ZoneOffset.named _ _ _ _ 1767265200 _ (by decide) (by decide) (if_pos rfl) ?_
  decide +kernel

/-! ## Colons and default zones -/

/-- A zone as the format has it: hours and minutes of an offset with one colon at most. -/
inductive PlainZone (timezone : String → Option (Int → LocalTime)) (naive : Int) :
    String → Prop where
  | utc {zone : String} (h : zone ∈ ["Z", "UTC", "GMT"]) : PlainZone timezone naive zone
  | compact {zone : String} (offset : SignedOffset) (h : zone.toList = offset.text) :
      PlainZone timezone naive zone
  | colon {zone : String} (offset : SignedOffset) (h : zone.toList = offset.sign ::
      (Text.padded 2 offset.hours ++ ':' :: Text.padded 2 offset.minutes)) :
      PlainZone timezone naive zone
  | named {zone : String} {localTime : Int → LocalTime} {utc offset : Int}
      (hzone : timezone zone = some localTime) (hlocal : localTime naive = .single utc offset) :
      PlainZone timezone naive zone

/-- Digits of a time, and at most one zone of the format. -/
def PlainTimestamp (timezone : String → Option (Int → LocalTime)) (value : String) : Prop :=
  ∃ (time : CalendarTime) (zone : Option (List Char)),
    Text.splitWhitespace value.toList = time.text :: zone.toList ∧
    ∀ token ∈ zone, PlainZone timezone time.seconds (String.ofList token)

theorem colon_not_padded (width n : Nat) : ':' ∉ Text.padded width n := fun h =>
  absurd (Text.isDigit_of_mem_padded h) (by decide)

theorem spread_colon_not_plain {timezone : String → Option (Int → LocalTime)} {naive : Int}
    (hunknown : timezone "+0:530" = none) : ¬PlainZone timezone naive "+0:530" := by
  have hlist : "+0:530".toList = ['+', '0', ':', '5', '3', '0'] := by decide
  intro h
  cases h with
  | utc h => exact absurd h (by decide)
  | compact offset h =>
    rw [hlist] at h
    have hmem : ':' ∈ Text.padded 2 offset.hours ++ Text.padded 2 offset.minutes := by
      rw [← (List.cons.inj h).2]
      decide
    exact (List.mem_append.mp hmem).elim (colon_not_padded 2 _) (colon_not_padded 2 _)
  | colon offset h =>
    rw [hlist] at h
    have htake := congrArg (List.take 2) (List.cons.inj h).2
    rw [List.take_left' (Text.length_padded 2 _)] at htake
    apply colon_not_padded 2 offset.hours
    rw [← htake]
    decide
  | named hzone =>
    rw [hunknown] at hzone
    cases hzone

/-- The beginning of a year. -/
def newYear (year : Nat) (h : year < 10000) : CalendarTime where
  precision := .year
  year
  month := 1
  day := 1
  hour := 0
  minute := 0
  second := 0
  year_lt := h
  month_range := by decide
  day_range := ⟨le_rfl, by simp [daysInMonth]⟩
  clock_range := by decide
  unwritten := rfl

/-- Colons are read past wherever they stand, and a time without a zone needs the default. -/
theorem timestamp_grammar_differs :
    ((∃ timestamp, parseXmltvTimestampInTimezone (fun _ => none) "2026 +0:530" "UTC" =
        .ok timestamp) ∧ ¬PlainTimestamp (fun _ => none) "2026 +0:530") ∧
      PlainTimestamp (fun _ => none) "2026" ∧
      ¬∃ timestamp, parseXmltvTimestampInTimezone (fun _ => none) "2026" "Nowhere" =
        .ok timestamp := by
  refine ⟨⟨⟨⟨1767225600 - 19800, .year, 19800, false, "2026 +0:530"⟩, by decide +kernel⟩, ?_⟩,
    ⟨newYear 2026 (by decide), none, by decide +kernel, nofun⟩, ?_⟩
  · rintro ⟨time, zone, hwords, hplain⟩
    have hzone : zone.toList = ["+0:530".toList] := by
      have hsplit : Text.splitWhitespace "2026 +0:530".toList =
          ["2026".toList, "+0:530".toList] := by decide +kernel
      rw [hsplit] at hwords
      exact (List.cons.inj hwords).2.symm
    obtain rfl : zone = some "+0:530".toList := by
      cases zone with
      | none => cases hzone
      | some token => exact congrArg some (List.cons.inj hzone).1
    have htoken := hplain _ rfl
    rw [String.ofList_toList] at htoken
    exact spread_colon_not_plain rfl htoken
  · rintro ⟨timestamp, h⟩
    have herror : parseXmltvTimestampInTimezone (fun _ => none) "2026" "Nowhere" =
        .error (.invalidTimezone "Nowhere") := by decide +kernel
    rw [herror] at h
    cases h

end IptvRelay.Parsers
