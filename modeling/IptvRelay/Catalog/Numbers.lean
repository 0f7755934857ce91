import IptvRelay.Lib.Digits
import IptvRelay.Lib.Words
import Mathlib.Data.List.TakeWhile
import Mathlib.Data.String.Basic
import Mathlib.Order.Compare

/-!
# Channel numbers

Model of `ChannelNumber` in `domain/src/catalog.rs`, the canonical text of a decimal number, and
of `natural_number_cmp` in `api/src/lib.rs`, which sorts the numbers of a lineup.
-/

namespace IptvRelay.Catalog

/-! ## Canonical numbers -/

inductive ChannelNumberError where
  | invalid
  deriving DecidableEq, Repr

/-- The loop over the characters; `index` and `length` count bytes. -/
def checkCharacters (length : Nat) : Nat → Bool → List Char → Bool
  | _, _, [] => true
  | index, dotSeen, c :: rest =>
    if c.isDigit then checkCharacters length (index + 1) dotSeen rest
    else if c = '.' ∧ dotSeen = false ∧ 0 < index ∧ index + 1 < length then
      checkCharacters length (index + 1) true rest
    else false

/-- What `new` accepts, after trimming. -/
def acceptsNumber (value : List Char) : Bool :=
  let length := (String.ofList value).utf8ByteSize
  value ≠ [] && length ≤ 32 && checkCharacters length 0 false value

/-- The parts before and behind the dot. -/
def splitNumber (value : List Char) : List Char × List Char :=
  (Text.splitOnce '.' value).getD (value, [])

def stripWhole (whole : List Char) : List Char :=
  let whole := whole.dropWhile (· = '0')
  if whole = [] then ['0'] else whole

def joinNumber (whole fractional : List Char) : List Char :=
  if fractional = [] then whole else whole ++ '.' :: fractional

def canonicalNumber (value : List Char) : List Char :=
  let (whole, fractional) := splitNumber value
  joinNumber (stripWhole whole) (Text.stripZeros fractional)

/-- Digits without a zero before them, besides zero itself, and a fraction that does not end in a
zero; at most 32 characters. -/
structure IsCanonicalNumber (text : List Char) : Prop where
  parts : ∃ whole fractional, text = joinNumber whole fractional ∧
    whole ≠ [] ∧ (∀ c ∈ whole, c.isDigit = true) ∧ (∀ c ∈ fractional, c.isDigit = true) ∧
    (whole = ['0'] ∨ whole.head? ≠ some '0') ∧ fractional.getLast? ≠ some '0'
  short : text.length ≤ 32

/-- A canonical number; `ChannelNumber.new` is the only way to get one from a text. -/
structure ChannelNumber where
  text : String
  canonical : IsCanonicalNumber text.toList

/-! ### Accepted texts -/

/-- Digits, or digits on both sides of a dot. -/
inductive IsDecimal : List Char → Prop where
  | whole {whole : List Char} (hne : whole ≠ []) (h : ∀ c ∈ whole, c.isDigit = true) :
      IsDecimal whole
  | fraction {whole fractional : List Char} (hne : whole ≠ []) (hne' : fractional ≠ [])
      (h : ∀ c ∈ whole, c.isDigit = true) (h' : ∀ c ∈ fractional, c.isDigit = true) :
      IsDecimal (whole ++ '.' :: fractional)

theorem checkCharacters_digits {length index : Nat} {dotSeen : Bool} {digits : List Char}
    (h : ∀ c ∈ digits, c.isDigit = true) (rest : List Char) :
    checkCharacters length index dotSeen (digits ++ rest) =
      checkCharacters length (index + digits.length) dotSeen rest := by
  induction digits generalizing index with
  | nil => rfl
  | cons c digits ih =>
    rw [List.cons_append, checkCharacters, if_pos (h c List.mem_cons_self),
      ih fun d hd => h d (List.mem_cons_of_mem c hd), List.length_cons]
    congr 1
    omega

theorem checkCharacters_dotSeen {length index : Nat} {value : List Char} :
    checkCharacters length index true value = true ↔ ∀ c ∈ value, c.isDigit = true := by
  induction value generalizing index with
  | nil => simp [checkCharacters]
  | cons c rest ih =>
    rw [checkCharacters]
    by_cases hc : c.isDigit = true
    · rw [if_pos hc, ih]
      simp [hc]
    · rw [if_neg hc, if_neg fun h => absurd h.2.1 (by decide)]
      simp [hc]

/-- The first characters are digits, up to the end or to the dot. -/
theorem checkCharacters_iff {length index : Nat} {value : List Char} :
    checkCharacters length index false value = true ↔
      (∀ c ∈ value, c.isDigit = true) ∨
      ∃ whole fractional, value = whole ++ '.' :: fractional ∧
        (∀ c ∈ whole, c.isDigit = true) ∧ (∀ c ∈ fractional, c.isDigit = true) ∧
        0 < index + whole.length ∧ index + whole.length + 1 < length := by
  constructor
  · intro h
    induction value generalizing index with
    | nil => exact .inl fun c hc => absurd hc List.not_mem_nil
    | cons c rest ih =>
      rw [checkCharacters] at h
      by_cases hc : c.isDigit = true
      · rw [if_pos hc] at h
        rcases ih h with hdigits | ⟨whole, fractional, rfl, hwhole, hfractional, hindex, hlength⟩
        · exact .inl (List.forall_mem_cons.mpr ⟨hc, hdigits⟩)
        · refine .inr ⟨c :: whole, fractional, rfl, List.forall_mem_cons.mpr ⟨hc, hwhole⟩,
            hfractional, ?_, ?_⟩ <;> rw [List.length_cons] <;> omega
      · rw [if_neg hc] at h
        split_ifs at h with hdot
        obtain ⟨rfl, -, hindex, hlength⟩ := hdot
        exact .inr ⟨[], rest, rfl, fun d hd => absurd hd List.not_mem_nil,
          checkCharacters_dotSeen.mp h, hindex, hlength⟩
  · rintro (hdigits | ⟨whole, fractional, rfl, hwhole, hfractional, hindex, hlength⟩)
    · have hall := @checkCharacters_digits length index false _ hdigits []
      rwa [List.append_nil] at hall
    · rw [checkCharacters_digits hwhole, checkCharacters, if_neg (by decide),
        if_pos ⟨rfl, rfl, hindex, hlength⟩]
      exact checkCharacters_dotSeen.mpr hfractional

theorem utf8ByteSize_ofList {value : List Char} (h : ∀ c ∈ value, c.isDigit = true ∨ c = '.') :
    (String.ofList value).utf8ByteSize = value.length := by
  induction value with
  | nil => rfl
  | cons c rest ih =>
    have hsize : c.utf8Size = 1 := by
      rcases h c List.mem_cons_self with hc | rfl
      · have hrange := Text.isDigit_iff.mp hc
        have hnat : c.toNat = c.val.toNat := rfl
        exact Char.utf8Size_eq_one_iff.mpr (UInt32.le_iff_toNat_le.mpr (by
          show c.val.toNat ≤ 127
          omega))
      · rfl
    have hcons : String.ofList (c :: rest) = String.singleton c ++ String.ofList rest := by
      rw [← String.toList_inj]
      simp
    rw [hcons, String.utf8ByteSize_append, String.utf8ByteSize_singleton, hsize,
      ih fun d hd => h d (List.mem_cons_of_mem c hd), List.length_cons, Nat.add_comm]

theorem IsDecimal.chars {value : List Char} (h : IsDecimal value) :
    ∀ c ∈ value, c.isDigit = true ∨ c = '.' := by
  intro c hc
  cases h with
  | whole _ h => exact .inl (h c hc)
  | fraction _ _ h h' =>
    rcases List.mem_append.mp hc with hc | hc
    · exact .inl (h c hc)
    · rcases List.mem_cons.mp hc with rfl | hc
      · exact .inr rfl
      · exact .inl (h' c hc)

theorem acceptsNumber_iff (value : List Char) :
    acceptsNumber value = true ↔ IsDecimal value ∧ value.length ≤ 32 := by
  simp only [acceptsNumber, Bool.and_eq_true, decide_eq_true_eq]
  constructor
  · rintro ⟨⟨hne, hlength⟩, hcheck⟩
    rcases checkCharacters_iff.mp hcheck with hdigits | ⟨whole, fractional, rfl, h, h', hpos, hlt⟩
    · rw [utf8ByteSize_ofList fun c hc => .inl (hdigits c hc)] at hlength
      exact ⟨.whole hne hdigits, hlength⟩
    · rw [utf8ByteSize_ofList] at hlength hlt
      · refine ⟨.fraction ?_ ?_ h h', hlength⟩
        · exact List.length_pos_iff.mp (by omega)
        · rw [List.length_append, List.length_cons] at hlt
          exact List.length_pos_iff.mp (by omega)
      all_goals
        intro c hc
        rcases List.mem_append.mp hc with hc | hc
        · exact .inl (h c hc)
        · rcases List.mem_cons.mp hc with rfl | hc
          · exact .inr rfl
          · exact .inl (h' c hc)
  · rintro ⟨hdecimal, hlength⟩
    rw [utf8ByteSize_ofList hdecimal.chars]
    cases hdecimal with
    | whole hne h => exact ⟨⟨hne, hlength⟩, checkCharacters_iff.mpr (.inl h)⟩
    | @fraction whole fractional hne hne' h h' =>
      refine ⟨⟨by simp, hlength⟩, checkCharacters_iff.mpr (.inr ⟨whole, fractional, rfl, h, h', ?_⟩)⟩
      have hpos := List.length_pos_iff.mpr hne
      have hpos' := List.length_pos_iff.mpr hne'
      rw [List.length_append, List.length_cons]
      omega

/-! ### The canonical text -/

theorem splitOnce_digits {digits : List Char} (h : ∀ c ∈ digits, c.isDigit = true) :
    Text.splitOnce '.' digits = none := by
  induction digits with
  | nil => rfl
  | cons c digits ih =>
    have hc : c ≠ '.' := by
      rintro rfl
      exact absurd (h '.' List.mem_cons_self) (by decide)
    rw [Text.splitOnce, if_neg hc, ih fun d hd => h d (List.mem_cons_of_mem c hd), Option.map_none]

theorem splitOnce_dot {whole : List Char} (h : ∀ c ∈ whole, c.isDigit = true)
    (fractional : List Char) :
    Text.splitOnce '.' (whole ++ '.' :: fractional) = some (whole, fractional) := by
  induction whole with
  | nil => rw [List.nil_append, Text.splitOnce, if_pos rfl]
  | cons c whole ih =>
    have hc : c ≠ '.' := by
      rintro rfl
      exact absurd (h '.' List.mem_cons_self) (by decide)
    rw [List.cons_append, Text.splitOnce, if_neg hc,
      ih fun d hd => h d (List.mem_cons_of_mem c hd), Option.map_some]

theorem splitNumber_join {whole fractional : List Char} (h : ∀ c ∈ whole, c.isDigit = true) :
    splitNumber (joinNumber whole fractional) = (whole, fractional) := by
  unfold splitNumber joinNumber
  split_ifs with hnil
  · rw [splitOnce_digits h, hnil]
    rfl
  · rw [splitOnce_dot h]
    rfl

/-- A decimal number has digits on both sides of its dot. -/
theorem IsDecimal.split {value : List Char} (h : IsDecimal value) :
    ∃ whole fractional, value = joinNumber whole fractional ∧ whole ≠ [] ∧
      (∀ c ∈ whole, c.isDigit = true) ∧ ∀ c ∈ fractional, c.isDigit = true := by
  cases h with
  | whole hne h => exact ⟨value, [], rfl, hne, h, fun c hc => absurd hc List.not_mem_nil⟩
  | @fraction whole fractional hne hne' h h' =>
    exact ⟨whole, fractional, (if_neg hne').symm, hne, h, h'⟩

theorem stripWhole_ne_nil (whole : List Char) : stripWhole whole ≠ [] := by
  unfold stripWhole
  simp only
  split_ifs with hnil
  · exact List.cons_ne_nil _ _
  · exact hnil

theorem stripWhole_digits {whole : List Char} (h : ∀ c ∈ whole, c.isDigit = true) :
    ∀ c ∈ stripWhole whole, c.isDigit = true := by
  intro c hc
  unfold stripWhole at hc
  simp only at hc
  split_ifs at hc
  · rw [List.mem_singleton.mp hc]
    rfl
  · exact h c (List.dropWhile_subset _ hc)

theorem stripWhole_head (whole : List Char) :
    stripWhole whole = ['0'] ∨ (stripWhole whole).head? ≠ some '0' := by
  unfold stripWhole
  simp only
  split_ifs with hnil
  · exact .inl rfl
  · refine .inr fun hhead => ?_
    have hnot := List.head_dropWhile_not (p := fun c => decide (c = '0')) (l := whole) hnil
    rw [List.head?_eq_some_head hnil] at hhead
    rw [Option.some.inj hhead] at hnot
    exact absurd hnot (by decide)

theorem stripWhole_length {whole : List Char} (hne : whole ≠ []) :
    (stripWhole whole).length ≤ whole.length := by
  unfold stripWhole
  simp only
  split_ifs
  · exact List.length_pos_iff.mpr hne
  · exact List.length_dropWhile_le _ _

theorem joinNumber_length {whole whole' fractional fractional' : List Char}
    (hwhole : whole.length ≤ whole'.length) (hfractional : fractional.length ≤ fractional'.length) :
    (joinNumber whole fractional).length ≤ (joinNumber whole' fractional').length := by
  unfold joinNumber
  split_ifs with hnil hnil'
  · exact hwhole
  · rw [List.length_append]
    omega
  · have := List.length_pos_iff.mpr hnil
    rw [‹fractional' = []›, List.length_nil] at hfractional
    omega
  · simp only [List.length_append, List.length_cons]
    omega

theorem canonicalNumber_join {whole fractional : List Char} (h : ∀ c ∈ whole, c.isDigit = true) :
    canonicalNumber (joinNumber whole fractional) =
      joinNumber (stripWhole whole) (Text.stripZeros fractional) := by
  unfold canonicalNumber
  rw [splitNumber_join h]

theorem isCanonicalNumber_canonicalNumber {value : List Char} (h : acceptsNumber value = true) :
    IsCanonicalNumber (canonicalNumber value) := by
  obtain ⟨hdecimal, hlength⟩ := (acceptsNumber_iff value).mp h
  obtain ⟨whole, fractional, rfl, hne, hwhole, hfractional⟩ := hdecimal.split
  rw [canonicalNumber_join hwhole]
  have hsublist := Text.stripZeros_sublist fractional
  exact ⟨⟨_, _, rfl, stripWhole_ne_nil whole, stripWhole_digits hwhole,
    fun c hc => hfractional c (hsublist.subset hc), stripWhole_head whole,
    Text.getLast_stripZeros fractional⟩,
    (joinNumber_length (stripWhole_length hne) hsublist.length_le).trans hlength⟩

/-- `ChannelNumber::new`. -/
def ChannelNumber.new (value : String) : Except ChannelNumberError ChannelNumber :=
  let value := Text.trim value.toList
  if h : acceptsNumber value = true then
    .ok { text := String.ofList (canonicalNumber value)
          canonical := by
            rw [String.toList_ofList]
            exact isCanonicalNumber_canonicalNumber h }
  else .error .invalid

/-- `TryFrom<String>`, with which a number is deserialized. -/
def ChannelNumber.tryFrom (value : String) : Except ChannelNumberError ChannelNumber :=
  ChannelNumber.new value

/-- `Into<String>`, with which it is serialized. -/
def ChannelNumber.into (number : ChannelNumber) : String := number.text

/-! ### Values -/

/-- The number that an accepted text denotes. -/
def denoted (value : String) : ℚ :=
  let (whole, fractional) := splitNumber (Text.trim value.toList)
  Text.digitsValue whole + Text.fractionValue fractional

theorem denoted_eq (value : String) : denoted value =
    Text.digitsValue (splitNumber (Text.trim value.toList)).1 +
      Text.fractionValue (splitNumber (Text.trim value.toList)).2 := by
  unfold denoted
  rfl

theorem digitsValue_stripWhole (whole : List Char) :
    Text.digitsValue (stripWhole whole) = Text.digitsValue whole := by
  unfold stripWhole
  simp only
  split_ifs with hnil
  · rw [← Text.digitsValue_dropWhile whole, hnil]
    rfl
  · exact Text.digitsValue_dropWhile whole

theorem stripWhole_eq_iff {first second : List Char} (hfirst : ∀ c ∈ first, c.isDigit = true)
    (hsecond : ∀ c ∈ second, c.isDigit = true) :
    stripWhole first = stripWhole second ↔ Text.digitsValue first = Text.digitsValue second := by
  constructor
  · intro h
    rw [← digitsValue_stripWhole first, h, digitsValue_stripWhole]
  · intro h
    have hhead : ∀ text : List Char, (text.dropWhile (· = '0')).head? ≠ some '0' := by
      intro text hzero
      obtain ⟨rest, hrest⟩ := List.head?_eq_some_iff.mp hzero
      have hnot := List.head_dropWhile_not (p := fun c => decide (c = '0')) (l := text)
        (by rw [hrest]; exact List.cons_ne_nil _ _)
      simp [hrest] at hnot
    have hdrop := @Text.eq_of_digitsValue (first.dropWhile (· = '0')) (second.dropWhile (· = '0'))
      (fun c hc => hfirst c (List.dropWhile_subset _ hc))
      (fun c hc => hsecond c (List.dropWhile_subset _ hc)) (hhead first) (hhead second)
      (by rw [Text.digitsValue_dropWhile, Text.digitsValue_dropWhile, h])
    unfold stripWhole
    rw [hdrop]

theorem stripZeros_eq_iff {first second : List Char} (hfirst : ∀ c ∈ first, c.isDigit = true)
    (hsecond : ∀ c ∈ second, c.isDigit = true) :
    Text.stripZeros first = Text.stripZeros second ↔
      Text.fractionValue first = Text.fractionValue second := by
  constructor
  · intro h
    rw [← Text.fractionValue_stripZeros first, h, Text.fractionValue_stripZeros]
  · intro h
    exact Text.eq_of_fractionValue
      (fun c hc => hfirst c ((Text.stripZeros_sublist first).subset hc))
      (fun c hc => hsecond c ((Text.stripZeros_sublist second).subset hc))
      (Text.getLast_stripZeros first) (Text.getLast_stripZeros second)
      (by rw [Text.fractionValue_stripZeros, Text.fractionValue_stripZeros, h])

/-- Equal texts and equal values are the same thing for canonical numbers. -/
theorem canonicalNumber_eq_iff {first second : List Char} (hfirst : IsDecimal first)
    (hsecond : IsDecimal second) :
    canonicalNumber first = canonicalNumber second ↔
      (Text.digitsValue (splitNumber first).1 : ℚ) + Text.fractionValue (splitNumber first).2 =
        Text.digitsValue (splitNumber second).1 + Text.fractionValue (splitNumber second).2 := by
  obtain ⟨whole, fractional, rfl, -, hwhole, hfractional⟩ := hfirst.split
  obtain ⟨whole', fractional', rfl, -, hwhole', hfractional'⟩ := hsecond.split
  rw [canonicalNumber_join hwhole, canonicalNumber_join hwhole', splitNumber_join hwhole,
    splitNumber_join hwhole']
  have hparts : joinNumber (stripWhole whole) (Text.stripZeros fractional) =
      joinNumber (stripWhole whole') (Text.stripZeros fractional') ↔
      stripWhole whole = stripWhole whole' ∧
        Text.stripZeros fractional = Text.stripZeros fractional' := by
    refine ⟨fun h => ?_, fun h => by rw [h.1, h.2]⟩
    have hsplit := congrArg splitNumber h
    rw [splitNumber_join (stripWhole_digits hwhole), splitNumber_join (stripWhole_digits hwhole')]
      at hsplit
    exact Prod.mk.inj hsplit
  rw [hparts, stripWhole_eq_iff hwhole hwhole', stripZeros_eq_iff hfractional hfractional']
  constructor
  · rintro ⟨hvalue, hfraction⟩
    rw [hvalue, hfraction]
  · exact Text.eq_of_add_fraction
      ⟨Text.fractionValue_nonneg _, Text.fractionValue_lt_one hfractional⟩
      ⟨Text.fractionValue_nonneg _, Text.fractionValue_lt_one hfractional'⟩

theorem ChannelNumber.ext_text {first second : ChannelNumber} (h : first.text = second.text) :
    first = second := by
  obtain ⟨text, _⟩ := first
  obtain ⟨other, _⟩ := second
  obtain rfl : text = other := h
  rfl

theorem new_eq_ok {value : String} {number : ChannelNumber}
    (h : ChannelNumber.new value = .ok number) :
    acceptsNumber (Text.trim value.toList) = true ∧
      number.text.toList = canonicalNumber (Text.trim value.toList) := by
  unfold ChannelNumber.new at h
  simp only at h
  split_ifs at h with haccepts
  obtain rfl := Except.ok.inj h
  exact ⟨haccepts, String.toList_ofList⟩

theorem new_of_accepts {value : String} (h : acceptsNumber (Text.trim value.toList) = true) :
    ∃ number, ChannelNumber.new value = .ok number := by
  unfold ChannelNumber.new
  simp only
  rw [dif_pos h]
  exact ⟨_, rfl⟩

theorem isWhitespace_of_isDigit {c : Char} (h : c.isDigit = true) : Text.isWhitespace c = false := by
  have hrange := Text.isDigit_iff.mp h
  simp only [Text.isWhitespace, decide_eq_false_iff_not]
  omega

theorem trim_of_isDecimal {value : List Char} (h : IsDecimal value) : Text.trim value = value := by
  have hvisible : ∀ c ∈ value, Text.isWhitespace c = false := by
    intro c hc
    rcases h.chars c hc with hdigit | rfl
    · exact isWhitespace_of_isDigit hdigit
    · decide
  exact Text.trim_of_visible (fun c hc => hvisible c (List.mem_of_head? hc))
    fun c hc => hvisible c (List.mem_of_getLast? hc)

theorem IsCanonicalNumber.accepted {text : List Char} (h : IsCanonicalNumber text) :
    IsDecimal text ∧ canonicalNumber text = text := by
  obtain ⟨whole, fractional, rfl, hne, hwhole, hfractional, hhead, hlast⟩ := h.parts
  constructor
  · unfold joinNumber
    split_ifs with hnil
    · exact .whole hne hwhole
    · exact .fraction hne hnil hwhole hfractional
  · rw [canonicalNumber_join hwhole, Text.stripZeros_of_getLast hlast]
    congr 1
    rcases hhead with rfl | hhead
    · rfl
    · have hdrop : whole.dropWhile (· = '0') = whole := by
        cases whole with
        | nil => rfl
        | cons c rest =>
          exact List.dropWhile_cons_of_neg (by simpa using fun hc => hhead (congrArg some hc))
      unfold stripWhole
      simp only [hdrop, if_neg hne]

/-- Equal numbers have equal texts; exactly the decimal numbers are accepted; a number survives
its serialization. -/
theorem channel_numbers_canonical :
    (∀ a b m n, ChannelNumber.new a = .ok m → ChannelNumber.new b = .ok n →
      (m = n ↔ denoted a = denoted b)) ∧
    (∀ a, (∃ n, ChannelNumber.new a = .ok n) ↔
      IsDecimal (Text.trim a.toList) ∧ (Text.trim a.toList).length ≤ 32) ∧
    ∀ n : ChannelNumber, ChannelNumber.tryFrom n.into = .ok n := by
  refine ⟨fun a b m n ha hb => ?_, fun a => ?_, fun n => ?_⟩
  · obtain ⟨haccepts, hm⟩ := new_eq_ok ha
    obtain ⟨haccepts', hn⟩ := new_eq_ok hb
    have hiff := canonicalNumber_eq_iff ((acceptsNumber_iff _).mp haccepts).1
      ((acceptsNumber_iff _).mp haccepts').1
    rw [← hm, ← hn, String.toList_inj, ← denoted_eq, ← denoted_eq] at hiff
    exact ⟨fun h => hiff.mp (congrArg ChannelNumber.text h),
      fun h => ChannelNumber.ext_text (hiff.mpr h)⟩
  · rw [← acceptsNumber_iff]
    exact ⟨fun ⟨_, hn⟩ => (new_eq_ok hn).1, new_of_accepts⟩
  · obtain ⟨hdecimal, hsame⟩ := n.canonical.accepted
    have htrim := trim_of_isDecimal hdecimal
    have haccepts : acceptsNumber (Text.trim n.text.toList) = true := by
      rw [htrim]
      exact (acceptsNumber_iff _).mpr ⟨hdecimal, n.canonical.short⟩
    obtain ⟨other, hother⟩ := new_of_accepts haccepts
    have htext := (new_eq_ok hother).2
    rw [htrim, hsame, String.toList_inj] at htext
    exact hother.trans (congrArg Except.ok (ChannelNumber.ext_text htext))

/-! ## Sorting a lineup -/

/-- `parse::<u64>`. -/
def parseNumber (number : String) : Option Nat :=
  Text.parseUnsigned (Nat.pow 2 64) number.toList

def naturalNumberCmp (left right : String) : Ordering :=
  match parseNumber left, parseNumber right with
  | some left, some right => compare left right
  | _, _ => compare left right

/-- What a sort expects of a comparison of these numbers. -/
structure SortsBy (cmp : String → String → Ordering) (numbers : List String) : Prop where
  swap : ∀ a ∈ numbers, ∀ b ∈ numbers, cmp a b = (cmp b a).swap
  trans : ∀ a ∈ numbers, ∀ b ∈ numbers, ∀ c ∈ numbers,
    (cmp a b).isLE = true → (cmp b c).isLE = true → (cmp a c).isLE = true

/-- No number that is not an integer stands between two integers, as texts, that have their values
in the other order. -/
def IntegersInOrder (numbers : List String) : Prop :=
  ∀ x ∈ numbers, ∀ y ∈ numbers, ∀ t ∈ numbers, ∀ m n, parseNumber x = some m →
    parseNumber y = some n → parseNumber t = none → m ≤ n → ¬(y < t ∧ t < x)

theorem naturalNumberCmp_integers {left right : String} {m n : Nat}
    (hleft : parseNumber left = some m) (hright : parseNumber right = some n) :
    naturalNumberCmp left right = compare m n := by
  unfold naturalNumberCmp
  rw [hleft, hright]

theorem naturalNumberCmp_left {left : String} (hleft : parseNumber left = none) (right : String) :
    naturalNumberCmp left right = compare left right := by
  unfold naturalNumberCmp
  rw [hleft]

theorem naturalNumberCmp_right {right : String} (hright : parseNumber right = none)
    (left : String) : naturalNumberCmp left right = compare left right := by
  unfold naturalNumberCmp
  rw [hright]
  cases parseNumber left with
  | none => rfl
  | some n => rfl

theorem isLE_compare {α : Type} [LinearOrder α] {a b : α} :
    (compare a b).isLE = true ↔ a ≤ b := by
  rw [Ordering.isLE_iff_ne_gt, compare_gt_iff_gt, not_lt]

theorem compare_swap {α : Type} [LinearOrder α] (a b : α) : compare a b = (compare b a).swap := by
  rw [← cmp_eq_compare, ← cmp_eq_compare, cmp_swap]

theorem naturalNumberCmp_swap (a b : String) :
    naturalNumberCmp a b = (naturalNumberCmp b a).swap := by
  cases ha : parseNumber a with
  | none => rw [naturalNumberCmp_left ha, naturalNumberCmp_right ha, ← compare_swap]
  | some m =>
    cases hb : parseNumber b with
    | none => rw [naturalNumberCmp_right hb, naturalNumberCmp_left hb, ← compare_swap]
    | some n =>
      rw [naturalNumberCmp_integers ha hb, naturalNumberCmp_integers hb ha, ← compare_swap]

/-- The comparison sorts exactly the lists in which integers and other numbers do not clash. -/
theorem natural_number_cmp_sorts_iff (numbers : List String) :
    SortsBy naturalNumberCmp numbers ↔ IntegersInOrder numbers := by
  constructor
  · intro h x hx y hy t ht m n hm hn hnone hle hbetween
    -- Both texts are in order with the number between them, so the integers have to be.
    have hyt : (naturalNumberCmp y t).isLE = true := by
      rw [naturalNumberCmp_right hnone]
      exact isLE_compare.mpr hbetween.1.le
    have hxy : (naturalNumberCmp x y).isLE = true := by
      rw [naturalNumberCmp_integers hm hn]
      exact isLE_compare.mpr hle
    have hxt := h.trans x hx y hy t ht hxy hyt
    rw [naturalNumberCmp_right hnone] at hxt
    exact absurd (isLE_compare.mp hxt) (not_le.mpr hbetween.2)
  · intro h
    refine ⟨fun a _ b _ => naturalNumberCmp_swap a b, ?_⟩
    intro a ha b hb c hc hab hbc
    have hne : ∀ {x t : String} {m : Nat}, parseNumber x = some m → parseNumber t = none → t ≠ x := by
      rintro x t m hsome hnone rfl
      rw [hsome] at hnone
      cases hnone
    cases hpa : parseNumber a with
    | none =>
      rw [naturalNumberCmp_left hpa, isLE_compare] at hab ⊢
      cases hpb : parseNumber b with
      | none =>
        rw [naturalNumberCmp_left hpb, isLE_compare] at hbc
        exact hab.trans hbc
      | some m =>
        cases hpc : parseNumber c with
        | none =>
          rw [naturalNumberCmp_right hpc, isLE_compare] at hbc
          exact hab.trans hbc
        | some n =>
          rw [naturalNumberCmp_integers hpb hpc, isLE_compare] at hbc
          by_contra hlt
          exact h b hb c hc a ha m n hpb hpc hpa hbc
            ⟨not_le.mp hlt, lt_of_le_of_ne hab (hne hpb hpa)⟩
    | some p =>
      cases hpb : parseNumber b with
      | none =>
        rw [naturalNumberCmp_right hpb, isLE_compare] at hab
        rw [naturalNumberCmp_left hpb, isLE_compare] at hbc
        cases hpc : parseNumber c with
        | none =>
          rw [naturalNumberCmp_right hpc, isLE_compare]
          exact hab.trans hbc
        | some n =>
          rw [naturalNumberCmp_integers hpa hpc, isLE_compare]
          by_contra hlt
          exact h c hc a ha b hb n p hpc hpa hpb (not_le.mp hlt).le
            ⟨lt_of_le_of_ne hab (hne hpa hpb).symm, lt_of_le_of_ne hbc (hne hpc hpb)⟩
      | some m =>
        rw [naturalNumberCmp_integers hpa hpb, isLE_compare] at hab
        cases hpc : parseNumber c with
        | none =>
          rw [naturalNumberCmp_right hpc, isLE_compare] at hbc ⊢
          by_contra hlt
          exact h a ha b hb c hc p m hpa hpb hpc hab
            ⟨lt_of_le_of_ne hbc (hne hpb hpc).symm, not_le.mp hlt⟩
        | some n =>
          rw [naturalNumberCmp_integers hpb hpc, isLE_compare] at hbc
          rw [naturalNumberCmp_integers hpa hpc, isLE_compare]
          exact hab.trans hbc

/-- An integer, a decimal number and a smaller integer are in a circle. -/
theorem numbers_in_a_circle :
    (naturalNumberCmp "10" "7.1").isLE = true ∧ (naturalNumberCmp "7.1" "9").isLE = true ∧
      (naturalNumberCmp "10" "9").isLE = false := by decide +kernel

end IptvRelay.Catalog
