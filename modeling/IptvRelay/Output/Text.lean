import Mathlib.Data.List.Basic

/-!
# Texts of the published outputs

`m3u_escape`, `xml_escape` and the texts of identifiers and times in `api/src/lib.rs`. The
formats of `chrono` are parameters, of which only the characters matter.
-/

namespace IptvRelay.Output

/-- `str::replace` of a character. -/
def replaceChar (c : Char) (replacement text : List Char) : List Char :=
  text.flatMap fun d => if d = c then replacement else [d]

def quotationMark : Char := Char.ofNat 34

def apostrophe : Char := Char.ofNat 39

/-- `replace(['\r', '\n'], " ")`. -/
def replaceLineBreaks (text : List Char) : List Char :=
  text.flatMap fun d => if d = '\r' ∨ d = '\n' then [' '] else [d]

def m3uEscape (value : List Char) : List Char :=
  replaceChar quotationMark [apostrophe] (replaceLineBreaks value)

def xmlEscape (value : List Char) : List Char :=
  replaceChar apostrophe "&apos;".toList
    (replaceChar quotationMark "&quot;".toList
      (replaceChar '>' "&gt;".toList
        (replaceChar '<' "&lt;".toList
          (replaceChar '&' "&amp;".toList value))))

/-! ## Identifiers -/

abbrev Uuid := BitVec 128

def hexDigit (n : Nat) : Char := "0123456789abcdef".toList.getD n '0'

/-- The last digits of a number, in lower case. -/
def hexDigits (value : Nat) : Nat → List Char
  | 0 => []
  | count + 1 => hexDigits (value / 16) count ++ [hexDigit (value % 16)]

/-- The hyphenated form that `Display` writes. -/
def uuidText (id : Uuid) : List Char :=
  let digits := hexDigits id.toNat 32
  digits.take 8 ++ '-' :: (digits.drop 8).take 4 ++ '-' :: (digits.drop 12).take 4 ++
    '-' :: (digits.drop 16).take 4 ++ '-' :: digits.drop 20

/-- The characters of identifiers, dates and times. -/
def isPlain (c : Char) : Bool := c ∈ "0123456789abcdef+- ".toList

theorem isPlain_hexDigit (n : Nat) : isPlain (hexDigit n) = true := by
  unfold hexDigit
  rw [List.getD_eq_getElem?_getD]
  cases h : "0123456789abcdef".toList[n]? with
  | none => decide
  | some c =>
    have hall : ∀ c ∈ "0123456789abcdef".toList, isPlain c = true :=
      List.all_eq_true.mp (by decide)
    exact hall c (List.mem_of_getElem? h)

theorem isPlain_hexDigits (value count : Nat) : ∀ c ∈ hexDigits value count, isPlain c = true := by
  induction count generalizing value with
  | zero => exact fun c hc => absurd hc List.not_mem_nil
  | succ count ih =>
    intro c hc
    rcases List.mem_append.mp hc with hc | hc
    · exact ih _ c hc
    · rw [List.mem_singleton.mp hc]
      exact isPlain_hexDigit _

theorem isPlain_uuidText (id : Uuid) : ∀ c ∈ uuidText id, isPlain c = true := by
  intro c hc
  have hdigits := isPlain_hexDigits id.toNat 32
  have hhyphen : isPlain '-' = true := by decide
  simp only [uuidText, List.cons_append, List.append_assoc, List.mem_append, List.mem_cons] at hc
  rcases hc with hc | rfl | hc | rfl | hc | rfl | hc | rfl | hc
  · exact hdigits c (List.mem_of_mem_take hc)
  · exact hhyphen
  · exact hdigits c (List.mem_of_mem_drop (List.mem_of_mem_take hc))
  · exact hhyphen
  · exact hdigits c (List.mem_of_mem_drop (List.mem_of_mem_take hc))
  · exact hhyphen
  · exact hdigits c (List.mem_of_mem_drop (List.mem_of_mem_take hc))
  · exact hhyphen
  · exact hdigits c (List.mem_of_mem_drop hc)

/-! ## Times -/

/-- Nanoseconds since the epoch. -/
abbrev Instant := Int

/-- A day. -/
abbrev NaiveDate := Int

/-- The formats `%Y%m%d%H%M%S %z`, `%Y-%m-%d` and `%Y%m%d`. -/
structure Formats where
  stamp : Instant → List Char
  date : NaiveDate → List Char
  compactDate : NaiveDate → List Char
  stamp_plain : ∀ time, ∀ c ∈ stamp time, isPlain c = true
  date_plain : ∀ day, ∀ c ∈ date day, isPlain c = true
  compactDate_plain : ∀ day, ∀ c ∈ compactDate day, isPlain c = true

end IptvRelay.Output
