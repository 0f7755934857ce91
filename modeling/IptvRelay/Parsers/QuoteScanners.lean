import IptvRelay.Parsers.BareWords

/-!
# The two scanners of EXTINF lines

The search for the title takes every quote as a delimiter, the reader of attributes only one that
stands behind an equals sign. Where the title begins by each of them, and when this is the same
place.
-/

namespace IptvRelay.Parsers

def isQuote (c : Char) : Bool := c = apostrophe ∨ c = quotationMark

/-- The quote of the run that is open behind a character. A run goes from a quote to its next
occurrence. -/
def runStep (quote : Option Char) (c : Char) : Option Char :=
  if c = apostrophe ∨ c = quotationMark then
    if quote = some c then none else if quote = none then some c else quote
  else quote

def openRun (quote : Option Char) (text : List Char) : Option Char := text.foldl runStep quote

/-- Where the reader is in an EXTINF line. -/
inductive Place where
  | start
  | duration
  | behindDuration
  | gap
  | key
  | behindKey
  /-- In the word behind a key without a value. -/
  | skipped
  | behindEquals
  | unquoted
  | quoted (quote : Char)
  deriving DecidableEq, Repr

namespace Place

/-- The place behind a character that follows a gap. -/
def first (c : Char) : Place :=
  if isAsciiWhitespace c then .gap else if c = '=' then .behindEquals else .key

def step : Place → Char → Place
  | .start, c => if Text.isWhitespace c then .start else .duration
  | .duration, c => if Text.isWhitespace c then .behindDuration else .duration
  | .behindDuration, c => if Text.isWhitespace c then .behindDuration else first c
  | .gap, c => first c
  | .key, c =>
    if isAsciiWhitespace c then .behindKey else if c = '=' then .behindEquals else .key
  | .behindKey, c =>
    if isAsciiWhitespace c then .behindKey else if c = '=' then .behindEquals else .skipped
  | .skipped, c => if isAsciiWhitespace c then .gap else .skipped
  | .behindEquals, c =>
    if isAsciiWhitespace c then .behindEquals else if isQuote c then .quoted c else .unquoted
  | .unquoted, c => if isAsciiWhitespace c then .gap else .unquoted
  | .quoted quote, c => if c = quote then .gap else .quoted quote

def run (place : Place) (text : List Char) : Place := text.foldl step place

/-- The quote of a value that has begun. -/
def quote : Place → Option Char
  | .quoted quote => some quote
  | _ => none

theorem head_dropWhile_not {p : Char → Bool} {text rest : List Char} {c : Char}
    (h : text.dropWhile p = c :: rest) : p c = false := by
  have hnot := List.head?_dropWhile_not p text
  rw [h] at hnot
  simpa using hnot

end Place

/-! ## Quotes that stay open -/

namespace Place

/-- Only quotes open a value. -/
def WellQuoted (place : Place) : Prop := ∀ quote, place.quote = some quote → isQuote quote = true

theorem first_quote (c : Char) : (first c).quote = none := by
  unfold first
  split_ifs <;> rfl

/-- A quote is opened behind an equals sign, and closed by the next quote of its kind. -/
theorem step_quote (place : Place) (c : Char) :
    (place.step c).quote = match place with
      | .behindEquals => if isAsciiWhitespace c = false ∧ isQuote c then some c else none
      | .quoted quote => if c = quote then none else some quote
      | _ => none := by
  cases place with
  | gap => exact first_quote c
  | behindDuration =>
    by_cases hc : Text.isWhitespace c = true
    · rw [step, if_pos hc]
      rfl
    · rw [step, if_neg hc, first_quote]
  | behindEquals =>
    rw [step]
    cases hblank : isAsciiWhitespace c <;> cases hquote : isQuote c <;> rfl
  | quoted own => by_cases hc : c = own <;> simp [step, quote, hc]
  | _ =>
    dsimp only
    rw [step]
    split_ifs <;> rfl

theorem WellQuoted.step {place : Place} (h : place.WellQuoted) (c : Char) :
    (place.step c).WellQuoted := by
  intro quote hquote
  rw [step_quote] at hquote
  cases place with
  | behindEquals =>
    dsimp only at hquote
    split_ifs at hquote with hc
    exact Option.some.inj hquote ▸ hc.2
  | quoted own =>
    dsimp only at hquote
    split_ifs at hquote
    exact h quote hquote
  | _ => cases hquote

theorem WellQuoted.run {place : Place} (h : place.WellQuoted) (text : List Char) :
    (place.run text).WellQuoted := by
  induction text generalizing place with
  | nil => exact h
  | cons c text ih => exact ih (h.step c)

end Place

namespace Place

end Place

section Commas

variable (debug : String → String)

end Commas

/-! ## Where both stop at the same comma -/

/-- Every comma stands in a run of quotes or in a quoted value. -/
def Hidden (quote : Option Char) (place : Place) (text : List Char) : Prop :=
  ∀ before behind, text = before ++ ',' :: behind →
    openRun quote before ≠ none ∨ (place.run before).quote ≠ none

section SameCommas

variable {quote : Option Char} {place : Place} {c : Char} {rest text : List Char}

end SameCommas

/-! ## Quotes that only delimit values -/

end IptvRelay.Parsers
