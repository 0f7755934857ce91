import IptvRelay.Lib.Cuts
import IptvRelay.Lib.Text
import Mathlib.Data.List.DropRight

/-!
# Redaction of errors

Model of `redact_error` in `persistence/src/lib.rs`: the passes that take URLs, the values of
credential keys and the values of credential headers out of an error before it is stored.
-/

namespace IptvRelay.Store.Redaction

open Cuts

/-- The two URL schemes with `://`. -/
inductive Scheme where
  | https
  | http
  deriving DecidableEq, Repr

def Scheme.text : Scheme → List Char
  | https => ['h', 't', 't', 'p', 's', ':', '/', '/']
  | http => ['h', 't', 't', 'p', ':', '/', '/']

def isQuote (c : Char) : Bool := c = Char.ofNat 0x27 || c = Char.ofNat 0x22

/-- What ends a URL. -/
def endsUrl (c : Char) : Bool := Text.isWhitespace c || isQuote c

/-- What ends the value of a key. -/
def endsValue (c : Char) : Bool := c = '&' || c = ' ' || isQuote c

/-- What ends the value of a header. -/
def endsHeader (c : Char) : Bool := c = '\r' || c = '\n' || isQuote c

def isAsciiWhitespace (c : Char) : Bool :=
  c = ' ' || c = '\t' || c = '\n' || c = Char.ofNat 0x0c || c = '\r'

/-- `[REDACTED_URL]`. -/
def urlMark : List Char := "[REDACTED_URL]".toList

/-- `[REDACTED]`. -/
def valueMark : List Char := "[REDACTED]".toList

/-- The keys, without `=`. -/
def keys : List (List Char) :=
  ["username", "password", "token", "auth", "authorization", "secret", "credential", "cookie",
    "signature", "session", "api_key", "access_key", "key"].map String.toList

/-- The labels of headers, without `:`. -/
def headers : List (List Char) :=
  ["authorization", "proxy-authorization", "cookie", "set-cookie", "x-api-key", "x-auth-token",
    "api-key"].map String.toList

/-! ## Characters -/

theorem toLower_cases (c : Char) : c.toLower = c ∨
    (65 ≤ c.toNat ∧ c.toNat ≤ 90) ∧ 97 ≤ c.toLower.toNat := by
  by_cases hupper : c.val ≥ 'A'.val ∧ c.val ≤ 'Z'.val
  · have hlow := UInt32.le_iff_toNat_le.mp hupper.1
    have hhigh := UInt32.le_iff_toNat_le.mp hupper.2
    change 65 ≤ c.val.toNat at hlow
    change c.val.toNat ≤ 90 at hhigh
    have hlower : c.toLower.toNat = (c.val + ('a'.val - 'A'.val)).toNat := by
      unfold Char.toLower
      rw [dif_pos hupper]
      rfl
    rw [UInt32.toNat_add] at hlower
    change _ = (c.val.toNat + 32) % 4294967296 at hlower
    exact .inr ⟨⟨hlow, hhigh⟩, by omega⟩
  · unfold Char.toLower
    rw [dif_neg hupper]
    exact .inl rfl

theorem eq_of_toLower {c d : Char} (hd : d.toNat < 97) (h : c.toLower = d) : c = d := by
  rcases toLower_cases c with hsame | ⟨-, hlower⟩
  · exact hsame.symm.trans h
  · rw [h] at hlower
    omega

theorem toLower_of_whitespace {c : Char} (h : Text.isWhitespace c = true) : c.toLower = c := by
  rcases toLower_cases c with hsame | ⟨hupper, -⟩
  · exact hsame
  · simp only [Text.isWhitespace, decide_eq_true_eq] at h
    omega

theorem toLower_of_quote {c : Char} (h : isQuote c = true) : c.toLower = c := by
  simp only [isQuote, Bool.or_eq_true, decide_eq_true_eq] at h
  rcases h with rfl | rfl <;> rfl

theorem toLower_of_endsUrl {c : Char} (h : endsUrl c = true) : c.toLower = c := by
  rcases Bool.or_eq_true_iff.mp h with hspace | hquote
  · exact toLower_of_whitespace hspace
  · exact toLower_of_quote hquote

theorem toLower_of_endsValue {c : Char} (h : endsValue c = true) : c.toLower = c := by
  simp only [endsValue, Bool.or_eq_true, decide_eq_true_eq] at h
  rcases h with (rfl | rfl) | hquote
  · rfl
  · rfl
  · exact toLower_of_quote hquote

/-! ## The passes -/

theorem Scheme.colon (scheme : Scheme) : ':' ∈ scheme.text := by cases scheme <;> decide

theorem Scheme.unbroken (scheme : Scheme) : ∀ c ∈ scheme.text, endsUrl c = false := by
  have hall : (scheme.text.all fun c => !endsUrl c) = true := by cases scheme <;> decide
  intro c hc
  simpa using List.all_eq_true.mp hall c hc

theorem Scheme.nonempty (scheme : Scheme) : scheme.text ≠ [] := by cases scheme <;> decide

section Urls

variable {scheme : Scheme} {text before found : List Char}

theorem take_of_begins (h : begins Char.toLower scheme.text found = true) :
    (found.take scheme.text.length).map Char.toLower = scheme.text := by
  rw [List.map_take]
  exact (List.prefix_iff_eq_take.mp (begins_iff.mp h)).symm

/-- A URL goes beyond its scheme. -/
theorem dropWhile_of_begins (h : begins Char.toLower scheme.text found = true) :
    (found.dropWhile fun c => !endsUrl c) =
      (found.drop scheme.text.length).dropWhile fun c => !endsUrl c := by
  have hopen : ∀ c ∈ found.take scheme.text.length, (!endsUrl c) = true := by
    intro c hc
    cases hends : endsUrl c with
    | false => rfl
    | true =>
      have hmem : c ∈ scheme.text := by
        rw [← take_of_begins h, ← toLower_of_endsUrl hends]
        exact List.mem_map_of_mem hc
      rw [scheme.unbroken c hmem] at hends
      cases hends
  conv_lhs => rw [← List.take_append_drop scheme.text.length found]
  exact List.dropWhile_append_of_pos hopen

theorem colon_mem_of_begins (h : begins Char.toLower scheme.text found = true) :
    ':' ∈ found.take scheme.text.length := by
  have hcolon := scheme.colon
  rw [← take_of_begins h] at hcolon
  obtain ⟨c, hc, hlower⟩ := List.mem_map.mp hcolon
  rwa [← eq_of_toLower (by decide) hlower]

/-- A URL that is replaced takes its colon with it. -/
theorem count_colon_lt (h : split Char.toLower scheme.text text = some (before, found)) :
    (before ++ urlMark ++ found.dropWhile fun c => !endsUrl c).count ':' < text.count ':' := by
  obtain ⟨rfl, hbegins⟩ := split_some h
  have hmark : urlMark.count ':' = 0 := by decide
  have hcolon := List.count_pos_iff.mpr (colon_mem_of_begins hbegins)
  have hparts := congrArg (List.count ':') (List.take_append_drop scheme.text.length found)
  rw [List.count_append] at hparts
  have hrest : ((found.drop scheme.text.length).dropWhile fun c => !endsUrl c).count ':' ≤
      (found.drop scheme.text.length).count ':' :=
    (List.dropWhile_suffix _).sublist.count_le ':'
  rw [dropWhile_of_begins hbegins, List.count_append, List.count_append, List.count_append, hmark]
  omega

end Urls

/-- Replace URLs; the search begins at the start of the text each time. -/
def redactUrls (scheme : Scheme) (text : List Char) : List Char :=
  match hsplit : split Char.toLower scheme.text text with
  | none => text
  | some parts =>
    have := count_colon_lt hsplit
    redactUrls scheme (parts.1 ++ urlMark ++ parts.2.dropWhile fun c => !endsUrl c)
termination_by text.count ':'
decreasing_by assumption

/-- Replace the values of a key. -/
def keyPass (key : List Char) : Pass Char := keyed Char.toLower '=' endsValue valueMark key

/-- Replace the values of a header. -/
def headerPass (header : List Char) : Pass Char where
  fold := Char.toLower
  label := header ++ [':']
  keeps := true
  skips := isAsciiWhitespace
  closes := endsHeader
  mark := valueMark
  nonempty := by simp

/-- `redact_error` behind the cut at 2048 characters. -/
def redactText (text : List Char) : List Char :=
  runAll (headers.map headerPass) (runAll (keys.map keyPass)
    ([Scheme.https, .http].foldl (fun text scheme => redactUrls scheme text) text))

def redactError (error : List Char) : List Char := redactText (error.take 2048)

/-! ## All passes -/

def urlPass (scheme : Scheme) : Pass Char where
  fold := Char.toLower
  label := scheme.text
  keeps := false
  skips _ := false
  closes := endsUrl
  mark := urlMark
  nonempty := scheme.nonempty

def urlPasses : List (Pass Char) := [Scheme.https, .http].map urlPass

def keyPasses : List (Pass Char) := keys.map keyPass

def headerPasses : List (Pass Char) := headers.map headerPass

theorem sealed_of_brackets {label mark : List Char} (hfirst : '[' ∉ label) (hlast : ']' ∉ label)
    (inner : List Char) (hmark : mark = '[' :: (inner ++ [']']))
    (hinner : split Char.toLower label inner = none) : Pass.Sealed Char.toLower label mark :=
  ⟨'[', inner, ']', hmark, hfirst, hlast, hinner⟩

theorem sealed_urlMark (scheme : Scheme) : Pass.Sealed Char.toLower scheme.text urlMark :=
  sealed_of_brackets (by cases scheme <;> decide) (by cases scheme <;> decide)
    "REDACTED_URL".toList (by decide) (by cases scheme <;> decide)

theorem sealed_valueMark (scheme : Scheme) : Pass.Sealed Char.toLower scheme.text valueMark :=
  sealed_of_brackets (by cases scheme <;> decide) (by cases scheme <;> decide)
    "REDACTED".toList (by decide) (by cases scheme <;> decide)

theorem urlPass_behind {scheme : Scheme} {found : List Char}
    (h : begins Char.toLower scheme.text found = true) :
    (urlPass scheme).behind found = found.dropWhile fun c => !endsUrl c := by
  have hskips : ∀ rest : List Char, rest.dropWhile (fun _ => false) = rest := by
    intro rest
    cases rest <;> rfl
  rw [dropWhile_of_begins h, ← hskips (found.drop scheme.text.length)]
  rfl

/-- The search from the start finds what a search behind the marks finds. -/
theorem redactUrls_eq (scheme : Scheme) (text : List Char) :
    redactUrls scheme text = (urlPass scheme).run text := by
  induction hn : text.count ':' using Nat.strong_induction_on generalizing text with
  | _ n ih =>
    rw [redactUrls]
    split
    · rename_i hsplit
      exact ((urlPass scheme).run_of_none hsplit).symm
    · rename_i parts hsplit
      have hless := count_colon_lt hsplit
      rw [ih _ (hn ▸ hless) _ rfl, ← urlPass_behind (split_some hsplit).2]
      exact Pass.run_restart rfl (sealed_urlMark scheme) hsplit

theorem redactText_eq (text : List Char) : redactText text =
    runAll headerPasses (runAll keyPasses (runAll urlPasses text)) := by
  have hurls : [Scheme.https, .http].foldl (fun text scheme => redactUrls scheme text) text =
      runAll urlPasses text := by
    simp only [List.foldl_cons, List.foldl_nil, redactUrls_eq]
    rfl
  rw [redactText, hurls]
  rfl

/-! ## No URL is left -/

theorem not_occurs_runAll (scheme : Scheme) {passes : List (Pass Char)} {text : List Char}
    (hpasses : ∀ p ∈ passes, p.fold = Char.toLower ∧ p.mark = valueMark)
    (h : ¬ Occurs Char.toLower scheme.text text) :
    ¬ Occurs Char.toLower scheme.text (runAll passes text) := by
  intro hocc
  refine h (occurs_runAll scheme.nonempty (fun p hp => ?_) hocc)
  obtain ⟨hfold, hmark⟩ := hpasses p hp
  exact ⟨hfold, hmark ▸ sealed_valueMark scheme⟩

theorem not_occurs_urls (scheme : Scheme) (text : List Char) :
    ¬ Occurs Char.toLower scheme.text (runAll urlPasses text) := by
  change ¬ Occurs Char.toLower scheme.text
    ((urlPass .http).run ((urlPass .https).run text))
  cases scheme with
  | http => exact Pass.not_occurs_run_self (p := urlPass .http) rfl (sealed_urlMark .http) _
  | https =>
    intro hocc
    exact Pass.not_occurs_run_self (p := urlPass .https) rfl (sealed_urlMark .https) text
      (Pass.occurs_run (p := urlPass .http) Scheme.https.nonempty (sealed_urlMark .https) hocc)

/-- Whatever the error is, no URL is left in it. -/
theorem not_occurs_redactError (scheme : Scheme) (error : List Char) :
    ¬ Occurs Char.toLower scheme.text (redactError error) := by
  rw [redactError, redactText_eq]
  refine not_occurs_runAll scheme (fun p hp => ?_) (not_occurs_runAll scheme (fun p hp => ?_)
    (not_occurs_urls scheme _))
  · obtain ⟨header, -, rfl⟩ := List.mem_map.mp hp
    exact ⟨rfl, rfl⟩
  · obtain ⟨key, -, rfl⟩ := List.mem_map.mp hp
    exact ⟨rfl, rfl⟩

end IptvRelay.Store.Redaction
