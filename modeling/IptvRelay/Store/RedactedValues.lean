import IptvRelay.Store.Redaction

/-!
# What redaction hides

URLs are hidden wherever they stand. The value of a key is hidden if it is bare and a URL in it
takes nothing of what follows; a quoted value is not, since the opening quote ends it.
-/

namespace IptvRelay.Store.Redaction

open Cuts

/-! ## Separators -/

theorem urlPass_separates (scheme : Scheme) {c : Char} (h : endsUrl c = true) :
    (urlPass scheme).Separates c where
  label hmem := by
    change c.toLower ∈ scheme.text at hmem
    rw [toLower_of_endsUrl h] at hmem
    rw [scheme.unbroken c hmem] at h
    cases h
  skips := rfl
  closes := h

theorem keys_unbroken : ∀ key ∈ keys, ∀ c ∈ key ++ ['='],
    endsValue c = false ∧ endsUrl c = false := by
  have hall : (keys.all fun key =>
      (key ++ ['=']).all fun c => !endsValue c && !endsUrl c) = true := by decide
  intro key hkey c hc
  simpa using List.all_eq_true.mp (List.all_eq_true.mp hall key hkey) c hc

theorem keyPass_separates {key : List Char} (hkey : key ∈ keys) {c : Char}
    (h : endsValue c = true) : (keyPass key).Separates c where
  label hmem := by
    change c.toLower ∈ key ++ ['='] at hmem
    rw [toLower_of_endsValue h] at hmem
    rw [(keys_unbroken key hkey c hmem).1] at h
    cases h
  skips := rfl
  closes := h

theorem headers_unquoted : ∀ header ∈ headers, ∀ c ∈ header ++ [':'], isQuote c = false := by
  have hall : (headers.all fun header => (header ++ [':']).all fun c => !isQuote c) = true := by
    decide
  intro header hheader c hc
  simpa using List.all_eq_true.mp (List.all_eq_true.mp hall header hheader) c hc

theorem headerPass_separates {header : List Char} (hheader : header ∈ headers) {c : Char}
    (h : isQuote c = true) : (headerPass header).Separates c where
  label hmem := by
    change c.toLower ∈ header ++ [':'] at hmem
    rw [toLower_of_quote h] at hmem
    rw [headers_unquoted header hheader c hmem] at h
    cases h
  skips := by
    simp only [isQuote, Bool.or_eq_true, decide_eq_true_eq] at h
    rcases h with rfl | rfl <;> rfl
  closes := by
    change (_ || isQuote c) = true
    rw [h, Bool.or_true]

theorem urlPasses_separate {c : Char} (h : endsUrl c = true) : ∀ p ∈ urlPasses, p.Separates c := by
  intro p hp
  obtain ⟨scheme, -, rfl⟩ := List.mem_map.mp hp
  exact urlPass_separates scheme h

theorem keyPasses_separate {c : Char} (h : endsValue c = true) :
    ∀ p ∈ keyPasses, p.Separates c := by
  intro p hp
  obtain ⟨key, hkey, rfl⟩ := List.mem_map.mp hp
  exact keyPass_separates hkey h

theorem headerPasses_separate {c : Char} (h : isQuote c = true) :
    ∀ p ∈ headerPasses, p.Separates c := by
  intro p hp
  obtain ⟨header, hheader, rfl⟩ := List.mem_map.mp hp
  exact headerPass_separates hheader h

theorem endsUrl_of_quote {c : Char} (h : isQuote c = true) : endsUrl c = true := by
  rw [endsUrl, h, Bool.or_true]

theorem endsValue_of_quote {c : Char} (h : isQuote c = true) : endsValue c = true := by
  rw [endsValue, h, Bool.or_true]

/-- A quote keeps the parts of an error apart. -/
theorem redactText_append_cons {c : Char} (h : isQuote c = true) (a b : List Char) :
    redactText (a ++ c :: b) = redactText a ++ c :: redactText b := by
  rw [redactText_eq, runAll_append_cons (urlPasses_separate (endsUrl_of_quote h)),
    runAll_append_cons (keyPasses_separate (endsValue_of_quote h)),
    runAll_append_cons (headerPasses_separate h), redactText_eq, redactText_eq]

/-! ## Tokens with a URL -/

theorem runAll_urlPasses (text : List Char) :
    runAll urlPasses text = (urlPass .http).run ((urlPass .https).run text) := rfl

/-- Behind the beginning of a URL the rest of the token does not matter. -/
theorem urlPass_run_open {scheme : Scheme} {a b : List Char}
    (hopen : ∀ c ∈ a ++ b, endsUrl c = false) (h : Occurs Char.toLower scheme.text a) :
    (urlPass scheme).run (a ++ b) = (urlPass scheme).run a :=
  Pass.run_append_of_open (p := urlPass scheme) (fun _ => rfl) hopen h

theorem urlMark_open : ∀ c ∈ urlMark, endsUrl c = false ∧ endsValue c = false := by
  have hall : (urlMark.all fun c => !endsUrl c && !endsValue c) = true := by decide
  intro c hc
  simpa using List.all_eq_true.mp hall c hc

theorem urlPass_run_unbroken {scheme : Scheme} {text : List Char}
    (h : ∀ c ∈ text, endsUrl c = false) :
    ∀ c ∈ (urlPass scheme).run text, endsUrl c = false := fun c hc =>
  (Pass.mem_run hc).elim (h c) fun hmark => (urlMark_open c hmark).1

/-- A text that is a URL. -/
structure IsUrl (url : List Char) : Prop where
  scheme : ∃ scheme : Scheme, begins Char.toLower scheme.text url = true
  unbroken : ∀ c ∈ url, endsUrl c = false

/-- A scheme begins with its only `h`. -/
theorem Scheme.text_cons (scheme : Scheme) : ∃ rest, scheme.text = 'h' :: rest ∧ 'h' ∉ rest := by
  cases scheme
  · exact ⟨_, rfl, by decide⟩
  · exact ⟨_, rfl, by decide⟩

theorem IsUrl.head {url : List Char} (h : IsUrl url) :
    ∃ first rest, url = first :: rest ∧ first.toLower = 'h' := by
  obtain ⟨scheme, hbegins⟩ := h.scheme
  obtain ⟨rest, htext, -⟩ := scheme.text_cons
  rw [begins_iff, htext] at hbegins
  cases url with
  | nil => simp at hbegins
  | cons first more => exact ⟨first, more, rfl, (List.cons_prefix_cons.mp hbegins).1.symm⟩

/-- A URL stands apart from the token in front of it. -/
theorem IsUrl.split_append {scheme : Scheme} {a url : List Char} (hurl : IsUrl url)
    (ha : ¬ Occurs Char.toLower scheme.text a) :
    split Char.toLower scheme.text (a ++ url) =
      (split Char.toLower scheme.text url).map fun parts => (a ++ parts.1, parts.2) := by
  obtain ⟨first, more, rfl, hfirst⟩ := hurl.head
  obtain ⟨rest, htext, hrest⟩ := scheme.text_cons
  have hnone : split Char.toLower scheme.text a = none := not_not.mp ha
  rw [htext] at hnone ⊢
  exact split_append_first hrest hfirst hnone more

theorem split_of_begins {scheme : Scheme} {text : List Char}
    (h : begins Char.toLower scheme.text text = true) :
    split Char.toLower scheme.text text = some ([], text) := by
  cases text with
  | nil =>
    rw [begins_nil scheme.nonempty] at h
    cases h
  | cons c rest => rw [split_cons, if_pos h]

/-- A URL of the scheme is replaced to the end of its token. -/
theorem urlPass_run_url {scheme : Scheme} {a url : List Char} (hopen : ∀ c ∈ a, endsUrl c = false)
    (hurl : IsUrl url) (hbegins : begins Char.toLower scheme.text url = true)
    (ha : ¬ Occurs Char.toLower scheme.text a) :
    (urlPass scheme).run (a ++ url) = a ++ urlMark := by
  have hsplit := hurl.split_append ha
  rw [split_of_begins hbegins, Option.map_some, List.append_nil] at hsplit
  have hwhole : ∀ c ∈ a ++ url, (urlPass scheme).closes c = false := fun c hc =>
    (List.mem_append.mp hc).elim (hopen c) (hurl.unbroken c)
  rw [Pass.run_of_open (p := urlPass scheme) hwhole hsplit]
  exact congrArg (· ++ urlMark) (List.append_nil a)

theorem urlPass_run_mark {scheme : Scheme} {a : List Char}
    (ha : ¬ Occurs Char.toLower scheme.text a) :
    (urlPass scheme).run (a ++ urlMark) = a ++ urlMark := by
  have hnone := ((sealed_urlMark scheme).occurs_append scheme.nonempty a []).not.mpr
    (not_or.mpr ⟨ha, fun h => h rfl⟩)
  rw [List.append_nil] at hnone
  exact (urlPass scheme).run_of_none (not_not.mp hnone)

/-- No `https` URL begins inside `http://`. -/
theorem split_https_of_http {url : List Char}
    (h : begins Char.toLower Scheme.http.text url = true) :
    ∃ front rest, url = front ++ rest ∧ front.map Char.toLower = Scheme.http.text ∧
      split Char.toLower Scheme.https.text url =
        (split Char.toLower Scheme.https.text rest).map
          fun parts => (front ++ parts.1, parts.2) := by
  have hfront := take_of_begins h
  obtain ⟨c0, w0, hw, h0, hfront⟩ := List.map_eq_cons_iff.mp hfront
  obtain ⟨c1, w1, rfl, h1, hfront⟩ := List.map_eq_cons_iff.mp hfront
  obtain ⟨c2, w2, rfl, h2, hfront⟩ := List.map_eq_cons_iff.mp hfront
  obtain ⟨c3, w3, rfl, h3, hfront⟩ := List.map_eq_cons_iff.mp hfront
  obtain ⟨c4, w4, rfl, h4, hfront⟩ := List.map_eq_cons_iff.mp hfront
  obtain ⟨c5, w5, rfl, h5, hfront⟩ := List.map_eq_cons_iff.mp hfront
  obtain ⟨c6, w6, rfl, h6, hfront⟩ := List.map_eq_cons_iff.mp hfront
  cases List.map_eq_nil_iff.mp hfront
  refine ⟨[c0, c1, c2, c3, c4, c5, c6], url.drop Scheme.http.text.length, ?_, ?_, ?_⟩
  · rw [← hw, List.take_append_drop]
  · simp only [List.map_cons, List.map_nil, h0, h1, h2, h3, h4, h5, h6]
    rfl
  · conv_lhs => rw [← List.take_append_drop Scheme.http.text.length url, hw]
    generalize url.drop Scheme.http.text.length = rest
    simp only [List.cons_append, List.nil_append, split_cons, begins, List.map_cons, Scheme.text,
      List.isPrefixOf, h0, h1, h2, h3, h4, h5, h6]
    cases split Char.toLower ['h', 't', 't', 'p', 's', ':', '/', '/'] rest <;> simp

/-- What the first pass leaves of a URL. -/
theorem httpsPass_run_url {a url : List Char} (hopen : ∀ c ∈ a, endsUrl c = false)
    (hurl : IsUrl url) (ha : ¬ Occurs Char.toLower Scheme.https.text a) :
    ∃ left, (urlPass .https).run (a ++ url) = a ++ left ∧
      (left = urlMark ∨ IsUrl left ∧ begins Char.toLower Scheme.http.text left = true) := by
  obtain ⟨scheme, hbegins⟩ := hurl.scheme
  cases scheme with
  | https => exact ⟨urlMark, urlPass_run_url hopen hurl hbegins ha, .inl rfl⟩
  | http =>
    have hsplit := hurl.split_append ha
    obtain ⟨front, rest, rfl, hfront, hinside⟩ := split_https_of_http hbegins
    have hkept : ∀ more, begins Char.toLower Scheme.http.text (front ++ more) = true := by
      intro more
      rw [begins_iff, List.map_append, hfront]
      exact List.prefix_append ..
    have hwhole : ∀ c ∈ a ++ (front ++ rest), (urlPass .https).closes c = false := fun c hc =>
      (List.mem_append.mp hc).elim (hopen c) (hurl.unbroken c)
    cases hrest : split Char.toLower Scheme.https.text rest with
    | none =>
      rw [hinside, hrest] at hsplit
      exact ⟨front ++ rest, (urlPass .https).run_of_none hsplit,
        .inr ⟨hurl, hbegins⟩⟩
    | some parts =>
      rw [hinside, hrest] at hsplit
      refine ⟨front ++ (parts.1 ++ urlMark), ?_, .inr ⟨⟨⟨.http, hkept _⟩, fun c hc => ?_⟩, hkept _⟩⟩
      · rw [Pass.run_of_open (p := urlPass .https) hwhole hsplit]
        change a ++ (front ++ parts.1) ++ [] ++ urlMark = _
        simp
      · rcases List.mem_append.mp hc with hc | hc
        · exact hurl.unbroken c (List.mem_append_left _ hc)
        · rcases List.mem_append.mp hc with hc | hc
          · have hbefore := (split_some hrest).1
            exact hurl.unbroken c (List.mem_append_right _ (hbefore ▸ List.mem_append_left _ hc))
          · exact (urlMark_open c hc).1

/-- A token shows no more of a URL than that there is one. -/
theorem runAll_url {a url : List Char} (hopen : ∀ c ∈ a, endsUrl c = false) (hurl : IsUrl url) :
    runAll urlPasses (a ++ url) =
      if Occurs Char.toLower Scheme.https.text a then
        (urlPass .http).run ((urlPass .https).run a)
      else if Occurs Char.toLower Scheme.http.text a then (urlPass .http).run a
      else a ++ urlMark := by
  have hwhole : ∀ c ∈ a ++ url, endsUrl c = false := fun c hc =>
    (List.mem_append.mp hc).elim (hopen c) (hurl.unbroken c)
  rw [runAll_urlPasses]
  split_ifs with hhttps hhttp
  · rw [urlPass_run_open hwhole hhttps]
  · obtain ⟨left, hleft, hkind⟩ := httpsPass_run_url hopen hurl hhttps
    have hrun : ∀ c ∈ (urlPass .https).run (a ++ url), endsUrl c = false :=
      urlPass_run_unbroken hwhole
    rw [hleft] at hrun ⊢
    exact urlPass_run_open hrun hhttp
  · obtain ⟨left, hleft, hkind⟩ := httpsPass_run_url hopen hurl hhttps
    rw [hleft]
    rcases hkind with rfl | ⟨hleftUrl, hbegins⟩
    · exact urlPass_run_mark hhttp
    · exact urlPass_run_url hopen hleftUrl hbegins hhttp

/-! ## Errors with a URL -/

/-- Texts that differ in a URL are redacted to the same text. -/
theorem redactText_url {before url other after : List Char} (hurl : IsUrl url)
    (hother : IsUrl other) (hafter : ∀ c ∈ after.head?, endsUrl c = true) :
    redactText (before ++ url ++ after) = redactText (before ++ other ++ after) := by
  have hopen : ∀ c ∈ before.rtakeWhile fun c => !endsUrl c, endsUrl c = false := by
    intro c hc
    simpa using List.mem_rtakeWhile_imp hc
  have hnear : (after.takeWhile fun c => !endsUrl c) = [] := by
    cases after with
    | nil => rfl
    | cons c rest => simp [hafter c rfl]
  rw [redactText_eq, redactText_eq, runAll_around (fun _ => urlPasses_separate) before url,
    runAll_around (fun _ => urlPasses_separate) before other, hnear, List.append_nil,
    List.append_nil, runAll_url hopen hurl, runAll_url hopen hother]

/-! ## Errors with a value -/

/-- An error around the value of a key. -/
structure Context where
  before : List Char
  /-- The key in any letter case. -/
  name : List Char
  quote : Option Char
  after : List Char
  listed : name.map Char.toLower ∈ keys
  quoted : ∀ c ∈ quote, isQuote c = true
  /-- A bare value ends in front of an ampersand, whitespace or a quote. -/
  ended : quote = none → ∀ c ∈ after.head?, c = '&' ∨ endsUrl c = true

/-- A text that a key can be given. -/
def IsValue (value : List Char) : Prop := ∀ c ∈ value, c ≠ '&' ∧ endsUrl c = false

namespace Context

variable (context : Context)

def text (value : List Char) : List Char :=
  context.before ++ context.name ++ '=' ::
    (context.quote.toList ++ value ++ context.quote.toList ++ context.after)

/-- The number of characters around the value. -/
def size : Nat := (context.text []).length

/-- No value shows in the redacted error. -/
def Hides : Prop := ∀ value other, IsValue value → IsValue other →
  (context.text value).length ≤ 2048 → (context.text other).length ≤ 2048 →
    redactError (context.text value) = redactError (context.text other)

/-- The key stands inside a URL. -/
def InUrl : Prop := ∃ scheme : Scheme, Occurs Char.toLower scheme.text
  ((context.before.rtakeWhile fun c => !endsUrl c) ++ context.name)

/-- When redaction is safe: a quoted value has no room, and a bare one with an ampersand behind it
is in a URL or too short for one. -/
structure Hidden : Prop where
  quoted : context.quote ≠ none → 2048 ≤ context.size
  bare : context.quote = none → context.after.head? = some '&' →
    context.InUrl ∨ 2048 < context.size + 7

theorem length_text (value : List Char) :
    (context.text value).length = context.size + value.length := by
  simp only [size, text, List.length_append, List.length_cons, List.length_nil]
  omega

theorem name_unbroken : ∀ c ∈ context.name, endsValue c = false ∧ endsUrl c = false := by
  intro c hc
  have hmem : c.toLower ∈ context.name.map Char.toLower := List.mem_map_of_mem hc
  have hkey := keys_unbroken _ context.listed c.toLower (List.mem_append_left _ hmem)
  constructor
  · cases hends : endsValue c with
    | false => rfl
    | true =>
      rw [toLower_of_endsValue hends, hends] at hkey
      exact hkey.1
  · cases hends : endsUrl c with
    | false => rfl
    | true =>
      rw [toLower_of_endsUrl hends, hends] at hkey
      exact hkey.2

theorem redactError_text {value : List Char} (h : (context.text value).length ≤ 2048) :
    redactError (context.text value) = redactText (context.text value) := by
  rw [redactError, List.take_of_length_le h]

end Context

/-! ## Quoted values -/

/-- A text that is shorter than every label stays. -/
theorem redactText_short (text : List Char) (h : text.length < 4) : redactText text = text := by
  have hurls : ∀ p ∈ urlPasses, 4 ≤ p.label.length := by decide
  have hkeys : ∀ p ∈ keyPasses, 4 ≤ p.label.length := by decide
  have hheaders : ∀ p ∈ headerPasses, 4 ≤ p.label.length := by decide
  have hsame : ∀ passes : List (Pass Char), (∀ p ∈ passes, 4 ≤ p.label.length) →
      runAll passes text = text := fun passes hpasses =>
    runAll_of_none fun p hp => not_occurs_of_length (h.trans_le (hpasses p hp))
  rw [redactText_eq, hsame _ hurls, hsame _ hkeys, hsame _ hheaders]

namespace Context

variable (context : Context)

/-- The value between quotes is redacted as a text of its own. -/
theorem redactText_quoted {q : Char} (hquote : context.quote = some q) (value : List Char) :
    redactText (context.text value) =
      redactText (context.before ++ context.name ++ ['=']) ++ q :: (redactText value ++ q ::
        redactText context.after) := by
  have hq : isQuote q = true := context.quoted q hquote
  have hshape : context.text value = (context.before ++ context.name ++ ['=']) ++
      q :: (value ++ q :: context.after) := by
    rw [text, hquote]
    simp
  rw [hshape, redactText_append_cons hq, redactText_append_cons hq]

theorem eq_nil_of_full {value : List Char} (hfull : 2048 ≤ context.size)
    (h : (context.text value).length ≤ 2048) : value = [] := by
  rw [length_text] at h
  apply List.eq_nil_of_length_eq_zero
  omega

theorem hides_of_full (hfull : 2048 ≤ context.size) : context.Hides := by
  intro value other _ _ hlength hlength'
  rw [context.eq_nil_of_full hfull hlength, context.eq_nil_of_full hfull hlength']

/-- A quoted value shows. -/
theorem full_of_hides (hquote : context.quote ≠ none) (h : context.Hides) :
    2048 ≤ context.size := by
  obtain ⟨q, hq⟩ := Option.ne_none_iff_exists'.mp hquote
  by_contra hroom
  have hletter : IsValue ['a'] := by
    intro c hc
    rw [List.mem_singleton.mp hc]
    decide
  have hempty : IsValue [] := fun c hc => absurd hc List.not_mem_nil
  have hlength : ∀ value : List Char, value.length ≤ 1 → (context.text value).length ≤ 2048 := by
    intro value hvalue
    rw [length_text]
    omega
  have hsame := h [] ['a'] hempty hletter (hlength [] (by decide)) (hlength ['a'] (by decide))
  rw [context.redactError_text (hlength [] (by decide)),
    context.redactError_text (hlength ['a'] (by decide)), context.redactText_quoted hq,
    context.redactText_quoted hq, redactText_short [] (by decide),
    redactText_short ['a'] (by decide)] at hsame
  have hcount := congrArg List.length hsame
  simp at hcount

end Context

/-! ## Bare values -/

/-- A character that is in no scheme. -/
theorem not_mem_scheme {c : Char} (hc : c = '=' ∨ c = '&') (scheme : Scheme) :
    c.toLower ∉ scheme.text := by
  rcases hc with rfl | rfl <;> cases scheme <;> decide

theorem urlPass_run_shut {scheme : Scheme} {a : List Char} {c : Char} (hc : c = '=' ∨ c = '&')
    (ha : ¬ Occurs Char.toLower scheme.text a) (y : List Char) :
    (urlPass scheme).run (a ++ c :: y) = a ++ c :: (urlPass scheme).run y :=
  Pass.run_append_cons_of_none (p := urlPass scheme) (not_mem_scheme hc scheme) (not_not.mp ha) y

/-- In a URL the text behind the key is taken with it. -/
theorem runAll_assign_open {a y z : List Char}
    (h : ∃ scheme : Scheme, Occurs Char.toLower scheme.text a)
    (hy : ∀ c ∈ a ++ '=' :: y, endsUrl c = false) (hz : ∀ c ∈ a ++ '=' :: z, endsUrl c = false) :
    runAll urlPasses (a ++ '=' :: y) = runAll urlPasses (a ++ '=' :: z) := by
  rw [runAll_urlPasses, runAll_urlPasses]
  by_cases hhttps : Occurs Char.toLower Scheme.https.text a
  · rw [urlPass_run_open hy hhttps, urlPass_run_open hz hhttps]
  · have hhttp : Occurs Char.toLower Scheme.http.text a := by
      obtain ⟨scheme, hscheme⟩ := h
      cases scheme with
      | https => exact absurd hscheme hhttps
      | http => exact hscheme
    have hcut : ∀ u, (∀ c ∈ a ++ '=' :: u, endsUrl c = false) →
        (urlPass .http).run ((urlPass .https).run (a ++ '=' :: u)) = (urlPass .http).run a := by
      intro u hu
      have hopen : ∀ c ∈ (urlPass .https).run (a ++ '=' :: u), endsUrl c = false :=
        urlPass_run_unbroken hu
      rw [urlPass_run_shut (.inl rfl) hhttps] at hopen ⊢
      exact urlPass_run_open hopen hhttp
    rw [hcut y hy, hcut z hz]

theorem runAll_shut {a : List Char} {c : Char} (hc : c = '=' ∨ c = '&')
    (h : ∀ scheme : Scheme, ¬ Occurs Char.toLower scheme.text a) (y : List Char) :
    runAll urlPasses (a ++ c :: y) = a ++ c :: runAll urlPasses y := by
  rw [runAll_urlPasses, urlPass_run_shut hc (h .https), urlPass_run_shut hc (h .http)]
  rfl

/-- A text of values is one for all passes over keys. -/
theorem IsValue.unbroken {value : List Char} (h : IsValue value) :
    ∀ c ∈ value, endsValue c = false := by
  intro c hc
  obtain ⟨hampersand, hurl⟩ := h c hc
  cases hends : endsValue c with
  | false => rfl
  | true =>
    simp only [endsValue, Bool.or_eq_true, decide_eq_true_eq] at hends
    rcases hends with (rfl | rfl) | hquote
    · exact absurd rfl hampersand
    · cases hurl
    · rw [endsUrl_of_quote hquote] at hurl
      cases hurl

theorem runAll_urlPasses_open {value : List Char} (h : ∀ c ∈ value, endsValue c = false) :
    ∀ c ∈ runAll urlPasses value, endsValue c = false := by
  intro c hc
  rw [runAll_urlPasses] at hc
  rcases Pass.mem_run hc with hc | hmark
  · rcases Pass.mem_run hc with hc | hmark
    · exact h c hc
    · exact (urlMark_open c hmark).2
  · exact (urlMark_open c hmark).2

namespace Context

variable (context : Context)

/-- The token in front of the value. -/
def token : List Char := (context.before.rtakeWhile fun c => !endsUrl c) ++ context.name

/-- What follows a bare value in its token. -/
def near : List Char := context.after.takeWhile fun c => !endsUrl c

variable {context}

theorem text_bare (hquote : context.quote = none) (value : List Char) : context.text value =
    context.before ++ (context.name ++ '=' :: value) ++ context.after := by
  rw [text, hquote]
  simp

theorem token_open {value : List Char} (h : ∀ c ∈ value, endsUrl c = false) :
    ∀ c ∈ context.token ++ '=' :: (value ++ context.near), endsUrl c = false := by
  have hassign : ∀ c ∈ context.name ++ '=' :: value, endsUrl c = false := by
    intro c hc
    rcases List.mem_append.mp hc with hc | hc
    · exact (context.name_unbroken c hc).2
    · rcases List.mem_cons.mp hc with rfl | hc
      · rfl
      · exact h c hc
  have haround := open_around context.before context.after hassign
  rw [token, near]
  intro c hc
  apply haround c
  rw [List.append_assoc] at hc ⊢
  rwa [List.append_assoc, List.cons_append]

/-- The first passes treat the token of the key apart from the rest. -/
theorem runAll_text (hquote : context.quote = none) (value : List Char) :
    runAll urlPasses (context.text value) =
      runAll urlPasses (context.before.rdropWhile fun c => !endsUrl c) ++
        runAll urlPasses (context.token ++ '=' :: (value ++ context.near)) ++
        runAll urlPasses (context.after.dropWhile fun c => !endsUrl c) := by
  rw [text_bare hquote, runAll_around (fun _ => urlPasses_separate), token, near]
  simp only [List.append_assoc, List.cons_append]

theorem occurs_name (x : List Char) :
    Occurs Char.toLower (context.name.map Char.toLower ++ ['=']) (x ++ context.name ++ ['=']) := by
  have hbegins : begins Char.toLower (context.name.map Char.toLower ++ ['='])
      (context.name ++ ['=']) = true := by
    rw [begins_iff, List.map_append]
    exact List.prefix_refl _
  rw [List.append_assoc]
  exact (occurs_of_begins hbegins (by simp)).append_left x

theorem assign_open : ∀ c ∈ context.name ++ ['='], endsValue c = false := by
  intro c hc
  rcases List.mem_append.mp hc with hc | hc
  · exact (context.name_unbroken c hc).1
  · rw [List.mem_singleton.mp hc]
    rfl

/-- The passes over keys take the value of the key and what is open behind it. -/
theorem runAll_keys (x z : List Char) {value other : List Char}
    (hvalue : ∀ c ∈ value, endsValue c = false) (hother : ∀ c ∈ other, endsValue c = false) :
    runAll keyPasses (x ++ (context.name ++ '=' :: value) ++ z) =
      runAll keyPasses (x ++ (context.name ++ '=' :: other) ++ z) := by
  have hkeys : ∀ key ∈ keys, '=' ∉ key := by decide
  have hmark : ∀ c ∈ valueMark, endsValue c = false := by
    have hall : (valueMark.all fun c => !endsValue c) = true := by decide
    intro c hc
    simpa using List.all_eq_true.mp hall c hc
  have hopen : ∀ c ∈ (x.rtakeWhile fun c => !endsValue c) ++ context.name ++ ['='],
      endsValue c = false := by
    have haround := open_around x [] context.assign_open
    rwa [List.takeWhile_nil, List.append_nil, ← List.append_assoc] at haround
  have hnear : ∀ u, (∀ c ∈ u, endsValue c = false) →
      ∀ c ∈ u ++ z.takeWhile fun c => !endsValue c, endsValue c = false := fun u hu =>
    open_around [] z hu
  have hshape : ∀ u, (x.rtakeWhile fun c => !endsValue c) ++ (context.name ++ '=' :: u) ++
      (z.takeWhile fun c => !endsValue c) = (x.rtakeWhile fun c => !endsValue c) ++ context.name ++
        '=' :: (u ++ z.takeWhile fun c => !endsValue c) := by
    intro u
    simp only [List.append_assoc, List.cons_append]
  rw [runAll_around (fun _ => keyPasses_separate) x (context.name ++ '=' :: value),
    runAll_around (fun _ => keyPasses_separate) x (context.name ++ '=' :: other), hshape, hshape]
  exact congrArg (_ ++ · ++ _) (runAll_keyed hkeys rfl context.listed (occurs_name _) hopen hmark
    (hnear value hvalue) (hnear other hother))

/-! ### Safe contexts -/

theorem hides_of_inUrl (hquote : context.quote = none) (h : context.InUrl) : context.Hides := by
  intro value other hvalue hother hlength hlength'
  have hinside : ∃ scheme : Scheme, Occurs Char.toLower scheme.text context.token := h
  have hopen : ∀ u, IsValue u →
      ∀ c ∈ context.token ++ '=' :: (u ++ context.near), endsUrl c = false := fun u hu =>
    token_open fun c hc => (hu c hc).2
  rw [context.redactError_text hlength, context.redactError_text hlength', redactText_eq,
    redactText_eq, runAll_text hquote, runAll_text hquote,
    runAll_assign_open hinside (hopen value hvalue) (hopen other hother)]

/-- Outside of a URL a value hides if the first passes leave what follows it alone. -/
theorem redactText_shut (hquote : context.quote = none) (h : ¬ context.InUrl)
    {value other : List Char} (hvalue : IsValue value) (hother : IsValue other)
    (hnear : ∀ u, u = value ∨ u = other → runAll urlPasses (u ++ context.near) =
      runAll urlPasses u ++ runAll urlPasses context.near) :
    redactText (context.text value) = redactText (context.text other) := by
  have hshut : ∀ scheme : Scheme, ¬ Occurs Char.toLower scheme.text context.token :=
    fun scheme hocc => h ⟨scheme, hocc⟩
  have htext : ∀ u, u = value ∨ u = other → runAll urlPasses (context.text u) =
      (runAll urlPasses (context.before.rdropWhile fun c => !endsUrl c) ++
          context.before.rtakeWhile fun c => !endsUrl c) ++
        (context.name ++ '=' :: runAll urlPasses u) ++
        (runAll urlPasses context.near ++
          runAll urlPasses (context.after.dropWhile fun c => !endsUrl c)) := by
    intro u hu
    rw [runAll_text hquote, runAll_shut (.inl rfl) hshut, hnear u hu, token]
    simp only [List.append_assoc, List.cons_append]
  rw [redactText_eq, redactText_eq, htext value (.inl rfl), htext other (.inr rfl)]
  exact congrArg (runAll headerPasses) (runAll_keys _ _ (runAll_urlPasses_open hvalue.unbroken)
    (runAll_urlPasses_open hother.unbroken))

/-- A bare value is followed by an ampersand or by the end of its token. -/
theorem near_cases (hquote : context.quote = none) :
    context.near = [] ∨ ∃ rest, context.near = '&' :: rest := by
  rw [near]
  cases hafter : context.after with
  | nil => exact .inl rfl
  | cons c rest =>
    have hc := context.ended hquote c (by rw [hafter]; rfl)
    rcases hc with rfl | hends
    · exact .inr ⟨rest.takeWhile fun c => !endsUrl c, rfl⟩
    · exact .inl (by simp [hends])

theorem near_of_not_ampersand (hquote : context.quote = none)
    (h : context.after.head? ≠ some '&') : context.near = [] := by
  rcases near_cases hquote with hnil | ⟨rest, hcons⟩
  · exact hnil
  · have hprefix : context.near <+: context.after := List.takeWhile_prefix _
    obtain ⟨more, hmore⟩ := hprefix
    rw [hcons] at hmore
    rw [← hmore] at h
    exact absurd rfl h

theorem hides_of_not_ampersand (hquote : context.quote = none)
    (h : context.after.head? ≠ some '&') : context.Hides := by
  by_cases hinside : context.InUrl
  · exact hides_of_inUrl hquote hinside
  · intro value other hvalue hother hlength hlength'
    rw [context.redactError_text hlength, context.redactError_text hlength']
    apply redactText_shut hquote hinside hvalue hother
    intro u _
    rw [near_of_not_ampersand hquote h, runAll_empty, List.append_nil, List.append_nil]

theorem not_occurs_of_short {u : List Char} (h : u.length < 7) (scheme : Scheme) :
    ¬ Occurs Char.toLower scheme.text u := by
  apply not_occurs_of_length
  cases scheme
  · exact h.trans (by decide)
  · exact h

theorem runAll_ampersand (y : List Char) :
    runAll urlPasses ('&' :: y) = '&' :: runAll urlPasses y :=
  runAll_shut (a := []) (.inr rfl) (not_occurs_of_short (by decide)) y

/-- A value without a URL leaves what follows it alone. -/
theorem runAll_near (hquote : context.quote = none) {u : List Char}
    (h : ∀ scheme : Scheme, ¬ Occurs Char.toLower scheme.text u) :
    runAll urlPasses (u ++ context.near) = runAll urlPasses u ++ runAll urlPasses context.near := by
  have hsame : runAll urlPasses u = u := by
    apply runAll_of_none
    intro p hp
    obtain ⟨scheme, -, rfl⟩ := List.mem_map.mp hp
    exact h scheme
  rcases near_cases hquote with hnil | ⟨rest, hcons⟩
  · rw [hnil, runAll_empty, List.append_nil, List.append_nil]
  · rw [hcons, runAll_shut (.inr rfl) h, runAll_ampersand, hsame]

theorem hides_of_short (hquote : context.quote = none) (h : 2048 < context.size + 7) :
    context.Hides := by
  by_cases hinside : context.InUrl
  · exact hides_of_inUrl hquote hinside
  · intro value other hvalue hother hlength hlength'
    rw [context.redactError_text hlength, context.redactError_text hlength']
    apply redactText_shut hquote hinside hvalue hother
    intro u hu
    have hshort : u.length < 7 := by
      rw [length_text] at hlength hlength'
      rcases hu with rfl | rfl <;> omega
    exact runAll_near hquote (not_occurs_of_short hshort)

theorem hides_of_hidden (h : context.Hidden) : context.Hides := by
  by_cases hquote : context.quote = none
  · by_cases hampersand : context.after.head? = some '&'
    · rcases h.bare hquote hampersand with hinside | hshort
      · exact hides_of_inUrl hquote hinside
      · exact hides_of_short hquote hshort
    · exact hides_of_not_ampersand hquote hampersand
  · exact context.hides_of_full (h.quoted hquote)

/-! ### Contexts that show a value -/

/-- No header stands around the value. -/
def Headerless (context : Context) : Prop := ∀ header ∈ headers,
  ¬ Occurs Char.toLower (header ++ [':']) (context.text [])

/-- The beginning of a URL makes no header. -/
theorem not_occurs_header (hquote : context.quote = none) (h : context.Headerless)
    {value : List Char} (hvalue : value = [] ∨ value = Scheme.http.text) {header : List Char}
    (hheader : header ∈ headers) :
    ¬ Occurs Char.toLower (header ++ [':']) (context.text value) := by
  rcases hvalue with rfl | rfl
  · exact h header hheader
  · have hnone : ∀ header ∈ headers, '=' ∉ header ++ [':'] ∧ '/' ∉ header ++ [':'] ∧
        split Char.toLower (header ++ [':']) ['h', 't', 't', 'p', ':'] = none := by decide
    obtain ⟨hassign, hslash, hscheme⟩ := hnone header hheader
    have hne : header ++ [':'] ≠ [] := by simp
    have hshape : ∀ u, context.text u =
        (context.before ++ context.name) ++ '=' :: (u ++ context.after) := by
      intro u
      rw [text_bare hquote]
      simp only [List.append_assoc, List.cons_append]
    have hempty := h header hheader
    rw [hshape, occurs_append_cons hne hassign, not_or, List.nil_append] at hempty
    obtain ⟨hfront, hafter⟩ := hempty
    have htail : Scheme.http.text ++ context.after =
        ['h', 't', 't', 'p', ':'] ++ '/' :: ([] ++ '/' :: context.after) := rfl
    rw [hshape, htail, occurs_append_cons hne hassign, occurs_append_cons hne hslash,
      occurs_append_cons hne hslash]
    rintro (hocc | hocc | hocc | hocc)
    · exact hfront hocc
    · exact hocc hscheme
    · exact hocc rfl
    · exact hafter hocc

/-- Without headers the last passes change nothing. -/
theorem redactText_headerless (hquote : context.quote = none) (h : context.Headerless)
    {value : List Char} (hvalue : value = [] ∨ value = Scheme.http.text) :
    redactText (context.text value) = runAll keyPasses (runAll urlPasses (context.text value)) := by
  have hsealed : ∀ header ∈ headers,
      ('[' ∉ header ++ [':'] ∧ ']' ∉ header ++ [':']) ∧
        split Char.toLower (header ++ [':']) "REDACTED_URL".toList = none ∧
        split Char.toLower (header ++ [':']) "REDACTED".toList = none := by decide
  have hbrackets : urlMark = '[' :: ("REDACTED_URL".toList ++ [']']) ∧
      valueMark = '[' :: ("REDACTED".toList ++ [']']) := by decide
  rw [redactText_eq]
  apply runAll_of_none
  intro p hp hocc
  obtain ⟨header, hheader, rfl⟩ := List.mem_map.mp hp
  obtain ⟨⟨hfirst, hlast⟩, hurl, hmark⟩ := hsealed header hheader
  have hne : header ++ [':'] ≠ [] := by simp
  apply not_occurs_header hquote h hvalue hheader
  refine occurs_runAll hne (fun p hp => ?_) (occurs_runAll hne (fun p hp => ?_) hocc)
  · obtain ⟨scheme, -, rfl⟩ := List.mem_map.mp hp
    exact ⟨rfl, sealed_of_brackets hfirst hlast "REDACTED_URL".toList hbrackets.1 hurl⟩
  · obtain ⟨key, -, rfl⟩ := List.mem_map.mp hp
    exact ⟨rfl, sealed_of_brackets hfirst hlast "REDACTED".toList hbrackets.2 hmark⟩

/-- The passes over keys never take an ampersand. -/
theorem count_ampersand (text : List Char) :
    (runAll keyPasses text).count '&' = text.count '&' := by
  have hmark : '&' ∉ valueMark := by decide
  apply count_runAll
  intro p hp
  obtain ⟨key, -, rfl⟩ := List.mem_map.mp hp
  exact ⟨rfl, rfl, hmark⟩

/-- A URL as value takes what follows it. -/
theorem runAll_http (context : Context) :
    runAll urlPasses (Scheme.http.text ++ context.near) = urlMark := by
  have hurl : IsUrl (Scheme.http.text ++ context.near) := by
    refine ⟨⟨.http, begins_append (by decide) _⟩, fun c hc => ?_⟩
    rcases List.mem_append.mp hc with hc | hc
    · exact Scheme.http.unbroken c hc
    · simpa using List.mem_takeWhile_imp hc
  have hnone : ∀ scheme : Scheme, ¬ Occurs Char.toLower scheme.text [] :=
    not_occurs_of_short (by decide)
  have hrun := runAll_url (a := []) (fun c hc => absurd hc List.not_mem_nil) hurl
  rw [if_neg (hnone .https), if_neg (hnone .http)] at hrun
  exact hrun

/-- A bare value that is a URL shows. -/
theorem room_of_hides (hquote : context.quote = none) (hheaders : context.Headerless)
    (h : context.Hides) (hampersand : context.after.head? = some '&') :
    context.InUrl ∨ 2048 < context.size + 7 := by
  by_contra hnot
  obtain ⟨hinside, hroom⟩ := not_or.mp hnot
  have hshut : ∀ scheme : Scheme, ¬ Occurs Char.toLower scheme.text context.token :=
    fun scheme hocc => hinside ⟨scheme, hocc⟩
  have hhttp : IsValue Scheme.http.text := by
    have hall : (Scheme.http.text.all fun c => !decide (c = '&') && !endsUrl c) = true := by decide
    intro c hc
    simpa using List.all_eq_true.mp hall c hc
  have hlength : ∀ u : List Char, u.length ≤ 7 → (context.text u).length ≤ 2048 := by
    intro u hu
    rw [length_text]
    omega
  have hsame := h [] Scheme.http.text (fun c hc => absurd hc List.not_mem_nil) hhttp
    (hlength _ (by decide)) (hlength _ (by decide))
  rw [context.redactError_text (hlength _ (by decide)),
    context.redactError_text (hlength _ (by decide)),
    redactText_headerless hquote hheaders (.inl rfl),
    redactText_headerless hquote hheaders (.inr rfl)] at hsame
  have hcount := congrArg (List.count '&') hsame
  rw [count_ampersand, count_ampersand, runAll_text hquote, runAll_text hquote,
    runAll_shut (.inl rfl) hshut, runAll_shut (.inl rfl) hshut, runAll_http] at hcount
  obtain ⟨rest, hnear⟩ : ∃ rest, context.near = '&' :: rest := by
    obtain ⟨rest, hafter⟩ := List.head?_eq_some_iff.mp hampersand
    exact ⟨rest.takeWhile fun c => !endsUrl c, by rw [near, hafter]; rfl⟩
  have hmark : urlMark.count '&' = 0 := by decide
  rw [List.nil_append, hnear, runAll_ampersand] at hcount
  simp only [List.count_append, List.count_cons, hmark, beq_self_eq_true, if_true] at hcount
  omega

theorem hidden_of_hides (hplain : context.quote ≠ none ∨ context.Headerless)
    (h : context.Hides) : context.Hidden where
  quoted hquote := context.full_of_hides hquote h
  bare hquote hampersand :=
    room_of_hides hquote (hplain.resolve_left (not_not.mpr hquote)) h hampersand

/-- An error with a quoted value. -/
def quotedKey : Context where
  before := []
  name := ['k', 'e', 'y']
  quote := some '"'
  after := []
  listed := by decide
  quoted c hc := by
    cases hc
    rfl
  ended h := by cases h

/-- An error with a bare value. -/
def bareToken : Context where
  before := "GET /live?".toList
  name := "Token".toList
  quote := none
  after := ' ' :: "failed".toList
  listed := by decide
  quoted c hc := by cases hc
  ended _ c hc := by
    cases hc
    exact .inr rfl

end Context

/-! ## Redaction -/

/-- Values hide in exactly the contexts `Hidden` names, up to headers; URLs always hide, and none is
left in any error. -/
theorem redactError_hides (context : Context) :
    (context.Hidden → context.Hides) ∧
      (context.quote ≠ none ∨ context.Headerless → context.Hides → context.Hidden) ∧
      (∀ before url other after : List Char, IsUrl url → IsUrl other →
        (∀ c ∈ after.head?, endsUrl c = true) → (before ++ url ++ after).length ≤ 2048 →
          (before ++ other ++ after).length ≤ 2048 →
            redactError (before ++ url ++ after) = redactError (before ++ other ++ after)) ∧
      ∀ (scheme : Scheme) (error : List Char),
        ¬ Occurs Char.toLower scheme.text (redactError error) := by
  refine ⟨Context.hides_of_hidden, Context.hidden_of_hides, ?_, not_occurs_redactError⟩
  intro before url other after hurl hother hafter hlength hlength'
  rw [redactError, redactError, List.take_of_length_le hlength, List.take_of_length_le hlength']
  exact redactText_url hurl hother hafter

theorem redactError_hides_bare_token :
    Context.bareToken.Hides ∧ ¬ Context.quotedKey.Hides ∧
      redactError ("GET ".toList ++ "http://u:p@a/x".toList ++ ' ' :: "failed".toList) =
        redactError ("GET ".toList ++ "HTTPS://b".toList ++ ' ' :: "failed".toList) ∧
      ¬ Occurs Char.toLower Scheme.http.text (redactError "http:http://a//b".toList) := by
  have hopen : ∀ url ∈ ["http://u:p@a/x".toList, "HTTPS://b".toList],
      (url.all fun c => !endsUrl c) = true := by decide
  have hunbroken : ∀ url ∈ ["http://u:p@a/x".toList, "HTTPS://b".toList],
      ∀ c ∈ url, endsUrl c = false := by
    intro url hurl c hc
    simpa using List.all_eq_true.mp (hopen url hurl) c hc
  have hspace : ∀ c ∈ (' ' :: "failed".toList).head?, endsUrl c = true := by
    intro c hc
    cases hc
    rfl
  obtain ⟨hhides, -, hurls, hnone⟩ := redactError_hides Context.bareToken
  obtain ⟨-, hhidden, -, -⟩ := redactError_hides Context.quotedKey
  refine ⟨hhides ⟨by decide, fun _ h => absurd h (by decide)⟩, fun h => ?_, ?_, hnone .http _⟩
  · exact absurd ((hhidden (.inl (by decide)) h).quoted (by decide)) (by decide)
  · exact hurls _ _ _ _ ⟨⟨.http, by decide⟩, hunbroken _ (by simp)⟩
      ⟨⟨.https, by decide⟩, hunbroken _ (by simp)⟩ hspace (by decide) (by decide)

/-- `key="a"` and `key="b"` stay apart. -/
theorem quoted_value_shows : IsValue ['a'] ∧ IsValue ['b'] ∧
    Context.quotedKey.text ['a'] = "key=\"a\"".toList ∧
      redactError (Context.quotedKey.text ['a']) ≠ redactError (Context.quotedKey.text ['b']) := by
  refine ⟨fun c hc => ?_, fun c hc => ?_, by decide, fun hsame => ?_⟩
  · rw [List.mem_singleton.mp hc]
    decide
  · rw [List.mem_singleton.mp hc]
    decide
  · rw [Context.redactError_text _ (by decide), Context.redactError_text _ (by decide),
      Context.redactText_quoted _ rfl, Context.redactText_quoted _ rfl,
      redactText_short ['a'] (by decide), redactText_short ['b'] (by decide)]
      at hsame
    have hletter := List.append_cancel_left hsame
    cases hletter

end IptvRelay.Store.Redaction
