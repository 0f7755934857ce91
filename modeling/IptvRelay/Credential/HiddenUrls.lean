import IptvRelay.Credential.Manifest
import IptvRelay.Lib.Checked
import IptvRelay.Lib.Marks
import IptvRelay.Lib.Utf8
import Mathlib.Data.Option.Basic

/-!
# Addresses hidden by a rewritten manifest

The grammar of attribute lists says where the addresses of a manifest are. The rewriting finds
them with a search of its own, and hides all of them exactly if both agree on every line.
-/

namespace IptvRelay.Credential

open Marks

/-! ## The grammar of attribute lists -/

/-- Where a reader of a line is. A comment has no attributes. -/
inductive AttributeState where
  | comment
  | tag
  /-- An attribute may begin. -/
  | start
  | item
  | quoted
  deriving DecidableEq, Repr

namespace AttributeState

def step : AttributeState → Char → AttributeState
  | comment, _ => comment
  | tag, c => if c = ':' then start else tag
  | start, c =>
    if Text.isWhitespace c ∨ c = ',' then start else if c = quote then quoted else item
  | item, c => if c = ',' then start else if c = quote then quoted else item
  | quoted, c => if c = quote then item else quoted

def read (state : AttributeState) (text : List Char) : AttributeState := text.foldl step state

def ofLine (line : List Char) : AttributeState :=
  if "#EXT".toList <+: line then tag else comment

end AttributeState

/-- A `URI` attribute with a quoted value. -/
def uriAttribute (state : AttributeState) (text : List Char) : Option (List Char × List Char) :=
  if state = .start ∧ "URI=".toList <+: text then quoted (text.drop 4) else none

theorem uriAttribute_eq {state : AttributeState} {text value rest : List Char}
    (h : uriAttribute state text = some (value, rest)) :
    state = .start ∧ text = "URI=".toList ++ quote :: value ++ quote :: rest := by
  unfold uriAttribute at h
  split_ifs at h with hstart
  obtain ⟨hstate, after, rfl⟩ := hstart
  refine ⟨hstate, ?_⟩
  rw [show ("URI=".toList ++ after).drop 4 = after from rfl] at h
  rw [List.append_assoc, ← quoted_eq h]

/-- The values of `URI` attributes are marked. -/
def attributePieces (state : AttributeState) (text : List Char) : List (Piece Char) :=
  match _ : uriAttribute state text with
  | some (value, rest) =>
    plains ("URI=".toList ++ [quote]) ++ .mark value :: .plain quote ::
      attributePieces .item rest
  | none => match text with
    | [] => []
    | c :: rest => .plain c :: attributePieces (state.step c) rest
  termination_by text.length
  decreasing_by
    · rename_i hattribute
      rw [(uriAttribute_eq hattribute).2]
      simp
      omega
    · simp

/-- A line that is no tag and no comment is an address, unless it is blank. -/
def linePieces (line : List Char) : List (Piece Char) :=
  if line.head? = some '#' then attributePieces (.ofLine line) line
  else if Text.trim line = [] then plains line
  else [.mark line]

/-- The lines of a manifest, each with a line feed. -/
def manifestPieces (manifest : List Char) : List (Piece Char) :=
  (textLines (stripBom manifest)).flatMap fun line => linePieces line ++ [.plain '\n']

/-! ## What the search finds -/

def scanPieces (remaining : List Char) : List (Piece Char) :=
  match _ : findUri remaining with
  | none => plains remaining
  | some (before, after) =>
    match _ : if attributeStart before then quoted after else none with
    | some (uri, rest) =>
      plains (before ++ "URI=".toList ++ [quote]) ++ .mark uri :: .plain quote :: scanPieces rest
    | none => plains (before ++ "URI=".toList) ++ scanPieces after
  termination_by remaining.length
  decreasing_by
    · rename_i hfind hquoted
      split_ifs at hquoted with hstart
      rw [findUri_eq hfind, quoted_eq hquoted]
      simp
      omega
    · rename_i hfind _
      rw [findUri_eq hfind]
      simp
      omega

def scanLine (line : List Char) : List (Piece Char) :=
  if line.head? = some '#' then scanPieces line
  else if Text.trim line = [] then plains line
  else [.mark line]

/-- At every quoted value behind a `URI=` that the search comes to, it begins an address exactly
if the grammar has a `URI` attribute there. -/
def Recognised (state : AttributeState) (remaining : List Char) : Prop :=
  match _ : findUri remaining with
  | none => True
  | some (before, after) =>
    match _ : quoted after with
    | none => Recognised (state.read (before ++ "URI=".toList)) after
    | some (_, rest) =>
      (attributeStart before = true ↔ state.read before = .start) ∧
        if attributeStart before then Recognised .item rest
        else Recognised (state.read (before ++ "URI=".toList)) after
  termination_by remaining.length
  decreasing_by
    · rename_i hfind _
      rw [findUri_eq hfind]
      simp
      omega
    · rename_i hfind _ hquoted _
      rw [findUri_eq hfind, quoted_eq hquoted]
      simp
      omega
    · rename_i hfind _ _ _
      rw [findUri_eq hfind]
      simp
      omega

/-! ## The search and the grammar on one line -/

section Line

variable {state : AttributeState} {text before after value rest : List Char}

theorem read_append (state : AttributeState) (a b : List Char) :
    state.read (a ++ b) = (state.read a).read b := List.foldl_append

theorem attributePieces_mark (h : uriAttribute state text = some (value, rest)) :
    attributePieces state text = plains ("URI=".toList ++ [quote]) ++ .mark value ::
      .plain quote :: attributePieces .item rest := by
  rw [attributePieces]
  split
  · rename_i hfound
    obtain ⟨rfl, rfl⟩ := Prod.mk.inj (Option.some.inj (h.symm.trans hfound))
    rfl
  · rename_i hnone
    rw [h] at hnone
    cases hnone

theorem attributePieces_cons {c : Char} (h : uriAttribute state (c :: rest) = none) :
    attributePieces state (c :: rest) = .plain c :: attributePieces (state.step c) rest := by
  rw [attributePieces]
  split
  · rename_i hfound
    rw [h] at hfound
    cases hfound
  · rfl

theorem uriAttribute_none_of_not_prefixed (state : AttributeState) (h : ¬"URI=".toList <+: text) :
    uriAttribute state text = none := if_neg fun hstart => h hstart.2

/-- Up to the first `URI=` nothing is marked. -/
theorem attributePieces_before (h : findUri text = some (before, after)) :
    attributePieces state text =
      plains before ++ attributePieces (state.read before) ("URI=".toList ++ after) := by
  induction text using findUri.induct generalizing state before with
  | case1 rest =>
    obtain ⟨rfl, rfl⟩ := Prod.mk.inj (Option.some.inj h)
    rfl
  | case2 c rest hother ih =>
    have hprefix : ¬"URI=".toList <+: c :: rest := by
      rintro ⟨tail, htail⟩
      obtain ⟨hc, hrest⟩ := List.cons.inj htail
      exact hother tail hc.symm hrest.symm
    rw [findUri.eq_2 c rest hother] at h
    obtain ⟨⟨before', after'⟩, hrest, hparts⟩ := Option.map_eq_some_iff.mp h
    obtain ⟨rfl, rfl⟩ := Prod.mk.inj hparts
    rw [attributePieces_cons (uriAttribute_none_of_not_prefixed state hprefix), ih hrest]
    rfl
  | case3 => cases h

theorem attributePieces_none (h : findUri text = none) : attributePieces state text = plains text := by
  induction text using findUri.induct generalizing state with
  | case1 rest => cases h
  | case2 c rest hother ih =>
    have hprefix : ¬"URI=".toList <+: c :: rest := by
      rintro ⟨tail, htail⟩
      obtain ⟨hc, hrest⟩ := List.cons.inj htail
      exact hother tail hc.symm hrest.symm
    rw [findUri.eq_2 c rest hother] at h
    rw [attributePieces_cons (uriAttribute_none_of_not_prefixed state hprefix),
      ih (Option.map_eq_none_iff.mp h)]
    rfl
  | case3 =>
    rw [attributePieces]
    split
    · rename_i hfound
      cases (uriAttribute_eq hfound).2
    · rfl

theorem attributePieces_skip (h : uriAttribute state ("URI=".toList ++ after) = none) :
    attributePieces state ("URI=".toList ++ after) =
      plains "URI=".toList ++ attributePieces (state.read "URI=".toList) after := by
  have hskip : ∀ (c : Char) (rest : List Char) (state : AttributeState), c ≠ 'U' →
      attributePieces state (c :: rest) = .plain c :: attributePieces (state.step c) rest := by
    intro c rest state hc
    refine attributePieces_cons (uriAttribute_none_of_not_prefixed state ?_)
    rintro ⟨tail, htail⟩
    exact hc (List.cons.inj htail).1.symm
  have hfirst : attributePieces state ("URI=".toList ++ after) = .plain 'U' ::
      attributePieces (state.step 'U') ('R' :: 'I' :: '=' :: after) := attributePieces_cons h
  rw [hfirst, hskip 'R' _ _ (by decide), hskip 'I' _ _ (by decide), hskip '=' _ _ (by decide)]
  rfl

theorem scanPieces_none (h : findUri text = none) : scanPieces text = plains text := by
  rw [scanPieces]
  split
  · rfl
  · rename_i hfound
    rw [h] at hfound
    cases hfound

theorem scanPieces_mark (hfind : findUri text = some (before, after))
    (hstart : attributeStart before = true) (hquoted : quoted after = some (value, rest)) :
    scanPieces text = plains (before ++ "URI=".toList ++ [quote]) ++ .mark value ::
      .plain quote :: scanPieces rest := by
  rw [scanPieces]
  split
  · rename_i hnone
    rw [hfind] at hnone
    cases hnone
  · rename_i hfound
    obtain ⟨rfl, rfl⟩ := Prod.mk.inj (Option.some.inj (hfind.symm.trans hfound))
    split
    · rename_i hother
      rw [if_pos hstart, hquoted] at hother
      obtain ⟨rfl, rfl⟩ := Prod.mk.inj (Option.some.inj hother)
      rfl
    · rename_i hother
      rw [if_pos hstart, hquoted] at hother
      cases hother

theorem scanPieces_skip (hfind : findUri text = some (before, after))
    (hplain : (if attributeStart before then quoted after else none) = none) :
    scanPieces text = plains (before ++ "URI=".toList) ++ scanPieces after := by
  rw [scanPieces]
  split
  · rename_i hnone
    rw [hfind] at hnone
    cases hnone
  · rename_i hfound
    obtain ⟨rfl, rfl⟩ := Prod.mk.inj (Option.some.inj (hfind.symm.trans hfound))
    split
    · rename_i hother
      rw [hplain] at hother
      cases hother
    · rfl

theorem uriAttribute_at (state : AttributeState) (after : List Char) :
    uriAttribute state ("URI=".toList ++ after) =
      if state = .start then quoted after else none := by
  by_cases hstate : state = .start
  · rw [if_pos hstate]
    exact if_pos ⟨hstate, List.prefix_append _ _⟩
  · rw [if_neg hstate]
    exact if_neg fun hstart => hstate hstart.1

/-- In front of a mark stands its `URI=`. -/
theorem attributePieces_ne_mark {more : List (Piece Char)} :
    attributePieces state text ≠ .mark value :: more := by
  rw [attributePieces]
  split
  · simp [plains]
  · split <;> simp

theorem attributePieces_quote_ne {more : List (Piece Char)} :
    attributePieces state (quote :: text) ≠ .plain quote :: .mark value :: more := by
  have hprefix : ¬"URI=".toList <+: quote :: text := by
    rintro ⟨tail, htail⟩
    exact absurd (List.cons.inj htail).1 (by decide)
  rw [attributePieces_cons (uriAttribute_none_of_not_prefixed state hprefix)]
  exact fun h => attributePieces_ne_mark (List.cons.inj h).2

theorem scanPieces_quote_ne {more : List (Piece Char)} :
    scanPieces (quote :: text) ≠ .plain quote :: .mark value :: more := by
  intro h
  cases hfind : findUri (quote :: text) with
  | none =>
    rw [scanPieces_none hfind] at h
    cases text <;> simp [plains] at h
  | some parts =>
    obtain ⟨before, after⟩ := parts
    obtain ⟨front, rfl⟩ : ∃ front, before = quote :: front := by
      have htext := findUri_eq hfind
      cases before with
      | nil => exact absurd (List.cons.inj htext).1 (by decide)
      | cons c front =>
        obtain ⟨rfl, -⟩ := List.cons.inj htext
        exact ⟨front, rfl⟩
    cases hfound : if attributeStart (quote :: front) then quoted after else none with
    | none =>
      rw [scanPieces_skip hfind hfound] at h
      cases front <;> simp [plains] at h
    | some parts =>
      obtain ⟨uri, rest⟩ := parts
      have hstart : attributeStart (quote :: front) = true := by
        by_contra hstart
        rw [if_neg hstart] at hfound
        cases hfound
      rw [if_pos hstart] at hfound
      rw [scanPieces_mark hfind hstart hfound] at h
      cases front <;> simp [plains] at h

theorem recognised_iff_of_quoted (hfind : findUri text = some (before, after))
    (hquoted : quoted after = some (value, rest)) :
    Recognised state text ↔ (attributeStart before = true ↔ state.read before = .start) ∧
      if attributeStart before then Recognised .item rest
      else Recognised (state.read (before ++ "URI=".toList)) after := by
  rw [Recognised]
  split
  · rename_i hnone
    rw [hfind] at hnone
    cases hnone
  · rename_i hfound
    obtain ⟨rfl, rfl⟩ := Prod.mk.inj (Option.some.inj (hfind.symm.trans hfound))
    split
    · rename_i hnone
      rw [hquoted] at hnone
      cases hnone
    · rename_i hother
      obtain ⟨rfl, rfl⟩ := Prod.mk.inj (Option.some.inj (hquoted.symm.trans hother))
      rfl

theorem recognised_iff_of_unquoted (hfind : findUri text = some (before, after))
    (hquoted : quoted after = none) :
    Recognised state text ↔ Recognised (state.read (before ++ "URI=".toList)) after := by
  rw [Recognised]
  split
  · rename_i hnone
    rw [hfind] at hnone
    cases hnone
  · rename_i hfound
    obtain ⟨rfl, rfl⟩ := Prod.mk.inj (Option.some.inj (hfind.symm.trans hfound))
    split
    · rfl
    · rename_i hother
      rw [hquoted] at hother
      cases hother

theorem recognised_of_none (hfind : findUri text = none) : Recognised state text := by
  rw [Recognised]
  split
  · trivial
  · rename_i hfound
    rw [hfind] at hfound
    cases hfound

/-- The search marks what the grammar marks exactly if the line is recognised. -/
theorem scanPieces_eq_iff (state : AttributeState) (text : List Char) :
    scanPieces text = attributePieces state text ↔ Recognised state text := by
  induction hlength : text.length using Nat.strong_induction_on generalizing state text with
  | _ length ih =>
  cases hfind : findUri text with
  | none =>
    rw [scanPieces_none hfind, attributePieces_none hfind]
    exact ⟨fun _ => recognised_of_none hfind, fun _ => rfl⟩
  | some parts =>
    obtain ⟨before, after⟩ := parts
    have htext := congrArg List.length (findUri_eq hfind)
    simp only [List.length_append, String.length_toList] at htext
    have hafter : after.length < length := by
      have : "URI=".length = 4 := rfl
      omega
    -- Both go on behind `URI=` without a mark.
    have hskip : ∀ hscan : (if attributeStart before then quoted after else none) = none,
        ∀ hgrammar : uriAttribute (state.read before) ("URI=".toList ++ after) = none,
        (scanPieces text = attributePieces state text ↔
          Recognised (state.read (before ++ "URI=".toList)) after) := by
      intro hscan hgrammar
      rw [scanPieces_skip hfind hscan, attributePieces_before hfind, attributePieces_skip hgrammar,
        plains_append, List.append_assoc, List.append_cancel_left_eq, List.append_cancel_left_eq,
        ← read_append]
      exact ih after.length hafter _ _ rfl
    cases hquoted : quoted after with
    | none =>
      rw [recognised_iff_of_unquoted hfind hquoted]
      refine hskip ?_ ?_
      · rw [hquoted, ite_self]
      · rw [uriAttribute_at, hquoted, ite_self]
    | some parts =>
      obtain ⟨value, rest⟩ := parts
      have hvalue := quoted_eq hquoted
      rw [recognised_iff_of_quoted hfind hquoted]
      by_cases hstart : attributeStart before = true
      · rw [if_pos hstart, scanPieces_mark hfind hstart hquoted, attributePieces_before hfind]
        by_cases hgrammar : state.read before = .start
        · have hmark : uriAttribute (state.read before) ("URI=".toList ++ after) =
              some (value, rest) := by rw [uriAttribute_at, if_pos hgrammar, hquoted]
          have hrest : rest.length < length := by
            rw [hvalue] at hafter
            simp at hafter
            omega
          rw [attributePieces_mark hmark, List.append_assoc, plains_append, List.append_assoc,
            List.append_cancel_left_eq, List.append_cancel_left_eq, List.cons_inj_right,
            List.cons_inj_right, ih rest.length hrest .item rest rfl]
          exact ⟨fun h => ⟨⟨fun _ => hgrammar, fun _ => hstart⟩, h⟩, fun h => h.2⟩
        · have hplain : uriAttribute (state.read before) ("URI=".toList ++ after) = none := by
            rw [uriAttribute_at, if_neg hgrammar]
          constructor
          · intro h
            rw [attributePieces_skip hplain, List.append_assoc, plains_append, plains_append,
              List.append_assoc, List.append_assoc, List.append_cancel_left_eq,
              List.append_cancel_left_eq, hvalue] at h
            exact absurd h.symm attributePieces_quote_ne
          · exact fun h => absurd (h.1.mp hstart) hgrammar
      · have hscan : (if attributeStart before then quoted after else none) = none :=
          if_neg hstart
        rw [if_neg hstart]
        by_cases hgrammar : state.read before = .start
        · have hmark : uriAttribute (state.read before) ("URI=".toList ++ after) =
              some (value, rest) := by rw [uriAttribute_at, if_pos hgrammar, hquoted]
          constructor
          · intro h
            rw [scanPieces_skip hfind hscan, attributePieces_before hfind,
              attributePieces_mark hmark, plains_append, plains_append, List.append_assoc,
              List.append_assoc, List.append_cancel_left_eq, List.append_cancel_left_eq,
              hvalue] at h
            exact absurd h scanPieces_quote_ne
          · exact fun h => absurd (h.1.mpr hgrammar) hstart
        · rw [hskip hscan (by rw [uriAttribute_at, if_neg hgrammar])]
          exact ⟨fun h => ⟨⟨fun h => absurd h hstart, fun h => absurd h hgrammar⟩, h⟩,
            fun h => h.2⟩

end Line

/-! ## What a rewriting hides -/

def TokenOp.insertedToken {κ υ : Type} : TokenOp κ υ → Option String
  | .insert token .. => some token
  | .take .. => none

namespace HlsBroker

variable {κ υ : Type} [DecidableEq κ] (broker : HlsBroker κ υ)

def key (token : SessionToken) : κ := broker.digest (String.ofList token.text)

/-- The new tokens of the first calls are new to each other, and to the other requests. -/
structure FreshTokens (calls : Nat → TokenCall κ υ) (count : Nat) : Prop where
  distinct : ∀ i < count, ∀ j < count, i ≠ j →
    broker.key (calls i).token ≠ broker.key (calls j).token
  others : ∀ i < count, ∀ j < count, ∀ op ∈ (calls j).others, ∀ token,
    op.insertedToken = some token → broker.digest token ≠ broker.key (calls i).token

/-- A request with the token of an issue gets the address that the base makes of its text. -/
structure Resolves (base : υ) (tokens : Tokens κ υ) (issue : Issue κ υ) : Prop where
  joined : broker.urls.join base issue.uri = some issue.resource.url
  loopback : ∃ resourceName, issue.address = broker.loopbackUrl issue.token resourceName
  stored : issue.table.get (broker.key issue.token) = some issue.resource
  taken : ∀ now resource, (takeToken tokens now (broker.key issue.token)).2 = some resource →
    resource.url = issue.resource.url

/-- Every address of the manifest is replaced by the address of a token for it, in order, and the
rest of the text is as it was. -/
structure Hides (base : υ) (manifest output : List Char) (after : Rewriting κ υ) : Prop where
  text : output = render (manifestPieces manifest) (after.issued.map Issue.address)
  order : after.issued.map Issue.uri = marks (manifestPieces manifest)
  resolves : ∀ issue ∈ after.issued, broker.Resolves base after.tokens issue

end HlsBroker

/-! ## The table during a rewriting -/

section Table

variable {κ υ : Type} [DecidableEq κ] {broker : HlsBroker κ υ} {calls : Nat → TokenCall κ υ}
  {base : υ} {s t : Rewriting κ υ}

/-- Under a key nothing but the address is stored. -/
def Stands (tokens : Tokens κ υ) (key : κ) (url : υ) : Prop :=
  ∀ resource, (key, resource) ∈ tokens → resource.url = url

theorem stands_insertToken {config : HlsBrokerConfig} {tokens : Tokens κ υ} {key other : κ}
    {url : υ} (h : Stands tokens key url) (hother : other ≠ key) (reads : κ → Time) (now : Time)
    (new : υ) (kind : HlsResourceKind) :
    Stands (insertToken config tokens reads now other new kind).1 key url := by
  obtain ⟨after, stored, hafter⟩ :
      ∃ after stored, insertToken config tokens reads now other new kind = (after, stored) :=
    ⟨_, _, rfl⟩
  intro resource hmem
  rw [hafter] at hmem
  rcases insertToken_cases hafter with ⟨-, -, rfl⟩ | ⟨-, -, rfl⟩
  · exact h resource (List.mem_of_mem_filter hmem)
  · rcases Tokens.mem_put.mp hmem with heq | ⟨hmem, -⟩
    · exact absurd (Prod.mk.inj heq).1.symm hother
    · exact h resource (List.mem_of_mem_filter hmem)

theorem stands_takeToken {tokens : Tokens κ υ} {key : κ} {url : υ} (h : Stands tokens key url)
    (now : Time) (other : κ) : Stands (takeToken tokens now other).1 key url := by
  obtain ⟨after, result, hafter⟩ : ∃ after result, takeToken tokens now other = (after, result) :=
    ⟨_, _, rfl⟩
  intro resource hmem
  rw [hafter] at hmem
  rcases takeToken_cases hafter with ⟨-, rfl | rfl⟩ | ⟨taken, htaken, -, -, -, rfl, -⟩
  · exact h resource hmem
  · exact h resource (List.mem_of_mem_filter hmem)
  · rcases Tokens.mem_put.mp hmem with heq | ⟨hmem, -⟩
    · obtain ⟨rfl, rfl⟩ := Prod.mk.inj heq
      exact h taken htaken
    · exact h resource hmem

theorem stands_others {ops : List (TokenOp κ υ)} {tokens : Tokens κ υ} {key : κ} {url : υ}
    (hops : ∀ op ∈ ops, ∀ token, op.insertedToken = some token → broker.digest token ≠ key)
    (h : Stands tokens key url) : Stands (ops.foldl broker.applyOp tokens) key url := by
  induction ops generalizing tokens with
  | nil => exact h
  | cons op rest ih =>
    refine ih (fun op hop => hops op (List.mem_cons_of_mem _ hop)) ?_
    cases op with
    | insert token new kind reads now =>
      exact stands_insertToken h (hops _ List.mem_cons_self token rfl) reads now new kind
    | take token now => exact stands_takeToken h now _

theorem takeToken_url {tokens : Tokens κ υ} {key : κ} {url : υ} (h : Stands tokens key url)
    {now : Time} {resource : HlsResourceToken υ}
    (htaken : (takeToken tokens now key).2 = some resource) : resource.url = url := by
  obtain ⟨after, result, hafter⟩ : ∃ after result, takeToken tokens now key = (after, result) :=
    ⟨_, _, rfl⟩
  rw [hafter] at htaken
  rcases takeToken_cases hafter with ⟨rfl, -⟩ | ⟨found, hfound, -, -, rfl, -⟩
  · cases htaken
  · obtain rfl := Option.some.inj htaken
    exact h found hfound

/-- The issues of a rewriting so far, each with the token of its call. -/
structure RewritingOk (broker : HlsBroker κ υ) (calls : Nat → TokenCall κ υ) (base : υ)
    (s : Rewriting κ υ) : Prop where
  token : ∀ i issue, s.issued[i]? = some issue → issue.token = (calls i).token
  joined : ∀ issue ∈ s.issued, broker.urls.join base issue.uri = some issue.resource.url
  loopback : ∀ issue ∈ s.issued, ∃ resourceName, 'h' ∉ resourceName.toList ∧
    issue.address = broker.loopbackUrl issue.token resourceName
  stored : ∀ issue ∈ s.issued, issue.table.get (broker.key issue.token) = some issue.resource
  stands : ∀ issue ∈ s.issued, Stands s.tokens (broker.key issue.token) issue.resource.url

theorem hlsResourceName_plain (rawUri : List Char) : 'h' ∉ (hlsResourceName rawUri).toList := by
  unfold hlsResourceName
  dsimp only
  split
  · decide
  · split_ifs <;> decide

theorem resolveHlsUri_join {urls : UrlEnv υ} {value : List Char} {maxUriBytes : Nat} {url : υ}
    (h : resolveHlsUri urls base value maxUriBytes = some url) : urls.join base value = some url := by
  obtain ⟨-, h⟩ := Checked.of_guard h
  obtain ⟨joined, hjoined, h⟩ := Option.bind_eq_some_iff.mp h
  obtain ⟨-, h⟩ := Checked.of_guard h
  rwa [← Option.some.inj h]

theorem Tokens.get_put (tokens : Tokens κ υ) (key : κ) (resource : HlsResourceToken υ) :
    (tokens.put key resource).get key = some resource := by simp [put, get]

/-- What a call with the token of the environment may add to a rewriting. -/
structure Adds (broker : HlsBroker κ υ) (call : TokenCall κ υ) (base : υ) (tokens : Tokens κ υ)
    (issue : Issue κ υ) : Prop where
  token : issue.token = call.token
  joined : broker.urls.join base issue.uri = some issue.resource.url
  loopback : ∃ resourceName, 'h' ∉ resourceName.toList ∧
    issue.address = broker.loopbackUrl issue.token resourceName
  table : issue.table = Tokens.put
    ((call.others.foldl broker.applyOp tokens).filter (isAlive call.reads))
    (broker.key issue.token) issue.resource

/-- One call adds its issue. -/
theorem rewriteUrl_adds {kind : HlsResourceKind} {uri address : List Char}
    (h : broker.rewriteUrl calls base kind s uri = some (address, t)) :
    ∃ issue, t = { tokens := issue.table, issued := s.issued ++ [issue] } ∧ issue.uri = uri ∧
      issue.address = address ∧ Adds broker (calls s.issued.length) base s.tokens issue := by
  unfold HlsBroker.rewriteUrl at h
  obtain ⟨url, hurl, h⟩ := Option.bind_eq_some_iff.mp h
  dsimp only at h
  generalize (if kind = .manifest ∨ isManifestUrl broker.urls url then
    HlsResourceKind.manifest else .binary) = found at h
  generalize hpair : insertToken broker.config
    ((calls s.issued.length).others.foldl broker.applyOp s.tokens) (calls s.issued.length).reads
    (calls s.issued.length).now
    (broker.digest (String.ofList (calls s.issued.length).token.text)) url found = pair at h
  obtain ⟨table, stored⟩ := pair
  obtain ⟨hstored, h⟩ := Checked.of_guard h
  obtain rfl : stored = true := hstored
  obtain ⟨rfl, rfl⟩ := Prod.mk.inj (Option.some.inj h)
  rcases insertToken_cases hpair with ⟨hfailed, -⟩ | ⟨-, -, htable⟩
  · cases hfailed
  refine ⟨⟨uri, (calls s.issued.length).token, _, ⟨url, found, _, _⟩, table⟩, rfl, rfl, rfl, ?_⟩
  refine ⟨rfl, resolveHlsUri_join hurl, ⟨_, ?_, rfl⟩, htable⟩
  cases found with
  | manifest =>
    show 'h' ∉ "manifest.m3u8".toList
    decide
  | binary => exact hlsResourceName_plain uri

theorem stands_adds {call : TokenCall κ υ} {tokens : Tokens κ υ} {issue : Issue κ υ} {key : κ}
    {url : υ} (hadds : Adds broker call base tokens issue) (hkey : broker.key issue.token ≠ key)
    (hops : ∀ op ∈ call.others, ∀ token, op.insertedToken = some token →
      broker.digest token ≠ key)
    (h : Stands tokens key url) : Stands issue.table key url := by
  intro resource hmem
  rw [hadds.table] at hmem
  rcases Tokens.mem_put.mp hmem with heq | ⟨hmem, -⟩
  · exact absurd (Prod.mk.inj heq).1.symm hkey
  · exact stands_others hops h resource (List.mem_of_mem_filter hmem)

theorem rewritingOk_step {count : Nat} (hfresh : broker.FreshTokens calls count)
    {issue : Issue κ υ} (hcount : s.issued.length < count)
    (hadds : Adds broker (calls s.issued.length) base s.tokens issue)
    (hok : RewritingOk broker calls base s) :
    RewritingOk broker calls base { tokens := issue.table, issued := s.issued ++ [issue] } := by
  have hlast : ∀ {p : Issue κ υ → Prop}, (∀ other ∈ s.issued, p other) → p issue →
      ∀ other ∈ s.issued ++ [issue], p other := by
    intro p hall hissue other hother
    rcases List.mem_append.mp hother with hother | hother
    · exact hall other hother
    · rwa [List.mem_singleton.mp hother]
  refine ⟨?_, hlast hok.joined hadds.joined, hlast hok.loopback hadds.loopback,
    hlast hok.stored ?_, hlast ?_ ?_⟩
  · intro i other hother
    rcases Nat.lt_or_ge i s.issued.length with hlt | hge
    · exact hok.token i other (by rwa [List.getElem?_append_left hlt] at hother)
    · rw [List.getElem?_append_right hge] at hother
      obtain ⟨hi, rfl⟩ := List.getElem?_eq_some_iff.mp hother
      have hi : i = s.issued.length := by simp at hi; omega
      simpa [hi] using hadds.token
  · rw [hadds.table, Tokens.get_put]
  · intro other hother
    obtain ⟨i, hi⟩ := List.getElem?_of_mem hother
    have hlt : i < s.issued.length := (List.getElem?_eq_some_iff.mp hi).1
    have hold := hok.token i other hi
    refine stands_adds hadds ?_ ?_ (hok.stands other hother)
    · rw [hadds.token, hold]
      exact hfresh.distinct _ hcount i (by omega) (by omega)
    · rw [hold]
      exact hfresh.others i (by omega) s.issued.length hcount
  · intro resource hmem
    rw [hadds.table] at hmem
    rcases Tokens.mem_put.mp hmem with heq | ⟨-, hne⟩
    · rw [(Prod.mk.inj heq).2]
    · exact absurd rfl hne

end Table

/-! ## The text of a rewriting -/

section Text

variable {κ υ : Type} [DecidableEq κ] {broker : HlsBroker κ υ} {calls : Nat → TokenCall κ υ}
  {base : υ} {count : Nat} {s t u : Rewriting κ υ} {p q : List (Piece Char)} {a b : List Char}

/-- From one state to the other the marks of a text are issued, and the text is what comes out. -/
structure Wrote (broker : HlsBroker κ υ) (calls : Nat → TokenCall κ υ) (base : υ) (count : Nat)
    (s t : Rewriting κ υ) (p : List (Piece Char)) (a : List Char) : Prop where
  ok : t.issued.length ≤ count → RewritingOk broker calls base s → RewritingOk broker calls base t
  issued : ∃ new : List (Issue κ υ), t.issued = s.issued ++ new ∧ new.map Issue.uri = marks p ∧
    a = render p (new.map Issue.address)

theorem wrote_plains (s : Rewriting κ υ) (a : List Char) :
    Wrote broker calls base count s s (plains a) a :=
  ⟨fun _ => id, [], by simp⟩

theorem wrote_append (h : Wrote broker calls base count s t p a) (h' : Wrote broker calls base count t u q b) :
    Wrote broker calls base count s u (p ++ q) (a ++ b) := by
  obtain ⟨hok, new, hnew, huris, htext⟩ := h
  obtain ⟨hok', later, hlater, huris', htext'⟩ := h'
  refine ⟨fun hcount => ?_, new ++ later, ?_, ?_, ?_⟩
  · rw [hlater, List.length_append] at hcount
    exact hok' (by rw [hlater, List.length_append]; exact hcount) ∘ hok (by omega)
  · rw [hlater, hnew, List.append_assoc]
  · rw [List.map_append, huris, huris', marks_append]
  · rw [List.map_append, render_append (by rw [← huris]; simp), htext, htext']

theorem wrote_mark (hfresh : broker.FreshTokens calls count) {uri address : List Char}
    (h : broker.rewriteUrl calls base .binary s uri = some (address, t)) :
    Wrote broker calls base count s t [.mark uri] address := by
  obtain ⟨issue, rfl, huri, haddress, hadds⟩ := rewriteUrl_adds h
  refine ⟨fun hcount => ?_, [issue], rfl, ?_, ?_⟩
  · rw [List.length_append] at hcount
    exact rewritingOk_step hfresh hcount hadds
  · simp [huri, marks]
  · simp [haddress, render]

theorem wrote_attributes (hfresh : broker.FreshTokens calls count) {output remaining text : List Char}
    (h : rewriteHlsAttributes (broker.rewriteUrl calls base .binary) s output remaining =
      some (text, t)) :
    ∃ added, text = output ++ added ∧
      Wrote broker calls base count s t (scanPieces remaining) added := by
  induction hlength : remaining.length using Nat.strong_induction_on
    generalizing s output remaining with
  | _ length ih =>
  rw [rewriteHlsAttributes] at h
  split at h
  · rename_i hfind
    obtain ⟨rfl, rfl⟩ := Prod.mk.inj (Option.some.inj h)
    rw [scanPieces_none hfind]
    exact ⟨remaining, rfl, wrote_plains _ _⟩
  · rename_i before after hfind
    have hremaining := congrArg List.length (findUri_eq hfind)
    have hname : "URI=".toList.length = 4 := rfl
    simp only [List.length_append, hname] at hremaining
    split_ifs at h with hstart
    · split at h
      · cases h
      · rename_i uri rest hquoted
        obtain ⟨⟨url, next⟩, hurl, h⟩ := Option.bind_eq_some_iff.mp h
        have hrest := congrArg List.length (quoted_eq hquoted)
        simp only [List.length_append, List.length_cons] at hrest
        obtain ⟨added, htext, hwrote⟩ := ih rest.length (by omega) h rfl
        have hvalue := wrote_append (wrote_mark hfresh hurl)
          (wrote_append (wrote_plains next [quote]) hwrote)
        rw [scanPieces_mark hfind hstart hquoted]
        refine ⟨_, ?_, wrote_append (wrote_plains s _) hvalue⟩
        rw [htext]
        simp
    · obtain ⟨added, htext, hwrote⟩ := ih after.length (by omega) h rfl
      rw [scanPieces_skip hfind (if_neg hstart)]
      refine ⟨_, ?_, wrote_append (wrote_plains s _) hwrote⟩
      rw [htext]
      simp

theorem wrote_line (hfresh : broker.FreshTokens calls count) {maxUriBytes : Nat} {line text : List Char}
    (h : rewriteLine (broker.rewriteUrl calls base .binary) maxUriBytes s line = some (text, t)) :
    Wrote broker calls base count s t (scanLine line) text := by
  unfold rewriteLine at h
  obtain ⟨-, h⟩ := Checked.of_guard h
  unfold scanLine
  split_ifs at h ⊢ with hhash hblank
  · obtain ⟨added, rfl, hwrote⟩ := wrote_attributes hfresh h
    exact hwrote
  · obtain ⟨rfl, rfl⟩ := Prod.mk.inj (Option.some.inj h)
    exact wrote_plains _ _
  · obtain ⟨-, h⟩ := Checked.of_guard h
    exact wrote_mark hfresh h

theorem wrote_lines (hfresh : broker.FreshTokens calls count) {maxUriBytes : Nat}
    {lines : List (List Char)} {rewritten text : List Char}
    (h : rewriteLines (broker.rewriteUrl calls base .binary) maxUriBytes s rewritten lines =
      some (text, t)) :
    ∃ added, text = rewritten ++ added ∧ Wrote broker calls base count s t
      (lines.flatMap fun line => scanLine line ++ [.plain '\n']) added := by
  induction lines generalizing s rewritten with
  | nil =>
    obtain ⟨rfl, rfl⟩ := Prod.mk.inj (Option.some.inj h)
    exact ⟨[], by simp, wrote_plains _ []⟩
  | cons line rest ih =>
    obtain ⟨⟨first, next⟩, hfirst, h⟩ := Option.bind_eq_some_iff.mp h
    obtain ⟨added, htext, hwrote⟩ := ih h
    have hline := wrote_append (wrote_line hfresh hfirst) (wrote_plains next ['\n'])
    refine ⟨_, ?_, wrote_append hline hwrote⟩
    rw [htext]
    simp

/-- The search, over a whole manifest. -/
def scanManifest (manifest : List Char) : List (Piece Char) :=
  (textLines (stripBom manifest)).flatMap fun line => scanLine line ++ [.plain '\n']

theorem wrote_manifest (hfresh : broker.FreshTokens calls count) {tokens : Tokens κ υ}
    {body : List UInt8} {manifest : String} {output : List Char}
    (hbody : String.fromUTF8? ⟨body.toArray⟩ = some manifest)
    (h : broker.rewriteHlsManifest calls tokens base body = some (output, t)) :
    Wrote broker calls base count { tokens } t (scanManifest manifest.toList) output := by
  unfold HlsBroker.rewriteHlsManifest rewriteManifest at h
  obtain ⟨-, h⟩ := Checked.of_guard h
  rw [hbody] at h
  obtain ⟨hfirst, h⟩ := Checked.of_guard h
  obtain ⟨rest, hlines⟩ := List.head?_eq_some_iff.mp hfirst
  rw [hlines, List.tail_cons] at h
  obtain ⟨added, rfl, hwrote⟩ := wrote_lines hfresh h
  have hheader : scanLine "#EXTM3U".toList ++ [.plain '\n'] = plains "#EXTM3U\n".toList := by
    decide +kernel
  rw [scanManifest, hlines, List.flatMap_cons, hheader]
  exact wrote_append (wrote_plains _ _) hwrote

/-! ## Marks of whole manifests -/

theorem source_scanPieces (text : List Char) : source (scanPieces text) = text := by
  induction hlength : text.length using Nat.strong_induction_on generalizing text with
  | _ length ih =>
  cases hfind : findUri text with
  | none => rw [scanPieces_none hfind, source_plains]
  | some parts =>
    obtain ⟨before, after⟩ := parts
    have htext := findUri_eq hfind
    have hshort := congrArg List.length htext
    have hname : "URI=".toList.length = 4 := rfl
    simp only [List.length_append, hname] at hshort
    cases hfound : if attributeStart before then quoted after else none with
    | none =>
      rw [scanPieces_skip hfind hfound, source_append, source_plains,
        ih after.length (by omega) after rfl, ← htext]
    | some parts =>
      obtain ⟨uri, rest⟩ := parts
      split_ifs at hfound with hstart
      have hafter := quoted_eq hfound
      have hrest := congrArg List.length hafter
      simp only [List.length_append, List.length_cons] at hrest
      rw [scanPieces_mark hfind hstart hfound, source_append, source_plains, source, source,
        ih rest.length (by omega) rest rfl, htext, hafter]
      simp

theorem source_attributePieces (state : AttributeState) (text : List Char) :
    source (attributePieces state text) = text := by
  induction hlength : text.length using Nat.strong_induction_on generalizing state text with
  | _ length ih =>
  cases hattribute : uriAttribute state text with
  | some parts =>
    obtain ⟨value, rest⟩ := parts
    have htext := (uriAttribute_eq hattribute).2
    have hshort := congrArg List.length htext
    simp only [List.length_append, List.length_cons] at hshort
    rw [attributePieces_mark hattribute, source_append, source_plains, source, source,
      ih rest.length (by omega) .item rest rfl, htext]
    simp
  | none =>
    cases text with
    | nil => rw [attributePieces_none rfl, source_plains]
    | cons c rest =>
      rw [attributePieces_cons hattribute, source,
        ih rest.length (by simp at hlength; omega) _ rest rfl]

theorem source_scanLine (line : List Char) : source (scanLine line) = line := by
  unfold scanLine
  split_ifs
  · exact source_scanPieces line
  · exact source_plains line
  · simp [source]

theorem source_linePieces (line : List Char) : source (linePieces line) = line := by
  unfold linePieces
  split_ifs
  · exact source_attributePieces _ line
  · exact source_plains line
  · simp [source]

/-- Without the mark at its front, and with a line feed behind every line. -/
def normalized (manifest : List Char) : List Char :=
  (textLines (stripBom manifest)).flatMap fun line => line ++ ['\n']

theorem source_lines {f : List Char → List (Piece Char)} (hf : ∀ line, source (f line) = line)
    (lines : List (List Char)) :
    source (lines.flatMap fun line => f line ++ [.plain '\n']) =
      lines.flatMap fun line => line ++ ['\n'] := by
  induction lines with
  | nil => rfl
  | cons line rest ih =>
    rw [List.flatMap_cons, List.flatMap_cons, source_append, source_append, hf, ih]
    rfl

theorem linesFrom_noFeed {line text : List Char} (h : '\n' ∉ line) :
    ∀ found ∈ linesFrom line text, '\n' ∉ found := by
  induction text generalizing line with
  | nil =>
    intro found hfound
    unfold linesFrom at hfound
    split_ifs at hfound with hnil
    · cases hfound
    · rwa [List.mem_singleton.mp hfound]
  | cons c rest ih =>
    intro found hfound
    unfold linesFrom at hfound
    split_ifs at hfound with hc hreturn
    · rcases List.mem_cons.mp hfound with rfl | hfound
      · exact fun hmem => h (List.mem_of_mem_dropLast hmem)
      · exact ih (by simp) found hfound
    · rcases List.mem_cons.mp hfound with rfl | hfound
      · exact h
      · exact ih (by simp) found hfound
    · refine ih ?_ found hfound
      intro hmem
      rcases List.mem_append.mp hmem with hmem | hmem
      · exact h hmem
      · exact hc (List.mem_singleton.mp hmem).symm

/-- Line feeds separate the marks of the lines. -/
theorem eq_of_lines {f g : List Char → List (Piece Char)} (hf : ∀ line, source (f line) = line)
    (hg : ∀ line, source (g line) = line) {lines : List (List Char)}
    (hlines : ∀ line ∈ lines, '\n' ∉ line)
    (h : (lines.flatMap fun line => f line ++ [.plain '\n']) =
      lines.flatMap fun line => g line ++ [.plain '\n']) :
    ∀ line ∈ lines, f line = g line := by
  induction lines with
  | nil => simp
  | cons line rest ih =>
    obtain ⟨hline, hrest⟩ := List.forall_mem_cons.mp hlines
    have hnone : ∀ {p : List (Piece Char)}, source p = line → .plain '\n' ∉ p :=
      fun hsource hmem => hline (hsource ▸ mem_source hmem)
    rw [List.flatMap_cons, List.flatMap_cons, List.append_assoc, List.append_assoc] at h
    obtain ⟨hfirst, hlater⟩ := eq_of_separated (hnone (hf line)) (hnone (hg line)) h
    exact List.forall_mem_cons.mpr ⟨hfirst, ih hrest hlater⟩

end Text

/-! ## New tokens in a text -/

section Apart

variable {κ υ : Type} {a b : List Char}

/-- Every `h` is followed by an `l`. -/
def Calm (text : List Char) : Prop := ∀ rest, 'h' :: rest <:+ text → rest.head? = some 'l'

theorem calm_append (h : 'h' ∉ a) (hb : Calm b) : Calm (a ++ b) := by
  induction a with
  | nil => exact hb
  | cons c a ih =>
    intro rest hrest
    rcases List.suffix_cons_iff.mp hrest with heq | hrest
    · exact absurd (List.cons.inj heq).1 (List.ne_of_not_mem_cons h)
    · exact ih (List.not_mem_of_not_mem_cons h) rest hrest

theorem calm_host (h : Calm ('l' :: a)) : Calm ('h' :: 'l' :: a) := by
  intro rest hrest
  rcases List.suffix_cons_iff.mp hrest with heq | hrest
  · rw [(List.cons.inj heq).2]
    rfl
  · exact h rest hrest

theorem calm_of_notMem (h : 'h' ∉ a) : Calm a := fun _ hrest =>
  absurd (hrest.mem List.mem_cons_self) h

theorem port_plain (port : Nat) : 'h' ∉ (Nat.repr port).toList := by
  intro hmem
  rw [Nat.toList_repr] at hmem
  exact absurd (Nat.isDigit_of_mem_toDigits (by decide) (by decide) hmem) (by decide)

theorem token_plain (token : SessionToken) : 'h' ∉ token.text := fun hmem =>
  absurd (token.hex 'h' hmem) (by decide)

theorem loopbackUrl_eq (broker : HlsBroker κ υ) (token : SessionToken) (resourceName : String) :
    broker.loopbackUrl token resourceName = 'h' :: 't' :: ("tp://127.0.0.1:".toList ++
      ((Nat.repr broker.port).toList ++ '/' :: 'h' :: 'l' :: 's' :: '/' ::
        (token.text ++ '/' :: resourceName.toList))) := by
  have hscheme : "http://127.0.0.1:".toList = 'h' :: 't' :: "tp://127.0.0.1:".toList := by
    decide +kernel
  have hpath : "/hls".toList = ['/', 'h', 'l', 's'] := by decide +kernel
  have hassoc : ∀ scheme port token name : List Char,
      'h' :: 't' :: scheme ++ port ++ ['/', 'h', 'l', 's'] ++ '/' :: token ++ '/' :: name =
        'h' :: 't' :: (scheme ++ (port ++ '/' :: 'h' :: 'l' :: 's' :: '/' ::
          (token ++ '/' :: name))) := by simp
  have hurl : broker.loopbackUrl token resourceName = "http://127.0.0.1:".toList ++
      (Nat.repr broker.port).toList ++ "/hls".toList ++ '/' :: token.text ++
      '/' :: resourceName.toList := rfl
  rw [hurl, hscheme, hpath]
  exact hassoc _ _ _ _

theorem selfApart_loopbackUrl (broker : HlsBroker κ υ) (token : SessionToken) {resourceName : String}
    (hname : 'h' ∉ resourceName.toList) : SelfApart (broker.loopbackUrl token resourceName) := by
  obtain ⟨tail, hurl, hcalm⟩ : ∃ tail, broker.loopbackUrl token resourceName = 'h' :: 't' :: tail ∧
      Calm ('t' :: tail) := by
    have hresource : 'h' ∉ 'l' :: 's' :: '/' :: (token.text ++ '/' :: resourceName.toList) := by
      simp [token_plain token, hname]
    have hpath := calm_append (a := ['/']) (by decide) (calm_host (calm_of_notMem hresource))
    have hport := calm_append (port_plain broker.port) hpath
    have hscheme : 'h' ∉ 't' :: "tp://127.0.0.1:".toList := by decide +kernel
    exact ⟨_, loopbackUrl_eq broker token resourceName, calm_append hscheme hport⟩
  rw [hurl]
  intro n x y hpos hlength heq
  obtain ⟨m, rfl⟩ : ∃ m, n = m + 1 := ⟨n - 1, by omega⟩
  rw [List.drop_succ_cons] at heq
  cases hdrop : ('t' :: tail).drop m with
  | nil =>
    have := List.drop_eq_nil_iff.mp hdrop
    simp only [List.length_cons] at this hlength
    omega
  | cons c rest =>
    rw [hdrop] at heq
    obtain ⟨rfl, hrest⟩ := List.cons.inj heq
    have hnext := hcalm rest (hdrop ▸ List.drop_suffix m _)
    obtain ⟨more, rfl⟩ := List.head?_eq_some_iff.mp hnext
    exact absurd (List.cons.inj hrest).1 (by decide)

end Apart

/-! ## Hidden addresses -/

section Hidden

variable {κ υ : Type} [DecidableEq κ]

/-- A rewritten manifest hides every address, and changes nothing else, exactly if the search and
the grammar agree on each of its tags and comments. -/
theorem manifest_hides_iff (broker : HlsBroker κ υ) (calls : Nat → TokenCall κ υ)
    (tokens : Tokens κ υ) (base : υ) (body : List UInt8) (manifest : String) (output : List Char)
    (after : Rewriting κ υ) (hbody : String.fromUTF8? ⟨body.toArray⟩ = some manifest)
    (hfresh : broker.FreshTokens calls after.issued.length)
    (hunseen : ∀ i < after.issued.length, ¬(calls i).token.text <:+: normalized manifest.toList)
    (h : broker.rewriteHlsManifest calls tokens base body = some (output, after)) :
    broker.Hides base manifest.toList output after ↔
      ∀ line ∈ textLines (stripBom manifest.toList), line.head? = some '#' →
        Recognised (.ofLine line) line := by
  obtain ⟨hok, new, hnew, huris, htext⟩ := wrote_manifest hfresh hbody h
  have hok := hok (Nat.le_refl _) ⟨by simp, by simp, by simp, by simp, by simp⟩
  rw [List.nil_append] at hnew
  obtain rfl := hnew
  have hfeeds : ∀ line ∈ textLines (stripBom manifest.toList), '\n' ∉ line :=
    linesFrom_noFeed (by simp)
  -- Both ways to mark the manifest are the same if they are so on every tag and comment.
  have hpieces : scanManifest manifest.toList = manifestPieces manifest.toList ↔
      ∀ line ∈ textLines (stripBom manifest.toList), line.head? = some '#' →
        Recognised (.ofLine line) line := by
    constructor
    · intro heq line hline hhash
      have hsame := eq_of_lines source_scanLine source_linePieces hfeeds heq line hline
      rw [scanLine, linePieces, if_pos hhash, if_pos hhash] at hsame
      exact (scanPieces_eq_iff _ _).mp hsame
    · intro hall
      refine List.flatMap_congr fun line hline => ?_
      congr 1
      rw [scanLine, linePieces]
      split_ifs with hhash
      · exact (scanPieces_eq_iff _ _).mpr (hall line hline hhash)
      · rfl
      · rfl
  rw [← hpieces]
  constructor
  · rintro ⟨hrender, horder, -⟩
    have hnormal : source (scanManifest manifest.toList) = normalized manifest.toList :=
      source_lines source_scanLine _
    refine @eq_of_render _ _ _ (after.issued.map Issue.address) ?_ (huris.symm.trans horder) ?_ ?_
      ?_ (htext.symm.trans hrender)
    · rw [hnormal]
      exact (source_lines source_linePieces _).symm
    · rw [← huris]
      simp
    · intro address haddress
      obtain ⟨issue, hissue, rfl⟩ := List.mem_map.mp haddress
      obtain ⟨resourceName, hname, hurl⟩ := hok.loopback issue hissue
      rw [hurl]
      exact selfApart_loopbackUrl broker issue.token hname
    · intro address haddress hinfix
      obtain ⟨issue, hissue, rfl⟩ := List.mem_map.mp haddress
      obtain ⟨resourceName, -, hurl⟩ := hok.loopback issue hissue
      obtain ⟨i, hi⟩ := List.getElem?_of_mem hissue
      refine hunseen i (List.getElem?_eq_some_iff.mp hi).1 ?_
      rw [← hok.token i issue hi]
      rw [hnormal, hurl] at hinfix
      refine List.IsInfix.trans ?_ hinfix
      exact ⟨broker.baseUrl ++ ['/'], '/' :: resourceName.toList, by simp [HlsBroker.loopbackUrl]⟩
  · intro heq
    rw [heq] at huris htext
    refine ⟨htext, huris, fun issue hissue => ⟨hok.joined issue hissue, ?_, hok.stored issue hissue,
      fun now resource htaken => takeToken_url (hok.stands issue hissue) htaken⟩⟩
    obtain ⟨resourceName, -, hurl⟩ := hok.loopback issue hissue
    exact ⟨resourceName, hurl⟩

end Hidden

/-! ## Attributes behind a space -/

theorem rewriteManifest_encode {σ : Type} (rewriteUrl : σ → List Char → Option (List Char × σ))
    (config : HlsBrokerConfig) (s : σ) (text : List Char) :
    rewriteManifest rewriteUrl config s (Utf8.encode text) = (do
      guard ((Utf8.encode text).length ≤ config.maxResponseBytes)
      guard ((textLines (stripBom text)).head? = some "#EXTM3U".toList)
      rewriteLines rewriteUrl config.maxUriBytes s "#EXTM3U\n".toList
        (textLines (stripBom text)).tail) := by
  rw [rewriteManifest, Utf8.fromUTF8_encode, Option.bind_eq_bind, Option.bind_eq_bind,
    Option.bind_some, String.toList_ofList]

/-- Addresses that a base ending in a slash makes. -/
def plainUrls : UrlEnv (List Char) :=
  { join := fun base value => some (if "http://".toList <+: value then value else base ++ value)
    scheme := fun _ => "http"
    hasFragment := fun url => decide ('#' ∈ url)
    path := fun url => (url.drop 7).dropWhile fun c => c ≠ '/' }

theorem small_tokens_pos : 0 < 8 := by decide

def smallBroker : HlsBroker String (List Char) :=
  { config :=
      { tokenTtl := 60, maxRequestsPerToken := 4, maxResponseBytes := 1000, maxUriBytes := 200
        maxTokens := 8, maxTokens_pos := small_tokens_pos }
    port := 4000
    digest := id
    urls := plainUrls }

def repeated (c : Char) (h : c ∈ "0123456789abcdef".toList) : SessionToken :=
  { text := List.replicate 96 c
    hex := fun d hd => by rwa [(List.mem_replicate.mp hd).2]
    length := List.length_replicate }

/-- The second call comes behind a request for another resource. -/
def twoCalls (i : Nat) : TokenCall String (List Char) :=
  { others := if i = 0 then [] else [.take "other" 3]
    token := if i = 0 then repeated '0' (by decide) else repeated '1' (by decide)
    reads := fun _ => i
    now := i }

def liveBase : List Char := "http://cdn/live/".toList

def directManifest : String :=
  "#EXTM3U\r\n#EXT-X-KEY:METHOD=AES-128,URI=\"http://cdn/key?user=u\"\n#EXTINF:4,\nsegment.ts\n"

theorem directManifest_hidden :
    ∃ output after, smallBroker.rewriteHlsManifest twoCalls [] liveBase
        directManifest.toUTF8.toList = some (output, after) ∧
      smallBroker.Hides liveBase directManifest.toList output after := by
  have hbytes := Utf8.toList_toUTF8 directManifest
  have heval : (smallBroker.rewriteHlsManifest twoCalls [] liveBase
      directManifest.toUTF8.toList).any (fun result => decide (result.2.issued.length = 2)) =
      true := by
    rw [hbytes, HlsBroker.rewriteHlsManifest, rewriteManifest_encode, directManifest,
      String.toList_ofList, String.toList_ofList, String.toList_ofList]
    decide +kernel
  obtain ⟨⟨output, after⟩, hrun, hcount⟩ := (Option.any_eq_true _ _).mp heval
  have hcount : after.issued.length = 2 := of_decide_eq_true hcount
  have hbody : String.fromUTF8? ⟨directManifest.toUTF8.toList.toArray⟩ = some directManifest := by
    rw [hbytes, Utf8.fromUTF8_encode, String.ofList_toList]
  refine ⟨output, after, hrun, (manifest_hides_iff smallBroker twoCalls [] liveBase _ _ output after
    hbody ?_ ?_ hrun).mpr ?_⟩
  · rw [hcount]
    refine ⟨by decide +kernel, fun i hi j hj op hop token htoken => ?_⟩
    simp only [twoCalls] at hop
    split_ifs at hop
    · cases hop
    · rw [List.mem_singleton.mp hop] at htoken
      cases htoken
  · rw [hcount, directManifest, String.toList_ofList]
    decide +kernel
  · have hpieces : ∀ line ∈ textLines (stripBom directManifest.toList), line.head? = some '#' →
        scanPieces line = attributePieces (.ofLine line) line := by
      rw [directManifest, String.toList_ofList]
      decide +kernel
    exact fun line hline hhash => (scanPieces_eq_iff _ _).mp (hpieces line hline hhash)

/-- The address of the key stays where it is. -/
def spacedManifest : String :=
  "#EXTM3U\n#EXT-X-KEY:METHOD=AES-128, URI=\"http://cdn/key?user=u\"\n"

theorem spaced_address_leaks :
    ∃ output after, smallBroker.rewriteHlsManifest twoCalls [] liveBase
        spacedManifest.toUTF8.toList = some (output, after) ∧
      output = spacedManifest.toList ∧
      ¬smallBroker.Hides liveBase spacedManifest.toList output after := by
  have heval : (smallBroker.rewriteHlsManifest twoCalls [] liveBase
      spacedManifest.toUTF8.toList).any (fun result =>
        decide (result.1 = spacedManifest.toList ∧ result.2.issued.length = 0)) = true := by
    rw [Utf8.toList_toUTF8, HlsBroker.rewriteHlsManifest, rewriteManifest_encode, spacedManifest,
      String.toList_ofList, String.toList_ofList, String.toList_ofList]
    decide +kernel
  have hmarks : (marks (manifestPieces spacedManifest.toList)).length = 1 := by
    rw [spacedManifest, String.toList_ofList]
    decide +kernel
  obtain ⟨⟨output, after⟩, hrun, hresult⟩ := (Option.any_eq_true _ _).mp heval
  obtain ⟨houtput, hcount⟩ := of_decide_eq_true hresult
  refine ⟨output, after, hrun, houtput, fun hhides => ?_⟩
  have horder := congrArg List.length hhides.order
  rw [List.length_map, hcount, hmarks] at horder
  cases horder

end IptvRelay.Credential
