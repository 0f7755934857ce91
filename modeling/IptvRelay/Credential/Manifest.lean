import Mathlib.Data.List.Infix
import IptvRelay.Credential.Tokens
import IptvRelay.Lib.Text

/-!
# Rewriting of HLS manifests

Model of `rewrite_hls_manifest` and what it calls in `media/src/credential_broker.rs`. The
addresses of `reqwest` are a parameter. Other requests use the table of tokens between two
insertions of a rewriting; what they do there, the new tokens and the clock come from the
environment. A failed rewriting has no result, as its error says nothing.
-/

namespace IptvRelay.Credential

/-- The quotation mark. -/
def quote : Char := Char.ofNat 34

/-- Methods of `reqwest::Url`. -/
structure UrlEnv (υ : Type) where
  join : υ → List Char → Option υ
  scheme : υ → String
  hasFragment : υ → Bool
  path : υ → List Char

def byteLength (text : List Char) : Nat := (String.ofList text).utf8ByteSize

/-! ## Addresses of resources -/

section Addresses

variable {υ : Type} (urls : UrlEnv υ)

def containsTraversal (value : List Char) : Bool :=
  let lower := Text.asciiLowercase value
  decide ("%2e".toList <:+: lower) || decide ("%2f".toList <:+: lower) ||
    decide ("%5c".toList <:+: lower) ||
    (value.splitOnP fun c => c = '/' ∨ c = '\\').any fun segment =>
      String.ofList (Text.asciiLowercase segment) ∈ ["..", "%2e%2e", ".%2e", "%2e."]

def validateHlsUrl (url : υ) : Bool :=
  urls.scheme url ∈ ["http", "https"] ∧ urls.hasFragment url = false

def resolveHlsUri (base : υ) (value : List Char) (maxUriBytes : Nat) : Option υ := do
  guard (value ≠ [] ∧ byteLength value ≤ maxUriBytes ∧ '\x00' ∉ value ∧
    ¬"//".toList <+: value ∧ containsTraversal value = false)
  let url ← urls.join base value
  guard (validateHlsUrl urls url = true)
  return url

/-- `Path::extension`: of the last component, behind the last dot that does not begin it. -/
def pathExtension (path : List Char) : Option (List Char) :=
  let components := (path.splitOn '/').filter fun part => part ≠ [] ∧ part ≠ ['.']
  match components.getLast? with
  | none => none
  | some name =>
    let extension := (name.reverse.takeWhile fun c => c ≠ '.').reverse
    if name = ['.', '.'] ∨ name.length ≤ extension.length + 1 then none else some extension

def isManifestUrl (url : υ) : Bool :=
  (pathExtension (urls.path url)).any fun extension =>
    String.ofList (Text.asciiLowercase extension) ∈ ["m3u8", "m3u"]

def hlsResourceName (rawUri : List Char) : String :=
  let path := rawUri.takeWhile fun c => c ≠ '?' ∧ c ≠ '#'
  let extension := (pathExtension path).filter fun extension =>
    extension ≠ [] ∧ byteLength extension ≤ 16 ∧ extension.all Char.isAlphanum
  match extension with
  | none => "resource.bin"
  | some extension =>
    if extension = "ts".toList then "resource.ts"
    else if extension = "m4s".toList then "resource.m4s"
    else if extension = "mp4".toList then "resource.mp4"
    else if extension = "key".toList then "resource.key"
    else "resource.bin"

end Addresses

/-! ## The text of a manifest -/

section Text

/-- `str::lines`, behind the characters of a line that has begun. -/
def linesFrom (line : List Char) : List Char → List (List Char)
  | [] => if line = [] then [] else [line]
  | c :: rest =>
    if c = '\n' then
      (if line.getLast? = some '\r' then line.dropLast else line) :: linesFrom [] rest
    else linesFrom (line ++ [c]) rest

def textLines (text : List Char) : List (List Char) := linesFrom [] text

def stripBom (text : List Char) : List Char :=
  if text.head? = some (Char.ofNat 0xFEFF) then text.tail else text

/-- The text before and behind the first `URI=`. -/
def findUri : List Char → Option (List Char × List Char)
  | 'U' :: 'R' :: 'I' :: '=' :: after => some ([], after)
  | c :: rest => (findUri rest).map fun parts => (c :: parts.1, parts.2)
  | [] => none

/-- The value in quotation marks at the front of a text, and what follows it. -/
def quoted (text : List Char) : Option (List Char × List Char) :=
  if text.head? = some quote then Text.splitOnce quote text.tail else none

/-- `URI=` begins an attribute. -/
def attributeStart (before : List Char) : Bool :=
  before.isEmpty || before.getLast? = some ',' || before.getLast? = some ':'

theorem findUri_eq {text before after : List Char} (h : findUri text = some (before, after)) :
    text = before ++ "URI=".toList ++ after := by
  induction text using findUri.induct generalizing before with
  | case1 rest =>
    obtain ⟨rfl, rfl⟩ := Prod.mk.inj (Option.some.inj h)
    rfl
  | case2 c rest hother ih =>
    rw [findUri.eq_2 c rest hother] at h
    obtain ⟨⟨before', after'⟩, hrest, hparts⟩ := Option.map_eq_some_iff.mp h
    obtain ⟨rfl, rfl⟩ := Prod.mk.inj hparts
    rw [ih hrest]
    rfl
  | case3 => cases h

theorem splitOnce_eq {separator : Char} {text before after : List Char}
    (h : Text.splitOnce separator text = some (before, after)) :
    text = before ++ separator :: after := by
  induction text generalizing before with
  | nil => cases h
  | cons c rest ih =>
    rw [Text.splitOnce] at h
    split_ifs at h with hc
    · obtain ⟨rfl, rfl⟩ := Prod.mk.inj (Option.some.inj h)
      rw [hc]
      rfl
    · obtain ⟨⟨before', after'⟩, hrest, hparts⟩ := Option.map_eq_some_iff.mp h
      obtain ⟨rfl, rfl⟩ := Prod.mk.inj hparts
      rw [ih hrest]
      rfl

theorem quoted_eq {text value rest : List Char} (h : quoted text = some (value, rest)) :
    text = quote :: value ++ quote :: rest := by
  unfold quoted at h
  split_ifs at h with hhead
  obtain ⟨tail, rfl⟩ := List.head?_eq_some_iff.mp hhead
  rw [List.cons_append, ← splitOnce_eq h]
  rfl

end Text

/-! ## Rewriting, for any way to rewrite an address -/

section Rewrite

variable {σ : Type} (rewriteUrl : σ → List Char → Option (List Char × σ))

/-- `rewrite_hls_attributes`, behind what it has written. -/
def rewriteHlsAttributes (s : σ) (output remaining : List Char) : Option (List Char × σ) :=
  match _ : findUri remaining with
  | none => some (output ++ remaining, s)
  | some (before, after) =>
    if attributeStart before then
      match _ : quoted after with
      | none => none
      | some (uri, rest) => do
        let (url, s) ← rewriteUrl s uri
        rewriteHlsAttributes s (output ++ before ++ "URI=".toList ++ quote :: url ++ [quote]) rest
    else rewriteHlsAttributes s (output ++ before ++ "URI=".toList) after
  termination_by remaining.length
  decreasing_by
    · rename_i hfind _ hquoted
      rw [findUri_eq hfind, quoted_eq hquoted]
      simp
      omega
    · rename_i hfind _
      rw [findUri_eq hfind]
      simp
      omega

/-- One line behind the first. -/
def rewriteLine (maxUriBytes : Nat) (s : σ) (line : List Char) : Option (List Char × σ) := do
  guard (byteLength line ≤ maxUriBytes ∧ '\x00' ∉ line)
  if line.head? = some '#' then rewriteHlsAttributes rewriteUrl s [] line
  else if Text.trim line = [] then return (line, s)
  else
    guard (Text.trim line = line)
    rewriteUrl s line

def rewriteLines (maxUriBytes : Nat) (s : σ) (rewritten : List Char) :
    List (List Char) → Option (List Char × σ)
  | [] => some (rewritten, s)
  | line :: rest => do
    let (text, s) ← rewriteLine rewriteUrl maxUriBytes s line
    rewriteLines maxUriBytes s (rewritten ++ text ++ ['\n']) rest

def rewriteManifest (config : HlsBrokerConfig) (s : σ) (body : List UInt8) :
    Option (List Char × σ) := do
  guard (body.length ≤ config.maxResponseBytes)
  let manifest ← String.fromUTF8? ⟨body.toArray⟩
  let lines := textLines (stripBom manifest.toList)
  guard (lines.head? = some "#EXTM3U".toList)
  rewriteLines rewriteUrl config.maxUriBytes s "#EXTM3U\n".toList lines.tail

end Rewrite

/-! ## The broker -/

structure HlsBroker (κ υ : Type) where
  config : HlsBrokerConfig
  port : Nat
  digest : String → κ
  urls : UrlEnv υ

/-- `new_session_token`: the digits of three random numbers. -/
structure SessionToken where
  text : List Char
  hex : ∀ c ∈ text, c ∈ "0123456789abcdef".toList
  length : text.length = 96

/-- One insertion: what other requests did before it, the new token and the clock. -/
structure TokenCall (κ υ : Type) where
  others : List (TokenOp κ υ)
  token : SessionToken
  reads : κ → Time
  now : Time

/-- What one call of `rewrite_url` has done, and the table that it has left. -/
structure Issue (κ υ : Type) where
  uri : List Char
  token : SessionToken
  address : List Char
  resource : HlsResourceToken υ
  table : Tokens κ υ

structure Rewriting (κ υ : Type) where
  tokens : Tokens κ υ
  issued : List (Issue κ υ) := []

namespace HlsBroker

variable {κ υ : Type} [DecidableEq κ] (broker : HlsBroker κ υ)

def baseUrl : List Char := "http://127.0.0.1:".toList ++ (Nat.repr broker.port).toList ++ "/hls".toList

def applyOp (tokens : Tokens κ υ) : TokenOp κ υ → Tokens κ υ
  | .insert token url kind reads now =>
    (insertToken broker.config tokens reads now (broker.digest token) url kind).1
  | .take token now => (takeToken tokens now (broker.digest token)).1

def loopbackUrl (token : SessionToken) (resourceName : String) : List Char :=
  broker.baseUrl ++ '/' :: token.text ++ '/' :: resourceName.toList

def rewriteUrl (calls : Nat → TokenCall κ υ) (base : υ) (kind : HlsResourceKind)
    (s : Rewriting κ υ) (rawUri : List Char) : Option (List Char × Rewriting κ υ) := do
  let url ← resolveHlsUri broker.urls base rawUri broker.config.maxUriBytes
  let kind := if kind = .manifest ∨ isManifestUrl broker.urls url then .manifest else .binary
  let call := calls s.issued.length
  let found := call.others.foldl broker.applyOp s.tokens
  let key := broker.digest (String.ofList call.token.text)
  let (table, stored) := insertToken broker.config found call.reads call.now key url kind
  guard (stored = true)
  let resourceName := match kind with
    | .manifest => "manifest.m3u8"
    | .binary => hlsResourceName rawUri
  let address := broker.loopbackUrl call.token resourceName
  let resource : HlsResourceToken υ :=
    { url
      kind
      expiresAt := call.now + broker.config.tokenTtl
      remainingRequests := broker.config.maxRequestsPerToken }
  let issue : Issue κ υ := { uri := rawUri, token := call.token, address, resource, table }
  return (address, { tokens := table, issued := s.issued ++ [issue] })

def rewriteHlsManifest (calls : Nat → TokenCall κ υ) (tokens : Tokens κ υ) (base : υ)
    (body : List UInt8) : Option (List Char × Rewriting κ υ) :=
  rewriteManifest (broker.rewriteUrl calls base .binary) broker.config { tokens } body

end HlsBroker

end IptvRelay.Credential
