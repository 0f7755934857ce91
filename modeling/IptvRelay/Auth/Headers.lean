import IptvRelay.Lib.Text

/-!
# Request headers

Model of the header readers of `api/src/auth.rs`. A header map is the list of its lines in
order; names are in lower case and values are bytes.
-/

namespace IptvRelay.Auth

open Text

abbrev HeaderMap := List (String × List UInt8)

namespace HeaderMap

/-- `HeaderMap::get_all`. -/
def getAll (headers : HeaderMap) (name : String) : List (List UInt8) :=
  (headers.filter fun line => line.1 = name).map Prod.snd

/-- `HeaderMap::get`: the first value. -/
def get (headers : HeaderMap) (name : String) : Option (List UInt8) := (headers.getAll name).head?

end HeaderMap

/-- `HeaderValue::to_str`: a value of visible ASCII characters and tabs. -/
def toStr (value : List UInt8) : Option String :=
  if value.all fun b => (32 ≤ b ∧ b < 127) ∨ b = 9 then
    some (String.ofList (value.map fun b => Char.ofNat b.toNat))
  else none

def sessionCookie : String := "iptv_session"
def csrfCookie : String := "iptv_csrf"
def csrfHeader : String := "x-csrf-token"

/-- The token of an `Authorization: Bearer` header. -/
def bearerToken (headers : HeaderMap) : Option String := do
  let value ← headers.get "authorization"
  let text ← toStr value
  let start := "Bearer ".toList
  if text.toList.take start.length = start then
    some (String.ofList (text.toList.drop start.length))
  else none

/-- The value of the first cookie with that name, in all `Cookie` headers. -/
def cookie (headers : HeaderMap) (name : String) : Option String :=
  let values := (headers.getAll "cookie").filterMap toStr
  let pairs := values.flatMap fun value => value.toList.splitOn ';'
  (pairs.filterMap fun pair => splitOnce '=' (trim pair)).findSome? fun pair =>
    if pair.1 = name.toList then some (String.ofList pair.2) else none

/-- `CSRF_HEADER` as text. -/
def csrfHeaderText (headers : HeaderMap) : Option String := (headers.get csrfHeader).bind toStr

end IptvRelay.Auth
