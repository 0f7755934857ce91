import IptvRelay.Auth.Handlers
import IptvRelay.Auth.Oidc
import IptvRelay.Lib.Machine
import IptvRelay.Output.Text

/-!
# Operator API tokens

Model of the handlers of `api/src/lib.rs` that create, rotate and revoke operator API tokens, of
`initialize_auth`, and of the statements on `operator_api_tokens` and `audit_events` in
`persistence/src/lib.rs`, for a server with a database. A handler runs up to its next statement, and
other calls run between. A transaction is one step, since it holds the row that it revokes. The
column `last_used_at` is never written.
-/

namespace IptvRelay.Auth

open Transition

/-! ## Tables -/

structure OperatorApiTokenRow (κ : Type) where
  id : Nat
  name : String
  tokenHash : κ
  scopes : List String
  expiresAt : Option Time
  revokedAt : Option Time := none
  createdBy : String
  createdAt : Time
  deriving DecidableEq, Repr

/-- The entry of a row in the table of the manager. -/
def OperatorApiTokenRow.toRecord {κ : Type} (row : OperatorApiTokenRow κ) :
    OperatorTokenRecord κ where
  id := row.id
  tokenHash := row.tokenHash
  scopes := row.scopes
  expiresAt := row.expiresAt

/-- Actions and details of the audit events. -/
inductive TokenAction where
  | create (name : String) (scopes : List String) (expiresAt : Option Time)
  | rotate (newTokenId : Nat) (name : String) (scopes : List String) (expiresAt : Option Time)
  | revoke
  deriving DecidableEq, Repr

structure TokenAudit where
  actor : String
  action : TokenAction
  resourceId : Nat
  deriving DecidableEq, Repr

structure TokenTables (κ : Type) where
  rows : List (OperatorApiTokenRow κ) := []
  audit : List TokenAudit := []

/-- The values of a row that is to be inserted. -/
structure TokenInput where
  id : Nat
  name : String
  scopes : List String
  expiresAt : Option Time
  actor : String
  deriving DecidableEq, Repr

/-- A row that has not been revoked. -/
def OperatorApiTokenRow.isActive {κ : Type} (id : Nat) (row : OperatorApiTokenRow κ) : Bool :=
  row.id = id ∧ row.revokedAt = none

namespace TokenTables

variable {κ : Type} [DecidableEq κ] (tables : TokenTables κ) (now : Time)

/-- The insert with the constraints of the table. -/
def insertRow (input : TokenInput) (tokenHash : κ) :
    Option (TokenTables κ × OperatorApiTokenRow κ) :=
  if (∃ row ∈ tables.rows, row.id = input.id ∨ row.tokenHash = tokenHash) ∨ input.scopes = [] then
    none
  else
    let row : OperatorApiTokenRow κ := {
      id := input.id
      name := input.name
      tokenHash
      scopes := input.scopes
      expiresAt := input.expiresAt
      createdBy := input.actor
      createdAt := now }
    some ({ tables with rows := tables.rows ++ [row] }, row)

omit [DecidableEq κ] in
def insertAudit (actor : String) (action : TokenAction) (resourceId : Nat) : TokenTables κ :=
  { tables with audit := tables.audit ++ [{ actor, action, resourceId }] }

/-- `None` where a statement fails. -/
def createOperatorApiToken (input : TokenInput) (tokenHash : κ) :
    Option (TokenTables κ × OperatorApiTokenRow κ) := do
  let (tables, row) ← tables.insertRow now input tokenHash
  return (tables.insertAudit input.actor (.create input.name input.scopes input.expiresAt) input.id,
    row)

omit [DecidableEq κ] in
def revokeRow (id : Nat) : TokenTables κ :=
  { tables with
    rows := Table.update (OperatorApiTokenRow.isActive id)
      (fun row => { row with revokedAt := some now }) tables.rows }

/-- The replacement is `none` where no active token has the identifier. -/
def rotateOperatorApiToken (oldId : Nat) (input : TokenInput) (tokenHash : κ) :
    Option (TokenTables κ × Option (OperatorApiTokenRow κ)) :=
  if tables.rows.any (OperatorApiTokenRow.isActive oldId) then do
    let (tables, row) ← (tables.revokeRow now oldId).insertRow now input tokenHash
    return (tables.insertAudit input.actor
      (.rotate input.id input.name input.scopes input.expiresAt) oldId, some row)
  else some (tables, none)

omit [DecidableEq κ] in
def revokeOperatorApiToken (id : Nat) (actor : String) : TokenTables κ × Bool :=
  if tables.rows.any (OperatorApiTokenRow.isActive id) then
    ((tables.revokeRow now id).insertAudit actor .revoke id, true)
  else (tables, false)

omit [DecidableEq κ] in
/-- What `initialize_auth` loads. -/
def activeRecords : List (OperatorTokenRecord κ) :=
  (tables.rows.filter fun row => row.revokedAt = none).map OperatorApiTokenRow.toRecord

end TokenTables

/-! ## Requests -/

structure CreateOperatorApiTokenRequest where
  name : String
  scopes : List String
  expiresAt : Option Time
  deriving DecidableEq, Repr

structure RotateOperatorApiTokenRequest where
  name : Option String
  scopes : Option (List String)
  expiresAt : Option (Option Time)
  deriving DecidableEq, Repr

def operatorTokenScopes : List String := [readScope, controlScope, outputScope, adminScope]

/-- The scopes in their first order, without repetition. -/
def normalizeTokenScopes (normalized : List String) : List String → Except String (List String)
  | [] => .ok normalized
  | scope :: rest =>
    let scope := String.ofList (Text.asciiLowercase (Text.trim scope.toList))
    if scope ∉ operatorTokenScopes then
      .error "scopes must contain only read, control, output, or admin"
    else
      normalizeTokenScopes (if scope ∈ normalized then normalized else normalized ++ [scope]) rest

def validateOperatorTokenInput (name : String) (scopes : List String) :
    Except String (String × List String) := do
  let name := trimmed name
  if name = "" ∨ 128 < name.utf8ByteSize ∨ containsControl name then
    throw "name must contain 1-128 non-control characters"
  let normalized ← normalizeTokenScopes [] scopes
  if normalized = [] then throw "at least one scope is required"
  return (name, normalized)

def invalidOperatorTokenDetail (detail : String) : Response :=
  problem 400 "invalid-operator-api-token" "Invalid operator API token" detail

def invalidOperatorTokenRequest : Response :=
  invalidOperatorTokenDetail
    "send a JSON request that matches the documented operator token schema"

def operatorTokenNotFound : Response :=
  problem 404 "operator-api-token-not-found" "Operator API token not found"
    "no active operator API token with that ID exists"

/-- An issued token is shown with its plaintext. -/
inductive TokenAnswer (κ : Type) where
  | response (response : Response)
  | issued (status : Nat) (metadata : OperatorApiTokenRow κ) (token : String)
  deriving DecidableEq, Repr

namespace AuthInner

variable {κ : Type} [DecidableEq κ] (digest : String → κ) (auth : AuthInner κ)

def sessionUser (now : Time) (headers : HeaderMap) : Option SessionUser := do
  let token ← cookie headers sessionCookie
  let session ← auth.sessions.lookup (digest token)
  if now < session.expiresAt then some session.user else none

def operatorTokenActor (now : Time) (headers : HeaderMap) : String :=
  match (bearerToken headers).bind fun token => auth.operatorTokens.lookup (digest token) with
  | some record =>
    "operator-api-token:" ++ String.ofList (Output.uuidText (BitVec.ofNat 128 record.id))
  | none => ((auth.sessionUser digest now headers).map SessionUser.username).getD adminUsername

end AuthInner

/-! ## Handlers -/

/-- A handler between two of its steps. A new token is in the table of the database before the
manager learns of it, and so is a revocation. -/
inductive TokenCall (κ : Type) where
  | creating (input : TokenInput) (plaintext : String)
  | reading (headers : HeaderMap) (tokenId : Nat) (request : RotateOperatorApiTokenRequest)
  | rotating (tokenId : Nat) (input : TokenInput) (plaintext : String)
  | revoking (tokenId : Nat) (actor : String)
  | forgetting (tokenId : Nat) (issued : Option (OperatorTokenRecord κ)) (answer : TokenAnswer κ)
  | remembering (issued : OperatorTokenRecord κ) (answer : TokenAnswer κ)
  | answered (answer : TokenAnswer κ)
  | dropped
  deriving DecidableEq

/-- What a step of a handler gets from outside: the clocks, random bytes and a new identifier. -/
structure Draw where
  databaseNow : Time
  now : Time
  random : Option String
  id : Nat

structure TokenService (κ : Type) where
  state : AppState κ
  tables : TokenTables κ := {}
  calls : List (TokenCall κ) := []
  utcNow : Time := 0

section Steps

variable {κ : Type} [DecidableEq κ] (digest : String → κ)

/-- `create_operator_api_token` up to its statement. -/
def createCall (state : AppState κ) (now : Time) (headers : HeaderMap)
    (request : Option CreateOperatorApiTokenRequest) (random : Option String) (id : Nat) :
    TokenCall κ :=
  match request with
  | none => .answered (.response invalidOperatorTokenRequest)
  | some request =>
    match validateOperatorTokenInput request.name request.scopes with
    | .error detail => .answered (.response (invalidOperatorTokenDetail detail))
    | .ok (name, scopes) =>
      match random with
      | none => .answered (.response persistenceUnavailable)
      | some plaintext =>
        let actor := state.auth.operatorTokenActor digest now headers
        .creating { id, name, scopes, expiresAt := request.expiresAt, actor } plaintext

/-- `rotate_operator_api_token` up to its first statement. -/
def rotateCall (headers : HeaderMap) (tokenId : Nat)
    (request : Option RotateOperatorApiTokenRequest) : TokenCall κ :=
  match request with
  | none => .answered (.response invalidOperatorTokenRequest)
  | some request => .reading headers tokenId request

/-- The same handler from the rows that it has read to its transaction. -/
def readCall (state : AppState κ) (tables : TokenTables κ) (draw : Draw) (headers : HeaderMap)
    (tokenId : Nat) (request : RotateOperatorApiTokenRequest) : TokenCall κ :=
  match tables.rows.find? (OperatorApiTokenRow.isActive tokenId) with
  | none => .answered (.response operatorTokenNotFound)
  | some existing =>
    match validateOperatorTokenInput (request.name.getD existing.name)
        (request.scopes.getD existing.scopes) with
    | .error detail => .answered (.response (invalidOperatorTokenDetail detail))
    | .ok (name, scopes) =>
      match draw.random with
      | none => .answered (.response persistenceUnavailable)
      | some plaintext =>
        .rotating tokenId {
          id := draw.id
          name
          scopes
          expiresAt := request.expiresAt.getD existing.expiresAt
          actor := state.auth.operatorTokenActor digest draw.now headers } plaintext

/-- The manager after a call on it. -/
def TokenService.withAuth (s : TokenService κ) (auth : AuthInner κ) : TokenService κ :=
  { s with state := { s.state with auth } }

/-- The next step of a handler: the place behind it, and the service without the new place. -/
def TokenService.advance (s : TokenService κ) (draw : Draw) :
    TokenCall κ → Option (TokenCall κ × TokenService κ)
  | .creating input plaintext =>
    match s.tables.createOperatorApiToken draw.databaseNow input (digest plaintext) with
    | none => some (.answered (.response persistenceUnavailable), s)
    | some (tables, row) =>
      some (.remembering row.toRecord (.issued 201 row plaintext), { s with tables })
  | .reading headers tokenId request =>
    some (readCall digest s.state s.tables draw headers tokenId request, s)
  | .rotating tokenId input plaintext =>
    match s.tables.rotateOperatorApiToken draw.databaseNow tokenId input (digest plaintext) with
    | none => some (.answered (.response persistenceUnavailable), s)
    | some (_, none) => some (.answered (.response operatorTokenNotFound), s)
    | some (tables, some row) =>
      some (.forgetting tokenId (some row.toRecord) (.issued 200 row plaintext), { s with tables })
  | .revoking tokenId actor =>
    match s.tables.revokeOperatorApiToken draw.databaseNow tokenId actor with
    | (_, false) => some (.answered (.response operatorTokenNotFound), s)
    | (tables, true) => some (.forgetting tokenId none (.response .noContent), { s with tables })
  | .forgetting tokenId issued answer =>
    some ((issued.map fun record => .remembering record answer).getD (.answered answer),
      s.withAuth (s.state.auth.revokeOperatorToken tokenId))
  | .remembering record answer =>
    some (.answered answer, s.withAuth (s.state.auth.addOperatorToken record))
  | .answered _ | .dropped => none

end Steps

/-! ## Runs -/

inductive TokenOp (κ : Type) where
  | create (clock later : Clock) (headers : HeaderMap)
      (request : Option CreateOperatorApiTokenRequest) (random : Option String) (id : Nat)
  | rotate (clock later : Clock) (headers : HeaderMap) (tokenId : Nat)
      (request : Option RotateOperatorApiTokenRequest)
  | revoke (clock later : Clock) (headers : HeaderMap) (tokenId : Nat)
  | advance (i : Nat) (draw : Draw)
  | drop (i : Nat)
  | authorize (clock : Clock) (headers : HeaderMap) (requireCsrf : Bool)
      (requiredScope : Option String)
  | change (state : AppState κ)
  | restart (state : AppState κ)

section Machine

variable {κ : Type} [DecidableEq κ] (digest : String → κ)

/-- A handler begins with its guard. -/
def TokenService.begin (s : TokenService κ) (clock later : Clock) (headers : HeaderMap)
    (call : AppState κ → TokenCall κ) : TokenService κ :=
  let (state, refused) := s.state.requireScope digest clock later headers adminScope true
  { s with
    state
    calls := s.calls ++
      [(refused.map fun response => .answered (.response response)).getD (call state)]
    utcNow := later.utcNow }

/-- A handler is dropped with its connection, or a statement or its answer fails. Other calls and
handlers change anything but the tokens. A restart begins with a new manager. -/
def TokenService.step (s : TokenService κ) : TokenOp κ → Option (TokenService κ)
  | .create clock later headers request random id =>
    some (s.begin digest clock later headers fun state =>
      createCall digest state clock.now headers request random id)
  | .rotate clock later headers tokenId request =>
    some (s.begin digest clock later headers fun _ => rotateCall headers tokenId request)
  | .revoke clock later headers tokenId =>
    some (s.begin digest clock later headers fun state =>
      .revoking tokenId (state.auth.operatorTokenActor digest clock.now headers))
  | .advance i draw => do
    let call ← s.calls[i]?
    let (next, t) ← s.advance digest draw call
    return { t with calls := s.calls.set i next }
  | .drop i => some { s with calls := s.calls.set i .dropped }
  | .authorize clock headers requireCsrf requiredScope =>
    some { s.withAuth (s.state.auth.authorizeWithScope digest clock.now clock.utcNow headers
        requireCsrf requiredScope).1 with
      utcNow := clock.utcNow }
  | .change state =>
    some { s with
      state := { state with
        auth := { state.auth with operatorTokens := s.state.auth.operatorTokens } } }
  | .restart state =>
    some { s with
      state := { state with auth := state.auth.loadOperatorTokens s.tables.activeRecords }
      calls := [] }

/-- From empty tables. -/
def tokenMachine (state : AppState κ) : Machine (TokenService κ) (TokenOp κ) where
  start := { state := { state with auth := state.auth.loadOperatorTokens [] } }
  step := TokenService.step digest

end Machine

/-! ## Orderly runs -/

namespace TokenCall

variable {κ : Type}

/-- The token that a handler is about to revoke in the database. -/
def ends : TokenCall κ → Option Nat
  | rotating tokenId _ _ | revoking tokenId _ => some tokenId
  | _ => none

/-- The token that the manager is still to learn of. -/
def issued : TokenCall κ → Option (OperatorTokenRecord κ)
  | forgetting _ issued _ => issued
  | remembering issued _ => some issued
  | _ => none

/-- The token that the manager is still to forget. -/
def forgets : TokenCall κ → Option Nat
  | forgetting tokenId _ _ => some tokenId
  | _ => none

/-- The token that the manager learns of with the next steps. -/
def adds (call : TokenCall κ) : Option Nat := call.issued.map OperatorTokenRecord.id

end TokenCall

section Orderly

variable {κ : Type}

/-- The wall clock does not go back, no token is revoked before the manager has learned of it, and
no handler is lost between the database and the manager. -/
def Orderly (s : TokenService κ) : TokenOp κ → Prop
  | .create clock later _ _ _ _ => s.utcNow ≤ clock.utcNow ∧ clock.utcNow ≤ later.utcNow
  | .rotate clock later _ _ _ => s.utcNow ≤ clock.utcNow ∧ clock.utcNow ≤ later.utcNow
  | .revoke clock later _ _ => s.utcNow ≤ clock.utcNow ∧ clock.utcNow ≤ later.utcNow
  | .advance i _ => ∀ call ∈ s.calls[i]?, ∀ id ∈ call.ends, ∀ other ∈ s.calls, other.adds ≠ some id
  | .drop i => ∀ call ∈ s.calls[i]?, call.adds = none ∧ call.forgets = none
  | .authorize clock _ _ _ => s.utcNow ≤ clock.utcNow
  | .change _ | .restart _ => True

instance (s : TokenService κ) : (op : TokenOp κ) → Decidable (Orderly s op)
  | .create clock later _ _ _ _ | .rotate clock later _ _ _ | .revoke clock later _ _ =>
    inferInstanceAs (Decidable (s.utcNow ≤ clock.utcNow ∧ clock.utcNow ≤ later.utcNow))
  | .advance i _ => inferInstanceAs (Decidable
      (∀ call ∈ s.calls[i]?, ∀ id ∈ call.ends, ∀ other ∈ s.calls, other.adds ≠ some id))
  | .drop i => inferInstanceAs (Decidable
      (∀ call ∈ s.calls[i]?, call.adds = none ∧ call.forgets = none))
  | .authorize clock _ _ _ => inferInstanceAs (Decidable (s.utcNow ≤ clock.utcNow))
  | .change _ | .restart _ => inferInstanceAs (Decidable True)

end Orderly

end IptvRelay.Auth
