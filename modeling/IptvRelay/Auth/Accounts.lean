import IptvRelay.Auth.AuthManager
import IptvRelay.Lib.Table

/-!
# Stored accounts

Model of the table `users` and of its statements in `persistence/src/catalog.rs`, and of
`stored_user_credential` in `api/src/lib.rs`. Identifiers are UUIDs in their text form. The
columns with times are left out.
-/

namespace IptvRelay.Auth

abbrev Uuid := String

structure UserRow where
  id : Uuid
  username : String
  displayName : String
  passwordHash : String
  role : String
  enabled : Bool := true
  deriving DecidableEq, Repr

def roles : List String := ["admin", "operator", "viewer"]

/-- The table with its constraints: the primary key, the unique name and the check of the role. -/
structure Users where
  rows : List UserRow
  ids : (rows.map UserRow.id).Nodup
  usernames : (rows.map UserRow.username).Nodup
  checked : ∀ row ∈ rows, row.role ∈ roles

structure CreateUserInput where
  username : String
  displayName : String
  passwordHash : String
  role : String
  deriving DecidableEq, Repr

structure UpdateUserInput where
  displayName : Option String
  passwordHash : Option String
  role : Option String
  enabled : Option Bool
  deriving DecidableEq, Repr

/-- The columns that a `COALESCE` keeps or replaces. -/
def UserRow.update (input : UpdateUserInput) (row : UserRow) : UserRow :=
  { row with
    displayName := input.displayName.getD row.displayName
    passwordHash := input.passwordHash.getD row.passwordHash
    role := input.role.getD row.role
    enabled := input.enabled.getD row.enabled }

namespace Users

def empty : Users where
  rows := []
  ids := List.nodup_nil
  usernames := List.nodup_nil
  checked := by simp

/-- `create_user`: `none` stands for a violated constraint. -/
def create (users : Users) (id : Uuid) (input : CreateUserInput) : Option (Users × UserRow) :=
  let row : UserRow := {
    id
    username := input.username
    displayName := input.displayName
    passwordHash := input.passwordHash
    role := input.role }
  if h : (id ∉ users.rows.map UserRow.id ∧ input.username ∉ users.rows.map UserRow.username) ∧
      input.role ∈ roles then
    some (
      { rows := users.rows ++ [row]
        ids := by
          rw [List.map_append]
          exact users.ids.append (List.nodup_singleton _) (by simpa using h.1.1)
        usernames := by
          rw [List.map_append]
          exact users.usernames.append (List.nodup_singleton _) (by simpa using h.1.2)
        checked := by
          intro other hother
          rcases List.mem_append.mp hother with hother | hother
          · exact users.checked other hother
          · rw [List.mem_singleton.mp hother]
            exact h.2 },
      row)
  else none

/-- `update_user`: the table and the row; `none` stands for a role that fails the check. -/
def update (users : Users) (id : Uuid) (input : UpdateUserInput) :
    Option (Users × Option UserRow) :=
  if h : ∀ role ∈ input.role, role ∈ roles then
    some (
      { rows := Table.update (fun row => row.id = id) (UserRow.update input) users.rows
        ids := Table.nodup_update (fun _ _ => rfl) users.ids
        usernames := Table.nodup_update (fun _ _ => rfl) users.usernames
        checked := by
          intro row hrow
          rcases Table.update_cases hrow with ⟨hold, -⟩ | ⟨old, hold, -, rfl⟩
          · exact users.checked row hold
          · cases hrole : input.role with
            | none => simpa [UserRow.update, hrole] using users.checked old hold
            | some role => simpa [UserRow.update, hrole] using h role hrole },
      (users.rows.find? fun row => row.id = id).map (UserRow.update input))
  else none

/-- `delete_user`: the table, and whether there was a row. -/
def delete (users : Users) (id : Uuid) : Users × Bool :=
  ({ rows := Table.delete (fun row => row.id = id) users.rows
     ids := Table.nodup_delete users.ids
     usernames := Table.nodup_delete users.usernames
     checked := fun row hrow => users.checked row (Table.mem_delete.mp hrow).1 },
    users.rows.any fun row => row.id = id)

/-- `get_user_by_username`. -/
def byUsername (users : Users) (username : String) : Option UserRow :=
  users.rows.find? fun row => row.username = username

/-- `get_user_password_hash`. -/
def passwordHash (users : Users) (username : String) : Option (Uuid × String) :=
  (users.rows.find? fun row => row.username = username ∧ row.enabled).map fun row =>
    (row.id, row.passwordHash)

/-! ## The credentials of a sign-in

`stored_user_credential` reads the account and its password hash in two statements. -/

/-- The account of a sign-in and the scopes of its role, before the password hash is read. -/
def findAccount (users : Users) (username : String) : Option (UserRow × List String) :=
  if username = adminUsername ∨ username.utf8ByteSize = 0 ∨ 128 < username.utf8ByteSize then none
  else do
    let row ← users.byUsername username
    let scopes ← (roleScopes row.role).filter fun _ => row.enabled
    return (row, scopes)

/-- The credentials, if the password hash still belongs to the account. -/
def findCredential (users : Users) (row : UserRow) (scopes : List String) :
    Option StoredUserCredential := do
  let (id, passwordHash) ← users.passwordHash row.username
  if id ≠ row.id then none
  else
    return {
      user := {
        id := row.id
        username := row.username
        displayName := row.displayName
        scopes }
      passwordHash }

/-! ## What the statements do -/

variable {users after : Users} {id : Uuid}

theorem rows_create {input : CreateUserInput} {row : UserRow}
    (h : users.create id input = some (after, row)) :
    after.rows = users.rows ++ [row] ∧ row.id = id := by
  simp only [create] at h
  split at h
  · obtain ⟨rfl, rfl⟩ := Prod.mk.inj (Option.some.inj h)
    exact ⟨rfl, rfl⟩
  · cases h

theorem rows_update {input : UpdateUserInput} {found : Option UserRow}
    (h : users.update id input = some (after, found)) :
    after.rows = Table.update (fun row => row.id = id) (UserRow.update input) users.rows := by
  unfold update at h
  split at h
  · obtain ⟨rfl, -⟩ := Prod.mk.inj (Option.some.inj h)
    rfl
  · cases h

theorem findAccount_eq_some {username : String} {row : UserRow} {scopes : List String}
    (h : users.findAccount username = some (row, scopes)) :
    row ∈ users.rows ∧ roleScopes row.role = some scopes := by
  unfold findAccount at h
  split at h
  · cases h
  · obtain ⟨found, hfound, h⟩ := Option.bind_eq_some_iff.mp h
    obtain ⟨granted, hgranted, h⟩ := Option.bind_eq_some_iff.mp h
    obtain ⟨rfl, rfl⟩ := Prod.mk.inj (Option.some.inj h)
    exact ⟨List.mem_of_find?_eq_some hfound, (Option.filter_eq_some_iff.mp hgranted).1⟩

/-- The password hash is read from an account that exists and is enabled. -/
theorem findCredential_eq_some {row : UserRow} {scopes : List String}
    {credential : StoredUserCredential} (h : users.findCredential row scopes = some credential) :
    credential.user.id = row.id ∧ credential.user.scopes = scopes ∧
      ∃ other ∈ users.rows, other.id = row.id ∧ other.enabled = true := by
  obtain ⟨read, hread, h⟩ := Option.bind_eq_some_iff.mp h
  obtain ⟨other, hother, rfl⟩ := Option.map_eq_some_iff.mp hread
  simp only at h
  split at h
  · cases h
  · rename_i hid
    obtain rfl := Option.some.inj h
    have hboth : other.username = row.username ∧ other.enabled = true := by
      simpa using List.find?_some hother
    exact ⟨rfl, rfl, other, List.mem_of_find?_eq_some hother, not_not.mp hid, hboth.2⟩

end Users

end IptvRelay.Auth
