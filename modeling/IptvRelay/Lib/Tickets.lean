import IptvRelay.Lib.KeyMap
import Mathlib.Data.List.Perm.Subperm

/-!
# Single-use tickets

A table of tickets that expire. A new ticket takes the place of the ticket that expires first
once the table is full, and a ticket is removed when it is redeemed. The ledger of a table lists
what was issued and what was redeemed: no ticket is redeemed more often than it was issued, and
a ticket is redeemed unless it has expired or more tickets than the table has room for were
issued to expire no sooner.
-/

namespace Tickets

universe u v

variable {κ : Type u} {β : Type v} [DecidableEq κ] (expiresAt : β → Nat) (capacity : Nat)

/-- A key with the earliest expiry. The order of a hash map is not fixed: `first` is a key that
comes before the others. -/
def oldest (first : κ) (m : AList fun _ : κ => β) : Option κ :=
  match m.entries.argmin fun entry => expiresAt entry.2 with
  | none => none
  | some entry =>
    if (m.lookup first).map expiresAt = some (expiresAt entry.2) then some first
    else some entry.1

/-- A full table loses its oldest ticket. -/
def makeRoom (first : κ) (m : AList fun _ : κ => β) : AList fun _ : κ => β :=
  if capacity ≤ KeyMap.size m then
    match oldest expiresAt first m with
    | some key => m.erase key
    | none => m
  else m

/-- Forget what has expired, make room and store the new ticket. -/
def issue (now : Nat) (first key : κ) (value : β) (m : AList fun _ : κ => β) :
    AList fun _ : κ => β :=
  (makeRoom expiresAt capacity first
    (KeyMap.retain (fun value => now < expiresAt value) m)).insert key value

/-- The ticket is removed in any case, and counts if it has not expired. -/
def redeem (now : Nat) (key : κ) (m : AList fun _ : κ => β) :
    (AList fun _ : κ => β) × Option β :=
  (m.erase key, (m.lookup key).filter fun value => now < expiresAt value)

/-! ## Ledgers -/

inductive Entry (κ : Type u) (β : Type v) where
  | issued (key : κ) (value : β)
  | redeemed (key : κ) (outcome : Option β)
  deriving DecidableEq, Repr

def issued (ledger : List (Entry κ β)) : List (κ × β) :=
  ledger.filterMap fun
    | .issued key value => some (key, value)
    | .redeemed .. => none

def redeemed (ledger : List (Entry κ β)) : List (κ × β) :=
  ledger.filterMap fun
    | .issued .. => none
    | .redeemed key outcome => outcome.map (key, ·)

/-- The ticket that was issued last under the key, if nobody tried to redeem it since. -/
def live (key : κ) (ledger : List (Entry κ β)) : Option β :=
  ledger.foldl (fun ticket => fun
    | .issued other value => if other = key then some value else ticket
    | .redeemed other _ => if other = key then none else ticket) none

/-- The tickets that were issued to expire no sooner. -/
def rivals (value : β) (ledger : List (Entry κ β)) : Nat :=
  (issued ledger).countP fun ticket => expiresAt value ≤ expiresAt ticket.2

/-- The tickets in a table. -/
def tickets (m : AList fun _ : κ => β) : List (κ × β) := m.entries.map fun entry => (entry.1, entry.2)

variable {expiresAt capacity} {first key other : κ} {value old : β} {now : Nat}
  {ledger : List (Entry κ β)} {m : AList fun _ : κ => β}

section Ledger

omit [DecidableEq κ] in
theorem issued_append (ledger more : List (Entry κ β)) :
    issued (ledger ++ more) = issued ledger ++ issued more := List.filterMap_append

omit [DecidableEq κ] in
theorem redeemed_append (ledger more : List (Entry κ β)) :
    redeemed (ledger ++ more) = redeemed ledger ++ redeemed more := List.filterMap_append

theorem live_issue : live other (ledger ++ [.issued key value]) =
    if key = other then some value else live other ledger := by
  rw [live, List.foldl_append]
  rfl

theorem live_redeem {outcome : Option β} : live other (ledger ++ [.redeemed key outcome]) =
    if key = other then none else live other ledger := by
  rw [live, List.foldl_append]
  rfl

/-- A live ticket was issued. -/
theorem mem_issued_of_live (h : live key ledger = some value) : (key, value) ∈ issued ledger := by
  induction ledger using List.reverseRecOn with
  | nil => cases h
  | append_singleton before entry ih =>
    rw [issued_append, List.mem_append]
    cases entry with
    | issued other new =>
      rw [live_issue] at h
      split at h
      · rename_i hkey
        obtain rfl := Option.some.inj h
        subst hkey
        exact .inr List.mem_cons_self
      · exact .inl (ih h)
    | redeemed other outcome =>
      rw [live_redeem] at h
      split at h
      · cases h
      · exact .inl (ih h)

omit [DecidableEq κ] in
theorem rivals_issue : rivals expiresAt old (ledger ++ [.issued key value]) =
    rivals expiresAt old ledger + if expiresAt old ≤ expiresAt value then 1 else 0 := by
  rw [rivals, issued_append, List.countP_append]
  by_cases hle : expiresAt old ≤ expiresAt value
  · simp [rivals, issued, hle]
  · simp [rivals, issued, hle]

omit [DecidableEq κ] in
theorem rivals_redeem {outcome : Option β} :
    rivals expiresAt old (ledger ++ [.redeemed key outcome]) = rivals expiresAt old ledger := by
  rw [rivals, issued_append]
  simp [rivals, issued]

end Ledger

section Table

/-- The oldest ticket is in the table and no ticket expires before it. -/
theorem oldest_eq_some (h : oldest expiresAt first m = some key) :
    ∃ value, m.lookup key = some value ∧
      ∀ ticket ∈ tickets m, expiresAt value ≤ expiresAt ticket.2 := by
  unfold oldest at h
  split at h
  · cases h
  · rename_i entry hmin
    have hleast : ∀ ticket ∈ tickets m, expiresAt entry.2 ≤ expiresAt ticket.2 := by
      intro ticket hticket
      obtain ⟨other, hother, rfl⟩ := List.mem_map.mp hticket
      exact List.le_of_mem_argmin (f := fun entry => expiresAt entry.2) hother hmin
    split at h
    · rename_i hfirst
      obtain rfl := Option.some.inj h
      obtain ⟨value, hvalue, hsame⟩ := Option.map_eq_some_iff.mp hfirst
      refine ⟨value, hvalue, ?_⟩
      rw [hsame]
      exact hleast
    · obtain rfl := Option.some.inj h
      exact ⟨entry.2, AList.mem_lookup_iff.mpr (List.argmin_mem hmin), hleast⟩

theorem exists_oldest (expiresAt : β → Nat) (first : κ) (h : 0 < KeyMap.size m) :
    ∃ key, oldest expiresAt first m = some key := by
  unfold oldest
  split
  · rename_i hmin
    rw [List.argmin_eq_none] at hmin
    rw [KeyMap.size, hmin] at h
    cases h
  · split
    · exact ⟨_, rfl⟩
    · exact ⟨_, rfl⟩

/-- A table is left as it is, or it is full and loses its oldest ticket. -/
theorem makeRoom_cases (expiresAt : β → Nat) (m : AList fun _ : κ => β) (first : κ)
    (hpos : 0 < capacity) :
    (KeyMap.size m < capacity ∧ makeRoom expiresAt capacity first m = m) ∨
    ∃ key value, capacity ≤ KeyMap.size m ∧ m.lookup key = some value ∧
      (∀ ticket ∈ tickets m, expiresAt value ≤ expiresAt ticket.2) ∧
      makeRoom expiresAt capacity first m = m.erase key := by
  unfold makeRoom
  by_cases hfull : capacity ≤ KeyMap.size m
  · obtain ⟨key, hkey⟩ := exists_oldest expiresAt first (by omega : 0 < KeyMap.size m)
    obtain ⟨value, hvalue, hleast⟩ := oldest_eq_some hkey
    exact .inr ⟨key, value, hfull, hvalue, hleast, by rw [if_pos hfull, hkey]⟩
  · exact .inl ⟨by omega, if_neg hfull⟩

theorem size_makeRoom (expiresAt : β → Nat) (first : κ) (hpos : 0 < capacity) (h : KeyMap.size m ≤ capacity) :
    KeyMap.size (makeRoom expiresAt capacity first m) < capacity := by
  rcases makeRoom_cases expiresAt m first hpos with
    ⟨hroom, heq⟩ | ⟨key, value, -, hvalue, -, heq⟩
  · rw [heq]
    exact hroom
  · have hone := KeyMap.size_erase_of_mem (AList.lookup_isSome.mp (by rw [hvalue]; rfl) : key ∈ m)
    rw [heq]
    omega

theorem size_issue (hpos : 0 < capacity) (h : KeyMap.size m ≤ capacity) :
    KeyMap.size (issue expiresAt capacity now first key value m) ≤ capacity := by
  have hroom := size_makeRoom expiresAt first hpos
    ((KeyMap.size_retain_le (fun value => decide (now < expiresAt value)) m).trans h)
  exact (KeyMap.size_insert_le _ _ _).trans hroom

omit [DecidableEq κ] in
theorem length_tickets : (tickets m).length = KeyMap.size m := List.length_map _

theorem tickets_erase_sublist (key : κ) : (tickets (m.erase key)).Sublist (tickets m) :=
  (List.kerase_sublist key m.entries).map _

omit [DecidableEq κ] in
theorem tickets_retain_sublist (p : β → Bool) :
    (tickets (KeyMap.retain p m)).Sublist (tickets m) :=
  List.filter_sublist.map _

theorem tickets_makeRoom_sublist (first : κ) :
    (tickets (makeRoom expiresAt capacity first m)).Sublist (tickets m) := by
  unfold makeRoom
  split
  · split
    · exact tickets_erase_sublist _
    · exact .refl _
  · exact .refl _

/-- A ticket that is looked up stands in front of what its removal leaves. -/
theorem tickets_perm_of_lookup (h : m.lookup key = some value) :
    (tickets m).Perm ((key, value) :: tickets (m.erase key)) := by
  have hmem : Sigma.mk key value ∈ m.entries := AList.mem_lookup_iff.mp h
  obtain ⟨found, left, right, hleft, hentries, herase⟩ :=
    List.exists_of_kerase (List.mem_keys_of_mem hmem)
  have hfound : value = found :=
    List.NodupKeys.eq_of_mk_mem m.nodupKeys hmem (by rw [hentries]; simp)
  subst hfound
  have herase : (m.erase key).entries = left ++ right := herase
  rw [tickets, tickets, herase, hentries, List.map_append, List.map_cons, List.map_append]
  exact List.perm_middle

end Table

/-! ## Runs -/

/-- What holds of a table and its ledger at the last reading of the clock. -/
structure Kept (expiresAt : β → Nat) (capacity now : Nat) (ledger : List (Entry κ β))
    (m : AList fun _ : κ => β) : Prop where
  size : KeyMap.size m ≤ capacity
  backed : (redeemed ledger ++ tickets m).Subperm (issued ledger)
  sound : ∀ key value, m.lookup key = some value → live key ledger = some value
  complete : ∀ key value, live key ledger = some value → now < expiresAt value →
    rivals expiresAt value ledger ≤ capacity → m.lookup key = some value

theorem Kept.empty : Kept (κ := κ) expiresAt capacity now [] ∅ where
  size := Nat.zero_le _
  backed := .refl _
  sound key value h := by
    rw [AList.lookup_empty] at h
    cases h
  complete key value h := by cases h

/-- A redeemed ticket was issued, and no ticket is redeemed more often than it was issued. -/
theorem Kept.redeemed_subperm (h : Kept expiresAt capacity now ledger m) :
    (redeemed ledger).Subperm (issued ledger) :=
  (List.sublist_append_left _ _).subperm.trans h.backed

theorem Kept.later (h : Kept expiresAt capacity now ledger m) {later : Nat} (hle : now ≤ later) :
    Kept expiresAt capacity later ledger m where
  size := h.size
  backed := h.backed
  sound := h.sound
  complete key value hlive hexpires := h.complete key value hlive (by omega)

omit [DecidableEq κ] in
/-- A table of tickets which expire no sooner is no larger than the number of rivals. -/
theorem size_le_rivals (hsub : (tickets m).Subperm (issued ledger))
    (hleast : ∀ ticket ∈ tickets m, expiresAt value ≤ expiresAt ticket.2) :
    KeyMap.size m ≤ rivals expiresAt value ledger := by
  have hall : (tickets m).countP (fun ticket => expiresAt value ≤ expiresAt ticket.2) =
      (tickets m).length :=
    List.countP_eq_length.mpr fun ticket hticket => decide_eq_true (hleast ticket hticket)
  rw [← length_tickets, ← hall]
  exact hsub.countP_le _

theorem Kept.tickets_subperm (h : Kept expiresAt capacity now ledger m) :
    (tickets m).Subperm (issued ledger) :=
  (List.sublist_append_right _ _).subperm.trans h.backed

/-- What is left of the table when there is room for a new ticket. -/
theorem lookup_makeRoom (hpos : 0 < capacity) (hsub : (tickets m).Subperm (issued ledger))
    (hlookup : m.lookup key = some value) (hrivals : rivals expiresAt value ledger < capacity) :
    (makeRoom expiresAt capacity first m).lookup key = some value := by
  rcases makeRoom_cases expiresAt m first hpos with
    ⟨-, heq⟩ | ⟨oldest, least, hfull, hleast, hall, heq⟩
  · rw [heq]
    exact hlookup
  · rw [heq, KeyMap.lookup_erase_eq_some]
    refine ⟨?_, hlookup⟩
    rintro rfl
    obtain rfl := Option.some.inj (hlookup.symm.trans hleast)
    exact absurd (hfull.trans (size_le_rivals hsub hall)) (by omega)

theorem lookup_of_lookup_makeRoom
    (h : (makeRoom expiresAt capacity first m).lookup key = some value) :
    m.lookup key = some value := by
  unfold makeRoom at h
  split at h
  · split at h
    · exact (KeyMap.lookup_erase_eq_some.mp h).2
    · exact h
  · exact h

theorem Kept.issue (h : Kept expiresAt capacity now ledger m) {later : Nat} (hle : now ≤ later)
    (hpos : 0 < capacity) (hlast : ∀ ticket ∈ issued ledger, expiresAt ticket.2 ≤ expiresAt value) :
    Kept expiresAt capacity later (ledger ++ [.issued key value])
      (issue expiresAt capacity later first key value m) where
  size := size_issue hpos h.size
  backed := by
    have hleft : (tickets (Tickets.issue expiresAt capacity later first key value m)).Subperm
        ((key, value) :: tickets m) :=
      (List.subperm_cons _).mpr ((tickets_erase_sublist key).trans
        ((tickets_makeRoom_sublist first).trans (tickets_retain_sublist _))).subperm
    have hissued : issued (ledger ++ [.issued key value]) = issued ledger ++ [(key, value)] :=
      issued_append _ _
    have hredeemed : redeemed (ledger ++ [.issued key value]) = redeemed ledger :=
      (redeemed_append _ _).trans (List.append_nil _)
    rw [hissued, hredeemed]
    have hmiddle : (redeemed ledger ++ (key, value) :: tickets m).Subperm
        ((key, value) :: (redeemed ledger ++ tickets m)) := List.perm_middle.subperm
    have hbacked := ((List.subperm_cons (key, value)).mpr h.backed).trans
      (List.perm_append_singleton _ _).symm.subperm
    exact ((List.subperm_append_left _).mpr hleft).trans (hmiddle.trans hbacked)
  sound other old hlookup := by
    rw [live_issue]
    rcases KeyMap.lookup_insert_eq_some.mp hlookup with ⟨rfl, rfl⟩ | ⟨hne, hold⟩
    · exact if_pos rfl
    · rw [if_neg (Ne.symm hne)]
      exact h.sound other old (KeyMap.lookup_retain_eq_some.mp (lookup_of_lookup_makeRoom hold)).1
  complete other old hlive hexpires hrivals := by
    rw [live_issue] at hlive
    rw [Tickets.issue, KeyMap.lookup_insert_eq_some]
    split at hlive
    · rename_i hkey
      exact .inl ⟨hkey.symm, Option.some.inj hlive⟩
    · rename_i hkey
      rw [rivals_issue, if_pos (hlast _ (mem_issued_of_live hlive))] at hrivals
      refine .inr ⟨Ne.symm hkey, ?_⟩
      have hold := h.complete other old hlive (by omega) (by omega)
      have hfresh : (KeyMap.retain (fun value => decide (later < expiresAt value)) m).lookup other =
          some old := KeyMap.lookup_retain_eq_some.mpr ⟨hold, decide_eq_true hexpires⟩
      exact lookup_makeRoom hpos ((tickets_retain_sublist _).subperm.trans h.tickets_subperm) hfresh
        hrivals

theorem Kept.redeem (h : Kept expiresAt capacity now ledger m) {later : Nat} (hle : now ≤ later) :
    Kept expiresAt capacity later
      (ledger ++ [.redeemed key (redeem expiresAt later key m).2])
      (redeem expiresAt later key m).1 where
  size := (KeyMap.size_erase_le _ _).trans h.size
  backed := by
    have hissued : issued (ledger ++ [.redeemed key (Tickets.redeem expiresAt later key m).2]) =
        issued ledger := (issued_append _ _).trans (List.append_nil _)
    rw [hissued, redeemed_append]
    cases houtcome : (Tickets.redeem expiresAt later key m).2 with
    | none =>
      have hnone : redeemed [Entry.redeemed key (none : Option β)] = [] := rfl
      rw [hnone, List.append_nil]
      exact ((List.subperm_append_left _).mpr (tickets_erase_sublist key).subperm).trans h.backed
    | some value =>
      have hone : redeemed [Entry.redeemed key (some value)] = [(key, value)] := rfl
      have hlookup : m.lookup key = some value := (Option.filter_eq_some_iff.mp houtcome).1
      rw [hone, List.append_assoc]
      exact ((tickets_perm_of_lookup hlookup).append_left _).symm.subperm.trans h.backed
  sound other old hlookup := by
    obtain ⟨hne, hold⟩ := KeyMap.lookup_erase_eq_some.mp hlookup
    rw [live_redeem, if_neg (Ne.symm hne)]
    exact h.sound other old hold
  complete other old hlive hexpires hrivals := by
    rw [live_redeem] at hlive
    split at hlive
    · cases hlive
    · rename_i hne
      rw [rivals_redeem] at hrivals
      exact KeyMap.lookup_erase_eq_some.mpr
        ⟨Ne.symm hne, h.complete other old hlive (by omega) hrivals⟩

/-- A redeemed ticket is the live one, and it has not expired. -/
theorem Kept.redeem_eq_some (h : Kept expiresAt capacity now ledger m) {later : Nat}
    (hredeem : (Tickets.redeem expiresAt later key m).2 = some value) :
    live key ledger = some value ∧ later < expiresAt value := by
  obtain ⟨hlookup, hexpires⟩ := Option.filter_eq_some_iff.mp hredeem
  exact ⟨h.sound key value hlookup, of_decide_eq_true hexpires⟩

/-- The live ticket is redeemed while it has not expired and has few rivals. -/
theorem Kept.redeem_of_live (h : Kept expiresAt capacity now ledger m) {later : Nat}
    (hle : now ≤ later) (hlive : live key ledger = some value) (hexpires : later < expiresAt value)
    (hrivals : rivals expiresAt value ledger ≤ capacity) :
    (Tickets.redeem expiresAt later key m).2 = some value := by
  have hlookup := h.complete key value hlive (by omega) hrivals
  exact Option.filter_eq_some_iff.mpr ⟨hlookup, decide_eq_true hexpires⟩

end Tickets
