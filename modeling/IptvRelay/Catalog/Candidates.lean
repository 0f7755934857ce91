import IptvRelay.Catalog.Channels
import Mathlib.Data.String.Basic

/-!
# Publishing candidates

Model of `upsert_candidate_channels` in `persistence/src/catalog.rs`. The collation of the
database and the identifier that a canonical key hashes to are parameters. The rows of the
candidate table may come in any order; a statement takes them in the order of the list.
-/

namespace IptvRelay.Catalog

open Store (Uuid CandidateRow)
open Checked

/-- The rows of `provider_reconciliation_candidates` for one run, with their primary key. -/
structure Candidates where
  rows : List CandidateRow
  keys : (rows.map CandidateRow.canonicalKey).Nodup

/-- The order of `ORDER BY` on texts. -/
def precedes (collation : LinearOrder String) (a b : String) : Bool :=
  @decide (collation.lt a b) (collation.toDecidableLT a b)

section Statement

variable (collation : LinearOrder String) (channelId : Uuid → String → Uuid)
variable (channels : Channels) (account : Uuid) (candidates : Candidates)
variable (sequence : NumberSequence)

/-- `preferred_rank = 1`. -/
def Candidates.isFirst (candidate : CandidateRow) : Bool :=
  candidates.rows.all fun other =>
    other.preferredNumber ≠ candidate.preferredNumber ∨
      precedes collation other.canonicalKey candidate.canonicalKey = false

/-- The preferred number of a candidate that comes first and whose number no other channel
holds. -/
def grantedNumber (candidate : CandidateRow) : Option String :=
  candidate.preferredNumber.filter fun number =>
    candidates.isFirst collation candidate ∧
      ∀ occupied ∈ channels.rows, occupied.channelNumber = number →
        (channels.joined account candidate.canonicalKey).map ChannelRow.id = some occupied.id

/-- `CASE … END AS channel_number`, with the place in the sequence before and after it. -/
def candidateNumber (candidate : CandidateRow) (place : Nat) :
    Except CatalogError (String × Nat) :=
  match grantedNumber collation channels account candidates candidate,
      channels.joined account candidate.canonicalKey with
  | some number, _ => .ok (number, place)
  | none, some row => .ok (row.channelNumber, place)
  | none, none => sequence.nextval place

/-- The row that `channel_rows` proposes for a candidate. -/
def candidateChannel (candidate : CandidateRow) (channelNumber : String) : ChannelRow :=
  let existing := channels.joined account candidate.canonicalKey
  { id := (existing.map ChannelRow.id).getD (channelId account candidate.canonicalKey)
    channelNumber
    name := candidate.name
    groupName := candidate.groupName
    logoUrl := candidate.logoUrl
    enabled := channels.effectiveEnabled existing candidate.groupName
    managedBy := .automatic
    account := some account
    canonicalKey := some candidate.canonicalKey
    revision := 1 }

/-- `channel_rows`. -/
def candidateChannels : List CandidateRow → Nat → Except CatalogError (List ChannelRow)
  | [], _ => .ok []
  | candidate :: rest, place => do
    let (number, place) ← candidateNumber collation channels account candidates sequence
      candidate place
    let rows ← candidateChannels rest place
    return candidateChannel channelId channels account candidate number :: rows

/-- `WHERE existing_id IS NULL OR … IS DISTINCT FROM …`. -/
def isProposed (row : ChannelRow) : Bool :=
  match row.canonicalKey.bind (channels.joined account) with
  | none => true
  | some existing => existing.description ≠ row.description

/-- `upsert_candidate_channels`. -/
def upsertCandidateChannels : Except CatalogError (Channels × Nat) := do
  let rows ← candidateChannels collation channelId channels account candidates sequence
    candidates.rows 0
  channels.upsertRows (rows.filter (isProposed channels account))

end Statement

/-! ## Numbers that collide -/

/-- The id of the row is not in the table yet. -/
def Channels.opens (channels : Channels) (row : ChannelRow) : Bool :=
  row.id ∉ channels.rows.map ChannelRow.id

/-- The numbers of the new channels among the rows are distinct and not in use. -/
structure NumbersFree (channels : Channels) (rows : List ChannelRow) : Prop where
  distinct : ((rows.filter channels.opens).map ChannelRow.channelNumber).Nodup
  unused : ∀ row ∈ rows, channels.opens row = true →
    row.channelNumber ∉ channels.rows.map ChannelRow.channelNumber

/-- Every channel is still there with its number. -/
def NumbersKept (channels after : Channels) : Prop :=
  ∀ row ∈ channels.rows, ∃ kept ∈ after.rows, kept.id = row.id ∧
    kept.channelNumber = row.channelNumber

section Upsert

variable {channels : Channels} {row : ChannelRow}

theorem numbers_upsertRow {state next : Channels × List Uuid}
    (h : Channels.upsertRow state row = .ok next) :
    (next.1.rows.map ChannelRow.channelNumber = state.1.rows.map ChannelRow.channelNumber ∧
      next.1.rows.map ChannelRow.id = state.1.rows.map ChannelRow.id) ∨
    (row.id ∉ state.1.rows.map ChannelRow.id ∧ next.1.rows = state.1.rows ++ [row]) := by
  rcases Channels.upsertRow_cases h with ⟨hnone, hinsert, -⟩ | ⟨old, -, -, -, rfl⟩ |
    ⟨old, -, -, -, rfl⟩
  · exact .inr ⟨Channels.find_eq_none.mp hnone, Channels.rows_insert hinsert⟩
  · exact .inl ⟨rfl, rfl⟩
  · exact .inl ⟨Table.map_update fun _ _ => rfl, Table.map_update fun _ _ => rfl⟩

theorem keptRow_upsertRow {state next : Channels × List Uuid}
    (h : Channels.upsertRow state row = .ok next) {old : ChannelRow} (hold : old ∈ state.1.rows) :
    ∃ kept ∈ next.1.rows, kept.identity = old.identity := by
  rcases Channels.upsertRow_cases h with ⟨-, hinsert, -⟩ | ⟨_, -, -, -, rfl⟩ |
    ⟨_, -, -, -, rfl⟩
  · refine ⟨old, ?_, rfl⟩
    rw [Channels.rows_insert hinsert]
    exact List.mem_append_left _ hold
  · exact ⟨old, hold, rfl⟩
  · refine ⟨_, Table.mem_update_of_mem hold, ?_⟩
    split
    · exact ChannelRow.identity_describe old row
    · rfl

/-- The run of the statement: a row that is there keeps everything but its description. -/
theorem keptRow_foldlM {rows : List ChannelRow} {state next : Channels × List Uuid}
    (h : rows.foldlM Channels.upsertRow state = .ok next) {old : ChannelRow}
    (hold : old ∈ state.1.rows) : ∃ kept ∈ next.1.rows, kept.identity = old.identity := by
  induction rows generalizing state old with
  | nil =>
    obtain rfl := of_pure h
    exact ⟨old, hold, rfl⟩
  | cons row rows ih =>
    obtain ⟨middle, hrow, hrest⟩ := of_bind h
    obtain ⟨first, hfirst, hsame⟩ := keptRow_upsertRow hrow hold
    obtain ⟨last, hlast, hkept⟩ := ih hrest hfirst
    exact ⟨last, hlast, hkept.trans hsame⟩

/-- Free numbers stay free along the statement, so no insert meets the index of the numbers. -/
theorem foldlM_numbers_free {rows : List ChannelRow} {state : Channels × List Uuid}
    (hids : ∀ id ∈ channels.rows.map ChannelRow.id, id ∈ state.1.rows.map ChannelRow.id)
    (hdistinct : ((rows.filter channels.opens).map ChannelRow.channelNumber).Nodup)
    (hunused : ∀ row ∈ rows, channels.opens row = true →
      row.channelNumber ∉ state.1.rows.map ChannelRow.channelNumber) :
    rows.foldlM Channels.upsertRow state ≠ .error .channelNumberTaken := by
  induction rows generalizing state with
  | nil => exact fun h => nomatch h
  | cons row rows ih =>
    intro h
    have hopens : row.id ∉ state.1.rows.map ChannelRow.id → channels.opens row = true :=
      fun hnew => decide_eq_true fun hold => hnew (hids _ hold)
    rcases error_of_bind h with hrow | ⟨next, hrow, hrest⟩
    · unfold Channels.upsertRow at hrow
      split at hrow
      · rename_i hnone
        have hnew := hopens (Channels.find_eq_none.mp hnone)
        rcases error_of_bind hrow with hinsert | ⟨_, _, hpure⟩
        · exact Channels.insert_number (hunused row List.mem_cons_self hnew) hinsert
        · cases hpure
      · split at hrow
        · cases hrow
        · split at hrow <;> cases hrow
    · have hrestDistinct : ((rows.filter channels.opens).map ChannelRow.channelNumber).Nodup :=
        hdistinct.sublist (((List.sublist_cons_self row rows).filter _).map _)
      rcases numbers_upsertRow hrow with ⟨hnumbers, hsame⟩ | ⟨hnew, hrows⟩
      · refine ih (fun id hid => ?_) hrestDistinct (fun other hother hopen => ?_) hrest
        · rw [hsame]
          exact hids id hid
        · rw [hnumbers]
          exact hunused other (List.mem_cons_of_mem row hother) hopen
      · refine ih (fun id hid => ?_) hrestDistinct (fun other hother hopen => ?_) hrest
        · rw [hrows, List.map_append]
          exact List.mem_append_left _ (hids id hid)
        · rw [hrows, List.map_append, List.mem_append, not_or]
          refine ⟨hunused other (List.mem_cons_of_mem row hother) hopen, fun hsame => ?_⟩
          rw [List.filter_cons_of_pos (hopens hnew), List.map_cons] at hdistinct
          refine (List.nodup_cons.mp hdistinct).1 (List.mem_map.mpr
            ⟨other, List.mem_filter.mpr ⟨hother, hopen⟩, ?_⟩)
          simpa using hsame

theorem upsertRows_numbers_free {rows : List ChannelRow} (h : NumbersFree channels rows) :
    channels.upsertRows rows ≠ .error .channelNumberTaken := by
  intro herror
  rcases error_of_bind herror with hfold | ⟨_, _, hpure⟩
  · exact foldlM_numbers_free (fun _ hid => hid) h.distinct h.unused hfold
  · cases hpure

theorem numbersKept_upsertRows {rows : List ChannelRow} {after : Channels} {affected : Nat}
    (h : channels.upsertRows rows = .ok (after, affected)) : NumbersKept channels after := by
  obtain ⟨state, hfold, hpure⟩ := of_bind h
  obtain ⟨rfl, -⟩ := Prod.mk.inj (of_pure hpure)
  intro row hrow
  obtain ⟨kept, hkept, hsame⟩ := keptRow_foldlM hfold hrow
  simp only [ChannelRow.identity, Prod.mk.injEq] at hsame
  exact ⟨kept, hkept, hsame.1, hsame.2.1⟩

end Upsert

/-! ## Which numbers the candidates get -/

section Numbers

variable {collation : LinearOrder String} {channelId : Uuid → String → Uuid}
variable {channels : Channels} {account : Uuid} {candidates : Candidates}
variable {sequence : NumberSequence}

variable (collation channels account candidates) in
/-- The number of the candidate comes from the sequence. -/
def drawsNumber (candidate : CandidateRow) : Bool :=
  grantedNumber collation channels account candidates candidate = none ∧
    channels.joined account candidate.canonicalKey = none

variable (channelId channels account) in
/-- The candidate has no channel, and the id of its key is not in the table. -/
def opensChannel (candidate : CandidateRow) : Bool :=
  channels.joined account candidate.canonicalKey = none ∧
    channelId account candidate.canonicalKey ∉ channels.rows.map ChannelRow.id

theorem precedes_total {a b : String} (hab : precedes collation a b = false)
    (hba : precedes collation b a = false) : a = b := by
  have hle : ∀ {x y}, precedes collation x y = false → collation.le y x :=
    fun h => (@not_lt _ collation _ _).mp (of_decide_eq_false h)
  exact collation.le_antisymm a b (hle hba) (hle hab)

/-- Two candidates with the same preferred number are not both first. -/
theorem isFirst_unique {a b : CandidateRow} (ha : a ∈ candidates.rows) (hb : b ∈ candidates.rows)
    (hsame : a.preferredNumber = b.preferredNumber)
    (hfirstA : candidates.isFirst collation a = true)
    (hfirstB : candidates.isFirst collation b = true) : a = b := by
  have hbefore : ∀ {x y : CandidateRow}, x ∈ candidates.rows →
      x.preferredNumber = y.preferredNumber → candidates.isFirst collation y = true →
      precedes collation x.canonicalKey y.canonicalKey = false := by
    intro x y hx hxy hy
    have hall := of_decide_eq_true (List.all_eq_true.mp hy x hx)
    exact hall.resolve_left (not_not.mpr hxy)
  exact Table.eq_of_key candidates.keys ha hb
    (precedes_total (hbefore ha hsame hfirstB) (hbefore hb hsame.symm hfirstA))

theorem grantedNumber_eq_some {candidate : CandidateRow} {number : String}
    (h : grantedNumber collation channels account candidates candidate = some number) :
    candidate.preferredNumber = some number ∧ candidates.isFirst collation candidate = true ∧
      ∀ occupied ∈ channels.rows, occupied.channelNumber = number →
        (channels.joined account candidate.canonicalKey).map ChannelRow.id =
          some occupied.id := by
  obtain ⟨hpreferred, hcheck⟩ := Option.filter_eq_some_iff.mp h
  obtain ⟨hfirst, hfree⟩ := of_decide_eq_true hcheck
  exact ⟨hpreferred, hfirst, hfree⟩

/-- A number is granted once. -/
theorem grantedNumber_unique {a b : CandidateRow} {number : String} (ha : a ∈ candidates.rows)
    (hb : b ∈ candidates.rows)
    (hgrantedA : grantedNumber collation channels account candidates a = some number)
    (hgrantedB : grantedNumber collation channels account candidates b = some number) :
    a = b := by
  obtain ⟨hnumberA, hfirstA, -⟩ := grantedNumber_eq_some hgrantedA
  obtain ⟨hnumberB, hfirstB, -⟩ := grantedNumber_eq_some hgrantedB
  exact isFirst_unique ha hb (hnumberA.trans hnumberB.symm) hfirstA hfirstB

/-- The three sources of a number, with the places of the sequence. -/
theorem candidateNumber_cases {candidate : CandidateRow} {place next : Nat} {number : String}
    (h : candidateNumber collation channels account candidates sequence candidate place =
      .ok (number, next)) :
    (grantedNumber collation channels account candidates candidate = some number ∧
      drawsNumber collation channels account candidates candidate = false ∧ next = place) ∨
    ((∃ row, channels.joined account candidate.canonicalKey = some row) ∧
      drawsNumber collation channels account candidates candidate = false ∧ next = place) ∨
    (drawsNumber collation channels account candidates candidate = true ∧
      number = sequence.text place ∧ next = place + 1) := by
  unfold candidateNumber at h
  unfold drawsNumber
  cases hgranted : grantedNumber collation channels account candidates candidate with
  | some granted =>
    rw [hgranted] at h
    obtain ⟨rfl, rfl⟩ := Prod.mk.inj (Except.ok.inj h)
    exact .inl ⟨rfl, by simp, rfl⟩
  | none =>
    cases hjoined : channels.joined account candidate.canonicalKey with
    | some row =>
      rw [hgranted, hjoined] at h
      obtain ⟨-, rfl⟩ := Prod.mk.inj (Except.ok.inj h)
      exact .inr (.inl ⟨⟨row, rfl⟩, by simp, rfl⟩)
    | none =>
      rw [hgranted, hjoined] at h
      obtain ⟨hnumber, hnext⟩ := NumberSequence.nextval_ok h
      exact .inr (.inr ⟨by simp, hnumber, hnext⟩)

theorem candidateChannels_cons {candidate : CandidateRow} {rest : List CandidateRow}
    {place : Nat} {rows : List ChannelRow}
    (h : candidateChannels collation channelId channels account candidates sequence
      (candidate :: rest) place = .ok rows) :
    ∃ number next tail,
      candidateNumber collation channels account candidates sequence candidate place =
        .ok (number, next) ∧
      candidateChannels collation channelId channels account candidates sequence rest next =
        .ok tail ∧
      rows = candidateChannel channelId channels account candidate number :: tail := by
  obtain ⟨⟨number, next⟩, hnumber, h⟩ := of_bind h
  obtain ⟨tail, htail, h⟩ := of_bind h
  exact ⟨number, next, tail, hnumber, htail, (of_pure h).symm⟩

/-- A row belongs to a candidate, and its number comes from one of the three sources. -/
theorem mem_candidateChannels {rest : List CandidateRow} {place : Nat} {rows : List ChannelRow}
    (h : candidateChannels collation channelId channels account candidates sequence rest place =
      .ok rows) {row : ChannelRow} (hrow : row ∈ rows) :
    ∃ candidate ∈ rest,
      row = candidateChannel channelId channels account candidate row.channelNumber ∧
      (grantedNumber collation channels account candidates candidate = some row.channelNumber ∨
        (∃ existing, channels.joined account candidate.canonicalKey = some existing) ∨
        ∃ i, (rest.filter (drawsNumber collation channels account candidates))[i]? =
          some candidate ∧ row.channelNumber = sequence.text (place + i)) := by
  induction rest generalizing place rows with
  | nil =>
    obtain rfl := Except.ok.inj h
    cases hrow
  | cons candidate rest ih =>
    obtain ⟨number, next, tail, hnumber, htail, rfl⟩ := candidateChannels_cons h
    rcases List.mem_cons.mp hrow with rfl | hrow
    · refine ⟨candidate, List.mem_cons_self, rfl, ?_⟩
      rcases candidateNumber_cases hnumber with ⟨hgranted, -, -⟩ | ⟨hjoined, -, -⟩ |
        ⟨hdraws, htext, -⟩
      · exact .inl hgranted
      · exact .inr (.inl hjoined)
      · refine .inr (.inr ⟨0, ?_, htext⟩)
        rw [List.filter_cons_of_pos hdraws]
        rfl
    · obtain ⟨other, hother, heq, hsource⟩ := ih htail hrow
      refine ⟨other, List.mem_cons_of_mem _ hother, heq, ?_⟩
      rcases hsource with hgranted | hjoined | ⟨i, hi, htext⟩
      · exact .inl hgranted
      · exact .inr (.inl hjoined)
      · refine .inr (.inr ?_)
        rcases candidateNumber_cases hnumber with ⟨-, hdraws, rfl⟩ | ⟨-, hdraws, rfl⟩ |
          ⟨hdraws, -, rfl⟩
        · exact ⟨i, by rwa [List.filter_cons_of_neg (by simp [hdraws])], htext⟩
        · exact ⟨i, by rwa [List.filter_cons_of_neg (by simp [hdraws])], htext⟩
        · refine ⟨i + 1, by rwa [List.filter_cons_of_pos hdraws], ?_⟩
          rw [htext, Nat.add_assoc, Nat.add_comm 1 i]

/-- Every candidate has its row. -/
theorem candidateChannels_of_mem {rest : List CandidateRow} {place : Nat} {rows : List ChannelRow}
    (h : candidateChannels collation channelId channels account candidates sequence rest place =
      .ok rows) {candidate : CandidateRow} (hcandidate : candidate ∈ rest) :
    ∃ row ∈ rows, row = candidateChannel channelId channels account candidate row.channelNumber ∧
      ∀ number, grantedNumber collation channels account candidates candidate = some number →
        row.channelNumber = number := by
  induction rest generalizing place rows with
  | nil => cases hcandidate
  | cons first rest ih =>
    obtain ⟨number, next, tail, hnumber, htail, rfl⟩ := candidateChannels_cons h
    rcases List.mem_cons.mp hcandidate with rfl | hcandidate
    · refine ⟨_, List.mem_cons_self, rfl, fun granted hgranted => ?_⟩
      unfold candidateNumber at hnumber
      rw [hgranted] at hnumber
      exact (Prod.mk.inj (Except.ok.inj hnumber)).1.symm
    · obtain ⟨row, hrow, hrest⟩ := ih htail hcandidate
      exact ⟨row, List.mem_cons_of_mem _ hrow, hrest⟩

/-- A draw has its row, with the number at its place. -/
theorem candidateChannels_of_draw {rest : List CandidateRow} {place : Nat} {rows : List ChannelRow}
    (h : candidateChannels collation channelId channels account candidates sequence rest place =
      .ok rows) {i : Nat} {candidate : CandidateRow}
    (hi : (rest.filter (drawsNumber collation channels account candidates))[i]? =
      some candidate) :
    candidateChannel channelId channels account candidate (sequence.text (place + i)) ∈ rows := by
  induction rest generalizing place rows i with
  | nil => simp at hi
  | cons first rest ih =>
    obtain ⟨number, next, tail, hnumber, htail, rfl⟩ := candidateChannels_cons h
    rcases candidateNumber_cases hnumber with ⟨-, hdraws, rfl⟩ | ⟨-, hdraws, rfl⟩ |
      ⟨hdraws, htext, rfl⟩
    · rw [List.filter_cons_of_neg (by simp [hdraws])] at hi
      exact List.mem_cons_of_mem _ (ih htail hi)
    · rw [List.filter_cons_of_neg (by simp [hdraws])] at hi
      exact List.mem_cons_of_mem _ (ih htail hi)
    · rw [List.filter_cons_of_pos hdraws] at hi
      cases i with
      | zero =>
        obtain rfl := Option.some.inj hi
        rw [Nat.add_zero, ← htext]
        exact List.mem_cons_self
      | succ i =>
        rw [← Nat.add_assoc, Nat.add_right_comm]
        exact List.mem_cons_of_mem _ (ih htail hi)

/-- The sequence has a number for every candidate that draws one. -/
def sequenceLasts (sequence : NumberSequence) (draws : Nat) : Prop :=
  ∀ place < draws, sequence.value place ≤ sequenceMax

theorem candidateChannels_lasts {rest : List CandidateRow} {place : Nat}
    (hlasts : ∀ i < (rest.filter (drawsNumber collation channels account candidates)).length,
      sequence.value (place + i) ≤ sequenceMax) :
    ∃ rows, candidateChannels collation channelId channels account candidates sequence rest
      place = .ok rows := by
  induction rest generalizing place with
  | nil => exact ⟨[], rfl⟩
  | cons candidate rest ih =>
    have hstep : ∀ {number next}, candidateNumber collation channels account candidates sequence
        candidate place = .ok (number, next) →
        (∃ tail, candidateChannels collation channelId channels account candidates sequence rest
          next = .ok tail) →
        ∃ rows, candidateChannels collation channelId channels account candidates sequence
          (candidate :: rest) place = .ok rows := by
      rintro number next hnumber ⟨tail, htail⟩
      refine ⟨candidateChannel channelId channels account candidate number :: tail, ?_⟩
      simp only [candidateChannels, hnumber, htail, bind, Except.bind, pure, Except.pure]
    cases hgranted : grantedNumber collation channels account candidates candidate with
    | some number =>
      rw [List.filter_cons_of_neg (by simp [drawsNumber, hgranted])] at hlasts
      refine @hstep number place ?_ (ih hlasts)
      simp only [candidateNumber, hgranted]
    | none =>
      cases hjoined : channels.joined account candidate.canonicalKey with
      | some row =>
        rw [List.filter_cons_of_neg (by simp [drawsNumber, hjoined])] at hlasts
        refine @hstep row.channelNumber place ?_ (ih hlasts)
        simp only [candidateNumber, hgranted, hjoined]
      | none =>
        rw [List.filter_cons_of_pos (by simp [drawsNumber, hgranted, hjoined])] at hlasts
        refine @hstep (sequence.text place) (place + 1) ?_ (ih fun i hi => ?_)
        · simp only [candidateNumber, hgranted, hjoined, NumberSequence.nextval]
          exact if_pos (hlasts 0 (Nat.zero_lt_succ _))
        · rw [Nat.add_assoc, Nat.add_comm 1 i]
          exact hlasts (i + 1) (Nat.succ_lt_succ hi)

theorem lasts_of_candidateChannels {rest : List CandidateRow} {place : Nat}
    {rows : List ChannelRow}
    (h : candidateChannels collation channelId channels account candidates sequence rest place =
      .ok rows) :
    ∀ i < (rest.filter (drawsNumber collation channels account candidates)).length,
      sequence.value (place + i) ≤ sequenceMax := by
  induction rest generalizing place rows with
  | nil => exact fun i hi => absurd hi (Nat.not_lt_zero i)
  | cons candidate rest ih =>
    obtain ⟨number, next, tail, hnumber, htail, rfl⟩ := candidateChannels_cons h
    have hrest := ih htail
    rcases candidateNumber_cases hnumber with ⟨-, hdraws, rfl⟩ | ⟨-, hdraws, rfl⟩ |
      ⟨hdraws, htext, rfl⟩
    · rwa [List.filter_cons_of_neg (by simp [hdraws])]
    · rwa [List.filter_cons_of_neg (by simp [hdraws])]
    · rw [List.filter_cons_of_pos hdraws]
      intro i hi
      cases i with
      | zero =>
        unfold candidateNumber at hnumber
        obtain ⟨hgranted, hjoined⟩ := of_decide_eq_true hdraws
        rw [hgranted, hjoined] at hnumber
        simp only [NumberSequence.nextval] at hnumber
        split at hnumber
        · assumption
        · cases hnumber
      | succ i =>
        rw [← Nat.add_assoc, Nat.add_right_comm]
        exact hrest i (Nat.lt_of_succ_lt_succ hi)

theorem keys_candidateChannels {rest : List CandidateRow} {place : Nat} {rows : List ChannelRow}
    (h : candidateChannels collation channelId channels account candidates sequence rest place =
      .ok rows) :
    rows.map ChannelRow.canonicalKey = rest.map fun candidate => some candidate.canonicalKey := by
  induction rest generalizing place rows with
  | nil =>
    obtain rfl := Except.ok.inj h
    rfl
  | cons candidate rest ih =>
    obtain ⟨number, next, tail, -, htail, rfl⟩ := candidateChannels_cons h
    rw [List.map_cons, List.map_cons, ih htail]
    rfl

/-- A row opens a channel exactly if its candidate does. -/
theorem opens_candidateChannel {candidate : CandidateRow} {number : String} :
    channels.opens (candidateChannel channelId channels account candidate number) =
      opensChannel channelId channels account candidate := by
  unfold Channels.opens opensChannel candidateChannel
  cases hjoined : channels.joined account candidate.canonicalKey with
  | none => simp
  | some row =>
    have hmem : row.id ∈ channels.rows.map ChannelRow.id :=
      List.mem_map_of_mem (Channels.joined_eq_some hjoined).1
    simpa using hmem

theorem candidateChannels_error {rest : List CandidateRow} {place : Nat} {error : CatalogError}
    (h : candidateChannels collation channelId channels account candidates sequence rest place =
      .error error) : error = .sequenceExhausted := by
  induction rest generalizing place with
  | nil => cases h
  | cons candidate rest ih =>
    rcases error_of_bind h with hnumber | ⟨next, hnumber, h⟩
    · unfold candidateNumber at hnumber
      split at hnumber
      · cases hnumber
      · cases hnumber
      · unfold NumberSequence.nextval at hnumber
        split at hnumber
        · cases hnumber
        · exact (Except.error.inj hnumber).symm
    · rcases error_of_bind h with htail | ⟨tail, htail, h⟩
      · exact ih htail
      · cases h

end Numbers

/-! ## Numbering without collisions -/

section Publication

variable (collation : LinearOrder String) (channelId : Uuid → String → Uuid)
variable (channels : Channels) (account : Uuid) (candidates : Candidates)
variable (sequence : NumberSequence)

/-- The new channels get distinct numbers that nobody has, the index of the numbers accepts
them, and the channels that exist keep theirs. -/
structure NumberingHolds : Prop where
  free : ∀ rows, candidateChannels collation channelId channels account candidates sequence
    candidates.rows 0 = .ok rows → NumbersFree channels rows
  accepted : upsertCandidateChannels collation channelId channels account candidates sequence ≠
    .error .channelNumberTaken
  kept : ∀ after affected,
    upsertCandidateChannels collation channelId channels account candidates sequence =
      .ok (after, affected) → NumbersKept channels after

/-- The candidates that draw a number, in the order of the statement. -/
def drawing : List CandidateRow :=
  candidates.rows.filter (drawsNumber collation channels account candidates)

/-- No number that the sequence has for a new channel is in use or granted to another one. -/
def DrawsFree : Prop :=
  sequenceLasts sequence (drawing collation channels account candidates).length →
    ∀ i candidate, (drawing collation channels account candidates)[i]? = some candidate →
      opensChannel channelId channels account candidate = true →
        sequence.text i ∉ channels.rows.map ChannelRow.channelNumber ∧
        ∀ other ∈ candidates.rows, opensChannel channelId channels account other = true →
          grantedNumber collation channels account candidates other ≠ some (sequence.text i)

variable {collation channelId channels account candidates sequence}

theorem joined_of_opensChannel {candidate : CandidateRow}
    (h : opensChannel channelId channels account candidate = true) :
    channels.joined account candidate.canonicalKey = none :=
  (of_decide_eq_true h).1

/-- Two new rows with one number belong to one candidate. -/
theorem candidate_of_number (hfree : DrawsFree collation channelId channels account candidates
    sequence) {rows : List ChannelRow}
    (h : candidateChannels collation channelId channels account candidates sequence
      candidates.rows 0 = .ok rows) {x y : ChannelRow} (hx : x ∈ rows) (hy : y ∈ rows)
    (hopenX : channels.opens x = true) (hopenY : channels.opens y = true)
    (hsame : x.channelNumber = y.channelNumber) : x = y := by
  have hlasts : sequenceLasts sequence (drawing collation channels account candidates).length := by
    intro i hi
    simpa using lasts_of_candidateChannels h i hi
  obtain ⟨a, ha, hxa, hsourceA⟩ := mem_candidateChannels h hx
  obtain ⟨b, hb, hyb, hsourceB⟩ := mem_candidateChannels h hy
  have hopenA : opensChannel channelId channels account a = true := by
    rw [← opens_candidateChannel, ← hxa]
    exact hopenX
  have hopenB : opensChannel channelId channels account b = true := by
    rw [← opens_candidateChannel, ← hyb]
    exact hopenY
  have hwhole : a = b → x = y := by
    rintro rfl
    rw [hxa, hyb, hsame]
  have hnew : ∀ {c : CandidateRow}, opensChannel channelId channels account c = true →
      ¬∃ existing, channels.joined account c.canonicalKey = some existing := by
    rintro c hopen ⟨existing, hexisting⟩
    rw [joined_of_opensChannel hopen] at hexisting
    cases hexisting
  rcases hsourceA with hgrantedA | hjoined | ⟨i, hi, htextA⟩
  · rcases hsourceB with hgrantedB | hjoined | ⟨j, hj, htextB⟩
    · rw [← hsame] at hgrantedB
      exact hwhole (grantedNumber_unique ha hb hgrantedA hgrantedB)
    · exact absurd hjoined (hnew hopenB)
    · rw [Nat.zero_add] at htextB
      rw [hsame, htextB] at hgrantedA
      exact absurd hgrantedA ((hfree hlasts j b hj hopenB).2 a ha hopenA)
  · exact absurd hjoined (hnew hopenA)
  · rw [Nat.zero_add] at htextA
    rcases hsourceB with hgrantedB | hjoined | ⟨j, hj, htextB⟩
    · rw [← hsame, htextA] at hgrantedB
      exact absurd hgrantedB ((hfree hlasts i a hi hopenA).2 b hb hopenB)
    · exact absurd hjoined (hnew hopenB)
    · rw [Nat.zero_add] at htextB
      have hplace : i = j := sequence.text_injective (htextA.symm.trans (hsame.trans htextB))
      rw [hplace] at hi
      exact hwhole (Option.some.inj (hi.symm.trans hj))

theorem numbersFree_of_drawsFree (hfree : DrawsFree collation channelId channels account
    candidates sequence) {rows : List ChannelRow}
    (h : candidateChannels collation channelId channels account candidates sequence
      candidates.rows 0 = .ok rows) : NumbersFree channels rows := by
  have hlasts : sequenceLasts sequence (drawing collation channels account candidates).length := by
    intro i hi
    simpa using lasts_of_candidateChannels h i hi
  have hkeys : (rows.map ChannelRow.canonicalKey).Nodup := by
    have hsome := candidates.keys.map (Option.some_injective String)
    rw [List.map_map] at hsome
    rw [keys_candidateChannels h]
    exact hsome
  refine ⟨?_, fun row hrow hopen hused => ?_⟩
  · refine List.Nodup.map_on (fun x hx y hy hsame => ?_) (hkeys.of_map.filter _)
    obtain ⟨hx, hopenX⟩ := List.mem_filter.mp hx
    obtain ⟨hy, hopenY⟩ := List.mem_filter.mp hy
    exact candidate_of_number hfree h hx hy hopenX hopenY hsame
  · obtain ⟨candidate, -, heq, hsource⟩ := mem_candidateChannels h hrow
    have hopenC : opensChannel channelId channels account candidate = true := by
      rw [← opens_candidateChannel, ← heq]
      exact hopen
    have hnew := joined_of_opensChannel hopenC
    rcases hsource with hgranted | ⟨existing, hexisting⟩ | ⟨i, hi, htext⟩
    · obtain ⟨occupied, hoccupied, hnumber⟩ := List.mem_map.mp hused
      have hown := (grantedNumber_eq_some hgranted).2.2 occupied hoccupied hnumber
      rw [hnew] at hown
      cases hown
    · rw [hnew] at hexisting
      cases hexisting
    · rw [htext, Nat.zero_add] at hused
      exact (hfree hlasts i candidate hi hopenC).1 hused

theorem drawsFree_of_numbersFree
    (hfree : ∀ rows, candidateChannels collation channelId channels account candidates sequence
      candidates.rows 0 = .ok rows → NumbersFree channels rows) :
    DrawsFree collation channelId channels account candidates sequence := by
  intro hlasts i candidate hi hopen
  obtain ⟨rows, h⟩ := @candidateChannels_lasts collation channelId channels account candidates
    sequence candidates.rows 0 (fun i hi => by simpa using hlasts i hi)
  have hnumbers := hfree rows h
  have hdrawn := candidateChannels_of_draw h hi
  rw [Nat.zero_add] at hdrawn
  have hopenRow : channels.opens
      (candidateChannel channelId channels account candidate (sequence.text i)) = true := by
    rw [opens_candidateChannel]
    exact hopen
  refine ⟨hnumbers.unused _ hdrawn hopenRow, fun other hother hopenOther hgranted => ?_⟩
  obtain ⟨row, hrow, heq, hnumber⟩ := candidateChannels_of_mem h hother
  have hopenOtherRow : channels.opens row = true := by
    rw [heq, opens_candidateChannel]
    exact hopenOther
  have hsame : candidateChannel channelId channels account candidate (sequence.text i) = row :=
    List.inj_on_of_nodup_map hnumbers.distinct (List.mem_filter.mpr ⟨hdrawn, hopenRow⟩)
      (List.mem_filter.mpr ⟨hrow, hopenOtherRow⟩) (hnumber _ hgranted).symm
  have hkey : candidate.canonicalKey = other.canonicalKey := by
    have hsome := congrArg ChannelRow.canonicalKey (hsame.trans heq)
    exact Option.some.inj hsome
  obtain ⟨hcandidate, hdraws⟩ := List.mem_filter.mp (List.mem_of_getElem? hi)
  obtain rfl := Table.eq_of_key candidates.keys hcandidate hother hkey
  rw [(of_decide_eq_true hdraws).1] at hgranted
  cases hgranted

theorem NumbersFree.filter {rows : List ChannelRow} (h : NumbersFree channels rows)
    (p : ChannelRow → Bool) : NumbersFree channels (rows.filter p) :=
  ⟨h.distinct.sublist ((List.filter_sublist.filter _).map _),
    fun row hrow hopen => h.unused row (List.mem_of_mem_filter hrow) hopen⟩

theorem accepted_of_numbersFree
    (hfree : ∀ rows, candidateChannels collation channelId channels account candidates sequence
      candidates.rows 0 = .ok rows → NumbersFree channels rows) :
    upsertCandidateChannels collation channelId channels account candidates sequence ≠
      .error .channelNumberTaken := by
  intro h
  rcases error_of_bind h with hrows | ⟨rows, hrows, hupsert⟩
  · cases candidateChannels_error hrows
  · exact upsertRows_numbers_free ((hfree rows hrows).filter _) hupsert

variable (collation channelId channels account candidates sequence) in
/-- The numbering holds exactly if the sequence does not run into a number that an existing
channel has or that the same statement grants. -/
theorem numbering_holds_iff :
    NumberingHolds collation channelId channels account candidates sequence ↔
      DrawsFree collation channelId channels account candidates sequence := by
  constructor
  · exact fun h => drawsFree_of_numbersFree h.free
  · intro hfree
    refine ⟨fun rows h => numbersFree_of_drawsFree hfree h, ?_, fun after affected h => ?_⟩
    · exact accepted_of_numbersFree fun rows h => numbersFree_of_drawsFree hfree h
    · obtain ⟨rows, -, hupsert⟩ := of_bind h
      exact numbersKept_upsertRows hupsert

end Publication

/-! ## A preferred number from the sequence -/

def plainCandidate (key : String) (preferredNumber : Option String) : CandidateRow :=
  { run := 1, canonicalKey := key, name := key, groupName := none, logoUrl := none,
    preferredNumber }

/-- The provider numbers one channel 1000000; the other has no number. -/
def clashing : Candidates where
  rows := [plainCandidate "news" (some "1000000"), plainCandidate "sport" none]
  keys := by decide

def emptyChannels : Channels := ⟨[], List.nodup_nil, List.nodup_nil, List.nodup_nil⟩

/-- `START 1000000`, with nobody else drawing. -/
def freshSequence : NumberSequence where
  value place := 1000000 + place
  increasing := fun _ _ h => Nat.add_lt_add_left h 1000000

/-- The first draw is the number that the other channel got. -/
theorem numbering_clashes :
    upsertCandidateChannels inferInstance (fun _ key => key.length) emptyChannels 7 clashing
        freshSequence = .error .channelNumberTaken ∧
      ¬NumberingHolds inferInstance (fun _ key => key.length) emptyChannels 7 clashing
        freshSequence := by
  have herror : upsertCandidateChannels inferInstance (fun _ key => key.length) emptyChannels 7
      clashing freshSequence = .error .channelNumberTaken := by decide +kernel
  exact ⟨herror, fun h => h.accepted herror⟩

end IptvRelay.Catalog
