import IptvRelay.Playback.ProbeRuns

/-!
# Exclusion between probes

A probe claims its stream in one statement, and only a statement that ends a claim too early
lets two probes hold one stream. The invariant: different probes hold different streams, the row
of a held stream is `checking` since its claim, and what a probe stores is a result of its own
stream.
-/

namespace IptvRelay.Playback

open Transition Checked StreamTables

def StreamHealthUpdate.Final (update : StreamHealthUpdate) : Prop :=
  update.status = .alive ∨ update.status = .dead

/-- What the rows of the streams and the probes say of each other. -/
structure Exclusive (streams : List ProviderStream) (probes : List Probe) : Prop where
  ids : (streams.map ProviderStream.id).Nodup
  different : (probes.filterMap Probe.held).Nodup
  claimed : ∀ probe ∈ probes, ∀ since, probe.heldSince = some since →
    ∀ row ∈ streams, row.id = probe.stream →
      row.healthStatus = .checking ∧ row.healthCheckedAt = some since
  results : ∀ probe ∈ probes, ∀ update ∈ probe.result,
    update.providerStreamId = probe.stream ∧ update.Final

section Claims

variable {streams : List ProviderStream} {probes rest : List Probe} {probe : Probe} {since : Time}

theorem held_eq_some {id : Uuid} (h : probe.held = some id) :
    probe.stream = id ∧ ∃ since, probe.heldSince = some since := by
  obtain ⟨since, hsince, hid⟩ := Option.map_eq_some_iff.mp h
  exact ⟨hid, since, hsince⟩

theorem held_of_heldSince (h : probe.heldSince = some since) : probe.held = some probe.stream := by
  rw [Probe.held, h, Option.map_some]

theorem held_eq_none (h : probe.heldSince = none) : probe.held = none := by
  rw [Probe.held, h, Option.map_none]

theorem Exclusive.perm (h : Exclusive streams probes) (hperm : probes.Perm rest) :
    Exclusive streams rest where
  ids := h.ids
  different := (hperm.filterMap Probe.held).nodup_iff.mp h.different
  claimed other hother := h.claimed other (hperm.mem_iff.mpr hother)
  results other hother := h.results other (hperm.mem_iff.mpr hother)

/-- A probe ends. -/
theorem Exclusive.tail (h : Exclusive streams (probe :: rest)) : Exclusive streams rest where
  ids := h.ids
  different := h.different.sublist ((List.sublist_cons_self probe rest).filterMap Probe.held)
  claimed other hother := h.claimed other (List.mem_cons_of_mem probe hother)
  results other hother := h.results other (List.mem_cons_of_mem probe hother)

/-- A probe joins. What it holds is `checking`, and nobody else holds it. -/
theorem Exclusive.cons (h : Exclusive streams rest)
    (hfree : ∀ id ∈ probe.held, id ∉ rest.filterMap Probe.held)
    (hclaimed : ∀ since, probe.heldSince = some since → ∀ row ∈ streams, row.id = probe.stream →
      row.healthStatus = .checking ∧ row.healthCheckedAt = some since)
    (hresults : ∀ update ∈ probe.result, update.providerStreamId = probe.stream ∧ update.Final) :
    Exclusive streams (probe :: rest) where
  ids := h.ids
  different := by
    cases hheld : probe.held with
    | none =>
      rw [List.filterMap_cons_none hheld]
      exact h.different
    | some id =>
      rw [List.filterMap_cons_some hheld]
      exact List.nodup_cons.mpr ⟨hfree id hheld, h.different⟩
  claimed other hother := by
    rcases List.mem_cons.mp hother with rfl | hold
    · exact hclaimed
    · exact h.claimed other hold
  results other hother := by
    rcases List.mem_cons.mp hother with rfl | hold
    · exact hresults
    · exact h.results other hold

/-- A probe that holds nothing joins. -/
theorem Exclusive.cons_idle (h : Exclusive streams rest) (hidle : probe.heldSince = none)
    (hresults : ∀ update ∈ probe.result, update.providerStreamId = probe.stream ∧ update.Final) :
    Exclusive streams (probe :: rest) := by
  apply h.cons _ _ hresults
  · intro id hid
    rw [held_eq_none hidle] at hid
    cases hid
  · intro since hsince
    rw [hidle] at hsince
    cases hsince

/-- A holder is alone. -/
theorem Exclusive.alone (h : Exclusive streams (probe :: rest))
    (hsince : probe.heldSince = some since) : probe.stream ∉ rest.filterMap Probe.held := by
  have hdifferent := h.different
  rw [List.filterMap_cons_some (held_of_heldSince hsince)] at hdifferent
  exact (List.nodup_cons.mp hdifferent).1

/-- Nobody holds a stream whose row is not `checking`. -/
theorem Exclusive.not_held {row : ProviderStream} (h : Exclusive streams probes)
    (hrow : row ∈ streams) (hfree : row.healthStatus ≠ .checking) :
    row.id ∉ probes.filterMap Probe.held := by
  intro hmem
  obtain ⟨other, hother, hheld⟩ := List.mem_filterMap.mp hmem
  obtain ⟨hid, since, hsince⟩ := held_eq_some hheld
  exact hfree (h.claimed other hother since hsince row hrow hid.symm).1

/-- A probe goes on with its claim, or drops it. -/
theorem Exclusive.goOn {place : ProbePlace} (h : Exclusive streams (probe :: rest))
    (hheld : ({ probe with place } : Probe).heldSince = probe.heldSince)
    (hresults : ∀ update ∈ ({ probe with place } : Probe).result,
      update.providerStreamId = probe.stream ∧ update.Final) :
    Exclusive streams ({ probe with place } :: rest) := by
  refine h.tail.cons (fun id hid => ?_) (fun since hsince => ?_) hresults
  · obtain ⟨rfl, since, hsince⟩ := held_eq_some hid
    exact h.alone (hheld ▸ hsince)
  · exact h.claimed probe List.mem_cons_self since (hheld ▸ hsince)

/-- A statement that leaves the health of the held streams alone. -/
theorem Exclusive.update {p : ProviderStream → Bool} {f : ProviderStream → ProviderStream}
    (h : Exclusive streams probes) (hid : ∀ row, (f row).id = row.id)
    (hkeep : ∀ row ∈ streams, p row = true → row.id ∈ probes.filterMap Probe.held →
      (f row).healthStatus = row.healthStatus ∧ (f row).healthCheckedAt = row.healthCheckedAt) :
    Exclusive (Table.update p f streams) probes where
  ids := Table.nodup_update (fun row _ => hid row) h.ids
  different := h.different
  claimed probe hprobe since hsince row hrow hstream := by
    rcases Table.update_cases hrow with ⟨hold, -⟩ | ⟨old, hold, hp, rfl⟩
    · exact h.claimed probe hprobe since hsince row hold hstream
    · have hstream : old.id = probe.stream := (hid old).symm.trans hstream
      have hmem : old.id ∈ probes.filterMap Probe.held :=
        List.mem_filterMap.mpr ⟨probe, hprobe, hstream ▸ held_of_heldSince hsince⟩
      obtain ⟨hstatus, hchecked⟩ := hkeep old hold hp hmem
      rw [hstatus, hchecked]
      exact h.claimed probe hprobe since hsince old hold hstream
  results := h.results

/-- A statement about streams that nobody holds. -/
theorem Exclusive.update_free {p : ProviderStream → Bool} {f : ProviderStream → ProviderStream}
    (h : Exclusive streams probes) (hid : ∀ row, (f row).id = row.id)
    (hfree : ∀ row ∈ streams, p row = true → row.id ∉ probes.filterMap Probe.held) :
    Exclusive (Table.update p f streams) probes :=
  h.update hid fun row hrow hp hheld => absurd hheld (hfree row hrow hp)

/-- Fewer streams. -/
theorem Exclusive.sublist {fewer : List ProviderStream} (h : Exclusive streams probes)
    (hsub : fewer.Sublist streams) : Exclusive fewer probes where
  ids := h.ids.sublist (hsub.map ProviderStream.id)
  different := h.different
  claimed probe hprobe since hsince row hrow :=
    h.claimed probe hprobe since hsince row (hsub.subset hrow)
  results := h.results

end Claims

/-! ## Steps -/

/-- The statements that end claims find none that is still needed: a worker starts while nobody
probes, and a claim is recovered after its probe has ended. -/
def Undisturbed (s : ProbeRun) : ProbeOp → Prop
  | .change .workerStart => ∀ probe ∈ s.probes, probe.heldSince = none
  | .change (.recoverStranded now) =>
    ∀ probe ∈ s.probes, ∀ since ∈ probe.heldSince, now ≤ since + strandedTimeout
  | _ => True

instance (s : ProbeRun) : (op : ProbeOp) → Decidable (Undisturbed s op)
  | .change .workerStart =>
    inferInstanceAs (Decidable (∀ probe ∈ s.probes, probe.heldSince = none))
  | .change (.recoverStranded now) => inferInstanceAs
    (Decidable (∀ probe ∈ s.probes, ∀ since ∈ probe.heldSince, now ≤ since + strandedTimeout))
  | .load _ | .claim _ _ | .stop _ | .reserved _ | .conflict _ | .probed _ _ | .store _ _
  | .log _ _ | .list _ | .rank _ | .change (.recordPassive _ _ _) | .change (.recordMeasurement _)
  | .change .rankAll | .change (.insertStream _) | .change (.deleteStream _)
  | .change (.setLinks _) => isTrue trivial

structure Orderly (s : ProbeRun) : Prop where
  exclusive : Exclusive s.tables.streams s.probes
  checks : ∀ check ∈ s.tables.checks, check.status = .alive ∨ check.status = .dead

section Steps

variable {s t : ProbeRun} {probe : Probe} {now : Time}

theorem Orderly.pick (h : Orderly s) (hprobe : probe ∈ s.probes) :
    Exclusive s.tables.streams (probe :: s.probes.erase probe) :=
  h.exclusive.perm (List.perm_cons_erase hprobe)

theorem streamHealthUpdateFor_final {outcome : StreamProbeOutcome} {id : Uuid} :
    ∀ update ∈ streamHealthUpdateFor id outcome, update.providerStreamId = id ∧ update.Final := by
  intro update hupdate
  cases outcome with
  | alive =>
    obtain rfl := Option.some.inj hupdate
    exact ⟨rfl, .inl rfl⟩
  | dead =>
    obtain rfl := Option.some.inj hupdate
    exact ⟨rfl, .inr rfl⟩
  | skipped => cases hupdate

theorem Orderly.load {id : Uuid} (h : Orderly s) (hstep : s.step (.load id) = some t) :
    Orderly t := by
  obtain ⟨target, -, hstep⟩ := Option.bind_eq_some_iff.mp hstep
  obtain ⟨-, hstep⟩ := of_guard hstep
  obtain rfl := Option.some.inj hstep
  exact ⟨h.exclusive.cons_idle rfl (fun update hupdate => by cases hupdate), h.checks⟩

/-- A claim takes a stream that nobody holds. -/
theorem Orderly.claim (h : Orderly s) (hstep : s.step (.claim probe now) = some t) :
    Orderly t := by
  obtain ⟨⟨hprobe, hplace⟩, hstep⟩ := of_guard hstep
  obtain rfl := Option.some.inj hstep
  refine ⟨?_, h.checks⟩
  have hfree : ∀ row ∈ s.tables.streams, (row.id = probe.stream ∧
      (row.healthStatus = .unknown ∨ row.healthStatus = .dead)) →
        row.id ∉ s.probes.filterMap Probe.held := by
    rintro row hrow ⟨-, hstatus⟩
    apply h.exclusive.not_held hrow
    rcases hstatus with hstatus | hstatus <;> simp [hstatus]
  have hupdated : Exclusive (s.tables.tryMarkStreamChecking now probe.stream).1.streams s.probes :=
    h.exclusive.update_free (fun row => rfl) fun row hrow hp =>
      hfree row hrow (of_decide_eq_true hp)
  have hupdated := hupdated.perm (List.perm_cons_erase hprobe)
  change Exclusive (s.tables.tryMarkStreamChecking now probe.stream).1.streams (s.move probe
    (if (s.tables.tryMarkStreamChecking now probe.stream).2 then some (.claimed now) else none))
  cases hclaimed : (s.tables.tryMarkStreamChecking now probe.stream).2 with
  | false => exact hupdated.tail
  | true =>
    obtain ⟨target, htarget, hclaimable⟩ := List.any_eq_true.mp hclaimed
    have hid := (of_decide_eq_true hclaimable).1
    change Exclusive _ ({ probe with place := .claimed now } :: s.probes.erase probe)
    refine hupdated.tail.cons (fun id hheld => ?_) (fun since hsince row hrow hstream => ?_) ?_
    · obtain rfl := Option.some.inj hheld
      intro hmem
      apply hfree target htarget (of_decide_eq_true hclaimable)
      rw [hid]
      exact (List.erase_sublist.filterMap Probe.held).subset hmem
    · obtain rfl := Option.some.inj hsince
      rcases Table.update_cases hrow with ⟨hold, hnot⟩ | ⟨old, -, -, rfl⟩
      · obtain rfl := Table.eq_of_key h.exclusive.ids hold htarget (hstream.trans hid.symm)
        exact absurd (hnot.symm.trans hclaimable) Bool.false_ne_true
      · exact ⟨rfl, rfl⟩
    · intro update hupdate
      cases hupdate

theorem Orderly.stop (h : Orderly s) (hstep : s.step (.stop probe) = some t) : Orderly t := by
  obtain ⟨hprobe, hstep⟩ := of_guard hstep
  obtain rfl := Option.some.inj hstep
  exact ⟨(h.pick hprobe).tail, h.checks⟩

theorem Orderly.reserved (h : Orderly s) (hstep : s.step (.reserved probe) = some t) :
    Orderly t := by
  obtain ⟨hprobe, hstep⟩ := of_guard hstep
  split at hstep
  · rename_i since hplace
    obtain rfl := Option.some.inj hstep
    refine ⟨(h.pick hprobe).goOn (by simp [Probe.heldSince, hplace]) ?_, h.checks⟩
    intro update hupdate
    cases hupdate
  · cases hstep

/-- A claim is given back by its holder only. -/
theorem Orderly.conflict (h : Orderly s) (hstep : s.step (.conflict probe) = some t) :
    Orderly t := by
  obtain ⟨hprobe, hstep⟩ := of_guard hstep
  split at hstep
  · rename_i since hplace
    obtain rfl := Option.some.inj hstep
    have hsince : probe.heldSince = some since := by simp [Probe.heldSince, hplace]
    have hpick := h.pick hprobe
    refine ⟨hpick.tail.update_free (fun row => rfl) fun row hrow hp => ?_, h.checks⟩
    rw [(of_decide_eq_true hp).1]
    exact hpick.alone hsince
  · cases hstep

theorem Orderly.probed {outcome : StreamProbeOutcome} (h : Orderly s)
    (hstep : s.step (.probed probe outcome) = some t) : Orderly t := by
  obtain ⟨hprobe, hstep⟩ := of_guard hstep
  split at hstep
  · rename_i since hplace
    obtain rfl := Option.some.inj hstep
    refine ⟨?_, h.checks⟩
    cases hupdate : streamHealthUpdateFor probe.stream outcome with
    | none => simpa [ProbeRun.move, hupdate] using (h.pick hprobe).tail
    | some update =>
      have hgo : Exclusive s.tables.streams
          ({ probe with place := .storing since update } :: s.probes.erase probe) := by
        apply (h.pick hprobe).goOn (by simp [Probe.heldSince, hplace])
        intro other hother
        obtain rfl := Option.some.inj hother
        exact streamHealthUpdateFor_final update hupdate
      simpa [ProbeRun.move, hupdate] using hgo
  · cases hstep

/-- The result of a probe goes to its own stream. -/
theorem Orderly.store (h : Orderly s) (hstep : s.step (.store probe now) = some t) :
    Orderly t := by
  obtain ⟨hprobe, hstep⟩ := of_guard hstep
  split at hstep
  · rename_i since update hplace
    obtain rfl := Option.some.inj hstep
    have hsince : probe.heldSince = some since := by simp [Probe.heldSince, hplace]
    have hpick := h.pick hprobe
    have hresult := h.exclusive.results probe hprobe update (by simp [Probe.result, hplace])
    have hupdated : Exclusive (s.tables.setStreamHealth now update).streams
        (s.probes.erase probe) := by
      refine hpick.tail.update_free (fun row => rfl) fun row hrow hp => ?_
      rw [(of_decide_eq_true hp).trans hresult.1]
      exact hpick.alone hsince
    refine ⟨hupdated.cons_idle rfl ?_, h.checks⟩
    intro other hother
    obtain rfl := Option.some.inj hother
    exact hresult
  · cases hstep

theorem Orderly.log (h : Orderly s) (hstep : s.step (.log probe now) = some t) : Orderly t := by
  obtain ⟨hprobe, hstep⟩ := of_guard hstep
  split at hstep
  · rename_i update hplace
    obtain ⟨tables, hlog, hstep⟩ := Option.bind_eq_some_iff.mp hstep
    obtain rfl := Option.some.inj hstep
    rw [StreamTables.logStreamHealth] at hlog
    split_ifs at hlog
    obtain rfl := Option.some.inj hlog
    refine ⟨(h.pick hprobe).tail.cons_idle rfl (fun other hother => by cases hother), ?_⟩
    intro check hcheck
    rcases List.mem_append.mp hcheck with hold | hnew
    · exact h.checks check hold
    · rw [List.mem_singleton.mp hnew]
      exact (h.exclusive.results probe hprobe update (by simp [Probe.result, hplace])).2
  · cases hstep

theorem Orderly.list (h : Orderly s) (hstep : s.step (.list probe) = some t) : Orderly t := by
  obtain ⟨⟨hprobe, -⟩, hstep⟩ := of_guard hstep
  obtain rfl := Option.some.inj hstep
  exact ⟨(h.pick hprobe).tail.cons_idle rfl (fun other hother => by cases hother), h.checks⟩

theorem Orderly.rank (h : Orderly s) (hstep : s.step (.rank probe) = some t) : Orderly t := by
  obtain ⟨hprobe, hstep⟩ := of_guard hstep
  split at hstep
  · obtain rfl := Option.some.inj hstep
    exact ⟨(h.pick hprobe).tail.cons_idle rfl (fun other hother => by cases hother), h.checks⟩
  · cases hstep

theorem Orderly.change {change : TableChange} (h : Orderly s)
    (hok : Undisturbed s (.change change)) (hstep : s.step (.change change) = some t) :
    Orderly t := by
  cases change with
  | workerStart =>
    obtain rfl := Option.some.inj hstep
    refine ⟨h.exclusive.update_free (fun row => rfl) fun row _ _ hmem => ?_, h.checks⟩
    obtain ⟨other, hother, hheld⟩ := List.mem_filterMap.mp hmem
    rw [held_eq_none (hok other hother)] at hheld
    cases hheld
  | recoverStranded now =>
    obtain rfl := Option.some.inj hstep
    refine ⟨h.exclusive.update_free (fun row => rfl) fun row hrow hp hmem => ?_, h.checks⟩
    obtain ⟨other, hother, hheld⟩ := List.mem_filterMap.mp hmem
    obtain ⟨hid, since, hsince⟩ := held_eq_some hheld
    have hchecked := (h.exclusive.claimed other hother since hsince row hrow hid.symm).2
    have hrecent : now ≤ since + strandedTimeout := hok other hother since hsince
    have hold := (of_decide_eq_true hp).2
    rw [hchecked, Option.any_some, decide_eq_true_eq] at hold
    exact Nat.not_lt.mpr hrecent hold
  | recordPassive now update minAge =>
    obtain rfl := Option.some.inj hstep
    simp only [recordPassiveStreamInfo]
    split
    · obtain ⟨hranks, hchecks, -⟩ := foldl_rankChannel
        ((s.tables.updateStreams _ _).channelsForStream update.providerStreamId)
        (s.tables.updateStreams _ _)
      refine ⟨hranks.streams ▸ h.exclusive.update_free (fun row => rfl) fun row hrow hp => ?_, ?_⟩
      · exact h.exclusive.not_held hrow (of_decide_eq_true hp).2.1
      · rw [hchecks]
        exact h.checks
    · exact h
  | recordMeasurement sample =>
    obtain ⟨stored, hstored, rfl⟩ := Option.map_eq_some_iff.mp hstep
    unfold recordStreamMeasurement at hstored
    split at hstored
    · obtain rfl := Option.some.inj hstored
      exact h
    · split at hstored
      · obtain rfl := Option.some.inj hstored
        split
        · exact ⟨h.exclusive, h.checks⟩
        · exact ⟨h.exclusive.update (fun row => rfl) fun row _ _ _ => ⟨rfl, rfl⟩, h.checks⟩
      · cases hstored
  | rankAll =>
    obtain rfl := Option.some.inj hstep
    exact ⟨h.exclusive, h.checks⟩
  | insertStream row =>
    obtain ⟨⟨hnew, hunknown⟩, hstep⟩ := of_guard hstep
    obtain rfl := Option.some.inj hstep
    refine ⟨{ h.exclusive with ids := ?_, claimed := ?_ }, h.checks⟩
    · rw [List.map_append]
      refine List.nodup_append.mpr ⟨h.exclusive.ids, List.nodup_singleton _, ?_⟩
      intro id hid other hother
      rw [List.mem_singleton.mp hother]
      rintro rfl
      exact hnew hid
    · intro other hother since hsince old hold hstream
      rcases List.mem_append.mp hold with hold | hadded
      · exact h.exclusive.claimed other hother since hsince old hold hstream
      · rw [List.mem_singleton.mp hadded] at hstream
        exact absurd (List.mem_map.mpr ⟨other, hother, hstream.symm⟩) hunknown
  | deleteStream id =>
    obtain rfl := Option.some.inj hstep
    exact ⟨h.exclusive.sublist Table.delete_sublist,
      fun check hcheck => h.checks check (Table.delete_sublist.subset hcheck)⟩
  | setLinks links =>
    obtain rfl := Option.some.inj hstep
    exact ⟨h.exclusive, h.checks⟩

/-- What one step keeps. -/
theorem Orderly.step {op : ProbeOp} (h : Orderly s) (hok : Undisturbed s op)
    (hstep : s.step op = some t) : Orderly t := by
  cases op with
  | load id => exact h.load hstep
  | claim probe now => exact h.claim hstep
  | stop probe => exact h.stop hstep
  | reserved probe => exact h.reserved hstep
  | conflict probe => exact h.conflict hstep
  | probed probe outcome => exact h.probed hstep
  | store probe now => exact h.store hstep
  | log probe now => exact h.log hstep
  | list probe => exact h.list hstep
  | rank probe => exact h.rank hstep
  | change change => exact h.change hok hstep

end Steps

/-! ## Runs -/

/-- However the probes of all workers run between each other, and whatever else happens to the
tables: two probes never hold one stream, the row of a held stream is `checking` since its claim,
and only results of probes are logged. -/
theorem probes_exclude (tables : StreamTables)
    (hids : (tables.streams.map ProviderStream.id).Nodup)
    (hchecks : ∀ check ∈ tables.checks, check.status = .alive ∨ check.status = .dead)
    {s : ProbeRun} (h : (probeMachine tables).ReachableWhere Undisturbed s) :
    (s.probes.filterMap Probe.held).Nodup ∧
    (∀ probe ∈ s.probes, ∀ since, probe.heldSince = some since →
      ∀ row ∈ s.tables.streams, row.id = probe.stream →
        row.healthStatus = .checking ∧ row.healthCheckedAt = some since) ∧
    ∀ check ∈ s.tables.checks, check.status = .alive ∨ check.status = .dead := by
  have hs : Orderly s := by
    apply h.invariant
    · refine ⟨⟨hids, List.nodup_nil, ?_, ?_⟩, hchecks⟩
      · intro probe hprobe
        cases hprobe
      · intro probe hprobe
        cases hprobe
    · intro s op t hs hok hstep
      exact hs.step hok hstep
  exact ⟨hs.exclusive.different, hs.exclusive.claimed, hs.checks⟩

/-- Two streams, the second of them known to be alive. -/
def probeTables : StreamTables where
  streams := [exampleStream 1 none, { exampleStream 2 none with healthStatus := .alive }]
  links := [{ channelId := 9, providerStreamId := 1, priority := 0 }]

/-- Two probes of the first stream: one claims it, the other one ends. -/
def probeOps : List ProbeOp := [
  .load 1, .load 1, .claim ⟨1, .loaded⟩ 5, .claim ⟨1, .loaded⟩ 6, .reserved ⟨1, .claimed 5⟩,
  .change (.recoverStranded 7)]

theorem probes_exclude_two : ∃ s : ProbeRun, s.probes = [⟨1, .probing 5⟩] ∧
    (s.probes.filterMap Probe.held).Nodup ∧ ∀ row ∈ s.tables.streams, row.id = 1 →
      row.healthStatus = .checking ∧ row.healthCheckedAt = some 5 := by
  obtain ⟨s, hreach, hs⟩ := (probeMachine probeTables).exists_reachableWhere_of_run Undisturbed
    (fun s op => decide (Undisturbed s op)) probeOps (fun s => s.probes = [⟨1, .probing 5⟩])
    (fun _ _ _ hok => of_decide_eq_true hok) (by decide)
  have hs := of_decide_eq_true hs
  obtain ⟨hdifferent, hclaimed, -⟩ := probes_exclude probeTables (by decide)
    (fun check hcheck => by cases hcheck) hreach
  exact ⟨s, hs, hdifferent, hclaimed ⟨1, .probing 5⟩ (hs ▸ List.mem_cons_self) 5 rfl⟩

/-- A worker that starts ends the claims of the others, and then two probes hold one stream. -/
example : ((probeMachine probeTables).run [.load 1, .claim ⟨1, .loaded⟩ 5, .change .workerStart,
    .load 1, .claim ⟨1, .loaded⟩ 6]).map (fun s => s.probes.filterMap Probe.held) =
      some [1, 1] := by
  decide

end IptvRelay.Playback
