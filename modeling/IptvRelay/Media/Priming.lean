import IptvRelay.Media.Packetizer
import IptvRelay.Media.PsiSections

/-!
# Priming a body

Model of `prime_body` in `session.rs`. The packets of a new body are retained in
a sliding window until a PAT and its PMT have been seen; the result begins with
that PAT and ends with the rest of the current chunk. Sequences count the
packets of the body and are natural numbers here.
-/

namespace IptvRelay.Media

open Blocks Psi

inductive SessionFailureKind where
  | upstreamEnded
  | upstreamRead
  | readTimeout
  | invalidSync
  | incompleteTail
  | priming
  deriving DecidableEq, Repr

/-- What awaiting the next chunk gives, apart from the end of the body. -/
inductive BodyItem where
  | chunk (bytes : Bytes)
  | readError
  | timeout
  deriving DecidableEq, Repr

def maxPrimingPackets : Nat := 16384

def packetizerFailure : PacketizerError → SessionFailureKind
  | .invalidSyncByte _ _ => .invalidSync
  | .incompleteTail _ => .incompleteTail

/-- The variables of the loop. -/
structure Priming where
  tracker : PatPmtTracker := {}
  retained : Bytes := []
  firstSequence : Nat := 0
  nextSequence : Nat := 0
  deriving DecidableEq, Repr

namespace Priming

/-- A full window loses its oldest packet, and with it a candidate that begins there. -/
def evict (self : Priming) : Priming :=
  if self.retained.length = maxPrimingPackets * mpegTsPacketSize then
    let firstSequence := self.firstSequence + 1
    { self with
      retained := self.retained.drop mpegTsPacketSize
      firstSequence
      tracker :=
        if self.tracker.candidateStart.any fun candidate => decide (candidate < firstSequence) then
          PatPmtTracker.reset
        else self.tracker }
  else self

/-- One packet: make room, retain it and show it to the tracker. -/
def observe (self : Priming) (packet : Bytes) : Priming × Option Nat :=
  let kept := self.evict
  let observed := kept.tracker.observe packet kept.nextSequence
  ({ kept with
      retained := kept.retained ++ packet
      tracker := observed.1
      nextSequence := kept.nextSequence + 1 },
    observed.2)

/-- The retained packets from the boundary on and what follows in the chunk. -/
def handOver (self : Priming) (boundary : Nat) (later : Bytes) : Except SessionFailureKind Bytes :=
  if boundary < self.firstSequence then .error .priming
  else
    let offset := (boundary - self.firstSequence) * mpegTsPacketSize
    if offset < self.retained.length then .ok ((self.retained ++ later).drop offset)
    else .error .priming

/-- The loop over the packets of one chunk from number `packetIndex` on: the state after them, or
the primed bytes. -/
def observeAll (self : Priming) (packets : Bytes) (packetIndex : Nat) :
    List Bytes → Except SessionFailureKind (Priming ⊕ Bytes)
  | [] => .ok (.inl self)
  | packet :: rest =>
    match self.observe packet with
    | (next, none) => next.observeAll packets (packetIndex + 1) rest
    | (next, some boundary) =>
      (next.handOver boundary (packets.drop ((packetIndex + 1) * mpegTsPacketSize))).map .inr

/-- The loop over the chunks: the primed bytes, the packetizer and the unread rest of the body. -/
def run (self : Priming) (packetizer : MpegTsPacketizer) :
    List BodyItem → Except SessionFailureKind (Bytes × MpegTsPacketizer × List BodyItem)
  | [] => .error .upstreamEnded
  | .timeout :: _ => .error .readTimeout
  | .readError :: _ => .error .upstreamRead
  | .chunk chunk :: rest =>
    match packetizer.push chunk with
    | (_, .error error) => .error (packetizerFailure error)
    | (packetizer, .ok packets) =>
      match self.observeAll packets 0 (chunksExact mpegTsPacketSize packets) with
      | .error failure => .error failure
      | .ok (.inr primed) => .ok (primed, packetizer, rest)
      | .ok (.inl next) => next.run packetizer rest

end Priming

def primeBody (body : List BodyItem) (packetizer : MpegTsPacketizer) :
    Except SessionFailureKind (Bytes × MpegTsPacketizer × List BodyItem) :=
  Priming.run {} packetizer body

/-! ## The packets alone -/

/-- The loop over a list of packets, however they were cut: the first boundary that the tracker
reports. -/
def Priming.scan (self : Priming) : List Bytes → Priming × Option Nat
  | [] => (self, none)
  | packet :: rest =>
    match self.observe packet with
    | (next, none) => next.scan rest
    | (next, some boundary) => (next, some boundary)

/-- The packet with which the primed part of a packet stream begins. -/
def primingStart (stream : List Bytes) : Option Nat := (Priming.scan {} stream).2

theorem Priming.scan_append {self next : Priming} {before : List Bytes}
    (h : self.scan before = (next, none)) (after : List Bytes) :
    self.scan (before ++ after) = next.scan after := by
  induction before generalizing self with
  | nil =>
    cases h
    rfl
  | cons packet rest ih =>
    rw [List.cons_append, Priming.scan]
    rw [Priming.scan] at h
    split at h
    · exact ih h
    · cases h

theorem Priming.scan_append_some {self : Priming} {before : List Bytes} {boundary : Nat}
    (h : (self.scan before).2 = some boundary) (after : List Bytes) :
    (self.scan (before ++ after)).2 = some boundary := by
  induction before generalizing self with
  | nil => cases h
  | cons packet rest ih =>
    rw [List.cons_append, Priming.scan]
    rw [Priming.scan] at h
    split at h
    · exact ih h
    · exact h

/-! ## The window -/

/-- The state after the packets of `log`. -/
structure Priming.Follows (state : Priming) (log : List Bytes) : Prop where
  next : state.nextSequence = log.length
  first : state.firstSequence = log.length - maxPrimingPackets
  size : ∀ packet ∈ log, packet.length = mpegTsPacketSize
  retained : state.retained = (log.drop state.firstSequence).flatten
  tracker : TrackerOk log state.tracker

theorem Priming.follows_nil : Priming.Follows {} [] :=
  ⟨rfl, rfl, by simp, rfl, trackerOk_reset []⟩

theorem length_flatten_packets {packets : List Bytes}
    (h : ∀ packet ∈ packets, packet.length = mpegTsPacketSize) :
    packets.flatten.length = packets.length * mpegTsPacketSize := by
  rw [List.length_flatten, List.map_congr_left h]
  simp

theorem drop_flatten_packets {packets : List Bytes}
    (h : ∀ packet ∈ packets, packet.length = mpegTsPacketSize) (n : Nat) :
    packets.flatten.drop (n * mpegTsPacketSize) = (packets.drop n).flatten := by
  induction n generalizing packets with
  | zero => simp
  | succ n ih =>
    cases packets with
    | nil => simp
    | cons packet rest =>
      have hpacket : packet.length = mpegTsPacketSize := h packet (by simp)
      rw [List.flatten_cons, Nat.succ_mul, Nat.add_comm, ← hpacket, List.drop_length_add_append,
        hpacket, List.drop_succ_cons]
      exact ih fun p hp => h p (List.mem_cons_of_mem _ hp)

/-- The window is full exactly when as many packets were observed. -/
theorem Priming.Follows.full_iff {self : Priming} {log : List Bytes} (h : self.Follows log) :
    self.retained.length = maxPrimingPackets * mpegTsPacketSize ↔
      maxPrimingPackets ≤ log.length := by
  have hlen : self.retained.length = (log.length - self.firstSequence) * mpegTsPacketSize := by
    rw [h.retained, length_flatten_packets fun p hp => h.size p (List.mem_of_mem_drop hp),
      List.length_drop]
  have hfirst := h.first
  rw [hlen, Nat.mul_left_inj (by decide)]
  omega

/-- After the eviction there is room, and no candidate begins before the window. -/
theorem Priming.Follows.evicted {self : Priming} {log : List Bytes} (h : self.Follows log) :
    self.evict.nextSequence = log.length ∧
      self.evict.firstSequence = log.length + 1 - maxPrimingPackets ∧
      self.evict.retained = (log.drop self.evict.firstSequence).flatten ∧
      TrackerOk log self.evict.tracker ∧
      ∀ candidate, self.evict.tracker.candidate = some candidate →
        self.evict.firstSequence ≤ candidate.patStartSequence := by
  have hfirst := h.first
  unfold Priming.evict
  split
  · rename_i hfull
    have hmany := h.full_iff.mp hfull
    refine ⟨h.next, by dsimp only; omega, ?_, ?_, ?_⟩
    · dsimp only
      rw [h.retained, ← List.drop_drop, ← drop_flatten_packets
        (fun p hp => h.size p (List.mem_of_mem_drop hp)) 1, Nat.one_mul]
    · dsimp only
      split
      · exact trackerOk_reset log
      · exact h.tracker
    · dsimp only
      split
      · exact fun candidate hnone => by cases hnone
      · rename_i hkept
        intro candidate hcandidate
        simp only [PatPmtTracker.candidateStart, hcandidate, Option.map_some, Option.any_some,
          decide_eq_true_eq] at hkept
        omega
  · rename_i hroom
    have hfew := mt h.full_iff.mpr hroom
    exact ⟨h.next, by omega, h.retained, h.tracker, fun candidate _ => by omega⟩

/-- A reported boundary is that of the candidate before the packet. -/
theorem observe_boundary {log : List Bytes} {tracker : PatPmtTracker} (h : TrackerOk log tracker)
    {packet : Bytes} {boundary : Nat}
    (hobserve : (tracker.observe packet log.length).2 = some boundary) :
    ∃ candidate, tracker.candidate = some candidate ∧ candidate.patStartSequence = boundary := by
  unfold PatPmtTracker.observe at hobserve
  split at hobserve
  · cases hobserve
  · rename_i header hhead
    by_cases hpid : header.pid = patPid
    · -- a packet of the PAT's PID cannot complete a PMT
      have hcand := (observePat_pat h hhead hpid).2
      have hother : ∀ c, (tracker.observePat header log.length).candidate = some c →
          c.pid ≠ patPid := by
        intro c hc
        rcases hcand with hsame | ⟨c', hc', hne, _⟩
        · rw [hsame] at hc
          exact (h.candidate c hc).1
        · rw [hc'] at hc
          cases hc
          exact hne
      rw [observePmt_pat _ hpid hother] at hobserve
      cases hobserve
    · rw [observePat_other _ hpid] at hobserve
      unfold PatPmtTracker.observePmt at hobserve
      split at hobserve
      · cases hobserve
      · rename_i candidate hcandidate
        split at hobserve
        · cases hobserve
        · split at hobserve
          · cases hobserve
          · split at hobserve
            · exact ⟨candidate, hcandidate, Option.some.inj hobserve⟩
            · cases hobserve

/-- One packet: the state follows the longer log, or the boundary is a safe start in the window. -/
theorem Priming.Follows.observe {self : Priming} {log : List Bytes} (h : self.Follows log)
    {packet : Bytes} (hsize : packet.length = mpegTsPacketSize) :
    (self.observe packet).1.Follows (log ++ [packet]) ∧
      ∀ boundary, (self.observe packet).2 = some boundary →
        (self.observe packet).1.firstSequence ≤ boundary ∧
          SafeStart (log ++ [packet]) boundary log.length := by
  obtain ⟨hnext, hfirst, hretained, htracker, hcandidate⟩ := h.evicted
  have hobserve := htracker.observe packet
  unfold Priming.observe
  dsimp only
  rw [hnext]
  refine ⟨⟨by simp, ?_, ?_, ?_, hobserve.1⟩, fun boundary hboundary => ⟨?_, hobserve.2 _ hboundary⟩⟩
  · rw [List.length_append, List.length_singleton]
    exact hfirst
  · intro p hp
    rcases List.mem_append.mp hp with hold | hnew
    · exact h.size p hold
    · rw [List.mem_singleton.mp hnew]
      exact hsize
  · have hroom : self.evict.firstSequence ≤ log.length := by
      rw [hfirst]
      exact Nat.sub_le_of_le_add (Nat.add_le_add_left (by decide) _)
    dsimp only
    rw [List.drop_append_of_le_length hroom, List.flatten_append, List.flatten_singleton, hretained]
  · obtain ⟨candidate, hsome, hstart⟩ := observe_boundary htracker hboundary
    rw [← hstart]
    exact hcandidate candidate hsome

/-- A boundary in the window is handed over: the packets from there on and the rest. -/
theorem Priming.Follows.handOver {self : Priming} {log : List Bytes} (h : self.Follows log)
    {boundary : Nat} (hfirst : self.firstSequence ≤ boundary) (hlog : boundary < log.length)
    (later : Bytes) :
    self.handOver boundary later = .ok ((log.drop boundary).flatten ++ later) := by
  have hlen : self.retained.length = (log.length - self.firstSequence) * mpegTsPacketSize := by
    rw [h.retained, length_flatten_packets fun p hp => h.size p (List.mem_of_mem_drop hp),
      List.length_drop]
  have hoffset : (boundary - self.firstSequence) * mpegTsPacketSize < self.retained.length := by
    rw [hlen]
    exact Nat.mul_lt_mul_of_pos_right (by omega) (by decide)
  unfold Priming.handOver
  rw [if_neg (Nat.not_lt.mpr hfirst)]
  dsimp only
  rw [if_pos hoffset, List.drop_append_of_le_length hoffset.le, h.retained,
    drop_flatten_packets fun p hp => h.size p (List.mem_of_mem_drop hp), List.drop_drop,
    Nat.add_sub_of_le hfirst]

/-- The packets of one chunk: the state follows them, or the primed bytes are the packets from a
safe start on. The offset arithmetic never fails. -/
theorem Priming.Follows.observeAll {self : Priming} {log blocks : List Bytes} (h : self.Follows log)
    (hsize : ∀ packet ∈ blocks, packet.length = mpegTsPacketSize) {packets : Bytes}
    {packetIndex : Nat} (hblocks : packets.drop (packetIndex * mpegTsPacketSize) = blocks.flatten) :
    (∃ next, self.observeAll packets packetIndex blocks = .ok (.inl next) ∧
        next.Follows (log ++ blocks) ∧ self.scan blocks = (next, none)) ∨
      ∃ boundary e, self.observeAll packets packetIndex blocks =
          .ok (.inr ((log ++ blocks).drop boundary).flatten) ∧
        SafeStart (log ++ blocks) boundary e ∧ (self.scan blocks).2 = some boundary := by
  induction blocks generalizing self log packetIndex with
  | nil => exact .inl ⟨self, rfl, by rwa [List.append_nil], rfl⟩
  | cons packet rest ih =>
    obtain ⟨hpacket, hrest⟩ := List.forall_mem_cons.mp hsize
    obtain ⟨hfollows, hsafe⟩ := h.observe hpacket
    have hlater : packets.drop ((packetIndex + 1) * mpegTsPacketSize) = rest.flatten := by
      rw [Nat.succ_mul, ← List.drop_drop, hblocks, List.flatten_cons, ← hpacket, List.drop_left]
    rw [List.append_cons log packet rest, Priming.observeAll, Priming.scan]
    cases hobserve : self.observe packet with
    | mk next found =>
      rw [hobserve] at hfollows hsafe
      cases found with
      | none => exact ih hfollows hrest hlater
      | some boundary =>
        obtain ⟨hfirst, hstart⟩ := hsafe boundary rfl
        have hbefore : boundary ≤ (log ++ [packet]).length := by
          have := hstart.bounds
          omega
        refine .inr ⟨boundary, log.length, ?_, hstart.append rest, rfl⟩
        dsimp only
        rw [hlater, hfollows.handOver hfirst (by have := hstart.bounds; omega),
          List.drop_append_of_le_length hbefore, List.flatten_append]
        rfl

/-! ## The whole body -/

/-- The packets of the bytes that a list of chunks carries. -/
def packetStream (chunks : List Bytes) : List Bytes := chunksExact mpegTsPacketSize chunks.flatten

/-- From any point of the body on: no failure of the hand-over, and a result is the packets of the
bytes read so far from a safe start on, with the packetizer in step. -/
theorem run_spec {state : Priming} {before : Bytes} {packetizer : MpegTsPacketizer}
    {body : List BodyItem} (h : state.Follows (chunksExact mpegTsPacketSize before))
    (hscan : Priming.scan {} (chunksExact mpegTsPacketSize before) = (state, none))
    (hpending : packetizer.pending = before.drop (alignedLength mpegTsPacketSize before)) :
    state.run packetizer body ≠ .error .priming ∧
      ∀ primed next rest, state.run packetizer body = .ok (primed, next, rest) →
        ∃ (consumed : List Bytes) (boundary e : Nat), body = consumed.map .chunk ++ rest ∧
          next.pending = (before ++ consumed.flatten).drop
            (alignedLength mpegTsPacketSize (before ++ consumed.flatten)) ∧
          primed = ((chunksExact mpegTsPacketSize (before ++ consumed.flatten)).drop
            boundary).flatten ∧
          SafeStart (chunksExact mpegTsPacketSize (before ++ consumed.flatten)) boundary e ∧
          primingStart (chunksExact mpegTsPacketSize (before ++ consumed.flatten)) =
            some boundary := by
  have hpos : 0 < mpegTsPacketSize := by decide
  induction body generalizing state before packetizer with
  | nil => exact ⟨by simp [Priming.run], by simp [Priming.run]⟩
  | cons item rest ih =>
    cases item with
    | timeout => exact ⟨by simp [Priming.run], by simp [Priming.run]⟩
    | readError => exact ⟨by simp [Priming.run], by simp [Priming.run]⟩
    | chunk chunk =>
      rw [Priming.run]
      cases hpush : packetizer.push chunk with
      | mk next result =>
        cases result with
        | error error =>
          refine ⟨?_, by simp⟩
          cases error <;> simp [packetizerFailure]
        | ok packets =>
          obtain ⟨hpackets, hnext⟩ := MpegTsPacketizer.push_eq_ok hpush
          rw [hpending] at hpackets hnext
          rw [← drop_handover hpos] at hnext
          have hdvd : mpegTsPacketSize ∣ packets.length := by
            rw [hpackets, length_take_aligned]
            exact dvd_alignedLength _ _
          have hlog : chunksExact mpegTsPacketSize before ++ chunksExact mpegTsPacketSize packets =
              chunksExact mpegTsPacketSize (before ++ chunk) := by
            rw [hpackets, chunksExact_take_aligned hpos, ← chunksExact_handover hpos]
          have hblocks : packets.drop (0 * mpegTsPacketSize) =
              (chunksExact mpegTsPacketSize packets).flatten := by
            rw [Nat.zero_mul, List.drop_zero, flatten_chunksExact hdvd]
          rcases h.observeAll (fun p hp => length_of_mem_chunksExact hp) hblocks with
            ⟨state', hok, hfollows, hscan'⟩ | ⟨boundary, e, hok, hstart, hsome⟩
          · rw [hlog] at hfollows
            obtain ⟨hsafe, hresult⟩ := ih hfollows
              (by rw [← hlog, Priming.scan_append hscan, hscan']) hnext
            dsimp only
            rw [hok]
            refine ⟨hsafe, fun primed last rest' hrun => ?_⟩
            obtain ⟨consumed, boundary, e, hbody, hspec⟩ := hresult primed last rest' hrun
            refine ⟨chunk :: consumed, boundary, e, by rw [hbody]; rfl, ?_⟩
            rw [List.flatten_cons, ← List.append_assoc]
            exact hspec
          · rw [hlog] at hok hstart
            dsimp only
            rw [hok]
            refine ⟨by simp, fun primed last rest' hrun => ?_⟩
            cases hrun
            refine ⟨[chunk], boundary, e, rfl, ?_⟩
            rw [List.flatten_singleton]
            refine ⟨hnext, rfl, hstart, ?_⟩
            rw [primingStart, ← hlog, Priming.scan_append hscan, hsome]

/-- A primed body: the primed bytes and what the packetizer makes of the next chunks are the
packets of all these chunks from the priming start on, which is a safe start. -/
theorem primeBody_spec {body rest : List BodyItem} {primed : Bytes} {packetizer : MpegTsPacketizer}
    (h : primeBody body {} = .ok (primed, packetizer, rest)) :
    ∃ consumed : List Bytes, body = consumed.map .chunk ++ rest ∧
      ∀ (more : List Bytes) out final, packetizer.pushAll more = .ok (out, final) →
        ∃ boundary e, primingStart (packetStream (consumed ++ more)) = some boundary ∧
          SafeStart (packetStream (consumed ++ more)) boundary e ∧
          primed ++ out = ((packetStream (consumed ++ more)).drop boundary).flatten := by
  have hpos : 0 < mpegTsPacketSize := by decide
  obtain ⟨_, hresult⟩ := @run_spec {} [] {} body
    Priming.follows_nil rfl rfl
  obtain ⟨consumed, boundary, e, hbody, hpending, hprimed, hstart, hsome⟩ :=
    hresult primed packetizer rest h
  refine ⟨consumed, hbody, fun more out final hpush => ⟨boundary, e, ?_⟩⟩
  rw [List.nil_append] at hpending hprimed hstart hsome
  have hshort : packetizer.pending.length < mpegTsPacketSize := by
    rw [hpending]
    exact length_drop_aligned_lt hpos _
  have hout := MpegTsPacketizer.pushAll_eq_ok hshort hpush
  have hstream : packetStream (consumed ++ more) = chunksExact mpegTsPacketSize consumed.flatten ++
      chunksExact mpegTsPacketSize (packetizer.pending ++ more.flatten) := by
    rw [packetStream, List.flatten_append, chunksExact_handover hpos, hpending]
  rw [hstream]
  refine ⟨Priming.scan_append_some hsome _, hstart.append _, ?_⟩
  have hbefore : boundary ≤ (chunksExact mpegTsPacketSize consumed.flatten).length := by
    have := hstart.bounds
    omega
  rw [List.drop_append_of_le_length hbefore, List.flatten_append, hprimed, hout,
    flatten_chunksExact_aligned]

/-- The chunks that are left of a body. -/
def chunksOf (body : List BodyItem) : List Bytes :=
  body.filterMap fun item =>
    match item with
    | .chunk bytes => some bytes
    | _ => none

theorem chunksOf_map (chunks : List Bytes) : chunksOf (chunks.map .chunk) = chunks := by
  induction chunks with
  | nil => rfl
  | cons chunk rest ih =>
    rw [List.map_cons]
    exact congrArg (chunk :: ·) ih

/-- A body of chunks that is primed and pushed to its end. -/
theorem primeBody_chunks {chunks : List Bytes} {rest : List BodyItem} {primed out : Bytes}
    {packetizer final : MpegTsPacketizer}
    (h : primeBody (chunks.map .chunk) {} = .ok (primed, packetizer, rest))
    (hpush : packetizer.pushAll (chunksOf rest) = .ok (out, final)) :
    ∃ boundary, primingStart (packetStream chunks) = some boundary ∧
      primed ++ out = ((packetStream chunks).drop boundary).flatten := by
  obtain ⟨consumed, hbody, hmore⟩ := primeBody_spec h
  have hchunks : chunks = consumed ++ chunksOf rest := by
    have hall := congrArg chunksOf hbody
    rw [chunksOf_map, chunksOf, List.filterMap_append] at hall
    rw [hall]
    congr 1
    exact chunksOf_map consumed
  obtain ⟨boundary, e, hstart, _, hsuffix⟩ := hmore (chunksOf rest) out final hpush
  rw [← hchunks] at hstart hsuffix
  exact ⟨boundary, hstart, hsuffix⟩

/-- Priming a new body never fails in the hand-over. When it succeeds, the primed bytes and what
the packetizer makes of the next chunks are exactly the packets of all these chunks from the first
packet of a PAT on whose PMT was validated. Two ways to cut the same body into chunks that are both
primed give the same packets. -/
theorem priming_loses_nothing :
    (∀ body, primeBody body {} ≠ .error .priming) ∧
      (∀ body primed packetizer rest, primeBody body {} = .ok (primed, packetizer, rest) →
        ∃ consumed : List Bytes, body = consumed.map .chunk ++ rest ∧
          ∀ (more : List Bytes) out final, packetizer.pushAll more = .ok (out, final) →
            ∃ boundary e, primingStart (packetStream (consumed ++ more)) = some boundary ∧
              SafeStart (packetStream (consumed ++ more)) boundary e ∧
              primed ++ out = ((packetStream (consumed ++ more)).drop boundary).flatten) ∧
      ∀ (chunks chunks' : List Bytes), chunks.flatten = chunks'.flatten →
        ∀ primed packetizer rest out final primed' packetizer' rest' out' final',
          primeBody (chunks.map .chunk) {} = .ok (primed, packetizer, rest) →
          packetizer.pushAll (chunksOf rest) = .ok (out, final) →
          primeBody (chunks'.map .chunk) {} = .ok (primed', packetizer', rest') →
          packetizer'.pushAll (chunksOf rest') = .ok (out', final') →
          primed ++ out = primed' ++ out' := by
  refine ⟨fun body => (@run_spec {} [] {} body
    Priming.follows_nil rfl rfl).1, fun body primed packetizer rest => primeBody_spec, ?_⟩
  intro chunks chunks' hsame primed packetizer rest out final primed' packetizer' rest' out' final'
    hprime hpush hprime' hpush'
  obtain ⟨boundary, hstart, hsuffix⟩ := primeBody_chunks hprime hpush
  obtain ⟨boundary', hstart', hsuffix'⟩ := primeBody_chunks hprime' hpush'
  have hstream : packetStream chunks = packetStream chunks' := by
    rw [packetStream, packetStream, hsame]
  rw [hstream] at hstart hsuffix
  rw [hstart] at hstart'
  cases hstart'
  rw [hsuffix, hsuffix']

section Example

/-- A packet without a stream. -/
def idlePacket : Bytes := [0x47, 0x1f, 0xff, 0x10] ++ List.replicate 184 0xff

theorem evict_tracker {state : Priming} (h : ∀ candidate,
    state.tracker.candidateStart = some candidate → state.firstSequence < candidate) :
    state.evict.tracker = state.tracker := by
  unfold Priming.evict
  split
  · refine if_neg fun hlost => ?_
    obtain ⟨candidate, hcandidate, hbefore⟩ := (Option.any_eq_true _ _).mp hlost
    have hbehind := h candidate hcandidate
    have hbefore := of_decide_eq_true hbefore
    omega
  · rfl

theorem observe_idle {state : Priming} (h : state.tracker = {}) :
    (state.observe idlePacket).1.tracker = {} ∧ (state.observe idlePacket).2 = none := by
  have hkept : state.evict.tracker = {} :=
    (evict_tracker fun candidate hsome => by rw [h] at hsome; cases hsome).trans h
  obtain ⟨header, hheader, hpid⟩ := (Option.any_eq_true _ _).mp (by decide +kernel :
    (packetHeader idlePacket).any (fun header => header.pid ≠ patPid) = true)
  have hpid := of_decide_eq_true hpid
  have hobserve : ({} : PatPmtTracker).observe idlePacket state.evict.nextSequence = ({}, none) := by
    simp only [PatPmtTracker.observe, hheader, PatPmtTracker.observePat, if_neg hpid]
    rfl
  simp only [Priming.observe, hkept, hobserve, and_self]

/-- Idle packets only move the window. -/
theorem run_idle {state : Priming} {log : List Bytes} (h : state.Follows log)
    (hidle : state.tracker = {}) (n : Nat) (rest : List BodyItem) :
    ∃ next : Priming, next.Follows (log ++ List.replicate n idlePacket) ∧ next.tracker = {} ∧
      state.run {} (List.replicate n (.chunk idlePacket) ++ rest) = next.run {} rest := by
  induction n generalizing state log with
  | zero => exact ⟨state, by simpa using h, hidle, rfl⟩
  | succ n ih =>
    obtain ⟨htracker, hnone⟩ := observe_idle hidle
    obtain ⟨next, hfollows, hnext, hrun⟩ := ih (h.observe (by decide +kernel)).1 htracker
    refine ⟨next, by simpa [List.replicate_succ] using hfollows, hnext, ?_⟩
    have hpush : ({} : MpegTsPacketizer).push idlePacket = ({}, .ok idlePacket) := by
      decide +kernel
    have hblocks : chunksExact mpegTsPacketSize idlePacket = [idlePacket] := by decide +kernel
    have hobserve : state.observe idlePacket = ((state.observe idlePacket).1, none) :=
      Prod.ext rfl hnone
    rw [List.replicate_succ, List.cons_append, Priming.run, hpush]
    simp only [hblocks, Priming.observeAll]
    rw [hobserve]
    exact hrun

theorem observe_found (state : Priming) (packet : Bytes) : (state.observe packet).2 =
    (state.evict.tracker.observe packet state.evict.nextSequence).2 := rfl

theorem scan_pair {state : Priming} {first second : Bytes} {boundary : Nat}
    (hfirst : (state.observe first).2 = none)
    (hsecond : ((state.observe first).1.observe second).2 = some boundary) :
    (state.scan [first, second]).2 = some boundary := by
  obtain ⟨next, hnext⟩ : ∃ next, state.observe first = (next, none) := ⟨_, Prod.ext rfl hfirst⟩
  obtain ⟨last, hlast⟩ : ∃ last, next.observe second = (last, some boundary) :=
    ⟨_, Prod.ext rfl (by rw [hnext] at hsecond; exact hsecond)⟩
  simp only [Priming.scan, hnext, hlast]

/-- A chunk in which a boundary is found ends the loop. -/
theorem run_found {state : Priming} {log : List Bytes} (h : state.Follows log)
    {chunk packets : Bytes} {packetizer next : MpegTsPacketizer} {boundary : Nat}
    (hpush : packetizer.push chunk = (next, .ok packets))
    (hscan : (state.scan (chunksExact mpegTsPacketSize packets)).2 = some boundary)
    (hwhole : mpegTsPacketSize ∣ packets.length) (rest : List BodyItem) :
    ∃ primed, state.run packetizer (.chunk chunk :: rest) = .ok (primed, next, rest) := by
  have hblocks : packets.drop (0 * mpegTsPacketSize) =
      (chunksExact mpegTsPacketSize packets).flatten := by
    rw [Nat.zero_mul, List.drop_zero, flatten_chunksExact hwhole]
  rcases h.observeAll (fun p hp => length_of_mem_chunksExact hp) hblocks with
    ⟨later, -, -, hnone⟩ | ⟨start, e, hok, -, -⟩
  · rw [hnone] at hscan
    cases hscan
  · refine ⟨((log ++ chunksExact mpegTsPacketSize packets).drop start).flatten, ?_⟩
    simp only [Priming.run, hpush, hok]

/-- The sample program behind more idle packets than the window holds. -/
def idleBody : List BodyItem :=
  List.replicate 16385 (.chunk idlePacket) ++ [.chunk (samplePat ++ samplePmt)]

/-- A PAT cut in two. -/
def cutBody : List BodyItem :=
  [.chunk (samplePat.take 100), .chunk (samplePat.drop 100 ++ samplePmt)]

theorem idleBody_primed : ∃ primed, primeBody idleBody {} = .ok (primed, {}, []) := by
  obtain ⟨state, hfollows, htracker, hrun⟩ :=
    run_idle Priming.follows_nil rfl 16385 [.chunk (samplePat ++ samplePmt)]
  have hlog : ([] ++ List.replicate 16385 idlePacket).length = 16385 := by
    rw [List.nil_append, List.length_replicate]
  -- The tracker sees the PAT as packet 16385 and its PMT right behind it.
  obtain ⟨tracker, hpat, hstart, hpmt⟩ : ∃ tracker,
      ({} : PatPmtTracker).observe samplePat 16385 = (tracker, none) ∧
      tracker.candidateStart = some 16385 ∧ (tracker.observe samplePmt 16386).2 = some 16385 := by
    refine ⟨(({} : PatPmtTracker).observe samplePat 16385).1, ?_, ?_, ?_⟩ <;> decide +kernel
  have hkept := (@evict_tracker state fun candidate hsome => by
    rw [htracker] at hsome
    cases hsome).trans htracker
  have hobserve : (state.observe samplePat).1.tracker = tracker ∧
      (state.observe samplePat).2 = none := by
    simp only [Priming.observe, hkept, hfollows.evicted.1, hlog, hpat, and_self]
  have hbehind := (hfollows.observe (by decide +kernel : samplePat.length = _)).1
  have hcount : (state.observe samplePat).1.evict.nextSequence = 16386 := by
    rw [hbehind.evicted.1, List.length_append, hlog, List.length_singleton]
  have hwindow := (@evict_tracker (state.observe samplePat).1 fun candidate hsome => by
    rw [hobserve.1] at hsome
    obtain rfl := Option.some.inj (hstart.symm.trans hsome)
    rw [hbehind.first, List.length_append, hlog, List.length_singleton]
    decide).trans hobserve.1
  have hscan : (state.scan [samplePat, samplePmt]).2 = some 16385 := by
    refine scan_pair hobserve.2 ((observe_found _ _).trans ?_)
    rw [hwindow, hcount]
    exact hpmt
  obtain ⟨primed, hprimed⟩ := run_found hfollows
    (by decide +kernel : ({} : MpegTsPacketizer).push (samplePat ++ samplePmt) =
      ({}, .ok (samplePat ++ samplePmt)))
    ((by decide +kernel : chunksExact mpegTsPacketSize (samplePat ++ samplePmt) =
      [samplePat, samplePmt]) ▸ hscan) (by decide +kernel) []
  exact ⟨primed, hrun.trans hprimed⟩

/-- The body with the cut PAT and the one that moves the window are primed, and nothing of what
follows is lost. -/
theorem priming_loses_nothing_cut : ∀ body ∈ [cutBody, idleBody], ∃ primed packetizer consumed,
    primeBody body {} = .ok (primed, packetizer, []) ∧ body = consumed.map .chunk ++ [] ∧
    ∀ (more : List Bytes) out final, packetizer.pushAll more = .ok (out, final) →
      ∃ boundary e, primingStart (packetStream (consumed ++ more)) = some boundary ∧
        SafeStart (packetStream (consumed ++ more)) boundary e ∧
        primed ++ out = ((packetStream (consumed ++ more)).drop boundary).flatten := by
  have hprimed : ∀ body ∈ [cutBody, idleBody], ∃ primed packetizer,
      primeBody body {} = .ok (primed, packetizer, []) := by
    intro body hbody
    rcases List.mem_pair.mp hbody with rfl | rfl
    · exact ⟨samplePat ++ samplePmt, {}, by decide +kernel⟩
    · obtain ⟨primed, hprimed⟩ := idleBody_primed
      exact ⟨primed, {}, hprimed⟩
  intro body hbody
  obtain ⟨primed, packetizer, hok⟩ := hprimed body hbody
  obtain ⟨consumed, hconsumed, hmore⟩ :=
    priming_loses_nothing.2.1 body primed packetizer [] hok
  exact ⟨primed, packetizer, consumed, hok, hconsumed, hmore⟩

/-- Priming begins with the cut PAT once the PMT is complete. -/
example : (primeBody cutBody {}).toOption.map Prod.fst = some (samplePat ++ samplePmt) := by
  decide +kernel

end Example

end IptvRelay.Media
