import IptvRelay.Media.Psi
import Mathlib.Tactic

/-!
# What a safe restart point is

`SectionStream` reads the payload of one PID from a packet log, beginning at a
payload unit start, without any reference to the assembler. `SafeStart log b e`
says that a PAT section begins in packet `b` and that the PMT it refers to is
complete and valid in packet `e`. The tracker reports exactly such packets: its
state always describes a suffix of the log that it has observed.
-/

namespace IptvRelay.Media.Psi

open SectionAssembler

/-! ## Sections carried by a packet log -/

/-- The packet has no usable payload for `pid`. -/
def Ignores (pid : UInt16) (packet : Bytes) : Prop :=
  ∀ header, packetHeader packet = some header → header.pid ≠ pid

/-- `data` is the payload of `pid` from the unit start in packet `b` up to packet `n`
(exclusive); `counter` is the last continuity counter. The counters are consecutive. -/
inductive SectionStream (log : List Bytes) (pid : UInt16) (b : Nat) :
    Nat → UInt8 → Bytes → Prop where
  | unit {packet : Bytes} {header : PacketHeader} {pointer : UInt8} {rest : Bytes} :
      log[b]? = some packet → packetHeader packet = some header → header.pid = pid →
      header.payloadUnitStart = true → header.payload = pointer :: rest →
      pointer.toNat ≤ rest.length →
      SectionStream log pid b (b + 1) header.continuityCounter (rest.drop pointer.toNat)
  | skip {n : Nat} {counter : UInt8} {data packet : Bytes} :
      SectionStream log pid b n counter data → log[n]? = some packet → Ignores pid packet →
      SectionStream log pid b (n + 1) counter data
  | continuation {n : Nat} {counter : UInt8} {data packet : Bytes} {header : PacketHeader} :
      SectionStream log pid b n counter data → log[n]? = some packet →
      packetHeader packet = some header → header.pid = pid → header.payloadUnitStart = false →
      header.continuityCounter = (counter + 1) &&& 0x0f →
      SectionStream log pid b (n + 1) header.continuityCounter (data ++ header.payload)

/-- The total length that the first three bytes of a section announce. -/
def announcedLength (data : Bytes) : Nat := 3 + lengthField data[1]! data[2]!

/-- A complete section of `pid` begins in packet `b` and ends in packet `e`. -/
def CarriedSection (log : List Bytes) (pid : UInt16) (b e : Nat) (sect : Bytes) : Prop :=
  ∃ counter data, SectionStream log pid b (e + 1) counter data ∧ 3 ≤ data.length ∧
    4 ≤ announcedLength data ∧ announcedLength data ≤ maxSectionBytes ∧
    announcedLength data ≤ data.length ∧ sect = data.take (announcedLength data)

/-- A PAT begins in packet `b` and the PMT it refers to is complete and valid in packet `e`. -/
def SafeStart (log : List Bytes) (b e : Nat) : Prop :=
  ∃ patEnd pmtStart pat pmt programNumber pid,
    CarriedSection log patPid b patEnd pat ∧ parsePat pat = some (programNumber, pid) ∧
    patEnd < pmtStart ∧ CarriedSection log pid pmtStart e pmt ∧
    isMatchingPmt pmt programNumber = true

theorem SectionStream.bounds {log : List Bytes} {pid : UInt16} {b n : Nat} {counter : UInt8}
    {data : Bytes} (h : SectionStream log pid b n counter data) : b < n ∧ n ≤ log.length := by
  induction h with
  | unit hget => exact ⟨by omega, (List.getElem?_eq_some_iff.mp hget).1⟩
  | skip _ hget _ ih => exact ⟨by omega, (List.getElem?_eq_some_iff.mp hget).1⟩
  | continuation _ hget _ _ _ _ ih => exact ⟨by omega, (List.getElem?_eq_some_iff.mp hget).1⟩

theorem getElem?_append_of_some {α : Type*} {l : List α} {i : Nat} {x : α} (more : List α)
    (h : l[i]? = some x) : (l ++ more)[i]? = some x := by
  rw [List.getElem?_append_left (List.getElem?_eq_some_iff.mp h).1, h]

/-- Later packets do not change what earlier packets carry. -/
theorem SectionStream.append {log : List Bytes} {pid : UInt16} {b n : Nat} {counter : UInt8}
    {data : Bytes} (h : SectionStream log pid b n counter data) (more : List Bytes) :
    SectionStream (log ++ more) pid b n counter data := by
  induction h with
  | unit hget hhead hpid hstart hpay hptr =>
    exact .unit (getElem?_append_of_some more hget) hhead hpid hstart hpay hptr
  | skip _ hget hign ih => exact .skip ih (getElem?_append_of_some more hget) hign
  | continuation _ hget hhead hpid hstart hcc ih =>
    exact .continuation ih (getElem?_append_of_some more hget) hhead hpid hstart hcc

theorem CarriedSection.append {log : List Bytes} {pid : UInt16} {b e : Nat} {sect : Bytes}
    (h : CarriedSection log pid b e sect) (more : List Bytes) :
    CarriedSection (log ++ more) pid b e sect := by
  obtain ⟨counter, data, stream, rest⟩ := h
  exact ⟨counter, data, stream.append more, rest⟩

theorem CarriedSection.bounds {log : List Bytes} {pid : UInt16} {b e : Nat} {sect : Bytes}
    (h : CarriedSection log pid b e sect) : b ≤ e ∧ e < log.length := by
  obtain ⟨_, _, stream, _⟩ := h
  have := stream.bounds
  omega

theorem SafeStart.append {log : List Bytes} {b e : Nat} (h : SafeStart log b e)
    (more : List Bytes) : SafeStart (log ++ more) b e := by
  obtain ⟨patEnd, pmtStart, pat, pmt, number, pid, hpat, hparse, hlt, hpmt, hmatch⟩ := h
  exact ⟨patEnd, pmtStart, pat, pmt, number, pid, hpat.append more, hparse, hlt,
    hpmt.append more, hmatch⟩

theorem SafeStart.bounds {log : List Bytes} {b e : Nat} (h : SafeStart log b e) :
    b < e ∧ e < log.length := by
  obtain ⟨patEnd, pmtStart, pat, pmt, number, pid, hpat, _, hlt, hpmt, _⟩ := h
  have := hpat.bounds
  have := hpmt.bounds
  omega

/-! ## The assembler follows the stream -/

/-- The buffered bytes are the announced part of the stream read so far. -/
def Buffers (a : SectionAssembler) (data : Bytes) : Prop :=
  match a.expectedLen with
  | none => a.bytes = data ∧ data.length < 3
  | some n => n = announcedLength data ∧ 3 ≤ data.length ∧ 4 ≤ n ∧ n ≤ maxSectionBytes ∧
      a.bytes = data.take n ∧ data.length < n

/-- The assembler is idle, or it follows a unit that started at packet `lo` or later. -/
def Tracks (log : List Bytes) (pid : UInt16) (lo : Nat) (a : SectionAssembler) : Prop :=
  match a.startSequence with
  | none => a = clear
  | some b => ∃ counter data, lo ≤ b ∧ SectionStream log pid b log.length counter data ∧
      a.lastContinuityCounter = some counter ∧ Buffers a data

theorem tracks_clear (log : List Bytes) (pid : UInt16) (lo : Nat) : Tracks log pid lo clear := rfl

theorem length_payload_le {packet : Bytes} {header : PacketHeader}
    (h : packetHeader packet = some header) : header.payload.length ≤ mpegTsPacketSize := by
  unfold packetHeader at h
  split at h
  · cases h
  · rename_i hok
    have hlen : packet.length = mpegTsPacketSize := by
      by_contra hne
      exact hok (Or.inl hne)
    dsimp only at h
    split_ifs at h
    all_goals
      cases h
      simp only [List.length_drop]
      omega

theorem announcedLength_append {data more : Bytes} (h : 3 ≤ data.length) :
    announcedLength (data ++ more) = announcedLength data := by
  match data, h with
  | a :: b :: c :: rest, _ => rfl

/-- `finish` emits the section exactly when the stream has reached the announced length. -/
theorem finish_spec {log : List Bytes} {pid : UInt16} {lo b : Nat} {counter : UInt8}
    {data : Bytes} {a : SectionAssembler} (hstart : a.startSequence = some b) (hlo : lo ≤ b)
    (stream : SectionStream log pid b log.length counter data)
    (hcounter : a.lastContinuityCounter = some counter)
    (hexp : a.expectedLen = some (announcedLength data)) (hthree : 3 ≤ data.length)
    (hmin : 4 ≤ announcedLength data) (hmax : announcedLength data ≤ maxSectionBytes)
    (hbytes : a.bytes = data.take (announcedLength data)) :
    Tracks log pid lo a.finish.1 ∧ ∀ c, a.finish.2 = some c →
      lo ≤ c.startSequence ∧ CarriedSection log pid c.startSequence (log.length - 1) c.bytes := by
  have hpos := stream.bounds
  have hlen : a.bytes.length = min (announcedLength data) data.length := by simp [hbytes]
  unfold finish
  rw [hexp, hstart]
  dsimp only
  split
  · rename_i hshort
    refine ⟨?_, by simp⟩
    unfold Tracks
    rw [hstart]
    refine ⟨counter, data, hlo, stream, hcounter, ?_⟩
    unfold Buffers
    rw [hexp]
    exact ⟨rfl, hthree, hmin, hmax, hbytes, by omega⟩
  · rename_i hfull
    refine ⟨tracks_clear _ _ _, ?_⟩
    rintro c ⟨⟩
    refine ⟨hlo, counter, data, ?_, hthree, hmin, hmax, by omega, hbytes⟩
    rw [Nat.sub_add_cancel (by omega)]
    exact stream

/-- Extending the buffer by the payload of the newest packet keeps it in step. -/
theorem extend_spec (log : List Bytes) (pid : UInt16) (data : Bytes) {lo b : Nat}
    {counter : UInt8} {payload : Bytes} {a : SectionAssembler} (hstart : a.startSequence = some b)
    (hlo : lo ≤ b) (stream : SectionStream log pid b log.length counter (data ++ payload))
    (hcounter : a.lastContinuityCounter = some counter) (hbuf : Buffers a data)
    (hsize : payload.length ≤ mpegTsPacketSize) :
    Tracks log pid lo (a.extend payload).1 ∧ ∀ c, (a.extend payload).2 = some c →
      lo ≤ c.startSequence ∧ CarriedSection log pid c.startSequence (log.length - 1) c.bytes := by
  unfold Buffers at hbuf
  unfold extend
  cases hexp : a.expectedLen with
  | none =>
    rw [hexp] at hbuf
    obtain ⟨hbytes, hshort⟩ := hbuf
    have htake : payload.take maxSectionBytes = payload :=
      List.take_of_length_le (hsize.trans (by decide))
    simp only [Option.elim_none, htake, hbytes, true_and]
    split
    · rename_i hthree
      split
      · rename_i hrange
        exact finish_spec hstart hlo stream hcounter rfl hthree hrange.1 hrange.2 rfl
      · exact ⟨tracks_clear _ _ _, by simp⟩
    · rename_i hfew
      simp only [finish]
      refine ⟨?_, by simp⟩
      unfold Tracks
      simp only [hstart]
      exact ⟨counter, data ++ payload, hlo, stream, hcounter, rfl, by omega⟩
  | some n =>
    rw [hexp] at hbuf
    obtain ⟨hn, hthree, hmin, hmax, hbytes, hless⟩ := hbuf
    have hannounced : announcedLength (data ++ payload) = n := by
      rw [announcedLength_append hthree, hn]
    have hfill : data.take n ++ payload.take (n - (data.take n).length) =
        (data ++ payload).take n := by
      rw [List.take_append, List.take_of_length_le hless.le]
    simp only [Option.elim_some, hbytes, hfill, reduceCtorEq, false_and, if_false]
    refine finish_spec hstart hlo stream hcounter (by simp [hannounced]) ?_
      (hannounced ▸ hmin) (hannounced ▸ hmax) (by simp [hannounced])
    rw [List.length_append]
    omega

/-- One observed packet of the assembler's PID. -/
theorem observe_spec {log : List Bytes} {packet : Bytes} {pid : UInt16} {lo : Nat}
    {a : SectionAssembler} {header : PacketHeader} (h : Tracks log pid lo a)
    (hlo : lo ≤ log.length) (hhead : packetHeader packet = some header) (hpid : header.pid = pid) :
    Tracks (log ++ [packet]) pid lo (a.observe header log.length).1 ∧
      ∀ c, (a.observe header log.length).2 = some c → lo ≤ c.startSequence ∧
        CarriedSection (log ++ [packet]) pid c.startSequence log.length c.bytes := by
  have hget : (log ++ [packet])[log.length]? = some packet := by simp
  have hlen : (log ++ [packet]).length = log.length + 1 := by simp
  have hsize := length_payload_le hhead
  unfold observe
  split
  · rename_i hunit
    split
    · exact ⟨tracks_clear _ _ _, by simp⟩
    · rename_i pointer rest hpay
      split
      · exact ⟨tracks_clear _ _ _, by simp⟩
      · rename_i hptr
        have stream := SectionStream.unit hget hhead hpid hunit hpay (by omega)
        rw [← hlen] at stream
        have hrest : (rest.drop pointer.toNat).length ≤ mpegTsPacketSize := by
          rw [hpay, List.length_cons] at hsize
          rw [List.length_drop]
          omega
        have := extend_spec (log ++ [packet]) pid [] (a := { clear with
            startSequence := some log.length
            lastContinuityCounter := some header.continuityCounter })
          rfl hlo (by simpa using stream) rfl (by simp [Buffers, clear]) hrest
        simpa [hlen] using this
  · rename_i hcont
    unfold Tracks at h
    split
    · rename_i hidle
      rw [hidle] at h
      refine ⟨?_, by simp⟩
      subst h
      exact tracks_clear _ _ _
    · rename_i b hstart
      rw [hstart] at h
      obtain ⟨counter, data, hb, stream, hcounter, hbuf⟩ := h
      split
      · exact ⟨tracks_clear _ _ _, by simp⟩
      · rename_i hnext
        rw [hcounter] at hnext
        have hcc : header.continuityCounter = (counter + 1) &&& 0x0f := by
          simpa using (Eq.comm.mp <| by simpa using hnext)
        have next := SectionStream.continuation (stream.append [packet]) hget hhead hpid
          (by simpa using hcont) hcc
        rw [← hlen] at next
        have := extend_spec _ _ _ (a := { a with
            lastContinuityCounter := some header.continuityCounter })
          hstart hb next rfl hbuf hsize
        simpa [hlen] using this

/-- A packet without payload for the PID does not disturb the assembler. -/
theorem Tracks.skip {log : List Bytes} {packet : Bytes} {pid : UInt16} {lo : Nat}
    {a : SectionAssembler} (h : Tracks log pid lo a) (hign : Ignores pid packet) :
    Tracks (log ++ [packet]) pid lo a := by
  unfold Tracks at h ⊢
  split
  · rename_i hidle
    rw [hidle] at h
    exact h
  · rename_i b hstart
    rw [hstart] at h
    obtain ⟨counter, data, hb, stream, rest⟩ := h
    refine ⟨counter, data, hb, ?_, rest⟩
    rw [List.length_append]
    exact .skip (stream.append [packet]) (by simp) hign

/-! ## The tracker follows the log -/

/-- A PAT of program `number` with PMT PID `pid` begins at `b` and ends before `limit`. -/
def PatBefore (log : List Bytes) (b limit : Nat) (number pid : UInt16) : Prop :=
  ∃ patEnd pat, patEnd < limit ∧ CarriedSection log patPid b patEnd pat ∧
    parsePat pat = some (number, pid)

/-- The PMT assembler of a candidate only saw packets after the end of its PAT. -/
def CandidateOk (log : List Bytes) (c : PmtCandidate) : Prop :=
  c.pid ≠ patPid ∧ ∃ limit ≤ log.length, PatBefore log c.patStartSequence limit c.programNumber c.pid ∧
    Tracks log c.pid limit c.assembler

structure TrackerOk (log : List Bytes) (t : PatPmtTracker) : Prop where
  pat : Tracks log patPid 0 t.pat
  candidate : ∀ c, t.candidate = some c → CandidateOk log c

theorem trackerOk_reset (log : List Bytes) : TrackerOk log PatPmtTracker.reset :=
  ⟨rfl, by simp [PatPmtTracker.reset]⟩

theorem PatBefore.append {log : List Bytes} {b limit : Nat} {number pid : UInt16}
    (h : PatBefore log b limit number pid) (more : List Bytes) :
    PatBefore (log ++ more) b limit number pid := by
  obtain ⟨patEnd, pat, hlt, hpat, hparse⟩ := h
  exact ⟨patEnd, pat, hlt, hpat.append more, hparse⟩

theorem CandidateOk.skip {log : List Bytes} {packet : Bytes} {c : PmtCandidate}
    (h : CandidateOk log c) (hign : Ignores c.pid packet) : CandidateOk (log ++ [packet]) c := by
  obtain ⟨hpid, limit, hlimit, hpat, htracks⟩ := h
  exact ⟨hpid, limit, by simp; omega, hpat.append _, htracks.skip hign⟩

/-- Only entries with a PMT PID other than the PAT's own are usable. -/
theorem parsePat_pid_ne {sect : Bytes} {number pid : UInt16}
    (h : parsePat sect = some (number, pid)) : pid ≠ patPid := by
  unfold parsePat at h
  split at h
  · cases h
  · dsimp only at h
    split at h
    · cases h
    · obtain ⟨entry, _, hentry⟩ := List.exists_of_findSome?_eq_some h
      split at hentry
      · rename_i hok
        cases hentry
        exact hok.2.1
      · cases hentry

/-- Observing a packet of the PAT PID leaves a PAT assembler in step and a candidate that is
either the old one or freshly confirmed by a PAT that ends in this packet. -/
theorem observePat_pat {log : List Bytes} {packet : Bytes} {header : PacketHeader}
    {t : PatPmtTracker} (h : TrackerOk log t) (hhead : packetHeader packet = some header)
    (hpid : header.pid = patPid) :
    Tracks (log ++ [packet]) patPid 0 (t.observePat header log.length).pat ∧
      ((t.observePat header log.length).candidate = t.candidate ∨
        ∃ c, (t.observePat header log.length).candidate = some c ∧ c.pid ≠ patPid ∧
          c.assembler = {} ∧ PatBefore (log ++ [packet]) c.patStartSequence (log.length + 1)
            c.programNumber c.pid) := by
  have hspec := observe_spec h.pat (Nat.zero_le _) hhead hpid
  simp only [PatPmtTracker.observePat, if_pos hpid]
  split
  · exact ⟨hspec.1, .inl rfl⟩
  · rename_i sect number pid hsome
    refine ⟨hspec.1, .inr ⟨_, rfl, ?_, rfl, ?_⟩⟩
    all_goals
      obtain ⟨c, hc, hmap⟩ := Option.bind_eq_some_iff.mp hsome
      obtain ⟨_, hparse, heq⟩ := Option.map_eq_some_iff.mp hmap
      cases heq
    · exact parsePat_pid_ne hparse
    · exact ⟨log.length, sect.bytes, by omega, (hspec.2 sect hc).2, hparse⟩

theorem observePat_other {t : PatPmtTracker} {header : PacketHeader} (sequence : Nat)
    (hpid : header.pid ≠ patPid) : t.observePat header sequence = t := by
  simp [PatPmtTracker.observePat, hpid]

/-- A PAT packet never advances the PMT: the candidate has another PID. -/
theorem observePmt_pat {t : PatPmtTracker} {header : PacketHeader} (sequence : Nat)
    (hpid : header.pid = patPid) (hcand : ∀ c, t.candidate = some c → c.pid ≠ patPid) :
    t.observePmt header sequence = (t, none) := by
  unfold PatPmtTracker.observePmt
  split
  · rfl
  · rename_i c hc
    rw [if_pos (by rw [hpid]; exact (hcand c hc).symm)]

/-- One packet of the candidate's PMT PID: the candidate stays in step or its PAT is confirmed. -/
theorem observePmt_spec {log : List Bytes} {packet : Bytes} {header : PacketHeader}
    {t : PatPmtTracker} (h : TrackerOk log t) (hhead : packetHeader packet = some header)
    (hpid : header.pid ≠ patPid) :
    TrackerOk (log ++ [packet]) (t.observePmt header log.length).1 ∧
      ∀ b, (t.observePmt header log.length).2 = some b →
        SafeStart (log ++ [packet]) b log.length := by
  have hpat : Tracks (log ++ [packet]) patPid 0 t.pat := by
    refine h.pat.skip fun other hother => ?_
    rw [hhead] at hother
    cases hother
    exact hpid
  unfold PatPmtTracker.observePmt
  split
  · rename_i hnone
    exact ⟨⟨hpat, by simp [hnone]⟩, by simp⟩
  · rename_i c hc
    have hcand := h.candidate c hc
    split
    · rename_i hother
      refine ⟨⟨hpat, fun c' hc' => ?_⟩, by simp⟩
      rw [hc] at hc'
      cases hc'
      refine hcand.skip fun other hheader => ?_
      rw [hhead] at hheader
      cases hheader
      exact hother
    · rename_i hsame
      obtain ⟨hne, limit, hlimit, hbefore, htracks⟩ := hcand
      have hspec := observe_spec htracks hlimit hhead (not_not.mp hsame)
      have hkeep : CandidateOk (log ++ [packet])
          { c with assembler := (c.assembler.observe header log.length).1 } :=
        ⟨hne, limit, by simp; omega, hbefore.append _, hspec.1⟩
      split
      · rename_i assembler hobs
        rw [hobs] at hkeep
        exact ⟨⟨hpat, by simpa using hkeep⟩, by simp⟩
      · rename_i assembler sect hobs
        rw [hobs] at hkeep hspec
        split
        · rename_i hmatch
          refine ⟨⟨hpat, by simp⟩, ?_⟩
          rintro b ⟨⟩
          obtain ⟨patEnd, pat, hend, hcarried, hparse⟩ := hbefore.append [packet]
          obtain ⟨hlo, hpmt⟩ := hspec.2 sect rfl
          exact ⟨patEnd, sect.startSequence, pat, sect.bytes, c.programNumber, c.pid, hcarried,
            hparse, by omega, hpmt, hmatch⟩
        · exact ⟨⟨hpat, by simpa using hkeep⟩, by simp⟩

/-- Observing the next packet of the log keeps the tracker in step, and a reported boundary is a
safe restart point whose PMT ends in this packet. -/
theorem TrackerOk.observe {log : List Bytes} {t : PatPmtTracker} (h : TrackerOk log t)
    (packet : Bytes) :
    TrackerOk (log ++ [packet]) (t.observe packet log.length).1 ∧
      ∀ b, (t.observe packet log.length).2 = some b → SafeStart (log ++ [packet]) b log.length := by
  unfold PatPmtTracker.observe
  split
  · rename_i hnone
    have hign : ∀ pid, Ignores pid packet := fun pid header hh => by rw [hnone] at hh; cases hh
    exact ⟨⟨h.pat.skip (hign _), fun c hc => (h.candidate c hc).skip (hign _)⟩, by simp⟩
  · rename_i header hhead
    by_cases hpid : header.pid = patPid
    · obtain ⟨hpat, hcand⟩ := observePat_pat h hhead hpid
      have hign : ∀ c, t.candidate = some c → Ignores c.pid packet := by
        intro c hc other hother
        rw [hhead] at hother
        cases hother
        rw [hpid]
        exact (h.candidate c hc).1.symm
      have hok : ∀ c, (t.observePat header log.length).candidate = some c →
          CandidateOk (log ++ [packet]) c := by
        intro c hc
        rcases hcand with hsame | ⟨c', hc', hne, hfresh, hbefore⟩
        · rw [hsame] at hc
          exact (h.candidate c hc).skip (hign c hc)
        · rw [hc'] at hc
          cases hc
          exact ⟨hne, log.length + 1, by simp, hbefore, by rw [hfresh]; exact tracks_clear _ _ _⟩
      rw [observePmt_pat _ hpid fun c hc => (hok c hc).1]
      exact ⟨⟨hpat, hok⟩, by simp⟩
    · rw [observePat_other _ hpid]
      exact observePmt_spec h hhead hpid

end IptvRelay.Media.Psi
