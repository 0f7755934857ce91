import IptvRelay.Lib.History
import IptvRelay.Slate.PacketFacts

/-!
# The output of the splice muxer is one program

Whatever is pushed, the output consists of complete packets on the PIDs of the
slate program with consecutive PSI counters, every segment starts with a PAT and a
PMT of the next version, and its streams start at a PES start.
-/

namespace IptvRelay.Slate

open Transition History Blocks Media Psi Muxing

/-! ## The specification -/

def Emitted.pid : Emitted → UInt16
  | .segmentStart | .null _ => nullPid
  | .pat _ => patPid
  | .pmt _ => slatePmtPid
  | .discontinuity role _ | .stream role _ => role.outputPid

theorem Role.outputPid_ne (role : Role) :
    role.outputPid ≠ patPid ∧ role.outputPid ≠ slatePmtPid ∧ role.outputPid ≠ nullPid := by
  cases role <;> decide

/-- The version of the newest PMT; before the first one it is zero. -/
def lastVersion (out : List Emitted) : UInt8 :=
  out.foldl (fun version emitted => match emitted with
    | .pmt packet => pmtVersionOf packet
    | _ => version) 0

/-- The stream has had a PES start since the segment began. -/
def Started (out : List Emitted) (role : Role) : Prop :=
  ∃ before packet after, out = before ++ .stream role packet :: after ∧
    payloadUnitStart packet = true ∧ .segmentStart ∉ after

/-- The output ends in the opening of a segment. -/
def Opening (out : List Emitted) : Prop :=
  ∃ earlier pat pmt others, out = earlier ++ .segmentStart :: .pat pat :: .pmt pmt :: others ∧
    ∀ other ∈ others, ∃ role packet, other = .discontinuity role packet

/-- What may stand between `before` and `after`. A segment begins with a PAT and a PMT of the next
version. Discontinuity packets belong to this opening and have no payload. Video and audio begin
with a PES start. -/
def Allowed (before : List Emitted) (emitted : Emitted) (after : List Emitted) : Prop :=
  match emitted with
  | .segmentStart => ∃ pat pmt rest, after = .pat pat :: .pmt pmt :: rest ∧
      pmtVersionOf pmt = (lastVersion before + 1) &&& 0x1f
  | .discontinuity _ packet => AdaptationOnly packet ∧ Opening before
  | .stream role packet => role ≠ .pcr → payloadUnitStart packet = true ∨ Started before role
  | .pat _ | .pmt _ | .null _ => True

theorem Allowed.mono (before : List Emitted) (emitted : Emitted) (after more : List Emitted)
    (h : Allowed before emitted after) : Allowed before emitted (after ++ more) := by
  cases emitted with
  | segmentStart =>
    obtain ⟨pat, pmt, rest, rfl, hversion⟩ := h
    exact ⟨pat, pmt, rest ++ more, rfl, hversion⟩
  | pat | pmt | discontinuity | stream | null => exact h

/-- The counters of the packets on a PID. -/
def counters (pid : UInt16) (packets : List Bytes) : List UInt8 :=
  (packets.filter fun packet => packetPid packet = pid).map continuityCounter

/-- The counters on the PID count modulo 16, and `next` is the one that follows. -/
def CountersOk (pid : UInt16) (next : UInt8) (packets : List Bytes) : Prop :=
  ∃ n, counters pid packets = (List.range n).map (fun i => UInt8.ofNat (i % 16)) ∧
    next = UInt8.ofNat (n % 16)

theorem CountersOk.other {pid : UInt16} {next : UInt8} {packets : List Bytes}
    (h : CountersOk pid next packets) {packet : Bytes} (hne : packetPid packet ≠ pid) :
    CountersOk pid next (packets ++ [packet]) := by
  obtain ⟨n, hcounters, hnext⟩ := h
  refine ⟨n, ?_, hnext⟩
  rw [← hcounters]
  simp [counters, hne]

theorem next_counter (n : Nat) :
    (UInt8.ofNat (n % 16) + 1) &&& 0x0f = UInt8.ofNat ((n + 1) % 16) := by
  have hstep : ∀ k : Fin 16, (UInt8.ofNat k + 1) &&& 0x0f = UInt8.ofNat ((k + 1) % 16) := by
    decide +kernel
  have := hstep ⟨n % 16, Nat.mod_lt _ (by decide)⟩
  simpa [Nat.add_mod] using this

theorem CountersOk.written {pid : UInt16} {next : UInt8} {packets : List Bytes}
    (h : CountersOk pid next packets) {packet : Bytes} (hpid : packetPid packet = pid)
    (hcounter : continuityCounter packet = next &&& 0x0f) :
    CountersOk pid ((next + 1) &&& 0x0f) (packets ++ [packet]) := by
  obtain ⟨n, hcounters, rfl⟩ := h
  refine ⟨n + 1, ?_, next_counter n⟩
  have hsmall : ∀ k : Fin 16, UInt8.ofNat k &&& 0x0f = UInt8.ofNat k := by decide +kernel
  have hlast : continuityCounter packet = UInt8.ofNat (n % 16) :=
    hcounter.trans (hsmall ⟨n % 16, Nat.mod_lt _ (by decide)⟩)
  rw [List.range_succ, List.map_append, ← hcounters]
  simp [counters, hpid, hlast]

/-! ## Invariants -/

/-- Every write is a packet on the PID of its kind, and the PSI counters count. -/
structure OutputOk (s : Muxing) : Prop where
  packets : ∀ emitted ∈ s.out, ∀ packet, emitted.packet = some packet →
    PacketOn emitted.pid packet
  pat : CountersOk patPid s.mux.patCc s.packets
  pmt : CountersOk slatePmtPid s.mux.pmtCc s.packets

structure MuxOk (s : Muxing) : Prop extends OutputOk s where
  order : Follows Allowed [] s.out
  version : s.mux.pmtVersion = lastVersion s.out
  small : s.mux.pmtVersion &&& 0x1f = s.mux.pmtVersion

/-- A stream of the segment that is marked as started has had its PES start. -/
def SegmentOk (out : List Emitted) (segment : Segment) : Prop :=
  ∀ role, role ≠ .pcr → segment.roleStarted role = true → Started out role

/-- The calls in between leave the segments alone and start no new one. -/
structure Extends (s t : Muxing) : Prop where
  current : t.mux.current = s.mux.current
  pending : t.mux.pending = s.mux.pending
  out : ∃ more, t.out = s.out ++ more ∧ .segmentStart ∉ more

theorem Extends.refl (s : Muxing) : Extends s s := ⟨rfl, rfl, [], by simp, by simp⟩

theorem Extends.trans {s t u : Muxing} (h : Extends s t) (h' : Extends t u) : Extends s u := by
  obtain ⟨more, hout, hmore⟩ := h.out
  obtain ⟨more', hout', hmore'⟩ := h'.out
  refine ⟨h'.current.trans h.current, h'.pending.trans h.pending, more ++ more', ?_, ?_⟩
  · rw [hout', hout, List.append_assoc]
  · simp [hmore, hmore']

theorem Started.append {out : List Emitted} {role : Role} (h : Started out role)
    {more : List Emitted} (hmore : .segmentStart ∉ more) : Started (out ++ more) role := by
  obtain ⟨before, packet, after, rfl, hstart, hafter⟩ := h
  exact ⟨before, packet, after ++ more, by simp, hstart, by simp [hafter, hmore]⟩

theorem SegmentOk.extends {s t : Muxing} {segment : Segment} (h : SegmentOk s.out segment)
    (hextends : Extends s t) : SegmentOk t.out segment := by
  obtain ⟨more, hout, hmore⟩ := hextends.out
  intro role hrole hstarted
  rw [hout]
  exact (h role hrole hstarted).append hmore

theorem lastVersion_append (out : List Emitted) (emitted : Emitted) :
    lastVersion (out ++ [emitted]) =
      match emitted with
      | .pmt packet => pmtVersionOf packet
      | _ => lastVersion out := by
  rw [lastVersion, List.foldl_append]
  rfl

/-- A packet that is neither PAT nor PMT. -/
theorem OutputOk.emit {s t : Muxing} (h : OutputOk s) (emitted : Emitted) {packet : Bytes}
    (hout : t.out = s.out ++ [emitted]) (hpacket : emitted.packet = some packet)
    (hon : PacketOn emitted.pid packet) (hpat : emitted.pid ≠ patPid)
    (hpmt : emitted.pid ≠ slatePmtPid) (hpatCc : t.mux.patCc = s.mux.patCc)
    (hpmtCc : t.mux.pmtCc = s.mux.pmtCc) : OutputOk t := by
  have hpackets : t.packets = s.packets ++ [packet] := by
    simp [Muxing.packets, hout, hpacket]
  refine ⟨fun other hother packet' hpacket' => ?_, ?_, ?_⟩
  · rw [hout] at hother
    rcases List.mem_append.mp hother with hother | hother
    · exact h.packets other hother packet' hpacket'
    · obtain rfl := List.mem_singleton.mp hother
      obtain rfl := Option.some.inj (hpacket.symm.trans hpacket')
      exact hon
  · rw [hpackets, hpatCc]
    exact h.pat.other (hon.pid ▸ hpat)
  · rw [hpackets, hpmtCc]
    exact h.pmt.other (hon.pid ▸ hpmt)

/-! ## Writing -/

theorem writePat_outputOk {s : Muxing} (h : OutputOk s) : OutputOk s.writePat := by
  have hon := packetOn_pat s.mux.patCc patSection
  have hpackets : s.writePat.packets =
      s.packets ++ [psiPacket patPid s.mux.patCc patSection] := by
    simp [Muxing.packets, writePat, Emitted.packet]
  refine ⟨fun other hother packet hpacket => ?_, ?_, ?_⟩
  · rcases List.mem_append.mp hother with hother | hother
    · exact h.packets other hother packet hpacket
    · obtain rfl := List.mem_singleton.mp hother
      obtain rfl := Option.some.inj hpacket
      exact hon
  · rw [hpackets]
    exact h.pat.written hon.pid (continuityCounter_psiPacket _ _ _)
  · rw [hpackets]
    exact h.pmt.other (by rw [hon.pid]; decide)

theorem writePmt_outputOk {s : Muxing} (h : OutputOk s) : OutputOk s.writePmt := by
  unfold writePmt
  split
  · exact h
  · rename_i map hmap
    have hon := packetOn_pmt s.mux.pmtCc (pmtSection map s.mux.pmtVersion)
    refine ⟨fun other hother packet hpacket => ?_, ?_, ?_⟩
    · rcases List.mem_append.mp hother with hother | hother
      · exact h.packets other hother packet hpacket
      · obtain rfl := List.mem_singleton.mp hother
        obtain rfl := Option.some.inj hpacket
        exact hon
    · simp only [Muxing.packets, List.filterMap_append]
      exact h.pat.other (by rw [hon.pid]; decide)
    · simp only [Muxing.packets, List.filterMap_append]
      exact h.pmt.written hon.pid (continuityCounter_psiPacket _ _ _)

theorem and_version (version : UInt8) : (version &&& 0x1f) &&& 0x1f = version &&& 0x1f := by
  rw [UInt8.and_assoc, UInt8.and_self]

/-- A PMT write settles the version. -/
theorem writePmt_muxOk {s : Muxing} (hout : OutputOk s) (horder : Follows Allowed [] s.out)
    (hsmall : s.mux.pmtVersion &&& 0x1f = s.mux.pmtVersion) {map : ProgramMap}
    (hmap : s.mux.outputMap = some map) : MuxOk s.writePmt := by
  refine ⟨writePmt_outputOk hout, ?_, ?_, ?_⟩ <;> rw [writePmt, hmap] <;> simp only
  · exact horder.append Allowed.mono (follows_cons trivial (follows_nil _))
  · rw [lastVersion_append]
    simp only [pmtVersionOf_psiPacket]
    exact hsmall.symm
  · exact hsmall

theorem MuxOk.writePmt {s : Muxing} (h : MuxOk s) : MuxOk s.writePmt := by
  cases hmap : s.mux.outputMap with
  | none =>
    rw [Muxing.writePmt, hmap]
    exact h
  | some map => exact writePmt_muxOk h.toOutputOk h.order h.small hmap

theorem MuxOk.writePat {s : Muxing} (h : MuxOk s) : MuxOk s.writePat := by
  refine ⟨writePat_outputOk h.toOutputOk, ?_, ?_, h.small⟩
  · exact h.order.append Allowed.mono (follows_cons trivial (follows_nil _))
  · rw [Muxing.writePat, lastVersion_append]
    exact h.version

/-- A new layout in the middle of a segment. -/
theorem MuxOk.adoptMap_writePmt {s : Muxing} (h : MuxOk s) (map : ProgramMap) :
    MuxOk (s.adoptMap (some map)).writePmt :=
  writePmt_muxOk (s := s.adoptMap (some map)) ⟨h.packets, h.pat, h.pmt⟩ h.order
    (and_version _) rfl

theorem extends_writePat (s : Muxing) : Extends s s.writePat := ⟨rfl, rfl, _, rfl, by simp⟩

theorem extends_writePmt (s : Muxing) : Extends s s.writePmt := by
  unfold Muxing.writePmt
  split
  · exact .refl s
  · exact ⟨rfl, rfl, _, rfl, by simp⟩

theorem extends_adoptMap (s : Muxing) (map : Option ProgramMap) : Extends s (s.adoptMap map) :=
  ⟨rfl, rfl, [], by simp [Muxing.adoptMap], by simp⟩

/-! ## Starting a segment -/

theorem Opening.append {out : List Emitted} (h : Opening out) (role : Role) (packet : Bytes) :
    Opening (out ++ [.discontinuity role packet]) := by
  obtain ⟨earlier, pat, pmt, others, rfl, hothers⟩ := h
  refine ⟨earlier, pat, pmt, others ++ [.discontinuity role packet], by simp, ?_⟩
  intro other hother
  rcases List.mem_append.mp hother with hother | hother
  · exact hothers other hother
  · exact ⟨role, packet, List.mem_singleton.mp hother⟩

theorem writeDiscontinuity_ok {s : Muxing} (h : MuxOk s) (hopening : Opening s.out) (role : Role) :
    MuxOk (s.writeDiscontinuity role) ∧ Opening (s.writeDiscontinuity role).out := by
  obtain ⟨hpat, hpmt, -⟩ := role.outputPid_ne
  refine ⟨⟨h.toOutputOk.emit _ rfl rfl (packetOn_discontinuity role _) hpat hpmt rfl rfl,
    ?_, ?_, h.small⟩, hopening.append role _⟩
  · exact h.order.append Allowed.mono
      (follows_cons ⟨adaptationOnly_discontinuity role _, hopening⟩ (follows_nil _))
  · rw [writeDiscontinuity, lastVersion_append]
    exact h.version

theorem foldl_writeDiscontinuity_ok (roles : List Role) {s : Muxing} (h : MuxOk s)
    (hopening : Opening s.out) : MuxOk (roles.foldl writeDiscontinuity s) := by
  induction roles generalizing s with
  | nil => exact h
  | cons role roles ih =>
    obtain ⟨hok, hopened⟩ := writeDiscontinuity_ok h hopening role
    exact ih hok hopened

/-- The mark, the PAT and the PMT of a new segment. -/
theorem opening_ok {s : Muxing} (h : MuxOk s) (map : ProgramMap) (splices : Nat) :
    let marked : Muxing := ⟨{ s.mux with splices }, s.out ++ [.segmentStart]⟩
    MuxOk (marked.adoptMap (some map)).writePat.writePmt ∧
      Opening (marked.adoptMap (some map)).writePat.writePmt.out := by
  intro marked
  have hmarked : OutputOk marked := by
    have hpackets : marked.packets = s.packets := by
      simp [Muxing.packets, marked, Emitted.packet]
    refine ⟨fun other hother packet hpacket => ?_, hpackets ▸ h.pat, hpackets ▸ h.pmt⟩
    rcases List.mem_append.mp hother with hother | hother
    · exact h.packets other hother packet hpacket
    · obtain rfl := List.mem_singleton.mp hother
      cases hpacket
  have hout : OutputOk (marked.adoptMap (some map)).writePat.writePmt :=
    writePmt_outputOk (writePat_outputOk ⟨hmarked.packets, hmarked.pat, hmarked.pmt⟩)
  obtain ⟨pat, pmt, heq, hversion⟩ : ∃ pat pmt,
      (marked.adoptMap (some map)).writePat.writePmt.out =
        s.out ++ [.segmentStart, .pat pat, .pmt pmt] ∧
      pmtVersionOf pmt = (s.mux.pmtVersion + 1) &&& 0x1f :=
    ⟨psiPacket patPid s.mux.patCc patSection,
      psiPacket slatePmtPid s.mux.pmtCc (pmtSection map ((s.mux.pmtVersion + 1) &&& 0x1f)),
      by simp [Muxing.writePmt, Muxing.writePat, Muxing.adoptMap, marked],
      (pmtVersionOf_psiPacket _ map _).trans (and_version _)⟩
  refine ⟨⟨hout, ?_, ?_, and_version _⟩, s.out, pat, pmt, [], heq, by simp⟩
  · rw [heq]
    refine h.order.append Allowed.mono (follows_cons ?_ (follows_cons trivial (follows_cons trivial
      (follows_nil _))))
    exact ⟨pat, pmt, [], rfl, by rw [List.nil_append, ← h.version]; exact hversion⟩
  · rw [heq, show s.out ++ [.segmentStart, .pat pat, .pmt pmt] =
      s.out ++ [.segmentStart, .pat pat] ++ [.pmt pmt] by simp, lastVersion_append]
    exact hversion.symm

theorem startSegment_ok {s : Muxing} (h : MuxOk s) {segment : Segment} {map : ProgramMap}
    (hmap : segment.map = some map) : MuxOk (s.startSegment segment).1 := by
  obtain ⟨hok, hopening⟩ := opening_ok h map (s.mux.splices + 1)
  unfold startSegment
  rw [hmap]
  exact foldl_writeDiscontinuity_ok _ hok hopening

/-! ## Packets of a segment -/

/-- Rebasing changes neither the PSI fields of the muxer nor its segments. -/
structure SameProgram (a b : SpliceMuxer) : Prop where
  patCc : b.patCc = a.patCc
  pmtCc : b.pmtCc = a.pmtCc
  pmtVersion : b.pmtVersion = a.pmtVersion
  current : b.current = a.current
  pending : b.pending = a.pending

theorem rebasePcr_sameProgram (mux : SpliceMuxer) (offset : UInt64) (packet : Bytes) :
    SameProgram mux (rebasePcr mux offset packet).1 ∧
      SameHead packet (rebasePcr mux offset packet).2 := by
  unfold rebasePcr
  split
  · exact ⟨⟨rfl, rfl, rfl, rfl, rfl⟩, .refl packet⟩
  · exact ⟨⟨rfl, rfl, rfl, rfl, rfl⟩, sameHead_writePcrBase packet _⟩

theorem rebasePes_sameProgram (mux : SpliceMuxer) (role : Role) (offset : UInt64)
    (packet : Bytes) : SameProgram mux (rebasePes mux role offset packet).1 ∧
      SameHead packet (rebasePes mux role offset packet).2 := by
  unfold rebasePes
  split
  · refine ⟨?_, sameHead_rebasePesTimestamps packet offset⟩
    dsimp only
    cases (rebasePesTimestamps packet offset).2 <;> exact ⟨rfl, rfl, rfl, rfl, rfl⟩
  · exact ⟨⟨rfl, rfl, rfl, rfl, rfl⟩, .refl packet⟩

/-- What `forward` does, apart from the clocks. -/
theorem forward_spec (s : Muxing) (segment : Segment) (role : Role) (packet : Bytes) :
    ∃ output, SameHead (retarget packet role) output ∧
      (s.forward segment role packet).1.out = s.out ++ [.stream role output] ∧
      SameProgram s.mux (s.forward segment role packet).1.mux ∧
      (s.forward segment role packet).2.roleStarted =
        Function.update segment.roleStarted role true := by
  unfold forward
  dsimp only
  generalize ((retarget packet role)[3]! &&& 0x0f) +
    s.counterDelta segment role (retarget packet role) &&& 0x0f = counter
  generalize hmux : { s.mux with
    outputCc := Function.update s.mux.outputCc role (some counter) } = mux
  obtain ⟨hpcr, hclocked⟩ := rebasePcr_sameProgram mux segment.offset
    (setCounter (retarget packet role) counter)
  obtain ⟨hpes, hsent⟩ := rebasePes_sameProgram
    (rebasePcr mux segment.offset (setCounter (retarget packet role) counter)).1 role segment.offset
    (rebasePcr mux segment.offset (setCounter (retarget packet role) counter)).2
  refine ⟨_, (((SameHead.refl _).set (by decide) _).trans hclocked).trans hsent, rfl, ?_, rfl⟩
  subst hmux
  exact ⟨hpes.patCc.trans hpcr.patCc, hpes.pmtCc.trans hpcr.pmtCc,
    hpes.pmtVersion.trans hpcr.pmtVersion, hpes.current.trans hpcr.current,
    hpes.pending.trans hpcr.pending⟩

/-- A packet that the segment admits is a PES start or comes after one. -/
theorem admits_spec {out : List Emitted} {segment : Segment} (h : SegmentOk out segment)
    {role : Role} {packet : Bytes} (hadmits : segment.admits role packet = true)
    (hrole : role ≠ .pcr) : payloadUnitStart packet = true ∨ Started out role := by
  simp only [Segment.admits, Bool.or_eq_true, Bool.and_eq_true, decide_eq_true_eq] at hadmits
  rcases hadmits with hstarted | ⟨hpcr | hstart, -⟩
  · exact .inr (h role hrole hstarted)
  · exact absurd hpcr hrole
  · exact .inl hstart

/-- The three parts that every packet of a running segment keeps. -/
structure RunningOk (s : Muxing) (result : Muxing × Segment) : Prop where
  mux : MuxOk result.1
  segment : SegmentOk result.1.out result.2
  keeps : Extends s result.1

theorem forward_ok {s : Muxing} {segment : Segment} (h : MuxOk s) (hsegment : SegmentOk s.out segment)
    {role : Role} {packet : Bytes} (hlength : packet.length = mpegTsPacketSize)
    (hsync : packet[0]! = 0x47) (hadmits : segment.admits role packet = true) :
    RunningOk s (s.forward segment role packet) := by
  obtain ⟨output, hsame, hout, hprogram, hstarted⟩ := forward_spec s segment role packet
  have hstart : payloadUnitStart output = payloadUnitStart packet :=
    hsame.payloadUnitStart.trans (payloadUnitStart_retarget hlength role)
  have hbegun : role ≠ .pcr → Started (s.out ++ [.stream role output]) role := fun hrole => by
    rcases admits_spec hsegment hadmits hrole with hpes | hbefore
    · exact ⟨s.out, output, [], rfl, hstart.trans hpes, by simp⟩
    · exact hbefore.append (by simp)
  obtain ⟨hpat, hpmt, -⟩ := role.outputPid_ne
  refine ⟨⟨h.toOutputOk.emit _ hout rfl ((packetOn_retarget hlength hsync role).of_sameHead hsame)
    hpat hpmt hprogram.patCc hprogram.pmtCc, ?_, ?_, ?_⟩, ?_, ?_⟩
  · rw [hout]
    refine h.order.append Allowed.mono (follows_cons (fun hrole => ?_) (follows_nil _))
    rw [hstart]
    exact admits_spec hsegment hadmits hrole
  · rw [hout, lastVersion_append, hprogram.pmtVersion]
    exact h.version
  · rw [hprogram.pmtVersion]
    exact h.small
  · intro other hother hset
    rw [hout]
    rw [hstarted] at hset
    by_cases heq : other = role
    · subst heq
      exact hbegun hother
    · rw [Function.update_of_ne heq] at hset
      exact (hsegment other hother hset).append (by simp)
  · exact ⟨hprogram.current, hprogram.pending, [.stream role output], hout, by simp⟩

theorem route_ok {s : Muxing} (segment : Segment) (h : MuxOk s)
    (hsegment : SegmentOk s.out segment) {packet : Bytes} (hlength : packet.length = mpegTsPacketSize) (hsync : packet[0]! = 0x47) :
    RunningOk s (s.route segment packet) := by
  unfold route
  dsimp only
  split
  · split
    · have hextends := (extends_writePat s).trans (extends_writePmt s.writePat)
      exact ⟨h.writePat.writePmt, hsegment.extends hextends, hextends⟩
    · exact ⟨h, hsegment, .refl s⟩
  · split
    · exact ⟨h, hsegment, .refl s⟩
    · split
      · rename_i hadmits
        exact forward_ok h hsegment hlength hsync hadmits
      · exact ⟨h, hsegment, .refl s⟩

theorem runningPacket_ok {s : Muxing} {segment : Segment} (h : MuxOk s)
    (hsegment : SegmentOk s.out segment) (packet : Bytes) :
    RunningOk s (s.runningPacket segment packet) := by
  unfold runningPacket
  split
  · exact ⟨h, hsegment, .refl s⟩
  rename_i hwhole
  rw [not_or, not_not, not_not] at hwhole
  obtain ⟨hlength, hsync⟩ := hwhole
  split
  · rename_i hnull
    refine ⟨⟨h.toOutputOk.emit (.null packet) rfl rfl ⟨hlength, hsync, hnull⟩
      (show nullPid ≠ patPid by decide) (show nullPid ≠ slatePmtPid by decide) rfl rfl, ?_, ?_,
      h.small⟩, ?_, ⟨rfl, rfl, [.null packet], rfl, by simp⟩⟩
    · exact h.order.append Allowed.mono (follows_cons trivial (follows_nil _))
    · rw [lastVersion_append]
      exact h.version
    · exact fun role hrole hstarted => (hsegment role hrole hstarted).append (by simp)
  · dsimp only
    split
    · exact route_ok (segment.observePsi packet).1 h hsegment hlength hsync
    · rename_i map _
      have hextends := (extends_adoptMap s (some map)).trans (extends_writePmt (s.adoptMap (some map)))
      have hrouted := route_ok ((segment.observePsi packet).1.restart map)
        (h.adoptMap_writePmt map)
        (fun role _ hstarted => by simp [Segment.restart] at hstarted) hlength hsync
      exact ⟨hrouted.mux, hrouted.segment, hextends.trans hrouted.keeps⟩

/-! ## Calls -/

theorem foldl_runningPacket_ok (packets : List Bytes) {s : Muxing} {segment : Segment}
    (h : MuxOk s) (hsegment : SegmentOk s.out segment) :
    RunningOk s (packets.foldl (fun state packet => state.1.runningPacket state.2 packet)
      (s, segment)) := by
  induction packets generalizing s segment with
  | nil => exact ⟨h, hsegment, .refl s⟩
  | cons packet packets ih =>
    have hstep := runningPacket_ok h hsegment packet
    have hrest := ih hstep.mux hstep.segment
    exact ⟨hrest.mux, hrest.segment, hstep.keeps.trans hrest.keeps⟩

/-- A pending segment that has not started has sent nothing. -/
def Fresh (segment : Segment) : Prop :=
  segment.started = false ∧ ∀ role, segment.roleStarted role = false

theorem seek_spec (mux : SpliceMuxer) {segment : Segment} (h : Fresh segment) (packet : Bytes) :
    Fresh (mux.seek segment packet).1 ∧
      ((mux.seek segment packet).2 = true → ∃ map, (mux.seek segment packet).1.map = some map) := by
  unfold SpliceMuxer.seek
  split
  · exact ⟨h, by simp⟩
  dsimp only
  split
  · exact ⟨h, by simp⟩
  · rename_i map hmap
    split
    · exact ⟨h, by simp⟩
    · split
      · exact ⟨h, fun _ => ⟨map, hmap⟩⟩
      · exact ⟨h, by simp⟩

/-- Between two packets of a pending segment: either it has not started and the current segment
is untouched, or it runs. -/
structure PendingOk (s : Muxing) (result : Muxing × Segment) : Prop where
  mux : MuxOk result.1
  pending : result.1.mux.pending = s.mux.pending
  started : result.2.started = true → SegmentOk result.1.out result.2
  waiting : result.2.started = false → Fresh result.2 ∧ result.1 = s

theorem foldl_writeDiscontinuity_pending (roles : List Role) (s : Muxing) :
    (roles.foldl writeDiscontinuity s).mux.pending = s.mux.pending := by
  induction roles generalizing s with
  | nil => rfl
  | cons role roles ih => exact ih _

theorem startSegment_pending (s : Muxing) (segment : Segment) :
    (s.startSegment segment).1.mux.pending = s.mux.pending := by
  unfold startSegment
  dsimp only
  rw [foldl_writeDiscontinuity_pending]
  exact (((extends_adoptMap _ _).trans (extends_writePat _)).trans (extends_writePmt _)).pending

theorem runningPacket_started (s : Muxing) (segment : Segment) (packet : Bytes) :
    (s.runningPacket segment packet).2.started = segment.started := by
  have hroute : ∀ (t : Muxing) (other : Segment),
      (t.route other packet).2.started = other.started := by
    intro t other
    unfold route
    dsimp only
    split
    · rfl
    · split
      · rfl
      · split <;> rfl
  unfold runningPacket
  split
  · rfl
  split
  · rfl
  dsimp only
  split
  · rw [hroute]
    rfl
  · rw [hroute]
    rfl

theorem pendingPacket_ok {s₀ s : Muxing} {segment : Segment} (h : PendingOk s₀ (s, segment))
    (packet : Bytes) : PendingOk s₀ (s.pendingPacket segment packet) := by
  unfold pendingPacket
  split
  · rename_i hstarted
    have hrun := runningPacket_ok h.mux (h.started hstarted) packet
    refine ⟨hrun.mux, hrun.keeps.pending.trans h.pending, fun _ => hrun.segment, fun hnot => ?_⟩
    rw [runningPacket_started, hstarted] at hnot
    cases hnot
  · rename_i hnot
    obtain ⟨hfresh, hsame⟩ := h.waiting (by simpa using hnot)
    obtain ⟨hsought, hmap⟩ := seek_spec s.mux hfresh packet
    dsimp only
    split
    · rename_i hfound
      obtain ⟨map, hmap⟩ := hmap hfound
      have hbegun := startSegment_ok h.mux hmap
      have hidle : SegmentOk (s.startSegment (s.mux.seek segment packet).1).1.out
          (s.startSegment (s.mux.seek segment packet).1).2 := fun role _ hrole => by
        simp [startSegment, hsought.2 role] at hrole
      have hrun := runningPacket_ok hbegun hidle packet
      refine ⟨hrun.mux, ?_, fun _ => hrun.segment, fun hnot => ?_⟩
      · exact (hrun.keeps.pending.trans (startSegment_pending _ _)).trans h.pending
      · rw [runningPacket_started] at hnot
        cases hnot
    · refine ⟨h.mux, h.pending, fun hstarted => ?_, fun _ => ⟨hsought, hsame⟩⟩
      rw [hsought.1] at hstarted
      cases hstarted

/-- The muxer between two calls. -/
structure CallOk (s : Muxing) : Prop where
  mux : MuxOk s
  current : ∀ segment, s.mux.current = some segment → SegmentOk s.out segment
  pending : ∀ segment, s.mux.pending = some segment → Fresh segment

theorem MuxOk.withSegments {s : Muxing} (h : MuxOk s) (current pending : Option Segment) :
    MuxOk { s with mux := { s.mux with current, pending } } :=
  ⟨⟨h.packets, h.pat, h.pmt⟩, h.order, h.version, h.small⟩

theorem CallOk.pushCurrent {s : Muxing} (h : CallOk s) (chunk : Bytes) :
    CallOk (s.pushCurrent chunk) := by
  unfold Muxing.pushCurrent
  split
  · exact h
  · rename_i segment hcurrent
    have hpushed := foldl_runningPacket_ok (chunksExact mpegTsPacketSize chunk)
      (h.mux.withSegments none s.mux.pending) (h.current segment hcurrent)
    refine ⟨hpushed.mux.withSegments _ _, ?_, fun other hother => ?_⟩
    · rintro other ⟨⟩
      exact hpushed.segment
    · exact h.pending other (hpushed.keeps.pending ▸ hother)

theorem foldl_pendingPacket_ok (packets : List Bytes) (s₀ : Muxing) {s : Muxing} {segment : Segment}
    (h : PendingOk s₀ (s, segment)) :
    PendingOk s₀ (packets.foldl (fun state packet => state.1.pendingPacket state.2 packet)
      (s, segment)) := by
  induction packets generalizing s segment with
  | nil => exact h
  | cons packet packets ih => exact ih (pendingPacket_ok h packet)

theorem CallOk.pushPending {s : Muxing} (h : CallOk s) (chunk : Bytes) :
    CallOk (s.pushPending chunk).1 := by
  unfold Muxing.pushPending
  split
  · exact h
  · rename_i segment hpending
    have hfresh := h.pending segment hpending
    have hpushed := foldl_pendingPacket_ok (chunksExact mpegTsPacketSize chunk)
      { s with mux := { s.mux with pending := none } }
      ⟨h.mux.withSegments s.mux.current none, rfl, by simp [hfresh.1], fun _ => ⟨hfresh, rfl⟩⟩
    dsimp only
    split
    · rename_i hstarted
      refine ⟨hpushed.mux.withSegments _ _, ?_, fun other hother => ?_⟩
      · rintro other ⟨⟩
        exact hpushed.started hstarted
      · have := hpushed.pending ▸ hother
        cases this
    · rename_i hnot
      obtain ⟨hstill, hsame⟩ := hpushed.waiting (by simpa using hnot)
      refine ⟨hpushed.mux.withSegments _ _, fun other hother => ?_, ?_⟩
      · rw [hsame] at hother ⊢
        exact h.current other hother
      · rintro other ⟨⟩
        exact hstill

theorem CallOk.step {s t : Muxing} {op : MuxOp} (h : CallOk s)
    (hstep : muxMachine.step s op = some t) : CallOk t := by
  cases op with
  | beginPending =>
    cases hstep
    refine ⟨h.mux.withSegments s.mux.current _, h.current, ?_⟩
    rintro segment ⟨⟩
    exact ⟨rfl, fun _ => rfl⟩
  | cancelPending =>
    cases hstep
    exact ⟨h.mux.withSegments s.mux.current none, h.current, by simp [cancelPending]⟩
  | pushCurrent chunk =>
    cases hstep
    exact h.pushCurrent chunk
  | pushPending chunk =>
    cases hstep
    exact h.pushPending chunk

theorem callOk_of_reachable {s : Muxing} (h : muxMachine.Reachable s) : CallOk s :=
  h.invariant
    ⟨⟨⟨by simp [muxMachine], ⟨0, rfl, rfl⟩, ⟨0, rfl, rfl⟩⟩, follows_nil _, rfl, rfl⟩,
      by simp [muxMachine], by simp [muxMachine]⟩
    (fun _ _ _ hs _ hstep => hs.step hstep)

/-! ## What a player can rely on -/

def outputPids : List UInt16 :=
  [patPid, slatePmtPid, slateVideoPid, slateAudioPid, slatePcrPid, nullPid]

/-- Every counter is the previous one plus one, modulo 16. -/
def Consecutive (cs : List UInt8) : Prop :=
  ∀ (i : Nat) a b, cs[i]? = some a → cs[i + 1]? = some b → b = (a + 1) &&& 0x0f

/-- The output is a single program. A packet on the video or audio PID is a PES start, or follows
one of its stream in the same segment, or is a discontinuity packet of the opening. -/
structure SingleProgram (s : Muxing) : Prop where
  whole : ∀ packet ∈ s.packets, packet.length = mpegTsPacketSize ∧ packet[0]! = 0x47 ∧
    packetPid packet ∈ outputPids
  pat : Consecutive (counters patPid s.packets)
  pmt : Consecutive (counters slatePmtPid s.packets)
  segments : ∀ before after, s.out = before ++ .segmentStart :: after →
    ∃ pat pmt rest, after = .pat pat :: .pmt pmt :: rest ∧ packetPid pat = patPid ∧
      packetPid pmt = slatePmtPid ∧ pmtVersionOf pmt = (lastVersion before + 1) &&& 0x1f
  streams : ∀ before emitted after packet role, s.out = before ++ emitted :: after →
    emitted.packet = some packet → role ≠ .pcr → packetPid packet = role.outputPid →
      payloadUnitStart packet = true ∨ Started before role ∨
        (emitted = .discontinuity role packet ∧ AdaptationOnly packet ∧ Opening before)

theorem CountersOk.consecutive {pid : UInt16} {next : UInt8} {packets : List Bytes}
    (h : CountersOk pid next packets) : Consecutive (counters pid packets) := by
  obtain ⟨n, hcounters, -⟩ := h
  intro i a b ha hb
  rw [hcounters, List.getElem?_map, Option.map_eq_some_iff] at ha hb
  obtain ⟨j, hj, rfl⟩ := ha
  obtain ⟨k, hk, rfl⟩ := hb
  obtain ⟨_, rfl⟩ := List.getElem?_eq_some_iff.mp hj
  obtain ⟨_, rfl⟩ := List.getElem?_eq_some_iff.mp hk
  simp only [List.getElem_range]
  exact (next_counter i).symm

theorem Emitted.pid_mem_outputPids (emitted : Emitted) : emitted.pid ∈ outputPids := by
  cases emitted with
  | segmentStart | pat | pmt | null => simp [Emitted.pid, outputPids]
  | discontinuity role | stream role => cases role <;> simp [Emitted.pid, Role.outputPid, outputPids]

theorem Role.outputPid_injective {a b : Role} (h : a.outputPid = b.outputPid) : a = b := by
  revert h
  cases a <;> cases b <;> decide

/-- Whatever is pushed in whatever order, the output is a single program. -/
theorem spliced_output_single_program (s : Muxing) (h : muxMachine.Reachable s) :
    SingleProgram s := by
  have hok := (callOk_of_reachable h).mux
  have hmem : ∀ before emitted after, s.out = before ++ emitted :: after → emitted ∈ s.out :=
    fun before emitted after hout => by simp [hout]
  refine ⟨fun packet hpacket => ?_, hok.pat.consecutive, hok.pmt.consecutive,
    fun before after hout => ?_, fun before emitted after packet role hout hpacket hrole hpid => ?_⟩
  · obtain ⟨emitted, hemitted, hsome⟩ := List.mem_filterMap.mp hpacket
    have hon := hok.packets emitted hemitted packet hsome
    exact ⟨hon.length, hon.sync, hon.pid ▸ emitted.pid_mem_outputPids⟩
  · obtain ⟨pat, pmt, rest, rfl, hversion⟩ := hok.order before _ after hout
    have hpat := hok.packets (.pat pat) (by simp [hout]) pat rfl
    have hpmt := hok.packets (.pmt pmt) (by simp [hout]) pmt rfl
    exact ⟨pat, pmt, rest, rfl, hpat.pid, hpmt.pid, hversion⟩
  · have hon := hok.packets emitted (hmem _ _ _ hout) packet hpacket
    have hallowed := hok.order before emitted after hout
    have hsame : emitted.pid = role.outputPid := hon.pid.symm.trans hpid
    cases emitted with
    | segmentStart => cases hpacket
    | pat => exact absurd hsame.symm role.outputPid_ne.1
    | pmt => exact absurd hsame.symm role.outputPid_ne.2.1
    | null => exact absurd hsame.symm role.outputPid_ne.2.2
    | discontinuity other packet' =>
      obtain rfl := Option.some.inj hpacket
      obtain rfl := Role.outputPid_injective hsame
      exact .inr (.inr ⟨rfl, hallowed⟩)
    | stream other packet' =>
      obtain rfl := Option.some.inj hpacket
      obtain rfl := Role.outputPid_injective hsame
      rcases hallowed hrole with hstart | hstarted
      · exact .inl hstart
      · exact .inr (.inl hstarted)

/-- A video packet with a PCR that begins a keyframe. -/
def sampleKeyframe : Bytes :=
  [0x47, 0x41, 0x00, 0x30, 0x07, 0x50, 0x00, 0x00, 0x00, 0x00, 0x00, 0x00, 0x00, 0x00, 0x01, 0xe0,
    0x00, 0x00, 0x80, 0x80, 0x05, 0x21, 0x00, 0x01, 0x00, 0x01] ++ List.replicate 162 0

/-- Two segments that both start at a keyframe, the first one pushed with a cut packet. -/
def spliceTwice : List MuxOp :=
  [.beginPending, .pushPending (samplePat ++ samplePmt ++ sampleKeyframe ++ [0x47, 0x41]),
    .pushCurrent (samplePat ++ sampleKeyframe), .beginPending,
    .pushPending (samplePat ++ samplePmt ++ sampleKeyframe)]

theorem spliced_output_two_segments :
    ∃ s, muxMachine.Reachable s ∧ s.mux.splices = 2 ∧ s.packets.length = 10 ∧
      counters patPid s.packets = [0, 1, 2] ∧ SingleProgram s := by
  obtain ⟨s, hs, hp⟩ := muxMachine.exists_reachable_of_run spliceTwice
    (fun s => decide (s.mux.splices = 2 ∧ s.packets.length = 10 ∧
      counters patPid s.packets = [0, 1, 2]))
    (by decide +kernel)
  obtain ⟨hsplices, hlength, hcounters⟩ := of_decide_eq_true hp
  exact ⟨s, hs, hsplices, hlength, hcounters, spliced_output_single_program s hs⟩

/-- The output has, at this place, the opening of a segment with a discontinuity packet on the
video PID that is no PES start. -/
def opensWithoutStart (out : List Emitted) : Bool :=
  match out with
  | .segmentStart :: .pat pat :: .pmt pmt :: .discontinuity .video packet :: _ =>
    decide (packetPid pat ≠ slateVideoPid ∧ packetPid pmt ≠ slateVideoPid ∧
      packetPid packet = slateVideoPid ∧ payloadUnitStart packet = false)
  | _ => false

/-- Not every first packet on the video PID of a segment is a PES start. -/
theorem segment_opens_without_pes_start :
    ¬ ∀ s, muxMachine.Reachable s → ∀ earlier inside emitted after packet,
      s.out = earlier ++ .segmentStart :: (inside ++ emitted :: after) →
      .segmentStart ∉ inside → emitted.packet = some packet → packetPid packet = slateVideoPid →
        payloadUnitStart packet = true ∨ ∃ other ∈ inside, ∃ p, other.packet = some p ∧
          packetPid p = slateVideoPid ∧ payloadUnitStart p = true := by
  intro hclaim
  obtain ⟨s, hs, hp⟩ := muxMachine.exists_reachable_of_run spliceTwice
    (fun s => opensWithoutStart (s.out.drop 7)) (by decide +kernel)
  unfold opensWithoutStart at hp
  split at hp
  · rename_i pat pmt packet after hdrop
    obtain ⟨hpat, hpmt, hpid, hstart⟩ := of_decide_eq_true hp
    have hout : s.out = s.out.take 7 ++
        .segmentStart :: ([.pat pat, .pmt pmt] ++ .discontinuity .video packet :: after) :=
      (List.take_append_drop 7 s.out).symm.trans (by rw [hdrop]; rfl)
    rcases hclaim s hs _ _ _ _ packet hout (by simp) rfl hpid with hpes | ⟨other, hother, p, hrest⟩
    · simp [hstart] at hpes
    · simp only [List.mem_cons, List.not_mem_nil, or_false] at hother
      rcases hother with rfl | rfl
      · obtain ⟨⟨⟩, hother, -⟩ := hrest
        exact hpat hother
      · obtain ⟨⟨⟩, hother, -⟩ := hrest
        exact hpmt hother
  · cases hp

end IptvRelay.Slate
