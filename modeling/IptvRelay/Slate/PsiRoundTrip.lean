import IptvRelay.Media.Reassembly
import IptvRelay.Slate.Sections
import IptvRelay.Slate.PacketFacts

/-!
# The PSI round trip

A fresh tracker that sees the PAT and the PMT of the muxer confirms them, and the program map of
the confirmed section has the streams of the map that was written. Descriptors that do not fit in
the packet are dropped, and with them an audio stream that only its descriptors identify.
-/

namespace IptvRelay.Slate

open Media Psi Muxing

/-! ## Sections in one packet -/

theorem sectionPacket_size {sect : Bytes} (h : sect.length ≤ maxSinglePacketSection) :
    4 + ((none : Option Bytes).elim 0 fun field => 1 + field.length) +
      (0x00 :: (sect ++ List.replicate (maxSinglePacketSection - sect.length) 0xff)).length =
        mpegTsPacketSize := by
  simp only [Option.elim_none, List.length_cons, List.length_append, List.length_replicate]
  have : maxSinglePacketSection = 183 := rfl
  have : mpegTsPacketSize = 188 := rfl
  omega

/-- The packet of `psi_packet` in the fields of its layout. -/
def sectionPacket (pid : UInt16) (counter : UInt8) (sect : Bytes) (hpid : pid < 0x2000)
    (hlength : sect.length ≤ maxSinglePacketSection) : TransportPacket where
  pid := pid
  payloadUnitStart := true
  transportPriority := false
  continuityCounter := counter &&& 0x0f
  adaptation := none
  payload := 0x00 :: (sect ++ List.replicate (maxSinglePacketSection - sect.length) 0xff)
  pid_lt := hpid
  counter_lt := SectionAssembler.counter_lt_sixteen counter
  size := sectionPacket_size hlength

theorem encode_sectionPacket {pid : UInt16} (counter : UInt8) {sect : Bytes} (hpid : pid < 0x2000)
    (hlength : sect.length ≤ maxSinglePacketSection) :
    (sectionPacket pid counter sect hpid hlength).encode = psiPacket pid counter sect := by
  have hhigh : highByte pid &&& 0x1f = highByte pid := by
    have hlt := UInt8.lt_iff_toNat_lt.mp (highByte_lt hpid)
    have := (by decide : ∀ high : Fin 32, (.ofNat high.val &&& 0x1f : UInt8) = .ofNat high.val)
      ⟨(highByte pid).toNat, hlt⟩
    simpa only [UInt8.ofNat_toNat] using this
  have hflags : (0x40 : UInt8) ||| (pid >>> 8).toUInt8 = 0x40 ||| (highByte pid &&& 0x1f) :=
    congrArg (0x40 ||| ·) hhigh.symm
  simp [psiPacket, List.take_of_length_le hlength, TransportPacket.encode,
    TransportPacket.header, TransportPacket.flags, TransportPacket.controlBits,
    TransportPacket.adaptationField, sectionPacket, hflags]

/-- Any assembler of the PID takes the section out of its packet. -/
theorem observe_sectionPacket (pid : UInt16) (counter : UInt8) (sect : Bytes)
    (hpid : pid < 0x2000) (hlength : sect.length ≤ maxSinglePacketSection) (hsect : Consistent sect)
    (self : SectionAssembler) (sequence : Nat) :
    self.observePacket pid (psiPacket pid counter sect) sequence =
      (SectionAssembler.clear, some { bytes := sect, startSequence := sequence }) := by
  have hmin := hsect.min
  have hbytes : unitBytes [sectionPacket pid counter sect hpid hlength] =
      sect ++ List.replicate (maxSinglePacketSection - sect.length) 0xff := by
    simp [unitBytes, sectionPacket]
  have hprefix : sect <+: unitBytes [sectionPacket pid counter sect hpid hlength] := by
    rw [hbytes]
    exact List.prefix_append _ _
  have hsame : (sectionPacket pid counter sect hpid hlength).pid = pid := rfl
  rw [← encode_sectionPacket counter hpid hlength,
    SectionAssembler.observe_first hsect hprefix List.prefix_rfl hsame rfl ?_]
  · have hfull : ¬ (unitBytes [sectionPacket pid counter sect hpid hlength]).length <
        sect.length := by
      rw [hbytes, List.length_append]
      omega
    rw [SectionAssembler.behind, if_neg hfull, SectionAssembler.due, if_pos]
    exact ⟨by simp [unitBytes]; omega, by simpa using hfull⟩
  · simp only [sectionPacket, List.getElem!_cons_zero, List.length_cons, List.length_append]
    change 1 + 0 < _
    omega

/-! ## The tracker -/

theorem patSection_consistent : Consistent patSection :=
  ⟨by decide +kernel, by decide +kernel, by decide +kernel⟩

theorem parsePat_patSection : parsePat patSection = some (programNumber, slatePmtPid) := by
  decide +kernel

theorem packetHeader_psiPacket (pid : UInt16) (counter : UInt8) (sect : Bytes)
    (hpid : pid < 0x2000) (hlength : sect.length ≤ maxSinglePacketSection) :
    ∃ header, packetHeader (psiPacket pid counter sect) = some header ∧ header.pid = pid := by
  rw [← encode_sectionPacket counter hpid hlength, TransportPacket.packetHeader_encode]
  exact ⟨_, rfl, rfl⟩

theorem observe_of_header {pid : UInt16} {packet : Bytes} {header : PacketHeader}
    (hheader : packetHeader packet = some header) (hpid : header.pid = pid)
    (self : SectionAssembler) (sequence : Nat) :
    self.observe header sequence = self.observePacket pid packet sequence := by
  simp [SectionAssembler.observePacket, hheader, hpid]

/-- The candidate after the PAT of the muxer. -/
def writtenCandidate (sequence : Nat) : PmtCandidate where
  programNumber := programNumber
  pid := slatePmtPid
  patStartSequence := sequence

theorem observe_pat (tracker : PatPmtTracker) (counter : UInt8) (sequence : Nat) :
    tracker.observe (psiPacket patPid counter patSection) sequence =
      ({ tracker with pat := {}, candidate := some (writtenCandidate sequence) }, none) := by
  obtain ⟨header, hheader, hpid⟩ :=
    packetHeader_psiPacket patPid counter patSection (by decide) (by decide)
  have hobserve := observe_sectionPacket patPid counter patSection (by decide) (by decide)
    patSection_consistent tracker.pat sequence
  rw [← observe_of_header hheader hpid] at hobserve
  have hpat : tracker.observePat header sequence =
      { tracker with pat := {}, candidate := some (writtenCandidate sequence) } := by
    simp only [PatPmtTracker.observePat, hpid, if_true, hobserve, Option.bind_some,
      parsePat_patSection, Option.map_some]
    rfl
  simp only [PatPmtTracker.observe, hheader, hpat]
  refine observePmt_pat sequence hpid fun c hc => ?_
  cases hc
  exact (by decide : slatePmtPid ≠ patPid)

theorem observe_pmt {tracker : PatPmtTracker} {start : Nat} {sect : Bytes}
    (hcandidate : tracker.candidate = some (writtenCandidate start)) (hsect : Consistent sect)
    (hlength : sect.length ≤ maxSinglePacketSection)
    (hmatch : isMatchingPmt sect programNumber = true) (counter : UInt8) (sequence : Nat) :
    tracker.observe (psiPacket slatePmtPid counter sect) sequence =
      ({ tracker with
          candidate := none
          lastPmtSection := some sect
          lastProgramNumber := some programNumber }, some start) := by
  obtain ⟨header, hheader, hpid⟩ :=
    packetHeader_psiPacket slatePmtPid counter sect (by decide) hlength
  have hobserve := observe_sectionPacket slatePmtPid counter sect (by decide) hlength hsect {}
    sequence
  rw [← observe_of_header hheader hpid] at hobserve
  have hother : tracker.observePat header sequence = tracker :=
    observePat_other sequence (by rw [hpid]; decide)
  simp only [PatPmtTracker.observe, hheader, hother, PatPmtTracker.observePmt, hcandidate,
    writtenCandidate, hpid, ne_eq, not_true_eq_false, if_false, hobserve]
  rw [if_pos hmatch]

/-! ## The written section -/

/-- The section with all descriptors fits in one packet after the pointer field. -/
def ProgramMap.DescriptorsFit (map : ProgramMap) : Prop :=
  16 + ((map.video.toList ++ map.audio.toList).map fun entry =>
    5 + entry.descriptors.length).sum ≤ maxSinglePacketSection

instance (map : ProgramMap) : Decidable map.DescriptorsFit :=
  inferInstanceAs (Decidable (_ ≤ _))

/-- An entry as the muxer announces it. -/
def ProgramMap.writtenEntry (map : ProgramMap) (role : Role) (entry : EsEntry) : EsEntry where
  pid := role.outputPid
  streamType := entry.streamType
  descriptors := if map.DescriptorsFit then entry.descriptors else []

def ProgramMap.writtenEntries (map : ProgramMap) : List EsEntry :=
  (map.video.map (map.writtenEntry .video)).toList ++
    (map.audio.map (map.writtenEntry .audio)).toList

/-- The first twelve bytes of the written PMT. -/
def pmtHead (map : ProgramMap) (version : UInt8) : Bytes :=
  let sectionLength := u16OrZero ((map.writtenEntries.flatMap encodeEntry).length + 13)
  [0x02, 0xb0 ||| (highByte sectionLength &&& 0x0f), sectionLength.toUInt8,
    highByte programNumber, programNumber.toUInt8, (0xc1 : UInt8) ||| ((version &&& 0x1f) <<< 1),
    0x00, 0x00, 0xe0 ||| highByte map.outputPcrPid, map.outputPcrPid.toUInt8, 0xf0, 0x00]

/-- The streams of the map with the roles that the muxer gives them. -/
def ProgramMap.entries (map : ProgramMap) : List (Role × EsEntry) :=
  (map.video.map (Role.video, ·)).toList ++ (map.audio.map (Role.audio, ·)).toList

theorem filterMap_roles (map : ProgramMap) :
    ([(Role.video, map.video), (Role.audio, map.audio)].filterMap fun (role, entry) =>
      entry.map fun entry => (role, entry)) = map.entries := by
  obtain ⟨video, audio, pcrPid⟩ := map
  cases video <;> cases audio <;> rfl

theorem keepDescriptors_iff (map : ProgramMap) :
    12 + 4 + 5 * map.entries.length +
      (map.entries.map fun entry => entry.2.descriptors.length).sum ≤ maxSinglePacketSection ↔
        map.DescriptorsFit := by
  obtain ⟨video, audio, pcrPid⟩ := map
  cases video <;> cases audio <;>
    simp only [ProgramMap.entries, ProgramMap.DescriptorsFit, Option.map_none, Option.map_some,
      Option.toList_none, Option.toList_some, List.nil_append, List.cons_append, List.append_nil,
      List.length_cons, List.length_nil, List.map_cons, List.map_nil, List.sum_cons,
      List.sum_nil] <;> omega

theorem writtenEntries_eq (map : ProgramMap) :
    (map.entries.map fun entry => pmtEntry map.DescriptorsFit entry.1 entry.2).flatten =
      map.writtenEntries.flatMap encodeEntry := by
  have hentry : ∀ role entry, pmtEntry map.DescriptorsFit role entry =
      encodeEntry (map.writtenEntry role entry) := by
    intro role entry
    by_cases hfit : map.DescriptorsFit <;>
      simp [pmtEntry, encodeEntry, ProgramMap.writtenEntry, hfit]
  simp only [hentry, ProgramMap.entries, ProgramMap.writtenEntries]
  cases map.video <;> cases map.audio <;> simp

theorem pmtSection_eq (map : ProgramMap) (version : UInt8) :
    pmtSection map version =
      appendCrc (pmtHead map version ++ map.writtenEntries.flatMap encodeEntry) := by
  unfold pmtSection
  simp only [filterMap_roles, keepDescriptors_iff, writtenEntries_eq, pmtHead]
  simp only [List.length_cons, List.cons_append, List.nil_append, Nat.add_assoc, Nat.reduceAdd]

theorem length_writtenEntries (map : ProgramMap) :
    16 + (map.writtenEntries.flatMap encodeEntry).length ≤ maxSinglePacketSection := by
  have hmax : maxSinglePacketSection = 183 := rfl
  by_cases hfit : map.DescriptorsFit
  · have hsum := hfit
    unfold ProgramMap.DescriptorsFit at hsum
    rw [List.map_append, List.sum_append] at hsum
    cases hvideo : map.video <;> cases haudio : map.audio <;>
      simp [hvideo, haudio, ProgramMap.writtenEntries, ProgramMap.writtenEntry, hfit,
        length_encodeEntry] at hsum ⊢ <;> omega
  · cases hvideo : map.video <;> cases haudio : map.audio <;>
      simp [hvideo, haudio, ProgramMap.writtenEntries, ProgramMap.writtenEntry, hfit,
        length_encodeEntry, hmax]

theorem length_pmtSection (map : ProgramMap) (version : UInt8) :
    (pmtSection map version).length = 16 + (map.writtenEntries.flatMap encodeEntry).length := by
  rw [pmtSection_eq]
  simp only [appendCrc, pmtHead, beBytes, List.length_append, List.length_cons, List.length_nil]
  omega

theorem lengthField_masked (high low : UInt8) :
    lengthField (0xb0 ||| (high &&& 0x0f)) low = lengthField (0xf0 ||| high) low := by
  have hmask : (0xb0 ||| (high &&& 0x0f)) &&& 0x0f = (0xf0 ||| high) &&& 0x0f := by
    rw [or_and, or_and, UInt8.and_assoc]
    rfl
  rw [lengthField, hmask]
  rfl

theorem pmtSection_consistent (map : ProgramMap) (version : UInt8) :
    Consistent (pmtSection map version) := by
  have hlength := length_pmtSection map version
  have hwritten := length_writtenEntries map
  have hmax : maxSinglePacketSection = 183 := rfl
  refine ⟨by omega, ?_, ?_⟩
  · have : maxSectionBytes = 1024 := rfl
    omega
  · have hannounced : announcedLength (pmtSection map version) =
        3 + ((map.writtenEntries.flatMap encodeEntry).length + 13) := by
      rw [pmtSection_eq]
      refine congrArg (3 + ·) ((lengthField_masked _ _).trans ?_)
      exact lengthField_split (by omega)
    rw [hannounced, hlength]
    omega

theorem writtenEntries_fit (map : ProgramMap) :
    ∀ entry ∈ map.writtenEntries, entry.Fits := by
  intro entry hentry
  have hlength := length_writtenEntries map
  have hmax : maxSinglePacketSection = 183 := rfl
  refine ⟨?_, ?_⟩
  · have hpid : ∃ role : Role, entry.pid = role.outputPid := by
      unfold ProgramMap.writtenEntries at hentry
      rcases List.mem_append.mp hentry with h | h
      · obtain ⟨_, _, rfl⟩ := Option.map_eq_some_iff.mp (Option.mem_toList.mp h)
        exact ⟨.video, rfl⟩
      · obtain ⟨_, _, rfl⟩ := Option.map_eq_some_iff.mp (Option.mem_toList.mp h)
        exact ⟨.audio, rfl⟩
    obtain ⟨role, hpid⟩ := hpid
    rw [hpid]
    cases role <;> decide
  · have hle : (encodeEntry entry).length ≤ (map.writtenEntries.flatMap encodeEntry).length :=
      (List.sublist_flatten_of_mem (List.mem_map_of_mem hentry)).length_le
    rw [length_encodeEntry] at hle
    omega

/-! ## Reading it back -/

theorem pmtSection_bytes (map : ProgramMap) (version : UInt8) :
    (pmtSection map version)[0]! = pmtTableId ∧ (pmtSection map version)[1]! &&& 0x80 ≠ 0 ∧
      (pmtSection map version)[5]! &&& 0x01 ≠ 0 ∧
      be16 (pmtSection map version)[3]! (pmtSection map version)[4]! = programNumber ∧
      pidOf (pmtSection map version)[8]! (pmtSection map version)[9]! = map.outputPcrPid ∧
      lengthField (pmtSection map version)[10]! (pmtSection map version)[11]! = 0 := by
  have hpcr : map.outputPcrPid < 0x2000 := by
    unfold ProgramMap.outputPcrPid
    cases map.pcrPid.bind map.roleOf with
    | none => decide
    | some role => cases role <;> decide
  rw [pmtSection_eq]
  refine ⟨rfl, ?_, ?_, (by decide : be16 (highByte programNumber) programNumber.toUInt8 = 1),
    pidOf_split hpcr, (by decide : lengthField 0xf0 0x00 = 0)⟩
  · exact or_and_ne_zero _ (by decide)
  · exact or_and_ne_zero _ (by decide)

/-- The validation accepts the section and lists the written entries. -/
theorem read_pmtSection (map : ProgramMap) (version : UInt8) :
    parsePmtElementaryStreams (pmtSection map version) programNumber =
        some (map.writtenEntries.map EsEntry.info) ∧
      pmtEntries (pmtSection map version) = map.writtenEntries ∧
      isMatchingPmt (pmtSection map version) programNumber = true := by
  obtain ⟨htable, hsyntax, hcurrent, hprogram, _, hinfo⟩ := pmtSection_bytes map version
  have hlength := length_pmtSection map version
  have hcount : map.writtenEntries.length ≤ (map.writtenEntries.flatMap encodeEntry).length := by
    rw [List.length_flatMap]
    have := List.length_le_sum_of_one_le (map.writtenEntries.map fun entry =>
      (encodeEntry entry).length) (by simp [length_encodeEntry]; omega)
    simpa using this
  have hread := read_entries map.writtenEntries (writtenEntries_fit map) (pmtHead map version)
    (beBytes (mpegCrc32 (pmtHead map version ++ map.writtenEntries.flatMap encodeEntry)))
    (pmtSection map version).length (show _ = 12 from rfl)
    (show (pmtSection map version).length - 4 = _ by omega) (by omega)
  have hsect : pmtHead map version ++ map.writtenEntries.flatMap encodeEntry ++
      beBytes (mpegCrc32 (pmtHead map version ++ map.writtenEntries.flatMap encodeEntry)) =
        pmtSection map version := (pmtSection_eq map version).symm
  rw [hsect] at hread
  have hparse : parsePmtElementaryStreams (pmtSection map version) programNumber =
      some (map.writtenEntries.map EsEntry.info) := by
    unfold parsePmtElementaryStreams
    have hhead : ¬ ((pmtSection map version).length < 16 ∨
        (pmtSection map version)[0]! ≠ pmtTableId ∨
        (pmtSection map version)[1]! &&& 0x80 = 0 ∨ (pmtSection map version)[5]! &&& 0x01 = 0 ∨
        be16 (pmtSection map version)[3]! (pmtSection map version)[4]! ≠ programNumber) := by
      rintro (h | h | h | h | h)
      exacts [by omega, h htable, hsyntax h, hcurrent h, h hprogram]
    rw [if_neg hhead]
    simp only [hinfo, Nat.add_zero]
    rw [if_neg (by omega)]
    exact hread.1
  refine ⟨hparse, ?_, (isMatchingPmt_iff _ _).mpr ⟨by rw [hparse]; rfl, ?_⟩⟩
  · rw [pmtEntries, hinfo]
    exact hread.2
  · rw [pmtSection_eq]
    exact mpegCrc32_appendCrc _

/-- What `from_pmt` kept is a video and an audio stream. -/
theorem fromPmt_kinds {sect : Bytes} {program : UInt16} {map : ProgramMap}
    (hmatch : isMatchingPmt sect program = true) (h : ProgramMap.fromPmt sect = some map) :
    (∀ entry ∈ map.video, isVideoStreamType entry.streamType = true) ∧
      (∀ entry ∈ map.audio, isAudioStream entry.streamType entry.descriptors = true) ∧
      (map.video.isSome || map.audio.isSome) = true := by
  obtain ⟨streams, hparse⟩ :=
    Option.isSome_iff_exists.mp ((isMatchingPmt_iff sect program).mp hmatch).1
  rw [fromPmt_entries hparse, Option.filter_eq_some_iff] at h
  obtain ⟨hsome, hkept⟩ := h
  cases hsome
  refine ⟨fun entry hentry => ?_, fun entry hentry => ?_, hkept⟩
  · have := List.find?_some hentry
    exact this
  · have := List.find?_some hentry
    exact this

/-- The audio stream, if any, is recognised in the written section: by its type, or by
descriptors that fit. -/
def ProgramMap.KeepsAudio (map : ProgramMap) : Prop :=
  map.DescriptorsFit ∨ ∀ entry ∈ map.audio, entry.streamType ≠ 0x06

theorem audio_recognised {map : ProgramMap} {entry : EsEntry}
    (haudio : isAudioStream entry.streamType entry.descriptors = true) :
    isAudioStream entry.streamType (map.writtenEntry .audio entry).descriptors = true ↔
      map.DescriptorsFit ∨ entry.streamType ≠ 0x06 := by
  by_cases hfit : map.DescriptorsFit
  · simp [ProgramMap.writtenEntry, hfit, haudio]
  · simp only [ProgramMap.writtenEntry, hfit, if_false, false_or]
    unfold isAudioStream at haudio ⊢
    split at haudio
    · rename_i htype
      rw [if_pos htype]
      simp only [true_iff]
      rintro hprivate
      rw [hprivate] at htype
      exact absurd htype (by decide)
    · rename_i htype
      split at haudio
      · rename_i hprivate
        simp [hprivate, descriptorTags, descriptorTagsFrom]
      · cases haudio

theorem find?_toList {α : Type} (p : α → Bool) (value : Option α) :
    value.toList.find? p = value.filter p := by
  cases value with
  | none => rfl
  | some value =>
    cases h : p value with
    | true => simp [Option.filter, h]
    | false => simp [Option.filter, h]

/-- The map that is read back from a written section. -/
theorem fromPmt_pmtSection {map : ProgramMap} (version : UInt8)
    (hvideo : ∀ entry ∈ map.video, isVideoStreamType entry.streamType = true)
    (haudio : ∀ entry ∈ map.audio, isAudioStream entry.streamType entry.descriptors = true) :
    ProgramMap.fromPmt (pmtSection map version) =
      (some
        { pcrPid := if map.outputPcrPid ≠ nullPid then some map.outputPcrPid else none
          video := map.video.map (map.writtenEntry .video)
          audio := (map.audio.map (map.writtenEntry .audio)).filter fun entry =>
            isAudioStream entry.streamType entry.descriptors }).filter fun map : ProgramMap =>
              map.video.isSome || map.audio.isSome := by
  obtain ⟨hparse, hentries, _⟩ := read_pmtSection map version
  rw [fromPmt_entries hparse, hentries, (pmtSection_bytes map version).2.2.2.2.1]
  have hfirst : (map.writtenEntries.find? fun entry => isVideoStreamType entry.streamType) =
      map.video.map (map.writtenEntry .video) := by
    unfold ProgramMap.writtenEntries
    cases hv : map.video with
    | some entry =>
      have : isVideoStreamType entry.streamType = true := hvideo entry hv
      simp [ProgramMap.writtenEntry, this]
    | none =>
      cases ha : map.audio with
      | none => rfl
      | some entry =>
        have := audio_not_video (haudio entry ha)
        simp [ProgramMap.writtenEntry, this]
  have hsecond : (map.writtenEntries.find? fun entry =>
      isAudioStream entry.streamType entry.descriptors) =
        (map.audio.map (map.writtenEntry .audio)).filter fun entry =>
          isAudioStream entry.streamType entry.descriptors := by
    have hvideoEntry : ∀ entry ∈ map.video, isAudioStream (map.writtenEntry .video entry).streamType
        (map.writtenEntry .video entry).descriptors = false := by
      intro entry hv
      by_contra h
      have := audio_not_video (by simpa using h)
      rw [ProgramMap.writtenEntry, hvideo entry hv] at this
      cases this
    unfold ProgramMap.writtenEntries
    cases hv : map.video with
    | none => rw [Option.map_none, Option.toList_none, List.nil_append, find?_toList]
    | some entry =>
      rw [Option.map_some, Option.toList_some, List.singleton_append, List.find?_cons,
        hvideoEntry entry hv, find?_toList]
  rw [hfirst, hsecond]

/-- `decoded` has the video of `map` and the given audio, on the PIDs of the slate. -/
structure ReadBack (map : ProgramMap) (audio : Option EsEntry) (decoded : ProgramMap) : Prop where
  videoType : decoded.video.map EsEntry.streamType = map.video.map EsEntry.streamType
  audioType : decoded.audio.map EsEntry.streamType = audio.map EsEntry.streamType
  videoPid : ∀ entry ∈ decoded.video, entry.pid = slateVideoPid
  audioPid : ∀ entry ∈ decoded.audio, entry.pid = slateAudioPid
  pcrPid : decoded.pcrPid.getD nullPid = map.outputPcrPid

theorem readBack_written (map : ProgramMap) (keep : EsEntry → Bool) {audio : Option EsEntry}
    (haudio : (map.audio.map (map.writtenEntry .audio)).filter keep =
      audio.map (map.writtenEntry .audio)) :
    ReadBack map audio
      { pcrPid := if map.outputPcrPid ≠ nullPid then some map.outputPcrPid else none
        video := map.video.map (map.writtenEntry .video)
        audio := (map.audio.map (map.writtenEntry .audio)).filter keep } where
  videoType := by simp [Function.comp_def, ProgramMap.writtenEntry]
  audioType := by simp [haudio, Function.comp_def, ProgramMap.writtenEntry]
  videoPid entry hentry := by
    obtain ⟨_, _, rfl⟩ := Option.map_eq_some_iff.mp hentry
    rfl
  audioPid entry hentry := by
    rw [haudio] at hentry
    obtain ⟨_, _, rfl⟩ := Option.map_eq_some_iff.mp hentry
    rfl
  pcrPid := by
    by_cases hpcr : map.outputPcrPid = nullPid <;> simp [hpcr]

theorem written_of_keepsAudio {map : ProgramMap}
    (haudio : ∀ entry ∈ map.audio, isAudioStream entry.streamType entry.descriptors = true)
    (hkeeps : map.KeepsAudio) :
    ((map.audio.map (map.writtenEntry .audio)).filter fun entry =>
      isAudioStream entry.streamType entry.descriptors) =
        map.audio.map (map.writtenEntry .audio) := by
  cases ha : map.audio with
  | none => rfl
  | some entry =>
    have hkept := (audio_recognised (haudio entry ha)).mpr
      (hkeeps.imp id fun h => h entry ha)
    exact Option.filter_some_pos hkept

theorem written_of_not_keepsAudio {map : ProgramMap}
    (haudio : ∀ entry ∈ map.audio, isAudioStream entry.streamType entry.descriptors = true)
    (hkeeps : ¬ map.KeepsAudio) :
    ((map.audio.map (map.writtenEntry .audio)).filter fun entry =>
      isAudioStream entry.streamType entry.descriptors) = none := by
  unfold ProgramMap.KeepsAudio at hkeeps
  push Not at hkeeps
  obtain ⟨hfit, entry, ha, htype⟩ := hkeeps
  have hlost : ¬ isAudioStream entry.streamType
      (map.writtenEntry .audio entry).descriptors = true := by
    rw [audio_recognised (haudio entry ha)]
    tauto
  rw [Option.mem_def.mp ha]
  exact Option.filter_some_neg (Bool.eq_false_iff.mpr hlost)

/-- **The PSI round trip.** A section followed by its checksum passes the check. For every map of
a validated PMT and every state of the muxer that announces it, a fresh tracker confirms the
written PAT and PMT, and the confirmed section gives the same streams on the slate PIDs. An audio
stream of private data whose descriptors did not fit is not found again. -/
theorem psi_round_trip :
    (∀ sect : Bytes, mpegCrc32 (sect ++ beBytes (mpegCrc32 sect)) = 0) ∧
    ∀ (sect : Bytes) (program : UInt16) (map : ProgramMap), isMatchingPmt sect program = true →
      ProgramMap.fromPmt sect = some map → ∀ self : Muxing, self.mux.outputMap = some map →
      ∃ pat pmt written, self.writePat.writePmt.out = self.out ++ [.pat pat, .pmt pmt] ∧
        (∀ first second : Nat,
          ((({} : PatPmtTracker).observe pat first).1.observe pmt second).2 = some first ∧
          ((({} : PatPmtTracker).observe pat first).1.observe pmt second).1.completedPmt =
            some (written, programNumber)) ∧
        (map.KeepsAudio → ∃ decoded, ProgramMap.fromPmt written = some decoded ∧
          ReadBack map map.audio decoded) ∧
        (¬ map.KeepsAudio → map.video.isSome = true →
          ∃ decoded, ProgramMap.fromPmt written = some decoded ∧ ReadBack map none decoded) ∧
        (¬ map.KeepsAudio → map.video = none → ProgramMap.fromPmt written = none) := by
  refine ⟨mpegCrc32_appendCrc, fun sect program map hmatch hmap self hself => ?_⟩
  obtain ⟨hvideo, haudio, hsome⟩ := fromPmt_kinds hmatch hmap
  have hread := fromPmt_pmtSection self.mux.pmtVersion hvideo haudio
  refine ⟨psiPacket patPid self.mux.patCc patSection,
    psiPacket slatePmtPid self.mux.pmtCc (pmtSection map self.mux.pmtVersion),
    pmtSection map self.mux.pmtVersion, ?_, fun first second => ?_, fun hkeeps => ?_,
    fun hkeeps hpresent => ?_, fun hkeeps habsent => ?_⟩
  · simp [writePat, writePmt, hself]
  · have hlength : (pmtSection map self.mux.pmtVersion).length ≤ maxSinglePacketSection := by
      rw [length_pmtSection]
      exact length_writtenEntries map
    rw [observe_pat, observe_pmt rfl (pmtSection_consistent map _) hlength
      (read_pmtSection map _).2.2]
    exact ⟨rfl, rfl⟩
  · refine ⟨_, hread.trans (Option.filter_some_pos ?_),
      readBack_written map _ (written_of_keepsAudio haudio hkeeps)⟩
    simpa [written_of_keepsAudio haudio hkeeps] using hsome
  · refine ⟨_, hread.trans (Option.filter_some_pos ?_),
      readBack_written map _ (written_of_not_keepsAudio haudio hkeeps)⟩
    simpa using Or.inl hpresent
  · rw [hread, written_of_not_keepsAudio haudio hkeeps, habsent]
    rfl

/-! ## Audio that is not found again -/

/-- AC-3 in private data with 184 bytes of descriptors. -/
def privateAudio : EsEntry where
  pid := 0x101
  streamType := 0x06
  descriptors := [0x6a, 0x00, 0x0a, 180] ++ List.replicate 180 0x00

/-- A PMT of program 1 with that stream only. -/
def privateAudioSection : Bytes :=
  appendCrc ([0x02, 0xb0, 0xca, 0x00, 0x01, 0xc1, 0x00, 0x00, 0xe1, 0x01, 0xf0, 0x00] ++
    encodeEntry privateAudio)

def privateAudioMap : ProgramMap where
  audio := some privateAudio
  pcrPid := some 0x101

theorem privateAudio_valid : isMatchingPmt privateAudioSection 1 = true ∧
    ProgramMap.fromPmt privateAudioSection = some privateAudioMap := by
  have hparse : (parsePmtElementaryStreams privateAudioSection 1).isSome = true := by
    decide +kernel
  refine ⟨(isMatchingPmt_iff _ _).mpr ⟨hparse, mpegCrc32_appendCrc _⟩, ?_⟩
  decide +kernel

/-- Written and read back, the program has no stream at all. -/
theorem private_audio_lost :
    isMatchingPmt privateAudioSection 1 = true ∧
      ProgramMap.fromPmt privateAudioSection = some privateAudioMap ∧
      privateAudioMap.audio.isSome = true ∧
      (((({} : PatPmtTracker).observe (psiPacket patPid 0 patSection) 0).1.observe
        (psiPacket slatePmtPid 0 (pmtSection privateAudioMap 0)) 1).1.completedPmt.map
          fun completed => ProgramMap.fromPmt completed.1) = some none := by
  refine ⟨privateAudio_valid.1, privateAudio_valid.2, rfl, ?_⟩
  rw [observe_pat, observe_pmt rfl (pmtSection_consistent _ _) (by decide +kernel)
    (read_pmtSection _ _).2.2]
  have hnone : ProgramMap.fromPmt (pmtSection privateAudioMap 0) = none := by decide +kernel
  exact congrArg some hnone

/-- The muxer that announces the map of `samplePmtSection`. -/
def sampleMuxing : Muxing where
  mux := { outputMap := ProgramMap.fromPmt samplePmtSection }
  out := []

theorem psi_round_trip_sample :
    ∃ map decoded written, ProgramMap.fromPmt samplePmtSection = some map ∧
      ProgramMap.fromPmt written = some decoded ∧ ReadBack map map.audio decoded := by
  obtain ⟨map, hmap⟩ : ∃ map, ProgramMap.fromPmt samplePmtSection = some map :=
    Option.isSome_iff_exists.mp (by decide +kernel)
  have hvalid : isMatchingPmt samplePmtSection 1 = true := by decide +kernel
  obtain ⟨_, _, written, _, _, hkeeps, _⟩ :=
    psi_round_trip.2 samplePmtSection 1 map hvalid hmap sampleMuxing hmap
  have hfit : (ProgramMap.fromPmt samplePmtSection).all
      (fun map => decide map.DescriptorsFit) = true := by
    decide +kernel
  obtain ⟨decoded, hdecoded, hback⟩ := hkeeps (.inl (by simpa [hmap] using hfit))
  exact ⟨map, decoded, written, hmap, hdecoded, hback⟩

end IptvRelay.Slate
