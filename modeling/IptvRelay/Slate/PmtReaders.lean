import IptvRelay.Media.Passive
import IptvRelay.Media.Ring
import IptvRelay.Slate.Packets
import Mathlib.Tactic

/-!
# The readers of a PMT

Four loops walk over the streams of a PMT: the validation, the stream list, the program map of
the splice muxer and, over the stream list, the ring and the passive analyzer. `pmtEntries` is
the loop they have in common.
-/

namespace IptvRelay.Slate

open Media Psi Passive

/-- The streams of a PMT with their descriptors. Every entry takes at least five bytes, so the
section length is enough fuel. -/
def pmtEntriesFrom (sect : Bytes) (streamsEnd : Nat) : Nat → Nat → List EsEntry
  | 0, _ => []
  | fuel + 1, offset =>
    if offset < streamsEnd then
      let next := offset + 5 + lengthField sect[offset + 3]! sect[offset + 4]!
      { pid := pidOf sect[offset + 1]! sect[offset + 2]!
        streamType := sect[offset]!
        descriptors := (sect.take next).drop (offset + 5) } ::
          pmtEntriesFrom sect streamsEnd fuel next
    else []

def pmtEntries (sect : Bytes) : List EsEntry :=
  pmtEntriesFrom sect (sect.length - 4) sect.length (12 + lengthField sect[10]! sect[11]!)

def EsEntry.info (entry : EsEntry) : ElementaryStreamInfo where
  streamType := entry.streamType
  pid := entry.pid

/-! ## The loops -/

theorem pmtStreamsFrom_entries {sect : Bytes} {streamsEnd fuel offset : Nat}
    {streams : List ElementaryStreamInfo}
    (h : pmtStreamsFrom sect streamsEnd fuel offset = some streams) :
    streams = (pmtEntriesFrom sect streamsEnd fuel offset).map EsEntry.info := by
  induction fuel generalizing offset streams with
  | zero => cases h
  | succ fuel ih =>
    simp only [pmtStreamsFrom, pmtEntriesFrom] at h ⊢
    by_cases hmore : offset < streamsEnd
    · simp only [if_pos hmore] at h ⊢
      split_ifs at h
      obtain ⟨rest, hrest, rfl⟩ := Option.map_eq_some_iff.mp h
      rw [ih hrest]
      rfl
    · simp only [if_neg hmore] at h ⊢
      split_ifs at h
      cases h
      rfl

/-- Where the stream list is complete, the muxer's loop sees every entry of it. -/
theorem addStreams_entries {sect : Bytes} {streamsEnd fuel offset : Nat}
    {streams : List ElementaryStreamInfo} (hend : streamsEnd ≤ sect.length)
    (h : pmtStreamsFrom sect streamsEnd fuel offset = some streams) (map : ProgramMap) :
    ProgramMap.addStreams sect streamsEnd fuel offset map =
      some ((pmtEntriesFrom sect streamsEnd fuel offset).foldl ProgramMap.add map) := by
  induction fuel generalizing offset streams map with
  | zero => cases h
  | succ fuel ih =>
    simp only [pmtStreamsFrom] at h
    simp only [ProgramMap.addStreams, pmtEntriesFrom]
    by_cases hmore : offset < streamsEnd
    · simp only [if_pos hmore] at h ⊢
      split_ifs at h with _ hnext
      obtain ⟨rest, hrest, rfl⟩ := Option.map_eq_some_iff.mp h
      rw [if_pos (by omega), if_neg (by omega), ih hrest]
      rfl
    · rw [if_neg (by omega), if_neg hmore]
      rfl

/-! ## What the muxer and the analyzer keep -/

theorem audio_not_video {streamType : UInt8} {descriptors : Bytes}
    (h : isAudioStream streamType descriptors = true) : isVideoStreamType streamType = false := by
  unfold isAudioStream at h
  unfold isVideoStreamType
  split at h
  · rename_i haudio
    simp only [List.contains_eq_mem, List.mem_cons, List.not_mem_nil, or_false,
      decide_eq_true_eq] at haudio
    rcases haudio with rfl | rfl | rfl | rfl | rfl | rfl | rfl | rfl | rfl <;> rfl
  · split at h
    · rename_i hprivate
      rw [hprivate]
      rfl
    · cases h

theorem foldl_add (entries : List EsEntry) (map : ProgramMap) :
    entries.foldl ProgramMap.add map =
      { map with
        video := map.video.or (entries.find? fun entry => isVideoStreamType entry.streamType)
        audio := map.audio.or
          (entries.find? fun entry => isAudioStream entry.streamType entry.descriptors) } := by
  induction entries generalizing map with
  | nil => simp
  | cons entry rest ih =>
    rw [List.foldl_cons, ih]
    unfold ProgramMap.add
    cases hvideo : isVideoStreamType entry.streamType with
    | true =>
      have haudio : isAudioStream entry.streamType entry.descriptors = false := by
        by_contra h
        rw [audio_not_video (by simpa using h)] at hvideo
        cases hvideo
      cases hmap : map.video <;> simp [hvideo, haudio, hmap]
    | false =>
      cases haudio : isAudioStream entry.streamType entry.descriptors <;>
        cases hmap : map.audio <;> simp [hvideo, haudio, hmap]

theorem isVideoType_eq (streamType : UInt8) :
    isVideoType streamType = isVideoStreamType streamType := by
  simp [isVideoType, isVideoStreamType]

/-! ## Validated sections -/

/-- The PID of the first video stream that the section lists. -/
def firstVideoPid (sect : Bytes) : Option UInt16 :=
  ((pmtEntries sect).find? fun entry => isVideoStreamType entry.streamType).map EsEntry.pid

theorem parse_entries {sect : Bytes} {program : UInt16} {streams : List ElementaryStreamInfo}
    (h : parsePmtElementaryStreams sect program = some streams) :
    16 ≤ sect.length ∧ sect[0]! = pmtTableId ∧
      pmtStreamsFrom sect (sect.length - 4) sect.length (12 + lengthField sect[10]! sect[11]!) =
        some streams := by
  unfold parsePmtElementaryStreams at h
  dsimp only at h
  split_ifs at h with hhead
  push Not at hhead
  exact ⟨hhead.1, hhead.2.1, h⟩

/-- The muxer keeps the first video and the first audio stream of a complete list. -/
theorem fromPmt_entries {sect : Bytes} {program : UInt16} {streams : List ElementaryStreamInfo}
    (h : parsePmtElementaryStreams sect program = some streams) :
    ProgramMap.fromPmt sect =
      (some
        { pcrPid := if pidOf sect[8]! sect[9]! ≠ nullPid then some (pidOf sect[8]! sect[9]!)
            else none
          video := (pmtEntries sect).find? fun entry => isVideoStreamType entry.streamType
          audio := (pmtEntries sect).find? fun entry =>
            isAudioStream entry.streamType entry.descriptors }).filter fun map : ProgramMap =>
              map.video.isSome || map.audio.isSome := by
  obtain ⟨hlength, htable, hstreams⟩ := parse_entries h
  unfold ProgramMap.fromPmt
  rw [if_neg (by rw [htable]; simp [pmtTableId]; omega)]
  simp only [addStreams_entries (Nat.sub_le _ _) hstreams, foldl_add, Option.none_or]
  rfl

theorem videoPid_entries {psi : PatPmtTracker} {sect : Bytes} {program : UInt16}
    {streams : List ElementaryStreamInfo} (hpsi : psi.completedPmt = some (sect, program))
    (h : parsePmtElementaryStreams sect program = some streams) :
    videoPid psi = firstVideoPid sect := by
  have hentries := pmtStreamsFrom_entries (parse_entries h).2.2
  have hfind : streams.find? (fun stream => Meter.isVideoStreamType stream.streamType) =
      ((pmtEntries sect).find? fun entry => isVideoStreamType entry.streamType).map
        EsEntry.info := by
    rw [hentries, List.find?_map]
    congr 2
    funext entry
    rw [Function.comp, Bool.eq_iff_iff]
    simp [Meter.isVideoStreamType, isVideoStreamType, EsEntry.info]
  simp only [videoPid, hpsi, h, Option.bind_eq_bind, Option.bind_some, hfind, firstVideoPid]
  cases (pmtEntries sect).find? fun entry => isVideoStreamType entry.streamType <;> rfl

theorem selected_entries {sect : Bytes} {program : UInt16} {streams : List ElementaryStreamInfo}
    (h : parsePmtElementaryStreams sect program = some streams) :
    (selectStreams streams).video.map Prod.fst = firstVideoPid sect := by
  rw [selectStreams_video, pmtStreamsFrom_entries (parse_entries h).2.2, List.find?_map,
    Option.map_map, Option.map_map, firstVideoPid]
  simp only [isVideoType_eq]
  rfl

theorem setAudio_videoPid (self : PassiveStreamAnalyzer) (audio : Option (UInt16 × UInt8)) :
    (self.setAudio audio).videoPid = self.videoPid := by
  unfold PassiveStreamAnalyzer.setAudio
  split
  · rfl
  · split_ifs <;> rfl

theorem setVideo_videoPid (self : PassiveStreamAnalyzer) (video : Option (UInt16 × UInt8)) :
    (self.setVideo video).videoPid = (video.map Prod.fst).or self.videoPid := by
  unfold PassiveStreamAnalyzer.setVideo
  cases video with
  | none => rfl
  | some video =>
    by_cases hsame : self.videoPid = some video.1 <;> simp [hsame]

/-- **The PMT readers agree.** The validation accepts exactly the sections with a complete stream
list and a correct CRC. On those the ring, the analyzer and the splice muxer select the same
first video stream, and the muxer refuses only programs without video and recognised audio. An
analyzer keeps the PID it has when a section selects none. -/
theorem pmt_readers_agree :
    (∀ (sect : Bytes) (program : UInt16), isMatchingPmt sect program = true ↔
      (parsePmtElementaryStreams sect program).isSome = true ∧ mpegCrc32 sect = 0) ∧
    ∀ (sect : Bytes) (program : UInt16), isMatchingPmt sect program = true →
      parsePmtElementaryStreams sect program = some ((pmtEntries sect).map EsEntry.info) ∧
      (∀ psi : PatPmtTracker, psi.completedPmt = some (sect, program) →
        videoPid psi = firstVideoPid sect) ∧
      (selectStreams ((pmtEntries sect).map EsEntry.info)).video.map Prod.fst =
        firstVideoPid sect ∧
      (∀ self : PassiveStreamAnalyzer, self.tracker.completedPmt = some (sect, program) →
        self.applyPmt.videoPid = (firstVideoPid sect).or self.videoPid) ∧
      ((ProgramMap.fromPmt sect).bind ProgramMap.video).map EsEntry.pid = firstVideoPid sect ∧
      (ProgramMap.fromPmt sect = none ↔ ∀ entry ∈ pmtEntries sect,
        isVideoStreamType entry.streamType = false ∧
          isAudioStream entry.streamType entry.descriptors = false) := by
  refine ⟨isMatchingPmt_iff, fun sect program hmatch => ?_⟩
  obtain ⟨streams, hparse⟩ :=
    Option.isSome_iff_exists.mp ((isMatchingPmt_iff sect program).mp hmatch).1
  have hstreams : streams = (pmtEntries sect).map EsEntry.info :=
    pmtStreamsFrom_entries (parse_entries hparse).2.2
  subst hstreams
  refine ⟨hparse, fun psi hpsi => videoPid_entries hpsi hparse, selected_entries hparse,
    fun self hself => ?_, ?_, ?_⟩
  · unfold PassiveStreamAnalyzer.applyPmt
    simp only [hself, hparse, setAudio_videoPid, setVideo_videoPid, selected_entries hparse]
  · rw [fromPmt_entries hparse, firstVideoPid]
    cases hvideo : (pmtEntries sect).find? fun entry => isVideoStreamType entry.streamType with
    | none =>
      cases (pmtEntries sect).find? fun entry =>
        isAudioStream entry.streamType entry.descriptors <;> rfl
    | some entry => rfl
  · rw [fromPmt_entries hparse, Option.filter_eq_none_iff]
    simp [forall_and, Option.isNone_iff_eq_none]

/-- The section of `samplePmt`. -/
def samplePmtSection : Bytes :=
  [0x02, 0xb0, 0x12, 0x00, 0x01, 0xc1, 0x00, 0x00, 0xe1, 0x00, 0xf0, 0x00, 0x1b, 0xe1, 0x00, 0xf0,
    0x00, 0x15, 0xbd, 0x4d, 0x56]

theorem pmt_readers_agree_sample :
    ((ProgramMap.fromPmt samplePmtSection).bind ProgramMap.video).map EsEntry.pid =
      some 0x100 := by
  have hvalid : isMatchingPmt samplePmtSection 1 = true := by decide +kernel
  obtain ⟨_, _, _, _, hmuxer, _⟩ := pmt_readers_agree.2 samplePmtSection 1 hvalid
  exact hmuxer.trans (by decide +kernel)

end IptvRelay.Slate
