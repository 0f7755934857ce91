import IptvRelay.Media.Passive
import IptvRelay.Media.Sps

/-!
# Runs of the passive analyzer

Model of `observe_packet` and the searches of `passive.rs`. Codec, size and frame rate
are filled in by different packets. An observer of the PMTs alone follows the stream
that these name and collects its bytes; the metadata describes that stream as long as
no PMT takes over a stream that has already been measured.
-/

namespace IptvRelay.Media.Passive

open Psi Blocks

/-! ## The sequence parameter set -/

structure SpsInfo where
  width : Nat
  height : Nat
  fps : Option FrameTiming
  deriving DecidableEq, Repr

section Vui

open Sps

def skipBits (count : Nat) : Parser Unit := bits count >>= fun _ => pure ()

/-- Fields that only follow a flag that is set. -/
def whenSet (fields : Parser Unit) : Parser Unit := do
  let flag ← bit
  if flag.val = 1 then fields else pure ()

def skipAspectRatio : Parser Unit := do
  let idc ← bits 8
  if idc = 255 then skipBits 32 else pure ()

/-- Model of `parse_vui_fps`. Both fields are 32-bit numbers, so the source decides
exactly whether the rate lies between 1 and 240. -/
def parseVuiFps : Parser FrameTiming := do
  let vui ← bit
  if vui.val = 0 then throw .absent
  else
    whenSet skipAspectRatio
    whenSet (skipBits 1)
    whenSet (skipBits 4 >>= fun _ => whenSet (skipBits 24))
    whenSet (ue >>= fun _ => ue >>= fun _ => pure ())
    let timing ← bit
    if timing.val = 0 then throw .absent
    else
      let units ← bits 32
      let scale ← bits 32
      if units = 0 ∨ scale = 0 then throw .absent
      else if 2 * units ≤ scale ∧ scale ≤ 480 * units then return { units, scale }
      else throw .absent

/-- `parse_sps` with the frame rate, where its arithmetic does not overflow. -/
def parseSps (rbsp : Bytes) : Option SpsInfo :=
  match parse { data := rbsp } with
  | .error _ => none
  | .ok (size, reader) => some
    { width := size.width
      height := size.height
      fps := (parseVuiFps reader).toOption.map Prod.fst }

end Vui

/-- The loop of `unescape` after `zeros` zero bytes. -/
def unescapeFrom (zeros : Nat) : Bytes → Bytes
  | [] => []
  | byte :: rest =>
    if 2 ≤ zeros ∧ byte = 3 then unescapeFrom 0 rest
    else byte :: unescapeFrom (if byte = 0 then zeros + 1 else 0) rest

def unescape (data : Bytes) : Bytes := unescapeFrom 0 data

/-- Where the next NAL begins; `none` when the NAL reaches the end of the buffer. -/
def nalEnd (data : Bytes) (start : Nat) : Option Nat :=
  (List.range' start (data.length - 2 - start)).find? fun scan =>
    data[scan]! = 0 ∧ data[scan + 1]! = 0 ∧ data[scan + 2]! ≤ 1

section Search

/- The arithmetic of `parse_sps` wraps in one build and stops in another, so the parser of
the searches is a parameter. -/
variable (readSps : Bytes → Option SpsInfo)

/-- The SPS whose start code is at `index`. -/
def spsAt (data : Bytes) (index : Nat) : Option SpsInfo :=
  if data[index + 3]! &&& 0x1f = 7 then
    (nalEnd data (index + 4)).bind fun stop =>
      readSps (unescape ((data.take stop).drop (index + 4)))
  else none

/-- The loop of `find_h264_sps`. Every iteration moves the index, so the length of the data
is enough fuel. -/
def findSpsFrom (data : Bytes) : Nat → Nat → Option SpsInfo
  | 0, _ => none
  | fuel + 1, index =>
    if index + 4 < data.length then
      if data[index]! = 0 ∧ data[index + 1]! = 0 ∧ data[index + 2]! = 1 then
        (spsAt readSps data index).or (findSpsFrom data fuel (index + 3))
      else findSpsFrom data fuel (index + 1)
    else none

def findH264Sps (data : Bytes) : Option SpsInfo := findSpsFrom readSps data data.length 0

end Search

/-! ## The ADTS header -/

def adtsRates : List Nat :=
  [96000, 88200, 64000, 48000, 44100, 32000, 24000, 22050, 16000, 12000, 11025, 8000, 7350]

/-- The sample rate and the channel count of the header that the bytes begin with. -/
def adtsHeader (window : Bytes) : Option (Nat × Nat) :=
  if 7 ≤ window.length ∧ window[0]! = 0xff ∧ window[1]! &&& 0xf6 = 0xf0 then
    let rateIndex := ((window[2]! >>> 2) &&& 0x0f).toNat
    let channelConfig := (((window[2]! &&& 1) <<< 2) ||| (window[3]! >>> 6)).toNat
    let frameLength := ((window[3]! &&& 3).toNat <<< 11) ||| (window[4]!.toNat <<< 3) |||
      (window[5]! >>> 5).toNat
    adtsRates[rateIndex]?.bind fun rate =>
      if 7 ≤ frameLength ∧ 1 ≤ channelConfig ∧ channelConfig ≤ 7 then
        some (rate, if channelConfig = 7 then 8 else channelConfig)
      else none
  else none

def findAdtsHeader (data : Bytes) : Option (Nat × Nat) := data.tails.findSome? adtsHeader

/-! ## Observing packets -/

def maxEsBytes : Nat := 192 * 1024

/-- The payload slice of one transport packet. -/
def packetPayload (packet : Bytes) : Option Bytes :=
  let adaptationControl := (packet[3]! >>> 4) &&& 0x03
  let offset :=
    if adaptationControl = 1 then some 4
    else if adaptationControl = 3 then some (5 + packet[4]!.toNat)
    else none
  offset.bind fun offset => if offset ≤ packet.length then some (packet.drop offset) else none

namespace PassiveStreamAnalyzer

/-- The packet's payload when the packet carries audio. -/
def readAudio (self : PassiveStreamAnalyzer) (payload : Bytes) : PassiveStreamAnalyzer :=
  if self.metadata.audioSampleRate = none ∧ self.audioEs.length < maxEsBytes then
    let audioEs := self.audioEs ++ payload
    match if self.audioType = some 0x0f then findAdtsHeader audioEs else none with
    | none => { self with audioEs }
    | some (rate, channels) =>
      { self with
        audioEs := []
        metadata := { self.metadata with
          audioSampleRate := some rate
          audioChannels := some channels } }
  else self

variable (readSps : Bytes → Option SpsInfo)

/-- The packet's payload when the packet carries video. -/
def readVideo (self : PassiveStreamAnalyzer) (payload : Bytes) : PassiveStreamAnalyzer :=
  if self.metadata.videoWidth = none ∧ self.videoEs.length < maxEsBytes then
    let videoEs := self.videoEs ++ payload
    match if self.videoType = some 0x1b then findH264Sps readSps videoEs else none with
    | none => { self with videoEs }
    | some sps =>
      { self with
        videoEs := []
        metadata := { self.metadata with
          videoWidth := some sps.width
          videoHeight := some sps.height
          videoFps := sps.fps } }
  else self

/-- The second half of `observe_packet`: the PID decides who reads the payload. -/
def readPayload (self : PassiveStreamAnalyzer) (packet : Bytes) : PassiveStreamAnalyzer :=
  let isVideo := some (packetPid packet) = self.videoPid
  let isAudio := some (packetPid packet) = self.audioPid
  if ¬ isVideo ∧ ¬ isAudio then self
  else
    match packetPayload packet with
    | none => self
    | some payload =>
      let self := if isVideo then self.readVideo readSps payload else self
      if isAudio then self.readAudio payload else self

/-- The first half of `observe_packet`: a PMT that the tracker accepts is applied. -/
def trackPmt (self : PassiveStreamAnalyzer) (packet : Bytes) : PassiveStreamAnalyzer :=
  let (tracker, accepted) := self.tracker.observe packet self.sequence
  if accepted.isSome then { self with tracker }.applyPmt else { self with tracker }

def observePacket (self : PassiveStreamAnalyzer) (packet : Bytes) : PassiveStreamAnalyzer :=
  if packet[0]! ≠ 0x47 then self else (self.trackPmt packet).readPayload readSps packet

/-- One iteration of the loop of `push`. -/
def step (self : PassiveStreamAnalyzer) (packet : Bytes) : PassiveStreamAnalyzer :=
  { self with sequence := self.sequence + 1 }.observePacket readSps packet

def push (self : PassiveStreamAnalyzer) (bytes : Bytes) : PassiveStreamAnalyzer :=
  (chunksExact mpegTsPacketSize bytes).foldl (step readSps) self

/-- A new analyzer after the packets. -/
def analyze (packets : List Bytes) : PassiveStreamAnalyzer := packets.foldl (step readSps) {}

/-- Pushed in whatever pieces, the analyzer sees the packets one by one. -/
theorem foldl_push (pieces : List Bytes) :
    pieces.foldl (push readSps) {} =
      analyze readSps (pieces.flatMap (chunksExact mpegTsPacketSize)) := by
  rw [analyze, List.foldl_flatMap]
  rfl

end PassiveStreamAnalyzer

/-! ## The stream that the PMTs name -/

/-- PID and type of the first video stream of the newest validated PMT. -/
def firstVideo (tracker : PatPmtTracker) : Option (UInt16 × UInt8) := do
  let (sect, program) ← tracker.completedPmt
  let streams ← parsePmtElementaryStreams sect program
  let stream ← streams.find? fun stream => isVideoType stream.streamType
  return (stream.pid, stream.streamType)

/-- What the packets say about the video stream, without any analyzer: the first video stream
of the newest accepted PMT, and its bytes since a PMT first named it. -/
structure Announced where
  tracker : PatPmtTracker := {}
  sequence : Nat := 0
  video : Option (UInt16 × UInt8) := none
  bytes : Bytes := []
  deriving DecidableEq, Repr

namespace Announced

/-- A PMT that names the same stream again does not interrupt it. -/
def name (self : Announced) (video : Option (UInt16 × UInt8)) : Announced :=
  if video = self.video then self else { self with video, bytes := [] }

def track (self : Announced) (packet : Bytes) : Announced :=
  let (tracker, accepted) := self.tracker.observe packet self.sequence
  if accepted.isSome then { self with tracker }.name (firstVideo tracker)
  else { self with tracker }

def carry (self : Announced) (packet : Bytes) : Announced :=
  if some (packetPid packet) = self.video.map Prod.fst then
    { self with bytes := self.bytes ++ (packetPayload packet).getD [] }
  else self

def observe (self : Announced) (packet : Bytes) : Announced :=
  if packet[0]! ≠ 0x47 then self else (self.track packet).carry packet

def step (self : Announced) (packet : Bytes) : Announced :=
  { self with sequence := self.sequence + 1 }.observe packet

end Announced

def announced (packets : List Bytes) : Announced := packets.foldl Announced.step {}

/-- The bytes contain a complete SPS with this content. -/
def CarriesSps (readSps : Bytes → Option SpsInfo) (bytes : Bytes) (info : SpsInfo) : Prop :=
  ∃ (before : Bytes) (header : UInt8) (nal : Bytes) (next : UInt8) (after : Bytes),
    bytes = before ++ 0 :: 0 :: 1 :: header :: (nal ++ 0 :: 0 :: next :: after) ∧
      header &&& 0x1f = 7 ∧ next ≤ 1 ∧ readSps (unescape nal) = some info

/-- Size and frame rate are absent. -/
def Unmeasured (metadata : StreamMetadata) : Prop :=
  metadata.videoWidth = none ∧ metadata.videoHeight = none ∧ metadata.videoFps = none

/-- Size and frame rate come from an SPS of the stream, an H.264 stream. -/
def Measured (readSps : Bytes → Option SpsInfo) (stream : Announced)
    (metadata : StreamMetadata) : Prop :=
  stream.video.map Prod.snd = some 0x1b ∧ ∃ info, CarriesSps readSps stream.bytes info ∧
    metadata.videoWidth = some info.width ∧ metadata.videoHeight = some info.height ∧
    metadata.videoFps = info.fps

/-- The metadata describes the announced stream and no other one. -/
structure Describes (readSps : Bytes → Option SpsInfo) (stream : Announced)
    (metadata : StreamMetadata) : Prop where
  codec : metadata.videoCodec = stream.video.bind fun video => codecNameForStreamType video.2
  size : Unmeasured metadata ∨ Measured readSps stream metadata

/-! ## Finding a parameter set -/

variable {readSps : Bytes → Option SpsInfo}

theorem CarriesSps.append {bytes : Bytes} {info : SpsInfo} (h : CarriesSps readSps bytes info)
    (more : Bytes) : CarriesSps readSps (bytes ++ more) info := by
  obtain ⟨before, header, nal, next, after, rfl, hfound⟩ := h
  exact ⟨before, header, nal, next, after ++ more, by simp, hfound⟩

theorem drop_eq_cons {data : Bytes} {i : Nat} (h : i < data.length) :
    data.drop i = data[i]! :: data.drop (i + 1) := by
  rw [List.drop_eq_getElem_cons h, getElem!_pos data i h]

theorem nalEnd_spec {data : Bytes} {start stop : Nat} (h : nalEnd data start = some stop) :
    start ≤ stop ∧ stop + 2 < data.length ∧
      data[stop]! = 0 ∧ data[stop + 1]! = 0 ∧ data[stop + 2]! ≤ 1 := by
  have hmem := List.mem_of_find?_eq_some h
  have hcode := List.find?_some h
  rw [List.mem_range'_1] at hmem
  simp only [decide_eq_true_eq] at hcode
  exact ⟨hmem.1, by omega, hcode⟩

theorem spsAt_carries {data : Bytes} {index : Nat} {info : SpsInfo}
    (hindex : index + 4 < data.length)
    (hcode : data[index]! = 0 ∧ data[index + 1]! = 0 ∧ data[index + 2]! = 1)
    (h : spsAt readSps data index = some info) : CarriesSps readSps data info := by
  unfold spsAt at h
  split_ifs at h with hheader
  obtain ⟨stop, hstop, hread⟩ := Option.bind_eq_some_iff.mp h
  obtain ⟨hle, hlt, hzero, hzero', hnext⟩ := nalEnd_spec hstop
  refine ⟨data.take index, data[index + 3]!, (data.take stop).drop (index + 4), data[stop + 2]!,
    data.drop (stop + 3), ?_, hheader, hnext, hread⟩
  have hrest : data.drop (index + 4) =
      (data.take stop).drop (index + 4) ++ data.drop stop := by
    conv_lhs => rw [← List.take_append_drop stop data]
    rw [List.drop_append_of_le_length (by simp; omega)]
  calc data = data.take index ++ data.drop index := (List.take_append_drop index data).symm
    _ = data.take index ++ 0 :: 0 :: 1 :: data[index + 3]! :: data.drop (index + 4) := by
      rw [drop_eq_cons (i := index) (by omega), drop_eq_cons (i := index + 1) (by omega),
        drop_eq_cons (i := index + 2) (by omega), drop_eq_cons (i := index + 3) (by omega),
        hcode.1, hcode.2.1, hcode.2.2]
    _ = _ := by
      rw [hrest, drop_eq_cons (i := stop) (by omega), drop_eq_cons (i := stop + 1) (by omega),
        drop_eq_cons (i := stop + 2) (by omega), hzero, hzero']

theorem findSpsFrom_carries {data : Bytes} {info : SpsInfo} (fuel index : Nat)
    (h : findSpsFrom readSps data fuel index = some info) : CarriesSps readSps data info := by
  induction fuel generalizing index with
  | zero => cases h
  | succ fuel ih =>
    rw [findSpsFrom] at h
    split_ifs at h with hindex hcode
    · rcases Option.or_eq_some_iff.mp h with hfound | ⟨-, hlater⟩
      · exact spsAt_carries hindex hcode hfound
      · exact ih _ hlater
    · exact ih _ h

/-! ## One packet -/

namespace PassiveStreamAnalyzer

/-- The analyzer without what it knows about the audio. -/
def withoutAudio (self : PassiveStreamAnalyzer) : PassiveStreamAnalyzer :=
  { self with
    audioPid := none
    audioType := none
    audioEs := []
    metadata := { self.metadata with
      audioCodec := none
      audioChannels := none
      audioSampleRate := none } }

theorem setAudio_withoutAudio (self : PassiveStreamAnalyzer) (audio : Option (UInt16 × UInt8)) :
    (self.setAudio audio).withoutAudio = self.withoutAudio := by
  unfold setAudio
  split
  · rfl
  · split_ifs <;> rfl

theorem readAudio_withoutAudio (self : PassiveStreamAnalyzer) (payload : Bytes) :
    (self.readAudio payload).withoutAudio = self.withoutAudio := by
  unfold readAudio
  split
  · dsimp only
    split <;> rfl
  · rfl

/-- The packet may complete a PMT only if its first video stream is the current one, or has
another PID while nothing has been measured. -/
def Continues (self : PassiveStreamAnalyzer) (packet : Bytes) : Prop :=
  packet[0]! = 0x47 → (self.tracker.observe packet (self.sequence + 1)).2.isSome = true →
    let video := firstVideo (self.tracker.observe packet (self.sequence + 1)).1
    (video.map Prod.fst = self.videoPid ∧ video.map Prod.snd = self.videoType) ∨
      (video.isSome = true ∧ video.map Prod.fst ≠ self.videoPid ∧
        self.metadata.videoWidth = none)

instance (self : PassiveStreamAnalyzer) (packet : Bytes) : Decidable (self.Continues packet) :=
  inferInstanceAs (Decidable (_ → _ → _ ∨ _))

/-- Every packet continues what the packets before it have brought. -/
def Steady (readSps : Bytes → Option SpsInfo) (self : PassiveStreamAnalyzer) : List Bytes → Prop
  | [] => True
  | packet :: rest => self.Continues packet ∧ Steady readSps (self.step readSps packet) rest

end PassiveStreamAnalyzer

open PassiveStreamAnalyzer

/-- The analyzer is at the announced stream, and either reads its bytes or has measured it. -/
structure Follows (readSps : Bytes → Option SpsInfo) (stream : Announced)
    (analyzer : PassiveStreamAnalyzer) : Prop where
  tracker : analyzer.tracker = stream.tracker
  sequence : analyzer.sequence = stream.sequence
  pid : analyzer.videoPid = stream.video.map Prod.fst
  streamType : analyzer.videoType = stream.video.map Prod.snd
  codec : analyzer.metadata.videoCodec =
    stream.video.bind fun video => codecNameForStreamType video.2
  size : Unmeasured analyzer.metadata ∧
      (analyzer.videoEs.length < maxEsBytes → analyzer.videoEs = stream.bytes) ∨
    Measured readSps stream analyzer.metadata

theorem follows_withoutAudio {stream : Announced} {self : PassiveStreamAnalyzer} :
    Follows readSps stream self.withoutAudio ↔ Follows readSps stream self :=
  ⟨fun h => ⟨h.tracker, h.sequence, h.pid, h.streamType, h.codec, h.size⟩,
    fun h => ⟨h.tracker, h.sequence, h.pid, h.streamType, h.codec, h.size⟩⟩

theorem follows_new : Follows readSps {} {} :=
  ⟨rfl, rfl, rfl, rfl, rfl, .inl ⟨⟨rfl, rfl, rfl⟩, fun _ => rfl⟩⟩

theorem Follows.describes {stream : Announced} {self : PassiveStreamAnalyzer}
    (h : Follows readSps stream self) : Describes readSps stream self.metadata :=
  ⟨h.codec, h.size.imp_left And.left⟩

theorem firstVideo_eq {tracker : PatPmtTracker} {sect : Bytes} {program : UInt16}
    {streams : List ElementaryStreamInfo} (htracker : tracker.completedPmt = some (sect, program))
    (hparse : parsePmtElementaryStreams sect program = some streams) :
    firstVideo tracker = (selectStreams streams).video := by
  rw [selectStreams_video, firstVideo, htracker]
  simp only [Option.bind_eq_bind, Option.bind_some, hparse]
  cases streams.find? fun stream => isVideoType stream.streamType <;> rfl

/-- A PMT that the tracker accepts has a stream list. -/
theorem accepted_streams {tracker : PatPmtTracker} {packet : Bytes} {sequence : Nat}
    (h : (tracker.observe packet sequence).2.isSome = true) :
    ∃ sect program streams,
      (tracker.observe packet sequence).1.completedPmt = some (sect, program) ∧
      parsePmtElementaryStreams sect program = some streams := by
  rw [PatPmtTracker.observe] at h ⊢
  cases hheader : packetHeader packet with
  | none => simp [hheader] at h
  | some header =>
    simp only [hheader] at h ⊢
    generalize tracker.observePat header sequence = tracker at h ⊢
    rw [PatPmtTracker.observePmt] at h ⊢
    cases hcandidate : tracker.candidate with
    | none => simp [hcandidate] at h
    | some candidate =>
      simp only [hcandidate] at h ⊢
      split at h
      · cases h
      · rename_i hpid
        rw [if_neg hpid]
        cases hsection : candidate.assembler.observe header sequence with
        | mk assembler completed =>
          cases completed with
          | none => simp [hsection] at h
          | some sect =>
            simp only [hsection] at h ⊢
            split at h
            · rename_i hmatch
              have hparse := ((isMatchingPmt_iff _ _).mp hmatch).1
              obtain ⟨streams, hstreams⟩ := Option.isSome_iff_exists.mp hparse
              rw [if_pos hmatch]
              exact ⟨_, _, streams, rfl, hstreams⟩
            · cases h

theorem setVideo_same {self : PassiveStreamAnalyzer} {video : Option (UInt16 × UInt8)}
    (h : ∀ pid streamType, video = some (pid, streamType) → self.videoPid = some pid) :
    self.setVideo video = self := by
  cases video with
  | none => rfl
  | some video => exact if_pos (h _ _ rfl)

theorem setVideo_width (self : PassiveStreamAnalyzer) (video : Option (UInt16 × UInt8)) :
    (self.setVideo video).metadata.videoWidth = self.metadata.videoWidth := by
  unfold setVideo
  split
  · rfl
  · split <;> rfl

/-- Applying an accepted PMT sets the first video stream, whatever the audio. -/
theorem applyPmt_withoutAudio {self : PassiveStreamAnalyzer} {sect : Bytes} {program : UInt16}
    {streams : List ElementaryStreamInfo}
    (htracker : self.tracker.completedPmt = some (sect, program))
    (hparse : parsePmtElementaryStreams sect program = some streams) :
    self.applyPmt.withoutAudio = (self.setVideo (firstVideo self.tracker)).withoutAudio := by
  rw [firstVideo_eq htracker hparse, applyPmt]
  simp only [htracker, hparse, setAudio_withoutAudio]

/-- A codec stays with its PID, and a width that has been measured stays in any case. -/
theorem applyPmt_kept {self : PassiveStreamAnalyzer} {sect : Bytes} {program : UInt16}
    {streams : List ElementaryStreamInfo}
    (htracker : self.tracker.completedPmt = some (sect, program))
    (hparse : parsePmtElementaryStreams sect program = some streams) :
    ((∀ pid streamType, firstVideo self.tracker = some (pid, streamType) →
        self.videoPid = some pid) →
      self.applyPmt.metadata.videoCodec = self.metadata.videoCodec) ∧
    self.applyPmt.metadata.videoWidth = self.metadata.videoWidth := by
  have happlied := applyPmt_withoutAudio htracker hparse
  constructor
  · intro hsame
    rw [setVideo_same hsame] at happlied
    exact congrArg (fun analyzer => analyzer.metadata.videoCodec) happlied
  · have hwidth := congrArg (fun analyzer => analyzer.metadata.videoWidth) happlied
    exact hwidth.trans (setVideo_width _ _)

/-- A stream with another PID is taken over before anything has been measured. -/
theorem Follows.setVideo {stream : Announced} {analyzer : PassiveStreamAnalyzer}
    (h : Follows readSps stream analyzer) {video : Option (UInt16 × UInt8)}
    (hvideo : (video.map Prod.fst = analyzer.videoPid ∧
        video.map Prod.snd = analyzer.videoType) ∨
      (video.isSome = true ∧ video.map Prod.fst ≠ analyzer.videoPid ∧
        analyzer.metadata.videoWidth = none)) :
    Follows readSps (stream.name video) (analyzer.setVideo video) := by
  rcases hvideo with ⟨hpid, htype⟩ | ⟨hsome, hpid, hwidth⟩
  · have hsame : video = stream.video := by
      rw [h.pid] at hpid
      rw [h.streamType] at htype
      cases video <;> cases hstream : stream.video <;> simp_all [Prod.ext_iff]
    have hkept : analyzer.setVideo video = analyzer :=
      setVideo_same fun pid streamType heq => by rw [← hpid, heq, Option.map_some]
    rw [hkept, Announced.name, if_pos hsame]
    exact h
  · obtain ⟨video, rfl⟩ := Option.isSome_iff_exists.mp hsome
    have hother : some video ≠ stream.video := fun heq => hpid (by rw [heq, h.pid])
    have hnew : analyzer.videoPid ≠ some video.1 := fun heq => hpid heq.symm
    rw [Announced.name, if_neg hother, PassiveStreamAnalyzer.setVideo, if_neg hnew]
    refine ⟨h.tracker, h.sequence, rfl, rfl, rfl, .inl ⟨?_, fun _ => rfl⟩⟩
    rcases h.size with ⟨hnone, -⟩ | ⟨-, info, -, hinfo, -⟩
    · exact hnone
    · rw [hinfo] at hwidth
      cases hwidth

/-- An analyzer without a size reads the stream until an SPS is complete; one with a size
keeps it. -/
theorem Follows.readVideo {stream : Announced} {analyzer : PassiveStreamAnalyzer}
    (h : Follows readSps stream analyzer) (payload : Bytes) :
    Follows readSps { stream with bytes := stream.bytes ++ payload }
      (analyzer.readVideo readSps payload) := by
  rw [PassiveStreamAnalyzer.readVideo]
  rcases h.size with ⟨hnone, hbuffered⟩ | ⟨htype, info, hcarries, hwidth, hrest⟩
  · by_cases hroom : analyzer.videoEs.length < maxEsBytes
    · rw [if_pos ⟨hnone.1, hroom⟩, hbuffered hroom]
      dsimp only
      split
      · exact ⟨h.tracker, h.sequence, h.pid, h.streamType, h.codec, .inl ⟨hnone, fun _ => rfl⟩⟩
      · rename_i sps hfound
        split_ifs at hfound with htype
        refine ⟨h.tracker, h.sequence, h.pid, h.streamType, h.codec, .inr ⟨?_, sps, ?_⟩⟩
        · exact h.streamType.symm.trans htype
        · exact ⟨findSpsFrom_carries _ _ hfound, rfl, rfl, rfl⟩
    · rw [if_neg (fun hread => hroom hread.2)]
      exact ⟨h.tracker, h.sequence, h.pid, h.streamType, h.codec,
        .inl ⟨hnone, fun hlt => absurd hlt hroom⟩⟩
  · rw [if_neg (fun hread => by rw [hwidth] at hread; cases hread.1)]
    exact ⟨h.tracker, h.sequence, h.pid, h.streamType, h.codec,
      .inr ⟨htype, info, hcarries.append payload, hwidth, hrest⟩⟩

theorem Follows.trackPmt {stream : Announced} {analyzer : PassiveStreamAnalyzer}
    {packet : Bytes} (h : Follows readSps stream analyzer)
    (hvideo : (analyzer.tracker.observe packet analyzer.sequence).2.isSome = true →
      let video := firstVideo (analyzer.tracker.observe packet analyzer.sequence).1
      (video.map Prod.fst = analyzer.videoPid ∧ video.map Prod.snd = analyzer.videoType) ∨
        (video.isSome = true ∧ video.map Prod.fst ≠ analyzer.videoPid ∧
          analyzer.metadata.videoWidth = none)) :
    Follows readSps (stream.track packet) (analyzer.trackPmt packet) := by
  have hobserve : stream.tracker.observe packet stream.sequence =
      analyzer.tracker.observe packet analyzer.sequence := by rw [h.tracker, h.sequence]
  rw [Announced.track, PassiveStreamAnalyzer.trackPmt, hobserve]
  have hmoved : Follows readSps
      { stream with tracker := (analyzer.tracker.observe packet analyzer.sequence).1 }
      { analyzer with tracker := (analyzer.tracker.observe packet analyzer.sequence).1 } :=
    ⟨rfl, h.sequence, h.pid, h.streamType, h.codec, h.size⟩
  by_cases haccepted : (analyzer.tracker.observe packet analyzer.sequence).2.isSome = true
  · obtain ⟨sect, program, streams, htracker, hparse⟩ := accepted_streams haccepted
    dsimp only
    rw [if_pos haccepted, if_pos haccepted, ← follows_withoutAudio,
      applyPmt_withoutAudio htracker hparse, follows_withoutAudio]
    exact hmoved.setVideo (hvideo haccepted)
  · dsimp only
    rw [if_neg haccepted, if_neg haccepted]
    exact hmoved

theorem Follows.readPayload {stream : Announced} {analyzer : PassiveStreamAnalyzer}
    (h : Follows readSps stream analyzer) (packet : Bytes) :
    Follows readSps (stream.carry packet) (analyzer.readPayload readSps packet) := by
  have haudio {stream : Announced} {analyzer : PassiveStreamAnalyzer} (p : Prop) [Decidable p]
      (h : Follows readSps stream analyzer) (payload : Bytes) :
      Follows readSps stream (if p then analyzer.readAudio payload else analyzer) := by
    split
    · rwa [← follows_withoutAudio, readAudio_withoutAudio, follows_withoutAudio]
    · exact h
  rw [Announced.carry, PassiveStreamAnalyzer.readPayload]
  dsimp only
  by_cases hvideo : some (packetPid packet) = analyzer.videoPid
  · rw [if_pos (hvideo.trans h.pid), if_neg (fun hneither => hneither.1 hvideo)]
    cases packetPayload packet with
    | none =>
      rw [Option.getD_none, List.append_nil]
      exact h
    | some payload =>
      dsimp only
      rw [if_pos hvideo]
      exact haudio _ (h.readVideo payload) payload
  · rw [if_neg (fun heq => hvideo (heq.trans h.pid.symm))]
    split
    · exact h
    · cases packetPayload packet with
      | none => exact h
      | some payload => exact haudio _ h payload

theorem Follows.step {stream : Announced} {analyzer : PassiveStreamAnalyzer} {packet : Bytes}
    (h : Follows readSps stream analyzer) (hcontinues : analyzer.Continues packet) :
    Follows readSps (stream.step packet) (analyzer.step readSps packet) := by
  have hnext : Follows readSps { stream with sequence := stream.sequence + 1 }
      { analyzer with sequence := analyzer.sequence + 1 } :=
    ⟨h.tracker, by rw [h.sequence], h.pid, h.streamType, h.codec, h.size⟩
  rw [Announced.step, Announced.observe, PassiveStreamAnalyzer.step, observePacket]
  by_cases hsync : packet[0]! = 0x47
  · rw [if_neg (not_not.mpr hsync), if_neg (not_not.mpr hsync)]
    exact (hnext.trackPmt (hcontinues hsync)).readPayload packet
  · rw [if_pos hsync, if_pos hsync]
    exact hnext

/-! ## Runs -/

theorem Follows.run {stream : Announced} {analyzer : PassiveStreamAnalyzer}
    {packets : List Bytes} (h : Follows readSps stream analyzer)
    (hsteady : Steady readSps analyzer packets) :
    Follows readSps (packets.foldl Announced.step stream)
      (packets.foldl (PassiveStreamAnalyzer.step readSps) analyzer) := by
  induction packets generalizing stream analyzer with
  | nil => exact h
  | cons packet rest ih => exact ih (h.step hsteady.1) hsteady.2

theorem Steady.of_append {analyzer : PassiveStreamAnalyzer} {before after : List Bytes}
    (h : Steady readSps analyzer (before ++ after)) : Steady readSps analyzer before := by
  induction before generalizing analyzer with
  | nil => trivial
  | cons packet rest ih => exact ⟨h.1, ih h.2⟩

/-! ## Packets that interrupt the stream -/

theorem codecName_injOn {streamType other : UInt8} (htype : isVideoType streamType = true)
    (hother : isVideoType other = true)
    (h : codecNameForStreamType streamType = codecNameForStreamType other) :
    streamType = other := by
  simp only [isVideoType, List.mem_cons, List.not_mem_nil, or_false, decide_eq_true_eq]
    at htype hother
  rcases htype with rfl | rfl | rfl | rfl | rfl <;>
    rcases hother with rfl | rfl | rfl | rfl | rfl <;>
    first | rfl | exact absurd h (by decide)

theorem codecName_isSome {streamType : UInt8} (htype : isVideoType streamType = true) :
    (codecNameForStreamType streamType).isSome = true := by
  simp only [isVideoType, List.mem_cons, List.not_mem_nil, or_false, decide_eq_true_eq] at htype
  rcases htype with rfl | rfl | rfl | rfl | rfl <;> rfl

theorem firstVideo_type {tracker : PatPmtTracker} {video : UInt16 × UInt8}
    (h : firstVideo tracker = some video) : isVideoType video.2 = true := by
  simp only [firstVideo, Option.bind_eq_bind, Option.bind_eq_some_iff, Option.pure_def,
    Option.some.injEq] at h
  obtain ⟨_, -, _, -, stream, hfound, rfl⟩ := h
  have htype := List.find?_some hfound
  exact htype

theorem Announced.name_video (self : Announced) (video : Option (UInt16 × UInt8)) :
    (self.name video).video = video := by
  rw [Announced.name]
  split
  · rename_i hsame
    exact hsame.symm
  · rfl

theorem Announced.carry_video (self : Announced) (packet : Bytes) :
    (self.carry packet).video = self.video := by
  rw [Announced.carry]
  split <;> rfl

/-- Only a stream of a video type is ever named. -/
theorem announced_type (packets : List Bytes) {video : UInt16 × UInt8}
    (h : (announced packets).video = some video) : isVideoType video.2 = true := by
  induction packets using List.reverseRecOn generalizing video with
  | nil => cases h
  | append_singleton packets packet ih =>
    rw [announced, List.foldl_concat, ← announced, Announced.step, Announced.observe] at h
    split_ifs at h
    · exact ih h
    · rw [Announced.carry_video, Announced.track] at h
      dsimp only at h
      split_ifs at h
      · rw [Announced.name_video] at h
        exact firstVideo_type h
      · exact ih h

/-- No payload changes the codec, or a size that has been measured. -/
theorem readPayload_kept (self : PassiveStreamAnalyzer) (packet : Bytes) :
    (self.readPayload readSps packet).metadata.videoCodec = self.metadata.videoCodec ∧
      (self.metadata.videoWidth ≠ none →
        (self.readPayload readSps packet).metadata.videoWidth = self.metadata.videoWidth) := by
  have hvideo (p : Prop) [Decidable p] (payload : Bytes) :
      (if p then self.readVideo readSps payload else self).metadata.videoCodec =
          self.metadata.videoCodec ∧
        (self.metadata.videoWidth ≠ none →
          (if p then self.readVideo readSps payload else self).metadata.videoWidth =
            self.metadata.videoWidth) := by
    split
    · rw [readVideo]
      split
      · rename_i hread
        dsimp only
        split <;> exact ⟨rfl, fun hwidth => absurd hread.1 hwidth⟩
      · exact ⟨rfl, fun _ => rfl⟩
    · exact ⟨rfl, fun _ => rfl⟩
  rw [readPayload]
  dsimp only
  split
  · exact ⟨rfl, fun _ => rfl⟩
  · split
    · exact ⟨rfl, fun _ => rfl⟩
    · rename_i payload _
      split
      · rename_i haudio
        have hsame := readAudio_withoutAudio
          (if some (packetPid packet) = self.videoPid then self.readVideo readSps payload else self)
          payload
        have hcodec := congrArg (fun a => a.metadata.videoCodec) hsame
        have hwidth := congrArg (fun a => a.metadata.videoWidth) hsame
        exact ⟨hcodec.trans (hvideo _ payload).1, fun h => hwidth.trans ((hvideo _ payload).2 h)⟩
      · exact hvideo _ payload

/-- After the packet the codec is not the one of the announced stream, or the width of an
earlier stream is still reported. -/
def LeftOver (readSps : Bytes → Option SpsInfo) (packets : List Bytes) (packet : Bytes) : Prop :=
  let metadata := (analyze readSps (packets ++ [packet])).metadata
  let video := (announced (packets ++ [packet])).video
  metadata.videoCodec ≠ (video.bind fun video => codecNameForStreamType video.2) ∨
    video ≠ (announced packets).video ∧
      (analyze readSps packets).metadata.videoWidth ≠ none ∧
      metadata.videoWidth = (analyze readSps packets).metadata.videoWidth

/-- A packet that completes a PMT names its first video stream, whatever is kept. -/
theorem accepted_step {stream : Announced} {analyzer : PassiveStreamAnalyzer} {packet : Bytes}
    (h : Follows readSps stream analyzer) (hsync : packet[0]! = 0x47)
    (haccepted : (analyzer.tracker.observe packet (analyzer.sequence + 1)).2.isSome = true) :
    let video := firstVideo (analyzer.tracker.observe packet (analyzer.sequence + 1)).1
    let next := analyzer.step readSps packet
    (stream.step packet).video = video ∧
      ((∀ pid streamType, video = some (pid, streamType) → analyzer.videoPid = some pid) →
        next.metadata.videoCodec = analyzer.metadata.videoCodec) ∧
      (analyzer.metadata.videoWidth ≠ none →
        next.metadata.videoWidth = analyzer.metadata.videoWidth) := by
  have hobserve : stream.tracker.observe packet (stream.sequence + 1) =
      analyzer.tracker.observe packet (analyzer.sequence + 1) := by rw [h.tracker, h.sequence]
  obtain ⟨sect, program, streams, htracker, hparse⟩ := accepted_streams haccepted
  rw [Announced.step, Announced.observe, PassiveStreamAnalyzer.step, observePacket,
    if_neg (not_not.mpr hsync), if_neg (not_not.mpr hsync), Announced.carry_video,
    Announced.track, trackPmt, hobserve]
  dsimp only
  rw [if_pos haccepted, if_pos haccepted, Announced.name_video]
  obtain ⟨hcodec, hwidth⟩ := @applyPmt_kept
    { analyzer with
      sequence := analyzer.sequence + 1
      tracker := (analyzer.tracker.observe packet (analyzer.sequence + 1)).1 }
    sect program streams htracker hparse
  refine ⟨rfl, fun hsame => (readPayload_kept _ _).1.trans (hcodec hsame), fun hmeasured => ?_⟩
  rw [(readPayload_kept _ _).2 (fun hnone => hmeasured (hwidth.symm.trans hnone))]
  exact hwidth

/-- Whatever a packet outside the condition brings, something is left over from the stream
before it. -/
theorem Follows.leftOver {packets : List Bytes} {packet : Bytes}
    (h : Follows readSps (announced packets) (analyze readSps packets))
    (hnot : ¬ (analyze readSps packets).Continues packet) : LeftOver readSps packets packet := by
  have htyped := @announced_type packets
  unfold LeftOver
  rw [announced, List.foldl_concat, ← announced, analyze, List.foldl_concat, ← analyze]
  generalize announced packets = stream at h htyped ⊢
  generalize analyze readSps packets = analyzer at h hnot ⊢
  simp only [Continues, not_forall] at hnot
  obtain ⟨hsync, haccepted, hnot⟩ := hnot
  obtain ⟨hnamed, hcodec, hwidth⟩ := accepted_step h hsync haccepted
  have hfirst := @firstVideo_type (analyzer.tracker.observe packet (analyzer.sequence + 1)).1
  dsimp only
  rw [hnamed]
  generalize firstVideo (analyzer.tracker.observe packet (analyzer.sequence + 1)).1 = video
    at hnot hcodec hfirst ⊢
  obtain ⟨hother, hmeasured⟩ := not_or.mp hnot
  rw [h.pid, h.streamType] at hother
  by_cases hsame : ∀ pid streamType, video = some (pid, streamType) → analyzer.videoPid = some pid
  · -- the PID stays or no stream is named: the codec is the one of the stream before
    refine .inl fun heq => hother ?_
    rw [hcodec hsame, h.codec] at heq
    cases hbefore : stream.video with
    | none =>
      cases video with
      | none => exact ⟨rfl, rfl⟩
      | some video =>
        have hpid := hsame _ _ rfl
        rw [h.pid, hbefore] at hpid
        cases hpid
    | some old =>
      rw [hbefore, Option.bind_some] at heq
      cases video with
      | none =>
        have hknown := codecName_isSome (htyped hbefore)
        rw [heq] at hknown
        cases hknown
      | some video =>
        have hpid := hsame _ _ rfl
        rw [h.pid, hbefore] at hpid
        have htype := codecName_injOn (htyped hbefore) (hfirst rfl) heq
        exact ⟨hpid.symm, congrArg some htype.symm⟩
  · -- another PID: the packet is only a problem after a size has been measured
    push Not at hsame
    obtain ⟨pid, streamType, rfl, hpid⟩ := hsame
    have hwide : analyzer.metadata.videoWidth ≠ none := fun hnone =>
      hmeasured ⟨rfl, fun heq => hpid heq.symm, hnone⟩
    refine .inr ⟨fun heq => hpid ?_, hwide, hwidth hwide⟩
    rw [h.pid, ← heq]
    rfl

/-- **One stream.** While every PMT names the current video stream again, or a new PID before a
size has been measured, codec, size and frame rate belong to the first video stream of the
newest accepted PMT after every packet. The first packet that does otherwise leaves something
over. -/
theorem metadata_describes_stream (readSps : Bytes → Option SpsInfo) :
    (∀ packets, Steady readSps {} packets → ∀ before, before <+: packets →
      Describes readSps (announced before) (analyze readSps before).metadata) ∧
    ∀ packets packet, Steady readSps {} packets →
      ¬ (analyze readSps packets).Continues packet → LeftOver readSps packets packet := by
  refine ⟨fun packets hsteady before hbefore => ?_, fun packets packet hsteady hnot => ?_⟩
  · obtain ⟨after, rfl⟩ := hbefore
    exact (follows_new.run (Steady.of_append hsteady)).describes
  · exact (follows_new.run hsteady).leftOver hnot

/-! ## Recorded packets -/

/-- An H.264 parameter set of 1920 by 1080 at 29.97 frames per second, on PID `0x100`. -/
def spsPacket : Bytes :=
  [0x47, 0x01, 0x00, 0x10, 0x00, 0x00, 0x01, 0x67, 0x42, 0x00, 0x28, 0xda, 0x01, 0xe0, 0x08, 0x9f,
    0x96, 0x10, 0x00, 0x00, 0x3e, 0x90, 0x00, 0x0e, 0xa6, 0x04, 0x00, 0x00, 0x01] ++
    List.replicate 159 0xff

/-- The PMT of `samplePmt` with an H.265 stream on the same PID. -/
def hevcPmt : Bytes :=
  [0x47, 0x50, 0x00, 0x10, 0x00, 0x02, 0xb0, 0x12, 0x00, 0x01, 0xc1, 0x00, 0x00, 0xe1, 0x00, 0xf0,
    0x00, 0x24, 0xe1, 0x00, 0xf0, 0x00, 0x2f, 0x00, 0x6e, 0xe7] ++ List.replicate 162 0xff

/-- The PMT of `samplePmt` with the stream on PID `0x200`. -/
def movedPmt : Bytes :=
  [0x47, 0x50, 0x00, 0x10, 0x00, 0x02, 0xb0, 0x12, 0x00, 0x01, 0xc1, 0x00, 0x00, 0xe1, 0x00, 0xf0,
    0x00, 0x1b, 0xe2, 0x00, 0xf0, 0x00, 0x75, 0xca, 0xff, 0x38] ++ List.replicate 162 0xff

/-- A PMT with an AAC stream only. -/
def audioPmt : Bytes :=
  [0x47, 0x50, 0x00, 0x10, 0x00, 0x02, 0xb0, 0x12, 0x00, 0x01, 0xc1, 0x00, 0x00, 0xe1, 0x00, 0xf0,
    0x00, 0x0f, 0xe1, 0x01, 0xf0, 0x00, 0xb7, 0x43, 0x6c, 0x5e] ++ List.replicate 162 0xff

instance decidableSteady (analyzer : PassiveStreamAnalyzer) :
    (packets : List Bytes) → Decidable (Steady parseSps analyzer packets)
  | [] => inferInstanceAs (Decidable True)
  | packet :: rest =>
    have := decidableSteady (analyzer.step parseSps packet) rest
    inferInstanceAs (Decidable (_ ∧ _))

/-- One program: its metadata is complete and describes the stream until the video moves. -/
theorem metadata_of_one_pmt :
    (analyze parseSps [samplePat, samplePmt, spsPacket]).metadata =
        { videoCodec := some "h264"
          videoWidth := some 1920
          videoHeight := some 1080
          videoFps := some { units := 1001, scale := 60000 } } ∧
      Describes parseSps (announced [samplePat, samplePmt, spsPacket])
        (analyze parseSps [samplePat, samplePmt, spsPacket]).metadata ∧
      LeftOver parseSps [samplePat, samplePmt, spsPacket, samplePat] movedPmt :=
  ⟨by decide +kernel,
    (metadata_describes_stream parseSps).1 [samplePat, samplePmt, spsPacket] (by decide +kernel) _
      (List.prefix_refl _),
    (metadata_describes_stream parseSps).2 [samplePat, samplePmt, spsPacket, samplePat] movedPmt
      (by decide +kernel) (by decide +kernel)⟩

/-- Another type on the same PID keeps the codec, another PID keeps the size, and a PMT without
video keeps the codec of the stream that has ended. -/
theorem metadata_left_over :
    ¬ Describes parseSps (announced [samplePat, samplePmt, samplePat, hevcPmt])
        (analyze parseSps [samplePat, samplePmt, samplePat, hevcPmt]).metadata ∧
      ¬ Describes parseSps (announced [samplePat, samplePmt, spsPacket, samplePat, movedPmt])
        (analyze parseSps [samplePat, samplePmt, spsPacket, samplePat, movedPmt]).metadata ∧
      ¬ Describes parseSps (announced [samplePat, samplePmt, samplePat, audioPmt])
        (analyze parseSps [samplePat, samplePmt, samplePat, audioPmt]).metadata := by
  refine ⟨fun h => absurd h.codec (by decide +kernel), fun h => ?_,
    fun h => absurd h.codec (by decide +kernel)⟩
  have hbytes : (announced [samplePat, samplePmt, spsPacket, samplePat, movedPmt]).bytes = [] := by
    decide +kernel
  rcases h.size with hnone | ⟨-, info, ⟨before, header, nal, next, after, hcarries, -⟩, -⟩
  · exact absurd hnone.1 (by decide +kernel)
  · rw [hbytes] at hcarries
    simp at hcarries

end IptvRelay.Media.Passive
