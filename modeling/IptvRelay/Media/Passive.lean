import IptvRelay.Media.Psi

/-!
# The passive stream analyzer

Model of `PassiveStreamAnalyzer` in `passive.rs`: what it takes over from a validated PMT.
-/

namespace IptvRelay.Media.Passive

open Psi

/-- The two VUI fields that determine the frame rate, a floating-point number in the source. -/
structure FrameTiming where
  units : Nat
  scale : Nat
  deriving DecidableEq, Repr

structure StreamMetadata where
  videoCodec : Option String := none
  videoWidth : Option Nat := none
  videoHeight : Option Nat := none
  videoFps : Option FrameTiming := none
  audioCodec : Option String := none
  audioChannels : Option Nat := none
  audioSampleRate : Option Nat := none
  deriving DecidableEq, Repr

structure PassiveStreamAnalyzer where
  tracker : PatPmtTracker := {}
  sequence : Nat := 0
  videoPid : Option UInt16 := none
  audioPid : Option UInt16 := none
  videoType : Option UInt8 := none
  audioType : Option UInt8 := none
  videoEs : Bytes := []
  audioEs : Bytes := []
  metadata : StreamMetadata := {}
  deriving DecidableEq, Repr

def codecNameForStreamType (streamType : UInt8) : Option String :=
  if streamType = 0x01 then some "mpeg1-video"
  else if streamType = 0x02 then some "mpeg2-video"
  else if streamType = 0x10 then some "mpeg4-video"
  else if streamType = 0x1b then some "h264"
  else if streamType = 0x24 then some "h265"
  else if streamType = 0x03 then some "mpeg1-audio"
  else if streamType = 0x04 then some "mp2"
  else if streamType = 0x0f then some "aac"
  else if streamType = 0x11 then some "aac-latm"
  else if streamType ∈ ([0x80, 0x81] : List UInt8) then some "ac3"
  else if streamType = 0x82 then some "dts"
  else if streamType ∈ ([0x83, 0x84, 0x87] : List UInt8) then some "eac3"
  else none

/-- The first video and the first audio stream of the entry loop in `apply_pmt`. -/
structure Selected where
  video : Option (UInt16 × UInt8) := none
  audio : Option (UInt16 × UInt8) := none
  deriving DecidableEq, Repr

/-- `get_or_insert` on the kind that the stream type belongs to. -/
def Selected.add (selected : Selected) (entry : ElementaryStreamInfo) : Selected :=
  if entry.streamType ∈ ([0x01, 0x02, 0x10, 0x1b, 0x24] : List UInt8) then
    { selected with video := selected.video.or (some (entry.pid, entry.streamType)) }
  else if entry.streamType ∈
      ([0x03, 0x04, 0x0f, 0x11, 0x80, 0x81, 0x82, 0x83, 0x84, 0x87] : List UInt8) then
    { selected with audio := selected.audio.or (some (entry.pid, entry.streamType)) }
  else selected

def selectStreams (streams : List ElementaryStreamInfo) : Selected :=
  streams.foldl Selected.add {}

def isVideoType (streamType : UInt8) : Bool :=
  streamType ∈ ([0x01, 0x02, 0x10, 0x1b, 0x24] : List UInt8)

/-- The loop keeps the first video stream, whatever stands between the entries. -/
theorem foldl_add_video (streams : List ElementaryStreamInfo) (selected : Selected) :
    (streams.foldl Selected.add selected).video =
      selected.video.or ((streams.find? fun stream => isVideoType stream.streamType).map
        fun stream => (stream.pid, stream.streamType)) := by
  induction streams generalizing selected with
  | nil => simp
  | cons stream rest ih =>
    rw [List.foldl_cons, ih, Selected.add, List.find?_cons]
    by_cases hvideo : isVideoType stream.streamType = true
    · have hmem := of_decide_eq_true hvideo
      simp only [if_pos hmem, hvideo]
      cases selected.video <;> rfl
    · have hmem : stream.streamType ∉ ([0x01, 0x02, 0x10, 0x1b, 0x24] : List UInt8) :=
        fun hmem => hvideo (decide_eq_true hmem)
      rw [if_neg hmem]
      simp only [hvideo]
      congr 1
      split <;> rfl

theorem selectStreams_video (streams : List ElementaryStreamInfo) :
    (selectStreams streams).video =
      (streams.find? fun stream => isVideoType stream.streamType).map
        fun stream => (stream.pid, stream.streamType) := by
  rw [selectStreams, foldl_add_video, Option.none_or]

namespace PassiveStreamAnalyzer

/-- A new video PID replaces the old one and its buffer. -/
def setVideo (self : PassiveStreamAnalyzer) (video : Option (UInt16 × UInt8)) :
    PassiveStreamAnalyzer :=
  match video with
  | none => self
  | some (pid, streamType) =>
    if self.videoPid = some pid then self
    else
      { self with
        videoPid := some pid
        videoType := some streamType
        videoEs := []
        metadata := { self.metadata with videoCodec := codecNameForStreamType streamType } }

def setAudio (self : PassiveStreamAnalyzer) (audio : Option (UInt16 × UInt8)) :
    PassiveStreamAnalyzer :=
  match audio with
  | none => self
  | some (pid, streamType) =>
    if self.audioPid = some pid then self
    else
      { self with
        audioPid := some pid
        audioType := some streamType
        audioEs := []
        metadata := { self.metadata with audioCodec := codecNameForStreamType streamType } }

def applyPmt (self : PassiveStreamAnalyzer) : PassiveStreamAnalyzer :=
  match self.tracker.completedPmt with
  | none => self
  | some (sect, program) =>
    match parsePmtElementaryStreams sect program with
    | none => self
    | some streams =>
      let selected := selectStreams streams
      (self.setVideo selected.video).setAudio selected.audio

end PassiveStreamAnalyzer

end IptvRelay.Media.Passive
