import IptvRelay.Lib.Replay
import IptvRelay.Parsers.Slices
import IptvRelay.Parsers.Xmltv

/-!
# Visitors of the parsers

Both parsers hand their records to a visitor and look at nothing that it does. A document is
parsed with a visitor exactly when it is parsed without one and the visitor accepts the records of
that run in their order.
-/

namespace IptvRelay.Parsers

open Checked Replay

/-! ## Playlists -/

section Playlist

variable {Url Duration σ τ : Type}

def M3uState.withVisitor (s : M3uState Url Duration σ) (visitor : τ) : M3uState Url Duration τ where
  playlist := s.playlist
  pending := s.pending
  sawContent := s.sawContent
  sawHeader := s.sawHeader
  visitor := visitor
  visits := s.visits

def playlistCarrier : Carrier (M3uState Url Duration) (M3uEntry Url Duration) where
  visitor s := s.visitor
  calls s := s.visits
  withVisitor s v := s.withVisitor v
  visitor_with _ _ := rfl
  calls_with _ _ := rfl
  with_with _ _ _ := rfl
  with_visitor _ := rfl

/-- The visitor that does nothing. -/
def passEntry (_ : Unit) (_ : M3uEntry Url Duration) : Except ParseError Unit := .ok ()

variable {env : M3uEnv Url Duration} {limits : ParseLimits}
  {visit : σ → M3uEntry Url Duration → Except ParseError σ} {s : M3uState Url Duration σ}

theorem extinfLine_replays (number : Nat) (line : List Char) :
    Replays playlistCarrier visit s (extinfLine env limits (s.withVisitor ()) number line)
      (extinfLine env limits s number line) :=
  .bind _ fun _ => .same rfl

theorem directiveLine_replays (line : List Char) :
    Replays playlistCarrier visit s (.ok (directiveLine (s.withVisitor ()) line))
      (.ok (directiveLine s line)) := by
  have hsame : directiveLine s line =
      (directiveLine (s.withVisitor ()) line).withVisitor s.visitor := by
    cases hpending : s.pending <;> simp only [directiveLine, M3uState.withVisitor, hpending]
  rw [hsame]
  refine .same ?_
  cases hpending : s.pending <;>
    simp only [playlistCarrier, directiveLine, M3uState.withVisitor, hpending]

theorem urlLine_replays (number : Nat) (url : Url) :
    Replays playlistCarrier visit s (urlLine limits passEntry (s.withVisitor ()) number url)
      (urlLine limits visit s number url) :=
  .bind _ fun _ => .once rfl

theorem contentLine_replays (number : Nat) (line : List Char) :
    Replays playlistCarrier visit s
      (contentLine env limits passEntry (s.withVisitor ()) number line)
      (contentLine env limits visit s number line) := by
  unfold contentLine
  split_ifs
  · exact extinfLine_replays number line
  · exact directiveLine_replays line
  · split
    · exact urlLine_replays number _
    · exact .same rfl

theorem stepLine_replays (number : Nat) (line : String) :
    Replays playlistCarrier visit s (stepLine env limits passEntry (s.withVisitor ()) number line)
      (stepLine env limits visit s number line) := by
  unfold stepLine
  dsimp only [M3uState.withVisitor]
  generalize Text.trim _ = text
  generalize parseHeader env text number = found
  let counted : M3uState Url Duration σ :=
    { s with playlist.stats.linesRead := s.playlist.stats.linesRead + 1 }
  split_ifs
  · exact .same rfl
  · exact (contentLine_replays (s := counted) number text).start rfl rfl
  · exact .same rfl
  · exact (contentLine_replays (s := { counted with
      sawContent := true
      playlist := counted.playlist.warning .missingHeader (some number)
        "playlist does not begin with #EXTM3U" }) number text).start rfl rfl

/-- The loop does the same with both visitors; the induction is on what is left to read. -/
theorem runLines_agrees (s : M3uState Url Duration σ) (reader : LineReader) :
    Agrees (S := Beside (M3uState Url Duration) LineReader) (playlistCarrier.beside LineReader)
      visit s.visits s.visitor (runLines env limits passEntry (s.withVisitor ()) reader)
      (runLines env limits visit s reader) := by
  induction hsize : reader.size using Nat.strong_induction_on generalizing reader s with
  | h size ih =>
    cases hnext : reader.nextLine limits with
    | error error =>
      rw [runLines_error hnext, runLines_error hnext]
      exact ⟨nofun, fun _ => ⟨nofun, nofun⟩⟩
    | ok line =>
      obtain ⟨line, next⟩ := line
      cases line with
      | none =>
        rw [runLines_end hnext, runLines_end hnext]
        have hend : Replays (S := Beside (M3uState Url Duration) LineReader)
            (playlistCarrier.beside LineReader) visit (s, reader) (.ok (s.withVisitor (), next))
            (.ok (s, next)) := .same rfl
        exact hend.agrees
      | some numbered =>
        obtain ⟨number, line⟩ := numbered
        rw [runLines_line hnext, runLines_line hnext]
        exact (stepLine_replays number line).then fun u =>
          ih next.size (hsize ▸ LineReader.nextLine_size hnext) u next rfl

/-- The playlist and the visits are those of a run without a visitor. -/
theorem parseM3uVisit_ok_iff {start : σ} {buffers : List (List UInt8)} {failure : Option String}
    {playlist : M3uPlaylist} :
    parseM3uVisit env limits visit start buffers failure = .ok (playlist, s) ↔
      ∃ t, parseM3uVisit env limits passEntry () buffers failure = .ok (playlist, t) ∧
        t.visits.foldlM visit start = .ok s.visitor ∧ s = t.withVisitor s.visitor := by
  have hagrees : Agrees (S := Beside (M3uState Url Duration) LineReader)
      (playlistCarrier.beside LineReader) visit [] start
      (runLines env limits passEntry { visitor := () } { buffers, failure })
      (runLines env limits visit { visitor := start } { buffers, failure }) :=
    runLines_agrees { visitor := start } { buffers, failure }
  have hfinish : ∀ (t : M3uState Url Duration Unit) (bytesRead : Nat),
      s = t.withVisitor s.visitor → finishPlaylist s bytesRead = finishPlaylist t bytesRead := by
    intro t bytesRead hs
    rw [hs]
    rfl
  unfold parseM3uVisit
  constructor
  · intro h
    obtain ⟨⟨u, reader⟩, hrun, h⟩ := of_bind h
    obtain ⟨hplaylist, rfl⟩ := Prod.mk.inj (of_pure h)
    obtain ⟨⟨t, reader'⟩, hrun', new, hnew, hfold, hu⟩ := (hagrees.ok_iff _).mp hrun
    obtain ⟨hs, hreader⟩ := Prod.mk.inj hu
    obtain rfl : t.visits = new := hnew
    refine ⟨t, ?_, hfold, hs⟩
    have hrun' : runLines env limits passEntry { visitor := () } { buffers, failure } =
        .ok (t, reader') := hrun'
    rw [hrun', ok_bind, ← hplaylist, hreader, hfinish t _ hs]
    rfl
  · rintro ⟨t, h, hfold, hs⟩
    obtain ⟨⟨t', reader⟩, hrun, h⟩ := of_bind h
    obtain ⟨hplaylist, rfl⟩ := Prod.mk.inj (of_pure h)
    have hrun' : runLines env limits visit { visitor := start } { buffers, failure } =
        .ok (s, reader) :=
      (hagrees.ok_iff (s, reader)).mpr ⟨(t', reader), hrun, t'.visits, rfl, hfold,
        Prod.ext hs rfl⟩
    rw [hrun', ok_bind, ← hplaylist, ← hfinish t' _ hs]
    rfl

end Playlist

/-! ## Guides -/

section Guide

variable {Url Digest σ τ : Type}

def XmltvState.withVisitor (s : XmltvState Url Digest σ) (visitor : τ) :
    XmltvState Url Digest τ where
  document := s.document
  channel := s.channel
  programme := s.programme
  capture := s.capture
  depth := s.depth
  declared := s.declared
  referenced := s.referenced
  fingerprints := s.fingerprints
  visitor := visitor
  visits := s.visits

def guideCarrier : Carrier (XmltvState Url Digest) (Visit Url) where
  visitor s := s.visitor
  calls s := s.visits
  withVisitor s v := s.withVisitor v
  visitor_with _ _ := rfl
  calls_with _ _ := rfl
  with_with _ _ _ := rfl
  with_visitor _ := rfl

/-- The visitors that do nothing. -/
def passRecord : Visitor Url Unit where
  channel _ _ := .ok ()
  programme _ _ := .ok ()

/-- The visitor that a record belongs to. -/
def Visitor.call (visitor : Visitor Url σ) (s : σ) : Visit Url → Except ParseError σ
  | .channel channel => visitor.channel s channel
  | .programme programme => visitor.programme s programme

variable {env : XmltvEnv Url Digest} {limits : ParseLimits} {defaultTimezone : String}
  {visitor : Visitor Url σ} {s : XmltvState Url Digest σ}

theorem call_replays {t : XmltvState Url Digest Unit} (record : Visit Url)
    (ht : t.visits = s.visits ++ [record]) :
    Replays guideCarrier visitor.call s (.ok t)
      (visitor.call s.visitor record >>= fun v => .ok (t.withVisitor v)) :=
  .once ht

theorem visitChannel_replays (channel : EpgChannel Url) :
    Replays guideCarrier visitor.call s (visitChannel passRecord (s.withVisitor ()) channel)
      (visitChannel visitor s channel) :=
  call_replays (.channel channel) rfl

theorem closeChannel_replays (builder : ChannelBuilder Url) (offset : Nat) :
    Replays guideCarrier visitor.call s
      (closeChannel env passRecord (s.withVisitor ()) builder offset)
      (closeChannel env visitor s builder offset) := by
  unfold closeChannel
  dsimp only [XmltvState.withVisitor]
  generalize finishChannel env builder s.document s.declared offset = finished
  obtain ⟨document, declared, channel⟩ := finished
  cases channel with
  | none => exact .same rfl
  | some channel =>
    exact (visitChannel_replays (s := { s with document, declared }) channel).start rfl rfl

theorem handleEmpty_replays (offset : Nat) (name : String) (attributes : Attributes) :
    Replays guideCarrier visitor.call s
      (.ok (handleEmpty env (s.withVisitor ()) offset name attributes))
      (.ok (handleEmpty env s offset name attributes)) := by
  obtain ⟨document, channel, programme, capture, depth, declared, referenced, fingerprints, current,
    visits⟩ := s
  unfold handleEmpty
  dsimp only [XmltvState.withVisitor]
  generalize parseIcon env attributes document offset = found
  obtain ⟨next, icon⟩ := found
  by_cases hicon : name = "icon"
  · simp only [if_pos hicon]
    cases icon <;> cases channel <;> cases programme <;> exact .same rfl
  · simp only [if_neg hicon]
    cases programme with
    | some builder =>
      dsimp only
      split_ifs <;> exact .same rfl
    | none => cases channel <;> exact .same rfl

theorem finishCapture_replays (capture : Capture) (offset : Nat) :
    Replays guideCarrier visitor.call s
      (.ok (finishCapture env (s.withVisitor ()) capture offset))
      (.ok (finishCapture env s capture offset)) := by
  obtain ⟨document, channel, programme, active, depth, declared, referenced, fingerprints, current,
    visits⟩ := s
  cases channel <;> cases programme <;> exact .same rfl

theorem startElement_replays (offset : Nat) (name : String)
    (attributes : List (Except String (String × String))) :
    Replays guideCarrier visitor.call s
      (startElement limits (s.withVisitor ()) offset name attributes)
      (startElement limits s offset name attributes) := by
  unfold startElement
  dsimp only [XmltvState.withVisitor]
  refine .bind _ fun _ => .bind _ fun attributes => ?_
  cases hcapture : s.capture with
  | some active => exact .same rfl
  | none =>
    dsimp only
    split_ifs
    · exact .same rfl
    · exact .bind _ fun _ => .same rfl
    · exact .bind _ fun _ => .same rfl
    · exact .same rfl
    · exact .same rfl

theorem captureText_replays (offset : Nat) (value : Except String String) :
    Replays guideCarrier visitor.call s (captureText limits (s.withVisitor ()) offset value)
      (captureText limits s offset value) := by
  obtain ⟨document, channel, programme, capture, depth, declared, referenced, fingerprints, current,
    visits⟩ := s
  cases capture with
  | none => exact .same rfl
  | some active => exact .bind _ fun _ => .bind _ fun _ => .same rfl

variable [DecidableEq Digest]

theorem visitUniqueProgramme_replays (programme : Programme Url) (offset : Nat) :
    Replays guideCarrier visitor.call s
      (visitUniqueProgramme env passRecord (s.withVisitor ()) programme offset)
      (visitUniqueProgramme env visitor s programme offset) := by
  unfold visitUniqueProgramme
  dsimp only
  by_cases hknown : env.fingerprint programme ∈ s.fingerprints
  · have hwith : env.fingerprint programme ∈ (s.withVisitor ()).fingerprints := hknown
    rw [if_pos hknown, if_pos hwith]
    exact .same rfl
  · have hwith : env.fingerprint programme ∉ (s.withVisitor ()).fingerprints := hknown
    rw [if_neg hknown, if_neg hwith]
    exact call_replays (.programme programme) rfl

theorem closeProgramme_replays (builder : ProgrammeBuilder Url) (offset : Nat) :
    Replays guideCarrier visitor.call s
      (closeProgramme env defaultTimezone passRecord (s.withVisitor ()) builder offset)
      (closeProgramme env defaultTimezone visitor s builder offset) := by
  unfold closeProgramme
  dsimp only [XmltvState.withVisitor]
  generalize finishProgramme env defaultTimezone builder s.document offset = finished
  obtain ⟨document, programme⟩ := finished
  cases programme with
  | none => exact .same rfl
  | some programme =>
    exact (visitUniqueProgramme_replays (s := { s with
      document, referenced := insertDistinct s.referenced programme.channelId }) programme
        offset).start rfl rfl

theorem emptyElement_replays (offset : Nat) (name : String)
    (attributes : List (Except String (String × String))) :
    Replays guideCarrier visitor.call s
      (emptyElement env limits defaultTimezone passRecord (s.withVisitor ()) offset name attributes)
      (emptyElement env limits defaultTimezone visitor s offset name attributes) := by
  unfold emptyElement
  refine .bind _ fun attributes => ?_
  cases hcapture : s.capture with
  | some active =>
    dsimp only [XmltvState.withVisitor]
    rw [hcapture]
    exact .same rfl
  | none =>
    have hwith : (s.withVisitor ()).capture = none := hcapture
    rw [hwith]
    dsimp only
    have hchannel : (s.withVisitor ()).channel = s.channel := rfl
    have hprogramme : (s.withVisitor ()).programme = s.programme := rfl
    rw [hchannel, hprogramme]
    split_ifs
    · exact .bind _ fun document =>
        (closeChannel_replays (s := { s with document, capture := none }) _ offset).start rfl rfl
    · exact .bind _ fun document =>
        (closeProgramme_replays (s := { s with document, capture := none }) _ offset).start rfl rfl
    · exact handleEmpty_replays offset name attributes

theorem closeRecord_replays (offset : Nat) (name : String) :
    Replays guideCarrier visitor.call s
      (closeRecord env defaultTimezone passRecord (s.withVisitor ()) offset name)
      (closeRecord env defaultTimezone visitor s offset name) := by
  obtain ⟨document, channel, programme, capture, depth, declared, referenced, fingerprints, current,
    visits⟩ := s
  unfold closeRecord
  dsimp only [XmltvState.withVisitor]
  split_ifs
  · cases channel with
    | none => exact .same rfl
    | some builder =>
      exact (closeChannel_replays (s := ⟨document, none, programme, capture, depth, declared,
        referenced, fingerprints, current, visits⟩) builder offset).start rfl rfl
  · cases programme with
    | none => exact .same rfl
    | some builder =>
      exact (closeProgramme_replays (s := ⟨document, channel, none, capture, depth, declared,
        referenced, fingerprints, current, visits⟩) builder offset).start rfl rfl
  · exact .same rfl

theorem endElement_replays (offset : Nat) (name : String) :
    Replays guideCarrier visitor.call s
      (endElement env defaultTimezone passRecord (s.withVisitor ()) offset name)
      (endElement env defaultTimezone visitor s offset name) := by
  unfold endElement
  cases hcapture : s.capture with
  | some active =>
    have hwith : (s.withVisitor ()).capture = some active := hcapture
    rw [hwith]
    have hinner : Replays guideCarrier visitor.call s
        (.ok (if active.close.depth = 0 then
            finishCapture env { s.withVisitor () with capture := none } active.close offset
          else { s.withVisitor () with capture := some active.close }))
        (.ok (if active.close.depth = 0 then
            finishCapture env { s with capture := none } active.close offset
          else { s with capture := some active.close })) := by
      split_ifs
      · exact (finishCapture_replays (s := { s with capture := none }) active.close offset).start
          rfl rfl
      · exact .same rfl
    exact hinner.map (g := fun t => { t with depth := t.depth - 1 })
      (f := fun u => { u with depth := u.depth - 1 }) (fun _ => rfl) fun _ _ => rfl
  | none =>
    have hwith : (s.withVisitor ()).capture = none := hcapture
    rw [hwith]
    exact (closeRecord_replays offset name).map (fun _ => rfl) fun _ _ => rfl

/-- One round of the loop; the cases are those of the events. -/
theorem stepEvent_replays (offset : Nat) (event : XmlEvent) :
    Replays guideCarrier visitor.call s
      (stepEvent env limits defaultTimezone passRecord (s.withVisitor ()) offset event)
      (stepEvent env limits defaultTimezone visitor s offset event) := by
  unfold stepEvent
  refine .bind _ fun _ => ?_
  cases event with
  | start name attributes => exact startElement_replays offset name attributes
  | empty name attributes => exact emptyElement_replays offset name attributes
  | text decoded => exact captureText_replays offset _
  | cdata decoded => exact captureText_replays offset _
  | finish name => exact endElement_replays offset name
  | docType length text => exact .bind _ fun _ => .bind _ fun _ => .same rfl
  | generalRef _ => exact .same rfl
  | comment _ => exact .same rfl
  | other => exact .same rfl

theorem runEvents_agrees (s : XmltvState Url Digest σ) (events : List (Nat × XmlEvent)) :
    Agrees guideCarrier visitor.call s.visits s.visitor
      (runEvents env limits defaultTimezone passRecord (s.withVisitor ()) events)
      (runEvents env limits defaultTimezone visitor s events) := by
  induction events generalizing s with
  | nil =>
    have hend : Replays guideCarrier visitor.call s (.ok (s.withVisitor ())) (.ok s) := .same rfl
    exact hend.agrees
  | cons event rest ih => exact (stepEvent_replays event.1 event.2).then fun u => ih u

/-- The document and the visits are those of a run without visitors. -/
theorem parseXmltvVisit_ok_iff {start : σ} {input : XmlInput} {document : XmltvDocument} :
    parseXmltvVisitWithOptions env limits defaultTimezone visitor start input =
        .ok (document, s) ↔
      ∃ t, parseXmltvVisitWithOptions env limits defaultTimezone passRecord () input =
          .ok (document, t) ∧
        t.visits.foldlM visitor.call start = .ok s.visitor ∧ s = t.withVisitor s.visitor := by
  have hagrees : Agrees guideCarrier visitor.call [] start
      (runEvents env limits defaultTimezone passRecord { visitor := () } input.events)
      (runEvents env limits defaultTimezone visitor { visitor := start } input.events) :=
    runEvents_agrees { visitor := start } input.events
  have hundeclared : ∀ t : XmltvState Url Digest Unit, s = t.withVisitor s.visitor →
      undeclaredChannels env s = undeclaredChannels env t ∧ s.document = t.document := by
    intro t hs
    rw [hs]
    exact ⟨rfl, rfl⟩
  unfold parseXmltvVisitWithOptions
  constructor
  · intro h
    obtain ⟨u, hrun, h⟩ := of_bind h
    cases herror : input.error with
    | some message =>
      rw [herror] at h
      cases h
    | none =>
      rw [herror] at h
      obtain ⟨⟨⟩, hlimit, h⟩ := of_bind h
      obtain ⟨hdocument, rfl⟩ := Prod.mk.inj (of_pure h)
      obtain ⟨t, hrun', new, hnew, hfold, hs⟩ := (hagrees.ok_iff _).mp hrun
      obtain rfl : t.visits = new := hnew
      obtain ⟨hnames, hsame⟩ := hundeclared t hs
      refine ⟨t, ?_, hfold, hs⟩
      have hrun' : runEvents env limits defaultTimezone passRecord { visitor := () }
          input.events = .ok t := hrun'
      rw [hrun', ok_bind, ← hdocument, hnames, hsame]
      dsimp only
      rw [hlimit]
      rfl
  · rintro ⟨t, h, hfold, hs⟩
    obtain ⟨t', hrun, h⟩ := of_bind h
    cases herror : input.error with
    | some message =>
      rw [herror] at h
      cases h
    | none =>
      rw [herror] at h
      obtain ⟨⟨⟩, hlimit, h⟩ := of_bind h
      obtain ⟨hdocument, rfl⟩ := Prod.mk.inj (of_pure h)
      obtain ⟨hnames, hsame⟩ := hundeclared t' hs
      have hrun' : runEvents env limits defaultTimezone visitor { visitor := start }
          input.events = .ok s :=
        (hagrees.ok_iff s).mpr ⟨t', hrun, t'.visits, rfl, hfold, hs⟩
      rw [hrun', ok_bind, ← hdocument, ← hnames, ← hsame]
      dsimp only
      rw [hlimit]
      rfl

end Guide

/-- What a visitor does changes nothing in what a parser says: a document is parsed with a visitor
exactly when it is parsed without one and the visitor accepts the records of that run in their
order, and then document, diagnostics and records are those of that run. -/
theorem visits_replayed {Url Duration Digest σ τ : Type} [DecidableEq Digest]
    (m3u : M3uEnv Url Duration) (xmltv : XmltvEnv Url Digest) (limits : ParseLimits)
    (defaultTimezone : String) (visit : σ → M3uEntry Url Duration → Except ParseError σ)
    (visitor : Visitor Url τ) (first : σ) (start : τ) (buffers : List (List UInt8))
    (failure : Option String) (input : XmlInput) :
    (∀ playlist s, parseM3uVisit m3u limits visit first buffers failure = .ok (playlist, s) ↔
      ∃ t, parseM3uVisit m3u limits passEntry () buffers failure = .ok (playlist, t) ∧
        t.visits.foldlM visit first = .ok s.visitor ∧ s = t.withVisitor s.visitor) ∧
    ∀ document s, parseXmltvVisitWithOptions xmltv limits defaultTimezone visitor start input =
        .ok (document, s) ↔
      ∃ t, parseXmltvVisitWithOptions xmltv limits defaultTimezone passRecord () input =
          .ok (document, t) ∧
        t.visits.foldlM visitor.call start = .ok s.visitor ∧ s = t.withVisitor s.visitor :=
  ⟨fun _ _ => parseM3uVisit_ok_iff, fun _ _ => parseXmltvVisit_ok_iff⟩

end IptvRelay.Parsers
