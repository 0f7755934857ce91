import Mathlib.Data.List.Chain
import IptvRelay.Lib.Words
import IptvRelay.Parsers.Truncation

/-!
# The text of guide elements

What XML says about the characters of an element, and what the parser keeps of them. The reader
delivers a reference as an event of its own and trims every text, and the loop puts a space
between the parts that it keeps.
-/

namespace IptvRelay.Parsers

open Checked

/-! ## The content of an element -/

inductive Piece where
  | text (value : String)
  | reference (name : String)
  | cdata (value : String)
  | comment (value : String)
  deriving DecidableEq, Repr

def hexDigit (c : Char) : Nat :=
  if c.isDigit then c.toNat - '0'.toNat else c.toLower.toNat - 'a'.toNat + 10

/-- What a reference stands for: a character, one of the five entities of XML, or an entity that
the document type declares. -/
def resolveReference (declared : String → String) (name : String) : List Char :=
  match name.toList with
  | '#' :: 'x' :: digits => [Char.ofNat (digits.foldl (fun value c => 16 * value + hexDigit c) 0)]
  | '#' :: digits => [Char.ofNat (Text.digitsValue digits)]
  | _ =>
    if name = "amp" then ['&']
    else if name = "lt" then ['<']
    else if name = "gt" then ['>']
    else if name = "apos" then [Char.ofNat 39]
    else if name = "quot" then [Char.ofNat 34]
    else (declared name).toList

namespace Piece

variable (declared : String → String)

/-- The characters that XML gives to a piece. -/
def chars : Piece → List Char
  | .text value | .cdata value => value.toList
  | .reference name => resolveReference declared name
  | .comment _ => []

def isText : Piece → Bool
  | .text _ => true
  | _ => false

def reference? : Piece → Option String
  | .reference name => some name
  | _ => none

end Piece

/-- Any sequence of pieces. A text has no markup and goes up to the next piece of another kind. -/
structure Content where
  pieces : List Piece
  plain : ∀ text, Piece.text text ∈ pieces → '&' ∉ text.toList ∧ '<' ∉ text.toList
  maximal : pieces.IsChain fun a b => ¬(a.isText ∧ b.isText)

def Content.chars (declared : String → String) (content : Content) : List Char :=
  (content.pieces.map (Piece.chars declared)).flatten

/-! ## What the reader delivers -/

/-- The whitespace of XML. -/
def isXmlSpace (c : Char) : Bool := c ∈ [' ', '\t', '\n', '\r']

/-- `trim_text` of the reader. -/
def trimXml (text : String) : String :=
  String.ofList ((text.toList.dropWhile isXmlSpace).reverse.dropWhile isXmlSpace).reverse

/-- A text with nothing but whitespace has no event. -/
def Piece.events : Piece → List XmlEvent
  | .text value => if trimXml value = "" then [] else [.text (.ok (trimXml value))]
  | .reference name => [.generalRef name]
  | .cdata value => [.cdata (.ok value)]
  | .comment value => [.comment value]

/-- The elements of channels and programmes whose text is kept. -/
inductive TextElement where
  | displayName
  | title
  | subTitle
  | desc
  | category
  | episodeNum
  | credit (role : String)
  deriving DecidableEq, Repr

namespace TextElement

def name : TextElement → String
  | displayName => "display-name"
  | title => "title"
  | subTitle => "sub-title"
  | desc => "desc"
  | category => "category"
  | episodeNum => "episode-num"
  | credit role => role

def events (element : TextElement) (attributes : List (Except String (String × String)))
    (content : Content) : List XmlEvent :=
  .start element.name attributes :: content.pieces.flatMap Piece.events ++ [.finish element.name]

variable {Url Digest σ : Type}

/-- The parser is where the element can stand. -/
def Open (s : XmltvState Url Digest σ) : TextElement → Prop
  | displayName => s.capture = none ∧ s.channel.isSome
  | credit _ => s.channel = none ∧ s.programme.isSome ∧ ∃ active, s.capture = some active ∧
      active.name = "credits" ∧ active.depth = 1 ∧ active.child = none
  | _ => s.capture = none ∧ s.channel = none ∧ s.programme.isSome

def programmeValues (s : XmltvState Url Digest σ) (values : ProgrammeBuilder Url → List String) :
    List String := s.programme.elim [] values

/-- The values of the record so far. Names of credits wait for the end of `credits`. -/
def values (s : XmltvState Url Digest σ) : TextElement → List String
  | displayName => s.channel.elim [] fun channel => channel.displayNames.map LocalizedText.value
  | title => programmeValues s fun programme => programme.titles.map LocalizedText.value
  | subTitle => programmeValues s fun programme => programme.subTitles.map LocalizedText.value
  | desc => programmeValues s fun programme => programme.descriptions.map LocalizedText.value
  | category => programmeValues s fun programme => programme.categories.map LocalizedText.value
  | episodeNum => programmeValues s fun programme =>
      programme.episodeNumbers.map EpisodeNumber.value
  | credit _ => programmeValues s fun programme => (programme.credits ++
      s.capture.elim [] fun capture => capture.children.filterMap creditOf).map Credit.name

/-- A credit without a name is left out. -/
def kept (value : String) : TextElement → List String
  | credit _ => if value = "" then [] else [value]
  | _ => [value]

end TextElement

/-! ## The parts that the parser keeps -/

namespace Piece

/-- What the loop appends. -/
def captured : Piece → String
  | .text value => trimXml value
  | .cdata value => value
  | .reference _ | .comment _ => ""

end Piece

def joinPart (target value : String) : String :=
  if target ≠ "" ∧ value ≠ "" then target ++ " " ++ value else target ++ value

namespace Capture

def target (capture : Capture) : String :=
  (capture.child.map ExtensionElement.text).getD capture.text

def withTarget (capture : Capture) (text : String) : Capture :=
  match capture.child with
  | some child => { capture with child := some { child with text } }
  | none => { capture with text }

theorem target_withTarget (capture : Capture) (text : String) :
    (capture.withTarget text).target = text := by
  unfold withTarget target
  cases hchild : capture.child with
  | none => simp
  | some child => simp

theorem withTarget_withTarget (capture : Capture) (first second : String) :
    (capture.withTarget first).withTarget second = capture.withTarget second := by
  unfold withTarget
  cases hchild : capture.child with
  | none => simp
  | some child => simp

theorem withTarget_target (capture : Capture) : capture.withTarget capture.target = capture := by
  obtain ⟨name, attributes, text, depth, child, children⟩ := capture
  cases child <;> rfl

end Capture

theorem joinPart_empty (target : String) : joinPart target "" = target := by simp [joinPart]

theorem appendCaptureText_ok {limits : ParseLimits} {capture after : Capture} {value : String}
    (h : appendCaptureText limits capture value = .ok after) :
    after = capture.withTarget (joinPart capture.target value) := by
  unfold appendCaptureText at h
  obtain ⟨_, -, h⟩ := of_bind h
  exact (of_pure h).symm

/-! ## A run over the content -/

section Run

variable {Url Digest σ : Type} {env : XmltvEnv Url Digest} {limits : ParseLimits}
  {defaultTimezone : String} {visitor : Visitor Url σ} {s t : XmltvState Url Digest σ}

theorem captureText_ok {active : Capture} {offset : Nat} {value : String}
    (hcapture : s.capture = some active) (h : captureText limits s offset (.ok value) = .ok t) :
    t = { s with capture := some (active.withTarget (joinPart active.target value)) } := by
  unfold captureText at h
  rw [hcapture] at h
  obtain ⟨_, hvalue, h⟩ := of_bind h
  obtain rfl := Except.ok.inj hvalue
  obtain ⟨after, hafter, h⟩ := of_bind h
  rw [← of_pure h, appendCaptureText_ok hafter]

/-- The state behind the start of an element that is kept. -/
def TextElement.begun (element : TextElement) (attributes : Attributes)
    (s : XmltvState Url Digest σ) : XmltvState Url Digest σ :=
  { s with
    depth := s.depth + 1
    capture := some (match s.capture with
      | some active => { active with
          child := some { name := element.name, attributes, text := "" }
          depth := active.depth + 1 }
      | none => { name := element.name, attributes }) }

theorem TextElement.record_open {element : TextElement} (h : element.Open s)
    (hcapture : s.capture = none) : s.channel.isSome ∨ s.programme.isSome := by
  cases element with
  | displayName => exact .inl h.2
  | credit role =>
    obtain ⟨-, -, active, hactive, -⟩ := h
    rw [hactive] at hcapture
    cases hcapture
  | _ => exact .inr h.2.2

theorem TextElement.active_depth {element : TextElement} {active : Capture} (h : element.Open s)
    (hcapture : s.capture = some active) : active.depth = 1 := by
  cases element with
  | credit role =>
    obtain ⟨-, -, active', hactive, -, hdepth, -⟩ := h
    rw [hactive] at hcapture
    obtain rfl := Option.some.inj hcapture
    exact hdepth
  | _ =>
    rw [h.1] at hcapture
    cases hcapture

theorem TextElement.name_ne_tv {element : TextElement} (h : element.Open s)
    (hcapture : s.capture = none) : element.name ≠ "tv" := by
  cases element with
  | credit role =>
    obtain ⟨-, -, active, hactive, -⟩ := h
    rw [hactive] at hcapture
    cases hcapture
  | _ => simp [TextElement.name]

variable [DecidableEq Digest]

/-- One piece adds its part to the text. -/
theorem piece_step {active : Capture} {piece : Piece} {offset : Nat} {event : XmlEvent}
    (hunescape : ∀ text, '&' ∉ text.toList → env.unescape text = .ok text)
    (hplain : ∀ text, piece = .text text → '&' ∉ text.toList)
    (hcapture : s.capture = some active) (hevent : event ∈ piece.events)
    (h : stepEvent env limits defaultTimezone visitor s offset event = .ok t) :
    t = { s with capture := some (active.withTarget (joinPart active.target piece.captured)) } := by
  unfold stepEvent at h
  obtain ⟨_, -, h⟩ := of_bind h
  have hsame : s = { s with capture := some (active.withTarget (joinPart active.target "")) } := by
    rw [joinPart_empty, active.withTarget_target, ← hcapture]
  cases piece with
  | text value =>
    have hevent : event = .text (.ok (trimXml value)) := by
      simp only [Piece.events] at hevent
      split_ifs at hevent with hempty
      · cases hevent
      · exact List.mem_singleton.mp hevent
    subst hevent
    have htrim : '&' ∉ (trimXml value).toList := by
      intro hmem
      refine hplain value rfl ?_
      rw [trimXml, String.toList_ofList, List.mem_reverse] at hmem
      have hmem := List.mem_reverse.mp ((List.dropWhile_sublist _).mem hmem)
      exact (List.dropWhile_sublist _).mem hmem
    have hvalue : (Except.ok (trimXml value) : Except String String).bind env.unescape =
        .ok (trimXml value) := hunescape _ htrim
    simp only [hvalue] at h
    exact captureText_ok hcapture h
  | cdata value =>
    obtain rfl := List.mem_singleton.mp hevent
    exact captureText_ok hcapture h
  | reference name =>
    obtain rfl := List.mem_singleton.mp hevent
    rw [← of_pure h]
    exact hsame
  | comment value =>
    obtain rfl := List.mem_singleton.mp hevent
    rw [← of_pure h]
    exact hsame

/-- The parts of all pieces, one behind the other. -/
def joinParts (target : String) (pieces : List Piece) : String :=
  pieces.foldl (fun text piece => joinPart text piece.captured) target

/-- A whole content leaves the state as it is, but for the text. -/
theorem content_run {active : Capture} {pieces : List Piece} {events : List (Nat × XmlEvent)}
    (hunescape : ∀ text, '&' ∉ text.toList → env.unescape text = .ok text)
    (hplain : ∀ text, Piece.text text ∈ pieces → '&' ∉ text.toList)
    (hcapture : s.capture = some active) (hevents : events.map Prod.snd = pieces.flatMap Piece.events)
    (h : runEvents env limits defaultTimezone visitor s events = .ok t) :
    t = { s with capture := some (active.withTarget (joinParts active.target pieces)) } := by
  induction pieces generalizing s active events with
  | nil =>
    obtain rfl := List.map_eq_nil_iff.mp hevents
    obtain rfl := Except.ok.inj h
    rw [joinParts, List.foldl_nil, active.withTarget_target, ← hcapture]
  | cons piece rest ih =>
    have hrest : ∀ text, Piece.text text ∈ rest → '&' ∉ text.toList :=
      fun text hmem => hplain text (List.mem_cons_of_mem _ hmem)
    have hpiece : ∀ text, piece = .text text → '&' ∉ text.toList := by
      rintro text rfl
      exact hplain text List.mem_cons_self
    rw [List.flatMap_cons] at hevents
    by_cases hnone : piece.events = []
    · have hempty : piece.captured = "" := by
        cases piece with
        | text value =>
          by_contra hvalue
          simp only [Piece.captured] at hvalue
          simp [Piece.events, hvalue] at hnone
        | cdata value => cases hnone
        | reference name => rfl
        | comment value => rfl
      rw [hnone, List.nil_append] at hevents
      rw [ih hrest hcapture hevents h, joinParts, joinParts, List.foldl_cons, hempty, joinPart_empty]
    · have hsingle : ∃ event, piece.events = [event] := by
        cases piece with
        | text value =>
          simp only [Piece.events] at hnone ⊢
          split_ifs at hnone ⊢ with hvalue
          · exact absurd rfl hnone
          · exact ⟨_, rfl⟩
        | _ => exact ⟨_, rfl⟩
      obtain ⟨event, hevent⟩ := hsingle
      rw [hevent] at hevents
      obtain ⟨⟨offset, _⟩, later, rfl, rfl, hlater⟩ := List.map_eq_cons_iff.mp hevents
      obtain ⟨next, hnext, h⟩ := of_bind h
      obtain rfl := piece_step hunescape hpiece hcapture (hevent ▸ List.mem_singleton_self _) hnext
      rw [ih hrest rfl hlater h, Capture.target_withTarget, Capture.withTarget_withTarget]
      rfl

/-! ## A run over an element -/

theorem start_step {element : TextElement} {offset : Nat}
    {attributes : List (Except String (String × String))} (hopen : element.Open s)
    (h : stepEvent env limits defaultTimezone visitor s offset (.start element.name attributes) =
      .ok t) : ∃ found, t = element.begun found s := by
  unfold stepEvent at h
  obtain ⟨_, -, h⟩ := of_bind h
  unfold startElement at h
  obtain ⟨_, -, h⟩ := of_bind h
  obtain ⟨found, -, h⟩ := of_bind h
  refine ⟨found, ?_⟩
  cases hcapture : s.capture with
  | some active =>
    simp only [hcapture] at h
    rw [← of_pure h, TextElement.begun, hcapture]
    simp [TextElement.active_depth hopen hcapture]
  | none =>
    simp only [hcapture] at h
    have hrecord := TextElement.record_open hopen hcapture
    have hnone : ¬(s.channel.isNone = true ∧ s.programme.isNone = true) := by
      rintro ⟨hchannel, hprogramme⟩
      rcases hrecord with hsome | hsome
      · simp [Option.isNone_iff_eq_none.mp hchannel] at hsome
      · simp [Option.isNone_iff_eq_none.mp hprogramme] at hsome
    rw [if_neg (fun hname => TextElement.name_ne_tv hopen hcapture hname.1),
      if_neg (fun hname => hnone hname.2), if_neg (fun hname => hnone hname.2),
      if_pos hrecord] at h
    rw [← of_pure h, TextElement.begun, hcapture]

/-- The value that a finished element has. -/
theorem finish_step {element : TextElement} {offset : Nat} {found : Attributes} {text : String}
    {active : Capture} (hopen : element.Open s)
    (hactive : (element.begun found s).capture = some active)
    (h : stepEvent env limits defaultTimezone visitor
      { element.begun found s with capture := some (active.withTarget text) } offset
      (.finish element.name) = .ok t) :
    element.values t = element.values s ++ element.kept (trimmed text) := by
  obtain rfl := Option.some.inj hactive
  unfold stepEvent at h
  obtain ⟨_, -, h⟩ := of_bind h
  cases element with
  | displayName =>
    obtain ⟨hcapture, hchannel⟩ := hopen
    obtain ⟨channel, hchannel⟩ := Option.isSome_iff_exists.mp hchannel
    simp [endElement, TextElement.begun, TextElement.name, hcapture, hchannel, Capture.withTarget,
      Capture.close, finishCapture, finishChannelCapture] at h
    simp [← h, TextElement.values, TextElement.kept, hchannel]
  | credit role =>
    obtain ⟨-, hprogramme, active, hcapture, -, hdepth, -⟩ := hopen
    obtain ⟨programme, hprogramme⟩ := Option.isSome_iff_exists.mp hprogramme
    have h : { s with
        capture := some { active with
          child := none
          depth := 1
          children := active.children ++ [{ name := role, attributes := found, text }] } } = t := by
      simpa [endElement, TextElement.begun, TextElement.name, hcapture, hdepth, Capture.withTarget,
        Capture.close] using h
    simp only [← h, TextElement.values, TextElement.programmeValues, TextElement.kept, hprogramme,
      hcapture, Option.elim_some, List.filterMap_append, List.map_append, List.append_assoc]
    have hcredit : ([{ name := role, attributes := found, text }].filterMap creditOf).map
        Credit.name = if trimmed text = "" then [] else [trimmed text] := by
      by_cases hname : trimmed text = ""
      · simp [creditOf, hname]
      · simp [creditOf, hname]
    rw [hcredit]
  | _ =>
    obtain ⟨hcapture, hchannel, hprogramme⟩ := hopen
    obtain ⟨programme, hprogramme⟩ := Option.isSome_iff_exists.mp hprogramme
    simp [endElement, TextElement.begun, TextElement.name, hcapture, hchannel, hprogramme,
      Capture.withTarget, Capture.close, finishCapture, finishProgrammeCapture] at h
    simp [← h, TextElement.values, TextElement.programmeValues, TextElement.kept, hprogramme]

/-- What an element adds to the values of its record. -/
theorem element_run {element : TextElement} {content : Content} {events : List (Nat × XmlEvent)}
    {attributes : List (Except String (String × String))}
    (hunescape : ∀ text, '&' ∉ text.toList → env.unescape text = .ok text)
    (hopen : element.Open s) (hevents : events.map Prod.snd = element.events attributes content)
    (h : runEvents env limits defaultTimezone visitor s events = .ok t) :
    element.values t =
      element.values s ++ element.kept (trimmed (joinParts "" content.pieces)) := by
  obtain ⟨⟨offset, _⟩, rest, rfl, rfl, hrest⟩ := List.map_eq_cons_iff.mp hevents
  obtain ⟨inner, last, rfl, hinner, hlast⟩ := List.map_eq_append_iff.mp hrest
  obtain ⟨⟨closing, _⟩, rfl, rfl⟩ := List.map_eq_singleton_iff.mp hlast
  obtain ⟨begun, hbegun, h⟩ := of_bind h
  obtain ⟨found, rfl⟩ := start_step hopen hbegun
  rw [runEvents_append] at h
  obtain ⟨filled, hfilled, h⟩ := of_bind h
  obtain ⟨active, hactive⟩ : ∃ active, (element.begun found s).capture = some active := ⟨_, rfl⟩
  have htarget : active.target = "" := by
    rw [← Option.some.inj hactive]
    cases s.capture <;> rfl
  obtain rfl := content_run hunescape (fun text hmem => (content.plain text hmem).1) hactive hinner
    hfilled
  obtain ⟨after, hafter, h⟩ := of_bind h
  obtain rfl := Except.ok.inj h
  rw [htarget] at hafter
  exact finish_step hopen hactive hafter

end Run

/-! ## Words of the parts -/

theorem trimmed_words (text : String) :
    Text.splitWhitespace (trimmed text).toList = Text.splitWhitespace text.toList := by
  rw [trimmed, String.toList_ofList, Text.splitWhitespace_trim]

theorem trimXml_words (text : String) :
    Text.splitWhitespace (trimXml text).toList = Text.splitWhitespace text.toList := by
  obtain ⟨before, after, htext, hbefore, hafter⟩ := Text.exists_trimmed isXmlSpace text.toList
  have hspace : ∀ c, isXmlSpace c = true → Text.isWhitespace c = true := by
    intro c hc
    have hc : c ∈ [' ', '\t', '\n', '\r'] := of_decide_eq_true hc
    simp only [List.mem_cons, List.not_mem_nil, or_false] at hc
    rcases hc with rfl | rfl | rfl | rfl <;> decide
  have haround : Text.splitWhitespace (before ++ (trimXml text).toList ++ after) =
      Text.splitWhitespace (trimXml text).toList :=
    Text.splitWhitespace_around (List.all_eq_true.mpr fun c hc => hspace c (hbefore c hc))
      (List.all_eq_true.mpr fun c hc => hspace c (hafter c hc))
  rw [← haround, trimXml, String.toList_ofList]
  exact congrArg Text.splitWhitespace htext.symm

theorem joinPart_words (target value : String) :
    Text.splitWhitespace (joinPart target value).toList =
      Text.splitWhitespace target.toList ++ Text.splitWhitespace value.toList := by
  unfold joinPart
  have hspace : Text.isWhitespace ' ' = true := by decide
  split_ifs with hboth
  · rw [String.toList_append, String.toList_append, List.append_assoc,
      Text.splitWhitespace_append (by simp [Text.startsWord, hspace])]
    simp [Text.splitWhitespace, Text.wordsFrom, hspace]
  · by_cases htarget : target = ""
    · simp [htarget, Text.splitWhitespace, Text.wordsFrom]
    · have hvalue : value = "" := by
        by_contra hvalue
        exact hboth ⟨htarget, hvalue⟩
      simp [hvalue, Text.splitWhitespace, Text.wordsFrom]

theorem joinParts_words (target : String) (pieces : List Piece) :
    Text.splitWhitespace (joinParts target pieces).toList =
      Text.splitWhitespace target.toList ++
        pieces.flatMap fun piece => Text.splitWhitespace piece.captured.toList := by
  induction pieces generalizing target with
  | nil => simp [joinParts]
  | cons piece rest ih =>
    rw [joinParts, List.foldl_cons, ← joinParts, ih, joinPart_words, List.flatMap_cons,
      List.append_assoc]

/-! ## Fidelity -/

section Fidelity

variable {declared : String → String}

/-- References stand for whitespace only, and no word goes from one piece into another. -/
def Content.Faithful (declared : String → String) (content : Content) : Prop :=
  (∀ name, Piece.reference name ∈ content.pieces →
    Text.isBlank (resolveReference declared name) = true) ∧
  Text.Separate (content.pieces.map (Piece.chars declared))

/-- Characters of an element that are not whitespace are kept, or those of a reference. -/
theorem visible_length (declared : String → String) (pieces : List Piece) :
    ((pieces.map (Piece.chars declared)).flatten.filter fun c => !Text.isWhitespace c).length =
      (pieces.flatMap fun piece => Text.splitWhitespace piece.captured.toList).flatten.length +
      ((pieces.filterMap Piece.reference?).flatMap fun name =>
        (resolveReference declared name).filter fun c => !Text.isWhitespace c).length := by
  induction pieces with
  | nil => rfl
  | cons piece rest ih =>
    have hpiece : ((piece.chars declared).filter fun c => !Text.isWhitespace c).length =
        (Text.splitWhitespace piece.captured.toList).flatten.length +
        (piece.reference?.toList.flatMap fun name =>
          (resolveReference declared name).filter fun c => !Text.isWhitespace c).length := by
      cases piece with
      | text value =>
        simp [Piece.captured, trimXml_words, Text.flatten_splitWhitespace, Piece.chars,
          Piece.reference?]
      | cdata value =>
        simp [Piece.captured, Text.flatten_splitWhitespace, Piece.chars, Piece.reference?]
      | reference name =>
        simp [Piece.captured, Piece.chars, Piece.reference?, Text.splitWhitespace, Text.wordsFrom]
      | comment value =>
        simp [Piece.captured, Piece.chars, Piece.reference?, Text.splitWhitespace, Text.wordsFrom]
    have hfilter : (piece :: rest).filterMap Piece.reference? =
        piece.reference?.toList ++ rest.filterMap Piece.reference? := by
      cases hreference : piece.reference? <;> simp [hreference]
    rw [List.map_cons, List.flatten_cons, List.filter_append, List.length_append, hpiece, ih,
      List.flatMap_cons, List.flatten_append, List.length_append, hfilter, List.flatMap_append,
      List.length_append]
    omega

/-- A piece keeps its words, if it is not a reference to something visible. -/
theorem captured_words {piece : Piece}
    (h : ∀ name, piece = .reference name → Text.isBlank (resolveReference declared name) = true) :
    Text.splitWhitespace piece.captured.toList = Text.splitWhitespace (piece.chars declared) := by
  cases piece with
  | text value => exact trimXml_words value
  | cdata value => rfl
  | reference name => exact (Text.splitWhitespace_eq_nil_iff.mpr (h name rfl)).symm
  | comment value => rfl

theorem joinParts_faithful_iff (content : Content) :
    Text.splitWhitespace (joinParts "" content.pieces).toList =
      Text.splitWhitespace (content.chars declared) ↔ content.Faithful declared := by
  have hwords := joinParts_words "" content.pieces
  have hblank : (∀ name, Piece.reference name ∈ content.pieces →
      Text.isBlank (resolveReference declared name) = true) →
      (Text.splitWhitespace (joinParts "" content.pieces).toList =
        (content.pieces.map (Piece.chars declared)).flatMap Text.splitWhitespace) := by
    intro hrefs
    rw [hwords, List.flatMap_map]
    refine (List.nil_append _).trans (List.flatMap_congr fun piece hpiece => captured_words ?_)
    rintro name rfl
    exact hrefs name hpiece
  constructor
  · intro heq
    have hrefs : ∀ name, Piece.reference name ∈ content.pieces →
        Text.isBlank (resolveReference declared name) = true := by
      intro name hname
      have hlength := visible_length declared content.pieces
      have hflat := congrArg (fun words => (List.flatten words).length) heq
      have hnil : Text.splitWhitespace "".toList = [] := rfl
      simp only [hwords, hnil, List.nil_append, Text.flatten_splitWhitespace,
        Content.chars] at hflat
      have hnone : ((content.pieces.filterMap Piece.reference?).flatMap fun name =>
          (resolveReference declared name).filter fun c => !Text.isWhitespace c) = [] :=
        List.eq_nil_of_length_eq_zero (by omega)
      have hfilter := List.flatMap_eq_nil_iff.mp hnone name
        (List.mem_filterMap.mpr ⟨_, hname, rfl⟩)
      simpa [Text.isBlank, List.filter_eq_nil_iff] using hfilter
    exact ⟨hrefs, (Text.splitWhitespace_flatten_iff _).mp (heq.symm.trans (hblank hrefs))⟩
  · rintro ⟨hrefs, hseparate⟩
    rw [hblank hrefs, Content.chars, (Text.splitWhitespace_flatten_iff _).mpr hseparate]

/-! ## Escaped texts -/

/-- The name of the entity for a character of the markup. -/
def specialReference (c : Char) : Option String :=
  if c = '&' then some "amp"
  else if c = '<' then some "lt"
  else if c = '>' then some "gt"
  else if c = Char.ofNat 39 then some "apos"
  else if c = Char.ofNat 34 then some "quot"
  else none

/-- A character in front of a content. -/
def prependChar (c : Char) : List Piece → List Piece
  | .text value :: rest => .text (String.ofList (c :: value.toList)) :: rest
  | pieces => .text (String.ofList [c]) :: pieces

def escapePieces : List Char → List Piece
  | [] => []
  | c :: rest => match specialReference c with
    | some name => .reference name :: escapePieces rest
    | none => prependChar c (escapePieces rest)

theorem resolve_specialReference {c : Char} {name : String} (h : specialReference c = some name) :
    resolveReference declared name = [c] := by
  unfold specialReference at h
  split_ifs at h with hamp hlt hgt hapos hquot
  all_goals
    obtain rfl := Option.some.inj h
    subst c
    rfl

theorem chars_prependChar (c : Char) (pieces : List Piece) :
    ((prependChar c pieces).map (Piece.chars declared)).flatten =
      c :: (pieces.map (Piece.chars declared)).flatten := by
  unfold prependChar
  split
  · simp [Piece.chars]
  · simp [Piece.chars]

theorem chars_escapePieces (text : List Char) :
    ((escapePieces text).map (Piece.chars declared)).flatten = text := by
  induction text with
  | nil => rfl
  | cons c rest ih =>
    unfold escapePieces
    cases hspecial : specialReference c with
    | some name => simp [Piece.chars, resolve_specialReference hspecial, ih]
    | none => simp only [chars_prependChar, ih]

theorem plain_escapePieces (text : List Char) :
    ∀ value, Piece.text value ∈ escapePieces text →
      ∀ c ∈ value.toList, specialReference c = none := by
  induction text with
  | nil => simp [escapePieces]
  | cons c rest ih =>
    intro value hvalue
    unfold escapePieces at hvalue
    cases hspecial : specialReference c with
    | some name =>
      simp only [hspecial, List.mem_cons, reduceCtorEq, false_or] at hvalue
      exact ih value hvalue
    | none =>
      simp only [hspecial] at hvalue
      unfold prependChar at hvalue
      split at hvalue
      · rename_i first later hrest
        rcases List.mem_cons.mp hvalue with hvalue | hvalue
        · obtain rfl := Piece.text.inj hvalue
          have hfirst := ih first (by simp [hrest])
          simpa [hspecial] using hfirst
        · exact ih value (by simp [hrest, hvalue])
      · rcases List.mem_cons.mp hvalue with hvalue | hvalue
        · obtain rfl := Piece.text.inj hvalue
          simpa using hspecial
        · exact ih value hvalue

theorem maximal_escapePieces (text : List Char) :
    (escapePieces text).IsChain fun a b => ¬(a.isText ∧ b.isText) := by
  induction text with
  | nil => exact .nil
  | cons c rest ih =>
    unfold escapePieces
    cases hspecial : specialReference c with
    | some name =>
      refine List.isChain_cons.mpr ⟨fun next hnext => ?_, ih⟩
      simp [Piece.isText]
    | none =>
      simp only
      unfold prependChar
      split
      · rename_i value later hrest
        rw [hrest] at ih
        obtain ⟨hhead, htail⟩ := List.isChain_cons.mp ih
        exact List.isChain_cons.mpr ⟨hhead, htail⟩
      · rename_i hhead
        refine List.isChain_cons.mpr ⟨fun next hnext hboth => ?_, ih⟩
        cases next with
        | text value =>
          obtain ⟨tail, htail⟩ := List.head?_eq_some_iff.mp (Option.mem_def.mp hnext)
          exact hhead value tail htail
        | _ => simp [Piece.isText] at hboth

/-- `escape` of a text, as content of an element. -/
def escape (text : String) : Content where
  pieces := escapePieces text.toList
  plain value hvalue := by
    have hplain := plain_escapePieces text.toList value hvalue
    refine ⟨fun hmem => ?_, fun hmem => ?_⟩
    · exact absurd (hplain _ hmem) (by decide)
    · exact absurd (hplain _ hmem) (by decide)
  maximal := maximal_escapePieces text.toList

theorem chars_escape (declared : String → String) (text : String) : (escape text).chars declared = text.toList :=
  chars_escapePieces text.toList

theorem reference_of_special {text : List Char} {c : Char} (hmem : c ∈ text) {name : String}
    (h : specialReference c = some name) : Piece.reference name ∈ escapePieces text := by
  induction text with
  | nil => cases hmem
  | cons d rest ih =>
    have hprepend : ∀ pieces, Piece.reference name ∈ pieces →
        Piece.reference name ∈ prependChar d pieces := by
      intro pieces hpieces
      unfold prependChar
      split
      · simpa using hpieces
      · exact List.mem_cons_of_mem _ hpieces
    unfold escapePieces
    rcases List.mem_cons.mp hmem with rfl | hmem
    · simp [h]
    · cases hspecial : specialReference d with
      | some other => exact List.mem_cons_of_mem _ (ih hmem)
      | none => exact hprepend _ (ih hmem)

/-- Without special characters there is one text or none. -/
theorem escapePieces_of_plain {text : List Char} (h : ∀ c ∈ text, specialReference c = none) :
    ∃ value, escapePieces text = if text = [] then [] else [.text value] := by
  induction text with
  | nil => exact ⟨"", rfl⟩
  | cons c rest ih =>
    obtain ⟨hc, hrest⟩ := List.forall_mem_cons.mp h
    obtain ⟨value, hvalue⟩ := ih hrest
    unfold escapePieces
    simp only [hc, hvalue, if_neg (List.cons_ne_nil c rest)]
    split_ifs with hnil
    · exact ⟨_, rfl⟩
    · exact ⟨_, rfl⟩

theorem specialReference_visible {c : Char} {name : String} (h : specialReference c = some name) :
    Text.isWhitespace c = false := by
  unfold specialReference at h
  split_ifs at h with hamp hlt hgt hapos hquot
  all_goals
    subst c
    decide

theorem escape_faithful_iff (declared : String → String) (text : String) :
    (escape text).Faithful declared ↔ ∀ c ∈ text.toList, specialReference c = none := by
  constructor
  · rintro ⟨hrefs, -⟩ c hc
    cases hspecial : specialReference c with
    | none => rfl
    | some name =>
      have hblank := hrefs name (reference_of_special hc hspecial)
      rw [resolve_specialReference hspecial] at hblank
      simp [Text.isBlank, specialReference_visible hspecial] at hblank
  · intro hplain
    obtain ⟨value, hvalue⟩ := escapePieces_of_plain hplain
    unfold Content.Faithful
    simp only [escape, hvalue]
    split_ifs with hnil
    · exact ⟨by simp, trivial⟩
    · exact ⟨by simp, by simp [Text.startsWord], trivial⟩

end Fidelity

/-! ## Text elements -/

section Elements

variable {Url Digest σ : Type} [DecidableEq Digest]

/-- The value that the parser keeps of an element has the characters of its content, up to
whitespace, exactly if the references of the content stand for whitespace only and no word goes
from one piece of it into another. Of escaped texts only those without special characters come
back. -/
theorem text_fidelity_iff (env : XmltvEnv Url Digest) (limits : ParseLimits)
    (defaultTimezone : String) (visitor : Visitor Url σ)
    (hunescape : ∀ text, '&' ∉ text.toList → env.unescape text = .ok text)
    (declared : String → String) (element : TextElement) (content : Content)
    (attributes : List (Except String (String × String))) (events : List (Nat × XmlEvent))
    (hevents : events.map Prod.snd = element.events attributes content)
    (s t : XmltvState Url Digest σ) (hopen : element.Open s)
    (hrun : runEvents env limits defaultTimezone visitor s events = .ok t) :
    ∃ value, element.values t = element.values s ++ element.kept value ∧
      (Text.collapseWhitespace value.toList = Text.collapseWhitespace (content.chars declared) ↔
        content.Faithful declared) ∧
      ∀ text, content = escape text →
        (Text.collapseWhitespace value.toList = Text.collapseWhitespace text.toList ↔
          ∀ c ∈ text.toList, specialReference c = none) := by
  have hfaithful : ∀ other : Content, content = other →
      (Text.collapseWhitespace (trimmed (joinParts "" content.pieces)).toList =
        Text.collapseWhitespace (other.chars declared) ↔ other.Faithful declared) := by
    rintro other rfl
    rw [Text.collapseWhitespace_eq_iff, trimmed_words, joinParts_faithful_iff]
  refine ⟨_, element_run hunescape hopen hevents hrun, hfaithful content rfl, fun text htext => ?_⟩
  rw [← escape_faithful_iff declared, ← hfaithful _ htext, chars_escape]

end Elements

/-- Text, a CDATA section and a comment. -/
def mixedTitle : Content where
  pieces := [.text " Late ", .cdata "Night <News>", .comment "repeat"]
  plain value hvalue := by
    have hvalue : value = " Late " := by simpa using hvalue
    subst hvalue
    decide +kernel
  maximal := by decide

/-- A programme is open. -/
def openProgramme : XmltvState String (Programme String) Nat :=
  { visitor := 0, programme := some { channelId := none, start := none, stop := none } }

def countVisits : Visitor String Nat :=
  { channel := fun n _ => .ok (n + 1), programme := fun n _ => .ok (n + 1) }

theorem mixedTitle_kept :
    ∃ t value, runEvents webXmltv smallLimits "UTC" countVisits openProgramme
        ((TextElement.title.events [] mixedTitle).map fun event => (100, event)) = .ok t ∧
      TextElement.title.values t = [value] ∧
      Text.collapseWhitespace value.toList = "Late Night <News>".toList := by
  have heval : (runEvents webXmltv smallLimits "UTC" countVisits openProgramme
      ((TextElement.title.events [] mixedTitle).map fun event => (100, event))).toOption.isSome =
      true := by
    decide +kernel
  obtain ⟨t, ht⟩ := Option.isSome_iff_exists.mp heval
  have ht := of_toOption ht
  have hfaithful : mixedTitle.Faithful fun name => name := by
    refine ⟨by simp [mixedTitle], ?_⟩
    simp only [mixedTitle, List.map, Text.Separate, Piece.chars]
    decide +kernel
  obtain ⟨value, hvalue, hiff, -⟩ := text_fidelity_iff webXmltv smallLimits "UTC" countVisits
    (fun _ _ => rfl) (fun name => name) .title mixedTitle [] _
    (by rw [List.map_map]; exact List.map_id _) openProgramme t ⟨rfl, rfl, rfl⟩ ht
  refine ⟨t, value, ht, hvalue, (hiff.mpr hfaithful).trans ?_⟩
  decide +kernel

/-- A guide with one programme, whose title is an escaped text. -/
def escapedTitle (title : String) : List XmlEvent :=
  [.start "tv" [], .start "programme" [.ok ("channel", "news"), .ok ("start", "2026")]] ++
    TextElement.title.events [] (escape title) ++ [.finish "programme", .finish "tv"]

/-- The programmes that the visitor gets. -/
def programmesOf (visits : List (Visit String)) : List (Programme String) :=
  visits.filterMap fun visit => match visit with
    | .programme programme => some programme
    | .channel _ => none

/-- The title `Tom &amp; Jerry` becomes `Tom Jerry`. -/
theorem ampersand_lost :
    ∃ document s, parseXmltvVisitWithOptions webXmltv smallLimits "UTC" countVisits 0
        { events := (escapedTitle "Tom & Jerry").map fun event => (100, event), position := 100 } =
        .ok (document, s) ∧
      (programmesOf s.visits).map (fun programme => programme.titles.map LocalizedText.value) =
        [["Tom Jerry"]] ∧
      Text.collapseWhitespace "Tom Jerry".toList ≠
        Text.collapseWhitespace ((escape "Tom & Jerry").chars fun name => name) := by
  have heval : (parseXmltvVisitWithOptions webXmltv smallLimits "UTC" countVisits 0
      { events := (escapedTitle "Tom & Jerry").map fun event => (100, event),
        position := 100 }).toOption.any (fun result => decide ((programmesOf result.2.visits).map
          (fun programme => programme.titles.map LocalizedText.value) = [["Tom Jerry"]])) =
      true := by
    decide +kernel
  obtain ⟨⟨document, s⟩, hparse, htitles⟩ := (Option.any_eq_true _ _).mp heval
  exact ⟨document, s, of_toOption hparse, of_decide_eq_true htitles, by decide +kernel⟩

end IptvRelay.Parsers
