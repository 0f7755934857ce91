import IptvRelay.Parsers.Accounting

/-!
# Truncated guides

A guide that is cut off inside its root element has elements that are not closed. The
reader reports an error only if the cut falls inside of markup, and the loop does not look
at the open elements when it reaches the end.
-/

namespace IptvRelay.Parsers

open Checked

/-- What is left of a character data event behind a cut in it. -/
inductive PartOf : Except String String → Except String String → Prop where
  | shorter {text value : String} : value.toList <+: text.toList → PartOf (.ok text) (.ok value)
  /-- The cut falls into a character. -/
  | broken {whole : Except String String} {message : String} : PartOf whole (.error message)
  | undecoded {message : String} {value : Except String String} : PartOf (.error message) value

/-- What the reader delivers for a part of a document. Between two events and in character data
it reports the end of the input, even if elements are open. -/
inductive Cut (full : XmlInput) : XmlInput → Prop where
  | between {before after : List (Nat × XmlEvent)} {position : Nat} :
      full.events = before ++ after → position ≤ full.position →
      Cut full { events := before, position }
  | inText {before after : List (Nat × XmlEvent)} {offset position : Nat}
      {whole part : Except String String} :
      full.events = before ++ (offset, .text whole) :: after → PartOf whole part →
      position ≤ full.position →
      Cut full { events := before ++ [(position, .text part)], position }
  | inMarkup {before after : List (Nat × XmlEvent)} {position : Nat} {message : String} :
      full.events = before ++ after →
      Cut full { events := before, position, error := some message }

/-- The innermost open element is inside of a record, so its text is captured. -/
def isCaptured (stack : List String) : Bool := stack.tail.any isRecord

/-- The last text is captured, and it ends within a character. -/
def SplitsCharacter (input : XmlInput) : Prop :=
  ∃ before offset message stack, input.events = before ++ [(offset, .text (.error message))] ∧
    openElements [] before = some stack ∧ isCaptured stack = true

section Cuts

variable {Url Digest σ : Type} {env : XmltvEnv Url Digest} {limits : ParseLimits}
  {defaultTimezone : String} {visitor : Visitor Url σ} {s t : XmltvState Url Digest σ}

theorem openElements_append (stack : List String) (before after : List (Nat × XmlEvent)) :
    openElements stack (before ++ after) =
      (openElements stack before).bind fun stack => openElements stack after := by
  induction before generalizing stack with
  | nil => rfl
  | cons first rest ih =>
    obtain ⟨offset, event⟩ := first
    simp only [List.cons_append, openElements]
    cases nestEvent stack event with
    | none => rfl
    | some next => exact ih next

theorem capture_iff {stack : List String} (h : GuideOk env stack s) :
    s.capture.isSome = isCaptured stack := by
  have hrecord := h.record
  have hinside : ∀ record, isRecord record = true → InRecord record stack s.capture →
      s.capture.isSome = isCaptured stack := by
    rintro record hname ⟨inner, rest, rfl, houter, hlength, hpos⟩
    cases hcapture : s.capture with
    | none =>
      rw [hcapture] at hlength
      obtain rfl := List.length_eq_zero_iff.mp hlength
      exact (List.any_eq_false.mpr (by simpa using houter)).symm
    | some active =>
      rw [hcapture] at hlength
      have hpos := hpos active hcapture
      cases inner with
      | nil =>
        simp at hlength
        omega
      | cons first inner =>
        refine (List.any_eq_true.mpr ⟨record, ?_, hname⟩).symm
        simp
  generalize s.channel.isSome = channel at hrecord
  generalize s.programme.isSome = programme at hrecord
  generalize hcapture : s.capture = capture at hrecord hinside
  cases hrecord with
  | outside hnone =>
    refine (List.any_eq_false.mpr fun name hname => ?_).symm
    simp [hnone name (List.mem_of_mem_tail hname)]
  | channel hin => exact hinside "channel" rfl hin
  | programme hin => exact hinside "programme" rfl hin

variable [DecidableEq Digest]

theorem runEvents_append (before after : List (Nat × XmlEvent)) :
    runEvents env limits defaultTimezone visitor s (before ++ after) =
      (runEvents env limits defaultTimezone visitor s before).bind fun s =>
        runEvents env limits defaultTimezone visitor s after := by
  induction before generalizing s with
  | nil => rfl
  | cons first rest ih =>
    obtain ⟨offset, event⟩ := first
    simp only [List.cons_append, runEvents]
    cases stepEvent env limits defaultTimezone visitor s offset event with
    | error error => rfl
    | ok next => exact ih

variable {start : σ} {input : XmlInput}

/-- After the events, only an error of the reader is an error. -/
theorem parse_error_iff
    (hrun : runEvents env limits defaultTimezone visitor { visitor := start } input.events = .ok s)
    (hposition : input.position ≤ limits.maxInputBytes) :
    (∃ error, parseXmltvVisitWithOptions env limits defaultTimezone visitor start input =
      .error error) ↔ input.error.isSome := by
  unfold parseXmltvVisitWithOptions
  rw [hrun]
  cases input.error with
  | some message => exact ⟨fun _ => rfl, fun _ => ⟨_, rfl⟩⟩
  | none =>
    constructor
    · rintro ⟨error, herror⟩
      simp only [ensure, if_pos hposition] at herror
      cases herror
    · intro h
      cases h

theorem parse_error_of_run {error : ParseError}
    (hrun : runEvents env limits defaultTimezone visitor { visitor := start } input.events =
      .error error) :
    parseXmltvVisitWithOptions env limits defaultTimezone visitor start input = .error error := by
  unfold parseXmltvVisitWithOptions
  rw [hrun]
  rfl

/-- A document that is accepted is read to its end. -/
theorem run_of_parse {document : XmltvDocument}
    (hparse : parseXmltvVisitWithOptions env limits defaultTimezone visitor start input =
      .ok (document, s)) :
    runEvents env limits defaultTimezone visitor { visitor := start } input.events = .ok s ∧
      input.position ≤ limits.maxInputBytes := by
  unfold parseXmltvVisitWithOptions at hparse
  obtain ⟨last, hrun, hparse⟩ := of_bind hparse
  split at hparse
  · cases hparse
  · obtain ⟨_, hposition, hparse⟩ := of_bind hparse
    obtain ⟨-, rfl⟩ := Prod.mk.inj (of_pure hparse)
    exact ⟨hrun, of_ensure hposition⟩

theorem runEvents_prefix {before after : List (Nat × XmlEvent)}
    (hrun : runEvents env limits defaultTimezone visitor s (before ++ after) = .ok t) :
    ∃ u, runEvents env limits defaultTimezone visitor s before = .ok u ∧
      runEvents env limits defaultTimezone visitor u after = .ok t := by
  rw [runEvents_append] at hrun
  exact of_bind hrun

theorem utf8ByteSize_le_of_prefix {value text : String} (h : value.toList <+: text.toList) :
    value.utf8ByteSize ≤ text.utf8ByteSize := by
  obtain ⟨rest, hrest⟩ := h
  have htext : text = value ++ String.ofList rest := by
    apply String.toList_inj.mp
    rw [String.toList_append, String.toList_ofList, hrest]
  rw [htext, String.utf8ByteSize_append]
  exact Nat.le_add_right _ _

/-- A shorter text fits where a longer one has fitted. -/
theorem appendCaptureText_prefix {capture next : Capture} {value text : String}
    (h : value.toList <+: text.toList) (happend : appendCaptureText limits capture text = .ok next) :
    ∃ next, appendCaptureText limits capture value = .ok next := by
  unfold appendCaptureText at happend ⊢
  obtain ⟨_, hfits, -⟩ := of_bind happend
  have hfits := of_ensure hfits
  have hsize := utf8ByteSize_le_of_prefix h
  have hfits' : ((capture.child.map ExtensionElement.text).getD capture.text).utf8ByteSize +
      value.utf8ByteSize ≤ limits.maxTextBytes := by omega
  simp only [ensure, if_pos hfits']
  exact ⟨_, rfl⟩

theorem stepEvent_text {position : Nat} {text : Except String String}
    (hposition : position ≤ limits.maxInputBytes) :
    stepEvent env limits defaultTimezone visitor s position (.text text) =
      captureText limits s position (text.bind env.unescape) := by
  unfold stepEvent
  simp only [ensure, if_pos hposition]
  rfl

/-- A text that is cut fails only inside of a captured element, where it does not decode. -/
theorem cutText_error_iff {offset position : Nat} {whole part : Except String String}
    (hunescape : ∀ text, '&' ∉ text.toList → env.unescape text = .ok text)
    (hplain : ∀ text, whole = .ok text → '&' ∉ text.toList) (hpart : PartOf whole part)
    (hposition : position ≤ limits.maxInputBytes)
    (hwhole : stepEvent env limits defaultTimezone visitor s offset (.text whole) = .ok t) :
    (∃ u, stepEvent env limits defaultTimezone visitor s position (.text part) = .ok u) ∨
      (s.capture.isSome = true ∧ (∃ message, part = .error message) ∧
        ∃ error, stepEvent env limits defaultTimezone visitor s position (.text part) =
          .error error) := by
  unfold stepEvent at hwhole
  obtain ⟨_, -, hwhole⟩ := of_bind hwhole
  rw [stepEvent_text hposition]
  cases hcapture : s.capture with
  | none =>
    refine .inl ⟨s, ?_⟩
    simp only [captureText, hcapture]
  | some active =>
    simp only [captureText, hcapture] at hwhole ⊢
    obtain ⟨value, hvalue, hwhole⟩ := of_bind hwhole
    obtain ⟨next, happend, -⟩ := of_bind hwhole
    cases hpart with
    | broken => exact .inr ⟨rfl, ⟨_, rfl⟩, ⟨_, rfl⟩⟩
    | undecoded => cases hvalue
    | @shorter text cut hcutPre =>
      have hamp := hplain text rfl
      have hcutAmp : '&' ∉ cut.toList := fun hmem => hamp (hcutPre.subset hmem)
      have hsame : value = text := by
        simp only [Except.bind, hunescape text hamp, located] at hvalue
        exact (Except.ok.inj hvalue).symm
      obtain ⟨shorter, hshorter⟩ := appendCaptureText_prefix hcutPre (hsame ▸ happend)
      refine .inl ⟨{ s with capture := some shorter }, ?_⟩
      simp only [Except.bind, hunescape cut hcutAmp, located]
      exact congrArg (fun result => result >>= fun active => pure { s with capture := some active })
        hshorter

omit [DecidableEq Digest] in
theorem guideOk_init : GuideOk env [] ({ visitor := start } : XmltvState Url Digest σ) :=
  .outside ⟨⟨rfl, rfl⟩, rfl, List.nodup_nil, nofun⟩ ⟨rfl, rfl, rfl⟩ nofun rfl

/-- A captured text that does not decode stops the loop. -/
theorem not_splitsCharacter
    (hrun : runEvents env limits defaultTimezone visitor { visitor := start } input.events =
      .ok s) : ¬ SplitsCharacter input := by
  rintro ⟨before, offset, message, stack, hevents, hnest, hcaptured⟩
  rw [hevents] at hrun
  obtain ⟨u, hbefore, hlast⟩ := runEvents_prefix hrun
  have hcapture := (capture_iff (guideOk_run guideOk_init hnest hbefore)).trans hcaptured
  obtain ⟨active, hactive⟩ := Option.isSome_iff_exists.mp hcapture
  obtain ⟨_, hstep, -⟩ := of_bind hlast
  unfold stepEvent at hstep
  obtain ⟨_, -, hstep⟩ := of_bind hstep
  simp only [captureText, hactive] at hstep
  cases hstep

theorem openElements_prefix {full before after : List (Nat × XmlEvent)}
    (hclosed : openElements [] full = some []) (hevents : full = before ++ after) :
    ∃ stack, openElements [] before = some stack := by
  rw [hevents, openElements_append] at hclosed
  obtain ⟨stack, hstack, -⟩ := Option.bind_eq_some_iff.mp hclosed
  exact ⟨stack, hstack⟩

/-- A part of a guide is rejected exactly if the reader fails on it or a captured text ends within
a character. -/
theorem truncated_rejected_iff {full cut : XmlInput} {document : XmltvDocument}
    (hunescape : ∀ text, '&' ∉ text.toList → env.unescape text = .ok text)
    (hplain : ∀ offset text, (offset, XmlEvent.text (.ok text)) ∈ full.events →
      '&' ∉ text.toList)
    (hclosed : openElements [] full.events = some [])
    (hparse : parseXmltvVisitWithOptions env limits defaultTimezone visitor start full =
      .ok (document, s)) (hcut : Cut full cut) :
    (∃ error, parseXmltvVisitWithOptions env limits defaultTimezone visitor start cut =
      .error error) ↔ cut.error.isSome ∨ SplitsCharacter cut := by
  obtain ⟨hrun, hend⟩ := run_of_parse hparse
  cases hcut with
  | @between before after position hevents hposition =>
    rw [hevents] at hrun
    obtain ⟨u, hbefore, -⟩ := runEvents_prefix hrun
    rw [parse_error_iff hbefore (hposition.trans hend)]
    exact ⟨.inl, fun h => h.resolve_right (not_splitsCharacter hbefore)⟩
  | @inMarkup before after position message hevents =>
    rw [hevents] at hrun
    obtain ⟨u, hbefore, -⟩ := runEvents_prefix hrun
    refine ⟨fun _ => .inl rfl, fun _ => ⟨.malformedXmltv position message, ?_⟩⟩
    unfold parseXmltvVisitWithOptions
    rw [hbefore]
    rfl
  | @inText before after offset position whole part hevents hpart hposition =>
    rw [hevents] at hrun
    obtain ⟨u, hbefore, hrest⟩ := runEvents_prefix hrun
    obtain ⟨v, hwhole, -⟩ := of_bind hrest
    have htext : ∀ text, whole = .ok text → '&' ∉ text.toList := by
      rintro text rfl
      exact hplain offset text (by rw [hevents]; simp)
    rcases cutText_error_iff hunescape htext hpart (hposition.trans hend) hwhole with
      ⟨w, hpart⟩ | ⟨hcapture, ⟨message, rfl⟩, error, herror⟩
    · have hcutRun : runEvents env limits defaultTimezone visitor { visitor := start }
          (before ++ [(position, .text part)]) = .ok w := by
        rw [runEvents_append, hbefore]
        simp only [Except.bind, runEvents, hpart]
        rfl
      rw [parse_error_iff hcutRun (hposition.trans hend)]
      exact ⟨.inl, fun h => h.resolve_right (not_splitsCharacter hcutRun)⟩
    · obtain ⟨stack, hnest⟩ := openElements_prefix hclosed hevents
      have hcaptured := (capture_iff (guideOk_run guideOk_init hnest hbefore)).symm.trans hcapture
      refine ⟨fun _ => .inr ⟨before, position, message, stack, rfl, hnest, hcaptured⟩,
        fun _ => ⟨error, parse_error_of_run ?_⟩⟩
      rw [runEvents_append, hbefore]
      simp only [Except.bind, runEvents, herror]
      rfl

end Cuts

/-- The guide without its last end. -/
def cutGuide : XmlInput := { events := newsGuide.events.dropLast, position := 210 }

/-- A document that is cut behind its programmes is accepted with its root element open. -/
theorem cut_guide_accepted :
    ∃ document s, parseXmltvVisitWithOptions webXmltv smallLimits "UTC"
        { channel := fun n _ => .ok (n + 1), programme := fun n _ => .ok (n + 1) } 0 cutGuide =
        .ok (document, s) ∧ openElements [] cutGuide.events = some ["tv"] := by
  have heval : (parseXmltvVisitWithOptions webXmltv smallLimits "UTC"
      { channel := fun n _ => .ok (n + 1), programme := fun n _ => .ok (n + 1) } 0
      cutGuide).toOption.isSome = true := by decide +kernel
  obtain ⟨⟨document, s⟩, hparse⟩ := Option.isSome_iff_exists.mp heval
  exact ⟨document, s, of_toOption hparse, by decide +kernel⟩

/-- The guide, cut inside its last tag. -/
def brokenGuide : XmlInput :=
  { events := newsGuide.events.dropLast, position := 213, error := some "unclosed tag" }

theorem broken_guide_rejected :
    ∃ error, parseXmltvVisitWithOptions webXmltv smallLimits "UTC"
      { channel := fun n _ => .ok (n + 1), programme := fun n _ => .ok (n + 1) } 0 brokenGuide =
      .error error := by
  have heval : (parseXmltvVisitWithOptions webXmltv smallLimits "UTC"
      { channel := fun n _ => .ok (n + 1), programme := fun n _ => .ok (n + 1) } 0
      newsGuide).toOption.isSome = true := by decide +kernel
  obtain ⟨⟨document, s⟩, hparse⟩ := Option.isSome_iff_exists.mp heval
  have hplain : ∀ offset text, (offset, XmlEvent.text (.ok text)) ∈ newsGuide.events →
      '&' ∉ text.toList := by
    intro offset text hmem
    simp only [newsGuide, List.mem_cons, Prod.mk.injEq, XmlEvent.text.injEq, Except.ok.injEq,
      reduceCtorEq, and_false, false_or, List.not_mem_nil, or_false] at hmem
    rcases hmem with ⟨-, rfl⟩ | ⟨-, rfl⟩ <;> decide +kernel
  have hevents : newsGuide.events = newsGuide.events.dropLast ++ [(215, .finish "tv")] := rfl
  have hcut : Cut newsGuide brokenGuide := .inMarkup hevents
  exact (truncated_rejected_iff (fun _ _ => rfl) hplain (by decide +kernel)
    (of_toOption hparse) hcut).mpr (.inl rfl)

end IptvRelay.Parsers
