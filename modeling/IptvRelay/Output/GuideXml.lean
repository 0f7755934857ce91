import IptvRelay.Lib.Xml
import IptvRelay.Output.Guide

/-!
# The published guide as XML

The tags of the guide, and what a reader of XML gets from the text that the handler writes. The
text is a well-formed document exactly if the texts of the catalog have only legal characters.
-/

namespace IptvRelay.Output

open Xml (Piece)

/-! ## The tags -/

/-- An element with nothing but text. -/
def textElement (name : String) (text : List Char) : List Piece :=
  [⟨[], .start name.toList []⟩, ⟨text, .close name.toList⟩]

def iconElement (source : List Char) : Piece :=
  ⟨[], .empty "icon".toList [("src".toList, source)]⟩

def channelElement (id : Uuid) (name : String) (logoUrl : Option String) : List Piece :=
  ⟨"\n  ".toList, .start "channel".toList [("id".toList, uuidText id)]⟩ ::
    textElement "display-name" name.toList ++
    (logoUrl.map String.toList).toList.map iconElement ++ [⟨[], .close "channel".toList⟩]

section Elements

variable (env : Environment)

def programmeElement (channelId : Uuid) (startsAt stopsAt : Instant) (elements : List Piece) :
    List Piece :=
  ⟨"\n  ".toList, .start "programme".toList
    [("channel".toList, uuidText channelId), ("start".toList, env.stamp startsAt),
      ("stop".toList, env.stamp stopsAt)]⟩ ::
    elements ++ [⟨[], .close "programme".toList⟩]

def descriptiveElements (title : String) (description : Option String)
    (categories : List String) : List Piece :=
  textElement "title" title.toList ++
    description.toList.flatMap (fun text => textElement "desc" text.toList) ++
    categories.flatMap (fun category => textElement "category" category.toList)

def sportsElements (artBase : Option (List Char)) (sports : SportsInfo) : List Piece :=
  (programmeIcon env artBase sports).toList.map iconElement ++
    [⟨[], .start "episode-num".toList [("system".toList, "original-air-date".toList)]⟩,
      ⟨env.date sports.localDate, .close "episode-num".toList⟩,
      ⟨[], .empty "live".toList []⟩]

def rowElement (channelId : Uuid) (programme : ProgrammeRow) (artBase : Option (List Char)) :
    List Piece :=
  programmeElement env channelId programme.startsAt programme.stopsAt
    (descriptiveElements programme.title programme.description programme.categoryList ++
      (programme.sports env).toList.flatMap (sportsElements env artBase))

def placeholderElements (channelId : Uuid) (now : Instant) (spans : List GuideSpan) :
    List Piece :=
  (noProgramBlocks now spans).flatMap fun span =>
    programmeElement env channelId span.1 span.2
      (textElement "title" noProgramTitle.toList ++
        textElement "category" noProgramCategory.toList)

/-- The outermost element. -/
def guideElement (rows : List Piece) : List Piece :=
  ⟨['\n'], .start "tv".toList [("generator-info-name".toList, "IPTV Gateway".toList)]⟩ ::
    rows ++ [⟨['\n'], .close "tv".toList⟩]

/-- What the guide says: the channels, the programmes and the placeholders. -/
def guide (publicBaseUrl token : String) (now : Instant) : GuideSource → List Piece
  | .database channels programmes =>
    let resolved := resolvedProgrammes channels programmes
    guideElement (
      (channels.flatMap fun channel => channelElement channel.id channel.name channel.logoUrl) ++
      (resolved.flatMap fun row =>
        rowElement env row.1.id row.2 (some (artBaseOf publicBaseUrl token))) ++
      (channels.flatMap fun channel =>
        placeholderElements env channel.id now
          ((resolved.filter fun row => row.1.id = channel.id).map fun row =>
            (row.2.startsAt, row.2.stopsAt))))
  | .memory catalog =>
    let channels := catalog.channels.filter ChannelRecord.enabled
    let programmes := enabledProgrammes catalog
    guideElement (
      (channels.flatMap fun channel => channelElement channel.id channel.name channel.logoUrl) ++
      (programmes.flatMap fun programme =>
        programmeElement env programme.channelId programme.startsAt programme.stopsAt
          (descriptiveElements programme.title programme.description programme.categories)) ++
      (channels.flatMap fun channel =>
        placeholderElements env channel.id now
          ((programmes.filter fun programme => programme.channelId = channel.id).map
            fun programme => (programme.startsAt, programme.stopsAt))))

end Elements

/-! ## The handler writes the tags -/

theorem replaceChar_flatMap (c : Char) (replacement : List Char) (f : Char → List Char)
    (text : List Char) :
    replaceChar c replacement (text.flatMap f) =
      text.flatMap fun d => replaceChar c replacement (f d) := List.flatMap_assoc

theorem replaceChar_other {c d : Char} (h : ¬d = c) (replacement : List Char) :
    replaceChar c replacement [d] = [d] := by
  simp only [replaceChar, List.flatMap_cons, List.flatMap_nil, if_neg h, List.append_nil]

/-- The chain of replacements escapes each character by itself. -/
theorem xmlEscape_eq (text : List Char) : xmlEscape text = Xml.escape text := by
  have hsingle : ∀ c, xmlEscape [c] = Xml.escapeChar c := by
    intro c
    cases hc : Xml.isSpecial c with
    | true => rcases Xml.eq_of_isSpecial hc with rfl | rfl | rfl | rfl | rfl <;> decide
    | false =>
      rw [Xml.escapeChar_plain hc]
      simp only [Xml.isSpecial, decide_eq_false_iff_not, not_or] at hc
      obtain ⟨hamp, hlt, hgt, hquote, hsingle⟩ := hc
      rw [xmlEscape, replaceChar_other hamp, replaceChar_other hlt, replaceChar_other hgt,
        @replaceChar_other quotationMark c hquote, @replaceChar_other apostrophe c hsingle]
  have hwhole : text = text.flatMap fun c => [c] := by simp
  calc xmlEscape text = text.flatMap fun c => xmlEscape [c] := by
        conv_lhs => rw [hwhole]
        simp only [xmlEscape, replaceChar_flatMap]
    _ = Xml.escape text := by simp only [hsingle, Xml.escape]

theorem escape_plain {text : List Char} (h : ∀ c ∈ text, isPlain c = true) :
    Xml.escape text = text := by
  have hplain : ∀ c ∈ "0123456789abcdef+- ".toList, Xml.isSpecial c = false := fun c hc =>
    Bool.eq_false_iff.mpr (List.any_eq_false.mp (by decide) c hc)
  induction text with
  | nil => rfl
  | cons c text ih =>
    have hc : c ∈ "0123456789abcdef+- ".toList := of_decide_eq_true (h c List.mem_cons_self)
    rw [Xml.escape_cons, Xml.escapeChar_plain (hplain c hc),
      ih fun d hd => h d (List.mem_cons_of_mem c hd)]
    rfl

theorem renderPiece_textElement (name : String) (text rest : List Char) :
    (textElement name text).flatMap Xml.renderPiece ++ rest =
      '<' :: (name.toList ++ '>' :: (xmlEscape text ++ '<' :: '/' :: (name.toList ++
        '>' :: rest))) := by
  simp only [textElement, Xml.renderPiece, Xml.renderTag, Xml.escape_nil, xmlEscape_eq,
    List.flatMap_cons, List.flatMap_nil, List.append_nil, List.append_assoc, List.cons_append,
    List.nil_append]

theorem renderPiece_iconElement (source rest : List Char) :
    Xml.renderPiece (iconElement source) ++ rest =
      "<icon src=\"".toList ++ (xmlEscape source ++ ("\"/>".toList ++ rest)) := by
  rw [xmlEscape_eq]
  simp only [Xml.renderPiece, iconElement, Xml.renderTag, Xml.renderAttribute,
    Xml.escape_nil, Xml.quotationMark, List.flatMap_cons, List.flatMap_nil, List.append_nil,
    List.append_assoc, List.cons_append, List.nil_append]
  repeat rw [String.toList_ofList]
  simp only [List.cons_append, List.nil_append]

theorem render_icon (icon : Option (List Char)) (rest : List Char) :
    (icon.toList.map iconElement).flatMap Xml.renderPiece ++ rest = writeIcon icon ++ rest := by
  cases icon with
  | none => rfl
  | some source =>
    have hicon := renderPiece_iconElement source rest
    simpa only [writeIcon, Option.elim_some, Option.toList_some, List.map_cons, List.map_nil, List.flatMap_cons,
      List.flatMap_nil, List.append_nil, List.append_assoc] using hicon

theorem escape_indent : Xml.escape ['\n', ' ', ' '] = ['\n', ' ', ' '] := by decide

theorem renderPiece_close (name : String) (rest : List Char) :
    Xml.renderPiece ⟨[], .close name.toList⟩ ++ rest =
      '<' :: '/' :: (name.toList ++ '>' :: rest) := by
  simp only [Xml.renderPiece, Xml.renderTag, Xml.escape_nil, List.nil_append, List.append_assoc,
    List.cons_append]

/-- The lines behind a line end are the tags, with the last line end left over. -/
def Writes (written : List Char) (pieces : List Piece) : Prop :=
  '\n' :: written = pieces.flatMap Xml.renderPiece ++ ['\n']

theorem writes_append {a b : List Char} {as bs : List Piece} (ha : Writes a as)
    (hb : Writes b bs) : Writes (a ++ b) (as ++ bs) := by
  unfold Writes at *
  rw [List.flatMap_append, List.append_assoc, ← hb, ← List.cons_append, ha, List.append_assoc]
  rfl

theorem writes_flatMap {α : Type} {w : α → List Char} {p : α → List Piece} (xs : List α)
    (h : ∀ x, Writes (w x) (p x)) : Writes (xs.flatMap w) (xs.flatMap p) := by
  induction xs with
  | nil => rfl
  | cons x xs ih => exact writes_append (h x) ih

theorem writes_channel (id : Uuid) (name : String) (logoUrl : Option String) :
    Writes (writeChannel id name logoUrl) (channelElement id name logoUrl) := by
  have hid : Xml.escape (uuidText id) = uuidText id := escape_plain (isPlain_uuidText id)
  unfold Writes
  rw [channelElement, List.flatMap_append, List.flatMap_append, List.flatMap_cons,
    List.append_assoc, List.append_assoc, List.append_assoc, renderPiece_textElement, render_icon,
    List.flatMap_singleton, renderPiece_close]
  unfold writeChannel
  simp only [Xml.renderPiece, Xml.renderTag, Xml.renderAttribute, hid, Xml.quotationMark,
    List.flatMap_cons, List.flatMap_nil, List.append_nil, List.append_assoc, List.cons_append,
    List.nil_append]
  repeat rw [String.toList_ofList]
  rw [escape_indent]
  simp only [List.cons_append, List.nil_append]

section Programmes

variable {env : Environment}

theorem render_programmeElement (channelId : Uuid) (startsAt stopsAt : Instant)
    (elements : List Piece) (rest : List Char) :
    (programmeElement env channelId startsAt stopsAt elements).flatMap Xml.renderPiece ++ rest =
      '\n' :: ("  <programme channel=\"".toList ++ (uuidText channelId ++
        ("\" start=\"".toList ++ (env.stamp startsAt ++ ("\" stop=\"".toList ++
          (env.stamp stopsAt ++ ("\">".toList ++ (elements.flatMap Xml.renderPiece ++
            ("</programme>".toList ++ rest))))))))) := by
  have hid : Xml.escape (uuidText channelId) = uuidText channelId :=
    escape_plain (isPlain_uuidText channelId)
  have hstart := escape_plain (env.stamp_plain startsAt)
  have hstop := escape_plain (env.stamp_plain stopsAt)
  rw [programmeElement, List.flatMap_append, List.flatMap_cons, List.append_assoc,
    List.append_assoc, List.flatMap_singleton, renderPiece_close]
  simp only [Xml.renderPiece, Xml.renderTag, Xml.renderAttribute, hid, hstart, hstop,
    Xml.quotationMark, List.flatMap_cons, List.flatMap_nil, List.append_nil, List.append_assoc,
    List.cons_append, List.nil_append]
  repeat rw [String.toList_ofList]
  rw [escape_indent]
  simp only [List.cons_append, List.nil_append]

theorem render_description (description : Option String) (rest : List Char) :
    (description.toList.flatMap fun text => textElement "desc" text.toList).flatMap
      Xml.renderPiece ++ rest = writeDescription description ++ rest := by
  cases description with
  | none => rfl
  | some text =>
    rw [Option.toList_some, List.flatMap_singleton, renderPiece_textElement]
    simp only [writeDescription, Option.elim_some, List.append_assoc]
    repeat rw [String.toList_ofList]
    simp only [List.cons_append, List.nil_append]

theorem render_categories (categories : List String) (rest : List Char) :
    (categories.flatMap fun category => textElement "category" category.toList).flatMap
      Xml.renderPiece ++ rest = writeCategories categories ++ rest := by
  induction categories with
  | nil => rfl
  | cons category categories ih =>
    rw [List.flatMap_cons, List.flatMap_append, List.append_assoc, ih, renderPiece_textElement]
    simp only [writeCategories, List.flatMap_cons, List.append_assoc]
    repeat rw [String.toList_ofList]
    simp only [List.cons_append, List.nil_append]

theorem render_descriptiveElements (title : String) (description : Option String)
    (categories : List String) (rest : List Char) :
    (descriptiveElements title description categories).flatMap Xml.renderPiece ++ rest =
      "<title>".toList ++ (xmlEscape title.toList ++ ("</title>".toList ++
        (writeDescription description ++ (writeCategories categories ++ rest)))) := by
  rw [descriptiveElements, List.flatMap_append, List.flatMap_append, List.append_assoc,
    List.append_assoc, renderPiece_textElement, render_description, render_categories]
  repeat rw [String.toList_ofList]
  simp only [List.cons_append, List.nil_append]

theorem render_sports (artBase : Option (List Char)) (sports : Option SportsInfo)
    (rest : List Char) :
    (sports.toList.flatMap (sportsElements env artBase)).flatMap Xml.renderPiece ++ rest =
      writeSports env artBase sports ++ rest := by
  cases sports with
  | none => rfl
  | some sports =>
    have hdate := escape_plain (env.date_plain sports.localDate)
    have hsystem : Xml.escape "original-air-date".toList = "original-air-date".toList := by
      rw [String.toList_ofList]
      decide
    rw [Option.toList_some, List.flatMap_singleton, sportsElements, List.flatMap_append,
      List.append_assoc, render_icon, writeSports, Option.elim_some]
    simp only [Xml.renderPiece, Xml.renderTag, Xml.renderAttribute, hdate, hsystem,
      Xml.escape_nil, List.flatMap_cons, List.flatMap_nil, List.append_nil, List.append_assoc]
    simp only [Xml.quotationMark, List.cons_append, List.nil_append]
    repeat rw [String.toList_ofList]
    simp only [List.cons_append, List.nil_append]

theorem writes_row (channelId : Uuid) (programme : ProgrammeRow)
    (artBase : Option (List Char)) :
    Writes (writeProgrammeRow env channelId programme artBase)
      (rowElement env channelId programme artBase) := by
  unfold Writes rowElement
  rw [render_programmeElement, List.flatMap_append, List.append_assoc,
    render_descriptiveElements]
  rw [render_sports]
  unfold writeProgrammeRow writeProgrammeHead
  repeat rw [String.toList_ofList]
  simp only [List.append_assoc, List.cons_append, List.nil_append]

theorem writes_record (channelId : Uuid) (startsAt stopsAt : Instant) (title : String)
    (description : Option String) (categories : List String) :
    Writes
      (writeProgrammeHead env channelId startsAt stopsAt title description categories ++
        "</programme>\n".toList)
      (programmeElement env channelId startsAt stopsAt
        (descriptiveElements title description categories)) := by
  unfold Writes
  rw [render_programmeElement, render_descriptiveElements]
  unfold writeProgrammeHead
  repeat rw [String.toList_ofList]
  simp only [List.append_assoc, List.cons_append, List.nil_append]

theorem writes_placeholders (channelId : Uuid) (now : Instant) (spans : List GuideSpan) :
    Writes (writeNoProgramPlaceholders env channelId now spans)
      (placeholderElements env channelId now spans) := by
  have htitle : xmlEscape noProgramTitle.toList = noProgramTitle.toList := by
    rw [noProgramTitle, String.toList_ofList]
    decide
  have hcategory : xmlEscape noProgramCategory.toList = noProgramCategory.toList := by
    rw [noProgramCategory, String.toList_ofList]
    decide
  unfold writeNoProgramPlaceholders placeholderElements
  refine writes_flatMap _ fun span => ?_
  unfold Writes
  rw [render_programmeElement, List.flatMap_append, List.append_assoc (List.flatMap _ _),
    renderPiece_textElement, renderPiece_textElement, htitle, hcategory]
  repeat rw [String.toList_ofList]
  simp only [List.append_assoc, List.cons_append, List.nil_append]

theorem writes_all_placeholders {α : Type} (channels : List α) (id : α → Uuid) (now : Instant)
    (spans : α → List GuideSpan) :
    Writes (channels.flatMap fun channel =>
        writeNoProgramPlaceholders env (id channel) now (spans channel))
      (channels.flatMap fun channel => placeholderElements env (id channel) now (spans channel)) :=
  writes_flatMap channels fun channel => writes_placeholders (id channel) now (spans channel)

theorem render_guideElement {body : List Char} {rows : List Piece} (h : Writes body rows) :
    guideHeader ++ body ++ "</tv>\n".toList = Xml.render (guideElement rows) ['\n'] := by
  have hheader : guideHeader = Xml.declaration ++
      "\n<tv generator-info-name=\"IPTV Gateway\">".toList ++ ['\n'] := by
    unfold guideHeader Xml.declaration
    repeat rw [String.toList_ofList]
    rfl
  have hopen : Xml.renderPiece ⟨['\n'], .start "tv".toList
      [("generator-info-name".toList, "IPTV Gateway".toList)]⟩ =
      "\n<tv generator-info-name=\"IPTV Gateway\">".toList := by
    repeat rw [String.toList_ofList]
    decide
  have hclose : Xml.renderPiece ⟨['\n'], .close "tv".toList⟩ = "\n</tv>".toList := by
    repeat rw [String.toList_ofList]
    decide
  have hend : Xml.escape ['\n'] = ['\n'] := by decide
  rw [hheader, Xml.render, guideElement, List.flatMap_append, List.flatMap_cons, hopen,
    List.flatMap_singleton, hclose, hend, List.append_assoc, List.append_assoc, List.append_assoc,
    List.singleton_append, ← List.cons_append, h]
  repeat rw [String.toList_ofList]
  simp only [List.append_assoc, List.cons_append, List.nil_append]

variable (env) in
/-- The body of the response is the guide. -/
theorem xmltv_eq_render (publicBaseUrl token : String) (now : Instant) (source : GuideSource) :
    xmltv env publicBaseUrl token now source =
      Xml.render (guide env publicBaseUrl token now source) ['\n'] := by
  cases source with
  | database channels programmes =>
    have hchannels := writes_flatMap channels fun channel =>
      writes_channel channel.id channel.name channel.logoUrl
    have hrows := writes_flatMap (resolvedProgrammes channels programmes) fun row =>
      @writes_row env row.1.id row.2 (some (artBaseOf publicBaseUrl token))
    have hplaceholders := @writes_all_placeholders env _ channels ChannelRow.id now fun channel =>
      ((resolvedProgrammes channels programmes).filter fun row => row.1.id = channel.id).map
        fun row => (row.2.startsAt, row.2.stopsAt)
    have hall := render_guideElement (writes_append (writes_append hchannels hrows) hplaceholders)
    simpa only [xmltv, xmltvOfDatabase, guide, List.append_assoc] using hall
  | memory catalog =>
    have hchannels := writes_flatMap (catalog.channels.filter ChannelRecord.enabled)
      fun channel => writes_channel channel.id channel.name channel.logoUrl
    have hrows := writes_flatMap (enabledProgrammes catalog) fun programme =>
      @writes_record env programme.channelId programme.startsAt programme.stopsAt programme.title
        programme.description programme.categories
    have hplaceholders := @writes_all_placeholders env _
      (catalog.channels.filter ChannelRecord.enabled) ChannelRecord.id now fun channel =>
        ((enabledProgrammes catalog).filter fun programme => programme.channelId = channel.id).map
          fun programme => (programme.startsAt, programme.stopsAt)
    have hall := render_guideElement (writes_append (writes_append hchannels hrows) hplaceholders)
    simpa only [xmltv, xmltvOfMemory, guide, List.append_assoc] using hall

end Programmes

/-! ## The tags are well-formed -/

/-- Elements that can stand anywhere inside an element. -/
def Balanced (pieces : List Piece) : Prop :=
  ∀ name stack rest, Xml.nests (name :: stack) (pieces ++ rest) = Xml.nests (name :: stack) rest

theorem Balanced.nil : Balanced [] := fun _ _ _ => rfl

theorem Balanced.append {as bs : List Piece} (ha : Balanced as) (hb : Balanced bs) :
    Balanced (as ++ bs) := by
  intro name stack rest
  rw [List.append_assoc, ha, hb]

theorem Balanced.flatMap {α : Type} {f : α → List Piece} {xs : List α}
    (h : ∀ x ∈ xs, Balanced (f x)) : Balanced (xs.flatMap f) := by
  induction xs with
  | nil => exact .nil
  | cons x xs ih =>
    exact (h x List.mem_cons_self).append (ih fun y hy => h y (List.mem_cons_of_mem x hy))

/-- A start tag, elements and the end tag of the same name. -/
theorem Balanced.element {inner : List Piece} (h : Balanced inner) (name text more : List Char)
    (attributes : List Xml.Attribute) :
    Balanced (⟨text, .start name attributes⟩ :: inner ++ [⟨more, .close name⟩]) := by
  intro outer stack rest
  show Xml.nests (name :: outer :: stack) ((inner ++ [⟨more, .close name⟩]) ++ rest) = _
  rw [List.append_assoc, h]
  show (decide (name = name) && Xml.nests (outer :: stack) rest) = _
  rw [decide_eq_true rfl, Bool.true_and]

theorem Balanced.empty (name text : List Char) (attributes : List Xml.Attribute) :
    Balanced [⟨text, .empty name attributes⟩] := fun _ _ _ => rfl

theorem balanced_textElement (name : String) (text : List Char) :
    Balanced (textElement name text) := Balanced.nil.element name.toList [] text []

theorem balanced_icons (icons : List (List Char)) : Balanced (icons.map iconElement) := by
  rw [← List.flatMap_singleton' (icons.map iconElement)]
  refine .flatMap fun piece hpiece => ?_
  obtain ⟨icon, -, rfl⟩ := List.mem_map.mp hpiece
  exact .empty _ _ _

theorem balanced_channelElement (id : Uuid) (name : String) (logoUrl : Option String) :
    Balanced (channelElement id name logoUrl) := by
  have hicons := balanced_icons (logoUrl.map String.toList).toList
  have hinner := (balanced_textElement "display-name" name.toList).append hicons
  have hchannel := hinner.element "channel".toList "\n  ".toList [] [("id".toList, uuidText id)]
  simpa only [channelElement, List.cons_append, List.append_assoc] using hchannel

section Programmes

variable {env : Environment}

theorem balanced_programmeElement (channelId : Uuid) (startsAt stopsAt : Instant)
    {elements : List Piece} (h : Balanced elements) :
    Balanced (programmeElement env channelId startsAt stopsAt elements) := h.element _ _ _ _

theorem balanced_descriptiveElements (title : String) (description : Option String)
    (categories : List String) :
    Balanced (descriptiveElements title description categories) := by
  have hdescription : Balanced (description.toList.flatMap fun text =>
      textElement "desc" text.toList) := .flatMap fun _ _ => balanced_textElement _ _
  have hcategories : Balanced (categories.flatMap fun category =>
      textElement "category" category.toList) := .flatMap fun _ _ => balanced_textElement _ _
  exact ((balanced_textElement "title" title.toList).append hdescription).append hcategories

theorem balanced_sportsElements (artBase : Option (List Char)) (sports : SportsInfo) :
    Balanced (sportsElements env artBase sports) := by
  have hepisode := Balanced.nil.element "episode-num".toList [] (env.date sports.localDate)
    [("system".toList, "original-air-date".toList)]
  exact (balanced_icons _).append (hepisode.append (.empty "live".toList [] []))

theorem balanced_rowElement (channelId : Uuid) (programme : ProgrammeRow)
    (artBase : Option (List Char)) : Balanced (rowElement env channelId programme artBase) :=
  balanced_programmeElement _ _ _ ((balanced_descriptiveElements _ _ _).append
    (.flatMap fun sports _ => balanced_sportsElements artBase sports))

theorem balanced_placeholderElements (channelId : Uuid) (now : Instant)
    (spans : List GuideSpan) : Balanced (placeholderElements env channelId now spans) :=
  .flatMap fun _ _ => balanced_programmeElement _ _ _
    ((balanced_textElement _ _).append (balanced_textElement _ _))

theorem isDocument_guideElement {rows : List Piece} (h : Balanced rows) :
    Xml.isDocument (guideElement rows) ['\n'] = true := by
  show (['\n'].all Xml.isSpace && (['\n'].all Xml.isSpace &&
    Xml.nests ["tv".toList] (rows ++ [⟨['\n'], .close "tv".toList⟩]))) = true
  rw [h]
  decide

/-! ## Names and texts of the tags -/

/-- The tags have names of XML, and their texts and values are legal exactly if the listed texts
are. -/
structure Described (pieces : List Piece) (texts : List (List Char)) : Prop where
  named : ∀ piece ∈ pieces, piece.wellNamed
  legal : (∀ text ∈ pieces.flatMap Piece.texts, ∀ c ∈ text, Xml.isChar c = true) ↔
    ∀ text ∈ texts, ∀ c ∈ text, Xml.isChar c = true

theorem Described.nil : Described [] [] :=
  ⟨fun _ h => absurd h List.not_mem_nil, Iff.rfl⟩

theorem Described.append {as bs : List Piece} {ats bts : List (List Char)}
    (ha : Described as ats) (hb : Described bs bts) : Described (as ++ bs) (ats ++ bts) := by
  refine ⟨fun piece hpiece => ?_, ?_⟩
  · exact (List.mem_append.mp hpiece).elim (ha.named piece) (hb.named piece)
  · rw [List.flatMap_append, List.forall_mem_append, List.forall_mem_append, ha.legal, hb.legal]

theorem Described.flatMap {α : Type} {f : α → List Piece} {texts : α → List (List Char)}
    (xs : List α) (h : ∀ x, Described (f x) (texts x)) :
    Described (xs.flatMap f) (xs.flatMap texts) := by
  induction xs with
  | nil => exact .nil
  | cons x xs ih => exact (h x).append ih

/-- A piece with texts of the program's own, besides the listed ones. -/
theorem Described.single {piece : Piece} {texts : List (List Char)} (hnamed : piece.wellNamed)
    (hlegal : (∀ text ∈ piece.texts, ∀ c ∈ text, Xml.isChar c = true) ↔
      ∀ text ∈ texts, ∀ c ∈ text, Xml.isChar c = true) : Described [piece] texts := by
  refine ⟨fun other hother => ?_, ?_⟩
  · rw [List.mem_singleton.mp hother]
    exact hnamed
  · rw [List.flatMap_singleton]
    exact hlegal

theorem legal_plain {text : List Char} (h : ∀ c ∈ text, isPlain c = true) :
    ∀ c ∈ text, Xml.isChar c = true := by
  have hall : ∀ c ∈ "0123456789abcdef+- ".toList, Xml.isChar c = true :=
    List.all_eq_true.mp (by decide)
  exact fun c hc => hall c (of_decide_eq_true (h c hc))

theorem described_close {name : String} (h : Xml.isName name.toList = true) (text : List Char) :
    Described [⟨text, .close name.toList⟩] [text] := .single h Iff.rfl

theorem described_start {name : String} (h : Xml.isName name.toList = true) :
    Described [⟨[], .start name.toList []⟩] [] := by
  refine .single ⟨h, fun _ hentry => absurd hentry List.not_mem_nil, List.nodup_nil⟩ ?_
  simp [Piece.texts]

theorem described_textElement {name : String} (h : Xml.isName name.toList = true)
    (text : List Char) : Described (textElement name text) [text] :=
  (described_start h).append (described_close h text)

theorem described_end {name : String} (h : Xml.isName name.toList = true) :
    Described [⟨[], .close name.toList⟩] [] := by
  refine .single h ?_
  simp [Piece.texts]

theorem described_icons (icons : List (List Char)) :
    Described (icons.map iconElement) icons := by
  induction icons with
  | nil => exact .nil
  | cons icon icons ih =>
    have hsource : ∀ entry ∈ [("src".toList, icon)], Xml.isName entry.1 = true := by
      intro entry hentry
      rw [List.mem_singleton.mp hentry]
      show Xml.isName "src".toList = true
      decide
    have hicon : Described [iconElement icon] [icon] := by
      refine .single ⟨by decide, hsource, List.nodup_singleton _⟩ ?_
      simp [Piece.texts, iconElement]
    exact hicon.append ih

/-- A start tag of the program's own. -/
theorem described_opening {text name : List Char} {attributes : List Xml.Attribute}
    (hname : Xml.isName name = true)
    (hentries : ∀ entry ∈ attributes, Xml.isName entry.1 = true ∧
      ∀ c ∈ entry.2, Xml.isChar c = true)
    (hdistinct : (attributes.map Prod.fst).Nodup) (htext : ∀ c ∈ text, Xml.isChar c = true) :
    Described [⟨text, .start name attributes⟩] [] := by
  refine .single ⟨hname, fun entry hentry => (hentries entry hentry).1, hdistinct⟩ ?_
  have hvalues : ∀ value ∈ attributes.map Prod.snd, ∀ c ∈ value, Xml.isChar c = true := by
    intro value hvalue
    obtain ⟨entry, hentry, rfl⟩ := List.mem_map.mp hvalue
    exact (hentries entry hentry).2
  refine ⟨fun _ _ h => absurd h List.not_mem_nil, fun _ other hother => ?_⟩
  rcases List.mem_cons.mp hother with rfl | hother
  · exact htext
  · exact hvalues other hother

theorem legal_indent : ∀ c ∈ "\n  ".toList, Xml.isChar c = true :=
  List.all_eq_true.mp (by decide)

theorem described_channelElement (id : Uuid) (name : String) (logoUrl : Option String) :
    Described (channelElement id name logoUrl)
      (name.toList :: (logoUrl.map String.toList).toList) := by
  have hid : ∀ entry ∈ [("id".toList, uuidText id)], Xml.isName entry.1 = true ∧
      ∀ c ∈ entry.2, Xml.isChar c = true := by
    rw [List.forall_mem_singleton]
    exact ⟨show Xml.isName "id".toList = true by decide, legal_plain (isPlain_uuidText id)⟩
  have hopen := @described_opening "\n  ".toList "channel".toList _ (by decide) hid
    (List.nodup_singleton _) legal_indent
  have hname := @described_textElement "display-name" (by decide) name.toList
  have hend := @described_end "channel" (by decide)
  have hicons := described_icons (logoUrl.map String.toList).toList
  have hall := ((hopen.append hname).append hicons).append hend
  rw [List.append_nil] at hall
  exact hall

theorem described_programmeElement (channelId : Uuid) (startsAt stopsAt : Instant)
    {elements : List Piece} {texts : List (List Char)} (h : Described elements texts) :
    Described (programmeElement env channelId startsAt stopsAt elements) texts := by
  have hentries : ∀ entry ∈ [("channel".toList, uuidText channelId),
      ("start".toList, env.stamp startsAt), ("stop".toList, env.stamp stopsAt)],
      Xml.isName entry.1 = true ∧ ∀ c ∈ entry.2, Xml.isChar c = true := by
    rw [List.forall_mem_cons, List.forall_mem_cons, List.forall_mem_singleton]
    have hnames : Xml.isName "channel".toList = true ∧ Xml.isName "start".toList = true ∧
        Xml.isName "stop".toList = true := by decide
    exact ⟨⟨hnames.1, legal_plain (isPlain_uuidText channelId)⟩,
      ⟨hnames.2.1, legal_plain (env.stamp_plain startsAt)⟩,
      ⟨hnames.2.2, legal_plain (env.stamp_plain stopsAt)⟩⟩
  have hdistinct : ["channel".toList, "start".toList, "stop".toList].Nodup := by decide
  have hopen := @described_opening "\n  ".toList "programme".toList _ (by decide) hentries
    hdistinct legal_indent
  have hend := @described_end "programme" (by decide)
  have hall := (hopen.append h).append hend
  rw [List.append_nil] at hall
  exact hall

/-- The texts of a programme that the handler writes. -/
def descriptiveTexts (title : String) (description : Option String) (categories : List String) :
    List (List Char) :=
  title.toList :: description.toList.map String.toList ++ categories.map String.toList

theorem described_descriptiveElements (title : String) (description : Option String)
    (categories : List String) :
    Described (descriptiveElements title description categories)
      (descriptiveTexts title description categories) := by
  have htitle := @described_textElement "title" (by decide) title.toList
  have hdescription := Described.flatMap description.toList fun text =>
    @described_textElement "desc" (by decide) text.toList
  have hcategories := Described.flatMap categories fun category =>
    @described_textElement "category" (by decide) category.toList
  have hall := (htitle.append hdescription).append hcategories
  rw [← List.map_eq_flatMap, ← List.map_eq_flatMap] at hall
  exact hall

theorem described_sportsElements (artBase : Option (List Char)) (sports : SportsInfo) :
    Described (sportsElements env artBase sports) (programmeIcon env artBase sports).toList := by
  have hsystem : ∀ entry ∈ [("system".toList, "original-air-date".toList)],
      Xml.isName entry.1 = true ∧ ∀ c ∈ entry.2, Xml.isChar c = true :=
    List.forall_mem_singleton.mpr ⟨by decide, List.all_eq_true.mp (by decide)⟩
  have hopen := @described_opening [] "episode-num".toList _ (by decide) hsystem
    (List.nodup_singleton _) (fun _ h => absurd h List.not_mem_nil)
  have hdate : Described [⟨env.date sports.localDate, .close "episode-num".toList⟩] [] := by
    refine .single (show Xml.isName "episode-num".toList = true by decide) ?_
    have hlegal := legal_plain (env.date_plain sports.localDate)
    simpa [Piece.texts] using hlegal
  have hlive : Described [⟨[], .empty "live".toList []⟩] [] := by
    refine .single ⟨by decide, fun _ h => absurd h List.not_mem_nil, List.nodup_nil⟩ ?_
    simp [Piece.texts]
  have hall := (described_icons (programmeIcon env artBase sports).toList).append
    ((hopen.append hdate).append hlive)
  rw [List.append_nil, List.append_nil, List.append_nil] at hall
  exact hall

variable (env) in
def rowTexts (programme : ProgrammeRow) (artBase : Option (List Char)) : List (List Char) :=
  descriptiveTexts programme.title programme.description programme.categoryList ++
    (programme.sports env).toList.flatMap fun sports => (programmeIcon env artBase sports).toList

theorem described_rowElement (channelId : Uuid) (programme : ProgrammeRow)
    (artBase : Option (List Char)) :
    Described (rowElement env channelId programme artBase) (rowTexts env programme artBase) :=
  described_programmeElement _ _ _ ((described_descriptiveElements _ _ _).append
    (.flatMap _ fun sports => described_sportsElements artBase sports))

theorem described_placeholderElements (channelId : Uuid) (now : Instant)
    (spans : List GuideSpan) :
    Described (placeholderElements env channelId now spans) [] := by
  have hconstants : Described (textElement "title" noProgramTitle.toList ++
      textElement "category" noProgramCategory.toList) [] := by
    have hboth := (@described_textElement "title" (by decide) noProgramTitle.toList).append
      (@described_textElement "category" (by decide) noProgramCategory.toList)
    refine ⟨hboth.named, hboth.legal.trans ⟨fun _ _ h => absurd h List.not_mem_nil, fun _ => ?_⟩⟩
    have hall : ∀ text ∈ [noProgramTitle.toList, noProgramCategory.toList],
        text.all Xml.isChar = true := List.all_eq_true.mp (by decide)
    exact fun text htext => List.all_eq_true.mp (hall text htext)
  have hall := Described.flatMap (noProgramBlocks now spans) fun span =>
    @described_programmeElement env channelId span.1 span.2 _ _ hconstants
  rw [List.flatMap_eq_nil_iff.mpr fun _ _ => rfl] at hall
  exact hall

theorem described_guideElement {rows : List Piece} {texts : List (List Char)}
    (h : Described rows texts) : Described (guideElement rows) texts := by
  have hgenerator : ∀ entry ∈ [("generator-info-name".toList, "IPTV Gateway".toList)],
      Xml.isName entry.1 = true ∧ ∀ c ∈ entry.2, Xml.isChar c = true :=
    List.forall_mem_singleton.mpr ⟨by decide, List.all_eq_true.mp (by decide)⟩
  have hopen := @described_opening ['\n'] "tv".toList _ (by decide) hgenerator
    (List.nodup_singleton _) (List.all_eq_true.mp (by decide))
  have hclose : Described [⟨['\n'], .close "tv".toList⟩] [] := by
    refine .single (show Xml.isName "tv".toList = true by decide) ?_
    simp only [Piece.texts, List.forall_mem_cons]
    exact ⟨fun _ _ h => absurd h List.not_mem_nil,
      fun _ => ⟨⟨by decide, fun _ h => absurd h List.not_mem_nil⟩, fun _ h => absurd h List.not_mem_nil⟩⟩
  have hall := (hopen.append h).append hclose
  rw [List.append_nil] at hall
  exact hall

/-! ## The guide reads back -/

variable (env) in
/-- The texts of the catalog that the guide shows. -/
def guideTexts (publicBaseUrl token : String) : GuideSource → List (List Char)
  | .database channels programmes =>
    (channels.flatMap fun channel =>
      channel.name.toList :: (channel.logoUrl.map String.toList).toList) ++
    (resolvedProgrammes channels programmes).flatMap fun row =>
      rowTexts env row.2 (some (artBaseOf publicBaseUrl token))
  | .memory catalog =>
    ((catalog.channels.filter ChannelRecord.enabled).flatMap fun channel =>
      channel.name.toList :: (channel.logoUrl.map String.toList).toList) ++
    (enabledProgrammes catalog).flatMap fun programme =>
      descriptiveTexts programme.title programme.description programme.categories

theorem described_all_placeholders {α : Type} (channels : List α) (id : α → Uuid) (now : Instant)
    (spans : α → List GuideSpan) :
    Described (channels.flatMap fun channel =>
      placeholderElements env (id channel) now (spans channel)) [] := by
  have hall := Described.flatMap channels fun channel =>
    @described_placeholderElements env (id channel) now (spans channel)
  rwa [List.flatMap_eq_nil_iff.mpr fun _ _ => rfl] at hall

theorem described_guide (publicBaseUrl token : String) (now : Instant) (source : GuideSource) :
    Described (guide env publicBaseUrl token now source)
      (guideTexts env publicBaseUrl token source) := by
  cases source with
  | database channels programmes =>
    have hchannels := Described.flatMap channels fun channel =>
      described_channelElement channel.id channel.name channel.logoUrl
    have hrows := Described.flatMap (resolvedProgrammes channels programmes) fun row =>
      @described_rowElement env row.1.id row.2 (some (artBaseOf publicBaseUrl token))
    have hplaceholders := @described_all_placeholders env _ channels ChannelRow.id now
      fun channel =>
        ((resolvedProgrammes channels programmes).filter fun row => row.1.id = channel.id).map
          fun row => (row.2.startsAt, row.2.stopsAt)
    have hall := described_guideElement ((hchannels.append hrows).append hplaceholders)
    rw [List.append_nil] at hall
    exact hall
  | memory catalog =>
    have hchannels := Described.flatMap (catalog.channels.filter ChannelRecord.enabled)
      fun channel => described_channelElement channel.id channel.name channel.logoUrl
    have hrows := Described.flatMap (enabledProgrammes catalog) fun programme =>
      @described_programmeElement env programme.channelId programme.startsAt programme.stopsAt _ _
        (described_descriptiveElements programme.title programme.description programme.categories)
    have hplaceholders := @described_all_placeholders env _
      (catalog.channels.filter ChannelRecord.enabled) ChannelRecord.id now fun channel =>
        ((enabledProgrammes catalog).filter fun programme => programme.channelId = channel.id).map
          fun programme => (programme.startsAt, programme.stopsAt)
    have hall := described_guideElement ((hchannels.append hrows).append hplaceholders)
    rw [List.append_nil] at hall
    exact hall

theorem isDocument_guide (publicBaseUrl token : String) (now : Instant) (source : GuideSource) :
    Xml.isDocument (guide env publicBaseUrl token now source) ['\n'] = true := by
  cases source with
  | database channels programmes =>
    refine isDocument_guideElement ((Balanced.append ?_ ?_).append ?_)
    · exact .flatMap fun _ _ => balanced_channelElement _ _ _
    · exact .flatMap fun _ _ => balanced_rowElement _ _ _
    · exact .flatMap fun _ _ => balanced_placeholderElements _ _ _
  | memory catalog =>
    refine isDocument_guideElement ((Balanced.append ?_ ?_).append ?_)
    · exact .flatMap fun _ _ => balanced_channelElement _ _ _
    · exact .flatMap fun _ _ => balanced_programmeElement _ _ _ (balanced_descriptiveElements _ _ _)
    · exact .flatMap fun _ _ => balanced_placeholderElements _ _ _

/-- The handler passes on the characters of the texts as they are. -/
theorem legal_xmltv (publicBaseUrl token : String) (now : Instant) (source : GuideSource) :
    (∀ c ∈ xmltv env publicBaseUrl token now source, Xml.isChar c = true) ↔
      ∀ text ∈ guideTexts env publicBaseUrl token source, ∀ c ∈ text, Xml.isChar c = true := by
  have hguide := @described_guide env publicBaseUrl token now source
  rw [xmltv_eq_render, Xml.legal_render hguide.named (List.all_eq_true.mp (by decide)), hguide.legal]

variable (env) in
/-- The published text has only legal characters and reads back as the guide, exactly if the texts
that it shows have only legal characters. -/
theorem xmltv_reads_iff (publicBaseUrl token : String) (now : Instant) (source : GuideSource) :
    ((∀ c ∈ xmltv env publicBaseUrl token now source, Xml.isChar c = true) ∧
      Xml.read (xmltv env publicBaseUrl token now source) =
        some ((guide env publicBaseUrl token now source).map Piece.observed, ['\n'])) ↔
    ∀ text ∈ guideTexts env publicBaseUrl token source, ∀ c ∈ text, Xml.isChar c = true := by
  have hguide := @described_guide env publicBaseUrl token now source
  refine ⟨fun h => (legal_xmltv _ _ _ _).mp h.1, fun h => ?_⟩
  have hlegal := (legal_xmltv publicBaseUrl token now source).mpr h
  refine ⟨hlegal, ?_⟩
  rw [xmltv_eq_render] at hlegal ⊢
  exact Xml.read_render hguide.named (isDocument_guide publicBaseUrl token now source) hlegal

/-- A provider sent a channel whose name ends with a control character. -/
def controlCatalog : CatalogSnapshot where
  channels := [
    { id := 1, number := "1", name := String.ofList ['N', 'e', 'w', 's', Char.ofNat 1],
      group := none, logoUrl := none, enabled := true }]
  programmes := []

/-- The control character is in the published text, whatever the formats of times are. -/
theorem control_character_published :
    ¬∃ env : Environment,
      (∀ c ∈ xmltv env "http://relay" "token" 0 (.memory controlCatalog),
        Xml.isChar c = true) ∧
      Xml.read (xmltv env "http://relay" "token" 0 (.memory controlCatalog)) =
        some ((guide env "http://relay" "token" 0 (.memory controlCatalog)).map Piece.observed,
          ['\n']) := by
  rintro ⟨env, h⟩
  have hname := (legal_xmltv _ _ _ _).mp h.1 ['N', 'e', 'w', 's', Char.ofNat 1]
    (List.mem_append_left _ (by decide +kernel))
  exact absurd (hname (Char.ofNat 1) (by decide)) (by decide)

end Programmes

end IptvRelay.Output
