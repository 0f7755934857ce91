import IptvRelay.Parsers.Extinf
import Mathlib.Algebra.Group.Nat.Even

/-!
# Bare words in EXTINF lines

Words without a value between the attributes of a line. The reader passes over the word behind
a bare one with it, so attributes are found behind an even number of words.
-/

namespace IptvRelay.Parsers

/-- A text without quotes, commas, equals signs and whitespace. -/
structure BareWord (word : List Char) : Prop where
  ne_nil : word ≠ []
  chars : ∀ c ∈ word, isWordChar c = true

def spacedWord (word : List Char) : List Char := ' ' :: word

/-- An attribute with the bare words before it. -/
abbrev Segment := List (List Char) × (List Char × List Char)

def segmentText (segment : Segment) : List Char :=
  segment.1.flatMap spacedWord ++ quotedAttribute segment.2

structure WellSpaced (segment : Segment) : Prop where
  words : ∀ word ∈ segment.1, BareWord word
  even : Even segment.1.length
  quoted : WellQuoted segment.2

theorem isAsciiWhitespace_of_isWordChar {c : Char} (h : isWordChar c = true) :
    isAsciiWhitespace c = false := by
  have hkey := (isWordChar_iff.mp h).1
  simp only [isKeyChar, Bool.and_eq_true, Bool.not_eq_true'] at hkey
  exact hkey.1

/-! ## The title -/

/-- A text in which no comma ends the metadata and no quote stays open. -/
def Enclosed (text : List Char) : Prop := ∀ rest,
  splitTitle none (text ++ rest) = (text ++ (splitTitle none rest).1, (splitTitle none rest).2)

theorem Enclosed.append {first second : List Char} (hfirst : Enclosed first)
    (hsecond : Enclosed second) : Enclosed (first ++ second) := by
  intro rest
  rw [List.append_assoc, hfirst, hsecond, List.append_assoc]

theorem Enclosed.flatMap {α : Type} {f : α → List Char} {xs : List α}
    (h : ∀ x ∈ xs, Enclosed (f x)) : Enclosed (xs.flatMap f) := by
  induction xs with
  | nil => exact fun rest => rfl
  | cons x xs ih =>
    rw [List.flatMap_cons]
    exact (h x List.mem_cons_self).append (ih fun y hy => h y (List.mem_cons_of_mem x hy))

theorem enclosed_space : Enclosed [' '] := by
  intro rest
  rw [List.singleton_append, splitTitle, if_neg (by decide)]
  rfl

theorem enclosed_word {word : List Char} (h : BareWord word) : Enclosed (spacedWord word) :=
  enclosed_space.append (splitTitle_word h.chars)

theorem enclosed_segment {segment : Segment} (h : WellSpaced segment) :
    Enclosed (segmentText segment) :=
  (Enclosed.flatMap fun word hword => enclosed_word (h.words word hword)).append
    (splitTitle_attribute h.quoted)

/-! ## The attributes -/

section Attributes

variable (debug : String → String) (line : Nat) {attributes : Attributes}

/-- Whitespace at the beginning does not count. -/
theorem parseAttributes_congr {text other : List Char}
    (h : text.dropWhile isAsciiWhitespace = other.dropWhile isAsciiWhitespace) :
    parseAttributes debug line attributes text = parseAttributes debug line attributes other := by
  rw [parseAttributes.eq_1 debug line attributes text,
    parseAttributes.eq_1 debug line attributes other, h]

theorem behindKey_word {word rest : List Char} (hword : BareWord word) :
    behindKey (word ++ ' ' :: rest) = rest.dropWhile isAsciiWhitespace := by
  rw [behindKey, List.dropWhile_append_of_pos fun c hc => (isWordChar_iff.mp (hword.chars c hc)).1,
    List.dropWhile_cons_of_neg (by decide), List.dropWhile_cons_of_pos (by decide)]

theorem dropWhile_word {word : List Char} (hword : BareWord word) (rest : List Char) :
    (word ++ rest).dropWhile isAsciiWhitespace = word ++ rest := by
  obtain ⟨c, word, rfl⟩ := List.exists_cons_of_ne_nil hword.ne_nil
  exact List.dropWhile_cons_of_neg
    (by simp [isAsciiWhitespace_of_isWordChar (hword.chars c List.mem_cons_self)])

/-- A text that begins with a key without a value. -/
theorem parseAttributes_bare {text word : List Char} {c : Char}
    (htext : text.dropWhile isAsciiWhitespace = c :: word)
    (hbare : (behindKey (c :: word)).head? ≠ some '=') :
    (parseAttributes debug line attributes text).1 =
      (parseAttributes debug line attributes
        ((behindKey (c :: word)).dropWhile fun c => !isAsciiWhitespace c)).1 := by
  rw [parseAttributes]
  split
  · rename_i hnil
    rw [htext] at hnil
    cases hnil
  · rename_i hcons
    rw [htext] at hcons
    obtain ⟨rfl, rfl⟩ := List.cons.inj hcons
    rw [if_neg hbare]

/-- A word without a value is passed over with the word behind it. -/
theorem parseAttributes_words {first second rest : List Char} (hfirst : BareWord first)
    (hsecond : BareWord second) (hrest : ∀ c ∈ rest.head?, isAsciiWhitespace c = true) :
    (parseAttributes debug line attributes (spacedWord first ++ (spacedWord second ++ rest))).1 =
      (parseAttributes debug line attributes rest).1 := by
  have hbehind : behindKey (first ++ (spacedWord second ++ rest)) = second ++ rest := by
    rw [spacedWord, List.cons_append, behindKey_word hfirst, dropWhile_word hsecond]
  have hskip : (second ++ rest).dropWhile (fun c => !isAsciiWhitespace c) = rest := by
    rw [List.dropWhile_append_of_pos fun c hc => by
      simp [isAsciiWhitespace_of_isWordChar (hsecond.chars c hc)]]
    cases rest with
    | nil => rfl
    | cons c rest => exact List.dropWhile_cons_of_neg (by simp [hrest c rfl])
  have hhead : (second ++ rest).head? ≠ some '=' := by
    obtain ⟨c, second, rfl⟩ := List.exists_cons_of_ne_nil hsecond.ne_nil
    rw [List.cons_append, List.head?_cons]
    intro h
    exact absurd (Option.some.inj h ▸ hsecond.chars c List.mem_cons_self) (by decide)
  obtain ⟨c, word, rfl⟩ := List.exists_cons_of_ne_nil hfirst.ne_nil
  have htext : (spacedWord (c :: word) ++ (spacedWord second ++ rest)).dropWhile
      isAsciiWhitespace = c :: word ++ (spacedWord second ++ rest) := by
    rw [spacedWord, List.cons_append, List.dropWhile_cons_of_pos (by decide),
      dropWhile_word hfirst]
  rw [List.cons_append] at htext hbehind
  rw [parseAttributes_bare debug line htext (by rwa [hbehind]), hbehind, hskip]

/-- A word at the end is no attribute. -/
theorem parseAttributes_last_word {word : List Char} (hword : BareWord word) :
    (parseAttributes debug line attributes (spacedWord word)).1 = attributes := by
  have hbehind : behindKey word = [] := by
    rw [behindKey, List.dropWhile_eq_nil_iff.mpr fun c hc =>
      (isWordChar_iff.mp (hword.chars c hc)).1]
    rfl
  have htext : (spacedWord word).dropWhile isAsciiWhitespace = word := by
    have hdrop := dropWhile_word hword []
    rw [List.append_nil] at hdrop
    rw [spacedWord, List.dropWhile_cons_of_pos (by decide), hdrop]
  obtain ⟨c, word, rfl⟩ := List.exists_cons_of_ne_nil hword.ne_nil
  rw [parseAttributes_bare debug line htext (by rw [hbehind]; simp), hbehind]
  rw [List.dropWhile_nil, parseAttributes_blank debug line _ rfl]

theorem head_spaced {α : Type} {f : α → List Char} (hf : ∀ x, (f x).head? = some ' ')
    (xs : List α) : ∀ c ∈ (xs.flatMap f).head?, isAsciiWhitespace c = true := by
  intro c hc
  cases xs with
  | nil => cases hc
  | cons x xs =>
    have hne : f x ≠ [] := fun hnil => by simpa [hnil] using hf x
    rw [List.flatMap_cons, List.head?_append_of_ne_nil _ hne, hf x] at hc
    cases hc
    decide

/-- An even number of words comes to nothing. -/
theorem parseAttributes_even {rest : List Char}
    (hrest : ∀ c ∈ rest.head?, isAsciiWhitespace c = true) :
    ∀ {words : List (List Char)}, (∀ word ∈ words, BareWord word) → Even words.length →
      (parseAttributes debug line attributes (words.flatMap spacedWord ++ rest)).1 =
        (parseAttributes debug line attributes rest).1
  | [], _, _ => rfl
  | [_], _, heven => absurd heven Nat.not_even_one
  | first :: second :: words, hwords, heven => by
    obtain ⟨hfirst, hwords⟩ := List.forall_mem_cons.mp hwords
    obtain ⟨hsecond, hwords⟩ := List.forall_mem_cons.mp hwords
    have heven' : Even words.length := by
      rw [List.length_cons, List.length_cons] at heven
      grind
    have hhead : ∀ c ∈ (words.flatMap spacedWord ++ rest).head?, isAsciiWhitespace c = true := by
      intro c hc
      rw [List.head?_append] at hc
      cases hwordsHead : (words.flatMap spacedWord).head? with
      | none =>
        rw [hwordsHead] at hc
        exact hrest c hc
      | some d =>
        rw [hwordsHead] at hc
        obtain rfl := Option.some.inj hc
        exact head_spaced (fun _ => rfl) words d hwordsHead
    rw [List.flatMap_cons, List.flatMap_cons, List.append_assoc, List.append_assoc,
      parseAttributes_words debug line hfirst hsecond hhead]
    exact parseAttributes_even hrest hwords heven'

/-- Words behind the last attribute come to nothing. -/
theorem parseAttributes_trailing :
    ∀ {words : List (List Char)}, (∀ word ∈ words, BareWord word) →
      (parseAttributes debug line attributes (words.flatMap spacedWord)).1 = attributes
  | [], _ => by rw [List.flatMap_nil, parseAttributes_blank debug line _ rfl]
  | [word], hwords => by
    rw [List.flatMap_singleton]
    exact parseAttributes_last_word debug line (hwords word List.mem_cons_self)
  | first :: second :: words, hwords => by
    obtain ⟨hfirst, hwords⟩ := List.forall_mem_cons.mp hwords
    obtain ⟨hsecond, hwords⟩ := List.forall_mem_cons.mp hwords
    rw [List.flatMap_cons, List.flatMap_cons, parseAttributes_words debug line hfirst hsecond
      (head_spaced (fun _ => rfl) words)]
    exact parseAttributes_trailing hwords

/-- What stands behind the duration. -/
def attributesText (segments : List Segment) (trailing : List (List Char)) : List Char :=
  segments.flatMap segmentText ++ trailing.flatMap spacedWord

theorem parseAttributes_segments {segments : List Segment} {trailing : List (List Char)}
    (hsegments : ∀ segment ∈ segments, WellSpaced segment)
    (htrailing : ∀ word ∈ trailing, BareWord word) :
    (parseAttributes debug line attributes (attributesText segments trailing)).1 =
      (segments.map Prod.snd).foldl insertPair attributes := by
  induction segments generalizing attributes with
  | nil => exact parseAttributes_trailing debug line htrailing
  | cons segment segments ih =>
    obtain ⟨hsegment, hrest⟩ := List.forall_mem_cons.mp hsegments
    have hsplit : attributesText (segment :: segments) trailing = segment.1.flatMap spacedWord ++
        (quotedAttribute segment.2 ++ attributesText segments trailing) := by
      simp only [attributesText, List.flatMap_cons, segmentText, List.append_assoc]
    have hspace : ∀ c ∈ (quotedAttribute segment.2 ++ attributesText segments trailing).head?,
        isAsciiWhitespace c = true := fun c hc => by cases hc; decide
    rw [hsplit, parseAttributes_even debug line hspace hsegment.words hsegment.even,
      parseAttributes_quoted debug line hsegment.quoted (tail_quotedAttribute hsegment.quoted _),
      ih hrest]
    rfl

end Attributes

/-! ## The line -/

theorem enclosed_attributesText {segments : List Segment} {trailing : List (List Char)}
    (hsegments : ∀ segment ∈ segments, WellSpaced segment)
    (htrailing : ∀ word ∈ trailing, BareWord word) : Enclosed (attributesText segments trailing) :=
  (Enclosed.flatMap fun segment hsegment => enclosed_segment (hsegments segment hsegment)).append
    (Enclosed.flatMap fun word hword => enclosed_word (htrailing word hword))

theorem getLast_word {word : List Char} (hword : BareWord word) :
    ∀ c ∈ (spacedWord word).getLast?, Text.isWhitespace c = false := by
  intro c hc
  obtain ⟨d, word, rfl⟩ := List.exists_cons_of_ne_nil hword.ne_nil
  rw [spacedWord, List.getLast?_cons_cons] at hc
  exact isWhitespace_of_isWordChar (hword.chars c (List.mem_of_getLast? hc))

/-- The last character is one of a word or a quotation mark. -/
theorem getLast_attributesText {segments : List Segment} {trailing : List (List Char)}
    (htrailing : ∀ word ∈ trailing, BareWord word) :
    ∀ c ∈ (attributesText segments trailing).getLast?, Text.isWhitespace c = false := by
  intro c hc
  rcases List.eq_nil_or_concat trailing with rfl | ⟨words, word, rfl⟩
  · rcases List.eq_nil_or_concat segments with rfl | ⟨segments, segment, rfl⟩
    · cases hc
    · rw [attributesText, List.flatMap_nil, List.append_nil, List.concat_eq_append,
        List.flatMap_append, List.flatMap_singleton, segmentText, quotedAttribute,
        ← List.append_assoc, ← List.append_assoc, List.getLast?_concat] at hc
      obtain rfl := Option.some.inj hc
      decide
  · have hword := htrailing word (by simp)
    have hne : spacedWord word ≠ [] := List.cons_ne_nil _ _
    rw [attributesText, List.concat_eq_append, List.flatMap_append, List.flatMap_singleton,
      ← List.append_assoc, List.getLast?_append_of_ne_nil _ hne] at hc
    exact getLast_word hword c hc

theorem trim_append_spaces (text : List Char) (spaces : Nat) :
    Text.trim (text ++ List.replicate spaces ' ') = Text.trim text := by
  have hblank : ∀ c ∈ List.replicate spaces ' ', Text.isWhitespace c = true := by
    intro c hc
    rw [List.eq_of_mem_replicate hc]
    decide
  obtain ⟨tail, htail, heq⟩ := Text.trimStart_append_blank text hblank
  rw [Text.trim, heq, Text.trimEnd_append_blank _ htail, Text.trim]

/-- The attributes begin with a space and a character of a word. -/
theorem attributesText_head {segments : List Segment} {trailing : List (List Char)}
    (hsegments : ∀ segment ∈ segments, WellSpaced segment)
    (htrailing : ∀ word ∈ trailing, BareWord word) :
    attributesText segments trailing = [] ∨ ∃ c rest, isWordChar c = true ∧
      attributesText segments trailing = ' ' :: c :: rest := by
  have hspaced : ∀ {word : List Char}, BareWord word → ∀ rest, ∃ c tail, isWordChar c = true ∧
      spacedWord word ++ rest = ' ' :: c :: tail := by
    intro word hword rest
    obtain ⟨c, word, rfl⟩ := List.exists_cons_of_ne_nil hword.ne_nil
    exact ⟨c, word ++ rest, hword.chars c List.mem_cons_self, rfl⟩
  unfold attributesText
  cases segments with
  | nil =>
    cases trailing with
    | nil => exact .inl rfl
    | cons word words => exact .inr (hspaced (htrailing word List.mem_cons_self) _)
  | cons segment segments =>
    right
    obtain ⟨hwords, -, hquoted⟩ := hsegments segment List.mem_cons_self
    obtain ⟨words, key, value⟩ := segment
    rw [List.flatMap_cons, segmentText]
    cases words with
    | nil =>
      obtain ⟨c, key, rfl⟩ := List.exists_cons_of_ne_nil hquoted.key_ne_nil
      exact ⟨c, _, hquoted.key_chars c List.mem_cons_self, rfl⟩
    | cons word words =>
      rw [List.flatMap_cons, List.append_assoc, List.append_assoc, List.append_assoc]
      exact hspaced (hwords word List.mem_cons_self) _

/-- The attributes without the space before them are the same. -/
theorem parseAttributes_trim (debug : String → String) (number : Nat) {attributes : Attributes}
    {segments : List Segment} {trailing : List (List Char)}
    (hsegments : ∀ segment ∈ segments, WellSpaced segment)
    (htrailing : ∀ word ∈ trailing, BareWord word) :
    (parseAttributes debug number attributes (Text.trim (attributesText segments trailing))).1 =
      (segments.map Prod.snd).foldl insertPair attributes := by
  rw [← parseAttributes_segments debug number hsegments htrailing]
  refine congrArg Prod.fst (parseAttributes_congr debug number ?_)
  have hlast := @getLast_attributesText segments trailing htrailing
  rcases attributesText_head hsegments htrailing with hnil | ⟨c, rest, hc, htext⟩
  · rw [hnil]
    rfl
  · rw [htext] at hlast ⊢
    have hspace : Text.isWhitespace ' ' = true := by decide
    have htrim : Text.trim (' ' :: c :: rest) = c :: rest := by
      rw [Text.trim, Text.trimStart, List.dropWhile_cons_of_pos hspace]
      refine Text.trim_of_visible (fun d hd => ?_) fun d hd => hlast d ?_
      · cases hd
        exact isWhitespace_of_isWordChar hc
      · rwa [List.getLast?_cons_cons]
    have hdrop : (' ' :: c :: rest).dropWhile isAsciiWhitespace =
        (c :: rest).dropWhile isAsciiWhitespace := List.dropWhile_cons_of_pos (by decide)
    rw [htrim, hdrop]

theorem get_foldl_insertPair_last (pairs : List (List Char × List Char)) (key : String) :
    (pairs.foldl insertPair []).get key =
      (pairs.reverse.find? fun pair => String.ofList (Text.asciiLowercase pair.1) = key).map
        fun pair => String.ofList pair.2 := by
  let row : List Char × List Char → String × String := fun pair =>
    (String.ofList (Text.asciiLowercase pair.1), String.ofList pair.2)
  have hfold : pairs.foldl insertPair [] = (pairs.map row).foldl (Table.upsert Prod.fst) [] := by
    rw [List.foldl_map]
    rfl
  rw [Attributes.get, hfold, Table.find?_foldl_upsert, ← List.map_reverse, List.find?_map,
    List.find?_nil, Option.or_none, Option.map_map]
  rfl

section Line

variable {Url Duration : Type} (env : M3uEnv Url Duration)

/-- The text of a line with a duration, attributes among words, spaces, and a title. -/
def extinfText (word : List Char) (segments : List Segment) (trailing : List (List Char))
    (spaces : Nat) (title : List Char) : List Char :=
  "#EXTINF:".toList ++
    (word ++ attributesText segments trailing ++ List.replicate spaces ' ' ++ ',' :: title)

theorem enclosed_spaces (spaces : Nat) : Enclosed (List.replicate spaces ' ') := by
  induction spaces with
  | zero => exact fun rest => rfl
  | succ spaces ih => exact enclosed_space.append ih

theorem splitTitle_extinf {word title : List Char} {segments : List Segment}
    {trailing : List (List Char)} (hword : BareWord word)
    (hsegments : ∀ segment ∈ segments, WellSpaced segment)
    (htrailing : ∀ word ∈ trailing, BareWord word) (spaces : Nat) :
    splitTitle none (word ++ attributesText segments trailing ++ List.replicate spaces ' ' ++
        ',' :: title) =
      (word ++ attributesText segments trailing ++ List.replicate spaces ' ', title) := by
  have henclosed : Enclosed (word ++ attributesText segments trailing ++
      List.replicate spaces ' ') :=
    (Enclosed.append (splitTitle_word hword.chars)
      (enclosed_attributesText hsegments htrailing)).append (enclosed_spaces spaces)
  rw [henclosed, splitTitle, if_pos ⟨rfl, rfl⟩, List.append_nil]

theorem trim_extinfMetadata {word : List Char} {segments : List Segment}
    {trailing : List (List Char)} (hword : BareWord word)
    (htrailing : ∀ word ∈ trailing, BareWord word) (spaces : Nat) :
    Text.trim (word ++ attributesText segments trailing ++ List.replicate spaces ' ') =
      word ++ attributesText segments trailing := by
  have hvisible : ∀ c ∈ word, Text.isWhitespace c = false :=
    fun c hc => isWhitespace_of_isWordChar (hword.chars c hc)
  rw [trim_append_spaces]
  refine Text.trim_of_visible (fun c hc => ?_) fun c hc => ?_
  · rw [List.head?_append_of_ne_nil word hword.ne_nil] at hc
    exact hvisible c (List.mem_of_head? hc)
  · rw [List.getLast?_append] at hc
    cases hlast : (attributesText segments trailing).getLast? with
    | none =>
      rw [hlast, Option.none_or] at hc
      exact hvisible c (List.mem_of_getLast? hc)
    | some d =>
      rw [hlast, Option.some_or] at hc
      obtain rfl := Option.some.inj hc
      exact getLast_attributesText htrailing d hlast

/-- The title and the attributes of the line, whatever the duration. -/
theorem parseExtinf_parts {word title : List Char} {segments : List Segment}
    {trailing : List (List Char)} (hword : BareWord word)
    (hsegments : ∀ segment ∈ segments, WellSpaced segment)
    (htrailing : ∀ word ∈ trailing, BareWord word) (spaces number : Nat) :
    (parseExtinf env (extinfText word segments trailing spaces title) number).1.title =
        String.ofList (Text.trim title) ∧
      (parseExtinf env (extinfText word segments trailing spaces title) number).1.attributes =
        (segments.map Prod.snd).foldl insertPair [] := by
  have hwords : ∀ c ∈ word, (!Text.isWhitespace c) = true := fun c hc => by
    simp [isWhitespace_of_isWordChar (hword.chars c hc)]
  have hstop : ∀ c ∈ (attributesText segments trailing).head?, (!Text.isWhitespace c) = false := by
    intro c hc
    rcases attributesText_head hsegments htrailing with hnil | ⟨d, rest, -, htext⟩
    · rw [hnil] at hc
      cases hc
    · rw [htext] at hc
      cases hc
      decide
  have hdrop : (word ++ attributesText segments trailing).dropWhile
      (fun c => !Text.isWhitespace c) = attributesText segments trailing := by
    rw [List.dropWhile_append_of_pos hwords]
    cases htext : attributesText segments trailing with
    | nil => rfl
    | cons c rest =>
      exact List.dropWhile_cons_of_neg (by simpa using hstop c (by rw [htext]; rfl))
  have hlength : "#EXTINF:".length = "#EXTINF:".toList.length := rfl
  unfold parseExtinf extinfText
  rw [hlength, List.drop_left, splitTitle_extinf hword hsegments htrailing]
  refine ⟨rfl, ?_⟩
  simp only [trim_extinfMetadata hword htrailing, hdrop]
  exact parseAttributes_trim env.debug number hsegments htrailing

/-- A line with an even number of bare words before each attribute gives its trimmed title, and
for each key the last value that was written for it. -/
theorem parseExtinf_bare_words {word title : List Char} {segments : List Segment}
    {trailing : List (List Char)} (hword : BareWord word)
    (hsegments : ∀ segment ∈ segments, WellSpaced segment)
    (htrailing : ∀ word ∈ trailing, BareWord word) (spaces number : Nat) :
    (parseExtinf env (extinfText word segments trailing spaces title) number).1.title =
        String.ofList (Text.trim title) ∧
      ∀ key, (parseExtinf env (extinfText word segments trailing spaces title)
          number).1.attributes.get key =
        ((segments.map Prod.snd).reverse.find? fun pair =>
          String.ofList (Text.asciiLowercase pair.1) = key).map
            fun pair => String.ofList pair.2 := by
  obtain ⟨htitle, hattributes⟩ := @parseExtinf_parts _ _ env word title segments trailing hword
    hsegments htrailing spaces number
  refine ⟨htitle, fun key => ?_⟩
  rw [hattributes, get_foldl_insertPair_last]

end Line

/-- Durations that are all zero. -/
def zeroDurations : M3uEnv Unit Nat where
  parseUrl _ := .error ""
  parseDuration _ := some 0
  debug text := text

theorem plain_word {word : String} (hne : word.toList ≠ [])
    (hchars : word.toList.all isWordChar = true) : BareWord word.toList :=
  ⟨hne, List.all_eq_true.mp hchars⟩

/-- Two words before an attribute and one behind it. -/
theorem live_hd_found :
    (parseExtinf zeroDurations (extinfText "-1".toList
      [(["live".toList, "hd".toList], "tvg-id".toList, "bbc".toList)] ["uk".toList] 1
      " News ".toList) 1).1.attributes.get "tvg-id" = some "bbc" := by
  refine ((parseExtinf_bare_words zeroDurations (plain_word (by decide) (by decide)) ?_ ?_ 1 1).2
    "tvg-id").trans (by decide +kernel)
  · intro segment hsegment
    obtain rfl := List.mem_singleton.mp hsegment
    refine ⟨fun word hword => ?_, by decide, by decide, List.all_eq_true.mp (by decide),
      by decide⟩
    simp only [List.mem_cons, List.not_mem_nil, or_false] at hword
    rcases hword with rfl | rfl <;> exact plain_word (by decide) (by decide)
  · intro word hword
    obtain rfl := List.mem_singleton.mp hword
    exact plain_word (by decide) (by decide)

/-- The part of the metadata that the reader of attributes gets. -/
def attributeRaw (metadata : List Char) : List Char :=
  Text.trim ((Text.trim metadata).dropWhile fun c => !Text.isWhitespace c)

def extinfAttributes (line : List Char) : List Char :=
  attributeRaw (splitTitle none (line.drop "#EXTINF:".length)).1

theorem parseExtinf_attributes {Url Duration : Type} (env : M3uEnv Url Duration)
    (line : List Char) (number : Nat) :
    (parseExtinf env line number).1.attributes =
      (parseAttributes env.debug number [] (extinfAttributes line)).1 := rfl

/-- A word without a value, and another one behind it. -/
theorem parseExtinf_bare {Url Duration : Type} (env : M3uEnv Url Duration) (number : Nat)
    {line word : List Char} {c : Char}
    (htext : (extinfAttributes line).dropWhile isAsciiWhitespace = c :: word)
    (hbare : (behindKey (c :: word)).head? ≠ some '=')
    (hend : (behindKey (c :: word)).dropWhile (fun c => !isAsciiWhitespace c) = []) :
    (parseExtinf env line number).1.attributes = [] := by
  rw [parseExtinf_attributes, parseAttributes_bare env.debug number htext hbare, hend,
    parseAttributes_blank env.debug number _ rfl]

/-- A comma in a key begins the title, and the attribute behind a bare word goes with it. -/
theorem comma_and_word_lose_attributes :
    ((parseExtinf zeroDurations "#EXTINF:-1 a,b=\"v\",News".toList 1).1.attributes.get "a,b" =
        none ∧
      (parseExtinf zeroDurations "#EXTINF:-1 a,b=\"v\",News".toList 1).1.title = "b=\"v\",News") ∧
    (parseExtinf zeroDurations "#EXTINF:-1 live a=\"v\",News".toList 1).1.attributes.get "a" =
      none := by
  refine ⟨⟨?_, by decide +kernel⟩, ?_⟩
  · rw [@parseExtinf_bare _ _ zeroDurations 1 _ [] 'a' (by decide +kernel) (by decide)
      (by decide)]
    rfl
  · rw [@parseExtinf_bare _ _ zeroDurations 1 _ "ive a=\"v\"".toList 'l' (by decide +kernel)
      (by decide +kernel) (by decide +kernel)]
    rfl

end IptvRelay.Parsers
