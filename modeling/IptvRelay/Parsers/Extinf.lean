import IptvRelay.Lib.Words
import IptvRelay.Parsers.M3u

/-!
# Written EXTINF lines

What the reader gets from attributes in quotation marks and from a title behind them. A value
may have every character besides a quotation mark, a title every character.
-/

namespace IptvRelay.Parsers

/-- An attribute with a space before it. -/
def quotedAttribute (pair : List Char × List Char) : List Char :=
  ' ' :: pair.1 ++ '=' :: quotationMark :: pair.2 ++ [quotationMark]

theorem quotedAttribute_mk (key value : List Char) :
    quotedAttribute (key, value) =
      ' ' :: key ++ '=' :: quotationMark :: value ++ [quotationMark] := rfl

/-- A character with no meaning of its own in an EXTINF line. -/
def isWordChar (c : Char) : Bool :=
  isKeyChar c && !Text.isWhitespace c && c ≠ ',' && c ≠ quotationMark && c ≠ apostrophe

/-- A key of word characters, and a value that a quotation mark ends. -/
structure WellQuoted (pair : List Char × List Char) : Prop where
  key_ne_nil : pair.1 ≠ []
  key_chars : ∀ c ∈ pair.1, isWordChar c = true
  value_chars : quotationMark ∉ pair.2

theorem isWordChar_iff {c : Char} : isWordChar c = true ↔ isKeyChar c = true ∧
    Text.isWhitespace c = false ∧ c ≠ ',' ∧ c ≠ quotationMark ∧ c ≠ apostrophe := by
  simp [isWordChar, and_assoc]

/-! ## The title -/

/-- A word is metadata. -/
theorem splitTitle_word {word : List Char} (hword : ∀ c ∈ word, isWordChar c = true)
    (rest : List Char) :
    splitTitle none (word ++ rest) =
      (word ++ (splitTitle none rest).1, (splitTitle none rest).2) := by
  induction word with
  | nil => rfl
  | cons c word ih =>
    obtain ⟨-, -, hcomma, hquote, happos⟩ := isWordChar_iff.mp (hword c List.mem_cons_self)
    rw [List.cons_append, splitTitle, if_neg fun h => hcomma h.1]
    simp only [hquote, happos, or_self, if_false,
      ih fun d hd => hword d (List.mem_cons_of_mem c hd), List.cons_append]

/-- Inside of quotation marks neither commas nor apostrophes count. -/
theorem splitTitle_value {value : List Char} (hvalue : quotationMark ∉ value)
    (rest : List Char) :
    splitTitle (some quotationMark) (value ++ quotationMark :: rest) =
      (value ++ quotationMark :: (splitTitle none rest).1, (splitTitle none rest).2) := by
  induction value with
  | nil =>
    rw [List.nil_append, splitTitle, if_neg (by simp)]
    simp
  | cons c value ih =>
    have hc : c ≠ quotationMark := Ne.symm (List.ne_of_not_mem_cons hvalue)
    have hc' : quotationMark ≠ c := hc.symm
    have hsome : (some quotationMark : Option Char) ≠ some c := fun h => hc' (Option.some.inj h)
    rw [List.cons_append, splitTitle, if_neg (by simp)]
    simp only [hsome, reduceCtorEq, if_false, ite_self,
      ih (List.not_mem_of_not_mem_cons hvalue), List.cons_append]

theorem splitTitle_attribute {pair : List Char × List Char} (h : WellQuoted pair)
    (rest : List Char) :
    splitTitle none (quotedAttribute pair ++ rest) =
      (quotedAttribute pair ++ (splitTitle none rest).1, (splitTitle none rest).2) := by
  have hopen : ∀ text, splitTitle none (quotationMark :: text) =
      (quotationMark :: (splitTitle (some quotationMark) text).1,
        (splitTitle (some quotationMark) text).2) := fun text => by
    rw [splitTitle, if_neg (by decide)]
    rfl
  have hequals : ∀ text, splitTitle none ('=' :: text) =
      ('=' :: (splitTitle none text).1, (splitTitle none text).2) := fun text => by
    rw [splitTitle, if_neg (by decide)]
    rfl
  have hspace : ∀ text, splitTitle none (' ' :: text) =
      (' ' :: (splitTitle none text).1, (splitTitle none text).2) := fun text => by
    rw [splitTitle, if_neg (by decide)]
    rfl
  simp only [quotedAttribute, List.cons_append, List.append_assoc, List.nil_append, hspace,
    splitTitle_word h.key_chars, hequals, hopen, splitTitle_value h.value_chars]

theorem splitTitle_attributes {pairs : List (List Char × List Char)}
    (h : ∀ pair ∈ pairs, WellQuoted pair) (title : List Char) :
    splitTitle none (pairs.flatMap quotedAttribute ++ ',' :: title) =
      (pairs.flatMap quotedAttribute, title) := by
  induction pairs with
  | nil =>
    rw [List.flatMap_nil, List.nil_append, splitTitle, if_pos ⟨rfl, rfl⟩]
  | cons pair pairs ih =>
    rw [List.flatMap_cons, List.append_assoc, splitTitle_attribute (h pair List.mem_cons_self),
      ih fun other hother => h other (List.mem_cons_of_mem pair hother)]

/-! ## The attributes -/

section Attributes

variable (debug : String → String) (line : Nat) (attributes : Attributes)

theorem parseAttributes_blank {text : List Char} (h : text.dropWhile isAsciiWhitespace = []) :
    parseAttributes debug line attributes text = (attributes, []) := by
  rw [parseAttributes]
  split
  · rfl
  · rename_i hcons
    rw [h] at hcons
    cases hcons

/-- The map with this attribute. -/
def insertPair (attributes : Attributes) (pair : List Char × List Char) : Attributes :=
  attributes.insert (String.ofList (Text.asciiLowercase pair.1)) (String.ofList pair.2)

variable {attributes}

theorem attributeValue_quoted {value : List Char} (h : quotationMark ∉ value)
    (rest : List Char) :
    attributeValue (quotationMark :: value ++ quotationMark :: rest) = (value, rest, false) := by
  have hvalue : ∀ c ∈ value, decide (c ≠ quotationMark) = true :=
    fun c hc => decide_eq_true fun heq => h (heq ▸ hc)
  have hblank : (quotationMark :: (value ++ quotationMark :: rest)).dropWhile isAsciiWhitespace =
      quotationMark :: (value ++ quotationMark :: rest) :=
    List.dropWhile_cons_of_neg (by decide)
  have htake : (value ++ quotationMark :: rest).takeWhile (fun c => c ≠ quotationMark) = value := by
    rw [List.takeWhile_append_of_pos hvalue, List.takeWhile_cons_of_neg (by simp), List.append_nil]
  have hdrop : (value ++ quotationMark :: rest).dropWhile (fun c => c ≠ quotationMark) =
      quotationMark :: rest := by
    rw [List.dropWhile_append_of_pos hvalue, List.dropWhile_cons_of_neg (by simp)]
  rw [List.cons_append, attributeValue, hblank]
  simp only [or_true, if_true, htake, hdrop]

theorem parseAttributes_quoted {pair : List Char × List Char} (h : WellQuoted pair)
    {text rest : List Char}
    (htext : text.dropWhile isAsciiWhitespace = (quotedAttribute pair ++ rest).tail) :
    parseAttributes debug line attributes text =
      parseAttributes debug line (insertPair attributes pair) rest := by
  obtain ⟨hne, hkey, hvalue⟩ := h
  obtain ⟨key, value⟩ := pair
  have hkeyChars : ∀ d ∈ key, isKeyChar d = true := fun d hd => (isWordChar_iff.mp (hkey d hd)).1
  have hequals : ¬isKeyChar '=' = true := by decide
  have hword : ∀ tail, (key ++ '=' :: tail).takeWhile isKeyChar = key := fun tail => by
    rw [List.takeWhile_append_of_pos hkeyChars, List.takeWhile_cons_of_neg hequals, List.append_nil]
  have hbehind : ∀ tail, behindKey (key ++ '=' :: tail) = '=' :: tail := fun tail => by
    rw [behindKey, List.dropWhile_append_of_pos hkeyChars, List.dropWhile_cons_of_neg hequals,
      List.dropWhile_cons_of_neg (by decide)]
  have htail : (quotedAttribute (key, value) ++ rest).tail =
      key ++ '=' :: (quotationMark :: value ++ quotationMark :: rest) := by
    simp [quotedAttribute]
  have hkeyText : String.ofList key ≠ "" := by simpa using hne
  rw [htail] at htext
  rw [parseAttributes]
  split
  · rename_i hnil
    rw [htext] at hnil
    simp at hnil
  · rename_i c tail hcons
    rw [htext] at hcons
    simp only [← hcons, hword, hbehind, List.head?_cons, List.tail_cons, if_true,
      attributeValue_quoted hvalue, if_neg hkeyText, Bool.false_eq_true, if_false, List.nil_append,
      String.toList_ofList]
    rfl

theorem tail_quotedAttribute {pair : List Char × List Char} (h : WellQuoted pair)
    (rest : List Char) :
    ((quotedAttribute pair ++ rest).dropWhile isAsciiWhitespace) =
      (quotedAttribute pair ++ rest).tail := by
  obtain ⟨key, value⟩ := pair
  obtain ⟨c, key, rfl⟩ := List.exists_cons_of_ne_nil h.key_ne_nil
  have hkeyChar : isKeyChar c = true := (isWordChar_iff.mp (h.key_chars c List.mem_cons_self)).1
  have hc : isAsciiWhitespace c = false := by
    simp only [isKeyChar, Bool.and_eq_true, Bool.not_eq_true'] at hkeyChar
    exact hkeyChar.1
  simp only [quotedAttribute, List.cons_append, List.tail_cons]
  rw [List.dropWhile_cons_of_pos (by decide), List.dropWhile_cons_of_neg (by simp [hc])]

theorem parseAttributes_pairs {pairs : List (List Char × List Char)}
    (h : ∀ pair ∈ pairs, WellQuoted pair) {text : List Char}
    (htext : text.dropWhile isAsciiWhitespace = (pairs.flatMap quotedAttribute).tail) :
    parseAttributes debug line attributes text = (pairs.foldl insertPair attributes, []) := by
  induction pairs generalizing attributes text with
  | nil => exact parseAttributes_blank debug line attributes htext
  | cons pair pairs ih =>
    have hrest : ∀ other ∈ pairs, WellQuoted other :=
      fun other hother => h other (List.mem_cons_of_mem pair hother)
    rw [List.flatMap_cons] at htext
    rw [parseAttributes_quoted debug line (h pair List.mem_cons_self) htext, List.foldl_cons]
    refine ih hrest ?_
    cases pairs with
    | nil => rfl
    | cons next pairs =>
      rw [List.flatMap_cons]
      exact tail_quotedAttribute (hrest next List.mem_cons_self) _

end Attributes

/-- Each attribute of a line is found by its key. -/
theorem get_foldl_insertPair {pairs : List (List Char × List Char)}
    (hkeys : (pairs.map fun pair => String.ofList (Text.asciiLowercase pair.1)).Nodup)
    {pair : List Char × List Char} (hpair : pair ∈ pairs) :
    (pairs.foldl insertPair []).get (String.ofList (Text.asciiLowercase pair.1)) =
      some (String.ofList pair.2) := by
  let row : List Char × List Char → String × String := fun pair =>
    (String.ofList (Text.asciiLowercase pair.1), String.ofList pair.2)
  have hfold : pairs.foldl insertPair [] = (pairs.map row).foldl (Table.upsert Prod.fst) [] := by
    rw [List.foldl_map]
    rfl
  have hkeys : ((pairs.map row).map Prod.fst).Nodup := by rwa [List.map_map]
  have hmem : row pair ∈ (pairs.map row).foldl (Table.upsert Prod.fst) [] :=
    (Table.mem_foldl_upsert hkeys).mpr (.inl (List.mem_map_of_mem hpair))
  have hnodup := @Table.nodup_foldl_upsert _ _ [] _ Prod.fst (pairs.map row) List.nodup_nil
  have hfind := Table.find?_of_key hnodup hmem
  rw [Attributes.get, hfold, hfind]
  rfl

/-! ## The line -/

theorem head_attributes {pairs : List (List Char × List Char)}
    (h : ∀ pair ∈ pairs, WellQuoted pair) :
    ∀ c ∈ (pairs.flatMap quotedAttribute).tail.head?, isWordChar c = true := by
  intro c hc
  cases pairs with
  | nil => cases hc
  | cons pair pairs =>
    obtain ⟨key, value⟩ := pair
    have hpair := h (key, value) List.mem_cons_self
    obtain ⟨d, key, rfl⟩ := List.exists_cons_of_ne_nil hpair.key_ne_nil
    obtain rfl : d = c := by simpa [quotedAttribute] using hc
    exact hpair.key_chars d List.mem_cons_self

theorem last_attributes (pairs : List (List Char × List Char)) :
    ∀ c ∈ (pairs.flatMap quotedAttribute).getLast?, c = quotationMark := by
  intro c hc
  rcases List.eq_nil_or_concat pairs with rfl | ⟨pairs, pair, rfl⟩
  · cases hc
  · rw [List.concat_eq_append, List.flatMap_append, List.flatMap_singleton, quotedAttribute,
      ← List.append_assoc, List.getLast?_concat] at hc
    exact (Option.some.inj hc).symm

theorem isWhitespace_of_isWordChar {c : Char} (h : isWordChar c = true) :
    Text.isWhitespace c = false := (isWordChar_iff.mp h).2.1

/-- The text of the attributes without the space before the first one. -/
theorem trim_attributes {pairs : List (List Char × List Char)}
    (h : ∀ pair ∈ pairs, WellQuoted pair) :
    Text.trim (pairs.flatMap quotedAttribute) = (pairs.flatMap quotedAttribute).tail := by
  have htail : Text.trim (pairs.flatMap quotedAttribute) =
      Text.trim (pairs.flatMap quotedAttribute).tail := by
    cases pairs with
    | nil => rfl
    | cons pair pairs =>
      have hspace : Text.isWhitespace ' ' = true := by decide
      simp only [List.flatMap_cons, quotedAttribute, List.cons_append, List.tail_cons, Text.trim,
        Text.trimStart, List.dropWhile_cons_of_pos hspace]
  rw [htail, Text.trim_of_visible]
  · exact fun c hc => isWhitespace_of_isWordChar (head_attributes h c hc)
  · intro c hc
    rw [List.getLast?_tail] at hc
    split_ifs at hc
    · cases hc
    · rw [last_attributes pairs c hc]
      decide

/-- The attributes of a line, without the space before them. -/
theorem parseAttributes_trimmed (debug : String → String) (number : Nat)
    {attributes : Attributes} {pairs : List (List Char × List Char)}
    (h : ∀ pair ∈ pairs, WellQuoted pair) :
    parseAttributes debug number attributes (Text.trim (pairs.flatMap quotedAttribute)) =
      (pairs.foldl insertPair attributes, []) := by
  rw [trim_attributes h]
  refine parseAttributes_pairs debug number h ?_
  cases hhead : (pairs.flatMap quotedAttribute).tail with
  | nil => rfl
  | cons c rest =>
    have hc := head_attributes h c (by rw [hhead]; rfl)
    have hkey := (isWordChar_iff.mp hc).1
    simp only [isKeyChar, Bool.and_eq_true, Bool.not_eq_true'] at hkey
    exact List.dropWhile_cons_of_neg (by simp [hkey.1])

section Line

variable {Url Duration : Type} {env : M3uEnv Url Duration}

/-- The reader gets the duration, the attributes and the trimmed title. -/
theorem parseExtinf_written {word title : List Char} {duration : Duration}
    {pairs : List (List Char × List Char)} (hword : ∀ c ∈ word, isWordChar c = true)
    (hne : word ≠ []) (hduration : env.parseDuration (String.ofList word) = some duration)
    (hpairs : ∀ pair ∈ pairs, WellQuoted pair) (number : Nat) :
    parseExtinf env ("#EXTINF:".toList ++ (word ++ pairs.flatMap quotedAttribute ++ ',' :: title))
        number =
      ({ durationSeconds := some duration, title := String.ofList (Text.trim title)
         attributes := pairs.foldl insertPair []
         rawExtinf := String.ofList
           ("#EXTINF:".toList ++ (word ++ pairs.flatMap quotedAttribute ++ ',' :: title))
         line := number }, [], []) := by
  have hvisible : ∀ c ∈ word, Text.isWhitespace c = false :=
    fun c hc => isWhitespace_of_isWordChar (hword c hc)
  have hsplit : splitTitle none (word ++ pairs.flatMap quotedAttribute ++ ',' :: title) =
      (word ++ pairs.flatMap quotedAttribute, title) := by
    rw [List.append_assoc, splitTitle_word hword, splitTitle_attributes hpairs]
  have htrim : Text.trim (word ++ pairs.flatMap quotedAttribute) =
      word ++ pairs.flatMap quotedAttribute := by
    refine Text.trim_of_visible (fun c hc => ?_) fun c hc => ?_
    · rw [List.head?_append_of_ne_nil word hne] at hc
      exact hvisible c (List.mem_of_head? hc)
    · rw [List.getLast?_append] at hc
      cases hlast : (pairs.flatMap quotedAttribute).getLast? with
      | none =>
        rw [hlast, Option.none_or] at hc
        exact hvisible c (List.mem_of_getLast? hc)
      | some d =>
        rw [hlast, Option.some_or] at hc
        obtain rfl := Option.some.inj hc
        rw [last_attributes pairs d hlast]
        decide
  have hspace : (!Text.isWhitespace ' ') = false := by decide
  have hwords : ∀ c ∈ word, (!Text.isWhitespace c) = true := fun c hc => by simp [hvisible c hc]
  have htake : (word ++ pairs.flatMap quotedAttribute).takeWhile (fun c => !Text.isWhitespace c) =
      word := by
    rw [List.takeWhile_append_of_pos hwords]
    cases pairs with
    | nil => simp
    | cons pair pairs =>
      simp only [List.flatMap_cons, quotedAttribute, List.cons_append,
        List.takeWhile_cons, hspace, Bool.false_eq_true, if_false, List.append_nil]
  have hdrop : (word ++ pairs.flatMap quotedAttribute).dropWhile (fun c => !Text.isWhitespace c) =
      pairs.flatMap quotedAttribute := by
    rw [List.dropWhile_append_of_pos hwords]
    cases pairs with
    | nil => rfl
    | cons pair pairs =>
      simp only [List.flatMap_cons, quotedAttribute, List.cons_append,
        List.dropWhile_cons, hspace, Bool.false_eq_true, if_false]
  have hlength : "#EXTINF:".length = "#EXTINF:".toList.length := rfl
  unfold parseExtinf
  rw [hlength, List.drop_left, hsplit]
  simp only [htrim, htake, hdrop, parseAttributes_trimmed env.debug number hpairs]
  rw [parseExtinfDuration, if_neg hne, hduration]

end Line

end IptvRelay.Parsers
