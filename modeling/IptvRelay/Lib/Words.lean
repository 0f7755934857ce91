import Mathlib.Data.List.TakeWhile
import IptvRelay.Lib.Text

/-!
# Words of texts

How the words of a text come from the words of its parts. Between two parts a word can be
joined, and nothing else can happen.
-/

namespace Text

variable {a b text word : List Char}

def endsWord (text : List Char) : Bool := text.getLast?.any fun c => !isWhitespace c

def startsWord (text : List Char) : Bool := text.head?.any fun c => !isWhitespace c

/-- Nothing but whitespace. -/
def isBlank (text : List Char) : Bool := text.all isWhitespace

/-! ## Words from the left -/

theorem wordsFrom_ne_nil (h : word ≠ []) (text : List Char) :
    wordsFrom word text = (word ++ text.takeWhile fun c => !isWhitespace c) ::
      splitWhitespace (text.dropWhile fun c => !isWhitespace c) := by
  induction text generalizing word with
  | nil => simp [wordsFrom, splitWhitespace, h]
  | cons c rest ih =>
    by_cases hc : isWhitespace c = true
    · simp [wordsFrom, splitWhitespace, h, hc]
    · simp [wordsFrom, hc, ih]

/-- Behind a first part, only the word at its end matters. -/
theorem exists_wordsFrom_append (word text : List Char) :
    ∃ done last, (∀ rest, wordsFrom word (text ++ rest) = done ++ wordsFrom last rest) ∧
      (last = [] ↔ (text = [] ∧ word = []) ∨ (text ≠ [] ∧ endsWord text = false)) := by
  induction text generalizing word with
  | nil => exact ⟨[], word, fun _ => rfl, by simp⟩
  | cons c text ih =>
    have hend : ∀ next : List Char, (text = [] ∧ next = [] ∨ text ≠ [] ∧ endsWord text = false) ↔
        (text = [] ∧ next = []) ∨ (text ≠ [] ∧ endsWord (c :: text) = false) := by
      intro next
      cases text with
      | nil => simp
      | cons d text => simp [endsWord]
    by_cases hc : isWhitespace c = true
    · obtain ⟨done, last, hrest, hlast⟩ := ih []
      refine ⟨if word = [] then done else word :: done, last, fun rest => ?_, ?_⟩
      · by_cases hword : word = []
        · simp [wordsFrom, hc, hword, hrest]
        · simp [wordsFrom, hc, hword, hrest]
      · rw [hlast, hend]
        cases text with
        | nil => simp [endsWord, hc]
        | cons d text => simp
    · obtain ⟨done, last, hrest, hlast⟩ := ih (word ++ [c])
      refine ⟨done, last, fun rest => by simp [wordsFrom, hc, hrest], ?_⟩
      rw [hlast, hend]
      cases text with
      | nil => simp [endsWord, hc]
      | cons d text => simp

theorem exists_splitWhitespace_append (text : List Char) :
    ∃ done last, (∀ rest, splitWhitespace (text ++ rest) = done ++ wordsFrom last rest) ∧
      (last = [] ↔ endsWord text = false) := by
  obtain ⟨done, last, hrest, hlast⟩ := exists_wordsFrom_append [] text
  refine ⟨done, last, hrest, hlast.trans ?_⟩
  cases text with
  | nil => simp [endsWord]
  | cons c text => simp

/-! ## Two parts -/

/-- Parts that do not join a word have their words one after the other. -/
theorem splitWhitespace_append (h : ¬(endsWord a = true ∧ startsWord b = true)) :
    splitWhitespace (a ++ b) = splitWhitespace a ++ splitWhitespace b := by
  obtain ⟨done, last, hrest, hlast⟩ := exists_splitWhitespace_append a
  have ha : splitWhitespace a = done ++ wordsFrom last [] := by simpa using hrest []
  rw [hrest, ha, List.append_assoc]
  congr 1
  by_cases hnil : last = []
  · simp [hnil, wordsFrom, splitWhitespace]
  · have hends : endsWord a = true := by simpa using hlast.not.mp hnil
    cases b with
    | nil => simp [splitWhitespace, wordsFrom, hnil]
    | cons c rest =>
      have hc : isWhitespace c = true := by
        by_contra hc
        exact h ⟨hends, by simp [startsWord, hc]⟩
      simp [splitWhitespace, wordsFrom, hnil, hc]

/-- A word that is joined is one word less. -/
theorem length_splitWhitespace_join (ha : endsWord a = true) (hb : startsWord b = true) :
    (splitWhitespace (a ++ b)).length + 1 =
      (splitWhitespace a).length + (splitWhitespace b).length := by
  obtain ⟨done, last, hrest, hlast⟩ := exists_splitWhitespace_append a
  have hne : last ≠ [] := fun hnil => by simp [hlast.mp hnil] at ha
  have hsplit : splitWhitespace a = done ++ wordsFrom last [] := by simpa using hrest []
  cases b with
  | nil => simp [startsWord] at hb
  | cons c rest =>
    have hc : isWhitespace c = false := by simpa [startsWord] using hb
    have hright : splitWhitespace (c :: rest) = wordsFrom [c] rest := by
      simp [splitWhitespace, wordsFrom, hc]
    rw [hrest, hsplit, hright, wordsFrom_ne_nil hne, wordsFrom_ne_nil (List.cons_ne_nil c [])]
    simp [wordsFrom, hne, hc]
    omega

/-! ## Many parts -/

/-- No word goes from a part to a later one. -/
def Separate : List (List Char) → Prop
  | [] => True
  | part :: rest => ¬(endsWord part = true ∧ startsWord rest.flatten = true) ∧ Separate rest

theorem length_splitWhitespace_flatten_le (parts : List (List Char)) :
    (splitWhitespace parts.flatten).length ≤ (parts.flatMap splitWhitespace).length := by
  induction parts with
  | nil => exact Nat.le_refl _
  | cons part rest ih =>
    rw [List.flatten_cons, List.flatMap_cons, List.length_append]
    by_cases hjoin : endsWord part = true ∧ startsWord rest.flatten = true
    · have hless := length_splitWhitespace_join hjoin.1 hjoin.2
      omega
    · rw [splitWhitespace_append hjoin, List.length_append]
      omega

/-- The words are those of the parts exactly if none is joined. -/
theorem splitWhitespace_flatten_iff (parts : List (List Char)) :
    splitWhitespace parts.flatten = parts.flatMap splitWhitespace ↔ Separate parts := by
  induction parts with
  | nil => exact ⟨fun _ => trivial, fun _ => rfl⟩
  | cons part rest ih =>
    rw [List.flatten_cons, List.flatMap_cons, Separate]
    constructor
    · intro h
      have hnot : ¬(endsWord part = true ∧ startsWord rest.flatten = true) := by
        intro hjoin
        have hless := length_splitWhitespace_join hjoin.1 hjoin.2
        have hmore := length_splitWhitespace_flatten_le rest
        have hlength := congrArg List.length h
        rw [List.length_append] at hlength
        omega
      rw [splitWhitespace_append hnot] at h
      exact ⟨hnot, ih.mp (List.append_cancel_left h)⟩
    · rintro ⟨hnot, hrest⟩
      rw [splitWhitespace_append hnot, ih.mpr hrest]

/-! ## Characters of words -/

theorem flatten_wordsFrom (word text : List Char) :
    (wordsFrom word text).flatten = word ++ text.filter fun c => !isWhitespace c := by
  induction text generalizing word with
  | nil => by_cases h : word = [] <;> simp [wordsFrom, h]
  | cons c rest ih =>
    by_cases hc : isWhitespace c = true
    · by_cases h : word = [] <;> simp [wordsFrom, h, hc, ih]
    · simp [wordsFrom, hc, ih]

theorem flatten_splitWhitespace (text : List Char) :
    (splitWhitespace text).flatten = text.filter fun c => !isWhitespace c := flatten_wordsFrom [] text

theorem splitWhitespace_eq_nil_iff : splitWhitespace text = [] ↔ isBlank text = true := by
  induction text with
  | nil => simp [splitWhitespace, wordsFrom, isBlank]
  | cons c rest ih =>
    by_cases hc : isWhitespace c = true
    · simpa [splitWhitespace, wordsFrom, isBlank, hc] using ih
    · simp [splitWhitespace, wordsFrom, isBlank, hc, wordsFrom_ne_nil]

theorem wordsFrom_words (hword : ∀ c ∈ word, isWhitespace c = false) (text : List Char) :
    ∀ w ∈ wordsFrom word text, w ≠ [] ∧ ∀ c ∈ w, isWhitespace c = false := by
  induction text generalizing word with
  | nil =>
    intro w hw
    by_cases hnil : word = []
    · simp [wordsFrom, hnil] at hw
    · obtain rfl : w = word := by simpa [wordsFrom, hnil] using hw
      exact ⟨hnil, hword⟩
  | cons c rest ih =>
    intro w hw
    have hempty : ∀ c ∈ ([] : List Char), isWhitespace c = false := by simp
    by_cases hc : isWhitespace c = true
    · by_cases hnil : word = []
      · exact ih hempty w (by simpa [wordsFrom, hc, hnil] using hw)
      · have hw : w = word ∨ w ∈ wordsFrom [] rest := by
          simpa [wordsFrom, hc, hnil] using hw
        rcases hw with rfl | hw
        · exact ⟨hnil, hword⟩
        · exact ih hempty w hw
    · refine ih ?_ w (by simpa [wordsFrom, hc] using hw)
      intro d hd
      rcases List.mem_append.mp hd with hd | hd
      · exact hword d hd
      · rw [List.mem_singleton.mp hd]
        simpa using hc

/-- A word is followed by the other words. -/
theorem splitWhitespace_word (hne : word ≠ []) (hword : ∀ c ∈ word, isWhitespace c = false)
    (h : startsWord text = false) :
    splitWhitespace (word ++ text) = word :: splitWhitespace text := by
  have hsingle : splitWhitespace word = [word] := by
    cases word with
    | nil => exact absurd rfl hne
    | cons c rest =>
      obtain ⟨hc, hrest⟩ := List.forall_mem_cons.mp hword
      have htake : rest.takeWhile (fun c => !isWhitespace c) = rest :=
        List.takeWhile_eq_self_iff.mpr (by simpa using hrest)
      have hdrop : rest.dropWhile (fun c => !isWhitespace c) = [] :=
        List.dropWhile_eq_nil_iff.mpr (by simpa using hrest)
      simp [splitWhitespace, wordsFrom, hc, wordsFrom_ne_nil, htake, hdrop]
  rw [splitWhitespace_append (fun hjoin => by simp [h] at hjoin), hsingle, List.singleton_append]

/-- Collapsed texts have the same words. -/
theorem splitWhitespace_collapse (text : List Char) :
    splitWhitespace (collapseWhitespace text) = splitWhitespace text := by
  have hwords : ∀ words : List (List Char),
      (∀ w ∈ words, w ≠ [] ∧ ∀ c ∈ w, isWhitespace c = false) →
      splitWhitespace (List.intercalate [' '] words) = words := by
    intro words hwords
    induction words with
    | nil => rfl
    | cons first words ih =>
      obtain ⟨⟨hne, hfirst⟩, hrest⟩ := List.forall_mem_cons.mp hwords
      cases words with
      | nil =>
        have hsingle : splitWhitespace (first ++ []) = first :: splitWhitespace [] :=
          splitWhitespace_word hne hfirst rfl
        simpa [List.intercalate, splitWhitespace, wordsFrom] using hsingle
      | cons second words =>
        have hspace : List.intercalate [' '] (first :: second :: words) =
            first ++ (' ' :: List.intercalate [' '] (second :: words)) := by
          simp [List.intercalate]
        have hc : isWhitespace ' ' = true := by decide
        have hskip : ∀ rest, splitWhitespace (' ' :: rest) = splitWhitespace rest := by
          intro rest
          simp [splitWhitespace, wordsFrom, hc]
        rw [hspace, splitWhitespace_word hne hfirst (by simp [startsWord, hc]), hskip, ih hrest]
  exact hwords _ (wordsFrom_words (by simp) text)

theorem collapseWhitespace_eq_iff :
    collapseWhitespace a = collapseWhitespace b ↔ splitWhitespace a = splitWhitespace b := by
  constructor
  · intro h
    rw [← splitWhitespace_collapse a, h, splitWhitespace_collapse]
  · intro h
    rw [collapseWhitespace, h, collapseWhitespace]

/-! ## Blank ends -/

theorem startsWord_of_blank (h : isBlank text = true) : startsWord text = false := by
  cases text with
  | nil => rfl
  | cons c rest =>
    have hc : isWhitespace c = true := by
      have := List.all_eq_true.mp h c List.mem_cons_self
      exact this
    simp [startsWord, hc]

theorem endsWord_of_blank (h : isBlank text = true) : endsWord text = false := by
  cases hlast : text.getLast? with
  | none => simp [endsWord, hlast]
  | some c =>
    have hc := List.all_eq_true.mp h c (List.mem_of_getLast? hlast)
    simp [endsWord, hlast, hc]

/-- Whitespace around a text changes no word. -/
theorem splitWhitespace_around (ha : isBlank a = true) (hb : isBlank b = true) :
    splitWhitespace (a ++ text ++ b) = splitWhitespace text := by
  rw [splitWhitespace_append (by simp [startsWord_of_blank hb]),
    splitWhitespace_append (by simp [endsWord_of_blank ha]), splitWhitespace_eq_nil_iff.mpr ha,
    splitWhitespace_eq_nil_iff.mpr hb, List.nil_append, List.append_nil]

/-- A text between what is dropped at its ends. -/
theorem exists_trimmed (p : Char → Bool) (text : List Char) :
    ∃ before after, text = before ++ ((text.dropWhile p).reverse.dropWhile p).reverse ++ after ∧
      (∀ c ∈ before, p c = true) ∧ ∀ c ∈ after, p c = true := by
  refine ⟨text.takeWhile p, ((text.dropWhile p).reverse.takeWhile p).reverse, ?_, ?_, ?_⟩
  · rw [List.append_assoc, ← List.reverse_append, List.takeWhile_append_dropWhile,
      List.reverse_reverse, List.takeWhile_append_dropWhile]
  · exact fun c hc => List.mem_takeWhile_imp hc
  · intro c hc
    exact List.mem_takeWhile_imp (List.mem_reverse.mp hc)

theorem splitWhitespace_trim (text : List Char) : splitWhitespace (trim text) = splitWhitespace text := by
  obtain ⟨before, after, htext, hbefore, hafter⟩ := exists_trimmed isWhitespace text
  have h : splitWhitespace (before ++ trim text ++ after) = splitWhitespace (trim text) :=
    splitWhitespace_around (List.all_eq_true.mpr hbefore) (List.all_eq_true.mpr hafter)
  rw [← h]
  exact congrArg splitWhitespace htext.symm

/-! ## Whitespace at the ends -/

theorem trimStart_cons {c : Char} (hc : isWhitespace c = false) (rest : List Char) :
    trimStart (c :: rest) = c :: rest := List.dropWhile_cons_of_neg (by simp [hc])

/-- What stands behind a visible character is trimmed by itself. -/
theorem trimEnd_behind {c : Char} (hc : isWhitespace c = false) (text rest : List Char) :
    trimEnd (text ++ c :: rest) = text ++ c :: trimEnd rest := by
  unfold trimEnd trimStart
  rw [List.reverse_append, List.reverse_cons, List.append_assoc, List.dropWhile_append]
  by_cases hrest : rest.reverse.dropWhile isWhitespace = []
  · rw [hrest, List.isEmpty_nil, if_pos rfl, List.singleton_append,
      List.dropWhile_cons_of_neg (by simp [hc])]
    simp
  · rw [if_neg (by simpa using hrest)]
    simp

/-- A line from a visible character on loses the whitespace at its end. -/
theorem trim_line {c d : Char} (hc : isWhitespace c = false) (hd : isWhitespace d = false)
    (text rest : List Char) :
    trim (c :: text ++ d :: rest) = c :: text ++ d :: trimEnd rest := by
  rw [trim, List.cons_append, trimStart_cons hc, ← List.cons_append, trimEnd_behind hd]

/-- A text with visible characters at its ends stays. -/
theorem trim_of_visible {text : List Char} (hhead : ∀ c ∈ text.head?, isWhitespace c = false)
    (hlast : ∀ c ∈ text.getLast?, isWhitespace c = false) : trim text = text := by
  have hkept : ∀ text : List Char, (∀ c ∈ text.head?, isWhitespace c = false) →
      trimStart text = text := by
    intro text h
    cases text with
    | nil => rfl
    | cons c rest => exact trimStart_cons (h c rfl) rest
  rw [trim, hkept text hhead, trimEnd, hkept, List.reverse_reverse]
  rwa [List.head?_reverse]

theorem trimStart_append_blank (text : List Char) {blank : List Char}
    (hblank : ∀ c ∈ blank, isWhitespace c = true) :
    ∃ tail, (∀ c ∈ tail, isWhitespace c = true) ∧
      trimStart (text ++ blank) = trimStart text ++ tail := by
  unfold trimStart
  rw [List.dropWhile_append]
  split_ifs with hempty
  · refine ⟨[], fun c hc => absurd hc List.not_mem_nil, ?_⟩
    rw [List.dropWhile_eq_nil_iff.mpr hblank, List.isEmpty_iff.mp hempty, List.append_nil]
  · exact ⟨blank, hblank, rfl⟩

theorem trimEnd_append_blank (text : List Char) {blank : List Char}
    (hblank : ∀ c ∈ blank, isWhitespace c = true) : trimEnd (text ++ blank) = trimEnd text := by
  unfold trimEnd trimStart
  rw [List.reverse_append, List.dropWhile_append,
    List.dropWhile_eq_nil_iff.mpr fun c hc => hblank c (List.mem_reverse.mp hc), List.isEmpty_nil,
    if_pos rfl]

theorem exists_trimEnd (text : List Char) :
    ∃ blank, text = trimEnd text ++ blank ∧ ∀ c ∈ blank, isWhitespace c = true := by
  refine ⟨(text.reverse.takeWhile isWhitespace).reverse, ?_, fun c hc =>
    List.mem_takeWhile_imp (List.mem_reverse.mp hc)⟩
  rw [trimEnd, trimStart, ← List.reverse_append, List.takeWhile_append_dropWhile,
    List.reverse_reverse]

/-- Trimming the end first changes nothing. -/
theorem trim_trimEnd (text : List Char) : trim (trimEnd text) = trim text := by
  obtain ⟨blank, hsplit, hblank⟩ := exists_trimEnd text
  obtain ⟨tail, htail, heq⟩ := trimStart_append_blank (trimEnd text) hblank
  rw [← hsplit] at heq
  rw [trim, trim, heq, trimEnd_append_blank _ htail]

end Text
