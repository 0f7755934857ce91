import IptvRelay.Lib.Text
import Mathlib.Data.List.Nodup
import Mathlib.Data.List.TakeWhile

/-!
# XML documents

A reader for the documents of XML 1.0 that have an XML declaration and no comments, sections,
processing instructions or document type. A document is a sequence of tags with the character
data before each of them. `read` normalizes line ends and attribute values and resolves the
references that need no declaration. `render` writes the tags with escaped values, and reading
gives the values back.
-/

namespace Xml

/-! ## Characters -/

/-- The production `Char`. -/
def isChar (c : Char) : Bool :=
  let n := c.toNat
  n = 0x9 ∨ n = 0xA ∨ n = 0xD ∨ (0x20 ≤ n ∧ n ≤ 0xD7FF) ∨ (0xE000 ≤ n ∧ n ≤ 0xFFFD) ∨
    (0x10000 ≤ n ∧ n ≤ 0x10FFFF)

/-- The production `S`. -/
def isSpace (c : Char) : Bool := c = ' ' ∨ c = '\t' ∨ c = '\r' ∨ c = '\n'

def isNameStart (c : Char) : Bool :=
  let n := c.toNat
  c = ':' ∨ c = '_' ∨ (0x41 ≤ n ∧ n ≤ 0x5A) ∨ (0x61 ≤ n ∧ n ≤ 0x7A) ∨ (0xC0 ≤ n ∧ n ≤ 0xD6) ∨
    (0xD8 ≤ n ∧ n ≤ 0xF6) ∨ (0xF8 ≤ n ∧ n ≤ 0x2FF) ∨ (0x370 ≤ n ∧ n ≤ 0x37D) ∨
    (0x37F ≤ n ∧ n ≤ 0x1FFF) ∨ (0x200C ≤ n ∧ n ≤ 0x200D) ∨ (0x2070 ≤ n ∧ n ≤ 0x218F) ∨
    (0x2C00 ≤ n ∧ n ≤ 0x2FEF) ∨ (0x3001 ≤ n ∧ n ≤ 0xD7FF) ∨ (0xF900 ≤ n ∧ n ≤ 0xFDCF) ∨
    (0xFDF0 ≤ n ∧ n ≤ 0xFFFD) ∨ (0x10000 ≤ n ∧ n ≤ 0xEFFFF)

def isNameChar (c : Char) : Bool :=
  let n := c.toNat
  isNameStart c ∨ c = '-' ∨ c = '.' ∨ (0x30 ≤ n ∧ n ≤ 0x39) ∨ n = 0xB7 ∨
    (0x300 ≤ n ∧ n ≤ 0x36F) ∨ (0x203F ≤ n ∧ n ≤ 0x2040)

def isName (name : List Char) : Bool :=
  (name.head?.any isNameStart) && name.all isNameChar

def quotationMark : Char := Char.ofNat 34

def apostrophe : Char := Char.ofNat 39

/-- A line ends with a line feed, also where the text has a carriage return. -/
def normalizeLineEnds : List Char → List Char
  | [] => []
  | '\r' :: '\n' :: rest => '\n' :: normalizeLineEnds rest
  | '\r' :: rest => '\n' :: normalizeLineEnds rest
  | c :: rest => c :: normalizeLineEnds rest

/-! ## References -/

/-- The digits of a character reference. -/
def charReference (base : Nat) (digits : List Char) : Option Char :=
  let value (c : Char) : Nat :=
    if c.isDigit then c.toNat - 48
    else if 97 ≤ c.toNat ∧ c.toNat ≤ 102 then c.toNat - 87
    else if 65 ≤ c.toNat ∧ c.toNat ≤ 70 then c.toNat - 55
    else base
  let code := digits.foldl (fun code c => code * base + value c) 0
  if digits ≠ [] ∧ (digits.all fun c => value c < base) ∧ isChar (Char.ofNat code) then
    some (Char.ofNat code)
  else none

/-- The character of a reference, by the text between `&` and `;`. -/
def reference : List Char → Option Char
  | '#' :: 'x' :: digits => charReference 16 digits
  | '#' :: digits => charReference 10 digits
  | name =>
    if name = "amp".toList then some '&'
    else if name = "lt".toList then some '<'
    else if name = "gt".toList then some '>'
    else if name = "quot".toList then some quotationMark
    else if name = "apos".toList then some apostrophe
    else none

/-- Text with its references resolved; `literal` says what becomes of the other characters. The
characters behind an open ampersand are collected. -/
def decodeFrom (literal : Char → Char) : Option (List Char) → List Char → Option (List Char)
  | none, [] => some []
  | some _, [] => none
  | none, c :: rest =>
    if c = '&' then decodeFrom literal (some []) rest
    else if c = '<' then none
    else (decodeFrom literal none rest).map (literal c :: ·)
  | some name, c :: rest =>
    if c = ';' then
      (reference name).bind fun c => (decodeFrom literal none rest).map (c :: ·)
    else decodeFrom literal (some (name ++ [c])) rest

/-- The end of a section may not stand in character data. -/
def hasSectionEnd : List Char → Bool
  | ']' :: ']' :: '>' :: _ => true
  | _ :: rest => hasSectionEnd rest
  | [] => false

/-- Character data. -/
def decodeText (text : List Char) : Option (List Char) :=
  if hasSectionEnd text then none else decodeFrom id none text

/-- White space in an attribute value reads as a blank. -/
def blank (c : Char) : Char := if isSpace c then ' ' else c

def decodeAttribute (text : List Char) : Option (List Char) := decodeFrom blank none text

/-! ## Tags -/

abbrev Attribute := List Char × List Char

inductive Tag where
  | start (name : List Char) (attributes : List Attribute)
  | close (name : List Char)
  | empty (name : List Char) (attributes : List Attribute)
  deriving DecidableEq, Repr

/-- A tag and the character data before it. -/
structure Piece where
  text : List Char
  tag : Tag
  deriving DecidableEq, Repr

theorem splitOnce_length {c : Char} {text before after : List Char}
    (h : Text.splitOnce c text = some (before, after)) :
    before.length + after.length < text.length := by
  induction text generalizing before with
  | nil => cases h
  | cons d text ih =>
    unfold Text.splitOnce at h
    split at h
    · obtain ⟨rfl, rfl⟩ := Prod.mk.inj (Option.some.inj h)
      simp
    · obtain ⟨⟨head, tail⟩, hsplit, heq⟩ := Option.map_eq_some_iff.mp h
      obtain ⟨rfl, rfl⟩ := Prod.mk.inj heq
      have hlen : head.length + tail.length < text.length := ih hsplit
      simp only [List.length_cons]
      omega

theorem splitOnce_append {c : Char} {before after : List Char} (h : c ∉ before) :
    Text.splitOnce c (before ++ c :: after) = some (before, after) := by
  induction before with
  | nil => simp [Text.splitOnce]
  | cons d before ih =>
    obtain ⟨hne, hrest⟩ := not_or.mp (List.mem_cons.not.mp h)
    simp only [List.cons_append, Text.splitOnce, if_neg (Ne.symm hne), ih hrest, Option.map_some]

theorem splitOnce_none {c : Char} {text : List Char} (h : c ∉ text) :
    Text.splitOnce c text = none := by
  induction text with
  | nil => rfl
  | cons d text ih =>
    obtain ⟨hne, hrest⟩ := not_or.mp (List.mem_cons.not.mp h)
    simp only [Text.splitOnce, if_neg (Ne.symm hne), ih hrest, Option.map_none]

/-- Up to the end of a tag: a `>` between quotes does not end it. -/
def tagEnd : Option Char → List Char → Option (List Char × List Char)
  | _, [] => none
  | none, c :: rest =>
    if c = '>' then some ([], rest)
    else
      (tagEnd (if c = quotationMark ∨ c = apostrophe then some c else none) rest).map
        fun parts => (c :: parts.1, parts.2)
  | some quote, c :: rest =>
    (tagEnd (if c = quote then none else some quote) rest).map
      fun parts => (c :: parts.1, parts.2)

theorem tagEnd_length {quote : Option Char} {text inside rest : List Char}
    (h : tagEnd quote text = some (inside, rest)) : rest.length < text.length := by
  induction text generalizing quote inside with
  | nil =>
    cases quote with
    | none => cases h
    | some quote => cases h
  | cons c text ih =>
    have hmap : ∀ {quote : Option Char},
        (tagEnd quote text).map (fun parts => (c :: parts.1, parts.2)) = some (inside, rest) →
          rest.length < (c :: text).length := by
      intro quote hmap
      obtain ⟨⟨head, tail⟩, hend, heq⟩ := Option.map_eq_some_iff.mp hmap
      obtain ⟨-, rfl⟩ := Prod.mk.inj heq
      exact Nat.lt_succ_of_lt (ih hend)
    cases quote with
    | none =>
      unfold tagEnd at h
      split at h
      · obtain ⟨-, rfl⟩ := Prod.mk.inj (Option.some.inj h)
        exact Nat.lt_succ_self _
      · exact hmap h
    | some quote => exact hmap h

def trimEnd (text : List Char) : List Char := (text.reverse.dropWhile isSpace).reverse

/-- `Name S? '=' S?` and a value between quotes, and what follows. -/
def readAttribute (text : List Char) : Option (Attribute × List Char) := do
  let (name, value) ← Text.splitOnce '=' text
  match value.dropWhile isSpace with
  | [] => none
  | quote :: value =>
    if quote = quotationMark ∨ quote = apostrophe then do
      let (value, after) ← Text.splitOnce quote value
      let value ← decodeAttribute value
      if isName (trimEnd name) then return ((trimEnd name, value), after) else none
    else none

theorem readAttribute_length {text after : List Char} {entry : Attribute}
    (h : readAttribute text = some (entry, after)) : after.length < text.length := by
  obtain ⟨⟨name, value⟩, hname, h⟩ := Option.bind_eq_some_iff.mp h
  have hfirst := splitOnce_length hname
  simp only at h
  split at h
  · cases h
  · rename_i quote tail hvalue
    split at h
    · obtain ⟨⟨inside, rest⟩, hend, h⟩ := Option.bind_eq_some_iff.mp h
      obtain ⟨decoded, -, h⟩ := Option.bind_eq_some_iff.mp h
      have hlast := splitOnce_length hend
      have htrim := (List.dropWhile_suffix (l := value) isSpace).length_le
      rw [hvalue, List.length_cons] at htrim
      split at h
      · obtain ⟨-, rfl⟩ := Prod.mk.inj (Option.some.inj h)
        have hrest : inside.length + rest.length < tail.length := hlast
        show rest.length < text.length
        omega
      · cases h
    · cases h

/-- Attributes with space before each of them and with distinct names. -/
def readAttributes (text : List Char) : Option (List Attribute) :=
  match _hrest : text.dropWhile isSpace with
  | [] => some []
  | c :: rest =>
    if text.head?.any isSpace then
      match _hread : readAttribute (c :: rest) with
      | none => none
      | some (entry, after) => do
        let others ← readAttributes after
        if entry.1 ∉ others.map Prod.fst then return entry :: others else none
    else none
termination_by text.length
decreasing_by
  have htrim := (List.dropWhile_suffix (l := text) isSpace).length_le
  rw [_hrest] at htrim
  exact Nat.lt_of_lt_of_le (readAttribute_length _hread) htrim

/-- The inside of a tag. -/
def readTag : List Char → Option Tag
  | '/' :: name =>
    if isName (trimEnd name) then some (.close (trimEnd name)) else none
  | inside =>
    let isEmpty := inside.getLast? = some '/'
    let inside := if isEmpty then inside.dropLast else inside
    let name := inside.takeWhile isNameChar
    if isName name then
      (readAttributes (inside.dropWhile isNameChar)).map fun attributes =>
        if isEmpty then .empty name attributes else .start name attributes
    else none

/-- The tags of a text, and the character data behind the last one. -/
def readPieces (text : List Char) : Option (List Piece × List Char) :=
  match _hsplit : Text.splitOnce '<' text with
  | none => (decodeText text).map fun trailing => ([], trailing)
  | some (before, after) =>
    match _hend : tagEnd none after with
    | none => none
    | some (inside, rest) => do
      let before ← decodeText before
      let tag ← readTag inside
      let (pieces, trailing) ← readPieces rest
      return ({ text := before, tag } :: pieces, trailing)
termination_by text.length
decreasing_by
  have hsplit := splitOnce_length _hsplit
  have hend := tagEnd_length _hend
  omega

/-! ## Documents -/

/-- Every element is closed by its own name, and the outermost one ends with the pieces. The stack
holds the names of the open elements. -/
def nests : List (List Char) → List Piece → Bool
  | stack, [] => stack = []
  | [], _ :: _ => false
  | name :: stack, piece :: rest =>
    match piece.tag with
    | .start inner _ => nests (inner :: name :: stack) rest
    | .empty _ _ => nests (name :: stack) rest
    | .close other => other = name && nests stack rest

/-- One element with nothing but space around it. -/
def isDocument (pieces : List Piece) (trailing : List Char) : Bool :=
  trailing.all isSpace &&
    match pieces with
    | [] => false
    | first :: rest =>
      first.text.all isSpace &&
        match first.tag with
        | .start name _ => nests [name] rest
        | .empty _ _ => rest = []
        | .close _ => false

def declaration : List Char := "<?xml version=\"1.0\" encoding=\"UTF-8\"?>".toList

/-- The tags of a well-formed document. -/
def read (document : List Char) : Option (List Piece × List Char) :=
  if document.all isChar ∧ declaration.isPrefixOf document then do
    let (pieces, trailing) ← readPieces (normalizeLineEnds (document.drop declaration.length))
    if isDocument pieces trailing then return (pieces, trailing) else none
  else none

/-! ## Writing -/

def escapeChar (c : Char) : List Char :=
  if c = '&' then "&amp;".toList
  else if c = '<' then "&lt;".toList
  else if c = '>' then "&gt;".toList
  else if c = quotationMark then "&quot;".toList
  else if c = apostrophe then "&apos;".toList
  else [c]

def escape (text : List Char) : List Char := text.flatMap escapeChar

def renderAttribute (entry : Attribute) : List Char :=
  ' ' :: entry.1 ++ ('=' :: quotationMark :: escape entry.2) ++ [quotationMark]

def renderTag : Tag → List Char
  | .start name attributes => name ++ attributes.flatMap renderAttribute
  | .close name => '/' :: name
  | .empty name attributes => name ++ attributes.flatMap renderAttribute ++ ['/']

def renderPiece (piece : Piece) : List Char :=
  escape piece.text ++ '<' :: renderTag piece.tag ++ ['>']

def render (pieces : List Piece) (trailing : List Char) : List Char :=
  declaration ++ pieces.flatMap renderPiece ++ escape trailing

/-! ## Line ends -/

variable {text : List Char} {c : Char}

theorem normalizeLineEnds_cons (hc : c ≠ '\r') (rest : List Char) :
    normalizeLineEnds (c :: rest) = c :: normalizeLineEnds rest := by
  rw [normalizeLineEnds.eq_def]
  split
  · simp_all
  · simp_all
  · simp_all
  · simp_all

theorem normalizeLineEnds_return (rest : List Char) (h : rest.head? ≠ some '\n') :
    normalizeLineEnds ('\r' :: rest) = '\n' :: normalizeLineEnds rest := by
  cases rest with
  | nil => rfl
  | cons d rest =>
    rw [normalizeLineEnds.eq_def]
    split
    · simp_all
    · simp_all
    · simp_all
    · rename_i other _ _ hother heq
      exact absurd (List.cons.inj heq).1.symm hother

/-- A character that is no part of a line end separates. -/
theorem normalizeLineEnds_append (hreturn : c ≠ '\r') (hfeed : c ≠ '\n') (rest : List Char) :
    normalizeLineEnds (text ++ c :: rest) =
      normalizeLineEnds text ++ c :: normalizeLineEnds rest := by
  induction text using normalizeLineEnds.induct with
  | case1 => exact normalizeLineEnds_cons hreturn rest
  | case2 more ih => simpa [normalizeLineEnds] using ih
  | case3 more hmore ih =>
    have hhead : (more ++ c :: rest).head? ≠ some '\n' := by
      cases more with
      | nil => simpa using hfeed
      | cons d more => simpa using fun h : d = '\n' => hmore more (by rw [h])
    have hend : more.head? ≠ some '\n' := by
      cases more with
      | nil => simp
      | cons d more => simpa using fun h : d = '\n' => hmore more (by rw [h])
    rw [List.cons_append, normalizeLineEnds_return _ hhead, normalizeLineEnds_return _ hend, ih]
    rfl
  | case4 d more hfirst hsecond ih =>
    have hd : d ≠ '\r' := fun h => hsecond h
    rw [List.cons_append, normalizeLineEnds_cons hd, normalizeLineEnds_cons hd, ih]
    rfl

theorem normalizeLineEnds_plain (h : '\r' ∉ text) (rest : List Char) :
    normalizeLineEnds (text ++ rest) = text ++ normalizeLineEnds rest := by
  induction text with
  | nil => rfl
  | cons d text ih =>
    obtain ⟨hd, hrest⟩ := not_or.mp (List.mem_cons.not.mp h)
    rw [List.cons_append, normalizeLineEnds_cons (Ne.symm hd), ih hrest]
    rfl

theorem mem_normalizeLineEnds {d : Char} (h : d ∈ normalizeLineEnds text) :
    d ∈ text ∨ d = '\n' := by
  induction text using normalizeLineEnds.induct with
  | case1 => cases h
  | case2 more ih =>
    rcases List.mem_cons.mp h with rfl | h
    · exact .inr rfl
    · exact (ih h).imp_left fun hmem => List.mem_cons_of_mem _ (List.mem_cons_of_mem _ hmem)
  | case3 more hmore ih =>
    have hend : more.head? ≠ some '\n' := by
      cases more with
      | nil => simp
      | cons d more => simpa using fun h : d = '\n' => hmore more (by rw [h])
    rw [normalizeLineEnds_return _ hend] at h
    rcases List.mem_cons.mp h with rfl | h
    · exact .inr rfl
    · exact (ih h).imp_left (List.mem_cons_of_mem _)
  | case4 e more hfirst hsecond ih =>
    rw [normalizeLineEnds_cons fun he => hsecond he] at h
    rcases List.mem_cons.mp h with rfl | h
    · exact .inl List.mem_cons_self
    · exact (ih h).imp_left (List.mem_cons_of_mem _)

/-! ## Escaped text -/

/-- The characters that `escape` replaces. -/
def isSpecial (c : Char) : Bool :=
  c = '&' ∨ c = '<' ∨ c = '>' ∨ c = quotationMark ∨ c = apostrophe

theorem escapeChar_plain (h : isSpecial c = false) : escapeChar c = [c] := by
  simp only [isSpecial, decide_eq_false_iff_not, not_or] at h
  simp [escapeChar, h]

@[simp] theorem escape_nil : escape [] = [] := rfl

theorem escape_cons (rest : List Char) : escape (c :: rest) = escapeChar c ++ escape rest := rfl

theorem eq_of_isSpecial (h : isSpecial c = true) :
    c = '&' ∨ c = '<' ∨ c = '>' ∨ c = quotationMark ∨ c = apostrophe := of_decide_eq_true h

/-- What an escaped character consists of. -/
theorem mem_escapeChar {d : Char} (h : d ∈ escapeChar c) :
    (d = c ∧ isSpecial c = false) ∨ d ∈ "&ampltgquos;".toList := by
  cases hc : isSpecial c with
  | false =>
    rw [escapeChar_plain hc, List.mem_singleton] at h
    exact .inl ⟨h, rfl⟩
  | true =>
    have hall : ((escapeChar c).all fun d => decide (d ∈ "&ampltgquos;".toList)) = true := by
      rcases eq_of_isSpecial hc with rfl | rfl | rfl | rfl | rfl
      all_goals decide
    exact .inr (of_decide_eq_true (List.all_eq_true.mp hall d h))

theorem not_mem_escape {d : Char} (h : isSpecial d = true) (hand : d ≠ '&') : d ∉ escape text := by
  intro hmem
  obtain ⟨c, -, hd⟩ := List.mem_flatMap.mp hmem
  rcases mem_escapeChar hd with ⟨rfl, hc⟩ | hd
  · rw [h] at hc
    cases hc
  · rcases eq_of_isSpecial h with rfl | rfl | rfl | rfl | rfl
    · exact hand rfl
    all_goals
      revert hd
      decide

theorem legal_references : ∀ c ∈ "&ampltgquos;".toList, isChar c = true :=
  List.all_eq_true.mp (by decide)

/-- Escaping neither adds nor hides an illegal character. -/
theorem escape_legal : (∀ c ∈ escape text, isChar c = true) ↔ ∀ c ∈ text, isChar c = true := by
  constructor
  · intro h c hc
    cases hspecial : isSpecial c with
    | true => rcases eq_of_isSpecial hspecial with rfl | rfl | rfl | rfl | rfl <;> decide
    | false =>
      refine h c (List.mem_flatMap.mpr ⟨c, hc, ?_⟩)
      rw [escapeChar_plain hspecial]
      exact List.mem_singleton_self c
  · intro h d hd
    obtain ⟨c, hc, hd⟩ := List.mem_flatMap.mp hd
    rcases mem_escapeChar hd with ⟨rfl, -⟩ | hd
    · exact h d hc
    · exact legal_references d hd

theorem normalizeLineEnds_escapeChar (h : c ≠ '\r') (rest : List Char) :
    normalizeLineEnds (escapeChar c ++ rest) = escapeChar c ++ normalizeLineEnds rest := by
  refine normalizeLineEnds_plain (fun hmem => ?_) rest
  rcases mem_escapeChar hmem with ⟨heq, -⟩ | hmem
  · exact h heq.symm
  · revert hmem
    decide

theorem head?_escape (rest : List Char) :
    (escape rest).head? = some '\n' ↔ rest.head? = some '\n' := by
  cases rest with
  | nil => simp [escape]
  | cons c rest =>
    cases hc : isSpecial c with
    | false => simp [escape_cons, escapeChar_plain hc]
    | true =>
      rw [escape_cons]
      rcases eq_of_isSpecial hc with rfl | rfl | rfl | rfl | rfl
      all_goals
        refine ⟨fun h => absurd h ?_, fun h => absurd (Option.some.inj h) (by decide)⟩
        rw [List.head?_append_of_ne_nil _ (by decide)]
        decide

/-- Line ends are the same before and after escaping. -/
theorem normalizeLineEnds_escape (text : List Char) :
    normalizeLineEnds (escape text) = escape (normalizeLineEnds text) := by
  induction text using normalizeLineEnds.induct with
  | case1 => rfl
  | case2 more ih =>
    show normalizeLineEnds ('\r' :: '\n' :: escape more) = '\n' :: escape (normalizeLineEnds more)
    rw [← ih]
    rfl
  | case3 more hmore ih =>
    have hend : more.head? ≠ some '\n' := by
      cases more with
      | nil => simp
      | cons d more => simpa using fun h : d = '\n' => hmore more (by rw [h])
    rw [normalizeLineEnds_return _ hend]
    show normalizeLineEnds ('\r' :: escape more) = '\n' :: escape (normalizeLineEnds more)
    rw [normalizeLineEnds_return _ fun h => hend ((head?_escape more).mp h), ih]
  | case4 d more hfirst hsecond ih =>
    have hd : d ≠ '\r' := fun h => hsecond h
    rw [escape_cons, normalizeLineEnds_escapeChar hd, normalizeLineEnds_cons hd, escape_cons, ih]

/-! ## Reading escaped text -/

variable {literal : Char → Char}

theorem decodeFrom_collect {name collected rest : List Char} (h : ';' ∉ name) :
    decodeFrom literal (some collected) (name ++ ';' :: rest) =
      (reference (collected ++ name)).bind fun c =>
        (decodeFrom literal none rest).map (c :: ·) := by
  induction name generalizing collected with
  | nil => simp [decodeFrom]
  | cons c name ih =>
    obtain ⟨hc, hname⟩ := not_or.mp (List.mem_cons.not.mp h)
    rw [List.cons_append, decodeFrom, if_neg (Ne.symm hc), ih hname, List.append_assoc]
    rfl

/-- An escaped character reads as itself. -/
theorem decodeFrom_escapeChar (hliteral : isSpecial c = true → literal c = c) (rest : List Char) :
    decodeFrom literal none (escapeChar c ++ rest) =
      (decodeFrom literal none rest).map (literal c :: ·) := by
  cases hc : isSpecial c with
  | false =>
    have hplain := hc
    simp only [isSpecial, decide_eq_false_iff_not, not_or] at hplain
    rw [escapeChar_plain hc, List.singleton_append, decodeFrom, if_neg hplain.1,
      if_neg hplain.2.1]
  | true =>
    rw [hliteral hc]
    have hcollect : ∀ {name : List Char}, ';' ∉ name → reference name = some c →
        decodeFrom literal none ('&' :: name ++ ';' :: rest) =
          (decodeFrom literal none rest).map (c :: ·) := by
      intro name hname hreference
      rw [List.cons_append, decodeFrom, if_pos rfl, decodeFrom_collect hname, List.nil_append,
        hreference]
      rfl
    rcases eq_of_isSpecial hc with rfl | rfl | rfl | rfl | rfl
    · exact @hcollect "amp".toList (by decide) (by decide)
    · exact @hcollect "lt".toList (by decide) (by decide)
    · exact @hcollect "gt".toList (by decide) (by decide)
    · exact @hcollect "quot".toList (by decide) (by decide)
    · exact @hcollect "apos".toList (by decide) (by decide)

theorem decodeFrom_escape (hliteral : ∀ c, isSpecial c = true → literal c = c)
    (text : List Char) : decodeFrom literal none (escape text) = some (text.map literal) := by
  induction text with
  | nil => rfl
  | cons c text ih =>
    rw [escape_cons, decodeFrom_escapeChar (hliteral c), ih]
    rfl

theorem hasSectionEnd_eq_false (h : '>' ∉ text) : hasSectionEnd text = false := by
  induction text using hasSectionEnd.induct with
  | case1 rest => simp at h
  | case2 c rest hother ih =>
    rw [hasSectionEnd]
    · exact ih fun hmem => h (List.mem_cons_of_mem c hmem)
    · exact hother
  | case3 => rfl

theorem decodeText_escape (text : List Char) : decodeText (escape text) = some text := by
  unfold decodeText
  rw [hasSectionEnd_eq_false (not_mem_escape (by decide) (by decide)),
    @decodeFrom_escape id (fun _ _ => rfl), List.map_id]
  rfl

theorem decodeAttribute_escape (text : List Char) :
    decodeAttribute (escape text) = some (text.map blank) := by
  refine decodeFrom_escape (fun c hc => ?_) text
  rcases eq_of_isSpecial hc with rfl | rfl | rfl | rfl | rfl <;> decide

/-! ## Reading tags -/

theorem not_isSpace_of_isNameChar (h : isNameChar c = true) : isSpace c = false := by
  cases hc : isSpace c with
  | false => rfl
  | true =>
    rcases of_decide_eq_true hc with rfl | rfl | rfl | rfl <;> exact absurd h (by decide)

/-- The characters that end a name, or that a tag is searched for. -/
def isDelimiter (c : Char) : Bool :=
  c = '=' ∨ c = '/' ∨ c = '<' ∨ c = '>' ∨ c = quotationMark ∨ c = apostrophe ∨ c = ' '

theorem isDelimiter_of_isNameChar (h : isNameChar c = true) : isDelimiter c = false := by
  cases hc : isDelimiter c with
  | false => rfl
  | true =>
    rcases of_decide_eq_true hc with rfl | rfl | rfl | rfl | rfl | rfl | rfl <;>
      exact absurd h (by decide)

theorem isChar_of_isNameChar (h : isNameChar c = true) : isChar c = true := by
  simp only [isNameChar, isNameStart, isChar, decide_eq_true_eq, ← Char.toNat_inj,
    Char.reduceToNat] at h ⊢
  omega

theorem delimiter_not_mem {name : List Char} (h : name.all isNameChar = true) {d : Char}
    (hd : isDelimiter d = true) : d ∉ name := by
  intro hmem
  rw [isDelimiter_of_isNameChar (List.all_eq_true.mp h d hmem)] at hd
  cases hd

theorem all_of_isName {name : List Char} (h : isName name = true) :
    name.all isNameChar = true := (Bool.and_eq_true_iff.mp h).2

theorem trimEnd_of_isName {name : List Char} (h : isName name = true) : trimEnd name = name := by
  unfold trimEnd
  rw [List.dropWhile_eq_self_iff.mpr, List.reverse_reverse]
  intro hlen
  have hmem := List.getElem_mem (l := name.reverse) hlen
  have hchar := List.all_eq_true.mp (all_of_isName h) _ (List.mem_reverse.mp hmem)
  rw [not_isSpace_of_isNameChar hchar]
  exact Bool.false_ne_true

theorem tagEnd_plain (h : ∀ c ∈ text, c ≠ '>' ∧ c ≠ quotationMark ∧ c ≠ apostrophe)
    (rest : List Char) :
    tagEnd none (text ++ rest) =
      (tagEnd none rest).map fun parts => (text ++ parts.1, parts.2) := by
  induction text with
  | nil => simp
  | cons c text ih =>
    obtain ⟨hend, hquote, happ⟩ := h c List.mem_cons_self
    rw [List.cons_append, tagEnd, if_neg hend, if_neg (by simp [hquote, happ]),
      ih fun d hd => h d (List.mem_cons_of_mem c hd), Option.map_map]
    rfl

theorem tagEnd_quoted {quote : Char} (h : quote ∉ text) (rest : List Char) :
    tagEnd (some quote) (text ++ quote :: rest) =
      (tagEnd none rest).map fun parts => (text ++ quote :: parts.1, parts.2) := by
  induction text with
  | nil => simp [tagEnd]
  | cons c text ih =>
    obtain ⟨hc, hrest⟩ := not_or.mp (List.mem_cons.not.mp h)
    rw [List.cons_append, tagEnd, if_neg (Ne.symm hc), ih hrest, Option.map_map]
    rfl

/-- Names are written as they are; no two attributes of a tag have the same name. -/
def Tag.wellNamed : Tag → Prop
  | .start name attributes | .empty name attributes =>
    isName name = true ∧ (∀ entry ∈ attributes, isName entry.1 = true) ∧
      (attributes.map Prod.fst).Nodup
  | .close name => isName name = true

theorem plain_of_isName {name : List Char} (h : isName name = true) :
    ∀ c ∈ name, c ≠ '>' ∧ c ≠ quotationMark ∧ c ≠ apostrophe := by
  intro c hc
  have hall := all_of_isName h
  refine ⟨?_, ?_, ?_⟩
  all_goals
    rintro rfl
    exact delimiter_not_mem hall (by decide) hc

theorem tagEnd_renderAttribute {entry : Attribute} (h : isName entry.1 = true)
    (rest : List Char) :
    tagEnd none (renderAttribute entry ++ rest) =
      (tagEnd none rest).map fun parts => (renderAttribute entry ++ parts.1, parts.2) := by
  have hname : ∀ c ∈ ' ' :: entry.1 ++ ['='], c ≠ '>' ∧ c ≠ quotationMark ∧ c ≠ apostrophe := by
    intro c hc
    rw [List.cons_append, List.mem_cons, List.mem_append, List.mem_singleton] at hc
    rcases hc with rfl | hc | rfl
    · decide
    · exact plain_of_isName h c hc
    · decide
  have hsplit : renderAttribute entry ++ rest =
      (' ' :: entry.1 ++ ['=']) ++
        quotationMark :: (escape entry.2 ++ quotationMark :: rest) := by
    simp [renderAttribute]
  rw [hsplit, tagEnd_plain hname, tagEnd, if_neg (by decide), if_pos (.inl rfl),
    tagEnd_quoted (not_mem_escape (by decide) (by decide)), Option.map_map, Option.map_map]
  simp only [renderAttribute, Function.comp_def, List.cons_append, List.append_assoc,
    List.nil_append]

theorem tagEnd_renderAttributes {attributes : List Attribute}
    (h : ∀ entry ∈ attributes, isName entry.1 = true) (rest : List Char) :
    tagEnd none (attributes.flatMap renderAttribute ++ rest) =
      (tagEnd none rest).map fun parts =>
        (attributes.flatMap renderAttribute ++ parts.1, parts.2) := by
  induction attributes with
  | nil => simp
  | cons entry attributes ih =>
    rw [List.flatMap_cons, List.append_assoc,
      tagEnd_renderAttribute (h entry List.mem_cons_self),
      ih fun other hother => h other (List.mem_cons_of_mem entry hother), Option.map_map]
    simp only [Function.comp_def, List.append_assoc]

/-- The search for the end of a tag finds it. -/
theorem tagEnd_renderTag {tag : Tag} (h : tag.wellNamed) (rest : List Char) :
    tagEnd none (renderTag tag ++ '>' :: rest) = some (renderTag tag, rest) := by
  have hend : tagEnd none ('>' :: rest) = some ([], rest) := by
    rw [tagEnd, if_pos rfl]
  have hslash : tagEnd none ('/' :: '>' :: rest) = some (['/'], rest) := by
    rw [tagEnd, if_neg (by decide), if_neg (by decide), hend]
    rfl
  cases tag with
  | start name attributes =>
    obtain ⟨hname, hentries, -⟩ := h
    rw [renderTag, List.append_assoc, tagEnd_plain (plain_of_isName hname),
      tagEnd_renderAttributes hentries, hend]
    simp
  | close name =>
    have hplain : ∀ c ∈ '/' :: name, c ≠ '>' ∧ c ≠ quotationMark ∧ c ≠ apostrophe := by
      intro c hc
      rcases List.mem_cons.mp hc with rfl | hc
      · decide
      · exact plain_of_isName h c hc
    rw [renderTag, tagEnd_plain hplain, hend]
    simp
  | empty name attributes =>
    obtain ⟨hname, hentries, -⟩ := h
    rw [renderTag, List.append_assoc, List.append_assoc, tagEnd_plain (plain_of_isName hname),
      tagEnd_renderAttributes hentries, List.singleton_append, hslash]
    simp

/-- A tag with other attribute values. -/
def Tag.mapValues (f : List Char → List Char) : Tag → Tag
  | .start name attributes => .start name (attributes.map fun entry => (entry.1, f entry.2))
  | .close name => .close name
  | .empty name attributes => .empty name (attributes.map fun entry => (entry.1, f entry.2))

/-- An attribute reads as its name and its value with blanks for white space. -/
def Attribute.observed (entry : Attribute) : Attribute := (entry.1, entry.2.map blank)

def Tag.observed (tag : Tag) : Tag := tag.mapValues fun value => value.map blank

theorem readAttribute_render {entry : Attribute} (h : isName entry.1 = true) (rest : List Char) :
    readAttribute (entry.1 ++ '=' :: quotationMark :: escape entry.2 ++ quotationMark :: rest) =
      some (entry.observed, rest) := by
  have hequals : '=' ∉ entry.1 := delimiter_not_mem (all_of_isName h) (by decide)
  have hspace : (quotationMark :: (escape entry.2 ++ quotationMark :: rest)).dropWhile isSpace =
      quotationMark :: (escape entry.2 ++ quotationMark :: rest) :=
    List.dropWhile_cons_of_neg (by decide)
  have hend : Text.splitOnce quotationMark (escape entry.2 ++ quotationMark :: rest) =
      some (escape entry.2, rest) :=
    splitOnce_append (not_mem_escape (by decide) (by decide))
  rw [List.append_assoc]
  simp only [readAttribute, List.cons_append, splitOnce_append hequals, Option.bind_eq_bind,
    Option.bind_some, hspace, hend, decodeAttribute_escape, trimEnd_of_isName h, h]
  rfl

theorem readAttributes_render {attributes : List Attribute}
    (h : ∀ entry ∈ attributes, isName entry.1 = true) (hdistinct : (attributes.map Prod.fst).Nodup) :
    readAttributes (attributes.flatMap renderAttribute) =
      some (attributes.map Attribute.observed) := by
  induction attributes with
  | nil =>
    rw [readAttributes.eq_def]
    rfl
  | cons entry attributes ih =>
    obtain ⟨hnew, hrest⟩ := List.nodup_cons.mp hdistinct
    have hname := h entry List.mem_cons_self
    have hothers := ih (fun other hother => h other (List.mem_cons_of_mem entry hother)) hrest
    have htext : (entry :: attributes).flatMap renderAttribute =
        ' ' :: (entry.1 ++ '=' :: quotationMark :: escape entry.2 ++
          quotationMark :: attributes.flatMap renderAttribute) := by
      simp [renderAttribute]
    obtain ⟨c, name, hcons⟩ : ∃ c name, entry.1 = c :: name := by
      cases hentry : entry.1 with
      | nil => rw [hentry] at hname; cases hname
      | cons c name => exact ⟨c, name, rfl⟩
    have hc : isSpace c = false :=
      not_isSpace_of_isNameChar (List.all_eq_true.mp (all_of_isName hname) c
        (hcons ▸ List.mem_cons_self))
    have hdrop : ((entry :: attributes).flatMap renderAttribute).dropWhile isSpace =
        c :: (name ++ '=' :: quotationMark :: escape entry.2 ++
          quotationMark :: attributes.flatMap renderAttribute) := by
      rw [htext, List.dropWhile_cons_of_pos (by decide), hcons, List.cons_append, List.cons_append,
        List.dropWhile_cons_of_neg (by simp [hc])]
    have hread := readAttribute_render hname (attributes.flatMap renderAttribute)
    rw [hcons, List.cons_append, List.cons_append] at hread
    have hfirst : ((entry :: attributes).flatMap renderAttribute).head?.any isSpace = true := by
      rw [htext]
      rfl
    have hfresh : entry.observed.1 ∉ (attributes.map Attribute.observed).map Prod.fst := by
      rw [List.map_map]
      exact hnew
    rw [readAttributes.eq_def]
    split
    · rename_i heq
      rw [hdrop] at heq
      cases heq
    · rename_i d rest heq
      obtain ⟨rfl, rfl⟩ := List.cons.inj (hdrop.symm.trans heq)
      rw [if_pos hfirst]
      split
      · rename_i hnone
        rw [hread] at hnone
        cases hnone
      · rename_i other after hsome
        obtain ⟨rfl, rfl⟩ := Prod.mk.inj (Option.some.inj (hread.symm.trans hsome))
        simp only [hothers, Option.bind_eq_bind, Option.bind_some, if_pos hfresh]
        rfl

theorem takeWhile_name {name rest : List Char} (h : name.all isNameChar = true)
    (hrest : rest.head?.all (fun c => !isNameChar c) = true) :
    (name ++ rest).takeWhile isNameChar = name ∧ (name ++ rest).dropWhile isNameChar = rest := by
  induction name with
  | nil =>
    cases rest with
    | nil => exact ⟨rfl, rfl⟩
    | cons c rest =>
      have hc : isNameChar c = false := by simpa using hrest
      exact ⟨List.takeWhile_cons_of_neg (by simp [hc]), List.dropWhile_cons_of_neg (by simp [hc])⟩
  | cons c name ih =>
    rw [List.all_cons, Bool.and_eq_true] at h
    obtain ⟨htake, hdrop⟩ := ih h.2
    rw [List.cons_append, List.takeWhile_cons_of_pos h.1, List.dropWhile_cons_of_pos h.1, htake]
    exact ⟨rfl, hdrop⟩

theorem head_renderAttributes (attributes : List Attribute) :
    (attributes.flatMap renderAttribute).head?.all (fun c => !isNameChar c) = true := by
  cases attributes with
  | nil => rfl
  | cons entry attributes => rfl

/-- The text of a tag does not begin like a closing tag, and only an empty tag ends with `/`. -/
theorem renderAttributes_last {name : List Char} (hname : isName name = true)
    (attributes : List Attribute) :
    (name ++ attributes.flatMap renderAttribute).getLast? ≠ some '/' := by
  cases hcases : attributes.reverse with
  | nil =>
    rw [List.reverse_eq_nil_iff.mp hcases, List.flatMap_nil, List.append_nil]
    intro hlast
    exact delimiter_not_mem (all_of_isName hname) (by decide) (List.mem_of_getLast? hlast)
  | cons entry rest =>
    have hattributes : attributes = rest.reverse ++ [entry] := by
      rw [← List.reverse_reverse attributes, hcases, List.reverse_cons]
    rw [hattributes, List.flatMap_append, List.flatMap_singleton, renderAttribute, ← List.append_assoc,
      ← List.append_assoc, List.getLast?_concat]
    decide

theorem readTag_open {name : List Char} (hname : isName name = true) {attributes : List Attribute}
    (hentries : ∀ entry ∈ attributes, isName entry.1 = true)
    (hdistinct : (attributes.map Prod.fst).Nodup) {inside : List Char} {isEmpty : Bool}
    (hinside : inside = name ++ attributes.flatMap renderAttribute ++ if isEmpty then ['/'] else [])
    : readTag inside = some (if isEmpty then .empty name (attributes.map Attribute.observed)
        else .start name (attributes.map Attribute.observed)) := by
  obtain ⟨htake, hdrop⟩ := takeWhile_name (all_of_isName hname) (head_renderAttributes attributes)
  have hslash : ∀ rest, inside ≠ '/' :: rest := by
    intro rest heq
    cases name with
    | nil => cases hname
    | cons c name =>
      rw [hinside, List.cons_append, List.cons_append] at heq
      obtain rfl : c = '/' := (List.cons.inj heq).1
      exact delimiter_not_mem (all_of_isName hname) (by decide) List.mem_cons_self
  have hlast : (inside.getLast? = some '/') ↔ isEmpty = true := by
    cases isEmpty with
    | true => simp [hinside]
    | false => simpa [hinside] using renderAttributes_last hname attributes
  have hbody : (if isEmpty = true then inside.dropLast else inside) =
      name ++ attributes.flatMap renderAttribute := by
    cases isEmpty with
    | true =>
      rw [if_pos rfl, hinside]
      exact List.dropLast_concat
    | false =>
      rw [if_neg Bool.false_ne_true, hinside]
      exact List.append_nil _
  unfold readTag
  split
  · rename_i rest
    exact absurd rfl (hslash rest)
  · simp only [hbody, htake, hdrop, hname, if_true, readAttributes_render hentries hdistinct,
      Option.map_some, hlast]

/-- A rendered tag reads as itself. -/
theorem readTag_renderTag {tag : Tag} (h : tag.wellNamed) :
    readTag (renderTag tag) = some tag.observed := by
  cases tag with
  | start name attributes =>
    obtain ⟨hname, hentries, hdistinct⟩ := h
    exact @readTag_open name hname attributes hentries hdistinct _ false (by simp [renderTag])
  | close name =>
    have hname : isName name = true := h
    rw [renderTag, readTag, trimEnd_of_isName hname, if_pos hname]
    rfl
  | empty name attributes =>
    obtain ⟨hname, hentries, hdistinct⟩ := h
    exact @readTag_open name hname attributes hentries hdistinct _ true (by simp [renderTag])

/-! ## Reading a document -/

def Piece.wellNamed (piece : Piece) : Prop := piece.tag.wellNamed

theorem readPieces_render {pieces : List Piece} (h : ∀ piece ∈ pieces, piece.wellNamed)
    (trailing : List Char) :
    readPieces (pieces.flatMap renderPiece ++ escape trailing) =
      some (pieces.map fun piece => { text := piece.text, tag := piece.tag.observed },
        trailing) := by
  induction pieces with
  | nil =>
    rw [List.flatMap_nil, List.nil_append, readPieces.eq_def]
    split
    · rw [decodeText_escape]
      rfl
    · rename_i before after hsplit
      rw [splitOnce_none (not_mem_escape (by decide) (by decide))] at hsplit
      cases hsplit
  | cons piece pieces ih =>
    have hpiece : piece.tag.wellNamed := h piece List.mem_cons_self
    have hrest := ih fun other hother => h other (List.mem_cons_of_mem piece hother)
    have htext : (piece :: pieces).flatMap renderPiece ++ escape trailing =
        escape piece.text ++ '<' :: (renderTag piece.tag ++
          '>' :: (pieces.flatMap renderPiece ++ escape trailing)) := by
      simp [renderPiece]
    have hsplit := @splitOnce_append '<' (escape piece.text) (renderTag piece.tag ++
      '>' :: (pieces.flatMap renderPiece ++ escape trailing))
      (not_mem_escape (by decide) (by decide))
    rw [htext, readPieces.eq_def]
    split
    · rename_i hnone
      rw [hsplit] at hnone
      cases hnone
    · rename_i before after hsome
      obtain ⟨rfl, rfl⟩ := Prod.mk.inj (Option.some.inj (hsplit.symm.trans hsome))
      split
      · rename_i hnone
        rw [tagEnd_renderTag hpiece] at hnone
        cases hnone
      · rename_i inside rest hend
        obtain ⟨rfl, rfl⟩ :=
          Prod.mk.inj (Option.some.inj ((tagEnd_renderTag hpiece _).symm.trans hend))
        simp only [decodeText_escape, readTag_renderTag hpiece, hrest, Option.bind_eq_bind,
          Option.bind_some]
        rfl

/-- What a reader sees of a piece. -/
def Piece.observed (piece : Piece) : Piece where
  text := normalizeLineEnds piece.text
  tag := piece.tag.mapValues fun value => (normalizeLineEnds value).map blank

theorem Tag.wellNamed_mapValues {tag : Tag} (h : tag.wellNamed) (f : List Char → List Char) :
    (tag.mapValues f).wellNamed := by
  cases tag with
  | start name attributes | empty name attributes =>
    obtain ⟨hname, hentries, hdistinct⟩ := h
    refine ⟨hname, fun entry hentry => ?_, ?_⟩
    · obtain ⟨old, hold, rfl⟩ := List.mem_map.mp hentry
      exact hentries old hold
    · rw [List.map_map]
      exact hdistinct
  | close name => exact h

theorem return_not_mem {name : List Char} (h : isName name = true) : '\r' ∉ name := by
  intro hmem
  have hspace := not_isSpace_of_isNameChar (List.all_eq_true.mp (all_of_isName h) _ hmem)
  cases hspace

theorem normalizeLineEnds_renderAttributes {attributes : List Attribute}
    (h : ∀ entry ∈ attributes, isName entry.1 = true) (rest : List Char) :
    normalizeLineEnds (attributes.flatMap renderAttribute ++ rest) =
      (attributes.map fun entry => (entry.1, normalizeLineEnds entry.2)).flatMap renderAttribute ++
        normalizeLineEnds rest := by
  induction attributes with
  | nil => rfl
  | cons entry attributes ih =>
    have hname : '\r' ∉ ' ' :: entry.1 ++ ['=', quotationMark] := by
      have hentry := return_not_mem (h entry List.mem_cons_self)
      rw [List.cons_append, List.mem_cons, List.mem_append, not_or, not_or]
      exact ⟨by decide, hentry, by decide⟩
    have hsplit : (entry :: attributes).flatMap renderAttribute ++ rest =
        (' ' :: entry.1 ++ ['=', quotationMark]) ++ (escape entry.2 ++
          quotationMark :: (attributes.flatMap renderAttribute ++ rest)) := by
      simp [renderAttribute]
    rw [hsplit, normalizeLineEnds_plain hname, normalizeLineEnds_append (by decide) (by decide),
      normalizeLineEnds_escape, ih fun other hother => h other (List.mem_cons_of_mem entry hother)]
    simp [renderAttribute]

theorem normalizeLineEnds_renderTag {tag : Tag} (h : tag.wellNamed) (rest : List Char) :
    normalizeLineEnds (renderTag tag ++ '>' :: rest) =
      renderTag (tag.mapValues normalizeLineEnds) ++ '>' :: normalizeLineEnds rest := by
  cases tag with
  | start name attributes =>
    obtain ⟨hname, hentries, -⟩ := h
    rw [renderTag, List.append_assoc, normalizeLineEnds_plain (return_not_mem hname),
      normalizeLineEnds_renderAttributes hentries, normalizeLineEnds_cons (by decide),
      ← List.append_assoc]
    rfl
  | close name =>
    have hplain : '\r' ∉ '/' :: name :=
      List.mem_cons.not.mpr (not_or.mpr ⟨by decide, return_not_mem h⟩)
    rw [renderTag, normalizeLineEnds_plain hplain, normalizeLineEnds_cons (by decide)]
    rfl
  | empty name attributes =>
    obtain ⟨hname, hentries, -⟩ := h
    rw [renderTag, List.append_assoc, List.append_assoc,
      normalizeLineEnds_plain (return_not_mem hname), normalizeLineEnds_renderAttributes hentries,
      List.singleton_append, normalizeLineEnds_cons (by decide), normalizeLineEnds_cons (by decide)]
    simp [Tag.mapValues, renderTag]

theorem normalizeLineEnds_render {pieces : List Piece} (h : ∀ piece ∈ pieces, piece.wellNamed)
    (trailing : List Char) :
    normalizeLineEnds (pieces.flatMap renderPiece ++ escape trailing) =
      (pieces.map fun piece =>
        { text := normalizeLineEnds piece.text
          tag := piece.tag.mapValues normalizeLineEnds }).flatMap renderPiece ++
        escape (normalizeLineEnds trailing) := by
  induction pieces with
  | nil => exact normalizeLineEnds_escape trailing
  | cons piece pieces ih =>
    have hpiece : piece.tag.wellNamed := h piece List.mem_cons_self
    have hsplit : (piece :: pieces).flatMap renderPiece ++ escape trailing =
        escape piece.text ++ '<' :: (renderTag piece.tag ++
          '>' :: (pieces.flatMap renderPiece ++ escape trailing)) := by
      simp [renderPiece]
    rw [hsplit, normalizeLineEnds_append (by decide) (by decide), normalizeLineEnds_escape,
      normalizeLineEnds_renderTag hpiece,
      ih fun other hother => h other (List.mem_cons_of_mem piece hother)]
    simp [renderPiece]

theorem nests_observed (stack : List (List Char)) (pieces : List Piece) :
    nests stack (pieces.map Piece.observed) = nests stack pieces := by
  induction pieces generalizing stack with
  | nil =>
    cases stack with
    | nil => rfl
    | cons name stack => rfl
  | cons piece pieces ih =>
    cases stack with
    | nil => rfl
    | cons name stack =>
      obtain ⟨text, tag⟩ := piece
      cases tag with
      | start inner attributes => exact ih (inner :: name :: stack)
      | empty inner attributes => exact ih (name :: stack)
      | close other =>
        show (decide (other = name) && nests stack (pieces.map Piece.observed)) = _
        rw [ih stack]
        rfl

theorem spaces_normalizeLineEnds (h : text.all isSpace = true) :
    (normalizeLineEnds text).all isSpace = true := by
  refine List.all_eq_true.mpr fun c hc => ?_
  rcases mem_normalizeLineEnds hc with hc | rfl
  · exact List.all_eq_true.mp h c hc
  · decide

theorem isDocument_observed {pieces : List Piece} {trailing : List Char}
    (h : isDocument pieces trailing = true) :
    isDocument (pieces.map Piece.observed) (normalizeLineEnds trailing) = true := by
  obtain ⟨htrailing, hpieces⟩ := Bool.and_eq_true_iff.mp h
  refine Bool.and_eq_true_iff.mpr ⟨spaces_normalizeLineEnds htrailing, ?_⟩
  cases pieces with
  | nil => cases hpieces
  | cons first rest =>
    obtain ⟨hfirst, hrest⟩ := Bool.and_eq_true_iff.mp hpieces
    refine Bool.and_eq_true_iff.mpr ⟨spaces_normalizeLineEnds hfirst, ?_⟩
    obtain ⟨text, tag⟩ := first
    cases tag with
    | start name attributes =>
      show nests [name] (rest.map Piece.observed) = true
      rw [nests_observed]
      exact hrest
    | close name => cases hrest
    | empty name attributes =>
      obtain rfl := of_decide_eq_true hrest
      rfl

/-- A rendered document reads back, up to the line ends and the blanks of attribute values. -/
theorem read_render {pieces : List Piece} {trailing : List Char}
    (hnames : ∀ piece ∈ pieces, piece.wellNamed) (hdocument : isDocument pieces trailing = true)
    (hlegal : ∀ c ∈ render pieces trailing, isChar c = true) :
    read (render pieces trailing) =
      some (pieces.map Piece.observed, normalizeLineEnds trailing) := by
  have hprefix : declaration.isPrefixOf (render pieces trailing) = true := by
    rw [render, List.append_assoc]
    exact List.isPrefixOf_iff_prefix.mpr (List.prefix_append _ _)
  have hdrop : (render pieces trailing).drop declaration.length =
      pieces.flatMap renderPiece ++ escape trailing := by
    rw [render, List.append_assoc, List.drop_left]
  have hnormalized : ∀ piece ∈ pieces.map (fun piece : Piece =>
      { text := normalizeLineEnds piece.text
        tag := piece.tag.mapValues normalizeLineEnds : Piece }), piece.wellNamed := by
    intro piece hpiece
    obtain ⟨old, hold, rfl⟩ := List.mem_map.mp hpiece
    exact Tag.wellNamed_mapValues (hnames old hold) _
  have hobserved : (pieces.map (fun piece : Piece =>
      { text := normalizeLineEnds piece.text
        tag := piece.tag.mapValues normalizeLineEnds : Piece })).map
        (fun piece => { text := piece.text, tag := piece.tag.observed : Piece }) =
      pieces.map Piece.observed := by
    rw [List.map_map]
    refine List.map_congr_left fun piece _ => ?_
    obtain ⟨text, tag⟩ := piece
    cases tag <;> simp [Piece.observed, Tag.observed, Tag.mapValues, Function.comp_def]
  rw [read, if_pos ⟨List.all_eq_true.mpr hlegal, hprefix⟩, hdrop, normalizeLineEnds_render hnames,
    readPieces_render hnormalized, hobserved]
  simp only [Option.bind_eq_bind, Option.bind_some, isDocument_observed hdocument, if_true]
  rfl

/-! ## Legal characters -/

/-- The character data and the attribute values of a piece. -/
def Piece.texts (piece : Piece) : List (List Char) :=
  piece.text :: match piece.tag with
    | .start _ attributes | .empty _ attributes => attributes.map Prod.snd
    | .close _ => []

theorem legal_of_isName {name : List Char} (h : isName name = true) :
    ∀ c ∈ name, isChar c = true := fun c hc =>
  isChar_of_isNameChar (List.all_eq_true.mp (all_of_isName h) c hc)

theorem legal_renderAttributes {attributes : List Attribute}
    (h : ∀ entry ∈ attributes, isName entry.1 = true) :
    (∀ c ∈ attributes.flatMap renderAttribute, isChar c = true) ↔
      ∀ value ∈ attributes.map Prod.snd, ∀ c ∈ value, isChar c = true := by
  constructor
  · intro hlegal value hvalue
    obtain ⟨entry, hentry, rfl⟩ := List.mem_map.mp hvalue
    refine escape_legal.mp fun c hc => hlegal c (List.mem_flatMap.mpr ⟨entry, hentry, ?_⟩)
    simp [renderAttribute, hc]
  · intro hlegal c hc
    obtain ⟨entry, hentry, hc⟩ := List.mem_flatMap.mp hc
    have hvalue := escape_legal.mpr (hlegal entry.2 (List.mem_map_of_mem hentry))
    simp only [renderAttribute, List.cons_append, List.append_assoc,
      List.mem_cons, List.mem_append, List.not_mem_nil, or_false] at hc
    rcases hc with rfl | hc | rfl | rfl | hc | rfl
    · decide
    · exact legal_of_isName (h entry hentry) c hc
    · decide
    · decide
    · exact hvalue c hc
    · decide

theorem legal_renderPiece {piece : Piece} (h : piece.wellNamed) :
    (∀ c ∈ renderPiece piece, isChar c = true) ↔
      ∀ text ∈ piece.texts, ∀ c ∈ text, isChar c = true := by
  obtain ⟨text, tag⟩ := piece
  have hwhole : (∀ c ∈ renderPiece ⟨text, tag⟩, isChar c = true) ↔
      (∀ c ∈ text, isChar c = true) ∧ ∀ c ∈ renderTag tag, isChar c = true := by
    rw [← @escape_legal text]
    simp only [renderPiece, List.mem_append, List.mem_cons, List.cons_append, List.append_assoc,
      List.not_mem_nil, or_false]
    refine ⟨fun hlegal => ⟨fun c hc => hlegal c (.inl hc),
      fun c hc => hlegal c (.inr (.inr (.inl hc)))⟩, fun hlegal c hc => ?_⟩
    rcases hc with hc | rfl | hc | rfl
    · exact hlegal.1 c hc
    · decide
    · exact hlegal.2 c hc
    · decide
  rw [hwhole]
  cases tag with
  | start name attributes =>
    obtain ⟨hname, hentries, -⟩ := h
    have hparts := legal_renderAttributes hentries
    simp only [Piece.texts, renderTag, List.forall_mem_cons, List.forall_mem_append, hparts]
    exact and_congr_right fun _ => and_iff_right (legal_of_isName hname)
  | close name =>
    have hname := @legal_of_isName name h
    simp only [Piece.texts, renderTag, List.forall_mem_cons]
    exact and_congr_right fun _ =>
      ⟨fun _ text htext => absurd htext List.not_mem_nil, fun _ => ⟨by decide, hname⟩⟩
  | empty name attributes =>
    obtain ⟨hname, hentries, -⟩ := h
    have hparts := legal_renderAttributes hentries
    simp only [Piece.texts, renderTag, List.forall_mem_cons, List.forall_mem_append, hparts,
      List.not_mem_nil, false_implies, implies_true, and_true]
    exact and_congr_right fun _ =>
      ⟨fun hall => hall.1.2, fun hvalues => ⟨⟨legal_of_isName hname, hvalues⟩, by decide⟩⟩

/-- A rendered document has only legal characters if its texts and values do. -/
theorem legal_render {pieces : List Piece} {trailing : List Char}
    (h : ∀ piece ∈ pieces, piece.wellNamed) (htrailing : ∀ c ∈ trailing, isChar c = true) :
    (∀ c ∈ render pieces trailing, isChar c = true) ↔
      ∀ text ∈ pieces.flatMap Piece.texts, ∀ c ∈ text, isChar c = true := by
  have hdeclaration : ∀ c ∈ declaration, isChar c = true := List.all_eq_true.mp (by decide)
  constructor
  · intro hlegal text htext
    obtain ⟨piece, hpiece, htext⟩ := List.mem_flatMap.mp htext
    refine (legal_renderPiece (h piece hpiece)).mp (fun c hc => hlegal c ?_) text htext
    exact List.mem_append_left _ (List.mem_append_right _ (List.mem_flatMap.mpr ⟨piece, hpiece, hc⟩))
  · intro hlegal c hc
    rcases List.mem_append.mp hc with hc | hc
    · rcases List.mem_append.mp hc with hc | hc
      · exact hdeclaration c hc
      · obtain ⟨piece, hpiece, hc⟩ := List.mem_flatMap.mp hc
        exact (legal_renderPiece (h piece hpiece)).mpr
          (fun text htext => hlegal text (List.mem_flatMap.mpr ⟨piece, hpiece, htext⟩)) c hc
    · exact escape_legal.mpr htrailing c hc

end Xml
