import Mathlib.Data.List.Basic
import Mathlib.Data.List.DropRight
import Mathlib.Data.List.TakeWhile
import Mathlib.Tactic

/-!
# Passes that cut values out of a text

A pass looks for a label and replaces what stands behind it, up to the first closing element, by a
mark; it goes on behind the mark. Labels are compared after a folding of the elements, such as lower
case. An element that closes values and is in no label separates a text into parts that the pass
treats one by one.
-/

namespace Cuts

universe u

variable {α : Type u}

/-! ## Cutting a value -/

theorem takeWhile_append_cons {q : α → Bool} (hc : q c = false) (a b : List α) :
    (a ++ c :: b).takeWhile q = a.takeWhile q := by
  induction a with
  | nil => simp [hc]
  | cons x a ih => simp [List.takeWhile_cons, ih]

theorem dropWhile_append_cons {q : α → Bool} (hc : q c = false) (a b : List α) :
    (a ++ c :: b).dropWhile q = a.dropWhile q ++ c :: b := by
  induction a with
  | nil => simp [hc]
  | cons x a ih =>
    rw [List.cons_append, List.dropWhile_cons, List.dropWhile_cons, ih]
    split_ifs <;> rfl

/-- What is left of a text before a place is empty or ends at a stop. -/
theorem getLast_rdropWhile (q : α → Bool) (text : List α) :
    ∀ c ∈ (text.rdropWhile fun x => !q x).getLast?, q c = true := by
  intro c hc
  by_cases hnil : text.rdropWhile (fun x => !q x) = []
  · rw [hnil] at hc
    cases hc
  · have hlast := List.rdropWhile_last_not (fun x => !q x) text hnil
    rw [List.getLast?_eq_some_getLast hnil, Option.mem_some_iff] at hc
    rw [hc] at hlast
    simpa using hlast

theorem head_dropWhile (q : α → Bool) (text : List α) :
    ∀ c ∈ (text.dropWhile fun x => !q x).head?, q c = true := by
  intro c hc
  have hhead := List.head?_dropWhile_not (fun x => !q x) text
  rw [Option.mem_def.mp hc] at hhead
  simpa using hhead

/-- The part of a text around a place, to the next stops. -/
theorem open_around {q : α → Bool} (x : List α) {y : List α} (z : List α)
    (hy : ∀ c ∈ y, q c = false) :
    ∀ c ∈ (x.rtakeWhile fun c => !q c) ++ y ++ z.takeWhile fun c => !q c, q c = false := by
  intro c hc
  rcases List.mem_append.mp hc with hc | hc
  · rcases List.mem_append.mp hc with hc | hc
    · simpa using List.mem_rtakeWhile_imp hc
    · exact hy c hc
  · simpa using List.mem_takeWhile_imp hc

/-- A prefix without an element stops in front of it. -/
theorem prefix_of_not_mem {l a b : List α} {t : α} (h : l <+: a ++ t :: b) (ht : t ∉ l) :
    l <+: a := by
  by_cases hlength : l.length ≤ a.length
  · exact List.prefix_of_prefix_length_le h (List.prefix_append ..) hlength
  · have hlong : a ++ [t] <+: l := by
      apply List.prefix_of_prefix_length_le _ h
      · rw [List.length_append, List.length_singleton]
        omega
      · exact (List.prefix_append (a ++ [t]) b).trans (by simp)
    exact absurd (hlong.subset (by simp)) ht

structure Pass (α : Type u) where
  fold : α → α
  label : List α
  /-- The label itself stays. -/
  keeps : Bool
  /-- Elements that stay in front of a value. -/
  skips : α → Bool
  /-- Elements that end a value. -/
  closes : α → Bool
  mark : List α
  nonempty : label ≠ []

namespace Pass

variable (p : Pass α)

def kept (found : List α) : List α :=
  if p.keeps then
    found.take p.label.length ++ (found.drop p.label.length).takeWhile p.skips
  else []

/-- What stands behind a value. -/
def behind (found : List α) : List α :=
  ((found.drop p.label.length).dropWhile p.skips).dropWhile fun x => !p.closes x

theorem behind_suffix (found : List α) : p.behind found <:+ found.drop p.label.length :=
  (List.dropWhile_suffix _).trans (List.dropWhile_suffix _)

/-- An element that ends values and is in no label. -/
structure Separates (c : α) : Prop where
  label : p.fold c ∉ p.label
  skips : p.skips c = false
  closes : p.closes c = true

variable {p} {a : List α} {c : α}

theorem Separates.kept (hc : p.Separates c) (hlength : p.label.length ≤ a.length) (b : List α) :
    p.kept (a ++ c :: b) = p.kept a := by
  rw [Pass.kept, Pass.kept, List.take_append_of_le_length hlength,
    List.drop_append_of_le_length hlength, takeWhile_append_cons hc.skips]

theorem Separates.behind (hc : p.Separates c) (hlength : p.label.length ≤ a.length) (b : List α) :
    p.behind (a ++ c :: b) = p.behind a ++ c :: b := by
  rw [Pass.behind, Pass.behind, List.drop_append_of_le_length hlength,
    dropWhile_append_cons hc.skips]
  apply dropWhile_append_cons
  rw [hc.closes]
  rfl

end Pass

variable [DecidableEq α]

/-! ## The first occurrence of a label -/

section Search

variable (fold : α → α) (label : List α)

def begins (text : List α) : Bool := label.isPrefixOf (text.map fold)

/-- The text before the first occurrence, and the rest. -/
def split : List α → Option (List α × List α)
  | [] => none
  | a :: rest =>
    if begins fold label (a :: rest) then some ([], a :: rest)
    else (split rest).map fun parts => (a :: parts.1, parts.2)

def Occurs (text : List α) : Prop := split fold label text ≠ none

instance (text : List α) : Decidable (Occurs fold label text) :=
  inferInstanceAs (Decidable (split fold label text ≠ none))

variable {fold label} {a b text before found : List α} {c : α}

theorem split_cons (a : α) (rest : List α) : split fold label (a :: rest) =
    if begins fold label (a :: rest) then some ([], a :: rest)
    else (split fold label rest).map fun parts => (a :: parts.1, parts.2) := rfl

theorem begins_iff : begins fold label text = true ↔ label <+: text.map fold :=
  List.isPrefixOf_iff_prefix

theorem begins_append (h : begins fold label a = true) (b : List α) :
    begins fold label (a ++ b) = true := by
  rw [begins_iff] at h ⊢
  rw [List.map_append]
  exact h.trans (List.prefix_append ..)

/-- What an occurrence needs is in front of an element that is in no label. -/
theorem begins_append_cons (hc : fold c ∉ label) (a b : List α) :
    begins fold label (a ++ c :: b) = begins fold label a := by
  rw [Bool.eq_iff_iff, begins_iff, begins_iff, List.map_append, List.map_cons]
  exact ⟨fun h => prefix_of_not_mem h hc, fun h => h.trans (List.prefix_append ..)⟩

theorem length_le_of_begins (h : begins fold label text = true) : label.length ≤ text.length := by
  have hlength := (begins_iff.mp h).length_le
  rwa [List.length_map] at hlength

theorem begins_nil (hne : label ≠ []) : begins fold label [] = false := by
  rw [← Bool.not_eq_true, begins_iff, List.map_nil, List.prefix_nil]
  exact hne

theorem split_some (h : split fold label text = some (before, found)) :
    text = before ++ found ∧ begins fold label found = true := by
  induction text generalizing before with
  | nil => cases h
  | cons a rest ih =>
    rw [split_cons] at h
    split_ifs at h with hhere
    · cases h
      exact ⟨rfl, hhere⟩
    · obtain ⟨parts, hparts, hsame⟩ := Option.map_eq_some_iff.mp h
      cases hsame
      obtain ⟨hrest, hfound⟩ := ih hparts
      exact ⟨by rw [List.cons_append, ← hrest], hfound⟩

theorem not_occurs_of_length (h : text.length < label.length) : ¬ Occurs fold label text := by
  intro hocc
  obtain ⟨⟨before, found⟩, hsplit⟩ := Option.ne_none_iff_exists'.mp hocc
  obtain ⟨rfl, hfound⟩ := split_some hsplit
  have hlength := length_le_of_begins hfound
  rw [List.length_append] at h
  omega

/-- The first occurrence is the first one in a longer text, too. -/
theorem split_append_of_some (h : split fold label text = some (before, found)) (more : List α) :
    split fold label (text ++ more) = some (before, found ++ more) := by
  induction text generalizing before with
  | nil => cases h
  | cons a rest ih =>
    rw [split_cons] at h
    rw [List.cons_append, split_cons]
    split_ifs at h with hhere
    · cases h
      rw [← List.cons_append, begins_append hhere more, if_pos rfl]
    · obtain ⟨parts, hparts, hsame⟩ := Option.map_eq_some_iff.mp h
      cases hsame
      have hnot : ¬ begins fold label (a :: (rest ++ more)) = true := by
        intro hbegins
        apply hhere
        have hrest := split_some hparts
        have hlength := length_le_of_begins hrest.2
        rw [begins_iff] at hbegins ⊢
        apply List.prefix_of_prefix_length_le hbegins
        · exact ⟨more.map fold, by simp⟩
        · rw [hrest.1]
          simp
          omega
      rw [if_neg hnot, ih hparts]
      rfl

/-- Nothing occurs before the first occurrence. -/
theorem split_before (h : split fold label text = some (before, found)) :
    split fold label before = none := by
  induction text generalizing before with
  | nil => cases h
  | cons a rest ih =>
    rw [split_cons] at h
    split_ifs at h with hhere
    · cases h
      rfl
    · obtain ⟨parts, hparts, hsame⟩ := Option.map_eq_some_iff.mp h
      cases hsame
      have hnot : ¬ begins fold label (a :: parts.1) = true := by
        intro hbegins
        apply hhere
        rw [(split_some hparts).1]
        exact begins_append hbegins parts.2
      rw [split_cons, if_neg hnot, ih hparts]
      rfl

/-- An element that is in no label keeps the occurrences on its two sides apart. -/
theorem split_append_cons (hne : label ≠ []) (hc : fold c ∉ label) (a b : List α) :
    split fold label (a ++ c :: b) =
      (split fold label a).elim
        ((split fold label b).map fun parts => (a ++ c :: parts.1, parts.2))
        fun parts => some (parts.1, parts.2 ++ c :: b) := by
  induction a with
  | nil =>
    have hnot := begins_append_cons hc [] b
    rw [begins_nil hne, List.nil_append] at hnot
    rw [List.nil_append, split_cons, hnot, if_neg Bool.false_ne_true]
    rfl
  | cons x a ih =>
    rw [List.cons_append, split_cons, ← List.cons_append, begins_append_cons hc, split_cons, ih]
    split_ifs with hhere
    · rfl
    · cases split fold label a with
      | some parts => rfl
      | none => cases split fold label b <;> rfl

theorem occurs_append_cons (hne : label ≠ []) (hc : fold c ∉ label) (a b : List α) :
    Occurs fold label (a ++ c :: b) ↔ Occurs fold label a ∨ Occurs fold label b := by
  rw [Occurs, Occurs, Occurs, split_append_cons hne hc]
  cases split fold label a with
  | some parts => simp
  | none => cases split fold label b <;> simp

theorem occurs_of_begins (h : begins fold label text = true) (hne : label ≠ []) :
    Occurs fold label text := by
  cases text with
  | nil =>
    rw [begins_nil hne] at h
    cases h
  | cons a rest =>
    rw [Occurs, split_cons, if_pos h]
    exact Option.some_ne_none _

theorem Occurs.append_left (h : Occurs fold label b) (a : List α) :
    Occurs fold label (a ++ b) := by
  induction a with
  | nil => exact h
  | cons x a ih =>
    rw [List.cons_append, Occurs, split_cons]
    split_ifs
    · exact Option.some_ne_none _
    · exact fun hnone => ih (Option.map_eq_none_iff.mp hnone)

theorem Occurs.append_right (h : Occurs fold label a) (hne : label ≠ []) (b : List α) :
    Occurs fold label (a ++ b) := by
  obtain ⟨⟨before, found⟩, hsplit⟩ := Option.ne_none_iff_exists'.mp h
  obtain ⟨rfl, hfound⟩ := split_some hsplit
  rw [List.append_assoc]
  exact (occurs_of_begins (begins_append hfound b) hne).append_left before

/-- The last element of a label is nowhere else in it: an occurrence that passes such an element
ends there. -/
theorem split_append_last {key : List α} {t e : α} (ht : t ∉ key) (he : fold e = t)
    (x v : List α) :
    split fold (key ++ [t]) (x ++ e :: v) =
      (split fold (key ++ [t]) (x ++ [e])).elim
        ((split fold (key ++ [t]) v).map fun parts => (x ++ e :: parts.1, parts.2))
        fun parts => some (parts.1, parts.2 ++ v) := by
  have hbegins : ∀ y, begins fold (key ++ [t]) (y ++ e :: v) =
      begins fold (key ++ [t]) (y ++ [e]) := by
    intro y
    rw [Bool.eq_iff_iff]
    refine ⟨fun h => ?_, fun h => ?_⟩
    · rw [begins_iff, List.map_append, List.map_cons, he] at h ⊢
      have hshort : key <+: y.map fold :=
        prefix_of_not_mem ((List.prefix_append key [t]).trans h) ht
      apply List.prefix_of_prefix_length_le h
      · exact (List.prefix_append (y.map fold ++ [t]) (v.map fold)).trans (by simp)
      · rw [List.length_append, List.length_append]
        exact Nat.add_le_add_right hshort.length_le _
    · have hmore := begins_append h v
      rwa [List.append_assoc] at hmore
  induction x with
  | nil =>
    have hhere := hbegins []
    rw [List.nil_append, List.nil_append] at hhere
    rw [List.nil_append, List.nil_append, split_cons, split_cons, hhere]
    split_ifs <;> rfl
  | cons y x ih =>
    have hhere := hbegins (y :: x)
    rw [List.cons_append, List.cons_append] at hhere
    rw [List.cons_append, List.cons_append, split_cons, split_cons, hhere, ih]
    split_ifs
    · simp
    · cases split fold (key ++ [t]) (x ++ [e]) with
      | some parts => rfl
      | none => cases split fold (key ++ [t]) v <;> rfl

/-- The first element of a label is nowhere else in it: no occurrence goes across such an
element. -/
theorem split_append_first {rest : List α} {t e : α} (ht : t ∉ rest) (he : fold e = t)
    (ha : split fold (t :: rest) a = none) (v : List α) :
    split fold (t :: rest) (a ++ e :: v) =
      (split fold (t :: rest) (e :: v)).map fun parts => (a ++ parts.1, parts.2) := by
  induction a with
  | nil => cases hv : split fold (t :: rest) (e :: v) <;> rw [List.nil_append, hv] <;> rfl
  | cons x a ih =>
    rw [split_cons] at ha
    split_ifs at ha with hhere
    have hnot : ¬ begins fold (t :: rest) (x :: (a ++ e :: v)) = true := by
      intro hbegins
      rw [begins_iff, List.map_cons, List.cons_prefix_cons] at hbegins
      apply hhere
      rw [begins_iff, List.map_cons, List.cons_prefix_cons]
      rw [List.map_append, List.map_cons, he] at hbegins
      exact ⟨hbegins.1, prefix_of_not_mem hbegins.2 ht⟩
    rw [List.cons_append, split_cons, if_neg hnot, ih (Option.map_eq_none_iff.mp ha)]
    cases split fold (t :: rest) (e :: v) <;> rfl

end Search

/-! ## Running a pass -/

namespace Pass

variable (p : Pass α) {text a b before found : List α} {c : α}

theorem length_behind_lt (h : split p.fold p.label text = some (before, found)) :
    (p.behind found).length < text.length := by
  obtain ⟨rfl, hfound⟩ := split_some h
  have hlabel := length_le_of_begins hfound
  have hpositive := List.length_pos_of_ne_nil p.nonempty
  have hbehind := (p.behind_suffix found).length_le
  rw [List.length_drop] at hbehind
  rw [List.length_append]
  omega

/-- Replace the values behind all labels. -/
def run (text : List α) : List α :=
  match hsplit : split p.fold p.label text with
  | none => text
  | some parts =>
    have := p.length_behind_lt hsplit
    parts.1 ++ p.kept parts.2 ++ p.mark ++ run (p.behind parts.2)
termination_by text.length

theorem run_of_none (h : split p.fold p.label text = none) : p.run text = text := by
  rw [run]
  split
  · rfl
  · rename_i hsome
    rw [h] at hsome
    cases hsome

theorem run_of_some (h : split p.fold p.label text = some (before, found)) :
    p.run text = before ++ p.kept found ++ p.mark ++ p.run (p.behind found) := by
  rw [run]
  split
  · rename_i hnone
    rw [h] at hnone
    cases hnone
  · rename_i hsome
    rw [h] at hsome
    cases hsome
    rfl

/-- A law of passes from its cases: a text without the label, and a text in front of which a value
is cut. -/
theorem run_induction {motive : List α → Prop}
    (none : ∀ text, split p.fold p.label text = none → motive text)
    (some : ∀ text before found, split p.fold p.label text = some (before, found) →
      motive (p.behind found) → motive text) (text : List α) : motive text := by
  induction hn : text.length using Nat.strong_induction_on generalizing text with
  | _ n ih =>
    cases hsplit : split p.fold p.label text with
    | none => exact none text hsplit
    | some parts =>
      exact some text parts.1 parts.2 hsplit
        (ih _ (hn ▸ p.length_behind_lt hsplit) _ rfl)

@[simp]
theorem run_nil : p.run [] = [] := p.run_of_none rfl

/-! ## Separators -/

variable {p}

/-- A separator keeps the parts of a text apart. -/
theorem run_append_cons (hc : p.Separates c) (a b : List α) :
    p.run (a ++ c :: b) = p.run a ++ c :: p.run b := by
  induction a using p.run_induction with
  | none a hsplit =>
    have hwhole := split_append_cons p.nonempty hc.label a b
    rw [hsplit] at hwhole
    rw [p.run_of_none hsplit]
    cases hrest : split p.fold p.label b with
    | none =>
      rw [hrest] at hwhole
      rw [p.run_of_none hwhole, p.run_of_none hrest]
    | some parts =>
      rw [hrest] at hwhole
      rw [p.run_of_some hwhole, p.run_of_some hrest]
      simp
  | some a before found hsplit ih =>
    have hwhole := split_append_cons p.nonempty hc.label a b
    rw [hsplit] at hwhole
    have hlength := length_le_of_begins (split_some hsplit).2
    rw [p.run_of_some hwhole, p.run_of_some hsplit]
    dsimp only
    rw [hc.kept hlength, hc.behind hlength, ih]
    simp

/-- A text that ends with a separator, or a text in front of one. -/
def Boundary (sep : α → Prop) (a b : List α) : Prop :=
  (∀ c ∈ a.getLast?, sep c) ∨ ∀ c ∈ b.head?, sep c

omit [DecidableEq α] in
theorem append_of_boundary {f : List α → List α} {sep : α → Prop} (hnil : f [] = [])
    (hcons : ∀ a c b, sep c → f (a ++ c :: b) = f a ++ c :: f b) (h : Boundary sep a b) :
    f (a ++ b) = f a ++ f b := by
  rcases h with hlast | hhead
  · rcases List.eq_nil_or_concat a with rfl | ⟨a, c, rfl⟩
    · rw [List.nil_append, hnil, List.nil_append]
    · have hc : sep c := hlast c (by simp)
      rw [List.concat_eq_append, List.append_assoc, List.singleton_append, hcons a c b hc,
        hcons a c [] hc, hnil]
      simp
  · cases b with
    | nil => rw [hnil, List.append_nil, List.append_nil]
    | cons c b =>
      have hc : sep c := hhead c rfl
      have hempty := hcons [] c b hc
      rw [hnil, List.nil_append, List.nil_append] at hempty
      rw [hcons a c b hc, hempty]

/-! ## Texts without a separator -/

/-- Nothing is cut in front of the first label. -/
theorem run_append_cons_of_none (hc : p.fold c ∉ p.label) (ha : split p.fold p.label a = none)
    (b : List α) : p.run (a ++ c :: b) = a ++ c :: p.run b := by
  have hwhole := split_append_cons p.nonempty hc a b
  rw [ha] at hwhole
  cases hrest : split p.fold p.label b with
  | none =>
    rw [hrest] at hwhole
    rw [p.run_of_none hwhole, p.run_of_none hrest]
  | some parts =>
    rw [hrest] at hwhole
    rw [p.run_of_some hwhole, p.run_of_some hrest]
    simp

/-- A value that nothing ends is the rest of the text. -/
theorem run_of_open (hopen : ∀ x ∈ text, p.closes x = false)
    (h : split p.fold p.label text = some (before, found)) :
    p.run text = before ++ p.kept found ++ p.mark := by
  obtain ⟨rfl, -⟩ := split_some h
  have hbehind : p.behind found = [] := by
    refine List.dropWhile_eq_nil_iff.mpr fun x hx => ?_
    have hmem := List.mem_of_mem_drop ((List.dropWhile_suffix _).subset hx)
    rw [hopen x (List.mem_append_right _ hmem)]
    rfl
  rw [p.run_of_some h, hbehind, run_nil, List.append_nil]

omit [DecidableEq α] in
theorem prefix_kept (found : List α) : p.kept found <+: found := by
  rw [kept]
  split_ifs
  · conv_rhs => rw [← List.take_append_drop p.label.length found]
    exact (List.prefix_append_right_inj _).mpr (List.takeWhile_prefix _)
  · exact List.nil_prefix

omit [DecidableEq α] in
theorem kept_append (hskips : ∀ x, p.skips x = false) (hlength : p.label.length ≤ a.length)
    (b : List α) : p.kept (a ++ b) = p.kept a := by
  have hnone : p.skips = fun _ => false := funext hskips
  have htake : ∀ found : List α, found.takeWhile (fun _ => false) = [] := by
    intro found
    cases found <;> rfl
  rw [kept, kept, hnone, List.take_append_of_le_length hlength, htake, htake]

/-- Behind a label nothing of an open text is left. -/
theorem run_append_of_open (hskips : ∀ x, p.skips x = false)
    (hopen : ∀ x ∈ a ++ b, p.closes x = false) (ha : Occurs p.fold p.label a) :
    p.run (a ++ b) = p.run a := by
  obtain ⟨⟨before, found⟩, hsplit⟩ := Option.ne_none_iff_exists'.mp ha
  have hlength := length_le_of_begins (split_some hsplit).2
  have hfront : ∀ x ∈ a, p.closes x = false := fun x hx => hopen x (List.mem_append_left b hx)
  rw [run_of_open hopen (split_append_of_some hsplit b), kept_append hskips hlength,
    run_of_open hfront hsplit]

/-! ## Marks -/

/-- A mark that an occurrence of the label cannot touch. -/
structure Sealed (fold : α → α) (label mark : List α) : Prop where
  bounded : ∃ first inner last, mark = first :: (inner ++ [last]) ∧ fold first ∉ label ∧
    fold last ∉ label ∧ split fold label inner = none

theorem Sealed.occurs_append {fold : α → α} {label mark : List α} (h : Sealed fold label mark)
    (hne : label ≠ []) (a b : List α) :
    Occurs fold label (a ++ mark ++ b) ↔ Occurs fold label a ∨ Occurs fold label b := by
  obtain ⟨first, inner, last, rfl, hfirst, hlast, hinner⟩ := h.bounded
  have hnot : ¬ Occurs fold label inner := not_not.mpr hinner
  rw [List.append_assoc, List.cons_append, List.append_assoc, List.singleton_append,
    occurs_append_cons hne hfirst, occurs_append_cons hne hlast, or_iff_right hnot]

/-- A pass creates no occurrence of a label that its mark is sealed against. -/
theorem occurs_run {label : List α} (hne : label ≠ []) (hsealed : Sealed p.fold label p.mark)
    (h : Occurs p.fold label (p.run text)) : Occurs p.fold label text := by
  induction text using p.run_induction with
  | none text hsplit => rwa [p.run_of_none hsplit] at h
  | some text before found hsplit ih =>
    rw [p.run_of_some hsplit, hsealed.occurs_append hne] at h
    obtain ⟨rfl, hfound⟩ := split_some hsplit
    rcases h with hfront | hrest
    · obtain ⟨more, hmore⟩ := prefix_kept found
      rw [← hmore, ← List.append_assoc]
      exact hfront.append_right hne more
    · obtain ⟨front, hsuffix⟩ := (p.behind_suffix found).trans (List.drop_suffix _ _)
      rw [← hsuffix, ← List.append_assoc]
      exact (ih hrest).append_left _

/-- A pass that drops its label leaves no occurrence of it. -/
theorem not_occurs_run_self (hkeeps : p.keeps = false)
    (hsealed : Sealed p.fold p.label p.mark) (text : List α) :
    ¬ Occurs p.fold p.label (p.run text) := by
  induction text using p.run_induction with
  | none text hsplit =>
    rw [p.run_of_none hsplit]
    exact not_not.mpr hsplit
  | some text before found hsplit ih =>
    have hkept : p.kept found = [] := by rw [kept, hkeeps, if_neg Bool.false_ne_true]
    rw [p.run_of_some hsplit, hkept, List.append_nil, hsealed.occurs_append p.nonempty]
    exact not_or.mpr ⟨not_not.mpr (split_before hsplit), ih⟩

/-- Searching from the beginning again finds nothing in front of a sealed mark. -/
theorem run_restart (hkeeps : p.keeps = false) (hsealed : Sealed p.fold p.label p.mark)
    (h : split p.fold p.label text = some (before, found)) :
    p.run (before ++ p.mark ++ p.behind found) = p.run text := by
  obtain ⟨first, inner, last, hmark, hfirst, hlast, hinner⟩ := hsealed.bounded
  have hkept : p.kept found = [] := by rw [kept, hkeeps, if_neg Bool.false_ne_true]
  rw [p.run_of_some h, hkept, hmark]
  have hshape : before ++ first :: (inner ++ [last]) ++ p.behind found =
      before ++ first :: (inner ++ last :: p.behind found) := by simp
  rw [hshape, run_append_cons_of_none hfirst (split_before h),
    run_append_cons_of_none hlast hinner]
  simp

theorem mem_run {x : α} (h : x ∈ p.run text) : x ∈ text ∨ x ∈ p.mark := by
  induction text using p.run_induction with
  | none text hsplit => exact .inl (p.run_of_none hsplit ▸ h)
  | some text before found hsplit ih =>
    obtain ⟨rfl, -⟩ := split_some hsplit
    rw [p.run_of_some hsplit, List.mem_append, List.mem_append, List.mem_append] at h
    rcases h with ((hbefore | hkept) | hmark) | hrest
    · exact .inl (List.mem_append_left _ hbefore)
    · exact .inl (List.mem_append_right _ ((prefix_kept found).subset hkept))
    · exact .inr hmark
    · refine (ih hrest).imp_left fun hbehind => List.mem_append_right _ ?_
      exact List.mem_of_mem_drop ((p.behind_suffix found).subset hbehind)

/-- A closing element outside the mark is never cut. -/
theorem count_run (hkeeps : p.keeps = true) (hcloses : p.closes c = true) (hmark : c ∉ p.mark)
    (text : List α) : (p.run text).count c = text.count c := by
  induction text using p.run_induction with
  | none text hsplit => rw [p.run_of_none hsplit]
  | some text before found hsplit ih =>
    obtain ⟨rfl, -⟩ := split_some hsplit
    have hvalue : (((found.drop p.label.length).dropWhile p.skips).takeWhile
        fun x => !p.closes x).count c = 0 := by
      rw [List.count_eq_zero]
      intro hmem
      have hopen := List.mem_takeWhile_imp hmem
      rw [hcloses] at hopen
      cases hopen
    have hparts : found = p.kept found ++ (((found.drop p.label.length).dropWhile p.skips).takeWhile
        fun x => !p.closes x) ++ p.behind found := by
      rw [kept, hkeeps, if_pos rfl, behind, List.append_assoc, List.append_assoc,
        List.takeWhile_append_dropWhile, List.takeWhile_append_dropWhile, List.take_append_drop]
    rw [p.run_of_some hsplit, List.count_append, List.count_append, List.count_append,
      List.count_append, ih, List.count_eq_zero.mpr hmark]
    conv_rhs => rw [hparts]
    rw [List.count_append, List.count_append, hvalue]
    omega

end Pass

/-! ## Several passes -/

/-- Passes in order. -/
def runAll (passes : List (Pass α)) (text : List α) : List α :=
  passes.foldl (fun text p => p.run text) text

section Several

variable {passes : List (Pass α)} {a b text : List α} {c : α}

@[simp]
theorem runAll_cons (p : Pass α) (passes : List (Pass α)) (text : List α) :
    runAll (p :: passes) text = runAll passes (p.run text) := rfl

theorem runAll_empty (passes : List (Pass α)) : runAll passes [] = [] := by
  induction passes with
  | nil => rfl
  | cons p passes ih => rw [runAll_cons, Pass.run_nil, ih]

theorem runAll_append_cons (hc : ∀ p ∈ passes, p.Separates c) (a b : List α) :
    runAll passes (a ++ c :: b) = runAll passes a ++ c :: runAll passes b := by
  induction passes generalizing a b with
  | nil => rfl
  | cons p passes ih =>
    obtain ⟨hp, hpasses⟩ := List.forall_mem_cons.mp hc
    rw [runAll_cons, runAll_cons, runAll_cons, Pass.run_append_cons hp, ih hpasses]

theorem runAll_append (h : Pass.Boundary (fun c => ∀ p ∈ passes, p.Separates c) a b) :
    runAll passes (a ++ b) = runAll passes a ++ runAll passes b :=
  Pass.append_of_boundary (runAll_empty passes) (fun a _ b hc => runAll_append_cons hc a b) h

/-- Stops around a place keep the rest of the text out of it. -/
theorem runAll_around {q : α → Bool} (hq : ∀ c, q c = true → ∀ p ∈ passes, p.Separates c)
    (x y z : List α) : runAll passes (x ++ y ++ z) =
      runAll passes (x.rdropWhile fun c => !q c) ++
        runAll passes ((x.rtakeWhile fun c => !q c) ++ y ++ z.takeWhile fun c => !q c) ++
        runAll passes (z.dropWhile fun c => !q c) := by
  have hback : ∀ w, Pass.Boundary (fun c => ∀ p ∈ passes, p.Separates c) w
      (z.dropWhile fun c => !q c) := fun w => .inr fun c hc => hq c (head_dropWhile q z c hc)
  have hfront : ∀ w, Pass.Boundary (fun c => ∀ p ∈ passes, p.Separates c)
      (x.rdropWhile fun c => !q c) w := fun w => .inl fun c hc => hq c (getLast_rdropWhile q x c hc)
  have hshape : x ++ y ++ z = (x.rdropWhile fun c => !q c) ++
      ((x.rtakeWhile fun c => !q c) ++ y ++ z.takeWhile fun c => !q c) ++
      z.dropWhile fun c => !q c := by
    calc x ++ y ++ z
        = ((x.rdropWhile fun c => !q c) ++ (x.rtakeWhile fun c => !q c)) ++ y ++
            ((z.takeWhile fun c => !q c) ++ z.dropWhile fun c => !q c) := by
          rw [List.rdropWhile_append_rtakeWhile, List.takeWhile_append_dropWhile]
      _ = _ := by simp only [List.append_assoc]
  rw [hshape, runAll_append (hback _), runAll_append (hfront _)]

theorem occurs_runAll {fold : α → α} {label : List α} (hne : label ≠ [])
    (h : ∀ p ∈ passes, p.fold = fold ∧ Pass.Sealed fold label p.mark)
    (hocc : Occurs fold label (runAll passes text)) : Occurs fold label text := by
  induction passes generalizing text with
  | nil => exact hocc
  | cons p passes ih =>
    obtain ⟨⟨rfl, hsealed⟩, hpasses⟩ := List.forall_mem_cons.mp h
    exact Pass.occurs_run hne hsealed (ih hpasses hocc)

/-- Passes whose labels do not occur change nothing. -/
theorem runAll_of_none (h : ∀ p ∈ passes, ¬ Occurs p.fold p.label text) :
    runAll passes text = text := by
  induction passes with
  | nil => rfl
  | cons p passes ih =>
    obtain ⟨hp, hpasses⟩ := List.forall_mem_cons.mp h
    rw [runAll_cons, p.run_of_none (not_not.mp hp), ih hpasses]

theorem count_runAll (h : ∀ p ∈ passes, p.keeps = true ∧ p.closes c = true ∧ c ∉ p.mark)
    (text : List α) : (runAll passes text).count c = text.count c := by
  induction passes generalizing text with
  | nil => rfl
  | cons p passes ih =>
    obtain ⟨⟨hkeeps, hcloses, hmark⟩, hpasses⟩ := List.forall_mem_cons.mp h
    rw [runAll_cons, ih hpasses, Pass.count_run hkeeps hcloses hmark]

end Several

/-! ## Keys with values -/

section Keyed

variable (fold : α → α) (assign : α) (closes : α → Bool) (mark : List α)

/-- The pass for the values of a key. -/
def keyed (key : List α) : Pass α where
  fold
  label := key ++ [assign]
  keeps := true
  skips _ := false
  closes
  mark
  nonempty := by simp

variable {fold assign closes mark} {e : α} {x : List α} {key : List α} {keys : List (List α)}

/-- An open value of one of the keys does not show in the result. -/
theorem runAll_keyed (hkeys : ∀ k ∈ keys, assign ∉ k) (he : fold e = assign) (hkey : key ∈ keys)
    (hocc : Occurs fold (key ++ [assign]) (x ++ [e]))
    (hx : ∀ y ∈ x ++ [e], closes y = false) (hmark : ∀ y ∈ mark, closes y = false)
    {v w : List α} (hv : ∀ y ∈ v, closes y = false) (hw : ∀ y ∈ w, closes y = false) :
    runAll (keys.map (keyed fold assign closes mark)) (x ++ e :: v) =
      runAll (keys.map (keyed fold assign closes mark)) (x ++ e :: w) := by
  induction keys generalizing v w with
  | nil => cases hkey
  | cons k keys ih =>
    obtain ⟨hk, hrest⟩ := List.forall_mem_cons.mp hkeys
    have hopen : ∀ u : List α, (∀ y ∈ u, closes y = false) →
        ∀ y ∈ (x ++ [e]) ++ u, closes y = false := fun u hu y hy =>
      (List.mem_append.mp hy).elim (hx y) (hu y)
    rw [List.map_cons, runAll_cons, runAll_cons]
    by_cases hhere : Occurs fold (k ++ [assign]) (x ++ [e])
    · have hcut : ∀ u : List α, (∀ y ∈ u, closes y = false) →
          (keyed fold assign closes mark k).run (x ++ e :: u) =
            (keyed fold assign closes mark k).run (x ++ [e]) := by
        intro u hu
        rw [← List.singleton_append, ← List.append_assoc]
        exact Pass.run_append_of_open (fun _ => rfl) (hopen u hu) hhere
      rw [hcut v hv, hcut w hw]
    · have hnone : split fold (k ++ [assign]) (x ++ [e]) = none := not_not.mp hhere
      have hkeep : ∀ u : List α, (keyed fold assign closes mark k).run (x ++ e :: u) =
          x ++ e :: (keyed fold assign closes mark k).run u := by
        intro u
        have hwhole := split_append_last hk he x u
        rw [hnone] at hwhole
        cases hu : split fold (k ++ [assign]) u with
        | none =>
          rw [hu] at hwhole
          rw [(keyed fold assign closes mark k).run_of_none hwhole,
            (keyed fold assign closes mark k).run_of_none hu]
        | some parts =>
          rw [hu] at hwhole
          rw [(keyed fold assign closes mark k).run_of_some hwhole,
            (keyed fold assign closes mark k).run_of_some hu]
          simp
      have hclosed : ∀ u : List α, (∀ y ∈ u, closes y = false) →
          ∀ y ∈ (keyed fold assign closes mark k).run u, closes y = false := fun u hu y hy =>
        (Pass.mem_run hy).elim (hu y) (hmark y)
      have hother : key ∈ keys := by
        rcases List.mem_cons.mp hkey with rfl | hkey
        · exact absurd hocc hhere
        · exact hkey
      rw [hkeep, hkeep]
      exact ih hrest hother (hclosed v hv) (hclosed w hw)

end Keyed

end Cuts
