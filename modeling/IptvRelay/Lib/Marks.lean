import Mathlib.Data.List.Infix

/-!
# Marked texts

A text with marked parts, and what it becomes when the marked parts are replaced in their order.
If what comes in is new to the text, the result tells where the marks have been.
-/

namespace Marks

variable {α : Type}

inductive Piece (α : Type) where
  | plain (a : α)
  | mark (value : List α)
  deriving DecidableEq, Repr

def source : List (Piece α) → List α
  | [] => []
  | .plain a :: rest => a :: source rest
  | .mark value :: rest => value ++ source rest

def marks : List (Piece α) → List (List α)
  | [] => []
  | .plain _ :: rest => marks rest
  | .mark value :: rest => value :: marks rest

/-- Marked parts are replaced as long as there is something to put in. -/
def render : List (Piece α) → List (List α) → List α
  | [], _ => []
  | .plain a :: rest, new => a :: render rest new
  | .mark value :: rest, [] => value ++ render rest []
  | .mark _ :: rest, first :: new => first ++ render rest new

def plains (text : List α) : List (Piece α) := text.map .plain

section Append

@[simp] theorem source_append (p q : List (Piece α)) : source (p ++ q) = source p ++ source q := by
  induction p with
  | nil => rfl
  | cons piece rest ih => cases piece <;> simp [source, ih]

@[simp] theorem marks_append (p q : List (Piece α)) : marks (p ++ q) = marks p ++ marks q := by
  induction p with
  | nil => rfl
  | cons piece rest ih => cases piece <;> simp [marks, ih]

@[simp] theorem source_plains (text : List α) : source (plains text) = text := by
  induction text with
  | nil => rfl
  | cons a rest ih => simpa [plains, source] using ih

@[simp] theorem marks_plains (text : List α) : marks (plains text) = [] := by
  induction text with
  | nil => rfl
  | cons a rest ih => simpa [plains, marks] using ih

@[simp] theorem plains_append (a b : List α) : plains (a ++ b) = plains a ++ plains b :=
  List.map_append

theorem mem_source {a : α} {p : List (Piece α)} (h : .plain a ∈ p) : a ∈ source p := by
  induction p with
  | nil => cases h
  | cons piece rest ih =>
    cases piece with
    | plain b =>
      rcases List.mem_cons.mp h with heq | h
      · rw [Piece.plain.inj heq]
        exact List.mem_cons_self
      · exact List.mem_cons_of_mem _ (ih h)
    | mark value =>
      rcases List.mem_cons.mp h with heq | h
      · cases heq
      · exact List.mem_append_right _ (ih h)

theorem render_append {p : List (Piece α)} {new : List (List α)}
    (h : new.length = (marks p).length) (q : List (Piece α)) (later : List (List α)) :
    render (p ++ q) (new ++ later) = render p new ++ render q later := by
  induction p generalizing new with
  | nil =>
    obtain rfl := List.eq_nil_of_length_eq_zero h
    rfl
  | cons piece rest ih =>
    cases piece with
    | plain a => simpa [render] using ih h
    | mark value =>
      cases new with
      | nil => simp [marks] at h
      | cons first new => simpa [render] using ih (by simpa [marks] using h)

@[simp] theorem render_plains (text : List α) (new : List (List α)) :
    render (plains text) new = text := by
  induction text with
  | nil => rfl
  | cons a rest ih => simpa [plains, render] using ih

/-- Two texts agree up to the first separator, and behind it. -/
theorem eq_of_separated {β : Type} {separator : β} {x y z w : List β} (hx : separator ∉ x)
    (hy : separator ∉ y) (h : x ++ separator :: z = y ++ separator :: w) : x = y ∧ z = w := by
  induction x generalizing y with
  | nil =>
    cases y with
    | nil => exact ⟨rfl, (List.cons.inj h).2⟩
    | cons b y => exact absurd (List.cons.inj h).1 (List.ne_of_not_mem_cons hy)
  | cons a x ih =>
    cases y with
    | nil => exact absurd (List.cons.inj h).1.symm (List.ne_of_not_mem_cons hx)
    | cons b y =>
      obtain ⟨rfl, hrest⟩ := List.cons.inj h
      obtain ⟨rfl, hlater⟩ :=
        ih (List.not_mem_of_not_mem_cons hx) (List.not_mem_of_not_mem_cons hy) hrest
      exact ⟨rfl, hlater⟩

end Append

/-! ## Where the marks have been -/

/-- No end of it is a beginning of it again. -/
def SelfApart (a : List α) : Prop :=
  ∀ n x y, 0 < n → n < a.length → a.drop n ++ x ≠ a ++ y

/-- A new part at the front of a result does not come from behind plain characters. -/
theorem render_plain_ne {a : List α} {c : α} {rest : List (Piece α)} {later : List (List α)}
    {x : List α} (happart : SelfApart a) (hnew : ¬a <:+: source (.plain c :: rest)) :
    a ++ x ≠ render (.plain c :: rest) (a :: later) := by
  intro heq
  -- The plain characters up to the next mark.
  obtain ⟨run, tail, hsplit, hpos, htail⟩ : ∃ run tail, .plain c :: rest = plains run ++ tail ∧
      0 < run.length ∧ (tail = [] ∨ ∃ value more, tail = .mark value :: more) := by
    clear heq hnew
    induction rest generalizing c with
    | nil => exact ⟨[c], [], rfl, by simp, .inl rfl⟩
    | cons piece rest ih =>
      cases piece with
      | mark value => exact ⟨[c], _, rfl, by simp, .inr ⟨value, rest, rfl⟩⟩
      | plain d =>
        obtain ⟨run, tail, hsplit, -, htail⟩ := ih (c := d)
        exact ⟨c :: run, tail, by rw [hsplit]; rfl, by simp, htail⟩
  have hrender : ∃ y, (render (.plain c :: rest) (a :: later) = run ++ y) ∧
      (y = [] ∨ ∃ more, y = a ++ more) := by
    have h := @render_append _ (plains run) [] (by simp) tail (a :: later)
    rw [List.nil_append, render_plains, ← hsplit] at h
    refine ⟨_, h, ?_⟩
    rcases htail with rfl | ⟨value, more, rfl⟩
    · exact .inl rfl
    · exact .inr ⟨_, rfl⟩
  obtain ⟨y, hrun, hy⟩ := hrender
  rw [hrun] at heq
  by_cases hlong : a.length ≤ run.length
  · have hprefix : a <+: run :=
      List.prefix_of_prefix_length_le ⟨x, heq⟩ (List.prefix_append run y) hlong
    refine hnew ?_
    rw [hsplit, source_append, source_plains]
    exact hprefix.isInfix.trans (List.prefix_append run _).isInfix
  · have hshort : run <+: a :=
      List.prefix_of_prefix_length_le ⟨y, heq.symm⟩ (List.prefix_append a x) (by omega)
    obtain ⟨back, rfl⟩ := hshort
    have hback : back ++ x = y := by simpa using heq
    have hdrop : (run ++ back).drop run.length = back := by simp
    rw [List.length_append] at hlong
    rcases hy with rfl | ⟨more, rfl⟩
    · obtain ⟨rfl, -⟩ := List.append_eq_nil_iff.mp hback
      simp at hlong
    · refine happart run.length x more hpos (by rw [List.length_append]; omega) ?_
      rw [hdrop, hback]

/-- Two ways to mark a text with one result are the same. -/
theorem eq_of_render {p q : List (Piece α)} {new : List (List α)} (hsource : source p = source q)
    (hmarks : marks p = marks q) (hlength : new.length = (marks p).length)
    (happart : ∀ a ∈ new, SelfApart a) (hnew : ∀ a ∈ new, ¬a <:+: source p)
    (h : render p new = render q new) : p = q := by
  induction p generalizing q new with
  | nil =>
    cases q with
    | nil => rfl
    | cons piece rest =>
      cases piece with
      | plain c => cases hsource
      | mark value => cases hmarks
  | cons piece p ih =>
    have htail : ∀ {head : List α} {rest : List (Piece α)},
        source (piece :: p) = head ++ source rest → ∀ a ∈ new, ¬a <:+: source rest := by
      intro head rest hsplit a ha hinfix
      exact hnew a ha (hsplit ▸ hinfix.trans (List.suffix_append head _).isInfix)
    cases piece with
    | plain c =>
      cases q with
      | nil => cases hsource
      | cons other q =>
        cases other with
        | plain d =>
          obtain ⟨rfl, hrest⟩ := List.cons.inj hsource
          obtain ⟨-, hrender⟩ := List.cons.inj h
          rw [ih hrest hmarks hlength happart (@htail [c] _ rfl) hrender]
        | mark value =>
          cases new with
          | nil =>
            rw [hmarks] at hlength
            cases hlength
          | cons a later =>
            exact absurd h.symm (render_plain_ne (happart a List.mem_cons_self)
              (hnew a List.mem_cons_self))
    | mark value =>
      cases new with
      | nil => cases hlength
      | cons a later =>
        cases q with
        | nil => cases hmarks
        | cons other q =>
          cases other with
          | plain d =>
            refine absurd h (render_plain_ne (happart a List.mem_cons_self) ?_)
            rw [← hsource]
            exact hnew a List.mem_cons_self
          | mark other =>
            obtain ⟨rfl, hrest⟩ := List.cons.inj hmarks
            have hsource : source p = source q := List.append_cancel_left hsource
            have hrender : render p later = render q later := List.append_cancel_left h
            rw [ih hsource hrest (by simpa [marks] using hlength)
              (fun a ha => happart a (List.mem_cons_of_mem _ ha))
              (fun a ha => @htail value _ rfl a (List.mem_cons_of_mem _ ha)) hrender]

end Marks
