import Mathlib.Logic.Basic

/-!
# Checked computations

Code that returns at the first failed check, as a computation in `Except` or `Option`. A
result says that every check before it has passed.
-/

namespace Checked

universe u v

variable {ε : Type u} {α β : Type v}

/-- Go on if the check holds. -/
def ensure (check : Prop) [Decidable check] (error : ε) : Except ε PUnit.{v + 1} :=
  if check then .ok ⟨⟩ else .error error

theorem of_ensure {check : Prop} [Decidable check] {error : ε} {x : PUnit.{v + 1}}
    (h : ensure check error = .ok x) : check := by
  unfold ensure at h
  split at h
  · assumption
  · cases h

theorem ensure_bind {check : Prop} [Decidable check] {error : ε} (h : check)
    (next : PUnit.{v + 1} → Except ε β) : (ensure check error >>= next) = next ⟨⟩ := by
  rw [ensure, if_pos h]
  rfl

theorem ok_bind (a : α) (next : α → Except ε β) : (Except.ok a >>= next) = next a := rfl

/-- A result of a sequence passes through a result of its first part. -/
theorem of_bind {first : Except ε α} {next : α → Except ε β} {result : β}
    (h : (first >>= next) = .ok result) : ∃ a, first = .ok a ∧ next a = .ok result := by
  cases first with
  | error error => cases h
  | ok a => exact ⟨a, rfl, h⟩

/-- An error of a sequence is the error of one of its parts. -/
theorem error_of_bind {first : Except ε α} {next : α → Except ε β} {error : ε}
    (h : (first >>= next) = .error error) :
    first = .error error ∨ ∃ a, first = .ok a ∧ next a = .error error := by
  cases first with
  | error other => exact .inl (congrArg Except.error (Except.error.inj h))
  | ok a => exact .inr ⟨a, rfl, h⟩

theorem error_of_ensure {check : Prop} [Decidable check] {error other : ε}
    (h : (ensure check error : Except ε PUnit.{v + 1}) = .error other) :
    ¬check ∧ error = other := by
  unfold ensure at h
  split at h
  · cases h
  · exact ⟨by assumption, Except.error.inj h⟩

theorem of_pure {a result : α} (h : (pure a : Except ε α) = .ok result) : a = result := by
  cases h
  rfl

theorem of_toOption {first : Except ε α} {a : α} (h : first.toOption = some a) : first = .ok a := by
  cases first with
  | error error => cases h
  | ok b =>
    obtain rfl := Option.some.inj h
    rfl

theorem guard_bind {γ : Type} {check : Prop} [Decidable check] (hcheck : check)
    (next : Unit → Option γ) : ((guard check : Option Unit) >>= next) = next () := by
  have hguard : (guard check : Option Unit) = some () := if_pos hcheck
  rw [hguard]
  rfl

theorem of_guard {γ : Type} {check : Prop} [Decidable check] {next : Unit → Option γ} {result : γ}
    (h : ((guard check : Option Unit) >>= next) = some result) :
    check ∧ next () = some result := by
  by_cases hcheck : check
  · exact ⟨hcheck, guard_bind hcheck next ▸ h⟩
  · have hguard : (guard check : Option Unit) = none := if_neg hcheck
    rw [hguard] at h
    cases h

theorem mapM_cons_ok {γ δ : Type} {f : γ → Except ε δ} {x : γ} {xs : List γ} {ys : List δ}
    (h : (x :: xs).mapM f = .ok ys) :
    ∃ y rest, f x = .ok y ∧ xs.mapM f = .ok rest ∧ ys = y :: rest := by
  rw [List.mapM_cons] at h
  obtain ⟨y, hy, h⟩ := of_bind h
  obtain ⟨rest, hrest, h⟩ := of_bind h
  exact ⟨y, rest, hy, hrest, (of_pure h).symm⟩

theorem mapM_cons_eq {γ δ : Type} {f : γ → Except ε δ} {x : γ} {xs : List γ} {y : δ}
    {rest : List δ} (hx : f x = .ok y) (hxs : xs.mapM f = .ok rest) :
    (x :: xs).mapM f = .ok (y :: rest) := by
  rw [List.mapM_cons, hx, hxs]
  rfl

/-- Computations that all have a result. -/
theorem mapM_eq_map {γ δ : Type} {f : γ → Except ε δ} {g : γ → δ} {xs : List γ}
    (h : ∀ x ∈ xs, f x = .ok (g x)) : xs.mapM f = .ok (xs.map g) := by
  induction xs with
  | nil => rfl
  | cons x xs ih =>
    exact mapM_cons_eq (h x List.mem_cons_self) (ih fun y hy => h y (List.mem_cons_of_mem x hy))

/-- A loop over checks passes all of them. -/
theorem forM_ok_iff {γ : Type} {f : γ → Except ε Unit} {xs : List γ} :
    xs.forM f = .ok () ↔ ∀ x ∈ xs, f x = .ok () := by
  induction xs with
  | nil => exact ⟨fun _ x hx => (by cases hx), fun _ => rfl⟩
  | cons x xs ih =>
    have hcons : (x :: xs).forM f = (f x >>= fun _ => xs.forM f) := rfl
    rw [hcons, List.forall_mem_cons]
    constructor
    · intro h
      obtain ⟨⟨⟩, hx, hxs⟩ := of_bind h
      exact ⟨hx, ih.mp hxs⟩
    · rintro ⟨hx, hxs⟩
      rw [hx, ok_bind, ih.mpr hxs]

/-- One computation without a result is enough for the sequence to have none. -/
theorem mapM_ne_ok {γ δ : Type} {f : γ → Except ε δ} {xs : List γ} {x : γ} (hx : x ∈ xs)
    (h : ∀ y, f x ≠ .ok y) (ys : List δ) : xs.mapM f ≠ .ok ys := by
  induction xs generalizing ys with
  | nil => cases hx
  | cons first rest ih =>
    intro hok
    obtain ⟨y, others, hfirst, hrest, -⟩ := mapM_cons_ok hok
    rcases List.mem_cons.mp hx with rfl | hx
    · exact h y hfirst
    · exact ih hx others hrest

/-- Every result of a sequence of checked computations is the result of one of them. -/
theorem mem_of_mapM {γ δ : Type} {f : γ → Except ε δ} {xs : List γ} {ys : List δ} {y : δ}
    (h : xs.mapM f = .ok ys) (hy : y ∈ ys) : ∃ x ∈ xs, f x = .ok y := by
  induction xs generalizing ys with
  | nil =>
    obtain rfl := of_pure h
    cases hy
  | cons x xs ih =>
    obtain ⟨z, rest, hz, hrest, rfl⟩ := mapM_cons_ok h
    rcases List.mem_cons.mp hy with rfl | hy
    · exact ⟨x, List.mem_cons_self, hz⟩
    · obtain ⟨w, hw, hwy⟩ := ih hrest hy
      exact ⟨w, List.mem_cons_of_mem _ hw, hwy⟩

/-- When all computations of a list have a result, so do they in any order. -/
theorem mapM_perm {γ δ : Type} {f : γ → Except ε δ} {xs xs' : List γ} (hperm : xs.Perm xs')
    {ys : List δ} (h : xs.mapM f = .ok ys) : ∃ ys', xs'.mapM f = .ok ys' ∧ ys.Perm ys' := by
  induction hperm generalizing ys with
  | nil => exact ⟨ys, h, .refl ys⟩
  | cons x _ ih =>
    obtain ⟨y, rest, hy, hrest, rfl⟩ := mapM_cons_ok h
    obtain ⟨rest', hrest', hperm⟩ := ih hrest
    exact ⟨y :: rest', mapM_cons_eq hy hrest', hperm.cons y⟩
  | swap x x' xs =>
    obtain ⟨y, rest, hy, hrest, rfl⟩ := mapM_cons_ok h
    obtain ⟨y', rest', hy', hrest', rfl⟩ := mapM_cons_ok hrest
    exact ⟨y' :: y :: rest', mapM_cons_eq hy' (mapM_cons_eq hy hrest'), .swap y' y rest'⟩
  | trans _ _ ih ih' =>
    obtain ⟨middle, hmiddle, hfirst⟩ := ih h
    obtain ⟨last, hlast, hsecond⟩ := ih' hmiddle
    exact ⟨last, hlast, hfirst.trans hsecond⟩

end Checked
