import Mathlib.Data.List.Basic

/-!
# Histories

A history is a list that grows at its end. `Follows C past more` says that every
entry of `more` is allowed by what precedes and what follows it, when `more` comes
after `past`. Conditions may look at what follows only in a way that later entries
cannot break.
-/

namespace History

universe u

variable {α : Type u} {C : List α → α → List α → Prop}

/-- Every entry of `more` is allowed where it stands behind `past`. -/
def Follows (C : List α → α → List α → Prop) (past more : List α) : Prop :=
  ∀ before x after, more = before ++ x :: after → C (past ++ before) x after

theorem follows_nil (past : List α) : Follows C past [] := by
  intro before x after h
  simp at h

theorem follows_cons {past more : List α} {x : α} (hx : C past x more)
    (hmore : Follows C (past ++ [x]) more) : Follows C past (x :: more) := by
  intro before y after h
  cases before with
  | nil =>
    cases h
    simpa using hx
  | cons z before =>
    obtain ⟨rfl, rfl⟩ := List.cons.inj h
    simpa using hmore before y after rfl

/-- A history can be continued by entries that are allowed behind it. -/
theorem Follows.append (mono : ∀ before x after more, C before x after → C before x (after ++ more))
    {past a b : List α} (ha : Follows C past a) (hb : Follows C (past ++ a) b) :
    Follows C past (a ++ b) := by
  intro before x after h
  rcases List.append_eq_append_iff.mp h with ⟨mid, rfl, hmid⟩ | ⟨mid, hmid, hafter⟩
  · simpa using hb mid x after hmid
  · cases mid with
    | nil =>
      simp only [List.append_nil] at hmid
      subst hmid
      simpa using hb [] x after (by simpa using hafter.symm)
    | cons y mid =>
      obtain ⟨rfl, rfl⟩ := List.cons.inj hafter
      exact mono _ _ _ _ (ha before x mid hmid)

end History
