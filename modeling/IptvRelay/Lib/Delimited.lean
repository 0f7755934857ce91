import Mathlib.Data.List.Infix
import Mathlib.Logic.Function.Basic

/-!
# Self-delimiting codes

A code is self-delimiting when no code word begins another. What follows a code word then
cannot be mistaken for a part of it, and a list of code words has only one reading.
-/

namespace Delimited

universe u v

variable {α : Type u} {β : Type v} {γ : Type}

/-- No code word begins the code word of something else. -/
def SelfDelimiting (encode : α → List γ) : Prop := ∀ a b, encode a <+: encode b → a = b

variable {encode : α → List γ} {other : β → List γ}

/-- Codes of one length. -/
theorem SelfDelimiting.of_length {n : Nat} (hlength : ∀ a, (encode a).length = n)
    (hinj : Function.Injective encode) : SelfDelimiting encode := by
  intro a b hab
  apply hinj
  exact hab.eq_of_length ((hlength a).trans (hlength b).symm)

/-- Behind equal code words stand equal rests. -/
theorem SelfDelimiting.append_inj (h : SelfDelimiting encode) {a b : α} {r s : List γ}
    (heq : encode a ++ r = encode b ++ s) : a = b ∧ r = s := by
  have ha : encode a <+: encode a ++ r := List.prefix_append _ _
  have hb : encode b <+: encode a ++ r := heq ▸ List.prefix_append _ _
  have hab : a = b := by
    rcases List.prefix_or_prefix_of_prefix ha hb with hpre | hpre
    · exact h a b hpre
    · exact (h b a hpre).symm
  subst hab
  exact ⟨rfl, List.append_cancel_left heq⟩

/-- One code word behind another. -/
theorem SelfDelimiting.pair (h : SelfDelimiting encode) (hother : SelfDelimiting other) :
    SelfDelimiting fun pair : α × β => encode pair.1 ++ other pair.2 := by
  rintro ⟨a, x⟩ ⟨b, y⟩ ⟨rest, hrest⟩
  rw [List.append_assoc] at hrest
  obtain ⟨hab, htail⟩ := h.append_inj hrest
  have hxy : x = y := hother x y ⟨rest, htail⟩
  exact Prod.ext hab hxy

/-- A list of code words has one reading. -/
theorem SelfDelimiting.flatMap_injective (h : SelfDelimiting encode)
    (hne : ∀ a, encode a ≠ []) : Function.Injective (List.flatMap encode) := by
  intro xs ys heq
  induction xs generalizing ys with
  | nil =>
    cases ys with
    | nil => rfl
    | cons y ys =>
      rw [List.flatMap_nil, List.flatMap_cons] at heq
      exact absurd (List.append_eq_nil_iff.mp heq.symm).1 (hne y)
  | cons x xs ih =>
    cases ys with
    | nil =>
      rw [List.flatMap_nil, List.flatMap_cons] at heq
      exact absurd (List.append_eq_nil_iff.mp heq).1 (hne x)
    | cons y ys =>
      rw [List.flatMap_cons, List.flatMap_cons] at heq
      obtain ⟨hxy, hrest⟩ := h.append_inj heq
      rw [hxy, ih hrest]

end Delimited
