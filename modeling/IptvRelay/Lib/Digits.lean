import IptvRelay.Lib.Text
import Mathlib.Algebra.Order.Ring.Rat
import Mathlib.Data.List.Induction
import Mathlib.Data.Nat.Digits.Defs
import Mathlib.Tactic.Linarith

/-!
# Decimal digits

The value of digits before and behind a decimal point. Digits without a zero at the far end
are determined by their value.
-/

namespace Text

def digitOf (c : Char) : Nat := c.toNat - '0'.toNat

theorem isDigit_iff {c : Char} : c.isDigit = true ↔ 48 ≤ c.toNat ∧ c.toNat ≤ 57 := by
  simp only [Char.isDigit, Bool.and_eq_true, decide_eq_true_eq, ge_iff_le, UInt32.le_iff_toNat_le]
  rfl

theorem digitOf_lt {c : Char} (h : c.isDigit = true) : digitOf c < 10 := by
  have hrange := isDigit_iff.mp h
  have hzero : '0'.toNat = 48 := rfl
  unfold digitOf
  omega

theorem digitOf_inj {c d : Char} (hc : c.isDigit = true) (hd : d.isDigit = true)
    (h : digitOf c = digitOf d) : c = d := by
  have hcrange := isDigit_iff.mp hc
  have hdrange := isDigit_iff.mp hd
  have hzero : '0'.toNat = 48 := rfl
  unfold digitOf at h
  exact Char.toNat_inj.mp (by omega)

theorem digitOf_eq_zero {c : Char} (hc : c.isDigit = true) : digitOf c = 0 ↔ c = '0' :=
  ⟨fun h => digitOf_inj hc (by decide) h, fun h => h ▸ rfl⟩

theorem map_digitOf_inj {first second : List Char} (hfirst : ∀ c ∈ first, c.isDigit = true)
    (hsecond : ∀ c ∈ second, c.isDigit = true)
    (h : first.map digitOf = second.map digitOf) : first = second := by
  induction first generalizing second with
  | nil => exact (List.map_eq_nil_iff.mp h.symm).symm
  | cons c first ih =>
    cases second with
    | nil => cases h
    | cons d second =>
      obtain ⟨hhead, htail⟩ := List.cons.inj h
      rw [digitOf_inj (hfirst c List.mem_cons_self) (hsecond d List.mem_cons_self) hhead,
        ih (fun c hc => hfirst c (List.mem_cons_of_mem _ hc))
          (fun d hd => hsecond d (List.mem_cons_of_mem _ hd)) htail]

/-! ## Whole numbers -/

theorem digitsValue_concat (text : List Char) (c : Char) :
    digitsValue (text ++ [c]) = 10 * digitsValue text + digitOf c := by
  unfold digitsValue
  rw [List.foldl_concat]
  rfl

theorem digitsValue_eq_ofDigits (text : List Char) :
    digitsValue text = Nat.ofDigits 10 (text.map digitOf).reverse := by
  induction text using List.reverseRecOn with
  | nil => rfl
  | append_singleton text c ih =>
    rw [digitsValue_concat, ih, List.map_append, List.reverse_append, List.map_singleton,
      List.reverse_singleton, List.singleton_append, Nat.ofDigits_cons, Nat.add_comm]

/-- Zeros before a number do not count. -/
theorem digitsValue_dropWhile (text : List Char) :
    digitsValue (text.dropWhile (· = '0')) = digitsValue text := by
  induction text with
  | nil => rfl
  | cons c text ih =>
    by_cases hc : c = '0'
    · rw [List.dropWhile_cons_of_pos (by simp [hc]), ih, hc]
      rfl
    · rw [List.dropWhile_cons_of_neg (by simp [hc])]

/-- Digits without a leading zero are determined by their value. -/
theorem eq_of_digitsValue {first second : List Char} (hfirst : ∀ c ∈ first, c.isDigit = true)
    (hsecond : ∀ c ∈ second, c.isDigit = true) (hhead : first.head? ≠ some '0')
    (hhead' : second.head? ≠ some '0') (h : digitsValue first = digitsValue second) :
    first = second := by
  have hdigits : ∀ text : List Char, (∀ c ∈ text, c.isDigit = true) → text.head? ≠ some '0' →
      Nat.digits 10 (digitsValue text) = (text.map digitOf).reverse := by
    intro text htext hhead
    rw [digitsValue_eq_ofDigits]
    refine Nat.digits_ofDigits 10 (by omega) _ ?_ ?_
    · intro digit hdigit
      obtain ⟨c, hc, rfl⟩ := List.mem_map.mp (List.mem_reverse.mp hdigit)
      exact digitOf_lt (htext c hc)
    · intro hne hlast
      cases text with
      | nil => exact hne rfl
      | cons c text =>
        rw [List.getLast_reverse] at hlast
        have hzero := (digitOf_eq_zero (htext c List.mem_cons_self)).mp hlast
        exact hhead (congrArg some hzero)
  have hsame := hdigits first hfirst hhead
  rw [h, hdigits second hsecond hhead'] at hsame
  exact map_digitOf_inj hfirst hsecond (List.reverse_inj.mp hsame).symm

/-! ## Numbers of a fixed width -/

/-- The last digits of a number. -/
def padded : Nat → Nat → List Char
  | 0, _ => []
  | width + 1, n => padded width (n / 10) ++ [Nat.digitChar (n % 10)]

theorem isDigit_of_mem_padded {width n : Nat} {c : Char} (h : c ∈ padded width n) :
    c.isDigit = true := by
  fun_induction padded width n with
  | case1 => cases h
  | case2 n width ih =>
    rcases List.mem_append.mp h with h | h
    · exact ih h
    · rw [List.mem_singleton.mp h, Nat.isDigit_digitChar]
      exact decide_eq_true (Nat.mod_lt _ (by omega))

theorem digitOf_digitChar {d : Nat} (h : d < 10) : digitOf (Nat.digitChar d) = d :=
  (by decide : ∀ d : Fin 10, digitOf (Nat.digitChar d) = d) ⟨d, h⟩

theorem digitChar_digitOf {c : Char} (h : c.isDigit = true) : Nat.digitChar (digitOf c) = c :=
  digitOf_inj (by rw [Nat.isDigit_digitChar]; exact decide_eq_true (digitOf_lt h)) h
    (digitOf_digitChar (digitOf_lt h))

@[simp]
theorem length_padded (width n : Nat) : (padded width n).length = width := by
  fun_induction padded width n with
  | case1 => rfl
  | case2 n width ih => rw [List.length_append, ih, List.length_singleton]

/-- A number is what its digits stand for, if they are enough. -/
theorem digitsValue_padded {width n : Nat} (h : n < 10 ^ width) :
    digitsValue (padded width n) = n := by
  fun_induction padded width n with
  | case1 => exact (Nat.lt_one_iff.mp h).symm
  | case2 n width ih =>
    rw [digitsValue_concat, ih (by omega), digitOf_digitChar (Nat.mod_lt _ (by omega))]
    omega

/-- Digits are those of their value. -/
theorem padded_digitsValue {text : List Char} (h : ∀ c ∈ text, c.isDigit = true) :
    padded text.length (digitsValue text) = text := by
  induction text using List.reverseRecOn with
  | nil => rfl
  | append_singleton text c ih =>
    obtain ⟨htext, hc⟩ := List.forall_mem_append.mp h
    have hdigit := hc c (List.mem_singleton.mpr rfl)
    have hlt := digitOf_lt hdigit
    rw [List.length_append, List.length_singleton, padded, digitsValue_concat,
      show (10 * digitsValue text + digitOf c) / 10 = digitsValue text by omega,
      show (10 * digitsValue text + digitOf c) % 10 = digitOf c by omega, ih htext,
      digitChar_digitOf hdigit]

theorem digitsValue_lt {text : List Char} (h : ∀ c ∈ text, c.isDigit = true) :
    digitsValue text < 10 ^ text.length := by
  induction text using List.reverseRecOn with
  | nil => exact Nat.one_pos
  | append_singleton text c ih =>
    obtain ⟨htext, hc⟩ := List.forall_mem_append.mp h
    have hvalue := ih htext
    have hlt := digitOf_lt (hc c (List.mem_singleton.mpr rfl))
    rw [digitsValue_concat, List.length_append, List.length_singleton, Nat.pow_succ]
    omega

/-! ## Fractions -/

/-- The value of the digits behind a decimal point. -/
def fractionValue : List Char → ℚ
  | [] => 0
  | c :: rest => (digitOf c + fractionValue rest) / 10

theorem fractionValue_nonneg (text : List Char) : 0 ≤ fractionValue text := by
  induction text with
  | nil => exact le_rfl
  | cons c rest ih =>
    unfold fractionValue
    have hdigit : (0 : ℚ) ≤ digitOf c := Nat.cast_nonneg _
    linarith

theorem fractionValue_lt_one {text : List Char} (h : ∀ c ∈ text, c.isDigit = true) :
    fractionValue text < 1 := by
  induction text with
  | nil => exact zero_lt_one
  | cons c rest ih =>
    have hrest := ih fun d hd => h d (List.mem_cons_of_mem _ hd)
    have hdigit : (digitOf c : ℚ) ≤ 9 := by
      exact_mod_cast Nat.le_of_lt_succ (digitOf_lt (h c List.mem_cons_self))
    unfold fractionValue
    linarith

/-- A whole number and a fraction of equal sums are equal. -/
theorem eq_of_add_fraction {m n : Nat} {x y : ℚ} (hx : 0 ≤ x ∧ x < 1) (hy : 0 ≤ y ∧ y < 1)
    (h : (m : ℚ) + x = n + y) : m = n ∧ x = y := by
  have hmn : m = n := by
    rcases lt_trichotomy m n with hlt | heq | hlt
    · have hle : ((m : ℚ) + 1) ≤ n := by exact_mod_cast hlt
      linarith
    · exact heq
    · have hle : ((n : ℚ) + 1) ≤ m := by exact_mod_cast hlt
      linarith
  subst hmn
  exact ⟨rfl, by linarith⟩

theorem fractionValue_concat_zero (text : List Char) :
    fractionValue (text ++ ['0']) = fractionValue text := by
  induction text with
  | nil => norm_num [fractionValue, digitOf]
  | cons c rest ih => rw [List.cons_append, fractionValue, fractionValue, ih]

/-- Without the zeros at the end. -/
def stripZeros (text : List Char) : List Char := (text.reverse.dropWhile (· = '0')).reverse

theorem stripZeros_concat_zero (text : List Char) : stripZeros (text ++ ['0']) = stripZeros text := by
  rw [stripZeros, List.reverse_concat, List.dropWhile_cons_of_pos (by decide), stripZeros]

theorem stripZeros_concat {c : Char} (hc : c ≠ '0') (text : List Char) :
    stripZeros (text ++ [c]) = text ++ [c] := by
  rw [stripZeros, List.reverse_concat, List.dropWhile_cons_of_neg (by simpa using hc),
    List.reverse_cons, List.reverse_reverse]

/-- Zeros behind a fraction do not count. -/
theorem fractionValue_stripZeros (text : List Char) :
    fractionValue (stripZeros text) = fractionValue text := by
  induction text using List.reverseRecOn with
  | nil => rfl
  | append_singleton text c ih =>
    by_cases hc : c = '0'
    · rw [hc, stripZeros_concat_zero, ih, fractionValue_concat_zero]
    · rw [stripZeros_concat hc]

theorem getLast_stripZeros (text : List Char) : (stripZeros text).getLast? ≠ some '0' := by
  induction text using List.reverseRecOn with
  | nil => decide
  | append_singleton text c ih =>
    by_cases hc : c = '0'
    · rwa [hc, stripZeros_concat_zero]
    · rw [stripZeros_concat hc, List.getLast?_concat]
      exact fun h => hc (Option.some.inj h)

theorem stripZeros_of_getLast {text : List Char} (h : text.getLast? ≠ some '0') :
    stripZeros text = text := by
  induction text using List.reverseRecOn with
  | nil => rfl
  | append_singleton text c =>
    rw [List.getLast?_concat] at h
    exact stripZeros_concat (fun hc => h (congrArg some hc)) text

theorem stripZeros_sublist (text : List Char) : (stripZeros text).Sublist text := by
  have hdrop := (List.dropWhile_sublist (l := text.reverse) (· = '0')).reverse
  rwa [List.reverse_reverse] at hdrop

theorem getLast_of_cons {c : Char} {rest : List Char} (h : (c :: rest).getLast? ≠ some '0') :
    rest.getLast? ≠ some '0' := by
  cases rest with
  | nil => exact fun hnil => by cases hnil
  | cons d rest => rwa [List.getLast?_cons_cons] at h

/-- Only nothing and zeros stand for zero. -/
theorem eq_nil_of_fractionValue {text : List Char} (hdigits : ∀ c ∈ text, c.isDigit = true)
    (hlast : text.getLast? ≠ some '0') (h : fractionValue text = 0) : text = [] := by
  induction text with
  | nil => rfl
  | cons c rest ih =>
    exfalso
    have hnonneg := fractionValue_nonneg rest
    have hdigit : (0 : ℚ) ≤ digitOf c := Nat.cast_nonneg _
    unfold fractionValue at h
    have hzero : (digitOf c : ℚ) = 0 := by linarith
    have hrest : fractionValue rest = 0 := by linarith
    have hnil := ih (fun d hd => hdigits d (List.mem_cons_of_mem _ hd)) (getLast_of_cons hlast) hrest
    subst hnil
    have hc := (digitOf_eq_zero (hdigits c List.mem_cons_self)).mp (by exact_mod_cast hzero)
    exact hlast (by rw [hc]; rfl)

/-- Digits without a zero at the end are determined by their value. -/
theorem eq_of_fractionValue {first second : List Char} (hfirst : ∀ c ∈ first, c.isDigit = true)
    (hsecond : ∀ c ∈ second, c.isDigit = true) (hlast : first.getLast? ≠ some '0')
    (hlast' : second.getLast? ≠ some '0') (h : fractionValue first = fractionValue second) :
    first = second := by
  induction first generalizing second with
  | nil => exact (eq_nil_of_fractionValue hsecond hlast' h.symm).symm
  | cons c first ih =>
    cases second with
    | nil => exact eq_nil_of_fractionValue hfirst hlast h
    | cons d second =>
      have hrest : ∀ e ∈ first, e.isDigit = true := fun e he => hfirst e (List.mem_cons_of_mem _ he)
      have hrest' : ∀ e ∈ second, e.isDigit = true :=
        fun e he => hsecond e (List.mem_cons_of_mem _ he)
      unfold fractionValue at h
      obtain ⟨hdigit, hvalue⟩ := eq_of_add_fraction
        ⟨fractionValue_nonneg first, fractionValue_lt_one hrest⟩
        ⟨fractionValue_nonneg second, fractionValue_lt_one hrest'⟩
        (by linarith : (digitOf c : ℚ) + fractionValue first = digitOf d + fractionValue second)
      rw [digitOf_inj (hfirst c List.mem_cons_self) (hsecond d List.mem_cons_self) hdigit,
        ih hrest hrest' (getLast_of_cons hlast) (getLast_of_cons hlast') hvalue]

end Text
