import IptvRelay.Media.Psi

/-!
# The bit reader of the passive analyzer

Model of `BitReader` in `passive.rs`. Values are `u32` and `i32` in the source;
every addition is checked, so that a parse can stop because the source returns
`None` or because an arithmetic step overflows. Beside each descriptor stands the
one of H.264 over unbounded integers; the two are the same parser.
-/

namespace IptvRelay.Media.Sps

/-- Why a parse stops: the source returns `None`, or a step overflows. -/
inductive Stop where
  | absent
  | overflow
  deriving DecidableEq, Repr

structure BitReader where
  data : Bytes
  position : Nat := 0
  deriving DecidableEq, Repr

abbrev Parser := StateT BitReader (Except Stop)

/-- The value of an unchecked `u32` operation. -/
def u32 (n : Nat) : Except Stop Nat := if n < 2 ^ 32 then .ok n else .error .overflow

def add32 (a b : Nat) : Except Stop Nat := u32 (a + b)

def mul32 (a b : Nat) : Except Stop Nat := u32 (a * b)

def addI32 (a b : Int) : Except Stop Int :=
  if -2147483648 ≤ a + b ∧ a + b < 2147483648 then .ok (a + b) else .error .overflow

/-- `u32::checked_add`. -/
def checkedAdd (a b : Nat) : Except Stop Nat :=
  if a + b < 2 ^ 32 then .ok (a + b) else .error .absent

/-- `u32::checked_sub`. -/
def checkedSub (a b : Nat) : Except Stop Nat := if b ≤ a then .ok (a - b) else .error .absent

/-! ## Descriptors -/

def bit : Parser (Fin 2) := fun self =>
  match self.data[self.position / 8]? with
  | none => .error .absent
  | some byte =>
    .ok (Fin.ofNat 2 (byte.toNat >>> (7 - self.position % 8)),
      { self with position := self.position + 1 })

/-- A bit that only some streams have and nobody reads. -/
def skipBit (present : Bool) : Parser Unit :=
  if present then bit >>= fun _ => pure () else pure ()

/-- The loop of `bits`; the shift drops what leaves 32 bits. -/
def bitsFrom (value : Nat) : Nat → Parser Nat
  | 0 => pure value
  | count + 1 => bit >>= fun next => bitsFrom ((value <<< 1) % 2 ^ 32 ||| next.val) count

def bits (count : Nat) : Parser Nat := bitsFrom 0 count

/-- The loop of `ue` with `left` further zeros before the code is too long. -/
def countZeros (zeros : Nat) : Nat → Parser Nat
  | 0 => bit >>= fun next => if next = 0 then throw .absent else pure zeros
  | left + 1 => bit >>= fun next => if next = 0 then countZeros (zeros + 1) left else pure zeros

def ue : Parser Nat := do
  let zeros ← countZeros 0 31
  let rest ← bits zeros
  add32 (2 ^ zeros - 1) rest

def se : Parser Int := do
  let value ← ue
  let magnitude := (value + 1) / 2
  if 2 ^ 31 ≤ magnitude then throw .absent
  else return if value % 2 = 1 then (magnitude : Int) else -magnitude

/-- `u(n)`: the number that `count` bits write after `value`. -/
def numberFrom (value : Nat) : Nat → Parser Nat
  | 0 => pure value
  | count + 1 => bit >>= fun next => numberFrom (2 * value + next.val) count

def number (count : Nat) : Parser Nat := numberFrom 0 count

/-- `ue(v)` over unbounded integers. -/
def codeNumber : Parser Nat := do
  let zeros ← countZeros 0 31
  let rest ← number zeros
  return 2 ^ zeros - 1 + rest

/-- `se(v)` over unbounded integers. -/
def mappedNumber : Parser Int := do
  let value ← codeNumber
  return if value % 2 = 1 then ((value + 1) / 2 : Nat) else -((value + 1) / 2 : Nat)

/-! ## Parsers that never overflow -/

theorem u32_ok {n : Nat} (h : n < 2 ^ 32) : u32 n = .ok n := if_pos h

theorem u32_overflow {n : Nat} (h : ¬ n < 2 ^ 32) : u32 n = .error .overflow := if_neg h

variable {α β : Type}

/-- The parser never overflows, and what it returns satisfies `post`. -/
def Safe (p : Parser α) (post : α → Prop) : Prop :=
  ∀ r, (∃ a r', p r = .ok (a, r') ∧ post a) ∨ p r = .error .absent

theorem safe_pure {a : α} {post : α → Prop} (h : post a) : Safe (pure a) post :=
  fun r => .inl ⟨a, r, rfl, h⟩

theorem safe_absent (post : α → Prop) : Safe (throw .absent) post := fun _ => .inr rfl

theorem run_bind (p : Parser α) (f : α → Parser β) (r : BitReader) :
    (p >>= f) r = p r >>= fun result => f result.1 result.2 := rfl

theorem run_lift (x : Except Stop α) (r : BitReader) :
    (liftM x : Parser α) r = x.map fun a => (a, r) := by
  cases x <;> rfl

theorem safe_checkedAdd (a b : Nat) :
    Safe (liftM (checkedAdd a b)) fun sum => sum = a + b := by
  intro r
  rw [run_lift, checkedAdd]
  split
  · exact .inl ⟨_, r, rfl, rfl⟩
  · exact .inr rfl

theorem Safe.bind {p : Parser α} {f : α → Parser β} {mid : α → Prop} {post : β → Prop}
    (hp : Safe p mid) (hf : ∀ a, mid a → Safe (f a) post) : Safe (p >>= f) post := by
  intro r
  rw [run_bind]
  rcases hp r with ⟨a, r', hok, ha⟩ | habsent
  · rw [hok]
    exact hf a ha r'
  · rw [habsent]
    exact .inr rfl

theorem Safe.mono {p : Parser α} {post weaker : α → Prop} (h : Safe p post)
    (hweak : ∀ a, post a → weaker a) : Safe p weaker := by
  intro r
  rcases h r with ⟨a, r', hok, ha⟩ | habsent
  · exact .inl ⟨a, r', hok, hweak a ha⟩
  · exact .inr habsent

/-- Continuations that agree on what the first parser can return. -/
theorem Safe.bind_congr {p : Parser α} {f g : α → Parser β} {mid : α → Prop} (hp : Safe p mid)
    (h : ∀ a, mid a → f a = g a) : p >>= f = p >>= g := by
  funext r
  rw [run_bind, run_bind]
  rcases hp r with ⟨a, r', hok, ha⟩ | habsent
  · rw [hok]
    exact congrFun (h a ha) r'
  · rw [habsent]
    rfl

theorem safe_bit : Safe bit fun _ => True := by
  intro r
  unfold bit
  split
  · exact .inr rfl
  · exact .inl ⟨_, _, rfl, trivial⟩

theorem safe_skipBit (present : Bool) : Safe (skipBit present) fun _ => True := by
  unfold skipBit
  split
  · exact safe_bit.bind fun _ _ => safe_pure trivial
  · exact safe_pure trivial

theorem safe_numberFrom (value count : Nat) :
    Safe (numberFrom value count) fun n => n < (value + 1) * 2 ^ count := by
  induction count generalizing value with
  | zero => exact safe_pure (by simp)
  | succ count ih =>
    refine safe_bit.bind fun next _ => (ih (2 * value + next.val)).mono fun n hn => ?_
    calc n < (2 * value + next.val + 1) * 2 ^ count := hn
      _ ≤ (2 * (value + 1)) * 2 ^ count := Nat.mul_le_mul_right _ (by omega)
      _ = (value + 1) * 2 ^ (count + 1) := by rw [Nat.pow_succ]; ring

theorem safe_number (count : Nat) : Safe (number count) fun n => n < 2 ^ count := by
  simpa [number] using safe_numberFrom 0 count

theorem safe_countZeros (zeros left : Nat) :
    Safe (countZeros zeros left) fun n => n ≤ zeros + left := by
  induction left generalizing zeros with
  | zero =>
    refine safe_bit.bind fun next _ => ?_
    split
    · exact safe_absent _
    · exact safe_pure (by omega)
  | succ left ih =>
    refine safe_bit.bind fun next _ => ?_
    split
    · exact (ih (zeros + 1)).mono fun n hn => by omega
    · exact safe_pure (by omega)

/-! ## The descriptors are exact -/

/-- Up to 32 bits nothing is shifted out. -/
theorem bitsFrom_eq {value width count : Nat} (hvalue : value < 2 ^ width)
    (hfits : width + count ≤ 32) : bitsFrom value count = numberFrom value count := by
  induction count generalizing value width with
  | zero => rfl
  | succ count ih =>
    refine safe_bit.bind_congr fun next _ => ?_
    have hnext := next.isLt
    have hbound : 2 * value + next.val < 2 ^ (width + 1) := by
      rw [Nat.pow_succ]
      omega
    have hroom : 2 ^ (width + 1) ≤ 2 ^ 32 := Nat.pow_le_pow_right (by decide) (by omega)
    have hshift : (value <<< 1) % 2 ^ 32 ||| next.val = 2 * value + next.val := by
      rw [Nat.mod_eq_of_lt (by rw [Nat.shiftLeft_eq]; omega),
        ← Nat.shiftLeft_add_eq_or_of_lt (i := 1) (by omega), Nat.shiftLeft_eq]
      omega
    rw [hshift]
    exact ih hbound (by omega)

theorem bits_eq {count : Nat} (h : count ≤ 32) : bits count = number count :=
  bitsFrom_eq (show 0 < 2 ^ 0 by decide) (by omega)

theorem ue_eq : ue = codeNumber := by
  refine (safe_countZeros 0 31).bind_congr fun zeros hzeros => ?_
  rw [bits_eq (by omega)]
  refine (safe_number zeros).bind_congr fun rest hrest => ?_
  have hpow : 2 ^ zeros ≤ 2 ^ 31 := Nat.pow_le_pow_right (by decide) (by omega)
  rw [add32, u32_ok (by omega)]
  rfl

/-- Code numbers stay below the largest `u32`. -/
theorem safe_codeNumber : Safe codeNumber fun n => n < 2 ^ 32 - 1 := by
  refine (safe_countZeros 0 31).bind fun zeros hzeros => ?_
  refine (safe_number zeros).bind fun rest hrest => safe_pure ?_
  have hpow : 2 ^ zeros ≤ 2 ^ 31 := Nat.pow_le_pow_right (by decide) (by omega)
  have hpos := Nat.two_pow_pos zeros
  omega

theorem se_eq : se = mappedNumber := by
  unfold se
  rw [ue_eq]
  refine safe_codeNumber.bind_congr fun value hvalue => ?_
  dsimp only
  rw [if_neg (by omega)]

theorem safe_mappedNumber : Safe mappedNumber fun delta => -2147483648 < delta := by
  refine safe_codeNumber.bind fun value hvalue => safe_pure ?_
  split <;> omega

end IptvRelay.Media.Sps
