import IptvRelay.Lib.Checked
import IptvRelay.Media.BitReader

/-!
# The picture size of a sequence parameter set

Model of `parse_sps` in `passive.rs` up to the frame rate. Macroblock counts,
cropping offsets and scaling-list deltas come straight from the stream. The
syntax elements are decoded a second time over unbounded integers, and the size
of the picture is the formula of H.264 over these.
-/

namespace IptvRelay.Media.Sps

structure SpsInfo where
  width : Nat
  height : Nat
  deriving DecidableEq, Repr

/-- The profiles whose parameter sets carry the chroma format. -/
def highProfiles : List Nat := [100, 110, 122, 244, 44, 83, 86, 118, 128, 138, 139, 134, 135]

/-- The syntax elements from the frame number length to the cropping offsets. -/
structure SpsFrame where
  widthMbs : Nat
  heightMapUnits : Nat
  frameMbsOnly : Fin 2
  cropLeft : Nat
  cropRight : Nat
  cropTop : Nat
  cropBottom : Nat
  deriving DecidableEq, Repr

/-! ## The parser -/

/-- The chroma format and the number of scaling lists that follow. -/
def readProfile (bits : Nat → Parser Nat) (ue : Parser Nat) : Parser (Nat × Nat) := do
  let profile ← bits 8
  let _ ← bits 16
  let _ ← ue
  if profile ∈ highProfiles then
    let chromaFormat ← ue
    skipBit (chromaFormat = 3)
    let _ ← ue
    let _ ← ue
    let _ ← bit
    let scaling ← bit
    return (chromaFormat, if scaling.val = 1 then (if chromaFormat = 3 then 12 else 8) else 0)
  else return (1, 0)

/-- The next scale of a scaling list. -/
def nextScale (last : Int) : Parser Int := do
  let delta ← se
  let sum ← addI32 last delta
  let shifted ← addI32 sum 256
  return shifted % 256

def skipScalingFrom (last next : Int) : Nat → Parser Unit
  | 0 => pure ()
  | size + 1 =>
    (if next ≠ 0 then nextScale last else pure next) >>= fun next =>
      skipScalingFrom (if next ≠ 0 then next else last) next size

def skipScalingList (size : Nat) : Parser Unit := skipScalingFrom 8 8 size

/-- The lists from number `index` on, as many as the second argument says. -/
def skipScalingLists (index : Nat) : Nat → Parser Unit
  | 0 => pure ()
  | lists + 1 =>
    bit >>= fun present =>
      (if present.val = 1 then skipScalingList (if index < 6 then 16 else 64) else pure ()) >>=
        fun _ => skipScalingLists (index + 1) lists

def skipSes (se : Parser Int) : Nat → Parser Unit
  | 0 => pure ()
  | count + 1 => se >>= fun _ => skipSes se count

def skipPicOrder (ue : Parser Nat) (se : Parser Int) : Parser Unit := do
  let pocType ← ue
  if pocType = 0 then
    let _ ← ue
    return ()
  else if pocType = 1 then
    let _ ← bit
    let _ ← se
    let _ ← se
    let cycle ← ue
    skipSes se cycle
  else return ()

/-- The cropping offsets: left, right, top and bottom. -/
def readCrop (ue : Parser Nat) : Parser (Nat × Nat × Nat × Nat) := do
  let cropping ← bit
  if cropping.val = 1 then
    let left ← ue
    let right ← ue
    let top ← ue
    let bottom ← ue
    return (left, right, top, bottom)
  else return (0, 0, 0, 0)

def readFrame (ue : Parser Nat) (se : Parser Int) : Parser SpsFrame := do
  let _ ← ue
  skipPicOrder ue se
  let _ ← ue
  let _ ← bit
  let width ← ue
  let widthMbs ← checkedAdd width 1
  let height ← ue
  let heightMapUnits ← checkedAdd height 1
  let frameMbsOnly ← bit
  skipBit (frameMbsOnly.val = 0)
  let _ ← bit
  let (cropLeft, cropRight, cropTop, cropBottom) ← readCrop ue
  return { widthMbs, heightMapUnits, frameMbsOnly, cropLeft, cropRight, cropTop, cropBottom }

/-- The units that one cropping offset counts, as the code has them. -/
def codeUnits (chromaFormat frameMbsOnly : Nat) : Nat × Nat :=
  if chromaFormat = 0 ∨ chromaFormat = 3 then (1, 2 - frameMbsOnly)
  else (2, 2 * (2 - frameMbsOnly))

def dimensions (chromaFormat : Nat) (frame : SpsFrame) : Except Stop SpsInfo := do
  let units := codeUnits chromaFormat frame.frameMbsOnly
  let full ← mul32 frame.widthMbs 16
  let cropX ← mul32 (← add32 frame.cropLeft frame.cropRight) units.1
  let width ← checkedSub full cropX
  let rows ← mul32 (2 - frame.frameMbsOnly.val) frame.heightMapUnits
  let tall ← mul32 rows 16
  let cropY ← mul32 (← add32 frame.cropTop frame.cropBottom) units.2
  let height ← checkedSub tall cropY
  if width = 0 ∨ height = 0 ∨ width > 16384 ∨ height > 16384 then .error .absent
  else .ok { width, height }

def parse : Parser SpsInfo := do
  let (chromaFormat, lists) ← readProfile bits ue
  skipScalingLists 0 lists
  let frame ← readFrame ue se
  dimensions chromaFormat frame

def parseSps (rbsp : Bytes) : Except Stop SpsInfo := (parse { data := rbsp }).map Prod.fst

/-! ## The syntax elements over unbounded integers -/

/-- A delta of a scaling list and the scale before it. -/
structure ScalingDelta where
  last : Int
  delta : Int
  deriving DecidableEq, Repr

/-- What a list of deltas leaves of the stream: nothing when the stream ends in it. -/
abbrev Scan := BitReader → List ScalingDelta × Option BitReader

/-- One scan after the other. -/
def Scan.andThen (first second : Scan) : Scan := fun r =>
  match (first r).2 with
  | none => ((first r).1, none)
  | some rest => ((first r).1 ++ (second rest).1, (second rest).2)

def Scan.done : Scan := fun r => ([], some r)

def scanScalingFrom (last next : Int) : Nat → Scan
  | 0 => Scan.done
  | size + 1 => fun r =>
    if next = 0 then scanScalingFrom last next size r
    else
      match mappedNumber r with
      | .error _ => ([], none)
      | .ok (delta, rest) =>
        let scale := (last + delta + 256) % 256
        let later := scanScalingFrom (if scale ≠ 0 then scale else last) scale size rest
        ({ last, delta } :: later.1, later.2)

def scanScalingLists (index : Nat) : Nat → Scan
  | 0 => Scan.done
  | lists + 1 => fun r =>
    match bit r with
    | .error _ => ([], none)
    | .ok (present, rest) =>
      (if present.val = 1 then scanScalingFrom 8 8 (if index < 6 then 16 else 64)
        else Scan.done).andThen (scanScalingLists (index + 1) lists) rest

/-- The syntax elements that the picture size depends on, as far as the stream has them. -/
structure SpsSyntax where
  deltas : List ScalingDelta
  picture : Option (Nat × SpsFrame)

def decodeSps (rbsp : Bytes) : SpsSyntax :=
  match readProfile number codeNumber { data := rbsp } with
  | .error _ => { deltas := [], picture := none }
  | .ok ((chromaFormat, lists), r) =>
    { deltas := (scanScalingLists 0 lists r).1
      picture := (scanScalingLists 0 lists r).2.bind fun rest =>
        (readFrame codeNumber mappedNumber rest).toOption.map fun frame =>
          (chromaFormat, frame.1) }

/-- `CropUnitX` and `CropUnitY` of H.264; other chroma formats do not exist. -/
def cropUnits (frameMbsOnly : Int) : Nat → Option (Int × Int)
  | 0 => some (1, 2 - frameMbsOnly)
  | 1 => some (2, 2 * (2 - frameMbsOnly))
  | 2 => some (2, 2 - frameMbsOnly)
  | 3 => some (1, 2 - frameMbsOnly)
  | _ => none

/-- The width and the height by the formula of H.264. -/
def pictureSize (chromaFormat : Nat) (frame : SpsFrame) : Option (Int × Int) :=
  (cropUnits frame.frameMbsOnly.val chromaFormat).map fun units =>
    (16 * frame.widthMbs - units.1 * (frame.cropLeft + frame.cropRight),
      16 * (2 - frame.frameMbsOnly.val) * frame.heightMapUnits -
        units.2 * (frame.cropTop + frame.cropBottom))

/-! ## The scaling lists -/

/-- The next scale before its reduction is an `i32`. -/
def ScalingDelta.Fits (self : ScalingDelta) : Prop := self.last + self.delta + 256 < 2147483648

instance (delta : ScalingDelta) : Decidable delta.Fits := inferInstanceAs (Decidable (_ < _))

/-- Where the code is after a scan. -/
def Scan.outcome (scan : Scan) (r : BitReader) : Except Stop (Unit × BitReader) :=
  if ∀ delta ∈ (scan r).1, delta.Fits then
    (scan r).2.elim (.error .absent) fun rest => .ok ((), rest)
  else .error .overflow

/-- The code skips exactly what the scan reads, and overflows exactly at a delta that does not
fit. -/
def Scans (p : Parser Unit) (scan : Scan) : Prop := ∀ r, p r = scan.outcome r

theorem scans_done : Scans (pure ()) Scan.done := by
  intro r
  simp [Scan.outcome, Scan.done]
  rfl

theorem Scans.andThen {p q : Parser Unit} {first second : Scan} (hp : Scans p first)
    (hq : Scans q second) : Scans (p >>= fun _ => q) (first.andThen second) := by
  intro r
  rw [run_bind, hp r]
  unfold Scan.outcome Scan.andThen
  cases hrest : (first r).2 with
  | none =>
    dsimp only
    split <;> rfl
  | some rest =>
    dsimp only
    by_cases hfirst : ∀ delta ∈ (first r).1, delta.Fits
    · rw [if_pos hfirst]
      have hboth : (∀ delta ∈ (first r).1 ++ (second rest).1, delta.Fits) ↔
          ∀ delta ∈ (second rest).1, delta.Fits := by
        rw [List.forall_mem_append]
        exact and_iff_right hfirst
      simp only [hboth]
      exact hq rest
    · rw [if_neg hfirst, if_neg fun h => hfirst (List.forall_mem_append.mp h).1]
      rfl

/-- Both additions stay in range exactly when the delta fits. -/
theorem addI32_twice {last delta : Int} (hlast : 0 ≤ last) (hdelta : -2147483648 < delta) :
    (addI32 last delta >>= fun sum => addI32 sum 256) =
      if ScalingDelta.Fits ⟨last, delta⟩ then .ok (last + delta + 256) else .error .overflow := by
  by_cases hsum : last + delta < 2147483648
  · rw [addI32, if_pos ⟨by omega, hsum⟩, Checked.ok_bind, addI32]
    refine if_congr ⟨fun h => h.2, fun h => ⟨by omega, h⟩⟩ rfl rfl
  · have hlarge : ¬ ScalingDelta.Fits ⟨last, delta⟩ := fun h : last + delta + 256 < _ => by omega
    rw [addI32, if_neg fun h => hsum h.2, if_neg hlarge]
    rfl

theorem nextScale_run {last : Int} (hlast : 0 ≤ last) (r : BitReader) :
    nextScale last r = mappedNumber r >>= fun result =>
      if ScalingDelta.Fits ⟨last, result.1⟩ then
        .ok ((last + result.1 + 256) % 256, result.2)
      else .error .overflow := by
  unfold nextScale
  rw [se_eq, run_bind]
  rcases safe_mappedNumber r with ⟨delta, rest, hok, hdelta⟩ | habsent
  · have htwice := addI32_twice hlast hdelta
    rw [hok, Checked.ok_bind, Checked.ok_bind, run_bind, run_lift]
    cases hsum : addI32 last delta with
    | error stop =>
      rw [hsum] at htwice
      split at htwice
      · cases htwice
      · rename_i hlarge
        rw [if_neg hlarge]
        cases htwice
        rfl
    | ok sum =>
      rw [hsum, Checked.ok_bind] at htwice
      have hrun : (liftM (addI32 sum 256) >>= fun shifted => pure (shifted % 256) : Parser Int)
          rest = (addI32 sum 256).map fun shifted => (shifted % 256, rest) := by
        rw [run_bind, run_lift]
        cases addI32 sum 256 <;> rfl
      calc _ = (addI32 sum 256).map fun shifted => (shifted % 256, rest) := hrun
        _ = _ := by
          rw [htwice]
          split <;> rfl
  · rw [habsent]
    rfl

theorem skipScalingFrom_scans {last : Int} (hlast : 0 ≤ last) (next : Int) (size : Nat) :
    Scans (skipScalingFrom last next size) (scanScalingFrom last next size) := by
  induction size generalizing last next with
  | zero => exact scans_done
  | succ size ih =>
    intro r
    by_cases hnext : next = 0
    · -- no further delta is read once the next scale is zero
      have hskip : skipScalingFrom last next (size + 1) = skipScalingFrom last next size := by
        rw [skipScalingFrom, if_neg (not_not.mpr hnext)]
        simp [hnext]
      have hscan : scanScalingFrom last next (size + 1) r = scanScalingFrom last next size r :=
        if_pos hnext
      rw [hskip, ih hlast next r, Scan.outcome, Scan.outcome, hscan]
    · rw [skipScalingFrom, if_pos hnext, run_bind, nextScale_run hlast, Scan.outcome]
      rcases safe_mappedNumber r with ⟨delta, rest, hok, -⟩ | habsent
      · simp only [scanScalingFrom, if_neg hnext, hok, Checked.ok_bind, List.forall_mem_cons]
        by_cases hfits : ScalingDelta.Fits ⟨last, delta⟩
        · have hscale : 0 ≤ (if (last + delta + 256) % 256 ≠ 0 then (last + delta + 256) % 256
              else last) := by
            split <;> omega
          simp only [hfits, true_and]
          exact ih hscale _ rest
        · simp only [hfits, false_and, if_false]
          rfl
      · simp only [scanScalingFrom, if_neg hnext, habsent]
        rfl

theorem skipScalingLists_scans (index lists : Nat) :
    Scans (skipScalingLists index lists) (scanScalingLists index lists) := by
  induction lists generalizing index with
  | zero => exact scans_done
  | succ lists ih =>
    intro r
    rw [skipScalingLists, run_bind]
    rcases safe_bit r with ⟨present, rest, hok, -⟩ | habsent
    · have hlist : Scans
          (if present.val = 1 then skipScalingList (if index < 6 then 16 else 64) else pure ())
          (if present.val = 1 then scanScalingFrom 8 8 (if index < 6 then 16 else 64)
            else Scan.done) := by
        split
        · exact skipScalingFrom_scans (by decide) 8 _
        · exact scans_done
      have hboth := hlist.andThen (ih (index + 1)) rest
      rw [hok, Checked.ok_bind, hboth, Scan.outcome, Scan.outcome]
      simp only [scanScalingLists, hok]
    · rw [habsent, Scan.outcome]
      simp only [scanScalingLists, habsent]
      rfl

/-! ## The whole parse -/

theorem readProfile_eq : readProfile bits ue = readProfile number codeNumber := by
  rw [readProfile, readProfile, bits_eq (by decide), bits_eq (by decide), ue_eq]

theorem readFrame_eq : readFrame ue se = readFrame codeNumber mappedNumber := by
  rw [ue_eq, se_eq]

theorem safe_readProfile : Safe (readProfile number codeNumber) fun _ => True := by
  refine (safe_number 8).bind fun profile _ => (safe_number 16).bind fun _ _ =>
    safe_codeNumber.bind fun _ _ => ?_
  split
  · exact safe_codeNumber.bind fun chromaFormat _ => (safe_skipBit _).bind fun _ _ =>
      safe_codeNumber.bind fun _ _ => safe_codeNumber.bind fun _ _ =>
      safe_bit.bind fun _ _ => safe_bit.bind fun _ _ => safe_pure trivial
  · exact safe_pure trivial

theorem safe_skipSes (count : Nat) : Safe (skipSes mappedNumber count) fun _ => True := by
  induction count with
  | zero => exact safe_pure trivial
  | succ count ih => exact safe_mappedNumber.bind fun _ _ => ih

theorem safe_skipPicOrder : Safe (skipPicOrder codeNumber mappedNumber) fun _ => True := by
  refine safe_codeNumber.bind fun pocType _ => ?_
  split
  · exact safe_codeNumber.bind fun _ _ => safe_pure trivial
  · split
    · exact safe_bit.bind fun _ _ => safe_mappedNumber.bind fun _ _ =>
        safe_mappedNumber.bind fun _ _ => safe_codeNumber.bind fun cycle _ => safe_skipSes cycle
    · exact safe_pure trivial

theorem safe_readCrop : Safe (readCrop codeNumber) fun _ => True := by
  refine safe_bit.bind fun cropping _ => ?_
  split
  · exact safe_codeNumber.bind fun _ _ => safe_codeNumber.bind fun _ _ =>
      safe_codeNumber.bind fun _ _ => safe_codeNumber.bind fun _ _ => safe_pure trivial
  · exact safe_pure trivial

theorem safe_readFrame : Safe (readFrame codeNumber mappedNumber) fun _ => True :=
  safe_codeNumber.bind fun _ _ => safe_skipPicOrder.bind fun _ _ =>
    safe_codeNumber.bind fun _ _ => safe_bit.bind fun _ _ =>
    safe_codeNumber.bind fun width _ => (safe_checkedAdd width 1).bind fun _ _ =>
    safe_codeNumber.bind fun height _ => (safe_checkedAdd height 1).bind fun _ _ =>
    safe_bit.bind fun _ _ => (safe_skipBit _).bind fun _ _ =>
    safe_bit.bind fun _ _ => safe_readCrop.bind fun _ _ => safe_pure trivial

/-- The parse overflows at the first delta that does not fit; otherwise it computes the size of
the decoded picture. -/
theorem parseSps_eq (rbsp : Bytes) : parseSps rbsp =
    if ∀ delta ∈ (decodeSps rbsp).deltas, delta.Fits then
      (decodeSps rbsp).picture.elim (.error .absent) fun picture => dimensions picture.1 picture.2
    else .error .overflow := by
  unfold parseSps parse decodeSps
  rw [run_bind, readProfile_eq, readFrame_eq]
  rcases safe_readProfile { data := rbsp } with ⟨⟨chromaFormat, lists⟩, r, hok, -⟩ | habsent
  · rw [hok, Checked.ok_bind]
    dsimp only
    rw [run_bind, skipScalingLists_scans 0 lists r, Scan.outcome]
    split
    · cases hrest : (scanScalingLists 0 lists r).2 with
      | none => rfl
      | some rest =>
        rw [Option.elim_some, Checked.ok_bind, Option.bind_some, run_bind]
        rcases safe_readFrame rest with ⟨frame, last, hframe, -⟩ | hend
        · rw [hframe, Checked.ok_bind, run_lift]
          cases hsize : dimensions chromaFormat frame <;> simp [Except.toOption, hsize] <;> rfl
        · rw [hend]
          rfl
    · rfl
  · rw [habsent]
    simp
    rfl

/-! ## The size of the picture -/

/-- What cropping takes from the width, by the units of the code. -/
def cropX (chromaFormat : Nat) (frame : SpsFrame) : Nat :=
  (codeUnits chromaFormat frame.frameMbsOnly).1 * (frame.cropLeft + frame.cropRight)

def cropY (chromaFormat : Nat) (frame : SpsFrame) : Nat :=
  (codeUnits chromaFormat frame.frameMbsOnly).2 * (frame.cropTop + frame.cropBottom)

/-- The luma rows before cropping. -/
def tall (frame : SpsFrame) : Nat := 16 * (2 - frame.frameMbsOnly.val) * frame.heightMapUnits

/-- Between one and 16 384 columns and rows are left by the units of the code. -/
def Presentable (chromaFormat : Nat) (frame : SpsFrame) : Prop :=
  cropX chromaFormat frame < 16 * frame.widthMbs ∧
    16 * frame.widthMbs ≤ cropX chromaFormat frame + 16384 ∧
    cropY chromaFormat frame < tall frame ∧ tall frame ≤ cropY chromaFormat frame + 16384

instance (chromaFormat : Nat) (frame : SpsFrame) : Decidable (Presentable chromaFormat frame) :=
  inferInstanceAs (Decidable (_ ∧ _))

/-- The products stay below 2^32, as far as they are computed, and a picture that is accepted has
a chroma format of H.264, without vertical cropping when that is 4:2:2. -/
structure FrameInRange (chromaFormat : Nat) (frame : SpsFrame) : Prop where
  width : 16 * frame.widthMbs < 2 ^ 32
  left : cropX chromaFormat frame < 2 ^ 32
  height : cropX chromaFormat frame ≤ 16 * frame.widthMbs →
    tall frame < 2 ^ 32 ∧ cropY chromaFormat frame < 2 ^ 32
  chroma : Presentable chromaFormat frame →
    chromaFormat ≤ 3 ∧ (chromaFormat = 2 → frame.cropTop + frame.cropBottom = 0)

theorem codeUnits_pos (chromaFormat : Nat) (frameMbsOnly : Fin 2) :
    0 < (codeUnits chromaFormat frameMbsOnly).1 ∧ 0 < (codeUnits chromaFormat frameMbsOnly).2 := by
  have hf := frameMbsOnly.isLt
  unfold codeUnits
  split
  · exact ⟨Nat.one_pos, by dsimp only; omega⟩
  · exact ⟨Nat.two_pos, by dsimp only; omega⟩

/-- A checked sum times a positive unit. -/
theorem add32_mul32 {a b unit : Nat} (hunit : 0 < unit) :
    (add32 a b >>= fun sum => mul32 sum unit) = u32 (unit * (a + b)) := by
  have hle : a + b ≤ unit * (a + b) := Nat.le_mul_of_pos_left _ hunit
  by_cases hsum : a + b < 2 ^ 32
  · rw [add32, u32_ok hsum, Checked.ok_bind, mul32, Nat.mul_comm]
  · rw [add32, u32_overflow hsum, u32_overflow (by omega)]
    rfl

theorem mul32_mul32 {a b unit : Nat} (hunit : 0 < unit) :
    (mul32 a b >>= fun product => mul32 product unit) = u32 (unit * a * b) := by
  have hle : a * b ≤ unit * (a * b) := Nat.le_mul_of_pos_left _ hunit
  rw [Nat.mul_assoc]
  by_cases hproduct : a * b < 2 ^ 32
  · rw [mul32, u32_ok hproduct, Checked.ok_bind, mul32, Nat.mul_comm (a * b)]
  · rw [mul32, u32_overflow hproduct, u32_overflow (by omega)]
    rfl

/-- The checked arithmetic, the factors of each product put together. -/
theorem dimensions_grouped (chromaFormat : Nat) (frame : SpsFrame) :
    dimensions chromaFormat frame = (do
      let full ← mul32 frame.widthMbs 16
      let cropX ← (add32 frame.cropLeft frame.cropRight >>= fun sum =>
        mul32 sum (codeUnits chromaFormat frame.frameMbsOnly).1)
      let width ← checkedSub full cropX
      let tall ← (mul32 (2 - frame.frameMbsOnly.val) frame.heightMapUnits >>= fun rows =>
        mul32 rows 16)
      let cropY ← (add32 frame.cropTop frame.cropBottom >>= fun sum =>
        mul32 sum (codeUnits chromaFormat frame.frameMbsOnly).2)
      let height ← checkedSub tall cropY
      if width = 0 ∨ height = 0 ∨ width > 16384 ∨ height > 16384 then .error .absent
      else .ok { width, height }) := by
  simp only [bind_assoc]
  rfl

/-- The subtractions and the limits on checked products. -/
theorem cropped_eq (wide left rows top : Nat) :
    (do
      let full ← u32 wide
      let cropX ← u32 left
      let width ← checkedSub full cropX
      let tall ← u32 rows
      let cropY ← u32 top
      let height ← checkedSub tall cropY
      if width = 0 ∨ height = 0 ∨ width > 16384 ∨ height > 16384 then .error .absent
      else .ok { width, height } : Except Stop SpsInfo) =
    if wide < 2 ^ 32 ∧ left < 2 ^ 32 then
      if left ≤ wide then
        if rows < 2 ^ 32 ∧ top < 2 ^ 32 then
          if left < wide ∧ wide ≤ left + 16384 ∧ top < rows ∧ rows ≤ top + 16384 then
            .ok { width := wide - left, height := rows - top }
          else .error .absent
        else .error .overflow
      else .error .absent
    else .error .overflow := by
  by_cases hwide : wide < 2 ^ 32
  · by_cases hleft : left < 2 ^ 32
    · rw [u32_ok hwide, u32_ok hleft, if_pos ⟨hwide, hleft⟩, Checked.ok_bind, Checked.ok_bind,
        checkedSub]
      by_cases hwidth : left ≤ wide
      · rw [if_pos hwidth, if_pos hwidth, Checked.ok_bind]
        by_cases hrows : rows < 2 ^ 32
        · by_cases htop : top < 2 ^ 32
          · rw [u32_ok hrows, u32_ok htop, if_pos ⟨hrows, htop⟩, Checked.ok_bind, Checked.ok_bind,
              checkedSub]
            by_cases hheight : top ≤ rows
            · rw [if_pos hheight, Checked.ok_bind, ← ite_not]
              refine if_congr ?_ rfl rfl
              omega
            · rw [if_neg hheight, if_neg (by omega)]
              rfl
          · rw [u32_ok hrows, u32_overflow htop, if_neg fun h => htop h.2]
            rfl
        · rw [u32_overflow hrows, if_neg fun h => hrows h.1]
          rfl
      · rw [if_neg hwidth, if_neg hwidth]
        rfl
    · rw [u32_ok hwide, u32_overflow hleft, if_neg fun h => hleft h.2]
      rfl
  · rw [u32_overflow hwide, if_neg fun h => hwide h.1]
    rfl

/-- The arithmetic in the order of the code. -/
theorem dimensions_eq (chromaFormat : Nat) (frame : SpsFrame) : dimensions chromaFormat frame =
    if 16 * frame.widthMbs < 2 ^ 32 ∧ cropX chromaFormat frame < 2 ^ 32 then
      if cropX chromaFormat frame ≤ 16 * frame.widthMbs then
        if tall frame < 2 ^ 32 ∧ cropY chromaFormat frame < 2 ^ 32 then
          if Presentable chromaFormat frame then
            .ok { width := 16 * frame.widthMbs - cropX chromaFormat frame
                  height := tall frame - cropY chromaFormat frame }
          else .error .absent
        else .error .overflow
      else .error .absent
    else .error .overflow := by
  have hunits := codeUnits_pos chromaFormat frame.frameMbsOnly
  rw [dimensions_grouped, add32_mul32 hunits.1, mul32_mul32 (by decide), add32_mul32 hunits.2,
    mul32, Nat.mul_comm frame.widthMbs]
  exact cropped_eq _ _ _ _

/-- A presentable picture has the size of the formula exactly when the units of the code are
those of its chroma format or there is nothing to crop vertically. -/
theorem pictureSize_iff {chromaFormat : Nat} {frame : SpsFrame}
    (h : Presentable chromaFormat frame) :
    pictureSize chromaFormat frame =
      some (((16 * frame.widthMbs - cropX chromaFormat frame : Nat) : Int),
        ((tall frame - cropY chromaFormat frame : Nat) : Int)) ↔
      chromaFormat ≤ 3 ∧ (chromaFormat = 2 → frame.cropTop + frame.cropBottom = 0) := by
  obtain ⟨hwidth, _, hheight, _⟩ := h
  have hbit := frame.frameMbsOnly.isLt
  have hfields : ((2 - frame.frameMbsOnly.val : Nat) : Int) = 2 - frame.frameMbsOnly.val := by
    omega
  rw [Nat.cast_sub hwidth.le, Nat.cast_sub hheight.le]
  match chromaFormat with
  | 0 | 1 | 3 =>
    simp [pictureSize, cropUnits, cropX, cropY, tall, codeUnits, hfields]
  | 2 =>
    -- the code takes two rows for each that the formula takes
    have hunit : (2 : Int) - frame.frameMbsOnly.val ≠ 0 := by omega
    have hdouble (rows : Int) : (2 - frame.frameMbsOnly.val : Int) * rows =
        2 * ((2 - frame.frameMbsOnly.val) * rows) ↔ rows = 0 := by
      rw [eq_comm, two_mul, add_eq_right, mul_eq_zero, or_iff_right hunit]
    simp [pictureSize, cropUnits, cropX, cropY, tall, codeUnits, hfields, mul_assoc, hdouble]
    omega
  | n + 4 => simp [pictureSize, cropUnits]

/-- The arithmetic does not overflow, and a size that is returned is that of the formula. -/
def SizeExact (size : Except Stop SpsInfo) (chromaFormat : Nat) (frame : SpsFrame) : Prop :=
  size ≠ .error .overflow ∧ ∀ info, size = .ok info →
    pictureSize chromaFormat frame = some ((info.width : Int), (info.height : Int))

theorem sizeExact_iff (chromaFormat : Nat) (frame : SpsFrame) :
    SizeExact (dimensions chromaFormat frame) chromaFormat frame ↔
      FrameInRange chromaFormat frame := by
  rw [dimensions_eq]
  unfold SizeExact
  constructor
  · intro ⟨hrange, hsize⟩
    split at hrange
    · rename_i hfull
      rw [if_pos hfull] at hsize
      refine ⟨hfull.1, hfull.2, fun hleft => ?_, fun hpresent => ?_⟩
      · rw [if_pos hleft] at hrange
        by_contra hlarge
        rw [if_neg hlarge] at hrange
        exact hrange rfl
      · have hleft := hpresent.1.le
        rw [if_pos hleft] at hrange hsize
        split at hrange
        · rename_i hrows
          rw [if_pos hrows, if_pos hpresent] at hsize
          exact (pictureSize_iff hpresent).mp (hsize _ rfl)
        · exact absurd rfl hrange
    · exact absurd rfl hrange
  · intro h
    rw [if_pos ⟨h.width, h.left⟩]
    split
    · rename_i hleft
      rw [if_pos (h.height hleft)]
      split
      · rename_i hpresent
        refine ⟨by simp, fun info hinfo => ?_⟩
        rw [(pictureSize_iff hpresent).mpr (h.chroma hpresent), ← Except.ok.inj hinfo]
      · exact ⟨by simp, by simp⟩
    · exact ⟨by simp, by simp⟩

/-- The parse does not overflow, and a size that it returns is that of the formula for the
decoded syntax elements. -/
def SpsExact (rbsp : Bytes) : Prop :=
  parseSps rbsp ≠ .error .overflow ∧ ∀ info, parseSps rbsp = .ok info →
    ∃ chromaFormat frame, (decodeSps rbsp).picture = some (chromaFormat, frame) ∧
      pictureSize chromaFormat frame = some ((info.width : Int), (info.height : Int))

/-- Every scaling-list delta that is read fits, and so does a complete picture. -/
structure SpsInRange (rbsp : Bytes) : Prop where
  deltas : ∀ delta ∈ (decodeSps rbsp).deltas, delta.Fits
  picture : ∀ chromaFormat frame, (decodeSps rbsp).picture = some (chromaFormat, frame) →
    FrameInRange chromaFormat frame

/-- For every byte string, parsing is exact and free of overflow exactly when the decoded syntax
elements are in range. -/
theorem spsExact_iff (rbsp : Bytes) : SpsExact rbsp ↔ SpsInRange rbsp := by
  unfold SpsExact
  rw [parseSps_eq]
  by_cases hdeltas : ∀ delta ∈ (decodeSps rbsp).deltas, delta.Fits
  · rw [if_pos hdeltas]
    cases hpicture : (decodeSps rbsp).picture with
    | none => exact iff_of_true ⟨by simp, by simp⟩ ⟨hdeltas, by simp [hpicture]⟩
    | some picture =>
      have hsize := sizeExact_iff picture.1 picture.2
      unfold SizeExact at hsize
      rw [Option.elim_some]
      constructor
      · intro ⟨hrange, hinfo⟩
        refine ⟨hdeltas, fun chromaFormat frame hsome => ?_⟩
        rw [hpicture] at hsome
        cases hsome
        refine hsize.mp ⟨hrange, fun info hok => ?_⟩
        obtain ⟨_, _, heq, hformula⟩ := hinfo info hok
        cases heq
        exact hformula
      · intro h
        have hexact := hsize.mpr (h.picture picture.1 picture.2 hpicture)
        exact ⟨hexact.1, fun info hok => ⟨_, _, rfl, hexact.2 info hok⟩⟩
  · rw [if_neg hdeltas]
    exact iff_of_false (fun h => h.1 rfl) fun h => hdeltas h.deltas

/-! ## Parameter sets out of range -/

/-- A parameter set of 2^28 + 120 macroblocks in width. -/
def wideSps : Bytes :=
  [0x42, 0x00, 0x28, 0xda, 0x00, 0x00, 0x00, 0x04, 0x00, 0x00, 0x1e, 0x00, 0x89, 0x80]

/-- A 4:2:2 parameter set of 120 by 68 macroblocks with eight rows cropped. -/
def croppedSps : Bytes := [0x7a, 0x00, 0x28, 0xb6, 0xcb, 0x40, 0x3c, 0x01, 0x13, 0xf1, 0x20]

/-- A parameter set whose first scaling-list delta is 2^31 - 1. -/
def scalingSps : Bytes :=
  [0x64, 0x00, 0x28, 0xad, 0x80, 0x00, 0x00, 0x00, 0xff, 0xff, 0xff, 0xfe]

/-- The width and the scale overflow; the 4:2:2 picture has 1080 rows but 1072 are reported. -/
theorem sps_not_exact :
    (¬ SpsExact wideSps ∧ ¬ SpsExact scalingSps ∧ ¬ SpsExact croppedSps) ∧
      parseSps croppedSps = .ok { width := 1920, height := 1072 } ∧
      (decodeSps croppedSps).picture.map (fun picture => pictureSize picture.1 picture.2) =
        some (some (1920, 1080)) := by
  have hparsed : parseSps croppedSps = .ok { width := 1920, height := 1072 } := by decide +kernel
  have hformula : (decodeSps croppedSps).picture.map
      (fun picture => pictureSize picture.1 picture.2) = some (some (1920, 1080)) := by
    decide +kernel
  refine ⟨⟨fun h => h.1 (by decide +kernel), fun h => h.1 (by decide +kernel), fun h => ?_⟩,
    hparsed, hformula⟩
  obtain ⟨chromaFormat, frame, hpicture, hsize⟩ := h.2 _ hparsed
  rw [hpicture, Option.map_some, hsize] at hformula
  exact absurd hformula (by decide)

end IptvRelay.Media.Sps
