import IptvRelay.Registry.Registry
import Mathlib.Tactic

/-!
# The invariant of the registry

Every attempt knows its entry, and the state of the entry tells the status of
its newest attempt. A waiting caller has only waited on attempts of its own
entry, so whatever it finds there settles all of them.
-/

namespace IptvRelay.SingleFlight

open Transition Registry

variable {ε : Type}

/-- The state of an entry follows the attempts on it. -/
def AttemptOk (s : Registry ε) (a : AttemptId) : Prop :=
  (s.attempts a).entry < s.allocated ∧
    match (s.attempts a).status with
    | .running => s.entries (s.attempts a).entry = .starting ∧
        s.attemptOf (s.attempts a).entry = a
    | .finished (.error error) => s.entries (s.attempts a).entry = .failed error
    | .finished (.ok session) => session = a ∧
        (s.entries (s.attempts a).entry = .ready a ∨ s.strong a = 0)
    | .cancelled => True

/-- What a caller in a phase knows. -/
def PhaseOk (s : Registry ε) (c : Caller) : Phase ε → Prop
  | .idle => s.taken c = false ∧ s.waited c = []
  | .register entry | .check entry _ | .parked entry _ => entry < s.allocated ∧
      s.taken c = false ∧ ∀ a ∈ s.waited c, (s.attempts a).entry = entry
  | .initializing entry attempt => attempt < s.started ∧
      s.attempts attempt = { entry, owner := c, status := .running } ∧ ∀ a ∈ s.waited c, s.Void a
  | .notify entry ending => entry < s.allocated ∧ (∀ a ∈ s.waited c, s.Void a) ∧
      ∀ error, ending = some (.error error) → s.entries entry = .failed error
  | .remove entry error => entry < s.allocated ∧ (∀ a ∈ s.waited c, s.Void a) ∧
      s.entries entry = .failed error
  | .done result => ∀ a ∈ s.waited c, (s.attempts a).status = .finished result ∨ s.Void a
  | .gone => True
  | .panicked => False

structure RegistryOk (s : Registry ε) : Prop where
  attempts : ∀ a < s.started, AttemptOk s a
  starting : ∀ e < s.allocated, s.entries e = .starting → s.attemptOf e < s.started ∧
    (s.attempts (s.attemptOf e)).entry = e ∧ (s.attempts (s.attemptOf e)).status = .running
  live : ∀ a, 0 < s.strong a → a < s.started ∧ (s.attempts a).status = .finished (.ok a)
  fresh : ∀ e, s.allocated ≤ e → s.entries e = .cancelled
  current : ∀ e, s.current = some e → e < s.allocated
  waited : ∀ c, ∀ a ∈ s.waited c, a < s.started
  phases : ∀ c, PhaseOk s c (s.phase c)

/-! ## What the other callers can rely on -/

/-- The registry develops from `s` to `t` by a step of `actor`, or of no caller. -/
structure Develops (s t : Registry ε) (actor : Option Caller) : Prop where
  started : s.started ≤ t.started
  allocated : s.allocated ≤ t.allocated
  attempts : ∀ a < s.started, t.attempts a = s.attempts a ∨
    (t.attempts a).entry = (s.attempts a).entry ∧ (s.attempts a).status = .running ∧
      actor = some (s.attempts a).owner
  dead : ∀ a < s.started, (s.attempts a).status = .finished (.ok a) → s.strong a = 0 →
    t.strong a = 0
  failed : ∀ e < s.allocated, ∀ error, s.entries e = .failed error → t.entries e = .failed error
  taken : ∀ c, actor ≠ some c → t.taken c = s.taken c
  waited : ∀ c, actor ≠ some c → t.waited c = s.waited c

/-- An attempt that has ended does not change any more. -/
theorem Develops.ended {s t : Registry ε} {actor : Option Caller} (d : Develops s t actor)
    {a : AttemptId} (ha : a < s.started) (hend : (s.attempts a).status ≠ .running) :
    t.attempts a = s.attempts a := by
  rcases d.attempts a ha with h | ⟨_, h, _⟩
  · exact h
  · exact absurd h hend

theorem Develops.entry {s t : Registry ε} {actor : Option Caller} (d : Develops s t actor)
    {a : AttemptId} (ha : a < s.started) : (t.attempts a).entry = (s.attempts a).entry := by
  rcases d.attempts a ha with h | ⟨h, _⟩
  · rw [h]
  · exact h

theorem Develops.void {s t : Registry ε} {actor : Option Caller} (d : Develops s t actor)
    {a : AttemptId} (ha : a < s.started) (h : s.Void a) : t.Void a := by
  rcases h with h | ⟨h, hdead⟩
  · left
    rw [d.ended ha (by simp [h]), h]
  · right
    rw [d.ended ha (by simp [h]), h]
    exact ⟨rfl, d.dead a ha h hdead⟩

/-- A caller keeps what it knows while others act. -/
theorem PhaseOk.mono {s t : Registry ε} {actor : Option Caller} (d : Develops s t actor)
    {c : Caller} (hc : actor ≠ some c) {phase : Phase ε} (h : PhaseOk s c phase)
    (waited : ∀ a ∈ s.waited c, a < s.started) : PhaseOk t c phase := by
  have hvoid : (∀ a ∈ s.waited c, s.Void a) → ∀ a ∈ t.waited c, t.Void a := by
    intro hs a ha
    rw [d.waited c hc] at ha
    exact d.void (waited a ha) (hs a ha)
  cases phase with
  | idle => exact ⟨(d.taken c hc).trans h.1, (d.waited c hc).trans h.2⟩
  | register | check | parked =>
    refine ⟨h.1.trans_le d.allocated, (d.taken c hc).trans h.2.1, fun a ha => ?_⟩
    rw [d.waited c hc] at ha
    exact (d.entry (waited a ha)).trans (h.2.2 a ha)
  | initializing entry attempt =>
    obtain ⟨hlt, hattempt, hs⟩ := h
    refine ⟨hlt.trans_le d.started, ?_, hvoid hs⟩
    rcases d.attempts attempt hlt with hsame | ⟨_, _, howner⟩
    · rw [hsame, hattempt]
    · rw [hattempt] at howner
      exact absurd howner hc
  | notify entry ending =>
    exact ⟨h.1.trans_le d.allocated, hvoid h.2.1,
      fun error hending => d.failed entry h.1 error (h.2.2 error hending)⟩
  | remove entry error =>
    exact ⟨h.1.trans_le d.allocated, hvoid h.2.1, d.failed entry h.1 error h.2.2⟩
  | done result =>
    intro a ha
    rw [d.waited c hc] at ha
    rcases h a ha with hstatus | hv
    · left
      rw [d.ended (waited a ha) (by simp [hstatus]), hstatus]
    · exact .inr (d.void (waited a ha) hv)
  | gone => trivial
  | panicked => exact h

/-! ## Steps -/

/-- An attempt never sees its entry in the hands of a later one before it has ended. -/
theorem AttemptOk.settled {s : Registry ε} {a : AttemptId} (h : AttemptOk s a) :
    match s.entries (s.attempts a).entry with
    | .starting => True
    | .ready session => (s.attempts a).status = .finished (.ok session) ∨ s.Void a
    | .failed error => (s.attempts a).status = .finished (.error error) ∨ s.Void a
    | .cancelled => s.Void a := by
  obtain ⟨_, h⟩ := h
  cases hstatus : (s.attempts a).status with
  | running =>
    rw [hstatus] at h
    simp [h.1]
  | cancelled =>
    have hvoid : s.Void a := .inl hstatus
    split <;> simp [hvoid]
  | finished result =>
    cases result with
    | error error =>
      simp only [hstatus] at h
      simp [h]
    | ok session =>
      simp only [hstatus] at h
      obtain ⟨rfl, hready | hdead⟩ := h
      · simp [hready]
      · have hvoid : s.Void session := .inr ⟨hstatus, hdead⟩
        split <;> simp [hvoid]

/-- One caller moves: what is left to check. -/
theorem RegistryOk.move {s t : Registry ε} (h : RegistryOk s) {c : Caller}
    (d : Develops s t (some c)) (others : ∀ other ≠ c, t.phase other = s.phase other)
    (attempts : ∀ a < t.started, AttemptOk t a)
    (starting : ∀ e < t.allocated, t.entries e = .starting → t.attemptOf e < t.started ∧
      (t.attempts (t.attemptOf e)).entry = e ∧ (t.attempts (t.attemptOf e)).status = .running)
    (live : ∀ a, 0 < t.strong a → a < t.started ∧ (t.attempts a).status = .finished (.ok a))
    (fresh : ∀ e, t.allocated ≤ e → t.entries e = .cancelled)
    (current : ∀ e, t.current = some e → e < t.allocated)
    (waited : ∀ a ∈ t.waited c, a < t.started) (phase : PhaseOk t c (t.phase c)) :
    RegistryOk t where
  attempts := attempts
  starting := starting
  live := live
  fresh := fresh
  current := current
  waited other := by
    by_cases ho : other = c
    · exact ho ▸ waited
    · rw [d.waited other (by simpa using Ne.symm ho)]
      exact fun a ha => (h.waited other a ha).trans_le d.started
  phases other := by
    by_cases ho : other = c
    · exact ho ▸ phase
    · rw [others other ho]
      exact (h.phases other).mono d (by simpa using Ne.symm ho) (h.waited other)

theorem Develops.refl (s : Registry ε) (c : Caller) (phase : Phase ε) :
    Develops s (s.goto c phase) (some c) :=
  ⟨le_rfl, le_rfl, fun _ _ => .inl rfl, fun _ _ _ hz => hz, fun _ _ _ hf => hf, fun _ _ => rfl,
    fun _ _ => rfl⟩

/-- The caller only changes its phase. -/
theorem RegistryOk.goto {s : Registry ε} (h : RegistryOk s) {c : Caller} {p : Phase ε}
    (hp : PhaseOk s c p) : RegistryOk (s.goto c p) := by
  refine h.move (Develops.refl s c p) (fun other ho => ?_) h.attempts h.starting h.live
    h.fresh h.current (h.waited c) ?_
  · simp [Registry.goto, Function.update_of_ne ho]
  · have : (s.goto c p).phase c = p := by simp [Registry.goto]
    rw [this]
    cases p <;> exact hp

/-- The state of an entry that a caller may restart. -/
def Registry.Restartable (s : Registry ε) (e : EntryId) : Prop :=
  s.entries e = .cancelled ∨ ∃ session, s.entries e = .ready session ∧ s.strong session = 0

theorem RegistryOk.void_of_restartable {s : Registry ε} (h : RegistryOk s) {e : EntryId}
    (idle : s.Restartable e) {a : AttemptId} (ha : a < s.started)
    (he : (s.attempts a).entry = e) : s.Void a := by
  have hset := (h.attempts a ha).settled
  rw [he] at hset
  rcases idle with hidle | ⟨session, hidle, hdead⟩
  · rw [hidle] at hset
    exact hset
  · rw [hidle] at hset
    rcases hset with hstatus | hvoid
    · have hsame : session = a := by
        have := (h.attempts a ha).2
        rw [hstatus] at this
        exact this.1
      subst hsame
      exact .inr ⟨hstatus, hdead⟩
    · exact hvoid

theorem AttemptOk.of_void {s t : Registry ε} {a : AttemptId} (hv : s.Void a)
    (hsame : t.attempts a = s.attempts a) (hentry : (s.attempts a).entry < t.allocated)
    (hdead : s.strong a = 0 → t.strong a = 0) : AttemptOk t a := by
  refine ⟨by rw [hsame]; exact hentry, ?_⟩
  rw [hsame]
  rcases hv with hstatus | ⟨hstatus, hz⟩
  · rw [hstatus]
    trivial
  · rw [hstatus]
    exact ⟨rfl, .inr (hdead hz)⟩

theorem AttemptOk.of_same {s t : Registry ε} {a : AttemptId} (h : AttemptOk s a)
    (hsame : t.attempts a = s.attempts a) (hallocated : s.allocated ≤ t.allocated)
    (hentry : t.entries (s.attempts a).entry = s.entries (s.attempts a).entry)
    (hattempt : t.attemptOf (s.attempts a).entry = s.attemptOf (s.attempts a).entry)
    (hdead : s.strong a = 0 → t.strong a = 0) : AttemptOk t a := by
  unfold AttemptOk at h ⊢
  rw [hsame, hentry, hattempt]
  refine ⟨h.1.trans_le hallocated, ?_⟩
  have h2 := h.2
  split at h2
  · exact h2
  · exact h2
  · exact ⟨h2.1, h2.2.imp_right hdead⟩
  · trivial

/-- A caller starts an attempt on a restartable entry. -/
theorem RegistryOk.begin {s : Registry ε} (h : RegistryOk s) {c : Caller} {e : EntryId}
    (he : e < s.allocated) (idle : s.Restartable e) (htaken : s.taken c = false)
    (hwaited : ∀ a ∈ s.waited c, (s.attempts a).entry = e) : RegistryOk (s.begin c e) := by
  have hold : ∀ a < s.started, (s.begin c e).attempts a = s.attempts a := fun a ha => by
    simp [Registry.begin, Function.update_of_ne ha.ne]
  have hnew : (s.begin c e).attempts s.started = { entry := e, owner := c, status := .running } := by
    simp [Registry.begin]
  have d : Develops s (s.begin c e) (some c) := by
    refine ⟨Nat.le_succ _, le_rfl, fun a ha => .inl (hold a ha), fun _ _ _ hz => hz,
      fun other _ error hf => ?_, fun other ho => ?_, fun _ _ => rfl⟩
    · have hne : other ≠ e := by
        rintro rfl
        rcases idle with hidle | ⟨session, hidle, _⟩ <;> simp [hidle] at hf
      simpa [Registry.begin, Function.update_of_ne hne] using hf
    · have hne : other ≠ c := by
        rintro rfl
        exact ho rfl
      simp [Registry.begin, Function.update_of_ne hne]
  refine h.move d (fun other ho => by simp [Registry.begin, Function.update_of_ne ho])
    (fun a ha => ?_) (fun other hother hstarting => ?_) (fun a hpos => ?_) (fun other hother => ?_)
    h.current (fun a ha => (h.waited c a ha).trans (Nat.lt_succ_self _)) ?_
  · rcases Nat.lt_succ_iff_lt_or_eq.mp ha with ha | rfl
    · by_cases hentry : (s.attempts a).entry = e
      · exact .of_void (h.void_of_restartable idle ha hentry) (hold a ha) (hentry ▸ he) id
      · exact (h.attempts a ha).of_same (hold a ha) le_rfl
          (by simp [Registry.begin, Function.update_of_ne hentry])
          (by simp [Registry.begin, Function.update_of_ne hentry]) id
    · unfold AttemptOk
      rw [hnew]
      exact ⟨he, by simp [Registry.begin], by simp [Registry.begin]⟩
  · by_cases hentry : other = e
    · subst hentry
      have hof : (s.begin c other).attemptOf other = s.started := by simp [Registry.begin]
      rw [hof, hnew]
      exact ⟨Nat.lt_succ_self _, rfl, rfl⟩
    · simp only [Registry.begin, Function.update_of_ne hentry] at hstarting
      obtain ⟨hlt, hsame, hrun⟩ := h.starting other hother hstarting
      have hof : (s.begin c e).attemptOf other = s.attemptOf other := by
        simp [Registry.begin, Function.update_of_ne hentry]
      rw [hof, hold _ hlt]
      exact ⟨hlt.trans (Nat.lt_succ_self _), hsame, hrun⟩
  · obtain ⟨hlt, hstatus⟩ := h.live a hpos
    rw [hold a hlt]
    exact ⟨hlt.trans (Nat.lt_succ_self _), hstatus⟩
  · have hne : other ≠ e := by
      rintro rfl
      exact absurd he (Nat.not_lt.mpr hother)
    simpa [Registry.begin, Function.update_of_ne hne] using h.fresh other hother
  · have hphase : (s.begin c e).phase c = .initializing e s.started := by
      simp [Registry.begin, htaken]
    rw [hphase]
    refine ⟨Nat.lt_succ_self _, hnew, fun a ha => ?_⟩
    exact d.void (h.waited c a ha) (h.void_of_restartable idle (h.waited c a ha) (hwaited a ha))

/-- The registry makes a new entry. -/
theorem RegistryOk.allocate {s : Registry ε} (h : RegistryOk s) : RegistryOk
    { s with current := some s.allocated, allocated := s.allocated + 1 } where
  attempts a ha := (h.attempts a ha).of_same rfl (Nat.le_succ _) rfl rfl id
  starting e he hstarting := by
    rcases Nat.lt_succ_iff_lt_or_eq.mp he with he | rfl
    · exact h.starting e he hstarting
    · simp [h.fresh s.allocated le_rfl] at hstarting
  live := h.live
  fresh e he := h.fresh e (Nat.le_of_succ_le he)
  current e he := by
    rw [Option.some.injEq] at he
    subst he
    exact Nat.lt_succ_self _
  waited := h.waited
  phases c := by
    have d : Develops s { s with current := some s.allocated, allocated := s.allocated + 1 } none :=
      ⟨le_rfl, Nat.le_succ _, fun _ _ => .inl rfl, fun _ _ _ hz => hz, fun _ _ _ hf => hf,
        fun _ _ => rfl, fun _ _ => rfl⟩
    exact (h.phases c).mono d (by simp) (h.waited c)

/-- The attempt of the caller ends, and the state of its entry says how. -/
theorem RegistryOk.conclude {s : Registry ε} (h : RegistryOk s) {c : Caller} {e : EntryId}
    {a : AttemptId} (hphase : s.phase c = .initializing e a)
    {ending : Option (Except ε AttemptId)} (hending : ∀ session, ending = some (.ok session) →
      session = a) : RegistryOk (s.conclude c e a ending) := by
  have hp := h.phases c
  rw [hphase] at hp
  obtain ⟨ha, hattempt, hvoid⟩ := hp
  have hown := h.attempts a ha
  unfold AttemptOk at hown
  rw [hattempt] at hown
  obtain ⟨he, hstarting, hof⟩ := hown
  have hold : ∀ b, b ≠ a → (s.conclude c e a ending).attempts b = s.attempts b := fun b hb => by
    simp [Registry.conclude, Function.update_of_ne hb]
  have hnew : (s.conclude c e a ending).attempts a =
      { entry := e, owner := c, status := endStatus ending } := by
    simp [Registry.conclude, hattempt]
  have hstrong : ∀ b, b ≠ a → (s.conclude c e a ending).strong b = s.strong b := fun b hb => by
    unfold Registry.conclude
    split
    · rename_i session
      obtain rfl := hending session rfl
      simp [Function.update_of_ne hb]
    · rfl
  have hentry : (s.conclude c e a ending).entries e = endState ending := by
    simp [Registry.conclude]
  have hrest : ∀ other, other ≠ e → (s.conclude c e a ending).entries other = s.entries other :=
    fun other ho => by simp [Registry.conclude, Function.update_of_ne ho]
  have hzero : s.strong a = 0 := by
    by_contra hpos
    simpa [hattempt] using (h.live a (Nat.pos_of_ne_zero hpos)).2
  have d : Develops s (s.conclude c e a ending) (some c) := by
    refine ⟨le_rfl, le_rfl, fun b hb => ?_, fun b hb hstatus hz => ?_, fun other _ error hf => ?_,
      fun _ _ => rfl, fun _ _ => rfl⟩
    · by_cases hba : b = a
      · subst hba
        exact .inr ⟨by rw [hnew, hattempt], by rw [hattempt], by rw [hattempt]⟩
      · exact .inl (hold b hba)
    · have hba : b ≠ a := by
        rintro rfl
        simp [hattempt] at hstatus
      rw [hstrong b hba, hz]
    · have ho : other ≠ e := by
        rintro rfl
        simp [hstarting] at hf
      rw [hrest other ho, hf]
  refine h.move d (fun other ho => by simp [Registry.conclude, Function.update_of_ne ho])
    (fun b hb => ?_) (fun other hother hs => ?_) (fun b hpos => ?_) (fun other hother => ?_)
    h.current (h.waited c) ?_
  · by_cases hba : b = a
    · subst hba
      unfold AttemptOk
      rw [hnew, hentry]
      refine ⟨he, ?_⟩
      match ending, hending with
      | none, _ => trivial
      | some (.error _), _ => rfl
      | some (.ok session), hsame =>
        obtain rfl := hsame session rfl
        exact ⟨rfl, .inl rfl⟩
    · -- An earlier attempt on the same entry has ended before this one began.
      by_cases hbe : (s.attempts b).entry = e
      · have hset : s.Void b := by
          have hb' := h.attempts b hb
          unfold AttemptOk at hb'
          rw [hbe, hstarting, hof] at hb'
          cases hstatus : (s.attempts b).status with
          | running =>
            rw [hstatus] at hb'
            exact absurd hb'.2.2.symm hba
          | cancelled => exact .inl hstatus
          | finished result =>
            cases result with
            | error error => simp [hstatus] at hb'
            | ok session =>
              simp only [hstatus] at hb'
              obtain ⟨_, rfl, hready | hdead⟩ := hb'
              · cases hready
              · exact .inr ⟨hstatus, hdead⟩
        exact .of_void hset (hold b hba) (hbe ▸ he) (fun hz => by rw [hstrong b hba, hz])
      · exact (h.attempts b hb).of_same (hold b hba) le_rfl (hrest _ hbe) rfl
          (fun hz => by rw [hstrong b hba, hz])
  · have ho : other ≠ e := by
      rintro rfl
      rw [hentry] at hs
      unfold endState at hs
      split at hs <;> cases hs
    rw [hrest other ho] at hs
    obtain ⟨hlt, hsame, hrun⟩ := h.starting other hother hs
    have hba : s.attemptOf other ≠ a := by
      intro hba
      rw [hba, hattempt] at hsame
      exact ho hsame.symm
    have hsameOf : (s.conclude c e a ending).attemptOf other = s.attemptOf other := rfl
    rw [hsameOf, hold _ hba]
    exact ⟨hlt, hsame, hrun⟩
  · by_cases hba : b = a
    · subst hba
      refine ⟨ha, ?_⟩
      rw [hnew]
      match ending, hending with
      | none, _ => exact absurd hpos (by simp [Registry.conclude, hzero])
      | some (.error _), _ => exact absurd hpos (by simp [Registry.conclude, hzero])
      | some (.ok session), hsame =>
        obtain rfl := hsame session rfl
        rfl
    · rw [hstrong b hba] at hpos
      rw [hold b hba]
      exact h.live b hpos
  · have ho : other ≠ e := by
      rintro rfl
      exact absurd he (Nat.not_lt.mpr hother)
    rw [hrest other ho]
    exact h.fresh other hother
  · have hnext : (s.conclude c e a ending).phase c = .notify e ending := by
      simp [Registry.conclude]
    rw [hnext]
    refine ⟨he, fun b hb => d.void (h.waited c b hb) (hvoid b hb), fun error herror => ?_⟩
    rw [hentry, herror]
    rfl

/-- More or fewer owners of sessions that are alive. -/
theorem RegistryOk.recount {s : Registry ε} (h : RegistryOk s) (strong : AttemptId → Nat)
    (hdead : ∀ a, s.strong a = 0 → strong a = 0) : RegistryOk { s with strong } where
  attempts a ha := (h.attempts a ha).of_same rfl le_rfl rfl rfl (hdead a)
  starting := h.starting
  live a hpos := h.live a (Nat.pos_of_ne_zero fun hz => hpos.ne' (hdead a hz))
  fresh := h.fresh
  current := h.current
  waited := h.waited
  phases c := by
    have d : Develops s { s with strong } none :=
      ⟨le_rfl, le_rfl, fun _ _ => .inl rfl, fun a _ _ hz => hdead a hz, fun _ _ _ hf => hf,
        fun _ _ => rfl, fun _ _ => rfl⟩
    exact (h.phases c).mono d (by simp) (h.waited c)

/-- A waiting caller looks at its entry. -/
theorem RegistryOk.inspect {s : Registry ε} (h : RegistryOk s) {c : Caller} {e : EntryId}
    {notified : Bool} (hphase : s.phase c = .check e notified) :
    RegistryOk (s.inspect c e notified) := by
  have hp := h.phases c
  rw [hphase] at hp
  obtain ⟨he, htaken, hwaited⟩ := hp
  have hset : ∀ a ∈ s.waited c, _ := fun a ha => (h.attempts a (h.waited c a ha)).settled
  unfold Registry.inspect
  split
  · rename_i hstarting
    obtain ⟨hlt, hsame, _⟩ := h.starting e he hstarting
    have hmem : ∀ a ∈ s.waited c ++ [s.attemptOf e], a < s.started ∧ (s.attempts a).entry = e := by
      intro a ha
      rcases List.mem_append.mp ha with ha | ha
      · exact ⟨h.waited c a ha, hwaited a ha⟩
      · rw [List.mem_singleton.mp ha]
        exact ⟨hlt, hsame⟩
    refine h.move (c := c) ⟨le_rfl, le_rfl, fun _ _ => .inl rfl, fun _ _ _ hz => hz,
        fun _ _ _ hf => hf, fun _ _ => rfl, fun other ho => ?_⟩ (fun other ho => ?_) h.attempts
      h.starting h.live h.fresh h.current (fun a ha => ?_) ?_
    · exact Function.update_of_ne (by rintro rfl; exact ho rfl) _ _
    · exact Function.update_of_ne ho _ _
    · simp only [Function.update_self] at ha
      exact (hmem a ha).1
    · simp only [Function.update_self]
      refine ⟨he, htaken, fun a ha => ?_⟩
      simp only [Function.update_self] at ha
      exact (hmem a ha).2
  · rename_i session hready
    split
    · rename_i hlive
      have hcount := h.recount (Function.update s.strong session (s.strong session + 1))
        fun a hz => by
          have hne : a ≠ session := by
            rintro rfl
            omega
          rw [Function.update_of_ne hne, hz]
      refine hcount.goto (p := .done (.ok session)) fun a ha => ?_
      have := hset a ha
      rw [hwaited a ha, hready] at this
      refine this.imp_right fun hv => ?_
      rcases hv with hc | ⟨hs, hz⟩
      · exact .inl hc
      · refine .inr ⟨hs, ?_⟩
        have hne : a ≠ session := by
          rintro rfl
          omega
        simpa [Function.update_of_ne hne] using hz
    · rename_i hdead
      exact h.begin he (.inr ⟨session, hready, by omega⟩) htaken hwaited
  · rename_i error hfailed
    refine h.goto fun a ha => ?_
    have := hset a ha
    rw [hwaited a ha, hfailed] at this
    exact this
  · rename_i hcancelled
    exact h.begin he (.inl hcancelled) htaken hwaited

theorem phaseOk_wake {s : Registry ε} {c : Caller} {e : EntryId} {phase : Phase ε}
    (h : PhaseOk s c phase) : PhaseOk s c (wake e phase) := by
  cases phase <;> exact h

/-- A caller notifies the waiters of its entry and goes on. -/
theorem RegistryOk.notify {s : Registry ε} (h : RegistryOk s) {c : Caller} {e : EntryId}
    {ending : Option (Except ε AttemptId)} (hphase : s.phase c = .notify e ending) :
    RegistryOk { s with
      phase := Function.update (fun other => wake e (s.phase other)) c (afterNotify e ending) } where
  attempts := h.attempts
  starting := h.starting
  live := h.live
  fresh := h.fresh
  current := h.current
  waited := h.waited
  phases other := by
    have d : Develops s { s with
        phase := Function.update (fun other => wake e (s.phase other)) c
          (afterNotify e ending) } none :=
      ⟨le_rfl, le_rfl, fun _ _ => .inl rfl, fun _ _ _ hz => hz, fun _ _ _ hf => hf,
        fun _ _ => rfl, fun _ _ => rfl⟩
    refine PhaseOk.mono d (by simp) ?_ (h.waited other)
    by_cases ho : other = c
    · subst ho
      have hp := h.phases other
      rw [hphase] at hp
      simp only [Function.update_self]
      match ending with
      | none => trivial
      | some (.ok session) => exact fun a ha => .inr (hp.2.1 a ha)
      | some (.error error) => exact ⟨hp.1, hp.2.1, hp.2.2 error rfl⟩
    · simp only [Function.update_of_ne ho]
      exact phaseOk_wake (h.phases other)

/-- The map loses its entry or is locked by `prune`. -/
theorem RegistryOk.unmap {s : Registry ε} (h : RegistryOk s) (current pruning : Option EntryId)
    (hcurrent : ∀ e, current = some e → s.current = some e) :
    RegistryOk { s with current, pruning } where
  attempts := h.attempts
  starting := h.starting
  live := h.live
  fresh := h.fresh
  current e he := h.current e (hcurrent e he)
  waited := h.waited
  phases c := by
    have d : Develops s { s with current, pruning } none :=
      ⟨le_rfl, le_rfl, fun _ _ => .inl rfl, fun _ _ _ hz => hz, fun _ _ _ hf => hf,
        fun _ _ => rfl, fun _ _ => rfl⟩
    exact (h.phases c).mono d (by simp) (h.waited c)

/-- One step of any caller, owner or `prune`. -/
theorem RegistryOk.step {s t : Registry ε} {op : RegistryOp ε} (h : RegistryOk s)
    (hstep : s.step op = some t) : RegistryOk t := by
  cases op with
  | enter c =>
    simp only [Registry.step, Registry.enter] at hstep
    have hp := h.phases c
    split at hstep
    · rename_i entry hphase _ hcurrent
      cases hstep
      rw [hphase] at hp
      exact h.goto ⟨h.current entry hcurrent, hp.1, by simp [hp.2]⟩
    · rename_i hphase _ _
      cases hstep
      rw [hphase] at hp
      exact h.allocate.begin (Nat.lt_succ_self _) (.inl (h.fresh _ le_rfl)) hp.1 (by simp [hp.2])
    · cases hstep
  | advance c =>
    simp only [Registry.step, Registry.advance] at hstep
    have hp := h.phases c
    split at hstep
    · rename_i entry hphase
      cases hstep
      rw [hphase] at hp
      exact h.goto hp
    · rename_i entry notified hphase
      cases hstep
      exact h.inspect hphase
    · rename_i entry hphase
      cases hstep
      rw [hphase] at hp
      exact h.goto hp
    · rename_i entry ending hphase
      cases hstep
      exact h.notify hphase
    · rename_i entry error hphase
      split at hstep
      · cases hstep
        rw [hphase] at hp
        refine (h.unmap (if s.current = some entry then none else s.current) s.pruning
          fun e he => ?_).goto (p := .done (.error error))
          fun a ha => .inr (hp.2.1 a ha)
        split at he
        · cases he
        · exact he
      · cases hstep
    · cases hstep
  | complete c error =>
    simp only [Registry.step, Registry.complete] at hstep
    split at hstep
    · rename_i entry attempt hphase
      cases hstep
      refine h.conclude hphase fun session hsession => ?_
      cases error with
      | none => simpa using hsession.symm
      | some error => simp at hsession
    · cases hstep
  | cancel c =>
    simp only [Registry.step, Registry.cancel] at hstep
    split at hstep
    · cases hstep
      exact h.goto trivial
    · rename_i entry attempt hphase
      split at hstep
      · cases hstep
        exact h.conclude hphase (by simp)
      · cases hstep
        exact h.goto trivial
    · cases hstep
  | cloneSession session =>
    simp only [Registry.step, Registry.cloneSession] at hstep
    split at hstep
    · cases hstep
      refine h.recount _ fun a hz => ?_
      have hne : a ≠ session := by
        rintro rfl
        omega
      rw [Function.update_of_ne hne, hz]
    · cases hstep
  | dropSession session =>
    simp only [Registry.step, Registry.dropSession] at hstep
    split at hstep
    · cases hstep
      refine h.recount _ fun a hz => ?_
      by_cases ha : a = session
      · subst ha
        rw [Function.update_self, hz]
      · rw [Function.update_of_ne ha, hz]
    · cases hstep
  | pruneDecide =>
    simp only [Registry.step, Registry.pruneDecide] at hstep
    split at hstep
    · split at hstep
      · cases hstep
      · cases hstep
        exact h.unmap _ _ fun _ he => he
    · cases hstep
  | pruneRemove =>
    simp only [Registry.step, Registry.pruneRemove] at hstep
    split at hstep
    · cases hstep
      exact h.unmap _ _ (by simp)
    · cases hstep

theorem registryOk_start : RegistryOk (registryMachine ε).start where
  attempts := by simp [registryMachine]
  starting := by simp [registryMachine]
  live := by simp [registryMachine]
  fresh _ _ := rfl
  current := by simp [registryMachine]
  waited := by simp [registryMachine]
  phases _ := ⟨rfl, rfl⟩

theorem registryOk_of_reachable {s : Registry ε} (h : (registryMachine ε).Reachable s) :
    RegistryOk s :=
  h.invariant registryOk_start fun _ _ _ hs _ hstep => hs.step hstep

end IptvRelay.SingleFlight
