import IptvRelay.Registry.Invariant

/-!
# Single flight

A caller that waits on an entry of the map shares its attempt. `prune` also
removes cancelled entries and entries of dead sessions; if a caller still waits
on such an entry, it restarts it outside of the map, next to a second caller that
has made a new entry. Apart from that, one initializer runs and one session lives
at a time.
-/

namespace IptvRelay.SingleFlight

open Transition Registry

variable {ε : Type}

/-- The entry that the caller waits on, or is about to look at. -/
def Phase.waiting : Phase ε → Option EntryId
  | .register entry | .check entry _ | .parked entry _ => some entry
  | _ => none

/-- `prune` takes out no entry that a caller waits on, unless the attempt there has failed. -/
def PrunesApart (s : Registry ε) : RegistryOp ε → Prop
  | .pruneDecide => ∀ e, s.current = some e →
    (∃ error, s.entries e = .failed error) ∨ ∀ c, (s.phase c).waiting ≠ some e
  | _ => True

/-- Whatever can still act on the key is reached through the map. -/
structure Mapped (s : Registry ε) : Prop where
  running : ∀ a < s.started, (s.attempts a).status = .running →
    s.current = some (s.attempts a).entry
  live : ∀ a, 0 < s.strong a → s.current = some (s.attempts a).entry
  waiting : ∀ c e, (s.phase c).waiting = some e →
    s.current = some e ∨ ∃ error, s.entries e = .failed error
  pruned : ∀ e, s.pruning = some e → s.current = some e ∧
    ((∃ error, s.entries e = .failed error) ∨
      s.Restartable e ∧ ∀ c, (s.phase c).waiting ≠ some e)

theorem RegistryOk.entry_of_live {s : Registry ε} (h : RegistryOk s) {a : AttemptId}
    (hlive : 0 < s.strong a) : s.entries (s.attempts a).entry = .ready a := by
  obtain ⟨ha, hstatus⟩ := h.live a hlive
  have hok := (h.attempts a ha).2
  simp only [hstatus] at hok
  rcases hok.2 with hready | hdead
  · exact hready
  · omega

theorem RegistryOk.entry_of_running {s : Registry ε} (h : RegistryOk s) {a : AttemptId}
    (ha : a < s.started) (hstatus : (s.attempts a).status = .running) :
    s.entries (s.attempts a).entry = .starting := by
  have hok := (h.attempts a ha).2
  simp only [hstatus] at hok
  exact hok.1

/-- A caller changes its phase and waits on nothing new. -/
theorem Mapped.goto {s : Registry ε} (h : Mapped s) {c : Caller} {p : Phase ε}
    (hw : ∀ e, p.waiting = some e → (s.phase c).waiting = some e) :
    Mapped (s.goto c p) := by
  have hold : ∀ other e, ((s.goto c p).phase other).waiting = some e →
      (s.phase other).waiting = some e := by
    intro other e he
    by_cases ho : other = c
    · subst ho
      exact hw e (by simpa [Registry.goto] using he)
    · simpa [Registry.goto, Function.update_of_ne ho] using he
  refine ⟨h.running, h.live, fun other e he => h.waiting other e (hold other e he), fun e he => ?_⟩
  obtain ⟨hcurrent, hstate⟩ := h.pruned e he
  refine ⟨hcurrent, hstate.imp_right fun hidle => ⟨hidle.1, fun other hwait => ?_⟩⟩
  exact hidle.2 other (hold other e hwait)

/-- A caller starts an attempt on the entry of the map. -/
theorem Mapped.begin {s : Registry ε} (h : Mapped s) (hok : RegistryOk s) {c : Caller}
    {e : EntryId} (hcurrent : s.current = some e) (idle : s.Restartable e)
    (hpruning : s.pruning = none) (htaken : s.taken c = false) : Mapped (s.begin c e) := by
  have hold : ∀ a < s.started, (s.begin c e).attempts a = s.attempts a := fun a ha => by
    simp [Registry.begin, Function.update_of_ne ha.ne]
  refine ⟨fun a ha hstatus => ?_, fun a hpos => ?_, fun other e' he => ?_, fun e' he => ?_⟩
  · rcases Nat.lt_succ_iff_lt_or_eq.mp ha with ha | rfl
    · rw [hold a ha] at hstatus ⊢
      exact h.running a ha hstatus
    · simpa [Registry.begin] using hcurrent
  · rw [hold a (hok.live a hpos).1]
    exact h.live a hpos
  · have hne : other ≠ c := by
      rintro rfl
      simp [Registry.begin, htaken, Phase.waiting] at he
    simp only [Registry.begin, Function.update_of_ne hne] at he
    rcases h.waiting other e' he with hmap | ⟨error, hfailed⟩
    · exact .inl hmap
    · have hne' : e' ≠ e := by
        rintro rfl
        rcases idle with hidle | ⟨session, hidle, _⟩ <;> simp [hidle] at hfailed
      exact .inr ⟨error, by simpa [Registry.begin, Function.update_of_ne hne'] using hfailed⟩
  · exact absurd (hpruning.symm.trans he) (by simp)

/-- The entry that `prune` is about to remove is not running and not alive. -/
theorem Mapped.pruning_of_busy {s : Registry ε} (h : Mapped s) {e : EntryId}
    (hcurrent : s.current = some e) (hbusy : s.entries e = .starting ∨
      s.Restartable e ∧ ∃ c, (s.phase c).waiting = some e) : s.pruning = none := by
  by_contra hsome
  obtain ⟨e', he'⟩ := Option.ne_none_iff_exists'.mp hsome
  obtain ⟨hmap, hstate⟩ := h.pruned e' he'
  obtain rfl : e = e' := Option.some.inj (hcurrent.symm.trans hmap)
  rcases hstate with ⟨error, hfailed⟩ | ⟨hidle, hno⟩
  · rcases hbusy with hbusy | ⟨hbusy | ⟨session, hbusy, _⟩, _⟩ <;> simp [hbusy] at hfailed
  · rcases hbusy with hbusy | ⟨_, c, hc⟩
    · rcases hidle with hidle | ⟨session, hidle, _⟩ <;> simp [hbusy] at hidle
    · exact hno c hc

/-- The attempt of a caller ends. -/
theorem Mapped.conclude {s : Registry ε} (h : Mapped s) (hok : RegistryOk s) {c : Caller}
    {e : EntryId} {a : AttemptId} (hphase : s.phase c = .initializing e a)
    {ending : Option (Except ε AttemptId)}
    (hending : ∀ session, ending = some (.ok session) → session = a) :
    Mapped (s.conclude c e a ending) := by
  have hp := hok.phases c
  rw [hphase] at hp
  obtain ⟨ha, hattempt, _⟩ := hp
  have hcurrent : s.current = some e := by
    have := h.running a ha (by rw [hattempt])
    rwa [hattempt] at this
  have hstarting : s.entries e = .starting := by
    have := hok.entry_of_running ha (by rw [hattempt])
    rwa [hattempt] at this
  have hpruning := h.pruning_of_busy hcurrent (.inl hstarting)
  have hentry : ∀ b, ((s.conclude c e a ending).attempts b).entry = (s.attempts b).entry := by
    intro b
    by_cases hb : b = a
    · subst hb
      simp [Registry.conclude]
    · simp [Registry.conclude, Function.update_of_ne hb]
  refine ⟨fun b hb hstatus => ?_, fun b hpos => ?_, fun other e' he => ?_, fun e' he => ?_⟩
  · rw [hentry b]
    by_cases hba : b = a
    · subst hba
      rw [hattempt]
      exact hcurrent
    · simp only [Registry.conclude, Function.update_of_ne hba] at hstatus
      exact h.running b hb hstatus
  · rw [hentry b]
    by_cases hba : b = a
    · subst hba
      rw [hattempt]
      exact hcurrent
    · refine h.live b ?_
      simp only [Registry.conclude] at hpos
      split at hpos
      · rename_i session
        obtain rfl := hending session rfl
        rwa [Function.update_of_ne hba] at hpos
      · exact hpos
  · have hne : other ≠ c := by
      rintro rfl
      simp [Registry.conclude, Phase.waiting] at he
    simp only [Registry.conclude, Function.update_of_ne hne] at he
    rcases h.waiting other e' he with hmap | ⟨error, hfailed⟩
    · exact .inl hmap
    · have hne' : e' ≠ e := by
        rintro rfl
        simp [hstarting] at hfailed
      exact .inr ⟨error, by simpa [Registry.conclude, Function.update_of_ne hne'] using hfailed⟩
  · exact absurd (hpruning.symm.trans he) (by simp)

/-- More or fewer owners of sessions that are alive. -/
theorem Mapped.recount {s : Registry ε} (h : Mapped s) (strong : AttemptId → Nat)
    (hdead : ∀ a, s.strong a = 0 → strong a = 0) : Mapped { s with strong } := by
  refine ⟨h.running, fun a hpos => h.live a ?_, h.waiting, fun e he => ?_⟩
  · exact Nat.pos_of_ne_zero fun hz => hpos.ne' (hdead a hz)
  · obtain ⟨hcurrent, hstate⟩ := h.pruned e he
    refine ⟨hcurrent, hstate.imp_right fun hidle => ⟨hidle.1.imp_right ?_, hidle.2⟩⟩
    rintro ⟨session, hready, hz⟩
    exact ⟨session, hready, hdead session hz⟩

/-- A waiting caller looks at its entry. -/
theorem Mapped.inspect {s : Registry ε} (h : Mapped s) (hok : RegistryOk s) {c : Caller}
    {e : EntryId} {notified : Bool} (hphase : s.phase c = .check e notified) :
    Mapped (s.inspect c e notified) := by
  have hp := hok.phases c
  rw [hphase] at hp
  have hwait : (s.phase c).waiting = some e := by simp [hphase, Phase.waiting]
  have hrestart : s.Restartable e → Mapped (s.begin c e) := by
    intro hidle
    have hcurrent : s.current = some e := by
      rcases h.waiting c e hwait with hmap | ⟨error, hfailed⟩
      · exact hmap
      · rcases hidle with hidle | ⟨session, hidle, _⟩ <;> simp [hidle] at hfailed
    exact h.begin hok hcurrent hidle (h.pruning_of_busy hcurrent (.inr ⟨hidle, c, hwait⟩)) hp.2.1
  unfold Registry.inspect
  split
  · have hgoto := h.goto (c := c) (p := .parked e notified) fun e' he => by
      simpa [hphase, Phase.waiting] using he
    exact ⟨hgoto.running, hgoto.live, hgoto.waiting, hgoto.pruned⟩
  · rename_i session hready
    split
    · rename_i hlive
      refine (h.recount (Function.update s.strong session (s.strong session + 1))
        fun a hz => ?_).goto (p := .done (.ok session)) (by simp [Phase.waiting])
      have hne : a ≠ session := by
        rintro rfl
        omega
      rw [Function.update_of_ne hne, hz]
    · rename_i hdead
      exact hrestart (.inr ⟨session, hready, by omega⟩)
  · exact h.goto (by simp [Phase.waiting])
  · rename_i hcancelled
    exact hrestart (.inl hcancelled)

/-- The first access to the map. -/
theorem Mapped.enter {s t : Registry ε} (h : Mapped s) (hok : RegistryOk s) {c : Caller}
    (hstep : s.enter c = some t) : Mapped t := by
  have hp := hok.phases c
  unfold Registry.enter at hstep
  split at hstep
  · rename_i entry hphase hpruning hcurrent
    cases hstep
    refine ⟨h.running, h.live, fun other e he => ?_, fun e he => ?_⟩
    · by_cases ho : other = c
      · subst ho
        simp only [Registry.goto, Function.update_self, Phase.waiting, Option.some.injEq] at he
        exact .inl (he ▸ hcurrent)
      · simp only [Registry.goto, Function.update_of_ne ho] at he
        exact h.waiting other e he
    · exact absurd (hpruning.symm.trans he) (by simp)
  · rename_i hphase hpruning hcurrent
    cases hstep
    rw [hphase] at hp
    -- Nothing is left of the key: what waits, waits on a failed attempt.
    have hempty : Mapped
        { s with current := some s.allocated, allocated := s.allocated + 1 } := by
      refine ⟨fun a ha hstatus => ?_, fun a hpos => ?_, fun other e he => ?_, fun e he => ?_⟩
      · exact absurd (h.running a ha hstatus) (by simp [hcurrent])
      · exact absurd (h.live a hpos) (by simp [hcurrent])
      · exact .inr ((h.waiting other e he).resolve_left (by simp [hcurrent]))
      · exact absurd (hpruning.symm.trans he) (by simp)
    exact hempty.begin hok.allocate rfl (.inl (hok.fresh _ le_rfl)) hpruning hp.1
  · cases hstep

theorem waiting_wake (e : EntryId) (phase : Phase ε) :
    (wake e phase).waiting = phase.waiting := by
  cases phase <;> rfl

/-- A caller removes the entry of its failed attempt from the map. -/
theorem Mapped.remove {s : Registry ε} (h : Mapped s) (hok : RegistryOk s) {c : Caller}
    {entry : EntryId} {error : ε} (hphase : s.phase c = .remove entry error)
    (hpruning : s.pruning = none) :
    Mapped { s with
      current := if s.current = some entry then none else s.current
      phase := Function.update s.phase c (.done (.error error)) } := by
  have hp := hok.phases c
  rw [hphase] at hp
  have hkeep : ∀ e, s.current = some e → s.entries e ≠ .failed error →
      (if s.current = some entry then none else s.current) = some e := by
    intro e he hne
    have hother : s.current ≠ some entry := by
      rw [he]
      rintro ⟨⟩
      exact hne hp.2.2
    rw [if_neg hother, he]
  refine ⟨fun a ha hstatus => ?_, fun a hpos => ?_, fun other e he => ?_, fun e he => ?_⟩
  · exact hkeep _ (h.running a ha hstatus) (by rw [hok.entry_of_running ha hstatus]; simp)
  · exact hkeep _ (h.live a hpos) (by rw [hok.entry_of_live hpos]; simp)
  · have hne : other ≠ c := by
      rintro rfl
      simp [Phase.waiting] at he
    simp only [Function.update_of_ne hne] at he
    rcases h.waiting other e he with hmap | hfailed
    · by_cases hf : s.entries e = .failed error
      · exact .inr ⟨error, hf⟩
      · exact .inl (hkeep e hmap hf)
    · exact .inr hfailed
  · exact absurd (hpruning.symm.trans he) (by simp)

/-- What `prune` does not keep. -/
theorem keeps_eq_false {s : Registry ε} {e : EntryId} (h : s.keeps e = false) :
    (∃ error, s.entries e = .failed error) ∨ s.Restartable e := by
  unfold Registry.keeps at h
  split at h
  · rename_i session hready
    exact .inr (.inr ⟨session, hready, by simpa using h⟩)
  · cases h
  · rename_i error hfailed
    exact .inl ⟨error, hfailed⟩
  · rename_i hcancelled
    exact .inr (.inl hcancelled)

/-- `prune` removes the entry that it has chosen. -/
theorem Mapped.unmap {s : Registry ε} (h : Mapped s) (hok : RegistryOk s) {entry : EntryId}
    (hpruning : s.pruning = some entry) : Mapped { s with current := none, pruning := none } := by
  obtain ⟨hcurrent, hstate⟩ := h.pruned entry hpruning
  have hchosen : ∀ e, s.current = some e → e = entry := fun e he =>
    Option.some.inj (he.symm.trans hcurrent)
  refine ⟨fun a ha hstatus => ?_, fun a hpos => ?_, fun c e he => ?_, by simp⟩
  · have hentry := hok.entry_of_running ha hstatus
    rw [hchosen _ (h.running a ha hstatus)] at hentry
    rcases hstate with ⟨error, hfailed⟩ | ⟨hidle | ⟨session, hidle, _⟩, _⟩
    · simp [hentry] at hfailed
    · simp [hentry] at hidle
    · simp [hentry] at hidle
  · have hentry := hok.entry_of_live hpos
    rw [hchosen _ (h.live a hpos)] at hentry
    rcases hstate with ⟨error, hfailed⟩ | ⟨hidle | ⟨session, hidle, hz⟩, _⟩
    · simp [hentry] at hfailed
    · simp [hentry] at hidle
    · rw [hentry, EntryState.ready.injEq] at hidle
      subst hidle
      exact absurd hz hpos.ne'
  · rcases h.waiting c e he with hmap | hfailed
    · obtain rfl := hchosen e hmap
      rcases hstate with hfailed | ⟨_, hno⟩
      · exact .inr hfailed
      · exact absurd he (hno c)
    · exact .inr hfailed

/-- One step that respects `PrunesApart`. -/
theorem Mapped.step {s t : Registry ε} {op : RegistryOp ε} (h : Mapped s) (hok : RegistryOk s)
    (hapart : PrunesApart s op) (hstep : s.step op = some t) : Mapped t := by
  cases op with
  | enter c => exact h.enter hok hstep
  | advance c =>
    simp only [Registry.step, Registry.advance] at hstep
    split at hstep
    · rename_i entry hphase
      cases hstep
      exact h.goto (by simp [hphase, Phase.waiting])
    · rename_i entry notified hphase
      cases hstep
      exact h.inspect hok hphase
    · rename_i entry hphase
      cases hstep
      exact h.goto (by simp [hphase, Phase.waiting])
    · rename_i entry ending hphase
      cases hstep
      have hnone : (afterNotify entry ending).waiting = none := by
        unfold afterNotify
        split <;> rfl
      have hgoto := h.goto (c := c) (p := afterNotify entry ending) (by simp [hnone])
      have hsame : ∀ other, (Function.update (fun other => wake entry (s.phase other)) c
          (afterNotify entry ending) other).waiting =
          ((s.goto c (afterNotify entry ending)).phase other).waiting := by
        intro other
        by_cases ho : other = c
        · subst ho
          simp [Registry.goto]
        · simp [Registry.goto, Function.update_of_ne ho, waiting_wake]
      refine ⟨hgoto.running, hgoto.live, fun other e he => ?_, fun e he => ?_⟩
      · exact hgoto.waiting other e (by rw [← hsame]; exact he)
      · obtain ⟨hcurrent, hstate⟩ := hgoto.pruned e he
        refine ⟨hcurrent, hstate.imp_right fun hidle => ⟨hidle.1, fun other hw => ?_⟩⟩
        exact hidle.2 other (by rw [← hsame]; exact hw)
    · rename_i entry error hphase
      split at hstep
      · rename_i hpruning
        cases hstep
        exact h.remove hok hphase hpruning
      · cases hstep
    · cases hstep
  | complete c error =>
    simp only [Registry.step, Registry.complete] at hstep
    split at hstep
    · rename_i entry attempt hphase
      cases hstep
      refine h.conclude hok hphase fun session hsession => ?_
      cases error with
      | none => simpa using hsession.symm
      | some error => simp at hsession
    · cases hstep
  | cancel c =>
    simp only [Registry.step, Registry.cancel] at hstep
    split at hstep
    · cases hstep
      exact h.goto (by simp [Phase.waiting])
    · rename_i entry attempt hphase
      split at hstep
      · cases hstep
        exact h.conclude hok hphase (by simp)
      · cases hstep
        exact h.goto (by simp [Phase.waiting])
    · cases hstep
  | cloneSession session =>
    simp only [Registry.step, Registry.cloneSession] at hstep
    split at hstep
    · cases hstep
      refine h.recount _ fun a hz => ?_
      have hne : a ≠ session := by
        rintro rfl
        omega
      rw [Function.update_of_ne hne, hz]
    · cases hstep
  | dropSession session =>
    simp only [Registry.step, Registry.dropSession] at hstep
    split at hstep
    · cases hstep
      refine h.recount _ fun a hz => ?_
      by_cases ha : a = session
      · subst ha
        rw [Function.update_self, hz]
      · rw [Function.update_of_ne ha, hz]
    · cases hstep
  | pruneDecide =>
    simp only [Registry.step, Registry.pruneDecide] at hstep
    split at hstep
    · rename_i entry _ hcurrent
      split at hstep
      · cases hstep
      · rename_i hdead
        cases hstep
        refine ⟨h.running, h.live, h.waiting, fun e he => ?_⟩
        obtain rfl : entry = e := Option.some.inj he
        rcases hapart entry hcurrent with hfailed | hno
        · exact ⟨hcurrent, .inl hfailed⟩
        · exact ⟨hcurrent, (keeps_eq_false (s := s) (by simpa using hdead)).imp_right
            fun hidle => ⟨hidle, hno⟩⟩
    · cases hstep
  | pruneRemove =>
    simp only [Registry.step, Registry.pruneRemove] at hstep
    split at hstep
    · rename_i entry hpruning
      cases hstep
      exact h.unmap hok hpruning
    · cases hstep

theorem mapped_of_reachable {s : Registry ε}
    (h : (registryMachine ε).ReachableWhere PrunesApart s) : Mapped s ∧ RegistryOk s :=
  h.invariant (I := fun s => Mapped s ∧ RegistryOk s)
    ⟨⟨by simp [registryMachine], by simp [registryMachine],
      by simp [registryMachine, Phase.waiting], by simp [registryMachine]⟩, registryOk_start⟩
    fun _ _ _ hs hapart hstep => ⟨hs.1.step hs.2 hapart hstep, hs.2.step hstep⟩

/-! ## Results -/

/-- A caller that has waited on an attempt returns its result, unless the attempt was cancelled or
its session is gone; and no caller consumes its initializer twice. -/
structure Answered (s : Registry ε) : Prop where
  shared : ∀ c result, s.phase c = .done result → ∀ a ∈ s.waited c,
    (s.attempts a).status = .finished result ∨ s.Void a
  once : ∀ c, s.phase c ≠ .panicked

/-- One initializer runs at a time and one session lives at a time. -/
structure OneAtATime (s : Registry ε) : Prop where
  initializer : ∀ c c', s.Initializes c → s.Initializes c' → c = c'
  session : ∀ a a', 0 < s.strong a → 0 < s.strong a' → a = a'

theorem answered_of_ok {s : Registry ε} (h : RegistryOk s) : Answered s := by
  refine ⟨fun c result hdone a ha => ?_, fun c hpanic => ?_⟩
  · have hp := h.phases c
    rw [hdone] at hp
    exact hp a ha
  · have hp := h.phases c
    rw [hpanic] at hp
    exact hp

theorem oneAtATime_of_mapped {s : Registry ε} (h : Mapped s) (hok : RegistryOk s) :
    OneAtATime s := by
  refine ⟨?_, fun a a' ha ha' => ?_⟩
  · rintro c c' ⟨e, a, hphase⟩ ⟨e', a', hphase'⟩
    have hp := hok.phases c
    have hp' := hok.phases c'
    rw [hphase] at hp
    rw [hphase'] at hp'
    obtain ⟨ha, hattempt, _⟩ := hp
    obtain ⟨ha', hattempt', _⟩ := hp'
    have hmap := h.running a ha (by rw [hattempt])
    have hmap' := h.running a' ha' (by rw [hattempt'])
    have hof := (hok.attempts a ha).2
    have hof' := (hok.attempts a' ha').2
    simp only [hattempt] at hmap hof
    simp only [hattempt'] at hmap' hof'
    -- Both attempts are the newest one of the entry in the map.
    obtain rfl : e = e' := Option.some.inj (hmap.symm.trans hmap')
    obtain rfl : a = a' := hof.2.symm.trans hof'.2
    rw [hattempt] at hattempt'
    exact congrArg Attempt.owner hattempt'
  · have hentry := hok.entry_of_live ha
    have hentry' := hok.entry_of_live ha'
    have hsame : (s.attempts a).entry = (s.attempts a').entry :=
      Option.some.inj ((h.live a ha).symm.trans (h.live a' ha'))
    rw [hsame, hentry', EntryState.ready.injEq] at hentry
    exact hentry.symm

/-- Callers share attempts in every interleaving; where `prune` leaves waited-on entries alone,
attempts and sessions also exclude each other. -/
theorem single_flight (s : Registry ε) (h : (registryMachine ε).Reachable s) :
    Answered s ∧ ((registryMachine ε).ReachableWhere PrunesApart s → OneAtATime s) := by
  refine ⟨answered_of_ok (registryOk_of_reachable h), fun happart => ?_⟩
  obtain ⟨hmapped, hok⟩ := mapped_of_reachable happart
  exact oneAtATime_of_mapped hmapped hok

/-- Caller 0 starts, caller 1 waits on the attempt, and the future of caller 0 is dropped. -/
def cancelledWait : List (RegistryOp Unit) :=
  [.enter 0, .enter 1, .advance 1, .advance 1, .cancel 0]

/-- The waiter and a new caller run their initializers. -/
def bothInitialize (s : Registry Unit) : Bool :=
  match s.phase 1, s.phase 2 with
  | .initializing .., .initializing .. => true
  | _, _ => false

/-- The waiter has returned, and the attempt that it waited on was cancelled. -/
def waiterTookOver (s : Registry Unit) : Bool :=
  match s.phase 1, s.waited 1, (s.attempts 0).status with
  | .done _, [0], .cancelled => true
  | _, _, _ => false

/-- If `prune` removes the cancelled entry before the waiter wakes up, the waiter and a new caller
both run their initializers. And without `prune`, the waiter returns a session of its own. -/
theorem single_flight_fails :
    (¬ ∀ s, (registryMachine Unit).Reachable s → OneAtATime s) ∧
      ¬ ∀ s, (registryMachine Unit).Reachable s → ∀ c result, s.phase c = .done result →
        ∀ a ∈ s.waited c, (s.attempts a).status = .finished result := by
  refine ⟨fun hall => ?_, fun hall => ?_⟩
  · obtain ⟨s, hs, hp⟩ := (registryMachine Unit).exists_reachable_of_run
      (List.append cancelledWait [.pruneDecide, .pruneRemove, .enter 2, .advance 0,
        .advance 1, .advance 1, .advance 1])
      bothInitialize (by decide +kernel)
    unfold bothInitialize at hp
    split at hp
    · rename_i h1 h2
      exact absurd ((hall s hs).initializer 1 2 ⟨_, _, h1⟩ ⟨_, _, h2⟩) (by decide)
    · cases hp
  · obtain ⟨s, hs, hp⟩ := (registryMachine Unit).exists_reachable_of_run
      (List.append cancelledWait [.advance 0, .advance 1, .advance 1, .advance 1,
        .complete 1 none, .advance 1])
      waiterTookOver (by decide +kernel)
    unfold waiterTookOver at hp
    split at hp
    · rename_i result h1 h2 h3
      exact absurd (h3.symm.trans (hall s hs 1 result h1 0 (by simp [h2]))) (by simp)
    · cases hp

/-- The waiter takes over the cancelled attempt, its session is dropped, and the next caller
restarts the entry. -/
theorem single_flight_taken_over :
    ∃ s : Registry Unit, (registryMachine Unit).Reachable s ∧
      (s.started = 3 ∧ s.waited 1 = [0] ∧ s.strong 1 = 0 ∧ s.strong 2 = 1) ∧
      Answered s ∧ OneAtATime s := by
  obtain ⟨s, hs, hp⟩ := (registryMachine Unit).exists_reachableWhere_of_run
    PrunesApart
    (fun s op => match op with
      | .pruneDecide => false
      | _ => true)
    (List.append cancelledWait [.advance 0, .advance 1, .advance 1, .advance 1,
      .complete 1 none, .advance 1, .dropSession 1, .enter 2, .advance 2, .advance 2,
      .complete 2 none])
    (fun s => decide (s.started = 3 ∧ s.waited 1 = [0] ∧ s.strong 1 = 0 ∧ s.strong 2 = 1))
    (fun s op _ hno => by
      cases op with
      | pruneDecide => cases hno
      | _ => trivial)
    (by decide +kernel)
  have hflight := single_flight s hs.reachable
  exact ⟨s, hs.reachable, of_decide_eq_true hp, hflight.1, hflight.2 hs⟩

end IptvRelay.SingleFlight
