import IptvRelay.Lib.RunningBest
import IptvRelay.Sports.Matcher
import Mathlib.Data.Prod.Lex

/-!
# The best event

The loop of `match_event` compares three values and takes two confidences that are close for
equal. Confidences come from few levels that lie apart, so the comparison is the strict order of
a rank and the loop returns an event of least rank.
-/

namespace IptvRelay.Sports

section

variable (alphabet : Alphabet) (query : MatchQuery) (event : EspnEvent)

/-! ## Scores -/

/-- The first team is away. -/
def straightScore : ℚ :=
  min (scoreTeam alphabet query.firstTeam event.away)
    (scoreTeam alphabet query.secondTeam event.home)

/-- The first team is at home. -/
def swappedScore : ℚ :=
  min (scoreTeam alphabet query.firstTeam event.home)
    (scoreTeam alphabet query.secondTeam event.away)

def eventScore : ℚ := max (straightScore alphabet query event) (swappedScore alphabet query event)

/-- The score after the reduction for an `at` in the wrong order. -/
def confidence : ℚ :=
  if query.separator = .At ∧ straightScore alphabet query event < swappedScore alphabet query event
  then swappedScore alphabet query event * (9 / 10)
  else eventScore alphabet query event

def firstIsHome : Bool := straightScore alphabet query event < swappedScore alphabet query event

theorem scoreEvent_eq : scoreEvent alphabet query event =
    if eventScore alphabet query event < minTeamScore then none
    else some (confidence alphabet query event, firstIsHome alphabet query event) := by
  unfold scoreEvent confidence firstIsHome eventScore straightScore swappedScore
  dsimp only
  generalize min (scoreTeam alphabet query.firstTeam event.away) _ = straight
  generalize min (scoreTeam alphabet query.firstTeam event.home) _ = swapped
  have hchosen : (if query.separator = .At ∧ straight ≥ swapped then (straight, false)
      else if query.separator = .At then (swapped, true)
      else if straight ≥ swapped then (straight, false)
      else (swapped, true)) = (max straight swapped, decide (straight < swapped)) := by
    by_cases hswap : straight < swapped
    · simp [hswap, not_le_of_gt hswap, max_eq_right hswap.le]
    · have hkeep := le_of_not_gt hswap
      simp [hkeep, hswap]
  rw [hchosen]
  dsimp only
  apply if_congr Iff.rfl rfl
  by_cases hswap : query.separator = .At ∧ straight < swapped
  · rw [if_pos hswap, if_pos ⟨hswap.1, decide_eq_true hswap.2⟩, max_eq_right hswap.2.le]
  · rw [if_neg hswap, if_neg fun h => hswap ⟨h.1, of_decide_eq_true h.2⟩]

/-! ## Levels -/

/-- What `score_team` can say. -/
def teamLevels : List ℚ := [0, 3 / 4, 4 / 5, 17 / 20, 19 / 20, 1]

theorem max_mem_levels {a b : ℚ} (ha : a ∈ teamLevels) (hb : b ∈ teamLevels) :
    max a b ∈ teamLevels := by
  rcases max_choice a b with h | h <;> rwa [h]

theorem min_mem_levels {a b : ℚ} (ha : a ∈ teamLevels) (hb : b ∈ teamLevels) :
    min a b ∈ teamLevels := by
  rcases min_choice a b with h | h <;> rwa [h]

theorem scoreTeam_mem (text : String) (team : EspnTeam) :
    scoreTeam alphabet text team ∈ teamLevels := by
  unfold scoreTeam
  dsimp only
  split_ifs
  · decide +kernel
  · decide +kernel
  · decide +kernel
  · decide +kernel
  · refine List.foldlRecOn _ _ (by decide +kernel) fun best hbest entry hentry => ?_
    have hdisplay : (8 / 10 : ℚ) ∈ teamLevels := by decide +kernel
    have hpart : (75 / 100 : ℚ) ∈ teamLevels := by decide +kernel
    have hlevel : entry.2 ∈ teamLevels := by
      simp only [List.mem_cons, List.not_mem_nil, or_false] at hentry
      rcases hentry with rfl | rfl | rfl
      · exact hdisplay
      · exact hpart
      · exact hpart
    split_ifs
    · exact max_mem_levels hbest hlevel
    · exact hbest

theorem straightScore_mem : straightScore alphabet query event ∈ teamLevels :=
  min_mem_levels (scoreTeam_mem alphabet _ _) (scoreTeam_mem alphabet _ _)

theorem swappedScore_mem : swappedScore alphabet query event ∈ teamLevels :=
  min_mem_levels (scoreTeam_mem alphabet _ _) (scoreTeam_mem alphabet _ _)

/-- The confidences of matches: the levels that reach the threshold, and those reduced. -/
def confidenceLevels : List ℚ :=
  teamLevels.filter (minTeamScore ≤ ·) ++
    (teamLevels.filter (minTeamScore ≤ ·)).map (· * (9 / 10))

theorem confidence_mem (h : minTeamScore ≤ eventScore alphabet query event) :
    confidence alphabet query event ∈ confidenceLevels := by
  rw [confidence]
  split_ifs with hswap
  · rw [eventScore, max_eq_right hswap.2.le] at h
    refine List.mem_append_right _ (List.mem_map_of_mem (f := (· * (9 / 10))) ?_)
    exact List.mem_filter.mpr ⟨swappedScore_mem alphabet query event, decide_eq_true h⟩
  · refine List.mem_append_left _ (List.mem_filter.mpr ⟨?_, decide_eq_true h⟩)
    exact max_mem_levels (straightScore_mem alphabet query event)
      (swappedScore_mem alphabet query event)

/-- Two levels that are not equal are not close. -/
theorem levels_apart : ∀ a ∈ confidenceLevels, ∀ b ∈ confidenceLevels,
    max (a - b) (b - a) > epsilon ↔ a ≠ b := by
  decide +kernel

/-! ## The order of matches -/

/-- An event with the match it would be. -/
def entryOf : Option (EventMatch × Nat) :=
  (scoreEvent alphabet query event).map fun scored =>
    (candidate query event scored, distance query event)

theorem entryOf_eq : entryOf alphabet query event =
    if eventScore alphabet query event < minTeamScore then none
    else some (candidate query event (confidence alphabet query event,
      firstIsHome alphabet query event), distance query event) := by
  rw [entryOf, scoreEvent_eq]
  split_ifs <;> rfl

/-- Highest confidence first, then the smallest distance, then the earliest start. -/
def rank (entry : EventMatch × Nat) : ℚᵒᵈ ×ₗ ℕ ×ₗ ℤ :=
  toLex (OrderDual.toDual entry.1.confidence, toLex (entry.2, entry.1.startUtc))

theorem rank_lt_iff {a b : EventMatch × Nat} : rank a < rank b ↔
    b.1.confidence < a.1.confidence ∨ b.1.confidence = a.1.confidence ∧
      (a.2 < b.2 ∨ a.2 = b.2 ∧ a.1.startUtc < b.1.startUtc) := by
  rw [rank, rank, Prod.Lex.toLex_lt_toLex, Prod.Lex.toLex_lt_toLex]
  exact or_congr Iff.rfl (and_congr_left' ⟨fun h => h.symm, fun h => h.symm⟩)

/-- What the loop meets: a level, and no distance without a parsed start. -/
structure Entry (query : MatchQuery) (entry : EventMatch × Nat) : Prop where
  confidence : entry.1.confidence ∈ confidenceLevels
  distance : query.parsedStart = none → entry.2 = 0

theorem better_iff {a b : EventMatch × Nat} (ha : Entry query a) (hb : Entry query b) :
    better query a b = true ↔ rank a < rank b := by
  rw [rank_lt_iff, better]
  have hapart := levels_apart _ ha.confidence _ hb.confidence
  split_ifs with hclose hdistance
  · have hne := hapart.mp hclose
    rw [decide_eq_true_iff]
    exact ⟨.inl, fun h => h.resolve_right fun hsame => hne hsame.1.symm⟩
  · have heq := not_not.mp (mt hapart.mpr hclose)
    simp [heq, hdistance.2]
  · have heq := not_not.mp (mt hapart.mpr hclose)
    have hsame : a.2 = b.2 := by
      by_contra hne
      cases hparsed : query.parsedStart with
      | none => exact hne ((ha.distance hparsed).trans (hb.distance hparsed).symm)
      | some parsed => exact hdistance ⟨by rw [hparsed]; rfl, hne⟩
    simp [heq, hsame]

theorem entryOf_entry {entry : EventMatch × Nat} (h : entryOf alphabet query event = some entry) :
    Entry query entry := by
  rw [entryOf_eq] at h
  split_ifs at h with hscore
  cases h
  refine ⟨confidence_mem alphabet query event (le_of_not_gt hscore), fun hparsed => ?_⟩
  simp only [Sports.distance, hparsed]
  rfl

/-! ## The loop -/

variable (events : List EspnEvent)

def entries : List (EventMatch × Nat) := events.filterMap (entryOf alphabet query)

theorem consider_eq (best : Option (EventMatch × Nat)) :
    consider alphabet query best event =
      (entryOf alphabet query event).elim best (RunningBest.keep (better query) best) := by
  rw [consider, entryOf]
  cases scoreEvent alphabet query event with
  | none => rfl
  | some scored => rfl

theorem foldl_consider (best : Option (EventMatch × Nat)) :
    events.foldl (consider alphabet query) best =
      (entries alphabet query events).foldl (RunningBest.keep (better query)) best := by
  induction events generalizing best with
  | nil => rfl
  | cons event rest ih =>
    rw [List.foldl_cons, ih, consider_eq, entries, entries, List.filterMap_cons]
    cases entryOf alphabet query event with
    | none => rfl
    | some entry => rfl

/-- `match_event` finds the first event of least rank. -/
theorem matchEvent_eq : matchEvent alphabet query events =
    ((entries alphabet query events).argmin rank).map Prod.fst := by
  rw [matchEvent, foldl_consider]
  apply congrArg (Option.map Prod.fst)
  apply RunningBest.run_eq_argmin
  intro a ha b hb
  obtain ⟨eventA, -, hentryA⟩ := List.mem_filterMap.mp ha
  obtain ⟨eventB, -, hentryB⟩ := List.mem_filterMap.mp hb
  exact better_iff query (entryOf_entry alphabet query eventA hentryA)
    (entryOf_entry alphabet query eventB hentryB)

theorem mem_entries {entry : EventMatch × Nat} : entry ∈ entries alphabet query events ↔
    ∃ event ∈ events, minTeamScore ≤ eventScore alphabet query event ∧
      entry = (candidate query event (confidence alphabet query event,
        firstIsHome alphabet query event), distance query event) := by
  rw [entries, List.mem_filterMap]
  refine exists_congr fun event => and_congr_right' ?_
  rw [entryOf_eq]
  split_ifs with hscore
  · exact iff_of_false (by simp) fun h => absurd hscore (not_lt_of_ge h.1)
  · rw [Option.some_inj, and_iff_right (le_of_not_gt hscore)]
    exact ⟨Eq.symm, Eq.symm⟩

theorem matchEvent_isSome : (matchEvent alphabet query events).isSome = true ↔
    ∃ event ∈ events, minTeamScore ≤ eventScore alphabet query event := by
  rw [matchEvent_eq, Option.isSome_map, RunningBest.isSome_argmin]
  constructor
  · intro hne
    obtain ⟨entry, hentry⟩ := List.exists_mem_of_ne_nil _ hne
    obtain ⟨event, hevent, hscore, -⟩ := (mem_entries alphabet query events).mp hentry
    exact ⟨event, hevent, hscore⟩
  · rintro ⟨event, hevent, hscore⟩
    exact List.ne_nil_of_mem
      ((mem_entries alphabet query events).mpr ⟨event, hevent, hscore, rfl⟩)

/-- `event` is as good a match as `other`. Without a parsed start all distances are 0. -/
def AsGood (event other : EspnEvent) : Prop :=
  confidence alphabet query other < confidence alphabet query event ∨
    confidence alphabet query other = confidence alphabet query event ∧
      (distance query event < distance query other ∨
        distance query event = distance query other ∧ event.startUtc ≤ other.startUtc)

theorem asGood_of_rank {event other : EspnEvent}
    (h : rank (candidate query event (confidence alphabet query event,
        firstIsHome alphabet query event), distance query event) ≤
      rank (candidate query other (confidence alphabet query other,
        firstIsHome alphabet query other), distance query other)) :
    AsGood alphabet query event other := by
  rw [rank, rank, Prod.Lex.toLex_le_toLex, Prod.Lex.toLex_le_toLex] at h
  rcases h with hless | ⟨hsame, hrest⟩
  · exact .inl hless
  · exact .inr ⟨(OrderDual.toDual.injective hsame).symm, hrest⟩

/-- A match is the match of an event as good as any other. -/
theorem matchEvent_spec {found : EventMatch} (h : matchEvent alphabet query events = some found) :
    ∃ event ∈ events, minTeamScore ≤ eventScore alphabet query event ∧
      found = candidate query event (confidence alphabet query event,
        firstIsHome alphabet query event) ∧
      ∀ other ∈ events, minTeamScore ≤ eventScore alphabet query other →
        AsGood alphabet query event other := by
  rw [matchEvent_eq] at h
  obtain ⟨entry, hbest, rfl⟩ := Option.map_eq_some_iff.mp h
  obtain ⟨event, hevent, hscore, rfl⟩ :=
    (mem_entries alphabet query events).mp (List.argmin_mem hbest)
  refine ⟨event, hevent, hscore, rfl, fun other hother hreaches => ?_⟩
  apply asGood_of_rank
  exact List.le_of_mem_argmin
    ((mem_entries alphabet query events).mpr ⟨other, hother, hreaches, rfl⟩) hbest

/-- With one event at a time the order of the list does not matter. -/
theorem matchEvent_perm {reordered : List EspnEvent} (hperm : events.Perm reordered)
    (hstarts : (events.map EspnEvent.startUtc).Nodup) :
    matchEvent alphabet query reordered = matchEvent alphabet query events := by
  rw [matchEvent_eq, matchEvent_eq]
  apply congrArg (Option.map Prod.fst)
  refine (RunningBest.argmin_eq_of_perm (hperm.filterMap _) fun a ha b hb hrank => ?_).symm
  obtain ⟨eventA, hA, -, rfl⟩ := (mem_entries alphabet query events).mp ha
  obtain ⟨eventB, hB, -, rfl⟩ := (mem_entries alphabet query events).mp hb
  have hstart : eventA.startUtc = eventB.startUtc :=
    congrArg (fun place => (ofLex (ofLex place).2).2) hrank
  rw [List.inj_on_of_nodup_map hstarts hA hB hstart]

/-- `match_event` returns the best event that reaches the threshold, whatever the order. -/
theorem matchEvent_optimal :
    ((matchEvent alphabet query events).isSome = true ↔
      ∃ event ∈ events, minTeamScore ≤ eventScore alphabet query event) ∧
    (∀ found, matchEvent alphabet query events = some found →
      ∃ event ∈ events, minTeamScore ≤ eventScore alphabet query event ∧
        found = candidate query event (confidence alphabet query event,
          firstIsHome alphabet query event) ∧
        found.home = .ofTeam event.home ∧ found.away = .ofTeam event.away ∧
        ∀ other ∈ events, minTeamScore ≤ eventScore alphabet query other →
          AsGood alphabet query event other) ∧
    ∀ reordered : List EspnEvent, events.Perm reordered →
      (events.map EspnEvent.startUtc).Nodup →
      matchEvent alphabet query reordered = matchEvent alphabet query events := by
  refine ⟨matchEvent_isSome alphabet query events, fun found hfound => ?_,
    fun reordered hperm hstarts => matchEvent_perm alphabet query events hperm hstarts⟩
  obtain ⟨event, hevent, hscore, rfl, hbest⟩ := matchEvent_spec alphabet query events hfound
  exact ⟨event, hevent, hscore, rfl, rfl, rfl, hbest⟩

end

/-- The tables for texts in ASCII. -/
def asciiAlphabet : Alphabet := ⟨Char.isAlphanum, fun c => [c.toLower]⟩

def sabres : EspnTeam := ⟨"Buffalo Sabres", "Sabres", "Buffalo", "Sabres", "BUF", none⟩

def senators : EspnTeam := ⟨"Ottawa Senators", "Senators", "Ottawa", "Senators", "OTT", none⟩

/-- A game of the Senators at the Sabres. -/
def gameAt (start : Instant) : EspnEvent := ⟨"401892644", start, sabres, senators, none, ["ESPN+"]⟩

def awayFirst : MatchQuery := ⟨"Senators", "Sabres", .At, none⟩

theorem matchEvent_optimal_two_games :
    (matchEvent asciiAlphabet awayFirst [gameAt 0, gameAt 1]).isSome = true ∧
      matchEvent asciiAlphabet awayFirst [gameAt 1, gameAt 0] =
        matchEvent asciiAlphabet awayFirst [gameAt 0, gameAt 1] :=
  ⟨(matchEvent_optimal asciiAlphabet awayFirst [gameAt 0, gameAt 1]).1.mpr
      ⟨gameAt 0, List.mem_cons_self, by decide +kernel⟩,
    (matchEvent_optimal asciiAlphabet awayFirst [gameAt 0, gameAt 1]).2.2
      [gameAt 1, gameAt 0] (List.Perm.swap _ _ _) (by decide)⟩

end IptvRelay.Sports
