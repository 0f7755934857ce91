import IptvRelay.Sports.BestMatch

/-!
# The confidence of a match

The threshold is applied to the score, the reduction for a wrong order comes behind it. The lowest
level that reaches the threshold falls under it then.
-/

namespace IptvRelay.Sports

section

variable (alphabet : Alphabet) (query : MatchQuery)

/-- An `at` in the wrong order, and one of the teams is named by a part of the text only. -/
def Weak (event : EspnEvent) : Prop :=
  query.separator = .At ∧ straightScore alphabet query event < swappedScore alphabet query event ∧
    swappedScore alphabet query event = 3 / 4

theorem levels_reduced : ∀ score ∈ teamLevels, minTeamScore ≤ score →
    (score * (9 / 10) < minTeamScore ↔ score = 3 / 4) := by
  decide +kernel

theorem levels_le_one : ∀ level ∈ confidenceLevels, level ≤ 1 := by
  decide +kernel

theorem confidence_lt_iff {event : EspnEvent}
    (hscore : minTeamScore ≤ eventScore alphabet query event) :
    confidence alphabet query event < minTeamScore ↔ Weak alphabet query event := by
  rw [confidence, Weak]
  split_ifs with hswap
  · rw [eventScore, max_eq_right hswap.2.le] at hscore
    rw [levels_reduced _ (swappedScore_mem alphabet query event) hscore]
    exact ⟨fun h => ⟨hswap.1, hswap.2, h⟩, fun h => h.2.2⟩
  · exact iff_of_false (not_lt_of_ge hscore) fun h => hswap ⟨h.1, h.2.1⟩

/-- A reported confidence is in its range exactly if nothing is found or some event that reaches
the threshold is not weak. -/
theorem confidence_in_range_iff (events : List EspnEvent) :
    (∀ found, matchEvent alphabet query events = some found →
      minTeamScore ≤ found.confidence ∧ found.confidence ≤ 1) ↔
    (∀ event ∈ events, eventScore alphabet query event < minTeamScore) ∨
      ∃ event ∈ events, minTeamScore ≤ eventScore alphabet query event ∧
        ¬ Weak alphabet query event := by
  constructor
  · intro hrange
    by_cases hsome : (matchEvent alphabet query events).isSome = true
    · obtain ⟨found, hfound⟩ := Option.isSome_iff_exists.mp hsome
      obtain ⟨event, hevent, hscore, rfl, -⟩ := matchEvent_spec alphabet query events hfound
      refine .inr ⟨event, hevent, hscore, fun hweak => ?_⟩
      have hlow := (confidence_lt_iff alphabet query hscore).mpr hweak
      exact absurd hlow (not_lt_of_ge (hrange _ hfound).1)
    · refine .inl fun event hevent => lt_of_not_ge fun hscore => hsome ?_
      exact (matchEvent_isSome alphabet query events).mpr ⟨event, hevent, hscore⟩
  · intro hclear found hfound
    obtain ⟨event, hevent, hscore, rfl, hbest⟩ := matchEvent_spec alphabet query events hfound
    refine ⟨?_, levels_le_one _ (confidence_mem alphabet query event hscore)⟩
    rcases hclear with hnone | ⟨other, hother, hreaches, hstrong⟩
    · exact absurd (hnone event hevent) (not_lt_of_ge hscore)
    · have hhigh : minTeamScore ≤ confidence alphabet query other :=
        le_of_not_gt fun h => hstrong ((confidence_lt_iff alphabet query hreaches).mp h)
      rcases hbest other hother hreaches with hless | ⟨hsame, -⟩
      · exact hhigh.trans hless.le
      · exact hhigh.trans hsame.le

end

/-- The home team comes first and with one word more. -/
def wrongOrder : MatchQuery := ⟨"Sabres HD", "Senators", .At, none⟩

theorem confidence_below_range :
    (matchEvent asciiAlphabet wrongOrder [gameAt 0]).any
      (fun found => found.confidence = 27 / 40) = true ∧
    ¬ ∀ (alphabet : Alphabet) (query : MatchQuery) (events : List EspnEvent) (found : EventMatch),
      matchEvent alphabet query events = some found →
        minTeamScore ≤ found.confidence ∧ found.confidence ≤ 1 := by
  have hlow : (matchEvent asciiAlphabet wrongOrder [gameAt 0]).any
      (fun found => found.confidence = 27 / 40) = true := by
    decide +kernel
  refine ⟨hlow, fun h => ?_⟩
  obtain ⟨found, hfound, hvalue⟩ := (Option.any_eq_true _ _).mp hlow
  have hrange := (h _ _ _ found hfound).1
  rw [of_decide_eq_true hvalue] at hrange
  exact absurd hrange (by decide +kernel)

end IptvRelay.Sports
