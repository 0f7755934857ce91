import IptvRelay.Lib.Checked
import IptvRelay.Lib.Sorting
import IptvRelay.Lib.Text
import Mathlib.Data.List.Dedup
import Mathlib.Data.Prod.Lex
import Mathlib.Data.String.Basic
import Mathlib.Algebra.Order.Field.Rat

/-!
# EPG reconciliation

Model of `domain/src/reconcile.rs`: one station against the candidates of an EPG source.
The tiers are tried in turn and the first that finds anything decides. Confidences are
rational numbers. Which characters are alphanumeric and how a confidence is printed are
parameters.
-/

namespace IptvRelay.Guide.EpgReconcile

structure StationEvidence where
  id : String
  name : String
  tvgId : Option String := none
  callsign : Option String := none
  group : Option String := none
  country : Option String := none
  deriving DecidableEq, Repr

inductive MappingMethod where
  | manual
  | previous
  | tvgId
  | callsign
  | alias
  | exactName
  | fuzzy
  deriving DecidableEq, Repr

structure MappingCandidate where
  epgId : String
  method : MappingMethod
  confidence : ℚ
  evidence : List String
  deriving DecidableEq, Repr

inductive MappingDecision where
  | applied (candidate : MappingCandidate)
  | review (candidates : List MappingCandidate) (reason : String)
  | unresolved (reason : String)
  deriving DecidableEq, Repr

structure MappingContext where
  manual : String → Option String := fun _ => none
  previous : String → Option String := fun _ => none
  aliases : String → Option String := fun _ => none
  fuzzyThreshold : ℚ := 82 / 100

/-- What the code takes from the Unicode tables and from the formatting of numbers. -/
structure Locale where
  isAlphanumeric : Char → Bool
  formatConfidence : ℚ → String

/-! ## Texts -/

/-- `value.map(str::trim).filter(|value| !value.is_empty())`. -/
def nonblank (value : Option String) : Option (List Char) :=
  (value.map fun text => Text.trim text.toList).filter (· ≠ [])

def eqIgnoreAsciiCase (a b : List Char) : Bool := Text.asciiLowercase a = Text.asciiLowercase b

def words (locale : Locale) (value : String) : List (List Char) :=
  Text.splitWhitespace (value.toList.map fun c => if locale.isAlphanumeric c then c.toLower else ' ')

def normalize (locale : Locale) (value : String) : String :=
  String.ofList (List.intercalate [' '] (words locale value))

def optionScopeMatches (locale : Locale) (left right : Option String) : Bool :=
  match nonblank left, nonblank right with
  | some left, some right =>
    normalize locale (String.ofList left) = normalize locale (String.ofList right)
  | _, _ => true

def sameScope (locale : Locale) (left right : StationEvidence) : Bool :=
  optionScopeMatches locale left.group right.group &&
    optionScopeMatches locale left.country right.country

/-- The set of words of `normalize(value)`. -/
def tokens (locale : Locale) (value : String) : List (List Char) :=
  (Text.splitWhitespace (normalize locale value).toList).dedup

def tokenSimilarity (locale : Locale) (left right : String) : ℚ :=
  let left := tokens locale left
  let right := tokens locale right
  if left = [] ∨ right = [] then 0
  else 2 * ((left.filter fun token => token ∈ right).length : ℚ) / (left.length + right.length : ℕ)

/-! ## Tiers -/

def applied (epgId : String) (method : MappingMethod) (confidence : ℚ) (evidence : String) :
    MappingDecision :=
  .applied { epgId, method, confidence, evidence := [evidence] }

/-- A configured id is used while the source still has it. -/
def configuredTier (candidates : List StationEvidence) (configured : Option String)
    (method : MappingMethod) (confidence : ℚ) (evidence : String) : Option MappingDecision := do
  let epgId ← configured
  guard (candidates.any fun candidate => candidate.id = epgId)
  return applied epgId method confidence evidence

def uniqueOrReview (candidates : List StationEvidence) (method : MappingMethod) (confidence : ℚ)
    (evidence : String) : Option MappingDecision :=
  match candidates with
  | [] => none
  | [candidate] => some (applied candidate.id method confidence evidence)
  | _ =>
    some (.review
      ((Sorting.sortBy StationEvidence.id candidates).map fun candidate =>
        { epgId := candidate.id, method, confidence, evidence := ["ambiguous exact " ++ evidence] })
      ("multiple EPG channels share the same " ++ evidence))

def matchesTvgId (station candidate : StationEvidence) : Bool :=
  (nonblank station.tvgId).any fun tvgId =>
    (nonblank candidate.tvgId).any (fun value => eqIgnoreAsciiCase value tvgId) ||
      eqIgnoreAsciiCase candidate.id.toList tvgId

def matchesCallsign (station candidate : StationEvidence) : Bool :=
  (nonblank station.callsign).any fun callsign =>
    (nonblank candidate.callsign).any fun value => eqIgnoreAsciiCase value callsign

def matchesName (locale : Locale) (station candidate : StationEvidence) : Bool :=
  normalize locale station.name ≠ "" ∧
    normalize locale candidate.name = normalize locale station.name

/-- The keys that the aliases are looked up by. -/
def aliasKeys (locale : Locale) (station : StationEvidence) : List String :=
  (station.callsign.toList ++ [station.name]).map (normalize locale)

def aliasTier (locale : Locale) (station : StationEvidence) (candidates : List StationEvidence)
    (context : MappingContext) : Option MappingDecision :=
  (aliasKeys locale station).findSome? fun key =>
    configuredTier candidates (context.aliases key) .alias (97 / 100) "configured alias"

def threshold (context : MappingContext) : ℚ :=
  if 0 < context.fuzzyThreshold then context.fuzzyThreshold else 82 / 100

def matchesFuzzy (locale : Locale) (station : StationEvidence) (context : MappingContext)
    (candidate : StationEvidence) : Bool :=
  sameScope locale station candidate &&
    decide (threshold context ≤ tokenSimilarity locale station.name candidate.name)

def fuzzyCandidate (locale : Locale) (station candidate : StationEvidence) : MappingCandidate :=
  let confidence := tokenSimilarity locale station.name candidate.name
  { epgId := candidate.id
    method := .fuzzy
    confidence
    evidence := ["scope-constrained token similarity " ++ locale.formatConfidence confidence] }

/-- Falling confidence, then the id. -/
def MappingCandidate.sortKey (candidate : MappingCandidate) : ℚᵒᵈ ×ₗ String :=
  toLex (OrderDual.toDual candidate.confidence, candidate.epgId)

def fuzzyTier (locale : Locale) (station : StationEvidence) (candidates : List StationEvidence)
    (context : MappingContext) : Option MappingDecision :=
  let fuzzy := Sorting.sortBy MappingCandidate.sortKey
    ((candidates.filter (matchesFuzzy locale station context)).map (fuzzyCandidate locale station))
  if fuzzy = [] then none
  else some (.review fuzzy "fuzzy evidence is never activated without review")

/-- The decision of each tier, in the order of the source. -/
def tiers (locale : Locale) (station : StationEvidence) (candidates : List StationEvidence)
    (context : MappingContext) : List (Option MappingDecision) :=
  [configuredTier candidates (context.manual station.id) .manual 1 "configured stable binding",
    configuredTier candidates (context.previous station.id) .previous 1 "configured stable binding",
    uniqueOrReview (candidates.filter (matchesTvgId station)) .tvgId (99 / 100) "tvg-id",
    uniqueOrReview (candidates.filter (matchesCallsign station)) .callsign (98 / 100) "callsign",
    aliasTier locale station candidates context,
    uniqueOrReview (candidates.filter (matchesName locale station)) .exactName (95 / 100) "name",
    fuzzyTier locale station candidates context]

def reconcileEpg (locale : Locale) (station : StationEvidence) (candidates : List StationEvidence)
    (context : MappingContext) : MappingDecision :=
  if candidates = [] then
    .unresolved "the EPG source returned no candidates; the current binding must be retained"
  else
    ((tiers locale station candidates context).findSome? id).getD
      (.unresolved "no sufficiently corroborated EPG candidate")

def applyNonDestructive (currentEpgId : Option String) : MappingDecision → Option String
  | .applied candidate => some candidate.epgId
  | .review .. | .unresolved _ => currentEpgId

/-! ## The order of the candidates -/

section Order

variable {candidates candidates' : List StationEvidence}

theorem configuredTier_perm (hperm : candidates.Perm candidates') (configured : Option String)
    (method : MappingMethod) (confidence : ℚ) (evidence : String) :
    configuredTier candidates configured method confidence evidence =
      configuredTier candidates' configured method confidence evidence := by
  unfold configuredTier
  simp only [hperm.any_eq]

theorem uniqueOrReview_perm (hperm : candidates.Perm candidates') (method : MappingMethod)
    (confidence : ℚ) (evidence : String) :
    uniqueOrReview candidates method confidence evidence =
      uniqueOrReview candidates' method confidence evidence := by
  match candidates, candidates' with
  | [], _ =>
    obtain rfl := hperm.symm.eq_nil
    rfl
  | [candidate], _ =>
    obtain rfl := List.perm_singleton.mp hperm.symm
    rfl
  | _ :: _ :: _, [] => exact absurd hperm.length_eq (by simp)
  | _ :: _ :: _, [_] => exact absurd hperm.length_eq (by simp)
  | _ :: _ :: _, _ :: _ :: _ =>
    -- An entry of the review is a function of the id.
    unfold uniqueOrReview
    rw [Sorting.map_sortBy_eq_of_perm (fun id => (⟨id, method, confidence,
      ["ambiguous exact " ++ evidence]⟩ : MappingCandidate)) hperm]

theorem aliasTier_perm (hperm : candidates.Perm candidates') (locale : Locale)
    (station : StationEvidence) (context : MappingContext) :
    aliasTier locale station candidates context = aliasTier locale station candidates' context := by
  unfold aliasTier
  simp only [configuredTier_perm hperm]

theorem fuzzyTier_perm (hperm : candidates.Perm candidates') (locale : Locale)
    (station : StationEvidence) (context : MappingContext) :
    fuzzyTier locale station candidates context = fuzzyTier locale station candidates' context := by
  unfold fuzzyTier
  rw [Sorting.sortBy_eq_of_perm ((hperm.filter _).map _)]
  intro a ha b hb hkey
  -- Confidence and id are the key, and the rest of an entry follows from them.
  obtain ⟨left, -, rfl⟩ := List.mem_map.mp ha
  obtain ⟨right, -, rfl⟩ := List.mem_map.mp hb
  obtain ⟨hconfidence, hid⟩ := Prod.mk.inj (toLex_inj.mp hkey)
  have hconfidence' := OrderDual.toDual_inj.mp hconfidence
  simp only [fuzzyCandidate] at hconfidence' hid ⊢
  rw [hconfidence', hid]

theorem tiers_perm (hperm : candidates.Perm candidates') (locale : Locale)
    (station : StationEvidence) (context : MappingContext) :
    tiers locale station candidates context = tiers locale station candidates' context := by
  unfold tiers
  rw [configuredTier_perm hperm, configuredTier_perm hperm,
    uniqueOrReview_perm (hperm.filter (matchesTvgId station)),
    uniqueOrReview_perm (hperm.filter (matchesCallsign station)), aliasTier_perm hperm,
    uniqueOrReview_perm (hperm.filter (matchesName locale station)), fuzzyTier_perm hperm]

theorem reconcileEpg_perm (hperm : candidates.Perm candidates') (locale : Locale)
    (station : StationEvidence) (context : MappingContext) :
    reconcileEpg locale station candidates context =
      reconcileEpg locale station candidates' context := by
  have hnil : candidates = [] ↔ candidates' = [] :=
    ⟨fun h => (h ▸ hperm).symm.eq_nil, fun h => (h ▸ hperm).eq_nil⟩
  unfold reconcileEpg
  simp only [tiers_perm hperm, hnil]

end Order

/-! ## What an applied decision rests on -/

/-- The candidate matches the station at a tier. -/
def isEvidence (locale : Locale) (station : StationEvidence) (context : MappingContext) :
    MappingMethod → StationEvidence → Bool
  | .manual, candidate => context.manual station.id = some candidate.id
  | .previous, candidate => context.previous station.id = some candidate.id
  | .tvgId, candidate => matchesTvgId station candidate
  | .callsign, candidate => matchesCallsign station candidate
  | .alias, candidate =>
    (aliasKeys locale station).any fun key => context.aliases key = some candidate.id
  | .exactName, candidate => matchesName locale station candidate
  | .fuzzy, candidate => matchesFuzzy locale station context candidate

/-- The tiers, highest first. -/
def methods : List MappingMethod :=
  [.manual, .previous, .tvgId, .callsign, .alias, .exactName, .fuzzy]

def higherTiers (method : MappingMethod) : List MappingMethod :=
  methods.takeWhile fun other => other ≠ method

/-- Tiers that are decided by evidence of the source alone. -/
def MappingMethod.isExact : MappingMethod → Bool
  | .tvgId | .callsign | .exactName => true
  | .manual | .previous | .alias | .fuzzy => false

/-- A tier passes when it finds nothing, and applies an id that the source has. -/
structure TierOk (candidates : List StationEvidence) (evidence : StationEvidence → Bool)
    (method : MappingMethod) (tier : Option MappingDecision) : Prop where
  passes : tier = none → ∀ candidate ∈ candidates, evidence candidate = false
  applies : ∀ choice, tier = some (.applied choice) → choice.method = method ∧
    method ≠ .fuzzy ∧ (∃ candidate ∈ candidates, candidate.id = choice.epgId) ∧
    (method.isExact = true →
      ∃ candidate, candidates.filter evidence = [candidate] ∧ candidate.id = choice.epgId)

section Tiers

variable {candidates : List StationEvidence} {method : MappingMethod}

theorem configuredTier_some {configured : Option String} {confidence : ℚ} {text : String}
    {decision : MappingDecision}
    (h : configuredTier candidates configured method confidence text = some decision) :
    ∃ epgId, configured = some epgId ∧ (∃ candidate ∈ candidates, candidate.id = epgId) ∧
      decision = applied epgId method confidence text := by
  obtain ⟨epgId, hconfigured, h⟩ := Option.bind_eq_some_iff.mp h
  obtain ⟨hany, h⟩ := Checked.of_guard h
  obtain ⟨candidate, hmem, hid⟩ := List.any_eq_true.mp hany
  exact ⟨epgId, hconfigured, ⟨candidate, hmem, of_decide_eq_true hid⟩, (Option.some.inj h).symm⟩

theorem configuredTier_of_mem {epgId : String} (confidence : ℚ) (text : String)
    (h : ∃ candidate ∈ candidates, candidate.id = epgId) :
    configuredTier candidates (some epgId) method confidence text =
      some (applied epgId method confidence text) := by
  obtain ⟨candidate, hmem, rfl⟩ := h
  have hany : (candidates.any fun other => decide (other.id = candidate.id)) = true :=
    List.any_eq_true.mpr ⟨candidate, hmem, decide_eq_true rfl⟩
  exact Checked.guard_bind hany _

theorem configuredTier_ok (configured : Option String) (confidence : ℚ) (text : String)
    (hexact : method.isExact = false) (hfuzzy : method ≠ .fuzzy) :
    TierOk candidates (fun candidate => configured = some candidate.id) method
      (configuredTier candidates configured method confidence text) := by
  refine ⟨fun hnone candidate hmem => ?_, fun choice hchoice => ?_⟩
  · refine decide_eq_false fun heq => ?_
    rw [heq, configuredTier_of_mem confidence text ⟨candidate, hmem, rfl⟩] at hnone
    cases hnone
  · obtain ⟨epgId, -, hpresent, hdecision⟩ := configuredTier_some hchoice
    obtain rfl := MappingDecision.applied.inj hdecision
    refine ⟨rfl, hfuzzy, hpresent, fun h => ?_⟩
    simp [hexact] at h

theorem uniqueOrReview_ok (evidence : StationEvidence → Bool) (confidence : ℚ) (text : String)
    (hfuzzy : method ≠ .fuzzy) :
    TierOk candidates evidence method
      (uniqueOrReview (candidates.filter evidence) method confidence text) := by
  generalize hfound : candidates.filter evidence = found
  match found with
  | [] =>
    refine ⟨fun _ candidate hmem => ?_, nofun⟩
    simpa using List.filter_eq_nil_iff.mp hfound candidate hmem
  | [candidate] =>
    refine ⟨nofun, fun choice h => ?_⟩
    obtain rfl := MappingDecision.applied.inj (Option.some.inj h)
    have hmem : candidate ∈ candidates.filter evidence := by simp [hfound]
    exact ⟨rfl, hfuzzy, ⟨candidate, (List.mem_filter.mp hmem).1, rfl⟩,
      fun _ => ⟨candidate, hfound, rfl⟩⟩
  | _ :: _ :: _ => exact ⟨nofun, nofun⟩

theorem aliasTier_ok (locale : Locale) (station : StationEvidence) (context : MappingContext) :
    TierOk candidates (isEvidence locale station context .alias) .alias
      (aliasTier locale station candidates context) := by
  refine ⟨fun hnone candidate hmem => ?_, fun choice hchoice => ?_⟩
  · refine List.any_eq_false.mpr fun key hkey heq => ?_
    have hnothing := List.findSome?_eq_none_iff.mp hnone key hkey
    rw [of_decide_eq_true heq, configuredTier_of_mem _ _ ⟨candidate, hmem, rfl⟩] at hnothing
    cases hnothing
  · obtain ⟨key, -, hkey⟩ := List.exists_of_findSome?_eq_some hchoice
    obtain ⟨epgId, -, hpresent, hdecision⟩ := configuredTier_some hkey
    obtain rfl := MappingDecision.applied.inj hdecision
    exact ⟨rfl, by decide, hpresent, nofun⟩

theorem fuzzyTier_ok (locale : Locale) (station : StationEvidence) (context : MappingContext) :
    TierOk candidates (isEvidence locale station context .fuzzy) .fuzzy
      (fuzzyTier locale station candidates context) := by
  unfold fuzzyTier
  dsimp only
  split
  · rename_i hempty
    refine ⟨fun _ candidate hmem => ?_, nofun⟩
    have hperm := Sorting.sortBy_perm MappingCandidate.sortKey
      ((candidates.filter (matchesFuzzy locale station context)).map
        (fuzzyCandidate locale station))
    rw [hempty] at hperm
    have hfiltered := List.map_eq_nil_iff.mp hperm.symm.eq_nil
    simpa [isEvidence] using List.filter_eq_nil_iff.mp hfiltered candidate hmem
  · exact ⟨nofun, nofun⟩

theorem tiers_ok (locale : Locale) (station : StationEvidence) (context : MappingContext) :
    List.Forall₂ (fun method tier =>
        TierOk candidates (isEvidence locale station context method) method tier)
      methods (tiers locale station candidates context) :=
  .cons (configuredTier_ok _ _ _ rfl (by decide)) <|
  .cons (configuredTier_ok _ _ _ rfl (by decide)) <|
  .cons (uniqueOrReview_ok _ _ _ (by decide)) <|
  .cons (uniqueOrReview_ok _ _ _ (by decide)) <|
  .cons (aliasTier_ok locale station context) <|
  .cons (uniqueOrReview_ok _ _ _ (by decide)) <|
  .cons (fuzzyTier_ok locale station context) .nil

/-- The tiers above the one that decides have found nothing. -/
theorem of_findSome?_tiers {evidence : MappingMethod → StationEvidence → Bool}
    {order : List MappingMethod} {decisions : List (Option MappingDecision)}
    (h : List.Forall₂ (fun method tier => TierOk candidates (evidence method) method tier)
      order decisions) {choice : MappingCandidate}
    (hfind : decisions.findSome? id = some (.applied choice)) :
    TierOk candidates (evidence choice.method) choice.method (some (.applied choice)) ∧
    ∀ higher ∈ order.takeWhile fun other => other ≠ choice.method,
      ∀ candidate ∈ candidates, evidence higher candidate = false := by
  induction h with
  | nil => cases hfind
  | cons hfirst hrest ih =>
    rename_i method tier order decisions
    cases tier with
    | none =>
      obtain ⟨hchosen, hhigher⟩ := ih hfind
      refine ⟨hchosen, fun higher hmem => ?_⟩
      rw [List.takeWhile_cons] at hmem
      split at hmem
      · rcases List.mem_cons.mp hmem with rfl | hmem
        · exact hfirst.passes rfl
        · exact hhigher higher hmem
      · cases hmem
    | some decision =>
      obtain rfl := Option.some.inj hfind
      obtain rfl := (hfirst.applies choice rfl).1
      refine ⟨hfirst, fun higher hmem => ?_⟩
      simp at hmem

theorem reconcileEpg_applied {locale : Locale} {station : StationEvidence}
    {context : MappingContext} {choice : MappingCandidate}
    (h : reconcileEpg locale station candidates context = .applied choice) :
    candidates ≠ [] ∧
      (tiers locale station candidates context).findSome? id = some (.applied choice) := by
  unfold reconcileEpg at h
  split at h
  · cases h
  · rename_i hsome
    refine ⟨hsome, ?_⟩
    cases hfind : (tiers locale station candidates context).findSome? id with
    | none =>
      rw [hfind] at h
      cases h
    | some decision =>
      rw [hfind] at h
      exact congrArg some h

/-- An id that was applied is applied again when it has become the previous binding. -/
theorem reconcileEpg_previous {locale : Locale} {station : StationEvidence}
    {context : MappingContext} {choice : MappingCandidate}
    (h : reconcileEpg locale station candidates context = .applied choice) :
    ∃ again, reconcileEpg locale station candidates { context with
        previous := Function.update context.previous station.id (some choice.epgId) } =
        .applied again ∧ again.epgId = choice.epgId := by
  obtain ⟨hsome, hfind⟩ := reconcileEpg_applied h
  obtain ⟨hchosen, -⟩ := of_findSome?_tiers (tiers_ok locale station context) hfind
  obtain ⟨-, -, hpresent, -⟩ := hchosen.applies choice rfl
  unfold reconcileEpg
  rw [if_neg hsome]
  cases hmanual : configuredTier candidates (context.manual station.id) .manual 1
      "configured stable binding" with
  | some decision =>
    simp only [tiers, hmanual, List.findSome?_cons, id] at hfind
    obtain rfl := Option.some.inj hfind
    exact ⟨choice, by simp [tiers, hmanual], rfl⟩
  | none =>
    refine ⟨⟨choice.epgId, .previous, 1, ["configured stable binding"]⟩, ?_, rfl⟩
    have hprevious : configuredTier candidates (some choice.epgId) .previous 1
        "configured stable binding" = _ := configuredTier_of_mem 1 _ hpresent
    simp [tiers, hmanual, hprevious, applied]

end Tiers

/-- The decision does not depend on the order of the candidates. An applied id is one of the source
and is never a guess; by exact evidence it is applied only when one candidate has that evidence and
none has better. It is applied again when it is the previous binding, and a binding is never
cleared. -/
theorem reconcile_epg_stable (locale : Locale) (station : StationEvidence)
    (candidates : List StationEvidence) (context : MappingContext) :
    (∀ candidates', candidates.Perm candidates' →
      reconcileEpg locale station candidates' context =
        reconcileEpg locale station candidates context) ∧
    (∀ choice, reconcileEpg locale station candidates context = .applied choice →
      (∃ candidate ∈ candidates, candidate.id = choice.epgId) ∧
      choice.method ≠ .fuzzy ∧
      (choice.method.isExact = true →
        (∃ candidate, candidate.id = choice.epgId ∧
          candidates.filter (isEvidence locale station context choice.method) = [candidate]) ∧
        ∀ higher ∈ higherTiers choice.method, ∀ candidate ∈ candidates,
          isEvidence locale station context higher candidate = false) ∧
      ∃ again, reconcileEpg locale station candidates { context with
          previous := Function.update context.previous station.id (some choice.epgId) } =
          .applied again ∧ again.epgId = choice.epgId) ∧
    (∀ current decision, current ≠ none → applyNonDestructive current decision ≠ none) := by
  refine ⟨fun candidates' hperm => (reconcileEpg_perm hperm ..).symm, fun choice h => ?_, ?_⟩
  · obtain ⟨-, hfind⟩ := reconcileEpg_applied h
    obtain ⟨hchosen, hhigher⟩ := of_findSome?_tiers (tiers_ok locale station context) hfind
    obtain ⟨-, hfuzzy, hpresent, hunique⟩ := hchosen.applies choice rfl
    refine ⟨hpresent, hfuzzy, fun hexact => ⟨?_, hhigher⟩, reconcileEpg_previous h⟩
    obtain ⟨candidate, honly, hid⟩ := hunique hexact
    exact ⟨candidate, hid, honly⟩
  · intro current decision hcurrent
    cases decision with
    | applied candidate => simp [applyNonDestructive]
    | review candidates reason => exact hcurrent
    | unresolved reason => exact hcurrent

section Example

/-- ASCII letters and digits; no confidence is printed below. -/
def asciiLocale : Locale where
  isAlphanumeric c := c.isAlphanum
  formatConfidence _ := ""

def newsStation : StationEvidence :=
  { id := "stream", name := "News", callsign := some "KNWS" }

def newsCandidates : List StationEvidence :=
  [{ id := "epg-a", name := "Other", callsign := some " knws " },
    { id := "epg-b", name := "News" }]

/-- The callsign decides before the name. -/
theorem reconcile_epg_stable_news :
    ∃ choice, reconcileEpg asciiLocale newsStation newsCandidates {} = .applied choice ∧
      choice.method = .callsign ∧
      (∀ higher ∈ higherTiers choice.method, ∀ candidate ∈ newsCandidates,
        isEvidence asciiLocale newsStation {} higher candidate = false) := by
  have hdecision : reconcileEpg asciiLocale newsStation newsCandidates {} =
      .applied ⟨"epg-a", .callsign, 98 / 100, ["callsign"]⟩ := by decide +kernel
  have hstable := (reconcile_epg_stable asciiLocale newsStation newsCandidates {}).2.1 _ hdecision
  exact ⟨_, hdecision, rfl, (hstable.2.2.1 rfl).2⟩

end Example

end IptvRelay.Guide.EpgReconcile
