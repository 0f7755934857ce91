import IptvRelay.Lib.Text
import Mathlib.Algebra.Order.Ring.Rat
import Mathlib.Data.List.MinMax
import Mathlib.Tactic

/-!
# The matcher of sports events

Model of `matcher.rs`: from two team strings to an event of the scoreboard. Scores are exact
rationals. Which characters are alphanumeric and their lower case are parameters.
-/

namespace IptvRelay.Sports

/-- An instant, in nanoseconds. -/
abbrev Instant := Int

/-- The Unicode tables that `normalize` uses. -/
structure Alphabet where
  isAlphanumeric : Char → Bool
  toLowercase : Char → List Char

structure EspnTeam where
  displayName : String
  shortDisplayName : String
  location : String
  name : String
  abbreviation : String
  logoUrl : Option String
  deriving DecidableEq, Repr

structure EspnEvent where
  id : String
  startUtc : Instant
  home : EspnTeam
  away : EspnTeam
  venue : Option String
  broadcasters : List String
  deriving DecidableEq, Repr

def conflictThreshold : Nat := 2 * 3600 * 1000000000

def minTeamScore : ℚ := 7 / 10

/-- `f32::EPSILON`. -/
def epsilon : ℚ := 1 / 2 ^ 23

/-- The word between the two team strings. -/
inductive Separator where
  | At
  | Vs
  deriving DecidableEq, Repr

structure MatchQuery where
  firstTeam : String
  secondTeam : String
  separator : Separator
  parsedStart : Option Instant
  deriving DecidableEq, Repr

structure MatchedTeam where
  name : String
  shortName : String
  abbreviation : String
  logoUrl : Option String
  deriving DecidableEq, Repr

def MatchedTeam.ofTeam (team : EspnTeam) : MatchedTeam :=
  ⟨team.displayName, team.shortDisplayName, team.abbreviation, team.logoUrl⟩

structure EventMatch where
  eventId : String
  startUtc : Instant
  home : MatchedTeam
  away : MatchedTeam
  venue : Option String
  broadcasters : List String
  confidence : ℚ
  timeConflict : Bool
  firstTeamIsHome : Bool
  deriving DecidableEq

section Model

variable (alphabet : Alphabet)

/-- Characters that a name loses: the two apostrophes and the dot. -/
def dropped : List Char := [Char.ofNat 0x27, Char.ofNat 0x2019, '.']

/-- The loop of `normalize`; `space` says that a space or nothing stands in front. -/
def normalizeFrom (space : Bool) : List Char → List Char
  | [] => []
  | ch :: rest =>
    if ch = '&' then
      (if space then [] else [' ']) ++ ['a', 'n', 'd', ' '] ++ normalizeFrom true rest
    else if alphabet.isAlphanumeric ch then
      alphabet.toLowercase ch ++ normalizeFrom false rest
    else if ch ∉ dropped ∧ space = false then ' ' :: normalizeFrom true rest
    else normalizeFrom space rest

def normalize (text : String) : List Char := Text.trim (normalizeFrom alphabet true text.toList)

/-- `str::split(' ')`. -/
def splitSpaces (text : List Char) : List (List Char) := text.splitOn ' '

def containsWords (haystack needle : List Char) : Bool :=
  needle ≠ [] ∧ [' '] ++ needle ++ [' '] <:+: [' '] ++ haystack ++ [' ']

/-- How well `text` names `team`; 0 for no match. -/
def scoreTeam (text : String) (team : EspnTeam) : ℚ :=
  let q := normalize alphabet text
  let display := normalize alphabet team.displayName
  let short := normalize alphabet team.shortDisplayName
  let name := normalize alphabet team.name
  let location := normalize alphabet team.location
  let abbr := normalize alphabet team.abbreviation
  if q = [] then 0
  else if q = display then 1
  else if q = short ∨ q = name ∨ (q = abbr ∧ abbr ≠ []) then 95 / 100
  else if q = location then 85 / 100
  else
    -- The query has extra words.
    [(display, (8 / 10 : ℚ)), (short, 75 / 100), (name, 75 / 100)].foldl (fun best candidate =>
      if 1 ≤ (splitSpaces candidate.1).length ∧ containsWords q candidate.1 then
        max best candidate.2
      else best) 0

/-- The confidence and whether the first team of the query is the home team. -/
def scoreEvent (query : MatchQuery) (event : EspnEvent) : Option (ℚ × Bool) :=
  let firstHome := scoreTeam alphabet query.firstTeam event.home
  let secondAway := scoreTeam alphabet query.secondTeam event.away
  let firstAway := scoreTeam alphabet query.firstTeam event.away
  let secondHome := scoreTeam alphabet query.secondTeam event.home
  let straight := (min firstAway secondHome, false)
  let swapped := (min firstHome secondAway, true)
  let chosen :=
    if query.separator = .At ∧ straight.1 ≥ swapped.1 then straight
    else if query.separator = .At then swapped
    else if straight.1 ≥ swapped.1 then straight
    else swapped
  if chosen.1 < minTeamScore then none
  -- A swapped `at` match is real but less sure.
  else if query.separator = .At ∧ chosen.2 then some (chosen.1 * (9 / 10), chosen.2)
  else some (chosen.1, chosen.2)

/-- How far an event is from the parsed start; 0 without one. -/
def distance (query : MatchQuery) (event : EspnEvent) : Nat :=
  query.parsedStart.elim 0 fun parsed => (parsed - event.startUtc).natAbs

def timeConflict (query : MatchQuery) (event : EspnEvent) : Bool :=
  query.parsedStart.any fun parsed => conflictThreshold < (parsed - event.startUtc).natAbs

/-- The match that an event with this score would be. -/
def candidate (query : MatchQuery) (event : EspnEvent) (scored : ℚ × Bool) : EventMatch where
  eventId := event.id
  startUtc := event.startUtc
  home := .ofTeam event.home
  away := .ofTeam event.away
  venue := event.venue
  broadcasters := event.broadcasters
  confidence := scored.1
  timeConflict := timeConflict query event
  firstTeamIsHome := scored.2

def better (query : MatchQuery) (candidate : EventMatch × Nat) (cur : EventMatch × Nat) : Bool :=
  if max (candidate.1.confidence - cur.1.confidence) (cur.1.confidence - candidate.1.confidence) >
      epsilon then
    cur.1.confidence < candidate.1.confidence
  else if query.parsedStart.isSome ∧ candidate.2 ≠ cur.2 then candidate.2 < cur.2
  else candidate.1.startUtc < cur.1.startUtc

/-- One turn of the loop over the events. -/
def consider (query : MatchQuery) (best : Option (EventMatch × Nat)) (event : EspnEvent) :
    Option (EventMatch × Nat) :=
  match scoreEvent alphabet query event with
  | none => best
  | some scored =>
    let entry := (candidate query event scored, distance query event)
    if best.all (better query entry) then some entry else best

def matchEvent (query : MatchQuery) (events : List EspnEvent) : Option EventMatch :=
  (events.foldl (consider alphabet query) none).map Prod.fst

end Model

end IptvRelay.Sports
