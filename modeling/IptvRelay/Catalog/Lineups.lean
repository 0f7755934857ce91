import IptvRelay.Catalog.Channels
import IptvRelay.Lib.Sorting
import Mathlib.Algebra.GroupWithZero.Nat
import Mathlib.Data.Prod.Lex
import Mathlib.Data.String.Basic

/-!
# Lineup templates

Model of `apply_lineup` in `persistence/src/catalog.rs`. The collation of the database and
`normalize_channel_name` are parameters. A category groups its matches and disables the rest of
its group, so the categories of a template work on each channel in turn.
-/

namespace IptvRelay.Catalog

open Store (Uuid)

/-- `lineup_categories`. -/
structure LineupCategoryRow where
  id : Uuid
  templateId : Uuid
  name : String
  sortOrder : Int := 0
  deriving DecidableEq, Repr

/-- `lineup_channels`, the entries of a category. -/
structure LineupChannelRow where
  categoryId : Uuid
  name : String
  channelNumber : String
  aliases : List String := []
  enabled : Bool := true
  deriving DecidableEq, Repr

/-- Both tables; the names of a template's categories are unique. -/
structure Lineups where
  categories : List LineupCategoryRow
  entries : List LineupChannelRow
  ids : (categories.map LineupCategoryRow.id).Nodup
  names : (categories.map fun row => (row.templateId, row.name)).Nodup

structure LineupApplyStats where
  matched : Nat := 0
  unmatched : Nat := 0
  enabled : Nat := 0
  disabled : Nat := 0
  deriving DecidableEq, Repr

namespace Channels

/-- `UPDATE channels` of columns that no constraint is about. -/
def updateWhere (channels : Channels) (p : ChannelRow → Bool) (f : ChannelRow → ChannelRow)
    (hid : ∀ row, (f row).id = row.id)
    (hnumber : ∀ row, (f row).channelNumber = row.channelNumber)
    (hkey : ∀ row, (f row).ownedKey = row.ownedKey) : Channels where
  rows := Table.update p f channels.rows
  ids := Table.nodup_update (fun row _ => hid row) channels.ids
  numbers := Table.nodup_update (fun row _ => hnumber row) channels.numbers
  keys := by
    rw [filterMap_update hkey]
    exact channels.keys

theorem eq_of_rows {channels other : Channels} (h : channels.rows = other.rows) :
    channels = other := by
  cases channels
  cases other
  cases h
  rfl

/-- `SET enabled = true, group_name = $2 WHERE id = ANY($1)`. -/
def enableInGroup (channels : Channels) (ids : List Uuid) (group : String) : Channels :=
  channels.updateWhere (fun row => row.id ∈ ids)
    (fun row => { row with enabled := true, groupName := some group })
    (fun _ => rfl) (fun _ => rfl) (fun _ => rfl)

/-- `SET enabled = false WHERE group_name = $1 AND id <> ALL($2)`. -/
def disableInGroup (channels : Channels) (group : String) (ids : List Uuid) : Channels :=
  channels.updateWhere (fun row => row.groupName = some group ∧ row.id ∉ ids)
    (fun row => { row with enabled := false }) (fun _ => rfl) (fun _ => rfl) (fun _ => rfl)

end Channels

section Apply

variable (collation : LinearOrder String) (normalize : String → String)

def listLineupCategories (lineups : Lineups) (templateId : Uuid) : List LineupCategoryRow :=
  letI := collation
  Sorting.sortBy (fun row : LineupCategoryRow => toLex (row.sortOrder, row.name))
    (lineups.categories.filter fun row => row.templateId = templateId)

/-- The enabled entries of a category. -/
def categoryEntries (lineups : Lineups) (category : LineupCategoryRow) : List LineupChannelRow :=
  letI := collation
  Sorting.sortBy LineupChannelRow.channelNumber
    (lineups.entries.filter fun row => row.categoryId = category.id ∧ row.enabled)

/-- The names and aliases of entries. -/
def lineupTokens (entries : List LineupChannelRow) : List String :=
  entries.flatMap fun entry => entry.name :: entry.aliases

/-- `WHERE normalize_channel_name(name) IN (…)`. -/
def matchesTokens (tokens : List String) (name : String) : Bool :=
  normalize name ∈ tokens.map normalize

/-- One category of the loop. -/
def applyCategory (lineups : Lineups) (state : Channels × LineupApplyStats)
    (category : LineupCategoryRow) : Channels × LineupApplyStats :=
  let (channels, stats) := state
  let entries := categoryEntries collation lineups category
  let tokens := lineupTokens entries
  let matchedIds := if tokens = [] then [] else
    (channels.rows.filter fun row => matchesTokens normalize tokens row.name).map ChannelRow.id
  let stats := { stats with
    matched := stats.matched + matchedIds.length
    unmatched := stats.unmatched + (entries.length - matchedIds.length) }
  if matchedIds = [] then (channels, stats)
  else
    let enabledRows := Table.count (fun row => row.id ∈ matchedIds) channels.rows
    let channels := channels.enableInGroup matchedIds category.name
    let disabledRows := Table.count
      (fun row => row.groupName = some category.name ∧ row.id ∉ matchedIds) channels.rows
    (channels.disableInGroup category.name matchedIds,
      { stats with
        enabled := stats.enabled + enabledRows
        disabled := stats.disabled + disabledRows })

def applyLineup (lineups : Lineups) (channels : Channels) (templateId : Uuid) :
    Channels × LineupApplyStats :=
  (listLineupCategories collation lineups templateId).foldl
    (applyCategory collation normalize lineups) (channels, {})

/-! ## What a template is for -/

/-- An entry and a channel that mean each other. -/
def LineupChannelRow.Names (entry : LineupChannelRow) (name : String) : Prop :=
  ∃ token ∈ entry.name :: entry.aliases, normalize token = normalize name

/-- The enabled entries of a category, in the order of the table. -/
def Lineups.entriesOf (lineups : Lineups) (category : LineupCategoryRow) :
    List LineupChannelRow :=
  lineups.entries.filter fun row => row.categoryId = category.id ∧ row.enabled

/-- The category lists the channel. -/
def Lists (lineups : Lineups) (category : LineupCategoryRow) (name : String) : Prop :=
  ∃ entry ∈ lineups.entriesOf category, entry.Names normalize name

/-- The categories of a template, in the order of the table. -/
def Lineups.categoriesOf (lineups : Lineups) (templateId : Uuid) : List LineupCategoryRow :=
  lineups.categories.filter fun row => row.templateId = templateId

/-- Some entry of the template lists the channel. -/
def InTemplate (lineups : Lineups) (templateId : Uuid) (name : String) : Prop :=
  ∃ category ∈ lineups.categoriesOf templateId, Lists normalize lineups category name

instance (entry : LineupChannelRow) (name : String) : Decidable (entry.Names normalize name) :=
  inferInstanceAs (Decidable (∃ token ∈ entry.name :: entry.aliases, _))

instance (lineups : Lineups) (category : LineupCategoryRow) (name : String) :
    Decidable (Lists normalize lineups category name) :=
  inferInstanceAs (Decidable (∃ entry ∈ lineups.entriesOf category, _))

/-- The names that the table of channels has. -/
def Channels.names (channels : Channels) : List String := channels.rows.map ChannelRow.name

/-- The category lists a channel of the table. -/
def HasMatch (lineups : Lineups) (names : List String) (category : LineupCategoryRow) : Prop :=
  ∃ name ∈ names, Lists normalize lineups category name

instance (lineups : Lineups) (names : List String) (category : LineupCategoryRow) :
    Decidable (HasMatch normalize lineups names category) :=
  inferInstanceAs (Decidable (∃ name ∈ names, _))

/-- The entries of a category that match a channel. -/
def matchedEntries (lineups : Lineups) (names : List String) (category : LineupCategoryRow) : Nat :=
  ((lineups.entriesOf category).filter fun entry => ∃ name ∈ names, entry.Names normalize name).length

/-- The entries of a category that match no channel. -/
def unmatchedEntries (lineups : Lineups) (names : List String) (category : LineupCategoryRow) :
    Nat :=
  ((lineups.entriesOf category).filter fun entry =>
    ∀ name ∈ names, ¬entry.Names normalize name).length

/-- The channels that match an entry of a category. -/
def matchingChannels (lineups : Lineups) (names : List String) (category : LineupCategoryRow) :
    Nat := (names.filter fun name => Lists normalize lineups category name).length

end Apply

/-! ## A category changes each channel on its own -/

section Visit

variable {collation : LinearOrder String} {normalize : String → String}

theorem categoryEntries_perm (lineups : Lineups) (category : LineupCategoryRow) :
    (categoryEntries collation lineups category).Perm (lineups.entriesOf category) :=
  letI := collation
  Sorting.sortBy_perm _ _

theorem listLineupCategories_perm (lineups : Lineups) (templateId : Uuid) :
    (listLineupCategories collation lineups templateId).Perm (lineups.categoriesOf templateId) :=
  letI := collation
  Sorting.sortBy_perm _ _

theorem matchesTokens_iff {lineups : Lineups} {category : LineupCategoryRow} {name : String} :
    matchesTokens normalize (lineupTokens (categoryEntries collation lineups category)) name = true ↔
      Lists normalize lineups category name := by
  have hmem : ∀ entry, entry ∈ categoryEntries collation lineups category ↔
      entry ∈ lineups.entriesOf category := fun _ => (categoryEntries_perm lineups category).mem_iff
  unfold matchesTokens
  rw [decide_eq_true_iff]
  simp only [lineupTokens, List.mem_map, List.mem_flatMap, hmem, Lists, LineupChannelRow.Names]
  constructor
  · rintro ⟨token, ⟨entry, hentry, htoken⟩, heq⟩
    exact ⟨entry, hentry, token, htoken, heq⟩
  · rintro ⟨entry, hentry, token, htoken, heq⟩
    exact ⟨token, ⟨entry, hentry, htoken⟩, heq⟩

variable (normalize) in
/-- The ids that a category matches. -/
def matchedIds (lineups : Lineups) (channels : Channels) (category : LineupCategoryRow) :
    List Uuid :=
  (channels.rows.filter fun row => Lists normalize lineups category row.name).map ChannelRow.id

theorem matchedIds_eq (lineups : Lineups) (channels : Channels) (category : LineupCategoryRow) :
    (if lineupTokens (categoryEntries collation lineups category) = [] then [] else
      (channels.rows.filter fun row => matchesTokens normalize
        (lineupTokens (categoryEntries collation lineups category)) row.name).map ChannelRow.id) =
      matchedIds normalize lineups channels category := by
  have hfilter : (channels.rows.filter fun row => matchesTokens normalize
      (lineupTokens (categoryEntries collation lineups category)) row.name) =
        channels.rows.filter fun row => Lists normalize lineups category row.name := by
    refine List.filter_congr fun row _ => ?_
    rw [Bool.eq_iff_iff, matchesTokens_iff, decide_eq_true_iff]
  unfold matchedIds
  split
  · rename_i hnil
    rw [← hfilter, hnil]
    simp [matchesTokens]
  · rw [hfilter]

theorem mem_matchedIds {lineups : Lineups} {channels : Channels} {category : LineupCategoryRow}
    {row : ChannelRow} (hrow : row ∈ channels.rows) :
    row.id ∈ matchedIds normalize lineups channels category ↔
      Lists normalize lineups category row.name := by
  unfold matchedIds
  rw [List.mem_map]
  constructor
  · rintro ⟨other, hother, heq⟩
    obtain ⟨hmem, hlists⟩ := List.mem_filter.mp hother
    rw [← Table.eq_of_key channels.ids hmem hrow heq]
    exact of_decide_eq_true hlists
  · exact fun hlists => ⟨row, List.mem_filter.mpr ⟨hrow, decide_eq_true hlists⟩, rfl⟩

theorem matchedIds_eq_nil {lineups : Lineups} {channels : Channels} {category : LineupCategoryRow} :
    matchedIds normalize lineups channels category = [] ↔
      ¬HasMatch normalize lineups channels.names category := by
  simp [matchedIds, HasMatch, Channels.names, List.filter_eq_nil_iff]

theorem length_matchedIds (lineups : Lineups) (channels : Channels) (category : LineupCategoryRow) :
    (matchedIds normalize lineups channels category).length =
      matchingChannels normalize lineups channels.names category := by
  simp [matchedIds, matchingChannels, Channels.names, List.filter_map, Function.comp_def]

variable (normalize) in
/-- What a category does to one channel, given the names of all channels. -/
def visit (lineups : Lineups) (names : List String) (row : ChannelRow)
    (category : LineupCategoryRow) : ChannelRow :=
  if Lists normalize lineups category row.name then
    { row with enabled := true, groupName := some category.name }
  else if HasMatch normalize lineups names category ∧ row.groupName = some category.name then
    { row with enabled := false }
  else row

theorem name_visit (lineups : Lineups) (names : List String) (row : ChannelRow)
    (category : LineupCategoryRow) :
    (visit normalize lineups names row category).name = row.name := by
  unfold visit
  split_ifs <;> rfl

theorem visit_of_no_match {lineups : Lineups} {channels : Channels} {category : LineupCategoryRow}
    (h : ¬HasMatch normalize lineups channels.names category) {row : ChannelRow}
    (hrow : row ∈ channels.rows) : visit normalize lineups channels.names row category = row := by
  have hnot : ¬Lists normalize lineups category row.name := fun hlists =>
    h ⟨row.name, List.mem_map_of_mem hrow, hlists⟩
  unfold visit
  rw [if_neg hnot, if_neg fun hboth => h hboth.1]

theorem applyCategory_rows (lineups : Lineups) (state : Channels × LineupApplyStats)
    (category : LineupCategoryRow) :
    (applyCategory collation normalize lineups state category).1.rows =
      state.1.rows.map fun row => visit normalize lineups state.1.names row category := by
  obtain ⟨channels, stats⟩ := state
  simp only [applyCategory, matchedIds_eq]
  split
  · rename_i hnil
    have hsame : ∀ row ∈ channels.rows,
        visit normalize lineups channels.names row category = id row := fun row hrow =>
      visit_of_no_match (matchedIds_eq_nil.mp hnil) hrow
    rw [List.map_congr_left hsame, List.map_id]
  · rename_i hmatched
    have hlive := not_not.mp fun hnot => hmatched (matchedIds_eq_nil.mpr hnot)
    simp only [Channels.disableInGroup, Channels.enableInGroup, Channels.updateWhere, Table.update,
      List.map_map]
    refine List.map_congr_left fun row hrow => ?_
    unfold visit
    by_cases hlists : Lists normalize lineups category row.name
    · simp [mem_matchedIds hrow, hlists]
    · simp [mem_matchedIds hrow, hlists, hlive]

theorem applyCategory_unmatched (lineups : Lineups) (state : Channels × LineupApplyStats)
    (category : LineupCategoryRow) :
    (applyCategory collation normalize lineups state category).2.unmatched =
      state.2.unmatched + ((lineups.entriesOf category).length -
        matchingChannels normalize lineups state.1.names category) := by
  obtain ⟨channels, stats⟩ := state
  simp only [applyCategory, matchedIds_eq, length_matchedIds,
    (categoryEntries_perm lineups category).length_eq]
  split <;> rfl

theorem applyCategory_names (lineups : Lineups) (state : Channels × LineupApplyStats)
    (category : LineupCategoryRow) :
    (applyCategory collation normalize lineups state category).1.names = state.1.names := by
  unfold Channels.names
  rw [applyCategory_rows, List.map_map]
  exact List.map_congr_left fun row _ => name_visit _ _ _ _

/-- All categories in turn. -/
theorem foldl_applyCategory (lineups : Lineups) (categories : List LineupCategoryRow)
    (state : Channels × LineupApplyStats) :
    (categories.foldl (applyCategory collation normalize lineups) state).1.rows =
        state.1.rows.map (fun row => categories.foldl (visit normalize lineups state.1.names) row) ∧
      (categories.foldl (applyCategory collation normalize lineups) state).2.unmatched =
        state.2.unmatched + (categories.map fun category => (lineups.entriesOf category).length -
          matchingChannels normalize lineups state.1.names category).sum := by
  induction categories generalizing state with
  | nil => exact ⟨(List.map_id _).symm, rfl⟩
  | cons category categories ih =>
    obtain ⟨hrows, hunmatched⟩ := ih (applyCategory collation normalize lineups state category)
    rw [applyCategory_names] at hrows hunmatched
    constructor
    · rw [List.foldl_cons, hrows, applyCategory_rows, List.map_map]
      rfl
    · rw [List.foldl_cons, hunmatched, applyCategory_unmatched, List.map_cons, List.sum_cons]
      omega

end Visit

/-! ## The whole template -/

section Settle

variable {normalize : String → String} {lineups : Lineups}

variable (normalize lineups) in
/-- Where a channel ends up: in the last category that lists it, or disabled in its group. -/
def settle (names : List String) (categories : List LineupCategoryRow) (row : ChannelRow) :
    ChannelRow :=
  match (categories.filter fun category => Lists normalize lineups category row.name).getLast? with
  | some category => { row with enabled := true, groupName := some category.name }
  | none =>
    if ∃ category ∈ categories, HasMatch normalize lineups names category ∧
        row.groupName = some category.name then { row with enabled := false }
    else row

/-- A channel that the template does not list. -/
theorem settle_of_unlisted {names : List String} {categories : List LineupCategoryRow}
    {row : ChannelRow} (h : ∀ category ∈ categories, ¬Lists normalize lineups category row.name) :
    settle normalize lineups names categories row =
      if ∃ category ∈ categories, HasMatch normalize lineups names category ∧
        row.groupName = some category.name then { row with enabled := false } else row := by
  have hnil : (categories.filter fun category => Lists normalize lineups category row.name) = [] :=
    List.filter_eq_nil_iff.mpr fun category hmem => by simpa using h category hmem
  unfold settle
  rw [hnil, List.getLast?_nil]

/-- A channel that it lists. -/
theorem settle_of_listed (names : List String) {categories : List LineupCategoryRow}
    {row : ChannelRow} (h : ∃ category ∈ categories, Lists normalize lineups category row.name) :
    ∃ category ∈ categories, Lists normalize lineups category row.name ∧
      (categories.filter fun category => Lists normalize lineups category row.name).getLast? =
        some category ∧
      settle normalize lineups names categories row =
        { row with enabled := true, groupName := some category.name } := by
  obtain ⟨listed, hlisted, hlists⟩ := h
  have hne : (categories.filter fun category => Lists normalize lineups category row.name) ≠ [] :=
    List.ne_nil_of_mem (List.mem_filter.mpr ⟨hlisted, decide_eq_true hlists⟩)
  obtain ⟨last, hlast⟩ := Option.isSome_iff_exists.mp (List.getLast?_isSome.mpr hne)
  obtain ⟨hmem, hdecide⟩ := List.mem_filter.mp (List.mem_of_getLast? hlast)
  refine ⟨last, hmem, of_decide_eq_true hdecide, hlast, ?_⟩
  unfold settle
  rw [hlast]

/-- A later category leaves alone what it does not list and what is in another group. -/
theorem visit_of_other_group {names : List String} {row : ChannelRow}
    {category : LineupCategoryRow} (hlists : ¬Lists normalize lineups category row.name)
    (hgroup : row.groupName ≠ some category.name) :
    visit normalize lineups names row category = row := by
  unfold visit
  rw [if_neg hlists, if_neg fun hboth => hgroup hboth.2]

variable (normalize lineups) in
/-- Settling writes two columns. -/
theorem exists_settle (names : List String) (categories : List LineupCategoryRow)
    (row : ChannelRow) : ∃ enabled groupName,
      settle normalize lineups names categories row = { row with enabled, groupName } := by
  unfold settle
  split
  · exact ⟨true, _, rfl⟩
  · split_ifs
    · exact ⟨false, row.groupName, rfl⟩
    · exact ⟨row.enabled, row.groupName, rfl⟩

@[simp] theorem name_settle (names : List String) (categories : List LineupCategoryRow)
    (row : ChannelRow) : (settle normalize lineups names categories row).name = row.name := by
  obtain ⟨enabled, groupName, heq⟩ := exists_settle normalize lineups names categories row
  rw [heq]

theorem settle_append_listed {names : List String} {categories : List LineupCategoryRow}
    {category : LineupCategoryRow} {row : ChannelRow}
    (h : Lists normalize lineups category row.name) :
    settle normalize lineups names (categories ++ [category]) row =
      { row with enabled := true, groupName := some category.name } := by
  have hlast : ((categories ++ [category]).filter fun category =>
      Lists normalize lineups category row.name).getLast? = some category := by
    simp [List.filter_append, h]
  unfold settle
  rw [hlast]

/-- The categories in turn settle the channel. -/
theorem foldl_visit (names : List String) {categories : List LineupCategoryRow}
    (hnodup : (categories.map LineupCategoryRow.name).Nodup) (row : ChannelRow) :
    categories.foldl (visit normalize lineups names) row =
      settle normalize lineups names categories row := by
  induction categories using List.reverseRecOn with
  | nil =>
    rw [settle_of_unlisted (fun _ hmem => absurd hmem List.not_mem_nil)]
    exact (if_neg fun ⟨_, hmem, _⟩ => absurd hmem List.not_mem_nil).symm
  | append_singleton categories category ih =>
    rw [List.map_append, List.nodup_append] at hnodup
    obtain ⟨hnodup, -, hdistinct⟩ := hnodup
    have hother : ∀ earlier ∈ categories, earlier.name ≠ category.name := fun earlier hmem =>
      hdistinct earlier.name (List.mem_map_of_mem hmem) category.name (by simp)
    rw [List.foldl_append, List.foldl_cons, List.foldl_nil, ih hnodup]
    by_cases hlists : Lists normalize lineups category row.name
    · -- The last category lists the channel, whatever happened to it before.
      obtain ⟨enabled, groupName, heq⟩ := exists_settle normalize lineups names categories row
      rw [settle_append_listed hlists, heq]
      exact if_pos hlists
    by_cases hbefore : ∃ earlier ∈ categories, Lists normalize lineups earlier row.name
    · obtain ⟨last, hmem, hlast, hfilter, heq⟩ := settle_of_listed names hbefore
      have hgroup : (some last.name : Option String) ≠ some category.name := fun hsame =>
        hother last hmem (Option.some.inj hsame)
      rw [heq, @visit_of_other_group _ _ _ { row with enabled := true, groupName := some last.name } _
        hlists hgroup]
      unfold settle
      rw [List.filter_append, List.filter_cons_of_neg (by simpa using hlists), List.filter_nil,
        List.append_nil, hfilter]
    · have hunlisted : ∀ earlier ∈ categories, ¬Lists normalize lineups earlier row.name :=
        fun earlier hmem hlisted => hbefore ⟨earlier, hmem, hlisted⟩
      rw [settle_of_unlisted hunlisted, @settle_of_unlisted _ _ _ (categories ++ [category])]
      · by_cases hgroup : HasMatch normalize lineups names category ∧
            row.groupName = some category.name
        · rw [if_pos (show ∃ earlier ∈ categories ++ [category],
            HasMatch normalize lineups names earlier ∧ row.groupName = some earlier.name from
              ⟨category, by simp, hgroup⟩)]
          split <;> exact (if_neg hlists).trans (if_pos hgroup)
        · have hsame : (∃ earlier ∈ categories ++ [category],
              HasMatch normalize lineups names earlier ∧ row.groupName = some earlier.name) ↔
                ∃ earlier ∈ categories, HasMatch normalize lineups names earlier ∧
                  row.groupName = some earlier.name := by
            constructor
            · rintro ⟨earlier, hmem, hboth⟩
              rcases List.mem_append.mp hmem with hmem | hmem
              · exact ⟨earlier, hmem, hboth⟩
              · exact absurd (List.mem_singleton.mp hmem ▸ hboth) hgroup
            · rintro ⟨earlier, hmem, hboth⟩
              exact ⟨earlier, List.mem_append.mpr (.inl hmem), hboth⟩
          simp only [hsame]
          split <;> exact (if_neg hlists).trans (if_neg hgroup)
      · intro earlier hmem
        rcases List.mem_append.mp hmem with hmem | hmem
        · exact hunlisted earlier hmem
        · exact List.mem_singleton.mp hmem ▸ hlists

/-- A second pass finds every channel where the first one left it. -/
theorem settle_settle (names : List String) (categories : List LineupCategoryRow)
    (row : ChannelRow) :
    settle normalize lineups names categories (settle normalize lineups names categories row) =
      settle normalize lineups names categories row := by
  by_cases hlisted : ∃ category ∈ categories, Lists normalize lineups category row.name
  · obtain ⟨last, -, -, hlast, heq⟩ := settle_of_listed names hlisted
    rw [heq]
    unfold settle
    rw [hlast]
  · have hunlisted : ∀ category ∈ categories, ¬Lists normalize lineups category row.name :=
      fun category hmem hlists => hlisted ⟨category, hmem, hlists⟩
    rw [settle_of_unlisted hunlisted]
    split
    · rename_i hgroup
      rw [@settle_of_unlisted _ _ _ _ { row with enabled := false } hunlisted]
      exact if_pos hgroup
    · rename_i hgroup
      rw [settle_of_unlisted hunlisted, if_neg hgroup]

end Settle

/-! ## What applying a template does -/

section Result

variable {collation : LinearOrder String} {normalize : String → String} {lineups : Lineups}
variable {channels : Channels} {templateId : Uuid}

theorem mem_categoriesOf {category : LineupCategoryRow} :
    category ∈ lineups.categoriesOf templateId ↔
      category ∈ lineups.categories ∧ category.templateId = templateId := by
  simp [Lineups.categoriesOf]

/-- The names of a template's categories are different. -/
theorem nodup_categoriesOf (lineups : Lineups) (templateId : Uuid) :
    ((lineups.categoriesOf templateId).map LineupCategoryRow.name).Nodup := by
  have hrows : (lineups.categoriesOf templateId).Nodup :=
    (List.Nodup.of_map _ lineups.ids).sublist List.filter_sublist
  refine hrows.map_on fun category hmem other hother hname => ?_
  obtain ⟨hmem, htemplate⟩ := mem_categoriesOf.mp hmem
  obtain ⟨hother, hother'⟩ := mem_categoriesOf.mp hother
  exact Table.eq_of_key lineups.names hmem hother (by rw [htemplate, hother', hname])

theorem mem_listLineupCategories {category : LineupCategoryRow} :
    category ∈ listLineupCategories collation lineups templateId ↔
      category ∈ lineups.categoriesOf templateId :=
  (listLineupCategories_perm lineups templateId).mem_iff

/-- Every channel is settled, and the unmatched entries are counted by category. -/
theorem applyLineup_eq (collation : LinearOrder String) (normalize : String → String)
    (lineups : Lineups) (channels : Channels) (templateId : Uuid) :
    (applyLineup collation normalize lineups channels templateId).1.rows =
        channels.rows.map (settle normalize lineups channels.names
          (listLineupCategories collation lineups templateId)) ∧
      (applyLineup collation normalize lineups channels templateId).2.unmatched =
        ((lineups.categoriesOf templateId).map fun category =>
          (lineups.entriesOf category).length -
            matchingChannels normalize lineups channels.names category).sum := by
  have hperm := @listLineupCategories_perm collation lineups templateId
  have hnodup : ((listLineupCategories collation lineups templateId).map
      LineupCategoryRow.name).Nodup :=
    (hperm.map _).nodup_iff.mpr (nodup_categoriesOf lineups templateId)
  obtain ⟨hrows, hunmatched⟩ := @foldl_applyCategory collation normalize lineups
    (listLineupCategories collation lineups templateId) (channels, {})
  constructor
  · rw [applyLineup, hrows]
    exact List.map_congr_left fun row _ => foldl_visit _ hnodup row
  · rw [applyLineup, hunmatched, (hperm.map _).sum_nat]
    exact Nat.zero_add _

theorem applyLineup_names (collation : LinearOrder String) (normalize : String → String)
    (lineups : Lineups) (channels : Channels) (templateId : Uuid) :
    (applyLineup collation normalize lineups channels templateId).1.names = channels.names := by
  unfold Channels.names
  rw [(applyLineup_eq collation normalize lineups channels templateId).1, List.map_map]
  exact List.map_congr_left fun row _ => name_settle _ _ row

variable (collation normalize lineups channels templateId) in
/-- What an operator expects of the applied template. -/
structure LineupApplied : Prop where
  grouped : ∀ row ∈ (applyLineup collation normalize lineups channels templateId).1.rows,
    InTemplate normalize lineups templateId row.name → row.enabled = true ∧
      ∃ category ∈ lineups.categoriesOf templateId,
        Lists normalize lineups category row.name ∧ row.groupName = some category.name
  cleared : ∀ row ∈ (applyLineup collation normalize lineups channels templateId).1.rows,
    ¬InTemplate normalize lineups templateId row.name →
    ∀ category ∈ lineups.categoriesOf templateId, row.groupName = some category.name →
      row.enabled = false
  again : (applyLineup collation normalize lineups
    (applyLineup collation normalize lineups channels templateId).1 templateId).1 =
      (applyLineup collation normalize lineups channels templateId).1
  counted : (applyLineup collation normalize lineups channels templateId).2.unmatched =
    ((lineups.categoriesOf templateId).map
      (unmatchedEntries normalize lineups channels.names)).sum

variable (normalize lineups channels templateId) in
/-- The group of a category without a match is already disabled, up to what the template lists;
and the matching channels, up to the number of entries, are as many as the matched entries, over all
categories together. Both read the names that the channels have before the call. -/
structure LineupFits : Prop where
  idle : ∀ category ∈ lineups.categoriesOf templateId,
    ¬HasMatch normalize lineups channels.names category → ∀ row ∈ channels.rows,
      row.groupName = some category.name → ¬InTemplate normalize lineups templateId row.name →
      row.enabled = false
  counts : ((lineups.categoriesOf templateId).map fun category =>
      min (matchingChannels normalize lineups channels.names category)
        (lineups.entriesOf category).length).sum =
    ((lineups.categoriesOf templateId).map
      (matchedEntries normalize lineups channels.names)).sum

theorem grouped_of_applied (row : ChannelRow)
    (hrow : row ∈ (applyLineup collation normalize lineups channels templateId).1.rows)
    (hlisted : InTemplate normalize lineups templateId row.name) :
    row.enabled = true ∧ ∃ category ∈ lineups.categoriesOf templateId,
      Lists normalize lineups category row.name ∧ row.groupName = some category.name := by
  rw [(applyLineup_eq collation normalize lineups channels templateId).1] at hrow
  obtain ⟨old, -, rfl⟩ := List.mem_map.mp hrow
  obtain ⟨category, hcategory, hlists⟩ := hlisted
  rw [name_settle] at hlists
  obtain ⟨last, hmem, hlast, -, heq⟩ := settle_of_listed channels.names
    ⟨category, mem_listLineupCategories.mpr hcategory, hlists⟩
  rw [heq]
  exact ⟨rfl, last, mem_listLineupCategories.mp hmem, hlast, rfl⟩

theorem again_of_applied :
    (applyLineup collation normalize lineups
      (applyLineup collation normalize lineups channels templateId).1 templateId).1 =
        (applyLineup collation normalize lineups channels templateId).1 := by
  have hrows : (applyLineup collation normalize lineups
      (applyLineup collation normalize lineups channels templateId).1 templateId).1.rows =
        (applyLineup collation normalize lineups channels templateId).1.rows := by
    rw [(applyLineup_eq collation normalize lineups _ templateId).1, applyLineup_names,
      (applyLineup_eq collation normalize lineups channels templateId).1, List.map_map]
    exact List.map_congr_left fun row _ => settle_settle _ _ row
  exact Channels.eq_of_rows hrows

/-- Clearing works exactly where a category has a match or nothing is left to clear. -/
theorem cleared_iff :
    (∀ row ∈ (applyLineup collation normalize lineups channels templateId).1.rows,
      ¬InTemplate normalize lineups templateId row.name →
      ∀ category ∈ lineups.categoriesOf templateId, row.groupName = some category.name →
        row.enabled = false) ↔
      ∀ category ∈ lineups.categoriesOf templateId,
        ¬HasMatch normalize lineups channels.names category → ∀ row ∈ channels.rows,
          row.groupName = some category.name →
          ¬InTemplate normalize lineups templateId row.name → row.enabled = false := by
  have hunlisted : ∀ {row : ChannelRow}, ¬InTemplate normalize lineups templateId row.name →
      ∀ category ∈ listLineupCategories collation lineups templateId,
        ¬Lists normalize lineups category row.name := fun hnot category hmem hlists =>
    hnot ⟨category, mem_listLineupCategories.mp hmem, hlists⟩
  rw [(applyLineup_eq collation normalize lineups channels templateId).1]
  constructor
  · intro hcleared category hcategory hidle row hrow hgroup hnot
    have hsettled : settle normalize lineups channels.names
        (listLineupCategories collation lineups templateId) row = row := by
      rw [settle_of_unlisted (hunlisted hnot)]
      refine if_neg ?_
      rintro ⟨other, hother, hlive, hname⟩
      -- Two categories of one name are one category.
      have hsame := Table.eq_of_key (nodup_categoriesOf lineups templateId)
        (mem_listLineupCategories.mp hother) hcategory (Option.some.inj (hname.symm.trans hgroup))
      exact hidle (hsame ▸ hlive)
    have hmem := List.mem_map_of_mem (f := settle normalize lineups channels.names
      (listLineupCategories collation lineups templateId)) hrow
    rw [hsettled] at hmem
    exact hcleared row hmem hnot category hcategory hgroup
  · intro hidle row hrow hnot category hcategory hgroup
    obtain ⟨old, hold, rfl⟩ := List.mem_map.mp hrow
    rw [name_settle] at hnot
    rw [settle_of_unlisted (hunlisted hnot)] at hgroup ⊢
    split
    · rfl
    · rename_i hno
      rw [if_neg hno] at hgroup
      refine hidle category hcategory (fun hlive => hno ?_) old hold hgroup hnot
      exact ⟨category, mem_listLineupCategories.mpr hcategory, hlive, hgroup⟩

theorem entries_split (names : List String) (category : LineupCategoryRow) :
    matchedEntries normalize lineups names category +
      unmatchedEntries normalize lineups names category = (lineups.entriesOf category).length := by
  have hsplit := List.length_eq_length_filter_add (l := lineups.entriesOf category)
    fun entry => decide (∃ name ∈ names, entry.Names normalize name)
  rw [hsplit, matchedEntries, unmatchedEntries]
  refine congrArg _ (congrArg List.length (List.filter_congr fun entry _ => ?_))
  rw [Bool.eq_iff_iff, Bool.not_eq_true', decide_eq_true_iff, decide_eq_false_iff_not]
  exact ⟨fun hall ⟨name, hmem, hnames⟩ => hall name hmem hnames,
    fun hno name hmem hnames => hno ⟨name, hmem, hnames⟩⟩

/-- The two counts agree exactly when the capped matches are the matched entries. -/
theorem counted_iff (categories : List LineupCategoryRow) (names : List String) :
    (categories.map fun category => (lineups.entriesOf category).length -
        matchingChannels normalize lineups names category).sum =
      (categories.map (unmatchedEntries normalize lineups names)).sum ↔
      (categories.map fun category => min (matchingChannels normalize lineups names category)
          (lineups.entriesOf category).length).sum =
        (categories.map (matchedEntries normalize lineups names)).sum := by
  have hsums : (categories.map fun category => (lineups.entriesOf category).length -
        matchingChannels normalize lineups names category).sum +
      (categories.map fun category => min (matchingChannels normalize lineups names category)
          (lineups.entriesOf category).length).sum =
      (categories.map (matchedEntries normalize lineups names)).sum +
        (categories.map (unmatchedEntries normalize lineups names)).sum := by
    induction categories with
    | nil => rfl
    | cons category categories ih =>
      have hsplit := @entries_split normalize lineups names category
      simp only [List.map_cons, List.sum_cons]
      omega
  omega

/-- One category counts its unmatched entries exactly when its own matching channels, up to the
number of entries, are as many as its matched entries. -/
theorem applyCategory_counts_iff (state : Channels × LineupApplyStats)
    (category : LineupCategoryRow) :
    (applyCategory collation normalize lineups state category).2.unmatched =
        state.2.unmatched + unmatchedEntries normalize lineups state.1.names category ↔
      min (matchingChannels normalize lineups state.1.names category)
          (lineups.entriesOf category).length =
        matchedEntries normalize lineups state.1.names category := by
  have hsplit := @entries_split normalize lineups state.1.names category
  rw [applyCategory_unmatched]
  omega

/-- A template fits when each of its categories counts right, so that none makes up for another. -/
theorem LineupFits.of_categories
    (hidle : ∀ category ∈ lineups.categoriesOf templateId,
      ¬HasMatch normalize lineups channels.names category → ∀ row ∈ channels.rows,
        row.groupName = some category.name → ¬InTemplate normalize lineups templateId row.name →
        row.enabled = false)
    (hcounts : ∀ category ∈ lineups.categoriesOf templateId, ∀ stats,
      (applyCategory collation normalize lineups (channels, stats) category).2.unmatched =
        stats.unmatched + unmatchedEntries normalize lineups channels.names category) :
    LineupFits normalize lineups channels templateId where
  idle := hidle
  counts := congrArg List.sum <| List.map_congr_left fun category hmem =>
    (applyCategory_counts_iff (channels, {}) category).mp (hcounts category hmem {})

/-- The template is applied as expected exactly when it fits the channels. -/
theorem lineup_applied_iff (collation : LinearOrder String) (normalize : String → String)
    (lineups : Lineups) (channels : Channels) (templateId : Uuid) :
    LineupApplied collation normalize lineups channels templateId ↔
      LineupFits normalize lineups channels templateId := by
  have hunmatched := (applyLineup_eq collation normalize lineups channels templateId).2
  constructor
  · intro happlied
    exact ⟨cleared_iff.mp happlied.cleared,
      (counted_iff _ _).mp (hunmatched.symm.trans happlied.counted)⟩
  · intro hfits
    exact ⟨grouped_of_applied, cleared_iff.mpr hfits.idle, again_of_applied,
      hunmatched.trans ((counted_iff _ _).mpr hfits.counts)⟩

end Result

def sampleCategories : List LineupCategoryRow := [⟨1, 7, "sports", 1⟩, ⟨2, 7, "news", 2⟩]

theorem sampleCategories_nodup : (sampleCategories.map LineupCategoryRow.id).Nodup ∧
    (sampleCategories.map fun row => (row.templateId, row.name)).Nodup := by decide

/-- Two entries for sports and one for news. -/
def sampleLineups : Lineups where
  categories := sampleCategories
  entries := [⟨1, "espn", "100", [], true⟩, ⟨1, "nfl", "101", [], true⟩, ⟨2, "bbc", "200", [], true⟩]
  ids := sampleCategories_nodup.1
  names := sampleCategories_nodup.2

def sampleRows : List ChannelRow :=
  [{ id := 1, channelNumber := "1", name := "espn" },
    { id := 2, channelNumber := "2", name := "espn" },
    { id := 3, channelNumber := "3", name := "weather", groupName := some "news" }]

theorem sampleRows_nodup : (sampleRows.map ChannelRow.id).Nodup ∧
    (sampleRows.map ChannelRow.channelNumber).Nodup ∧
    (sampleRows.filterMap ChannelRow.ownedKey).Nodup := by decide

def sampleChannels : Channels :=
  ⟨sampleRows, sampleRows_nodup.1, sampleRows_nodup.2.1, sampleRows_nodup.2.2⟩

/-- Two channels match one entry of sports, and nothing matches news: one of the two unmatched
entries is reported, and the group of news is not cleared. -/
theorem lineup_applied_miscounts :
    (applyLineup inferInstance id sampleLineups sampleChannels 7).2.unmatched = 1 ∧
      ((sampleLineups.categoriesOf 7).map
        (unmatchedEntries id sampleLineups sampleChannels.names)).sum = 2 ∧
      (∃ row ∈ (applyLineup inferInstance id sampleLineups sampleChannels 7).1.rows,
        row.name = "weather" ∧ row.groupName = some "news" ∧ row.enabled = true) ∧
      ¬LineupApplied inferInstance id sampleLineups sampleChannels 7 := by
  have hreported : (applyLineup inferInstance id sampleLineups sampleChannels 7).2.unmatched = 1 := by
    decide +kernel
  have hcount : ((sampleLineups.categoriesOf 7).map
      (unmatchedEntries id sampleLineups sampleChannels.names)).sum = 2 := by decide +kernel
  refine ⟨hreported, hcount, by decide +kernel, fun happlied => ?_⟩
  have hcounted := happlied.counted
  rw [hreported, hcount] at hcounted
  exact absurd hcounted (by decide)

end IptvRelay.Catalog
