import IptvRelay.Output.Guide
import Mathlib.Data.Int.Order.Basic
import Mathlib.Order.MinMax

/-!
# The placeholders fill the gaps of the guide

The gaps are the pieces of the window that no programme covers. A gap ends where a programme starts,
also one of no length, and the next gap begins at the same instant then. The blocks fill each of
them up to a rest of less than a minute, whatever the order of the programmes is. Instants are
unbounded; the times of `chrono` end, and sums near their ends panic.
-/

namespace IptvRelay.Output

/-- The point is in the span. -/
def GuideSpan.Contains (span : GuideSpan) (t : Instant) : Prop := span.1 ≤ t ∧ t < span.2

/-- The inside of the span does not meet the block. -/
def GuideSpan.Apart (span block : GuideSpan) : Prop := span.2 ≤ block.1 ∨ block.2 ≤ span.1

/-- No span ends before it starts. -/
def Forward (spans : List GuideSpan) : Prop := ∀ span ∈ spans, span.1 ≤ span.2

/-- Where a gap of the window ends. -/
def GapEnd (now : Instant) (spans : List GuideSpan) (stop : Instant) : Prop :=
  stop = now + 48 * hour ∨ ∃ span ∈ spans, span.1 = stop

/-! ## Gaps -/

section Gaps

variable {windowEnd cursor : Instant} {spans : List GuideSpan}

theorem guideGaps_of_le (h : windowEnd ≤ cursor) (spans : List GuideSpan) :
    guideGaps windowEnd cursor spans = [] := by
  cases spans with
  | nil => exact if_neg (not_lt.mpr h)
  | cons span spans =>
    unfold guideGaps
    exact if_pos h

theorem guideGaps_cons (h : cursor < windowEnd) (span : GuideSpan) (spans : List GuideSpan) :
    guideGaps windowEnd cursor (span :: spans) =
      (if cursor < span.1 then [(cursor, min span.1 windowEnd)] else []) ++
        guideGaps windowEnd (max cursor span.2) spans := by
  obtain ⟨start, stop⟩ := span
  conv_lhs => unfold guideGaps
  exact if_neg (not_le.mpr h)

/-- A gap lies behind the cursor and in the window. -/
theorem guideGaps_bounds {gap : GuideSpan} (h : gap ∈ guideGaps windowEnd cursor spans) :
    cursor ≤ gap.1 ∧ gap.1 < gap.2 ∧ gap.2 ≤ windowEnd := by
  induction spans generalizing cursor with
  | nil =>
    unfold guideGaps at h
    split_ifs at h with hlt
    · obtain rfl := List.mem_singleton.mp h
      exact ⟨le_rfl, hlt, le_rfl⟩
    · cases h
  | cons span spans ih =>
    rcases le_or_gt windowEnd cursor with hend | hopen
    · rw [guideGaps_of_le hend] at h
      cases h
    · rw [guideGaps_cons hopen] at h
      rcases List.mem_append.mp h with h | h
      · split_ifs at h with hlt
        · obtain rfl := List.mem_singleton.mp h
          exact ⟨le_rfl, lt_min hlt hopen, min_le_right _ _⟩
        · cases h
      · obtain ⟨hcursor, hrest⟩ := ih h
        exact ⟨(le_max_left _ _).trans hcursor, hrest⟩

theorem Forward.tail {span : GuideSpan} (h : Forward (span :: spans)) : Forward spans :=
  fun other hother => h other (List.mem_cons_of_mem span hother)

theorem guideGaps_pairwise (hforward : Forward spans) :
    (guideGaps windowEnd cursor spans).Pairwise fun a b => a.2 ≤ b.1 := by
  induction spans generalizing cursor with
  | nil =>
    unfold guideGaps
    split_ifs
    · exact List.pairwise_singleton _ _
    · exact .nil
  | cons span spans ih =>
    rcases le_or_gt windowEnd cursor with hend | hopen
    · rw [guideGaps_of_le hend]
      exact .nil
    · rw [guideGaps_cons hopen]
      refine List.pairwise_append.mpr ⟨?_, ih hforward.tail, ?_⟩
      · split_ifs
        · exact List.pairwise_singleton _ _
        · exact .nil
      · intro gap hgap next hnext
        split_ifs at hgap
        · obtain rfl := List.mem_singleton.mp hgap
          have hstop := hforward span List.mem_cons_self
          exact (min_le_left _ _).trans
            (hstop.trans ((le_max_right _ _).trans (guideGaps_bounds hnext).1))
        · cases hgap

/-- A gap ends where a span starts, or with the window. -/
theorem guideGaps_end {gap : GuideSpan} (h : gap ∈ guideGaps windowEnd cursor spans) :
    gap.2 = windowEnd ∨ ∃ span ∈ spans, span.1 = gap.2 := by
  induction spans generalizing cursor with
  | nil =>
    unfold guideGaps at h
    split_ifs at h
    · obtain rfl := List.mem_singleton.mp h
      exact .inl rfl
    · cases h
  | cons span spans ih =>
    rcases le_or_gt windowEnd cursor with hend | hopen
    · rw [guideGaps_of_le hend] at h
      cases h
    · rw [guideGaps_cons hopen] at h
      rcases List.mem_append.mp h with h | h
      · split_ifs at h
        · obtain rfl := List.mem_singleton.mp h
          rcases min_choice span.1 windowEnd with heq | heq
          · exact .inr ⟨span, List.mem_cons_self, heq.symm⟩
          · exact .inl heq
        · cases h
      · exact (ih h).imp_right fun ⟨other, hother, heq⟩ =>
          ⟨other, List.mem_cons_of_mem span hother, heq⟩

/-- No span reaches into a gap, as the spans are sorted by their start. -/
theorem guideGaps_apart (hsorted : spans.Pairwise fun a b => a.1 ≤ b.1) {gap span : GuideSpan}
    (hgap : gap ∈ guideGaps windowEnd cursor spans) (hspan : span ∈ spans) : span.Apart gap := by
  induction spans generalizing cursor with
  | nil => cases hspan
  | cons first spans ih =>
    obtain ⟨hfirst, hsorted⟩ := List.pairwise_cons.mp hsorted
    rcases le_or_gt windowEnd cursor with hend | hopen
    · rw [guideGaps_of_le hend] at hgap
      cases hgap
    · rw [guideGaps_cons hopen] at hgap
      rcases List.mem_append.mp hgap with hgap | hgap
      · -- The gap before the first span ends before all of them start.
        split_ifs at hgap
        · obtain rfl := List.mem_singleton.mp hgap
          refine .inr ((min_le_left _ _).trans ?_)
          rcases List.mem_cons.mp hspan with rfl | hspan
          · exact le_rfl
          · exact hfirst span hspan
        · cases hgap
      · rcases List.mem_cons.mp hspan with rfl | hspan
        · exact .inl ((le_max_right _ _).trans (guideGaps_bounds hgap).1)
        · exact ih hsorted hgap hspan

/-- Every point of the window is in a span or in a gap. -/
theorem guideGaps_cover {t : Instant} (hcursor : cursor ≤ t) (hend : t < windowEnd)
    (hfree : ∀ span ∈ spans, ¬span.Contains t) :
    ∃ gap ∈ guideGaps windowEnd cursor spans, gap.Contains t := by
  induction spans generalizing cursor with
  | nil =>
    refine ⟨(cursor, windowEnd), ?_, hcursor, hend⟩
    unfold guideGaps
    rw [if_pos (hcursor.trans_lt hend)]
    exact List.mem_singleton_self _
  | cons span spans ih =>
    rw [guideGaps_cons (hcursor.trans_lt hend)]
    rcases lt_or_ge t span.1 with hbefore | hbehind
    · refine ⟨(cursor, min span.1 windowEnd), List.mem_append_left _ ?_, hcursor,
        lt_min hbefore hend⟩
      rw [if_pos (hcursor.trans_lt hbefore)]
      exact List.mem_singleton_self _
    · have hstop : span.2 ≤ t :=
        not_lt.mp fun hlt => hfree span List.mem_cons_self ⟨hbehind, hlt⟩
      obtain ⟨gap, hgap, hcontains⟩ := ih (max_le hcursor hstop)
        fun other hother => hfree other (List.mem_cons_of_mem span hother)
      exact ⟨gap, List.mem_append_right _ hgap, hcontains⟩

/-! ### The order of the spans -/

/-- Two spans with one start can be exchanged. -/
theorem guideGaps_swap {first second : GuideSpan} (hstart : first.1 = second.1)
    (hfirst : first.1 ≤ first.2) (hsecond : second.1 ≤ second.2) (spans : List GuideSpan) :
    guideGaps windowEnd cursor (first :: second :: spans) =
      guideGaps windowEnd cursor (second :: first :: spans) := by
  rcases le_or_gt windowEnd cursor with hend | hopen
  · rw [guideGaps_of_le hend, guideGaps_of_le hend]
  · -- The second of the two has no gap before it and moves the cursor on, if there is room.
    have hpair : ∀ a b : GuideSpan, a.1 = b.1 → a.1 ≤ a.2 →
        guideGaps windowEnd (max cursor a.2) (b :: spans) =
          guideGaps windowEnd (max (max cursor a.2) b.2) spans := by
      intro a b hab ha
      rcases le_or_gt windowEnd (max cursor a.2) with hend | hopen
      · rw [guideGaps_of_le hend, guideGaps_of_le (hend.trans (le_max_left _ _))]
      · rw [guideGaps_cons hopen, if_neg, List.nil_append]
        exact not_lt.mpr (hab ▸ ha.trans (le_max_right _ _))
    rw [guideGaps_cons hopen, guideGaps_cons hopen, hpair first second hstart hfirst,
      hpair second first hstart.symm hsecond, hstart, max_assoc, max_assoc,
      max_comm first.2 second.2]

theorem guideGaps_congr {span : GuideSpan} {others : List GuideSpan}
    (h : ∀ cursor, guideGaps windowEnd cursor spans = guideGaps windowEnd cursor others)
    (cursor : Instant) :
    guideGaps windowEnd cursor (span :: spans) = guideGaps windowEnd cursor (span :: others) := by
  rcases le_or_gt windowEnd cursor with hend | hopen
  · rw [guideGaps_of_le hend, guideGaps_of_le hend]
  · rw [guideGaps_cons hopen, guideGaps_cons hopen, h]

/-- A span can be moved before spans with the same start. -/
theorem guideGaps_move {span : GuideSpan} {before : List GuideSpan} (behind : List GuideSpan)
    (hstart : ∀ other ∈ before, other.1 = span.1) (hspan : span.1 ≤ span.2)
    (hforward : Forward before) (cursor : Instant) :
    guideGaps windowEnd cursor (before ++ span :: behind) =
      guideGaps windowEnd cursor (span :: (before ++ behind)) := by
  induction before generalizing cursor with
  | nil => rfl
  | cons first before ih =>
    have hrest := fun cursor => ih
      (fun other hother => hstart other (List.mem_cons_of_mem first hother)) hforward.tail cursor
    rw [List.cons_append, guideGaps_congr hrest, List.cons_append]
    exact guideGaps_swap (hstart first List.mem_cons_self) (hforward first List.mem_cons_self)
      hspan _

/-- Sorted lists of the same spans have the same gaps. -/
theorem guideGaps_perm {others : List GuideSpan} (hperm : spans.Perm others)
    (hsorted : spans.Pairwise fun a b => a.1 ≤ b.1)
    (hsorted' : others.Pairwise fun a b => a.1 ≤ b.1) (hforward : Forward spans)
    (cursor : Instant) :
    guideGaps windowEnd cursor spans = guideGaps windowEnd cursor others := by
  induction spans generalizing others cursor with
  | nil => rw [List.nil_perm.mp hperm]
  | cons span spans ih =>
    obtain ⟨hfirst, hsorted⟩ := List.pairwise_cons.mp hsorted
    obtain ⟨before, behind, rfl⟩ := List.append_of_mem (hperm.mem_iff.mp List.mem_cons_self)
    have hforward' : Forward (before ++ span :: behind) :=
      fun other hother => hforward other (hperm.mem_iff.mpr hother)
    have hmem : ∀ other ∈ before, other ∈ span :: spans := fun other hother =>
      hperm.mem_iff.mpr (List.mem_append_left _ hother)
    have hstart : ∀ other ∈ before, other.1 = span.1 := by
      intro other hother
      refine le_antisymm ?_ ?_
      · exact (List.pairwise_append.mp hsorted').2.2 other hother span List.mem_cons_self
      · rcases List.mem_cons.mp (hmem other hother) with rfl | hmem
        · exact le_rfl
        · exact hfirst other hmem
    rw [guideGaps_move behind hstart (hforward span List.mem_cons_self)
      fun other hother => hforward other (hmem other hother)]
    refine guideGaps_congr (fun cursor => ih ?_ hsorted ?_ hforward.tail cursor) cursor
    · exact (List.perm_cons span).mp (hperm.trans List.perm_middle)
    · exact hsorted'.sublist ((List.sublist_cons_self span behind).append_left before)

end Gaps

/-! ## Blocks -/

section Blocks

variable {start gapEnd : Int} {block : GuideSpan}

/-- The blocks of a gap, if it is long enough for one. -/
theorem gapBlocks_of_short (h : gapEnd - start < 60 * second) : gapBlocks start gapEnd = [] := by
  rw [gapBlocks, if_neg (not_le.mpr h)]

theorem hour_eq : hour = 3600000000000 := rfl

/-- The first block of a gap. -/
structure FirstBlock (start gapEnd stop : Int) : Prop where
  later : start < stop
  inside : stop ≤ gapEnd
  short : stop - start ≤ 2 * hour
  ends : hour ∣ stop ∨ stop = gapEnd

theorem gapBlocks_of_long (h : 60 * second ≤ gapEnd - start) :
    ∃ stop, FirstBlock start gapEnd stop ∧
      gapBlocks start gapEnd = (start, stop) :: gapBlocks stop gapEnd := by
  refine ⟨min gapEnd (floorToHour (start + 2 * hour)), ?_, by rw [gapBlocks, if_pos h]⟩
  have hfloor := floorToHour_gt (start + 2 * hour)
  have hle : floorToHour (start + 2 * hour) ≤ start + 2 * hour := by
    simp only [floorToHour, second]
    omega
  have hwhole : hour ∣ floorToHour (start + 2 * hour) := by
    simp only [floorToHour, second, hour_eq]
    omega
  have hends : hour ∣ min gapEnd (floorToHour (start + 2 * hour)) ∨
      min gapEnd (floorToHour (start + 2 * hour)) = gapEnd := by
    rcases min_choice gapEnd (floorToHour (start + 2 * hour)) with heq | heq
    · exact .inr heq
    · exact .inl (heq.symm ▸ hwhole)
  have hhour := hour_eq
  unfold second at h
  exact ⟨by omega, by omega, by omega, hends⟩

/-- What the blocks of a gap are, by induction on its length. -/
theorem gapBlocks_induction {motive : Int → List GuideSpan → Prop} (gapEnd : Int)
    (hshort : ∀ start, gapEnd - start < 60 * second → motive start [])
    (hlong : ∀ start stop blocks, FirstBlock start gapEnd stop → motive stop blocks →
      motive start ((start, stop) :: blocks)) (start : Int) :
    motive start (gapBlocks start gapEnd) := by
  rcases lt_or_ge (gapEnd - start) (60 * second) with hlt | hle
  · rw [gapBlocks_of_short hlt]
    exact hshort start hlt
  · obtain ⟨stop, hfirst, heq⟩ := gapBlocks_of_long hle
    rw [heq]
    exact hlong start stop _ hfirst (gapBlocks_induction gapEnd hshort hlong stop)
termination_by (gapEnd - start).toNat
decreasing_by
  have hlater := hfirst.later
  have hinside := hfirst.inside
  omega

/-- The blocks lie in the gap, one behind the other. -/
theorem gapBlocks_chain (start gapEnd : Int) :
    (∀ block ∈ gapBlocks start gapEnd, start ≤ block.1 ∧ FirstBlock block.1 gapEnd block.2) ∧
      (gapBlocks start gapEnd).Pairwise fun a b => a.2 ≤ b.1 := by
  refine gapBlocks_induction (motive := fun start blocks =>
    (∀ block ∈ blocks, start ≤ block.1 ∧ FirstBlock block.1 gapEnd block.2) ∧
      blocks.Pairwise fun a b => a.2 ≤ b.1) gapEnd ?_ ?_ start
  · exact fun start _ => ⟨fun block hblock => absurd hblock List.not_mem_nil, .nil⟩
  · rintro start stop blocks hfirst ⟨hblocks, hpairwise⟩
    refine ⟨fun block hblock => ?_, .cons (fun block hblock => (hblocks block hblock).1) hpairwise⟩
    rcases List.mem_cons.mp hblock with rfl | hblock
    · exact ⟨le_rfl, hfirst⟩
    · exact ⟨hfirst.later.le.trans (hblocks block hblock).1, (hblocks block hblock).2⟩

/-- A point of the gap is in a block or in the rest of the gap. -/
theorem gapBlocks_cover {gapEnd t : Int} (start : Int) :
    start ≤ t → (∃ block ∈ gapBlocks start gapEnd, block.1 ≤ t ∧ t < block.2) ∨
      gapEnd - t < 60 * second := by
  refine gapBlocks_induction (motive := fun start blocks => start ≤ t →
    (∃ block ∈ blocks, block.1 ≤ t ∧ t < block.2) ∨ gapEnd - t < 60 * second) gapEnd ?_ ?_ start
  · exact fun start hshort hstart => .inr (by omega)
  · intro start stop blocks hfirst ih hstart
    rcases lt_or_ge t stop with hlt | hle
    · exact .inl ⟨(start, stop), List.mem_cons_self, hstart, hlt⟩
    · exact (ih hle).imp_left fun ⟨block, hblock, hcontains⟩ =>
        ⟨block, List.mem_cons_of_mem _ hblock, hcontains⟩

end Blocks

/-! ## The placeholders -/

/-- What the placeholders of a channel are for. -/
structure FillsGaps (now : Instant) (spans blocks : List GuideSpan) : Prop where
  nonempty : ∀ block ∈ blocks, block.1 < block.2
  ordered : blocks.Pairwise fun a b => a.2 ≤ b.1
  window : ∀ block ∈ blocks, now - 6 * hour ≤ block.1 ∧ block.2 ≤ now + 48 * hour
  apart : ∀ block ∈ blocks, ∀ span ∈ spans, span.Apart block
  short : ∀ block ∈ blocks, block.2 - block.1 ≤ 2 * hour
  ends : ∀ block ∈ blocks, hour ∣ block.2 ∨ GapEnd now spans block.2
  /-- A point outside all spans and blocks is in the last minute of its gap. -/
  covered : ∀ t, now - 6 * hour ≤ t → t < now + 48 * hour → (∀ span ∈ spans, ¬span.Contains t) →
    (∃ block ∈ blocks, block.Contains t) ∨
      ∃ stop, GapEnd now spans stop ∧ t < stop ∧ stop - t < 60 * second ∧
        ∀ span ∈ spans, span.Apart (t, stop)

section Placeholders

variable {now : Instant} {spans : List GuideSpan}

theorem mem_noProgramBlocks {block : GuideSpan} :
    block ∈ noProgramBlocks now spans ↔
      ∃ gap ∈ guideGaps (now + 48 * hour) (now - 6 * hour) (Sorting.sortBy Prod.fst spans),
        block ∈ gapBlocks gap.1 gap.2 := List.mem_flatMap

theorem GapEnd.of_gap {gap : GuideSpan}
    (hgap : gap ∈ guideGaps (now + 48 * hour) (now - 6 * hour) (Sorting.sortBy Prod.fst spans)) :
    GapEnd now spans gap.2 :=
  (guideGaps_end hgap).imp_right fun ⟨span, hspan, heq⟩ =>
    ⟨span, (Sorting.sortBy_perm _ spans).mem_iff.mp hspan, heq⟩

theorem Forward.sorted (h : Forward spans) : Forward (Sorting.sortBy Prod.fst spans) :=
  fun span hspan => h span ((Sorting.sortBy_perm _ spans).mem_iff.mp hspan)

/-- A span keeps apart from the parts of what it is apart from. -/
theorem GuideSpan.Apart.part {span gap : GuideSpan} (h : span.Apart gap) {start stop : Instant}
    (hstart : gap.1 ≤ start) (hstop : stop ≤ gap.2) : span.Apart (start, stop) :=
  h.imp (·.trans hstart) (hstop.trans ·)

theorem ordered_noProgramBlocks (hforward : Forward spans) :
    (noProgramBlocks now spans).Pairwise fun a b => a.2 ≤ b.1 := by
  refine List.pairwise_flatMap.mpr ⟨fun gap _ => (gapBlocks_chain gap.1 gap.2).2, ?_⟩
  refine (guideGaps_pairwise hforward.sorted).imp ?_
  intro gap next hle block hblock other hother
  have hblock := ((gapBlocks_chain gap.1 gap.2).1 block hblock).2
  have hother := ((gapBlocks_chain next.1 next.2).1 other hother).1
  exact hblock.inside.trans (hle.trans hother)

/-- The placeholders fill the gaps, and the order of the programmes does not matter. -/
theorem no_program_blocks_fill (now : Instant) (spans : List GuideSpan)
    (hforward : ∀ span ∈ spans, span.1 ≤ span.2) :
    FillsGaps now spans (noProgramBlocks now spans) ∧
      ∀ others, spans.Perm others → noProgramBlocks now others = noProgramBlocks now spans := by
  have hsorted := Sorting.sortBy_sorted Prod.fst spans
  have hmem : ∀ span ∈ spans, span ∈ Sorting.sortBy Prod.fst spans :=
    fun span hspan => (Sorting.sortBy_perm _ spans).mem_iff.mpr hspan
  have hblocks : ∀ block ∈ noProgramBlocks now spans, ∃ gap,
      gap ∈ guideGaps (now + 48 * hour) (now - 6 * hour) (Sorting.sortBy Prod.fst spans) ∧
        gap.1 ≤ block.1 ∧ FirstBlock block.1 gap.2 block.2 := by
    intro block hblock
    obtain ⟨gap, hgap, hblock⟩ := mem_noProgramBlocks.mp hblock
    exact ⟨gap, hgap, (gapBlocks_chain gap.1 gap.2).1 block hblock⟩
  constructor
  · constructor
    · intro block hblock
      obtain ⟨gap, -, -, hfirst⟩ := hblocks block hblock
      exact hfirst.later
    · exact ordered_noProgramBlocks hforward
    · intro block hblock
      obtain ⟨gap, hgap, hstart, hfirst⟩ := hblocks block hblock
      obtain ⟨hcursor, -, hend⟩ := guideGaps_bounds hgap
      exact ⟨hcursor.trans hstart, hfirst.inside.trans hend⟩
    · intro block hblock span hspan
      obtain ⟨gap, hgap, hstart, hfirst⟩ := hblocks block hblock
      exact (guideGaps_apart hsorted hgap (hmem span hspan)).part hstart hfirst.inside
    · intro block hblock
      obtain ⟨gap, -, -, hfirst⟩ := hblocks block hblock
      exact hfirst.short
    · intro block hblock
      obtain ⟨gap, hgap, -, hfirst⟩ := hblocks block hblock
      exact hfirst.ends.imp_right fun heq => by rw [heq]; exact .of_gap hgap
    · intro t hstart hend hfree
      have hfree : ∀ span ∈ Sorting.sortBy Prod.fst spans, ¬GuideSpan.Contains span t :=
        fun span hspan => hfree span ((Sorting.sortBy_perm _ spans).mem_iff.mp hspan)
      obtain ⟨gap, hgap, hbefore, hbehind⟩ := guideGaps_cover hstart hend hfree
      rcases gapBlocks_cover gap.1 hbefore with ⟨block, hblock, hcontains⟩ | hrest
      · exact .inl ⟨block, mem_noProgramBlocks.mpr ⟨gap, hgap, hblock⟩, hcontains⟩
      · exact .inr ⟨gap.2, .of_gap hgap, hbehind, hrest, fun span hspan =>
          (guideGaps_apart hsorted hgap (hmem span hspan)).part hbefore le_rfl⟩
  · intro others hperm
    have hboth : (Sorting.sortBy Prod.fst spans).Perm (Sorting.sortBy Prod.fst others) :=
      ((Sorting.sortBy_perm _ spans).trans hperm).trans (Sorting.sortBy_perm _ others).symm
    unfold noProgramBlocks
    rw [guideGaps_perm hboth hsorted (Sorting.sortBy_sorted _ others) (Forward.sorted hforward)]

/-- Two overlapping programmes and one without a length. -/
theorem no_program_blocks_fill_overlapping :
    FillsGaps 0 [(hour, 3 * hour), (0, 2 * hour), (5 * hour, 5 * hour)]
        (noProgramBlocks 0 [(hour, 3 * hour), (0, 2 * hour), (5 * hour, 5 * hour)]) ∧
      ∀ others, [(hour, 3 * hour), (0, 2 * hour), (5 * hour, 5 * hour)].Perm others →
        noProgramBlocks 0 others =
          noProgramBlocks 0 [(hour, 3 * hour), (0, 2 * hour), (5 * hour, 5 * hour)] :=
  no_program_blocks_fill 0 [(hour, 3 * hour), (0, 2 * hour), (5 * hour, 5 * hour)] (by decide)

end Placeholders

end IptvRelay.Output
