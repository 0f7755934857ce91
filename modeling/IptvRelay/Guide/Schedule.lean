import IptvRelay.Guide.Events

/-!
# The schedule of events covers its window

The schedule is a chain of programmes from one end of the window to the other. An event
that meets the window is shown, or an event that sorts before it and is shown overlaps it.
The order of the inputs does not matter as long as their sort keys differ.
-/

namespace IptvRelay.Guide

open Checked

/-! ## Events -/

theorem signedSeconds_ok {seconds : Nat} {duration : Int} (h : signedSeconds seconds = .ok duration) :
    duration = seconds * 1000000000 := by
  obtain ⟨_, _, h⟩ := of_bind h
  obtain ⟨_, _, h⟩ := of_bind h
  exact (of_pure h).symm

theorem eventDurationSeconds_pos {event : MatchedEvent} {seconds : Nat}
    (h : eventDurationSeconds event = .ok seconds) : 0 < seconds := by
  obtain ⟨duration, _, h⟩ := of_bind h
  obtain ⟨_, hpos, h⟩ := of_bind h
  obtain rfl := of_pure h
  exact Nat.pos_of_ne_zero (of_ensure hpos)

theorem Locale.checked_ok {locale : Locale} {time checked : Int}
    (h : locale.checked time = .ok checked) : checked = time := by
  obtain ⟨_, _, h⟩ := of_bind h
  exact (of_pure h).symm

/-- An event has a positive length. -/
theorem buildEventProgramme_ok {locale : Locale} {event : MatchedEvent} {sourceTitle : String}
    {programme : GeneratedProgramme}
    (h : buildEventProgramme locale event sourceTitle = .ok programme) :
    programme.startsAt < programme.stopsAt ∧ programme.kind = .event := by
  obtain ⟨startsAt, _, h⟩ := of_bind h
  obtain ⟨preRoll, hpre, h⟩ := of_bind h
  obtain ⟨seconds, hseconds, h⟩ := of_bind h
  obtain ⟨duration, hduration, h⟩ := of_bind h
  obtain ⟨postRoll, hpost, h⟩ := of_bind h
  obtain ⟨eventStart, hstart, h⟩ := of_bind h
  obtain ⟨middle, hmiddle, h⟩ := of_bind h
  obtain ⟨eventEnd, hend, h⟩ := of_bind h
  obtain ⟨title, _, h⟩ := of_bind h
  obtain rfl := of_pure h
  refine ⟨?_, rfl⟩
  have hpos := eventDurationSeconds_pos hseconds
  simp only [Locale.checked_ok hstart, Locale.checked_ok hend, Locale.checked_ok hmiddle,
    signedSeconds_ok hpre, signedSeconds_ok hduration, signedSeconds_ok hpost]
  omega

/-! ## The loop -/

/-- The programmes follow each other without a gap. -/
def Contiguous (start stop : Int) : List GeneratedProgramme → Prop
  | [] => start = stop
  | programme :: rest =>
    programme.startsAt = start ∧ start < programme.stopsAt ∧ Contiguous programme.stopsAt stop rest

/-- The event has a part in the window. -/
def Intersects (windowStart windowEnd : Int) (event : GeneratedProgramme) : Prop :=
  event.startsAt < windowEnd ∧ windowStart < event.stopsAt

def Overlaps (a b : GeneratedProgramme) : Prop :=
  a.startsAt < b.stopsAt ∧ b.startsAt < a.stopsAt

namespace Contiguous

variable {start stop : Int} {schedule : List GeneratedProgramme}

theorem le (h : Contiguous start stop schedule) : start ≤ stop := by
  induction schedule generalizing start with
  | nil => exact le_of_eq h
  | cons programme rest ih =>
    obtain ⟨-, hlength, hrest⟩ := h
    exact hlength.le.trans (ih hrest)

/-- A gap is filled before the rest. -/
theorem filled {middle : Int} {title sourceTitle : String} (hle : start ≤ middle)
    (h : Contiguous middle stop schedule) :
    Contiguous start stop
      ((if start < middle then [filler start middle title sourceTitle] else []) ++ schedule) := by
  by_cases hgap : start < middle
  · rw [if_pos hgap]
    exact ⟨rfl, hgap, h⟩
  · rw [if_neg hgap]
    obtain rfl := le_antisymm hle (not_lt.mp hgap)
    exact h

theorem mem (h : Contiguous start stop schedule) {programme : GeneratedProgramme}
    (hmem : programme ∈ schedule) :
    start ≤ programme.startsAt ∧ programme.startsAt < programme.stopsAt := by
  induction schedule generalizing start with
  | nil => cases hmem
  | cons head rest ih =>
    obtain ⟨rfl, hlength, hrest⟩ := h
    rcases List.mem_cons.mp hmem with rfl | hmem
    · exact ⟨le_rfl, hlength⟩
    · exact ⟨hlength.le.trans (ih hrest hmem).1, (ih hrest hmem).2⟩

theorem pairwise (h : Contiguous start stop schedule) :
    schedule.Pairwise fun a b => a.stopsAt ≤ b.startsAt := by
  induction schedule generalizing start with
  | nil => exact .nil
  | cons head rest ih =>
    obtain ⟨-, -, hrest⟩ := h
    exact .cons (fun programme hmem => (hrest.mem hmem).1) (ih hrest)

theorem isChain (h : Contiguous start stop schedule) :
    schedule.IsChain fun a b => a.stopsAt = b.startsAt := by
  induction schedule generalizing start with
  | nil => exact .nil
  | cons head rest ih =>
    obtain ⟨-, -, hrest⟩ := h
    cases rest with
    | nil => exact .singleton head
    | cons next rest => exact .cons_cons hrest.1.symm (ih hrest)

theorem head?_startsAt (h : Contiguous start stop schedule) (hlt : start < stop) :
    schedule.head?.map GeneratedProgramme.startsAt = some start := by
  cases schedule with
  | nil => exact absurd h hlt.ne
  | cons head rest => exact congrArg some h.1

theorem getLast?_stopsAt (h : Contiguous start stop schedule) (hlt : start < stop) :
    schedule.getLast?.map GeneratedProgramme.stopsAt = some stop := by
  induction schedule generalizing start with
  | nil => exact absurd h hlt.ne
  | cons head rest ih =>
    obtain ⟨-, -, hrest⟩ := h
    cases rest with
    | nil => exact congrArg some hrest
    | cons next rest =>
      rw [List.getLast?_cons_cons]
      exact ih hrest (hrest.1 ▸ (hrest.2.1.trans_le hrest.2.2.le))

end Contiguous

section Loop

variable {windowStart windowEnd : Int} {fillerTitle : String}

theorem scheduleFrom_contiguous (events : List GeneratedProgramme) {cursor : Int}
    (hwindow : windowStart < windowEnd) (hcursor : cursor ≤ windowEnd)
    (hlength : ∀ event ∈ events, event.startsAt < event.stopsAt) :
    Contiguous cursor windowEnd (scheduleFrom windowStart windowEnd fillerTitle cursor events) := by
  induction events generalizing cursor with
  | nil =>
    have hlast : Contiguous cursor windowEnd
        ((if cursor < windowEnd then [filler cursor windowEnd fillerTitle ""] else []) ++ []) :=
      Contiguous.filled hcursor rfl
    rwa [List.append_nil] at hlast
  | cons event events ih =>
    have hrest := fun other hother => hlength other (List.mem_cons_of_mem event hother)
    unfold scheduleFrom
    split
    · exact ih hcursor hrest
    · rename_i hshown
      dsimp only
      split
      · exact ih hcursor hrest
      · rename_i hfree
        refine Contiguous.filled (not_lt.mp hfree) ⟨rfl, ?_, ih (min_le_right _ _) hrest⟩
        have hevent := hlength event List.mem_cons_self
        simp only [not_or, not_le] at hshown
        exact max_lt (lt_min hevent hshown.2.2) (lt_min hshown.2.1 hwindow)

/-- An event that is shown makes the cursor, and sorts before the events that are left. -/
def Owns (windowStart windowEnd : Int) (owner : Option GeneratedProgramme) (cursor : Int)
    (events : List GeneratedProgramme) : Prop :=
  match owner with
  | none => cursor = windowStart
  | some shown => (shown.clip windowStart windowEnd).stopsAt = cursor ∧
    ∀ event ∈ events, shown.startsAt ≤ event.startsAt

theorem Owns.tail {owner : Option GeneratedProgramme} {cursor : Int} {event : GeneratedProgramme}
    {events : List GeneratedProgramme}
    (h : Owns windowStart windowEnd owner cursor (event :: events)) :
    Owns windowStart windowEnd owner cursor events := by
  cases owner with
  | none => exact h
  | some shown => exact ⟨h.1, fun other hother => h.2 other (List.mem_cons_of_mem event hother)⟩

/-- An event of the window that ends or begins before the cursor overlaps the owner. -/
theorem Owns.overlaps {owner : Option GeneratedProgramme} {cursor : Int}
    {event : GeneratedProgramme} {events : List GeneratedProgramme}
    (h : Owns windowStart windowEnd owner cursor (event :: events))
    (hlength : event.startsAt < event.stopsAt) (hwindow : windowStart < windowEnd)
    (hmeets : Intersects windowStart windowEnd event)
    (hearly : event.stopsAt ≤ cursor ∨ max event.startsAt windowStart < cursor) :
    ∃ shown, owner = some shown ∧
      Overlaps (shown.clip windowStart windowEnd) (event.clip windowStart windowEnd) := by
  obtain ⟨hstart, hstop⟩ := hmeets
  cases owner with
  | none =>
    have hcursor : cursor = windowStart := h
    omega
  | some shown =>
    obtain ⟨rfl, hsorted⟩ := h
    have hbefore := hsorted event List.mem_cons_self
    refine ⟨shown, rfl, ?_, ?_⟩ <;>
      simp only [GeneratedProgramme.clip] at hearly ⊢ <;> omega

theorem scheduleFrom_covers (events : List GeneratedProgramme) {cursor : Int}
    {owner : Option GeneratedProgramme} (howner : Owns windowStart windowEnd owner cursor events)
    (hwindow : windowStart < windowEnd)
    (hlength : ∀ event ∈ events, event.startsAt < event.stopsAt)
    (hsorted : events.Pairwise fun a b => a.startsAt ≤ b.startsAt)
    {before after : List GeneratedProgramme} {event : GeneratedProgramme}
    (hsplit : events = before ++ event :: after)
    (hmeets : Intersects windowStart windowEnd event) :
    event.clip windowStart windowEnd ∈
        scheduleFrom windowStart windowEnd fillerTitle cursor events ∨
      ∃ earlier, (owner = some earlier ∨ (earlier ∈ before ∧
          earlier.clip windowStart windowEnd ∈
            scheduleFrom windowStart windowEnd fillerTitle cursor events)) ∧
        Overlaps (earlier.clip windowStart windowEnd) (event.clip windowStart windowEnd) := by
  induction events generalizing cursor owner before with
  | nil => simp at hsplit
  | cons head events ih =>
    have hrest := fun other hother => hlength other (List.mem_cons_of_mem head hother)
    obtain ⟨hheadSorted, htailSorted⟩ := List.pairwise_cons.mp hsorted
    -- A head that is passed over leaves the cursor and its owner.
    have hpassed : scheduleFrom windowStart windowEnd fillerTitle cursor (head :: events) =
          scheduleFrom windowStart windowEnd fillerTitle cursor events →
        (Intersects windowStart windowEnd head →
          head.stopsAt ≤ cursor ∨ max head.startsAt windowStart < cursor) →
        event.clip windowStart windowEnd ∈
            scheduleFrom windowStart windowEnd fillerTitle cursor (head :: events) ∨
          ∃ earlier, (owner = some earlier ∨ (earlier ∈ before ∧
              earlier.clip windowStart windowEnd ∈
                scheduleFrom windowStart windowEnd fillerTitle cursor (head :: events))) ∧
            Overlaps (earlier.clip windowStart windowEnd) (event.clip windowStart windowEnd) := by
      intro heq hearly
      rw [heq]
      cases before with
      | nil =>
        obtain ⟨rfl, rfl⟩ := List.cons.inj hsplit
        obtain ⟨shown, hshown, hoverlap⟩ := howner.overlaps (hlength head List.mem_cons_self)
          hwindow hmeets (hearly hmeets)
        exact .inr ⟨shown, .inl hshown, hoverlap⟩
      | cons first before =>
        obtain ⟨rfl, htail⟩ := List.cons.inj hsplit
        rcases ih howner.tail hrest htailSorted htail with hmem | ⟨earlier, howned, hoverlap⟩
        · exact .inl hmem
        · refine .inr ⟨earlier, howned.imp id fun h => ?_, hoverlap⟩
          exact ⟨List.mem_cons_of_mem head h.1, h.2⟩
    by_cases hskip : head.stopsAt ≤ cursor ∨ head.stopsAt ≤ windowStart ∨ windowEnd ≤ head.startsAt
    · refine hpassed (by rw [scheduleFrom, if_pos hskip]) fun hmeets => ?_
      obtain ⟨hstart, hstop⟩ := hmeets
      rcases hskip with h | h | h
      · exact .inl h
      · omega
      · omega
    by_cases hlate : (head.clip windowStart windowEnd).startsAt < cursor
    · refine hpassed ?_ fun _ => .inr hlate
      rw [scheduleFrom, if_neg hskip]
      exact if_pos hlate
    have hresult : scheduleFrom windowStart windowEnd fillerTitle cursor (head :: events) =
        (if cursor < (head.clip windowStart windowEnd).startsAt then
          [filler cursor (head.clip windowStart windowEnd).startsAt fillerTitle ""] else []) ++
        head.clip windowStart windowEnd :: scheduleFrom windowStart windowEnd fillerTitle
          (head.clip windowStart windowEnd).stopsAt events := by
      rw [scheduleFrom, if_neg hskip]
      exact if_neg hlate
    rw [hresult]
    cases before with
    | nil =>
      obtain ⟨rfl, rfl⟩ := List.cons.inj hsplit
      exact .inl (List.mem_append_right _ List.mem_cons_self)
    | cons first before =>
      obtain ⟨rfl, htail⟩ := List.cons.inj hsplit
      have howns : Owns windowStart windowEnd (some head)
          (head.clip windowStart windowEnd).stopsAt events := ⟨rfl, hheadSorted⟩
      rcases ih howns hrest htailSorted htail with hmem | ⟨earlier, howned, hoverlap⟩
      · exact .inl (List.mem_append_right _ (List.mem_cons_of_mem _ hmem))
      · refine .inr ⟨earlier, .inr ?_, hoverlap⟩
        rcases howned with hhead | ⟨hmem, hshown⟩
        · obtain rfl := Option.some.inj hhead
          exact ⟨List.mem_cons_self, List.mem_append_right _ List.mem_cons_self⟩
        · exact ⟨List.mem_cons_of_mem _ hmem,
            List.mem_append_right _ (List.mem_cons_of_mem _ hshown)⟩

/-- Only events that meet the window are shown. -/
theorem scheduleFrom_events (events : List GeneratedProgramme) {cursor : Int}
    {programme : GeneratedProgramme} (hkind : programme.kind = .event)
    (h : programme ∈ scheduleFrom windowStart windowEnd fillerTitle cursor events) :
    ∃ event ∈ events, Intersects windowStart windowEnd event ∧
      programme = event.clip windowStart windowEnd := by
  induction events generalizing cursor with
  | nil =>
    unfold scheduleFrom at h
    split at h
    · obtain rfl := List.mem_singleton.mp h
      cases hkind
    · cases h
  | cons head events ih =>
    have hlater : ∀ cursor, programme ∈ scheduleFrom windowStart windowEnd fillerTitle cursor events →
        ∃ event ∈ head :: events, Intersects windowStart windowEnd event ∧
          programme = event.clip windowStart windowEnd := by
      intro cursor hmem
      obtain ⟨event, hevent, hspec⟩ := ih hmem
      exact ⟨event, List.mem_cons_of_mem head hevent, hspec⟩
    unfold scheduleFrom at h
    split at h
    · exact hlater _ h
    · rename_i hshown
      dsimp only at h
      split at h
      · exact hlater _ h
      · rcases List.mem_append.mp h with hgap | hrest
        · split at hgap
          · obtain rfl := List.mem_singleton.mp hgap
            cases hkind
          · cases hgap
        · rcases List.mem_cons.mp hrest with rfl | hmem
          · simp only [not_or, not_le] at hshown
            exact ⟨head, List.mem_cons_self, ⟨hshown.2.2, hshown.2.1⟩, rfl⟩
          · exact hlater _ hmem

end Loop

/-! ## The schedule -/

theorem startsAt_le_of_sortKey_le {a b : GeneratedProgramme} (h : a.sortKey ≤ b.sortKey) :
    a.startsAt ≤ b.startsAt := by
  rcases Prod.Lex.le_iff.mp h with hlt | heq
  · exact hlt.le
  · exact heq.1.le

/-- Events with different keys have one sorted order. -/
theorem sortEvents_eq_of_perm {events events' : List GeneratedProgramme}
    (hperm : events.Perm events') (hkeys : (events.map GeneratedProgramme.sortKey).Nodup) :
    sortEvents events = sortEvents events' :=
  Sorting.sortBy_eq_of_perm hperm fun _ ha _ hb hkey => List.inj_on_of_nodup_map hkeys ha hb hkey

theorem generateEventSchedule_ok {locale : Locale} {inputs : List EventGuideInput}
    {windowStart windowEnd : Int} {fillerTitle : String} {schedule : List GeneratedProgramme}
    (h : generateEventSchedule locale inputs windowStart windowEnd fillerTitle = .ok schedule) :
    windowStart < windowEnd ∧ ∃ events, buildEvents locale inputs = .ok events ∧
      schedule = scheduleFrom windowStart windowEnd fillerTitle windowStart (sortEvents events) := by
  obtain ⟨_, hwindow, h⟩ := of_bind h
  obtain ⟨events, hevents, h⟩ := of_bind h
  exact ⟨of_ensure hwindow, events, hevents, (of_pure h).symm⟩

/-- A schedule is sorted and covers its window without gaps or overlaps. Every event of the inputs
that meets the window is shown with its interval clipped, or overlaps one that sorts before it and
is shown. Any order of inputs with different sort keys gives the same schedule. -/
theorem event_schedule_correct (locale : Locale) (inputs : List EventGuideInput)
    (windowStart windowEnd : Int) (fillerTitle : String) (schedule : List GeneratedProgramme)
    (h : generateEventSchedule locale inputs windowStart windowEnd fillerTitle = .ok schedule) :
    (∀ programme ∈ schedule, programme.startsAt < programme.stopsAt) ∧
    schedule.Pairwise (fun a b => a.startsAt < b.startsAt ∧ a.stopsAt ≤ b.startsAt) ∧
    schedule.IsChain (fun a b => a.stopsAt = b.startsAt) ∧
    schedule.head?.map GeneratedProgramme.startsAt = some windowStart ∧
    schedule.getLast?.map GeneratedProgramme.stopsAt = some windowEnd ∧
    ∃ events, buildEvents locale inputs = .ok events ∧
      (∀ programme ∈ schedule, programme.kind = .event →
        ∃ event ∈ events, programme = event.clip windowStart windowEnd) ∧
      (∀ before event after, sortEvents events = before ++ event :: after →
        Intersects windowStart windowEnd event →
        event.clip windowStart windowEnd ∈ schedule ∨
          ∃ earlier ∈ before, earlier.clip windowStart windowEnd ∈ schedule ∧
            Overlaps (earlier.clip windowStart windowEnd) (event.clip windowStart windowEnd)) ∧
      (∀ inputs', inputs.Perm inputs' → (events.map GeneratedProgramme.sortKey).Nodup →
        generateEventSchedule locale inputs' windowStart windowEnd fillerTitle = .ok schedule) := by
  obtain ⟨hwindow, events, hevents, rfl⟩ := generateEventSchedule_ok h
  have hperm := Sorting.sortBy_perm GeneratedProgramme.sortKey events
  have hlength : ∀ event ∈ sortEvents events, event.startsAt < event.stopsAt := by
    intro event hevent
    obtain ⟨input, -, hbuild⟩ := mem_of_mapM hevents (hperm.mem_iff.mp hevent)
    exact (buildEventProgramme_ok hbuild).1
  have hsorted : (sortEvents events).Pairwise fun a b => a.startsAt ≤ b.startsAt :=
    (Sorting.sortBy_sorted GeneratedProgramme.sortKey events).imp startsAt_le_of_sortKey_le
  have hcover : Contiguous windowStart windowEnd
      (scheduleFrom windowStart windowEnd fillerTitle windowStart (sortEvents events)) :=
    scheduleFrom_contiguous (sortEvents events) hwindow hwindow.le hlength
  refine ⟨fun programme hmem => (hcover.mem hmem).2, ?_, hcover.isChain,
    hcover.head?_startsAt hwindow, hcover.getLast?_stopsAt hwindow, events, hevents, ?_, ?_, ?_⟩
  · refine hcover.pairwise.imp_of_mem fun ha _ hle => ?_
    exact ⟨(hcover.mem ha).2.trans_le hle, hle⟩
  · intro programme hmem hkind
    obtain ⟨event, hevent, -, hclip⟩ := scheduleFrom_events (sortEvents events) hkind hmem
    exact ⟨event, hperm.mem_iff.mp hevent, hclip⟩
  · intro before event after hsplit hmeets
    have howner : Owns windowStart windowEnd none windowStart (sortEvents events) := rfl
    rcases scheduleFrom_covers (sortEvents events) howner hwindow hlength hsorted hsplit hmeets with
      hmem | ⟨earlier, howned, hoverlap⟩
    · exact .inl hmem
    · obtain ⟨hmem, hshown⟩ := howned.resolve_left (by simp)
      exact .inr ⟨earlier, hmem, hshown, hoverlap⟩
  · intro inputs' hperm hkeys
    obtain ⟨events', hevents', hpermEvents⟩ := mapM_perm hperm hevents
    have hbuild : buildEvents locale inputs' = .ok events' := hevents'
    simp only [generateEventSchedule, hbuild, ensure, if_pos hwindow]
    rw [sortEvents_eq_of_perm hpermEvents hkeys]
    rfl

section Example

/-- What `chrono` does near the epoch. -/
def epochLocale : Locale where
  minUtc := -8334601228800000000000
  maxUtc := 8210266876799999999999
  rfc3339 time :=
    if time = 0 then "1970-01-01T00:00:00+00:00" else "1970-01-01T00:30:00+00:00"
  toLowercase := Text.asciiLowercase

/-- An hour from the given time on. -/
def hourFrom (startsAt : Int) : MatchedEvent where
  rule := { guide := ⟨3600, "Stand by", "\x7bsource\x7d"⟩ }
  startsAt := some startsAt
  captures _ := none

/-- The second of two events begins while the first is on. -/
def collidingInputs : List EventGuideInput :=
  [⟨hourFrom 1800000000000, "Late"⟩, ⟨hourFrom 0, "Early"⟩]

theorem event_schedule_correct_colliding :
    ∃ schedule, generateEventSchedule epochLocale collidingInputs 0 7200000000000 "Stand by" =
        .ok schedule ∧
      schedule.map GeneratedProgramme.title = ["Early", "Stand by"] ∧
      schedule.IsChain (fun a b => a.stopsAt = b.startsAt) ∧
      schedule.getLast?.map GeneratedProgramme.stopsAt = some 7200000000000 := by
  have hsome : ((generateEventSchedule epochLocale collidingInputs 0 7200000000000
      "Stand by").toOption.map fun schedule => schedule.map GeneratedProgramme.title) =
      some ["Early", "Stand by"] := by decide +kernel
  obtain ⟨schedule, hok, htitles⟩ := Option.map_eq_some_iff.mp hsome
  have hresult : generateEventSchedule epochLocale collidingInputs 0 7200000000000 "Stand by" =
      .ok schedule := of_toOption hok
  have hspec := event_schedule_correct epochLocale collidingInputs 0 7200000000000 "Stand by"
    schedule hresult
  exact ⟨schedule, hresult, htitles, hspec.2.2.1, hspec.2.2.2.2.1⟩

end Example

end IptvRelay.Guide
