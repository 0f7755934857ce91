import IptvRelay.Slate.Trace

/-!
# Continuity counters across splices

A listener on one output PID remembers the previous packet and whether the program
was joined since: a new segment began or the PMT changed. Inside a segment the muxer
keeps the counter steps of the input, at a join it continues the output. Inputs
without loss therefore give an output without loss, over any number of splices.
-/

namespace IptvRelay.Slate

open Transition History Blocks Media Psi Muxing

/-! ## Counters -/

/-- The packets that a segment looks at. -/
def Whole (packet : Bytes) : Prop :=
  packet.length = mpegTsPacketSize ∧ packet[0]! = 0x47

instance (packet : Bytes) : Decidable (Whole packet) := inferInstanceAs (Decidable (_ ∧ _))

def hasPayload (packet : Bytes) : Bool := packet[3]! &&& 0x10 ≠ 0

/-- The counter after `counter` on a stream without loss. -/
def nextCounter (counter : UInt8) (packet : Bytes) : UInt8 :=
  if hasPayload packet then (counter + 1) &&& 0x0f else counter

/-- The packet follows `previous` without loss. -/
def Continues (previous packet : Bytes) : Prop :=
  continuityCounter packet = nextCounter (continuityCounter previous) packet

theorem counter_mask (b : UInt8) : b &&& 0x0f = b % 16 := by
  apply UInt8.toNat_inj.mp
  rw [UInt8.toNat_and, UInt8.toNat_mod]
  exact Nat.and_two_pow_sub_one_eq_mod b.toNat 4

theorem toNat_counter (b : UInt8) : (b &&& 0x0f).toNat = b.toNat % 16 := by
  rw [counter_mask, UInt8.toNat_mod]
  rfl

theorem toNat_add_counter (a b : UInt8) : ((a + b) &&& 0x0f).toNat = (a.toNat + b.toNat) % 16 := by
  rw [toNat_counter, UInt8.toNat_add, Nat.mod_mod_of_dvd _ (by decide)]

theorem toNat_sub_counter (a b : UInt8) :
    ((a - b) &&& 0x0f).toNat = (256 - b.toNat + a.toNat) % 16 := by
  rw [toNat_counter, UInt8.toNat_sub, Nat.mod_mod_of_dvd _ (by decide)]

/-- The shift towards a target counter reaches it. -/
theorem shifted_counter (input target : UInt8) :
    ((input &&& 0x0f) + ((target - (input &&& 0x0f)) &&& 0x0f)) &&& 0x0f = target &&& 0x0f := by
  apply UInt8.toNat_inj.mp
  rw [toNat_add_counter, toNat_sub_counter, toNat_counter, toNat_counter]
  omega

/-- A constant shift keeps gaps. -/
theorem shifted_gap (a b delta : UInt8) :
    ((((b &&& 0x0f) + delta) &&& 0x0f) - (((a &&& 0x0f) + delta) &&& 0x0f)) &&& 0x0f =
      ((b &&& 0x0f) - (a &&& 0x0f)) &&& 0x0f := by
  apply UInt8.toNat_inj.mp
  rw [toNat_sub_counter, toNat_sub_counter, toNat_add_counter, toNat_add_counter, toNat_counter,
    toNat_counter]
  omega

theorem counter_of_gap {a b c d n : UInt8} (hc : c &&& 0x0f = c) (hd : d &&& 0x0f = d)
    (hgap : (d - c) &&& 0x0f = (b - a) &&& 0x0f) (hb : b = (a + n) &&& 0x0f) :
    d = (c + n) &&& 0x0f := by
  have hgap := congrArg UInt8.toNat hgap
  have hb := congrArg UInt8.toNat hb
  have hc := congrArg UInt8.toNat hc
  have hd := congrArg UInt8.toNat hd
  have hlt := c.toNat_lt
  have hlt' := a.toNat_lt
  rw [toNat_sub_counter, toNat_sub_counter] at hgap
  rw [toNat_add_counter] at hb
  rw [toNat_counter] at hc hd
  apply UInt8.toNat_inj.mp
  rw [toNat_add_counter]
  omega

theorem and_counter (b : UInt8) : (b &&& 0x0f) &&& 0x0f = b &&& 0x0f := by
  rw [UInt8.and_assoc, UInt8.and_self]

/-- Equal gaps carry over what it means to continue. -/
theorem continues_of_gap {input input' packet packet' : Bytes}
    (hpayload : hasPayload packet' = hasPayload input')
    (hgap : (continuityCounter packet' - continuityCounter packet) &&& 0x0f =
      (continuityCounter input' - continuityCounter input) &&& 0x0f)
    (h : Continues input input') : Continues packet packet' := by
  unfold Continues nextCounter at h ⊢
  rw [hpayload]
  cases hinput : hasPayload input' with
  | true =>
    rw [hinput] at h
    exact counter_of_gap (and_counter _) (and_counter _) hgap h
  | false =>
    rw [hinput] at h
    have hzero : continuityCounter input' = (continuityCounter input + 0) &&& 0x0f := by
      rw [UInt8.add_zero]
      exact h.trans (and_counter _).symm
    have hnext := counter_of_gap (and_counter _) (and_counter _) hgap hzero
    rw [UInt8.add_zero] at hnext
    exact hnext.trans (and_counter _)

/-! ## Events -/

/-- The newest packet that the running segment has handled on an input PID. -/
def noteInput (pid : UInt16) (last : Option Bytes) (entry : Handled) : Option Bytes :=
  if Whole entry.input ∧ packetPid entry.input = pid then some entry.input
  else if .segmentStart ∈ entry.written then none
  else last

def lastInput (journal : List Handled) (pid : UInt16) : Option Bytes :=
  journal.foldl (noteInput pid) none

/-- The packet before this one on the same input PID and in the same segment. -/
def priorInput (journal : List Handled) (entry : Handled) : Option Bytes :=
  if .segmentStart ∈ entry.written then none else lastInput journal (packetPid entry.input)

/-- A write, the packet that caused it, and the packet before that one on its PID. -/
structure Event where
  input : Bytes
  prior : Option Bytes
  emitted : Emitted

def entryEvents (past : List Handled) (entry : Handled) : List Event :=
  entry.written.map fun emitted => ⟨entry.input, priorInput past entry, emitted⟩

def eventsAfter (past : List Handled) : List Handled → List Event
  | [] => []
  | entry :: journal => entryEvents past entry ++ eventsAfter (past ++ [entry]) journal

def events (journal : List Handled) : List Event := eventsAfter [] journal

/-- The inputs of every segment are without loss. -/
def InputsContinue (journal : List Handled) : Prop :=
  ∀ past entry later, journal = past ++ entry :: later → Whole entry.input →
    ∀ prior, priorInput past entry = some prior → Continues prior entry.input

theorem eventsAfter_append (past a b : List Handled) :
    eventsAfter past (a ++ b) = eventsAfter past a ++ eventsAfter (past ++ a) b := by
  induction a generalizing past with
  | nil => simp [eventsAfter]
  | cons entry a ih => simp [eventsAfter, ih, List.append_assoc]

theorem events_snoc (journal : List Handled) (entry : Handled) :
    events (journal ++ [entry]) = events journal ++ entryEvents journal entry := by
  simp [events, eventsAfter_append, eventsAfter]

/-- Every event belongs to an entry of the journal. -/
theorem exists_entry_of_mem_events {journal : List Handled} {event : Event}
    (h : event ∈ events journal) : ∃ past entry later, journal = past ++ entry :: later ∧
      event.input = entry.input ∧ event.prior = priorInput past entry := by
  induction journal using List.reverseRecOn with
  | nil => simp [events, eventsAfter] at h
  | append_singleton journal entry ih =>
    rw [events_snoc, List.mem_append] at h
    rcases h with h | h
    · obtain ⟨past, other, later, rfl, hinput, hprior⟩ := ih h
      exact ⟨past, other, later ++ [entry], by simp, hinput, hprior⟩
    · obtain ⟨emitted, -, rfl⟩ := List.mem_map.mp h
      exact ⟨journal, entry, [], rfl, rfl, rfl⟩

/-! ## Listeners -/

/-- The previous packet on an output PID, with the input it came from. A discontinuity packet
counts as a join. -/
structure Previous where
  input : Bytes
  packet : Bytes
  joined : Bool

def Previous.join (previous : Previous) : Previous := { previous with joined := true }

structure Listener where
  version : UInt8 := 0
  previous : Option Previous := none

def Listener.join (listener : Listener) : Listener :=
  { listener with previous := listener.previous.map Previous.join }

/-- Hear one event on the PID of `role`. A PMT of another version joins. -/
def Listener.hear (role : Role) (listener : Listener) (event : Event) : Listener :=
  match event.emitted with
  | .segmentStart => listener.join
  | .pmt packet =>
    if pmtVersionOf packet = listener.version then listener
    else { listener.join with version := pmtVersionOf packet }
  | .discontinuity other packet =>
    if other = role then { listener with previous := some ⟨event.input, packet, true⟩ } else listener
  | .stream other packet =>
    if other = role then { listener with previous := some ⟨event.input, packet, false⟩ }
    else listener
  | .pat _ | .null _ => listener

def listenOn (role : Role) (past : List Event) : Listener := past.foldl (Listener.hear role) {}

theorem listenOn_snoc (role : Role) (past : List Event) (event : Event) :
    listenOn role (past ++ [event]) = (listenOn role past).hear role event := by
  simp [listenOn]

/-- What a stream or discontinuity packet must do after the events before it. -/
def Counted (before : List Event) (event : Event) (_ : List Event) : Prop :=
  match event.emitted with
  | .stream role packet =>
    Whole event.input ∧ hasPayload packet = hasPayload event.input ∧
      ∀ previous, (listenOn role before).previous = some previous →
        (previous.joined = true → Continues previous.packet packet) ∧
        (previous.joined = false →
          (continuityCounter packet - continuityCounter previous.packet) &&& 0x0f =
            (continuityCounter event.input - continuityCounter previous.input) &&& 0x0f ∧
          event.prior = some previous.input)
  | .discontinuity role packet =>
    hasPayload packet = false ∧ ∀ previous, (listenOn role before).previous = some previous →
      continuityCounter packet = continuityCounter previous.packet
  | _ => True

/-- The muxer has sent these events. -/
structure Sent (s : Muxing) (past : List Event) : Prop where
  out : past.map Event.emitted = s.out
  counted : Follows Counted [] past
  counters : ∀ role, s.mux.outputCc role =
    (listenOn role past).previous.map fun previous => continuityCounter previous.packet

theorem Counted.mono (before : List Event) (event : Event) (after more : List Event)
    (h : Counted before event after) : Counted before event (after ++ more) := h

theorem listenOn_version (role : Role) (past : List Event) :
    (listenOn role past).version = lastVersion (past.map Event.emitted) := by
  induction past using List.reverseRecOn with
  | nil => rfl
  | append_singleton past event ih =>
    rw [listenOn_snoc, List.map_append, List.map_singleton, lastVersion_append, ← ih, Listener.hear]
    cases event.emitted with
    | segmentStart => rfl
    | pat packet | null packet => rfl
    | pmt packet =>
      dsimp only
      split
      · rename_i hsame
        exact hsame.symm
      · rfl
    | discontinuity other packet | stream other packet =>
      dsimp only
      split <;> rfl

/-- A write that is heard on no stream, or whose counter the muxer has noted, is a sent event. -/
theorem Sent.emit {s t : Muxing} {past : List Event} (h : Sent s past) (event : Event)
    (hout : t.out = s.out ++ [event.emitted]) (hcounted : Counted past event [])
    (hcounters : ∀ role, t.mux.outputCc role =
      ((listenOn role past).hear role event).previous.map fun previous =>
        continuityCounter previous.packet) : Sent t (past ++ [event]) where
  out := by rw [List.map_append, h.out, hout, List.map_singleton]
  counted := h.counted.append Counted.mono (follows_cons (by simpa using hcounted) (follows_nil _))
  counters role := by rw [listenOn_snoc, hcounters]

@[simp] theorem Listener.join_counter (listener : Listener) :
    (listener.join.previous.map fun previous => continuityCounter previous.packet) =
      listener.previous.map fun previous => continuityCounter previous.packet := by
  cases hprev : listener.previous <;> simp [Listener.join, hprev, Previous.join]

/-- Tables, null packets and marks do not touch the counters. -/
theorem Sent.emit_table {s t : Muxing} {past : List Event} (h : Sent s past) (event : Event)
    (hout : t.out = s.out ++ [event.emitted]) (hcc : t.mux.outputCc = s.mux.outputCc)
    (hkind : ∀ role packet, event.emitted ≠ .stream role packet ∧
      event.emitted ≠ .discontinuity role packet) : Sent t (past ++ [event]) := by
  refine h.emit event hout ?_ fun role => ?_
  · unfold Counted
    split
    · rename_i role packet hstream
      exact absurd hstream (hkind role packet).1
    · rename_i role packet hgap
      exact absurd hgap (hkind role packet).2
    · trivial
  · rw [hcc, h.counters role, Listener.hear]
    cases hemitted : event.emitted with
    | segmentStart => simp
    | pat packet | null packet => rfl
    | pmt packet =>
      dsimp only
      split
      · rfl
      · exact (Listener.join_counter _).symm
    | discontinuity other packet => exact absurd hemitted (hkind other packet).2
    | stream other packet => exact absurd hemitted (hkind other packet).1

/-! ## One packet -/

theorem setCounter_counter (control counter : UInt8) :
    ((control &&& 0xf0) ||| (counter &&& 0x0f)) &&& 0x0f = counter &&& 0x0f := by
  apply UInt8.eq_of_toBitVec_eq
  simp only [UInt8.toBitVec_and, UInt8.toBitVec_or]
  ext i hi
  simp only [BitVec.getElem_and, BitVec.getElem_or]
  interval_cases i <;> simp

theorem setCounter_payload (control counter : UInt8) :
    ((control &&& 0xf0) ||| (counter &&& 0x0f)) &&& 0x10 = control &&& 0x10 := by
  apply UInt8.eq_of_toBitVec_eq
  simp only [UInt8.toBitVec_and, UInt8.toBitVec_or]
  ext i hi
  simp only [BitVec.getElem_and, BitVec.getElem_or]
  interval_cases i <;> simp

theorem control_writePcrBase (packet : Bytes) (base : UInt64) :
    (writePcrBase packet base)[3]! = packet[3]! := by
  unfold writePcrBase
  rw [getElem!_set_ne _ _ (by decide), getElem!_set_ne _ _ (by decide),
    getElem!_set_ne _ _ (by decide), getElem!_set_ne _ _ (by decide),
    getElem!_set_ne _ _ (by decide)]

theorem control_writeTimestamp (packet : Bytes) {start : Nat} (hstart : 4 ≤ start)
    (value : UInt64) : (writeTimestamp packet start value)[3]! = packet[3]! := by
  unfold writeTimestamp
  rw [getElem!_set_ne _ _ (by omega), getElem!_set_ne _ _ (by omega),
    getElem!_set_ne _ _ (by omega), getElem!_set_ne _ _ (by omega),
    getElem!_set_ne _ _ (by omega)]

theorem control_rebaseField (present : Bool) {start : Nat} (hstart : 4 ≤ start) (offset : UInt64)
    (rebased : Bytes × Option UInt64) :
    (rebaseField present start offset rebased).1[3]! = rebased.1[3]! := by
  unfold rebaseField
  split
  · rfl
  · exact control_writeTimestamp _ hstart _

theorem control_rebasePesTimestamps (packet : Bytes) (offset : UInt64) :
    (rebasePesTimestamps packet offset).1[3]! = packet[3]! := by
  unfold rebasePesTimestamps
  split
  · rfl
  · rw [control_rebaseField _ (by omega), control_rebaseField _ (by omega)]

theorem control_rebasePcr (mux : SpliceMuxer) (offset : UInt64) (packet : Bytes) :
    (rebasePcr mux offset packet).2[3]! = packet[3]! := by
  unfold rebasePcr
  split
  · rfl
  · exact control_writePcrBase _ _

theorem control_rebasePes (mux : SpliceMuxer) (role : Role) (offset : UInt64) (packet : Bytes) :
    (rebasePes mux role offset packet).2[3]! = packet[3]! := by
  unfold rebasePes
  split
  · exact control_rebasePesTimestamps _ _
  · rfl

theorem rebasePcr_outputCc (mux : SpliceMuxer) (offset : UInt64) (packet : Bytes) :
    (rebasePcr mux offset packet).1.outputCc = mux.outputCc := by
  unfold rebasePcr
  split <;> rfl

theorem rebasePes_outputCc (mux : SpliceMuxer) (role : Role) (offset : UInt64) (packet : Bytes) :
    (rebasePes mux role offset packet).1.outputCc = mux.outputCc := by
  unfold rebasePes
  split
  · dsimp only
    cases (rebasePesTimestamps packet offset).2 <;> rfl
  · rfl

theorem control_retarget (packet : Bytes) (role : Role) : (retarget packet role)[3]! = packet[3]! := by
  unfold retarget
  rw [getElem!_set_ne _ _ (by decide), getElem!_set_ne _ _ (by decide)]

theorem control_setCounter {packet : Bytes} (hlength : packet.length = mpegTsPacketSize)
    (counter : UInt8) : (setCounter packet counter)[3]! = (packet[3]! &&& 0xf0) ||| counter := by
  simp [setCounter, hlength, mpegTsPacketSize]

/-- What `forward` does to the counters. -/
theorem forward_counter (s : Muxing) (segment : Segment) (role : Role) {packet : Bytes}
    (hlength : packet.length = mpegTsPacketSize) :
    ∃ output delta counter, (s.forward segment role packet).1.out = s.out ++ [.stream role output] ∧
      delta = s.counterDelta segment role (retarget packet role) ∧
      counter = (continuityCounter packet + delta) &&& 0x0f ∧
      continuityCounter output = counter ∧ hasPayload output = hasPayload packet ∧
      (s.forward segment role packet).1.mux.outputCc =
        Function.update s.mux.outputCc role (some counter) ∧
      (s.forward segment role packet).2 = { segment with
        ccDelta := Function.update segment.ccDelta role (some delta)
        roleStarted := Function.update segment.roleStarted role true } := by
  refine ⟨_, _, _, rfl, rfl, rfl, ?_, ?_, ?_, rfl⟩
  · rw [continuityCounter, control_rebasePes, control_rebasePcr, control_setCounter
      (by simpa [retarget] using hlength), setCounter_counter, control_retarget]
    rfl
  · rw [hasPayload, control_rebasePes, control_rebasePcr, control_setCounter
      (by simpa [retarget] using hlength), setCounter_payload, control_retarget]
    rfl
  · rw [forward]
    dsimp only
    rw [rebasePes_outputCc, rebasePcr_outputCc, control_retarget]
    rfl

/-- The first packet of a stream continues what was sent on its PID. -/
theorem counterDelta_continues {s : Muxing} {segment : Segment} {role : Role} {previous : Bytes}
    (packet : Bytes) (hdelta : segment.ccDelta role = none)
    (hlast : s.mux.outputCc role = some (continuityCounter previous)) :
    (continuityCounter packet + s.counterDelta segment role (retarget packet role)) &&& 0x0f =
      nextCounter (continuityCounter previous) packet := by
  have htarget : s.counterDelta segment role (retarget packet role) =
      (nextCounter (continuityCounter previous) packet - continuityCounter packet) &&& 0x0f := by
    simp only [counterDelta, hdelta, hlast, Option.getD_none, Option.elim_some, control_retarget,
      nextCounter, hasPayload, continuityCounter, decide_eq_true_eq]
  rw [htarget]
  refine (shifted_counter packet[3]! _).trans ?_
  unfold nextCounter
  split
  · exact and_counter _
  · exact and_counter _

/-- An input PID belongs to at most one stream of a program. -/
theorem roleOf_injective {map : ProgramMap} {role : Role} {a b : UInt16}
    (ha : map.roleOf a = some role) (hb : map.roleOf b = some role) : a = b := by
  unfold ProgramMap.roleOf at ha hb
  split_ifs at ha hb <;> cases ha <;> cases hb
  · rename_i hvideo hvideo'
    obtain ⟨entry, hentry, h⟩ := (Option.any_eq_true _ _).mp hvideo
    obtain ⟨entry', hentry', h'⟩ := (Option.any_eq_true _ _).mp hvideo'
    rw [hentry] at hentry'
    cases hentry'
    exact (of_decide_eq_true h).symm.trans (of_decide_eq_true h')
  · rename_i haudio _ haudio'
    obtain ⟨entry, hentry, h⟩ := (Option.any_eq_true _ _).mp haudio
    obtain ⟨entry', hentry', h'⟩ := (Option.any_eq_true _ _).mp haudio'
    rw [hentry] at hentry'
    cases hentry'
    exact (of_decide_eq_true h).symm.trans (of_decide_eq_true h')
  · rename_i hpcr _ _ hpcr'
    rw [hpcr] at hpcr'
    exact Option.some.inj hpcr'

/-- The segment has sent `previous` on the PID of `role`, with this counter shift, and no packet of
that stream has come since. -/
structure Carries (segment : Segment) (last : UInt16 → Option Bytes) (role : Role) (delta : UInt8)
    (previous : Previous) : Prop where
  joined : previous.joined = false
  shifted : continuityCounter previous.packet = (continuityCounter previous.input + delta) &&& 0x0f
  newest : last (packetPid previous.input) = some previous.input
  stream : (segment.map.bind fun map => map.roleOf (packetPid previous.input)) = some role
  notPat : packetPid previous.input ≠ patPid
  notNull : packetPid previous.input ≠ nullPid
  started : segment.roleStarted role = true

/-- A stream with a counter shift carries on, the others continue after a join. -/
structure Linked (segment : Segment) (past : List Event) (last : UInt16 → Option Bytes) : Prop where
  carries : ∀ role delta, segment.ccDelta role = some delta →
    ∃ previous, (listenOn role past).previous = some previous ∧
      Carries segment last role delta previous
  joins : ∀ role, segment.ccDelta role = none → ∀ previous,
    (listenOn role past).previous = some previous → previous.joined = true

/-- A packet that is not forwarded belongs to no stream that has started. -/
theorem Carries.other {segment : Segment} {last : UInt16 → Option Bytes} {role : Role} {delta : UInt8}
    {previous : Previous} (h : Carries segment last role delta previous) {pid : UInt16}
    (hpid : pid ≠ packetPid previous.input) (packet : Bytes) :
    Carries segment (Function.update last pid (some packet)) role delta previous :=
  { h with newest := by rw [Function.update_of_ne hpid.symm, h.newest] }

theorem Linked.congr {segment other : Segment} {past : List Event} {last : UInt16 → Option Bytes}
    (h : Linked segment past last) (hdelta : other.ccDelta = segment.ccDelta)
    (hmap : other.map = segment.map) (hstarted : other.roleStarted = segment.roleStarted) :
    Linked other past last where
  carries role delta hother := by
    obtain ⟨previous, hprevious, hcarries⟩ := h.carries role delta (hdelta ▸ hother)
    exact ⟨previous, hprevious, hcarries.joined, hcarries.shifted, hcarries.newest,
      hmap ▸ hcarries.stream, hcarries.notPat, hcarries.notNull, hstarted ▸ hcarries.started⟩
  joins role hother := h.joins role (hdelta ▸ hother)

/-- Writes that no stream hears leave the links alone. -/
theorem Linked.quiet {segment : Segment} {past : List Event} {last : UInt16 → Option Bytes}
    (h : Linked segment past last) (event : Event)
    (hquiet : ∀ role, (listenOn role past).hear role event = listenOn role past) :
    Linked segment (past ++ [event]) last where
  carries role delta hdelta := by
    rw [listenOn_snoc, hquiet]
    exact h.carries role delta hdelta
  joins role hdelta := by
    rw [listenOn_snoc, hquiet]
    exact h.joins role hdelta

/-- The packet does not belong to a stream that has started. -/
theorem Linked.skip {segment : Segment} {past : List Event} {last : UInt16 → Option Bytes}
    (h : Linked segment past last) (packet : Bytes)
    (hskip : ∀ role previous delta, Carries segment last role delta previous →
      packetPid packet ≠ packetPid previous.input) :
    Linked segment past (Function.update last (packetPid packet) (some packet)) where
  carries role delta hdelta := by
    obtain ⟨previous, hprevious, hcarries⟩ := h.carries role delta hdelta
    exact ⟨previous, hprevious, hcarries.other (hskip role previous delta hcarries) packet⟩
  joins := h.joins

/-- The events of a packet in a segment that has already handled `last`. -/
def packetEvents (packet : Bytes) (last : UInt16 → Option Bytes) (written : List Emitted) :
    List Event :=
  written.map fun emitted => ⟨packet, last (packetPid packet), emitted⟩

theorem packetEvents_append (packet : Bytes) (last : UInt16 → Option Bytes) (a b : List Emitted) :
    packetEvents packet last (a ++ b) = packetEvents packet last a ++ packetEvents packet last b :=
  List.map_append

/-- A part of the work on one packet: what it writes keeps the events in order. -/
structure Keeps (packet : Bytes) (last : UInt16 → Option Bytes) (past : List Event) (s : Muxing)
    (result : Muxing × Segment) (last' : UInt16 → Option Bytes) : Prop where
  written : ∃ more, result.1.out = s.out ++ more ∧
    Sent result.1 (past ++ packetEvents packet last more) ∧
    Linked result.2 (past ++ packetEvents packet last more) last'

theorem forward_keeps {s : Muxing} {segment : Segment} {past : List Event}
    {last : UInt16 → Option Bytes} (hsent : Sent s past) (hlinked : Linked segment past last)
    {role : Role} {packet : Bytes} (hwhole : Whole packet)
    (hrole : (segment.map.bind fun map => map.roleOf (packetPid packet)) = some role)
    (hpat : packetPid packet ≠ patPid) (hnull : packetPid packet ≠ nullPid) :
    Keeps packet last past s (s.forward segment role packet)
      (Function.update last (packetPid packet) (some packet)) := by
  obtain ⟨output, delta, counter, hout, hdelta, hcounter, hcc, hpayload, hmux, hsegment⟩ :=
    forward_counter s segment role hwhole.1
  -- The previous packet of a stream that carries on came on the same input PID.
  have hsame : ∀ delta' previous, Carries segment last role delta' previous →
      packetPid previous.input = packetPid packet := by
    intro delta' previous hcarries
    have hstream := hcarries.stream
    obtain ⟨map, hmap, hrole⟩ := Option.bind_eq_some_iff.mp hrole
    rw [hmap] at hstream
    exact roleOf_injective hstream hrole
  have hcounted : Counted past ⟨packet, last (packetPid packet), .stream role output⟩ [] := by
    refine ⟨hwhole, hpayload, fun previous hprevious => ?_⟩
    cases hold : segment.ccDelta role with
    | none =>
      have hjoined := hlinked.joins role hold previous hprevious
      refine ⟨fun _ => ?_, fun hnot => by rw [hjoined] at hnot; cases hnot⟩
      have hlast : s.mux.outputCc role = some (continuityCounter previous.packet) := by
        rw [hsent.counters, hprevious]
        rfl
      have hnext := counterDelta_continues packet hold hlast
      rw [← hdelta, ← hcounter, ← hcc] at hnext
      rw [Continues, hnext, nextCounter, nextCounter, hpayload]
    | some delta' =>
      obtain ⟨other, hother, hcarries⟩ := hlinked.carries role delta' hold
      rw [hprevious] at hother
      cases hother
      refine ⟨fun hjoined => ?_, fun _ => ⟨?_, ?_⟩⟩
      · rw [hcarries.joined] at hjoined
        cases hjoined
      · have hkept : delta = delta' := by
          rw [hdelta, counterDelta, hold]
          rfl
        rw [hcc, hcounter, hcarries.shifted, hkept]
        exact shifted_gap _ _ _
      · rw [← hsame delta' previous hcarries, hcarries.newest]
  have hheard : ∀ other, (listenOn other past).hear other
      ⟨packet, last (packetPid packet), .stream role output⟩ =
      if role = other then { listenOn other past with previous := some ⟨packet, output, false⟩ }
      else listenOn other past := fun other => rfl
  refine ⟨[.stream role output], hout, hsent.emit _ hout hcounted fun other => ?_, ?_, ?_⟩
  · rw [hheard, hmux]
    by_cases heq : role = other
    · subst heq
      rw [if_pos rfl, Function.update_self, ← hcc]
      rfl
    · rw [if_neg heq, Function.update_of_ne (Ne.symm heq), hsent.counters]
  · intro other delta' hdelta'
    show ∃ previous, (listenOn other (past ++ [_])).previous = some previous ∧ _
    rw [listenOn_snoc, hheard]
    rw [hsegment] at hdelta' ⊢
    by_cases heq : role = other
    · subst heq
      simp only [Function.update_self, Option.some.injEq] at hdelta'
      refine ⟨⟨packet, output, false⟩, by rw [if_pos rfl], rfl, ?_, Function.update_self .., hrole,
        hpat, hnull, Function.update_self ..⟩
      rw [← hdelta', ← hcounter, ← hcc]
    · simp only [Function.update_of_ne (Ne.symm heq)] at hdelta'
      obtain ⟨previous, hprevious, hcarries⟩ := hlinked.carries other delta' hdelta'
      rw [if_neg heq]
      refine ⟨previous, hprevious, ?_⟩
      have hne : packetPid packet ≠ packetPid previous.input := by
        intro hpid
        have hstream := hcarries.stream
        rw [← hpid, hrole] at hstream
        exact heq (Option.some.inj hstream)
      have hkept := hcarries.other hne packet
      exact ⟨hkept.joined, hkept.shifted, hkept.newest, hkept.stream, hkept.notPat, hkept.notNull,
        by simpa only [Function.update_of_ne (Ne.symm heq)] using hkept.started⟩
  · intro other hnone previous
    show (listenOn other (past ++ [_])).previous = some previous → _
    rw [listenOn_snoc, hheard]
    rw [hsegment] at hnone
    by_cases heq : role = other
    · subst heq
      simp at hnone
    · rw [if_neg heq]
      simp only [Function.update_of_ne (Ne.symm heq)] at hnone
      exact hlinked.joins other hnone previous

theorem Keeps.none {packet : Bytes} {last last' : UInt16 → Option Bytes} {past : List Event}
    {s : Muxing} {segment : Segment} (hsent : Sent s past) (hlinked : Linked segment past last') :
    Keeps packet last past s (s, segment) last' :=
  ⟨[], by simp, by simpa [packetEvents] using hsent, by simpa [packetEvents] using hlinked⟩

/-- A PMT of the same version joins nothing. -/
theorem hear_pmt_same {role : Role} {past : List Event} {event : Event} {packet : Bytes}
    (hemitted : event.emitted = .pmt packet)
    (hversion : pmtVersionOf packet = lastVersion (past.map Event.emitted)) :
    (listenOn role past).hear role event = listenOn role past := by
  rw [Listener.hear, hemitted]
  exact if_pos (hversion.trans (listenOn_version role past).symm)

theorem writePat_sent {s : Muxing} {past : List Event} (h : Sent s past) (packet : Bytes)
    (prior : Option Bytes) : Sent s.writePat
      (past ++ [⟨packet, prior, .pat (psiPacket patPid s.mux.patCc patSection)⟩]) :=
  h.emit_table _ rfl rfl (by simp)

/-- A repeated PAT and PMT keep the version, so that no stream is joined. -/
theorem announce_keeps {s : Muxing} {segment : Segment} {past : List Event}
    {last last' : UInt16 → Option Bytes} (hmux : MuxOk s) (hsent : Sent s past)
    (hlinked : Linked segment past last') (packet : Bytes) :
    Keeps packet last past s (s.writePat.writePmt, segment) last' := by
  have hpat := writePat_sent hsent packet (last (packetPid packet))
  have hlinkedPat := hlinked.quiet ⟨packet, last (packetPid packet),
    .pat (psiPacket patPid s.mux.patCc patSection)⟩ fun _ => rfl
  unfold writePmt
  split
  · exact ⟨_, rfl, hpat, hlinkedPat⟩
  · rename_i map _
    generalize hpmt : psiPacket slatePmtPid s.writePat.mux.pmtCc
      (pmtSection map s.writePat.mux.pmtVersion) = pmt
    have hversion : pmtVersionOf pmt = s.mux.pmtVersion := by
      rw [← hpmt, pmtVersionOf_psiPacket]
      exact hmux.small
    refine ⟨[.pat (psiPacket patPid s.mux.patCc patSection)] ++ [.pmt pmt], ?_, ?_, ?_⟩
    · rw [← List.append_assoc]
      rfl
    · rw [packetEvents_append, ← List.append_assoc]
      exact hpat.emit_table ⟨packet, last (packetPid packet), .pmt pmt⟩ rfl rfl (by simp)
    · rw [packetEvents_append, ← List.append_assoc]
      refine hlinkedPat.quiet ⟨packet, last (packetPid packet), .pmt pmt⟩ fun role =>
        hear_pmt_same rfl ?_
      rw [List.map_append, hsent.out, List.map_singleton, lastVersion_append, hversion]
      exact hmux.version

theorem route_keeps {s : Muxing} {segment : Segment} {past : List Event}
    {last : UInt16 → Option Bytes} (hmux : MuxOk s) (hsent : Sent s past)
    (hlinked : Linked segment past last) {packet : Bytes} (hwhole : Whole packet)
    (hnull : packetPid packet ≠ nullPid) :
    Keeps packet last past s (s.route segment packet)
      (Function.update last (packetPid packet) (some packet)) := by
  unfold route
  dsimp only
  split
  · rename_i hpat
    have hskip := hlinked.skip packet fun role previous delta hcarries heq =>
      hcarries.notPat (heq.symm.trans hpat)
    split
    · exact announce_keeps hmux hsent hskip packet
    · exact .none hsent hskip
  · rename_i hpat
    split
    · rename_i hrole
      refine .none hsent (hlinked.skip packet fun role previous delta hcarries heq => ?_)
      have hstream := hcarries.stream
      rw [← heq, hrole] at hstream
      cases hstream
    · rename_i role hrole
      split
      · exact forward_keeps hsent hlinked hwhole hrole hpat hnull
      · rename_i hadmits
        refine .none hsent (hlinked.skip packet fun other previous delta hcarries heq => hadmits ?_)
        have hstream := hcarries.stream
        rw [← heq, hrole] at hstream
        cases hstream
        simp [Segment.admits, hcarries.started]

/-- What one part of the work on a packet leaves, the next one continues. -/
theorem Keeps.trans {packet : Bytes} {last last' : UInt16 → Option Bytes} {past : List Event}
    {s t : Muxing} {result : Muxing × Segment} {more : List Emitted} (hout : t.out = s.out ++ more)
    (h : Keeps packet last (past ++ packetEvents packet last more) t result last') :
    Keeps packet last past s result last' := by
  obtain ⟨rest, hrest, hsent, hlinked⟩ := h
  refine ⟨more ++ rest, by rw [hrest, hout, List.append_assoc], ?_, ?_⟩
  · rw [packetEvents_append, ← List.append_assoc]
    exact hsent
  · rw [packetEvents_append, ← List.append_assoc]
    exact hlinked

theorem Listener.join_joined {listener : Listener} {previous : Previous}
    (h : listener.join.previous = some previous) : previous.joined = true := by
  obtain ⟨other, -, rfl⟩ := Option.map_eq_some_iff.mp h
  rfl

theorem next_version_ne (version : UInt8) : (version + 1) &&& 0x1f ≠ version := by
  intro h
  have hlow := congrArg UInt8.toNat h
  have hmask := Nat.and_two_pow_sub_one_eq_mod (version + 1).toNat 5
  rw [UInt8.toNat_and] at hlow
  have hnext := hmask.symm.trans hlow
  rw [UInt8.toNat_add] at hnext
  simp only [UInt8.reduceToNat] at hnext
  omega

/-- After a PMT of another version every stream continues after a join. -/
theorem linked_of_new_pmt {segment : Segment} {past : List Event} {event : Event} {packet : Bytes}
    (hemitted : event.emitted = .pmt packet)
    (hversion : pmtVersionOf packet ≠ lastVersion (past.map Event.emitted))
    (hdelta : ∀ role, segment.ccDelta role = none) (last : UInt16 → Option Bytes) :
    Linked segment (past ++ [event]) last where
  carries role delta h := by
    rw [hdelta role] at h
    cases h
  joins role _ previous h := by
    rw [listenOn_snoc, Listener.hear, hemitted] at h
    dsimp only at h
    rw [if_neg (by rwa [listenOn_version])] at h
    exact Listener.join_joined h

theorem Sent.withMux {s t : Muxing} {past : List Event} (h : Sent s past) (hout : t.out = s.out)
    (hcc : t.mux.outputCc = s.mux.outputCc) : Sent t past :=
  ⟨h.out.trans hout.symm, h.counted, fun role => by rw [hcc, h.counters]⟩

/-- The version that a new layout announces. -/
theorem adopt_version {s : Muxing} (h : MuxOk s) (map : ProgramMap) (counter : UInt8) :
    pmtVersionOf (psiPacket slatePmtPid counter
      (pmtSection map ((s.mux.pmtVersion + 1) &&& 0x1f))) ≠ lastVersion s.out := by
  rw [pmtVersionOf_psiPacket, and_version, ← h.version]
  exact next_version_ne _

theorem runningPacket_keeps {s : Muxing} {segment : Segment} {past : List Event}
    {last : UInt16 → Option Bytes} (hmux : MuxOk s) (hsent : Sent s past)
    (hlinked : Linked segment past last) (packet : Bytes) :
    Keeps packet last past s (s.runningPacket segment packet)
      (if Whole packet then Function.update last (packetPid packet) (some packet) else last) := by
  unfold runningPacket
  split
  · rename_i hbroken
    rw [if_neg (fun hwhole => by rcases hbroken with h | h; exacts [h hwhole.1, h hwhole.2])]
    exact .none hsent hlinked
  rename_i hwhole
  rw [not_or, not_not, not_not] at hwhole
  have hwhole : Whole packet := hwhole
  rw [if_pos hwhole]
  split
  · rename_i hnull
    have hskip := hlinked.skip packet fun role previous delta hcarries heq =>
      hcarries.notNull (heq.symm.trans hnull)
    exact ⟨[.null packet], rfl, hsent.emit_table _ rfl rfl (by simp), hskip.quiet _ fun _ => rfl⟩
  · rename_i hnull
    dsimp only
    split
    · refine route_keeps hmux hsent ?_ hwhole hnull
      exact hlinked.congr rfl rfl rfl
    · rename_i map hmap
      have hadopted : Sent (s.adoptMap (some map)) past := hsent.withMux rfl rfl
      refine Keeps.trans rfl (route_keeps (hmux.adoptMap_writePmt map) ?_ ?_ hwhole hnull)
      · exact hadopted.emit_table _ rfl rfl (by simp)
      · refine linked_of_new_pmt rfl ?_ (fun _ => rfl) last
        rw [hsent.out]
        exact adopt_version hmux map _

/-! ## The start of a segment -/

/-- Every stream continues after a join. -/
def Joined (past : List Event) : Prop :=
  ∀ role previous, (listenOn role past).previous = some previous → previous.joined = true

theorem Joined.linked {past : List Event} (h : Joined past) {segment : Segment}
    (hdelta : ∀ role, segment.ccDelta role = none) (last : UInt16 → Option Bytes) :
    Linked segment past last where
  carries role delta hsome := by
    rw [hdelta role] at hsome
    cases hsome
  joins role _ := h role

/-- A join lasts until the next packet of the stream. -/
theorem Joined.hear {past : List Event} (h : Joined past) (event : Event)
    (hstream : ∀ role packet, event.emitted ≠ .stream role packet) : Joined (past ++ [event]) := by
  intro role previous hprevious
  rw [listenOn_snoc, Listener.hear] at hprevious
  cases hemitted : event.emitted with
  | segmentStart =>
    rw [hemitted] at hprevious
    exact Listener.join_joined hprevious
  | pat packet | null packet =>
    rw [hemitted] at hprevious
    exact h role previous hprevious
  | pmt packet =>
    rw [hemitted] at hprevious
    dsimp only at hprevious
    split at hprevious
    · exact h role previous hprevious
    · exact Listener.join_joined hprevious
  | discontinuity other packet =>
    rw [hemitted] at hprevious
    dsimp only at hprevious
    split at hprevious
    · cases hprevious
      rfl
    · exact h role previous hprevious
  | stream other packet => exact absurd hemitted (hstream other packet)

theorem joined_segmentStart (past : List Event) (packet : Bytes) (prior : Option Bytes) :
    Joined (past ++ [⟨packet, prior, .segmentStart⟩]) := by
  intro role previous hprevious
  rw [listenOn_snoc] at hprevious
  exact Listener.join_joined hprevious

/-- The muxer has written something for this packet, and no stream of the segment yet. -/
structure Opens (packet : Bytes) (past : List Event) (s t : Muxing) : Prop where
  written : ∃ more, t.out = s.out ++ more ∧
    Sent t (past ++ packetEvents packet (fun _ => none) more) ∧
    Joined (past ++ packetEvents packet (fun _ => none) more)

theorem Opens.snoc {packet : Bytes} {past : List Event} {s t u : Muxing} (h : Opens packet past s t)
    {emitted : Emitted} (hout : u.out = t.out ++ [emitted])
    (hstream : ∀ role packet, emitted ≠ .stream role packet)
    (hsent : ∀ past, Sent t past → Joined past → Sent u (past ++ [⟨packet, none, emitted⟩])) :
    Opens packet past s u := by
  obtain ⟨more, hmore, hsent', hjoined⟩ := h
  refine ⟨more ++ [emitted], by rw [hout, hmore, List.append_assoc], ?_, ?_⟩
  · rw [packetEvents_append, ← List.append_assoc]
    exact hsent _ hsent' hjoined
  · rw [packetEvents_append, ← List.append_assoc]
    exact hjoined.hear _ hstream

theorem opens_writePmt {packet : Bytes} {past : List Event} {s t : Muxing}
    (h : Opens packet past s t) : Opens packet past s t.writePmt := by
  unfold writePmt
  split
  · exact h
  · exact h.snoc rfl (by simp) fun _ hsent _ => hsent.emit_table _ rfl rfl (by simp)

theorem hasPayload_discontinuityPacket (pid : UInt16) (counter : UInt8) :
    hasPayload (discontinuityPacket pid counter) = false := by
  have hcontrol : (0x20 ||| (counter &&& 0x0f)) &&& 0x10 = 0 := by
    rw [or_and, UInt8.and_assoc]
    exact (congrArg (0 ||| ·) UInt8.and_zero).trans UInt8.or_zero
  simp [hasPayload, discontinuityPacket, hcontrol]

theorem continuityCounter_discontinuityPacket (pid : UInt16) (counter : UInt8) :
    continuityCounter (discontinuityPacket pid counter) = counter &&& 0x0f := by
  have hcontrol : (0x20 ||| (counter &&& 0x0f)) &&& 0x0f = counter &&& 0x0f := by
    rw [or_and, UInt8.and_assoc]
    exact UInt8.zero_or
  exact hcontrol

theorem Sent.counter_small {s : Muxing} {past : List Event} (h : Sent s past) (role : Role) :
    (s.mux.outputCc role).getD 0x0f &&& 0x0f = (s.mux.outputCc role).getD 0x0f := by
  rw [h.counters role]
  cases (listenOn role past).previous with
  | none => rfl
  | some previous => exact and_counter _

/-- A discontinuity packet repeats the counter of its PID. -/
theorem opens_writeDiscontinuity {packet : Bytes} {past : List Event} {s t : Muxing}
    (h : Opens packet past s t) (role : Role) :
    Opens packet past s (t.writeDiscontinuity role) := by
  refine h.snoc rfl (by simp) fun earlier hsent hjoined => ?_
  have hcc := (continuityCounter_discontinuityPacket role.outputPid
    ((t.mux.outputCc role).getD 0x0f)).trans (hsent.counter_small role)
  refine hsent.emit _ rfl ⟨hasPayload_discontinuityPacket _ _, fun previous hprevious => ?_⟩
    fun other => ?_
  · rw [hcc, hsent.counters, hprevious]
    rfl
  · show Function.update t.mux.outputCc role (some ((t.mux.outputCc role).getD 0x0f)) other =
      (if role = other then _ else _ : Listener).previous.map _
    by_cases heq : role = other
    · subst heq
      rw [if_pos rfl, Function.update_self]
      exact congrArg some hcc.symm
    · rw [if_neg heq, Function.update_of_ne (Ne.symm heq)]
      exact hsent.counters other

theorem opens_startSegment {s : Muxing} {past : List Event} (hsent : Sent s past) (packet : Bytes)
    (segment : Segment) : Opens packet past s (s.startSegment segment).1 := by
  have hmarked : Opens packet past s
      ⟨{ s.mux with splices := s.mux.splices + 1 }, s.out ++ [.segmentStart]⟩ :=
    ⟨[.segmentStart], rfl, hsent.emit_table _ rfl rfl (by simp), joined_segmentStart past packet none⟩
  have hfold : ∀ (roles : List Role) (t : Muxing), Opens packet past s t →
      Opens packet past s (roles.foldl writeDiscontinuity t) := by
    intro roles
    induction roles with
    | nil => exact fun t ht => ht
    | cons role roles ih => exact fun t ht => ih _ (opens_writeDiscontinuity ht role)
  refine hfold _ _ (opens_writePmt (Opens.snoc ?_ rfl (by simp) fun _ hsent _ =>
    writePat_sent hsent packet none))
  obtain ⟨more, hout, hsent', hjoined⟩ := hmarked
  exact ⟨more, hout, hsent'.withMux rfl rfl, hjoined⟩

/-! ## Runs -/

theorem lastInput_snoc (journal : List Handled) (entry : Handled)
    (hstart : .segmentStart ∉ entry.written) :
    lastInput (journal ++ [entry]) = if Whole entry.input then
      Function.update (lastInput journal) (packetPid entry.input) (some entry.input)
      else lastInput journal := by
  funext pid
  simp only [lastInput, List.foldl_append, List.foldl_cons, List.foldl_nil, noteInput]
  split
  · rename_i hwhole
    rw [if_pos hwhole.1, ← hwhole.2, Function.update_self]
  · rename_i hnot
    split
    · rename_i hwhole
      rw [Function.update_of_ne fun heq => hnot ⟨hwhole, heq.symm⟩, lastInput]
    · rfl

theorem entryEvents_eq {journal : List Handled} {packet : Bytes} {written : List Emitted}
    (hstart : .segmentStart ∉ written) :
    entryEvents journal ⟨packet, written⟩ = packetEvents packet (lastInput journal) written := by
  simp only [entryEvents, priorInput, if_neg hstart, packetEvents]

/-- The packet that starts a segment has no packet before it. -/
theorem lastInput_start (journal : List Handled) (entry : Handled)
    (hstart : .segmentStart ∈ entry.written) :
    lastInput (journal ++ [entry]) = if Whole entry.input then
      Function.update (fun _ => none) (packetPid entry.input) (some entry.input)
      else fun _ => none := by
  funext pid
  simp only [lastInput, List.foldl_append, List.foldl_cons, List.foldl_nil, noteInput]
  split
  · rename_i hwhole
    rw [if_pos hwhole.1, ← hwhole.2, Function.update_self]
  · rename_i hnot
    split
    · rename_i hwhole
      rw [Function.update_of_ne fun heq => hnot ⟨hwhole, heq.symm⟩]
    · rfl

theorem entryEvents_start {journal : List Handled} {packet : Bytes} {written : List Emitted}
    (hstart : .segmentStart ∈ written) :
    entryEvents journal ⟨packet, written⟩ = packetEvents packet (fun _ => none) written := by
  simp only [entryEvents, priorInput, if_pos hstart, packetEvents]

theorem seek_ccDelta (mux : SpliceMuxer) (segment : Segment) (packet : Bytes) :
    (mux.seek segment packet).1.ccDelta = segment.ccDelta := by
  unfold SpliceMuxer.seek
  split
  · rfl
  dsimp only
  split
  · rfl
  split
  · rfl
  split <;> rfl

/-- In every traced run the events are the output, and the running segment is linked to them. -/
theorem counters_invariant : TraceInvariant (fun s journal => Sent s (events journal))
    (fun _ segment journal => Linked segment (events journal) (lastInput journal))
    (fun segment => ∀ role, segment.ccDelta role = none) where
  start := ⟨rfl, follows_nil _, fun _ => rfl⟩
  waits _ := rfl
  seek s segment packet h := by
    rw [seek_ccDelta]
    exact h
  calmSegments _ _ _ _ h := h.withMux rfl rfl
  runsSegments _ _ _ _ _ h := h
  packet s segment journal packet more hmux hsent hlinked hout hfree := by
    obtain ⟨written, hwritten, hsent', hlinked'⟩ := runningPacket_keeps hmux hsent hlinked packet
    have hmore : written = more := List.append_cancel_left (hwritten.symm.trans hout)
    subst hmore
    rw [events_snoc, entryEvents_eq hfree, lastInput_snoc _ _ hfree]
    exact ⟨hsent', hlinked'⟩
  opens s segment journal packet more hmux hsent hfresh hwaits hfound hout := by
    obtain ⟨map, hmap⟩ := (seek_spec s.mux hfresh packet).2 hfound
    have hstep : s.pendingPacket segment packet =
        (s.startSegment (s.mux.seek segment packet).1).1.runningPacket
          (s.startSegment (s.mux.seek segment packet).1).2 packet := by
      simp [pendingPacket, hfresh.1, hfound]
    obtain ⟨opening, hopening, hbegun, hjoined⟩ :=
      opens_startSegment hsent packet (s.mux.seek segment packet).1
    have hdelta : ∀ role, (s.startSegment (s.mux.seek segment packet).1).2.ccDelta role = none :=
      fun role => (congrFun (seek_ccDelta s.mux segment packet) role).trans (hwaits role)
    have hlinked := hjoined.linked hdelta fun _ => none
    obtain ⟨written, hwritten, hsent', hlinked'⟩ := Keeps.trans hopening
      (runningPacket_keeps (startSegment_ok hmux hmap) hbegun hlinked packet)
    rw [← hstep] at hwritten hsent' hlinked'
    have hmore : written = .segmentStart :: more :=
      List.append_cancel_left (hwritten.symm.trans hout)
    subst hmore
    rw [events_snoc, entryEvents_start (List.mem_cons_self ..), lastInput_start _ _
      (List.mem_cons_self ..)]
    exact ⟨hsent', hlinked'⟩

/-- What the muxer guarantees for the continuity counters of its streams. -/
structure CountersContinue (t : TracedMuxing) : Prop where
  /-- The events of the journal are the whole output. -/
  complete : (events t.journal).map Event.emitted = t.muxing.out
  /-- Between two packets of one segment and layout the output keeps the step of the input. -/
  within : ∀ role before event after packet previous,
    events t.journal = before ++ event :: after → event.emitted = .stream role packet →
    (listenOn role before).previous = some previous → previous.joined = false →
    (continuityCounter packet - continuityCounter previous.packet) &&& 0x0f =
      (continuityCounter event.input - continuityCounter previous.input) &&& 0x0f
  /-- The first packet after a join continues the output. -/
  join : ∀ role before event after packet previous,
    events t.journal = before ++ event :: after → event.emitted = .stream role packet →
    (listenOn role before).previous = some previous → previous.joined = true →
    Continues previous.packet packet
  /-- An injected packet repeats the counter. -/
  injected : ∀ role before event after packet previous,
    events t.journal = before ++ event :: after → event.emitted = .discontinuity role packet →
    (listenOn role before).previous = some previous → Continues previous.packet packet
  /-- Inputs without loss give an output without loss. -/
  lossless : InputsContinue t.journal → ∀ role before event after packet previous,
    events t.journal = before ++ event :: after → event.emitted = .stream role packet →
    (listenOn role before).previous = some previous → Continues previous.packet packet

/-- The continuity counters of every run. -/
theorem counters_continue {t : TracedMuxing} (h : tracedMachine.Reachable t) :
    CountersContinue t := by
  have hsent := (counters_invariant.settled_of_reachable h).calm
  have hstream : ∀ role before event after packet previous,
      events t.journal = before ++ event :: after → event.emitted = .stream role packet →
      (listenOn role before).previous = some previous → Whole event.input ∧
        hasPayload packet = hasPayload event.input ∧
        (previous.joined = true → Continues previous.packet packet) ∧
        (previous.joined = false →
          (continuityCounter packet - continuityCounter previous.packet) &&& 0x0f =
            (continuityCounter event.input - continuityCounter previous.input) &&& 0x0f ∧
          event.prior = some previous.input) := by
    intro role before event after packet previous hsplit hemitted hprevious
    have hcounted := hsent.counted before event after hsplit
    rw [List.nil_append, Counted, hemitted] at hcounted
    obtain ⟨hwhole, hpayload, hprev⟩ := hcounted
    exact ⟨hwhole, hpayload, hprev previous hprevious⟩
  refine ⟨hsent.out, ?_, ?_, ?_, ?_⟩
  · intro role before event after packet previous hsplit hemitted hprevious hjoined
    exact ((hstream role before event after packet previous hsplit hemitted hprevious).2.2.2
      hjoined).1
  · intro role before event after packet previous hsplit hemitted hprevious
    exact (hstream role before event after packet previous hsplit hemitted hprevious).2.2.1
  · intro role before event after packet previous hsplit hemitted hprevious
    have hcounted := hsent.counted before event after hsplit
    rw [List.nil_append, Counted, hemitted] at hcounted
    rw [Continues, nextCounter, hcounted.1]
    exact hcounted.2 previous hprevious
  · intro hinputs role before event after packet previous hsplit hemitted hprevious
    obtain ⟨hwhole, hpayload, hjoin, hwithin⟩ :=
      hstream role before event after packet previous hsplit hemitted hprevious
    cases hjoined : previous.joined with
    | true => exact hjoin hjoined
    | false =>
      obtain ⟨hgap, hprior⟩ := hwithin hjoined
      -- The two inputs follow each other on their PID.
      obtain ⟨past, entry, later, hjournal, hinput, hentry⟩ :=
        exists_entry_of_mem_events (show event ∈ events t.journal by simp [hsplit])
      have hnext := hinputs past entry later hjournal (hinput ▸ hwhole) previous.input
        (hentry.symm.trans hprior)
      exact continues_of_gap hpayload hgap (hinput ▸ hnext)

/-- The repeated packet of the first segment is kept as a repeat, and the second segment goes on
behind its discontinuity packet. -/
theorem counters_continue_two_segments :
    ∃ t, tracedMachine.Reachable t ∧ t.journal.length = 4 ∧
      counters slateVideoPid t.muxing.packets = [0, 0, 0, 1] ∧ CountersContinue t := by
  obtain ⟨t, ht, hp⟩ := tracedMachine.exists_reachable_of_run spliceTwice
    (fun t => decide (t.journal.length = 4 ∧
      counters slateVideoPid t.muxing.packets = [0, 0, 0, 1]))
    (by decide +kernel)
  obtain ⟨hlength, hcounters⟩ := of_decide_eq_true hp
  exact ⟨t, ht, hlength, hcounters, counters_continue ht⟩

end IptvRelay.Slate
