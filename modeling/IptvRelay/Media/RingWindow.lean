import IptvRelay.Media.PsiSections
import IptvRelay.Media.Ring

/-!
# The retained window of a ring

`RingOk ring log` relates a ring to `log`, the packets that were pushed into its
current generation: the storage holds the newest packets in their slots, the
counters describe that window, and every stored boundary is a safe restart
point of the log. Each writer operation has one lemma that says what it does to
the log.
-/

namespace IptvRelay.Media

open Blocks Psi

/-- The state describes the newest `cap` packets of `log`. -/
structure StateOk (cap : Nat) (state : RingState) (log : List Bytes) : Prop where
  sized : ∀ packet ∈ log, packet.length = mpegTsPacketSize
  holds : Holds mpegTsPacketSize cap state.storage log
  next : state.nextSequence = log.length
  first : state.firstSequence = log.length - cap
  tracker : TrackerOk log state.psi
  boundaries : ∀ b ∈ state.safeBoundaries, ∃ e, SafeStart log b e

/-- A ring together with the packets of its current generation. -/
def RingOk (ring : MpegTsRing) (log : List Bytes) : Prop :=
  StateOk ring.config.capacityPackets ring.state log

/-! ## What the timing data leaves alone -/

section Frame

variable (state : RingState) (packet : Bytes) (now : Instant)

@[simp] theorem observeClock_storage : (state.observeClock packet now).storage = state.storage := by
  simp only [RingState.observeClock]; split_ifs <;> rfl

@[simp] theorem observeClock_generation :
    (state.observeClock packet now).generation = state.generation := by
  simp only [RingState.observeClock]; split_ifs <;> rfl

@[simp] theorem observeClock_nextSequence :
    (state.observeClock packet now).nextSequence = state.nextSequence := by
  simp only [RingState.observeClock]; split_ifs <;> rfl

@[simp] theorem observeClock_safeBoundaries :
    (state.observeClock packet now).safeBoundaries = state.safeBoundaries := by
  simp only [RingState.observeClock]; split_ifs <;> rfl

@[simp] theorem observeClock_psi : (state.observeClock packet now).psi = state.psi := by
  simp only [RingState.observeClock]; split_ifs <;> rfl

@[simp] theorem observeClock_closed : (state.observeClock packet now).closed = state.closed := by
  simp only [RingState.observeClock]; split_ifs <;> rfl

@[simp] theorem observePsi_storage : (state.observePsi packet).storage = state.storage := by
  unfold RingState.observePsi; split <;> rfl

@[simp] theorem observePsi_generation :
    (state.observePsi packet).generation = state.generation := by
  unfold RingState.observePsi; split <;> rfl

@[simp] theorem observePsi_nextSequence :
    (state.observePsi packet).nextSequence = state.nextSequence := by
  unfold RingState.observePsi; split <;> rfl

@[simp] theorem observePsi_closed : (state.observePsi packet).closed = state.closed := by
  unfold RingState.observePsi; split <;> rfl

@[simp] theorem observePsi_psi :
    (state.observePsi packet).psi = (state.psi.observe packet state.nextSequence).1 := by
  unfold RingState.observePsi; split <;> simp_all

theorem observePsi_safeBoundaries :
    (state.observePsi packet).safeBoundaries =
      state.safeBoundaries ++ (state.psi.observe packet state.nextSequence).2.toList := by
  unfold RingState.observePsi; split <;> simp_all

end Frame

/-! ## Writers -/

/-- One iteration of the packet loop appends the packet to the log. -/
theorem StateOk.pushPacket {cap : Nat} {state : RingState} {log : List Bytes}
    (h : StateOk cap state log) (hcap : 0 < cap) {packet : Bytes}
    (hsize : packet.length = mpegTsPacketSize) (now : Instant) :
    StateOk cap (state.pushPacket cap now packet) (log ++ [packet]) := by
  have htracker := h.tracker.observe packet
  constructor
  · intro p hp
    rcases List.mem_append.mp hp with hp | hp
    · exact h.sized p hp
    · rw [List.mem_singleton.mp hp, hsize]
  · simpa [RingState.pushPacket, RingState.store, h.next] using h.holds.push hcap hsize
  · simp [RingState.pushPacket, RingState.store, h.next]
  · simp [RingState.pushPacket, RingState.store, h.next]
  · simpa [RingState.pushPacket, RingState.store, h.next] using htracker.1
  · intro b hb
    simp only [RingState.pushPacket, RingState.store, observeClock_safeBoundaries,
      observePsi_safeBoundaries, h.next, List.mem_append, Option.mem_toList] at hb
    rcases hb with hb | hb
    · obtain ⟨e, he⟩ := h.boundaries b hb
      exact ⟨e, he.append [packet]⟩
    · exact ⟨_, htracker.2 b hb⟩

/-- The whole packet loop appends the packets in order, and keeps the generation open. -/
theorem StateOk.pushPackets {cap : Nat} (hcap : 0 < cap) (now : Instant) (packets : List Bytes)
    {state : RingState} {log : List Bytes} (h : StateOk cap state log)
    (hsize : ∀ packet ∈ packets, packet.length = mpegTsPacketSize) :
    StateOk cap (packets.foldl (RingState.pushPacket cap now) state) (log ++ packets) := by
  induction packets generalizing state log with
  | nil => simpa using h
  | cons packet packets ih =>
    rw [List.foldl_cons, List.append_cons]
    exact ih (h.pushPacket hcap (hsize packet (by simp)) now)
      (fun p hp => hsize p (by simp [hp]))

theorem foldl_pushPacket_generation (cap : Nat) (now : Instant) (packets : List Bytes)
    (state : RingState) :
    (packets.foldl (RingState.pushPacket cap now) state).generation = state.generation := by
  induction packets generalizing state with
  | nil => rfl
  | cons packet packets ih => rw [List.foldl_cons, ih]; simp [RingState.pushPacket, RingState.store]

/-- Forgetting overwritten boundaries and candidates only weakens what is stored. -/
theorem StateOk.settle {cap : Nat} {state : RingState} {log : List Bytes}
    (h : StateOk cap state log) (bytes count : Nat) (now : Instant) :
    StateOk cap (state.settle bytes count now) log := by
  refine ⟨h.sized, h.holds, h.next, h.first, ?_, ?_⟩
  · simp only [RingState.settle]
    split
    · exact trackerOk_reset log
    · exact h.tracker
  · intro b hb
    exact h.boundaries b ((List.dropWhile_suffix _).subset hb)

open MpegTsRing

/-- A new ring holds an empty log. -/
theorem ringOk_new (config : MpegTsRingConfig) : RingOk (new config) [] where
  sized := by simp
  holds := .empty (by simp [new])
  next := rfl
  first := by simp [new]
  tracker := trackerOk_reset []
  boundaries := by simp [new]

/-- Everything a `push` can do: refuse and change nothing, or append aligned packets to an open
generation. -/
theorem push_cases (ring : MpegTsRing) (bytes : Bytes) (now : Instant) :
    (∃ error, ring.push bytes now = (ring, .error error)) ∨
      (ring.state.closed = none ∧ mpegTsPacketSize ∣ bytes.length ∧
        ring.state.nextSequence + (chunksExact mpegTsPacketSize bytes).length < 2 ^ 64 ∧
        (ring.push bytes now).1.config = ring.config ∧
        (ring.push bytes now).1.state =
          ((chunksExact mpegTsPacketSize bytes).foldl
            (RingState.pushPacket ring.config.capacityPackets now) ring.state).settle
              bytes.length (chunksExact mpegTsPacketSize bytes).length now ∧
        ∃ outcome, (ring.push bytes now).2 = .ok outcome ∧
          outcome.generation = ring.state.generation ∧
          outcome.packetsWritten = (chunksExact mpegTsPacketSize bytes).length) := by
  unfold push
  split
  · exact .inl ⟨_, rfl⟩
  · rename_i haligned
    dsimp only
    split
    · exact .inl ⟨_, rfl⟩
    · split
      · exact .inl ⟨_, rfl⟩
      · rename_i hopen
        split
        · rename_i hfits
          refine .inr ⟨hopen, Nat.dvd_of_mod_eq_zero (not_not.mp haligned), hfits, rfl, rfl, _, rfl,
            ?_, rfl⟩
          simp [RingState.settle, foldl_pushPacket_generation]
        · exact .inl ⟨_, rfl⟩

/-- A successful `push` appends its packets to the log. -/
theorem RingOk.push {ring : MpegTsRing} {log : List Bytes} (h : RingOk ring log) {bytes : Bytes}
    {now : Instant} {outcome : WriteOutcome} (hok : (ring.push bytes now).2 = .ok outcome) :
    RingOk (ring.push bytes now).1 (log ++ chunksExact mpegTsPacketSize bytes) := by
  rcases push_cases ring bytes now with ⟨error, herror⟩ | ⟨_, _, _, hconfig, hstate, _⟩
  · rw [herror] at hok
    cases hok
  · unfold RingOk
    rw [hconfig, hstate]
    exact (StateOk.pushPackets ring.config.capacity_pos now _ h
      fun _ => length_of_mem_chunksExact).settle _ _ _

/-- A new generation starts with an empty log, whatever the storage still contains. -/
theorem RingOk.startNewGeneration {ring : MpegTsRing} {log : List Bytes} (h : RingOk ring log)
    {generation : Nat} (hok : ring.startNewGeneration.2 = .ok generation) :
    RingOk ring.startNewGeneration.1 [] ∧
      ring.startNewGeneration.1.state.generation = ring.state.generation + 1 := by
  unfold MpegTsRing.startNewGeneration at hok ⊢
  split
  · exact ⟨⟨by simp, .empty h.holds.length, rfl, by simp, trackerOk_reset [], by simp⟩, rfl⟩
  · rename_i hfull
    rw [if_neg hfull] at hok
    cases hok

theorem startNewGeneration_error {ring : MpegTsRing} {error : RingWriteError}
    (h : ring.startNewGeneration.2 = .error error) : ring.startNewGeneration.1 = ring := by
  unfold MpegTsRing.startNewGeneration at h ⊢
  split
  · rename_i hfits
    rw [if_pos hfits] at h
    cases h
  · rfl

/-- Closing changes nothing but the closed flag. -/
theorem close_eq (ring : MpegTsRing) (reason : RingCloseReason) :
    (ring.close reason).1 =
      { ring with state := { ring.state with closed := ring.state.closed.or (some reason) } } := by
  unfold close
  split
  · rename_i r hr
    obtain ⟨config, state⟩ := ring
    cases state
    simp_all
  · rename_i hnone
    rw [hnone]
    rfl

theorem RingOk.close {ring : MpegTsRing} {log : List Bytes} (h : RingOk ring log)
    (reason : RingCloseReason) : RingOk (ring.close reason).1 log := by
  rw [close_eq]
  exact ⟨h.sized, h.holds, h.next, h.first, h.tracker, h.boundaries⟩

/-! ## Reading back -/

/-- `bytes` are the packets of `log` from `first` on, each of them complete. -/
def Delivers (log : List Bytes) (first : Nat) (bytes : Bytes) : Prop :=
  ∃ packets : List Bytes, bytes = packets.flatten ∧ packets ≠ [] ∧
    ∀ i packet, packets[i]? = some packet →
      packet.length = mpegTsPacketSize ∧ log[first + i]? = some packet

theorem Delivers.mono {log log' : List Bytes} {first : Nat} {bytes : Bytes}
    (h : Delivers log first bytes) (sub : log <+: log') : Delivers log' first bytes := by
  obtain ⟨packets, hbytes, hne, hget⟩ := h
  obtain ⟨more, rfl⟩ := sub
  refine ⟨packets, hbytes, hne, fun i packet hi => ?_⟩
  obtain ⟨hsize, hlog⟩ := hget i packet hi
  exact ⟨hsize, getElem?_append_of_some more hlog⟩

/-- Slot `q % capacity` holds packet `q` of the log for every retained sequence. -/
theorem RingOk.slot {ring : MpegTsRing} {log : List Bytes} (h : RingOk ring log) {q : Nat}
    (hlo : ring.state.firstSequence ≤ q) (hhi : q < ring.state.nextSequence) :
    ∃ packet, log[q]? = some packet ∧ packet.length = mpegTsPacketSize ∧
      blockAt mpegTsPacketSize ring.state.storage (q % ring.config.capacityPackets) = packet := by
  have hfirst := h.first
  have hnext := h.next
  have hget : log[q]? = some log[q] := List.getElem?_eq_getElem (by omega)
  exact ⟨log[q], hget, h.sized _ (List.getElem_mem _), h.holds.slot q _ (by omega) hget⟩

theorem RingOk.length_readPackets {ring : MpegTsRing} {log : List Bytes} (h : RingOk ring log)
    (first count : Nat) : (ring.readPackets first count).length = count * mpegTsPacketSize := by
  have hblock : ∀ i, (blockAt mpegTsPacketSize ring.state.storage
      (i % ring.config.capacityPackets)).length = mpegTsPacketSize := fun i =>
    length_blockAt h.holds.length (Nat.mod_lt _ ring.config.capacity_pos)
  simp [MpegTsRing.readPackets, List.length_flatten, Function.comp_def, hblock]

/-- Reading inside the window yields the pushed packets. -/
theorem RingOk.readPackets {ring : MpegTsRing} {log : List Bytes} (h : RingOk ring log)
    {first : Nat} (count : Nat) (hlo : ring.state.firstSequence ≤ first) (hcount : 0 < count)
    (hhi : first + count ≤ ring.state.nextSequence) :
    Delivers log first (ring.readPackets first count) := by
  refine ⟨_, rfl, by simp; omega, fun i packet hi => ?_⟩
  rw [List.getElem?_map] at hi
  obtain ⟨j, hj, hblock⟩ := Option.map_eq_some_iff.mp hi
  obtain ⟨hlt, rfl⟩ := List.getElem?_eq_some_iff.mp hj
  simp only [List.length_range] at hlt
  simp only [List.getElem_range] at hblock
  obtain ⟨stored, hget, hsize, hslot⟩ := h.slot (q := first + i) (by omega) (by omega)
  rw [← hblock, hslot]
  exact ⟨hsize, hget⟩

end IptvRelay.Media
