import IptvRelay.Media.Transport
import IptvRelay.Media.PsiSections

/-!
# Section reassembly

An assembler sees the packets of one PID. Whatever packets those are, its buffer stays below
the announced length. When they carry a consistent section, the section comes out once, with
the packet that completes it.
-/

namespace IptvRelay.Media.Psi

open SectionAssembler

namespace SectionAssembler

/-- How the tracker drives an assembler: packets of other PIDs and packets without a usable
header do not reach it. -/
def observePacket (pid : UInt16) (self : SectionAssembler) (packet : Bytes) (sequence : Nat) :
    SectionAssembler × Option CompletedSection :=
  match packetHeader packet with
  | none => (self, none)
  | some header => if header.pid = pid then self.observe header sequence else (self, none)

/-- The assembler after a run of packets, each with its sequence. -/
def after (pid : UInt16) : SectionAssembler → List (Nat × Bytes) → SectionAssembler
  | self, [] => self
  | self, (sequence, packet) :: rest => after pid (self.observePacket pid packet sequence).1 rest

/-- What a run of packets yields, packet by packet. -/
def outputs (pid : UInt16) :
    SectionAssembler → List (Nat × Bytes) → List (Option CompletedSection)
  | _, [] => []
  | self, (sequence, packet) :: rest =>
    let (next, output) := self.observePacket pid packet sequence
    output :: outputs pid next rest

/-! ## The assembler with every check of the machine -/

/-- `extend` where the subtraction, the indices and the size of the buffer are checked: `none`
stands for a panic or for a buffer of more than `maxSectionBytes` bytes. -/
def extendChecked (self : SectionAssembler) (payload : Bytes) :
    Option (SectionAssembler × Option CompletedSection) := do
  let remaining ← self.expectedLen.elim (some maxSectionBytes) fun expected =>
    if self.bytes.length ≤ expected then some (expected - self.bytes.length) else none
  let bytes := self.bytes ++ payload.take remaining
  if maxSectionBytes < bytes.length then none
  else if self.expectedLen = none ∧ 3 ≤ bytes.length then
    let high ← bytes[1]?
    let low ← bytes[2]?
    let expected := 3 + lengthField high low
    if 4 ≤ expected ∧ expected ≤ maxSectionBytes then
      some (finish { self with bytes := bytes.take expected, expectedLen := some expected })
    else some (clear, none)
  else some (finish { self with bytes })

/-- `observe` with the slice `rest[start..]` and the counter's `previous + 1` checked too. -/
def observeChecked (self : SectionAssembler) (header : PacketHeader) (sequence : Nat) :
    Option (SectionAssembler × Option CompletedSection) :=
  if header.payloadUnitStart then
    match header.payload with
    | [] => some (clear, none)
    | pointer :: rest =>
      let start := pointer.toNat
      if start > rest.length then some (clear, none)
      else if rest.length < start then none
      else
        extendChecked { clear with
          startSequence := some sequence
          lastContinuityCounter := some header.continuityCounter } (rest.drop start)
  else
    match self.startSequence with
    | none => some (self, none)
    | some _ =>
      if self.lastContinuityCounter.any fun previous => 2 ^ 8 ≤ previous.toNat + 1 then none
      else if self.lastContinuityCounter.all fun previous =>
          (previous + 1) &&& 0x0f ≠ header.continuityCounter then some (clear, none)
      else
        extendChecked { self with lastContinuityCounter := some header.continuityCounter }
          header.payload

def observePacketChecked (pid : UInt16) (self : SectionAssembler) (packet : Bytes)
    (sequence : Nat) : Option (SectionAssembler × Option CompletedSection) :=
  match packetHeader packet with
  | none => some (self, none)
  | some header =>
    if header.pid = pid then self.observeChecked header sequence else some (self, none)

/-! ## The buffer between calls -/

/-- Before the length is known there are fewer than three bytes, afterwards fewer than
announced. -/
structure Bounded (state : SectionAssembler) : Prop where
  short : state.expectedLen = none → state.bytes.length < 3
  expected : ∀ expected, state.expectedLen = some expected →
    state.bytes.length < expected ∧ expected ≤ maxSectionBytes
  counter : ∀ previous, state.lastContinuityCounter = some previous → previous < 0x10

theorem bounded_clear : Bounded clear where
  short _ := by decide
  expected expected h := by cases h
  counter previous h := by cases h

theorem Bounded.length_lt {self : SectionAssembler} (h : Bounded self) :
    self.bytes.length < maxSectionBytes := by
  cases hexpected : self.expectedLen with
  | none => exact (h.short hexpected).trans (by decide)
  | some expected =>
    have := h.expected expected hexpected
    omega

theorem Bounded.retarget {self : SectionAssembler} (h : Bounded self) {counter : UInt8}
    (hcounter : counter < 0x10) (start : Option Nat) :
    Bounded { self with startSequence := start, lastContinuityCounter := some counter } where
  short := h.short
  expected := h.expected
  counter previous hprevious := by
    cases hprevious
    exact hcounter

theorem bounded_finish {self : SectionAssembler} {start : Nat}
    (hstart : self.startSequence = some start)
    (hcounter : ∀ previous, self.lastContinuityCounter = some previous → previous < 0x10)
    (hshort : self.expectedLen = none → self.bytes.length < 3)
    (hmax : ∀ expected, self.expectedLen = some expected → expected ≤ maxSectionBytes) :
    Bounded self.finish.1 := by
  unfold finish
  cases hexpected : self.expectedLen with
  | none => exact ⟨hshort, fun expected h => by simp [hexpected] at h, hcounter⟩
  | some expected =>
    simp only [hstart]
    split
    · rename_i hless
      refine ⟨fun h => by simp [hexpected] at h, fun other hother => ?_, hcounter⟩
      rw [hexpected] at hother
      cases hother
      exact ⟨hless, hmax expected hexpected⟩
    · exact bounded_clear

/-- One payload: the checks never fail and the buffer stays bounded. -/
theorem extendChecked_eq {self : SectionAssembler} {start : Nat} {payload : Bytes}
    (h : Bounded self) (hstart : self.startSequence = some start)
    (hsize : payload.length ≤ mpegTsPacketSize) :
    self.extendChecked payload = some (self.extend payload) ∧ Bounded (self.extend payload).1 := by
  have hpacket : mpegTsPacketSize = 188 := rfl
  have hmax : maxSectionBytes = 1024 := rfl
  cases hexpected : self.expectedLen with
  | none =>
    have hshort := h.short hexpected
    have htake : payload.take maxSectionBytes = payload :=
      List.take_of_length_le (by omega)
    have hroom : ¬ maxSectionBytes < (self.bytes ++ payload).length := by
      rw [List.length_append]
      omega
    simp only [extendChecked, extend, hexpected, Option.elim_none, Option.bind_eq_bind,
      Option.bind_some, htake, if_neg hroom, true_and]
    by_cases hthree : 3 ≤ (self.bytes ++ payload).length
    · have hhigh : (self.bytes ++ payload)[1]? = some (self.bytes ++ payload)[1]! := by
        rw [getElem!_pos _ 1 (by omega), List.getElem?_eq_getElem (by omega)]
      have hlow : (self.bytes ++ payload)[2]? = some (self.bytes ++ payload)[2]! := by
        rw [getElem!_pos _ 2 (by omega), List.getElem?_eq_getElem (by omega)]
      simp only [if_pos hthree, hhigh, hlow, Option.bind_some]
      split
      · rename_i hrange
        refine ⟨rfl, bounded_finish hstart h.counter (by simp) fun expected hlen => ?_⟩
        cases hlen
        exact hrange.2
      · exact ⟨rfl, bounded_clear⟩
    · simp only [if_neg hthree]
      exact ⟨by simp, bounded_finish hstart h.counter (fun _ => by simpa using hthree)
        fun expected hlen => by simp at hlen⟩
  | some expected =>
    obtain ⟨hless, hlimit⟩ := h.expected expected hexpected
    have hroom : ¬ maxSectionBytes <
        (self.bytes ++ payload.take (expected - self.bytes.length)).length := by
      rw [List.length_append, List.length_take]
      omega
    simp only [extendChecked, extend, hexpected, Option.elim_some, if_pos hless.le,
      Option.bind_eq_bind, Option.bind_some, if_neg hroom, reduceCtorEq, false_and, if_false]
    refine ⟨by simp, bounded_finish hstart h.counter (by simp) fun other hlen => ?_⟩
    cases hlen
    exact hlimit

theorem counter_lt_sixteen (byte : UInt8) : byte &&& 0x0f < 0x10 := by
  rw [UInt8.lt_iff_toNat_lt, UInt8.toNat_and]
  exact Nat.lt_succ_of_le Nat.and_le_right

theorem continuityCounter_lt {packet : Bytes} {header : PacketHeader}
    (h : packetHeader packet = some header) : header.continuityCounter < 0x10 := by
  unfold packetHeader at h
  dsimp only at h
  split_ifs at h
  all_goals
    cases h
    exact counter_lt_sixteen _

/-- One packet of the assembler's PID. -/
theorem observeChecked_eq {self : SectionAssembler} {packet : Bytes} {header : PacketHeader}
    (h : Bounded self) (hhead : packetHeader packet = some header) (sequence : Nat) :
    self.observeChecked header sequence = some (self.observe header sequence) ∧
      Bounded (self.observe header sequence).1 := by
  have hsize := length_payload_le hhead
  have hcounter := continuityCounter_lt hhead
  unfold observeChecked observe
  split
  · cases hpayload : header.payload with
    | nil => exact ⟨rfl, bounded_clear⟩
    | cons pointer rest =>
      simp only
      split
      · exact ⟨rfl, bounded_clear⟩
      · rename_i hpointer
        refine extendChecked_eq (bounded_clear.retarget hcounter _) rfl ?_
        rw [hpayload, List.length_cons] at hsize
        rw [List.length_drop]
        omega
  · cases hstart : self.startSequence with
    | none => exact ⟨rfl, h⟩
    | some start =>
      have hprevious : ¬ (self.lastContinuityCounter.any fun previous =>
          decide (2 ^ 8 ≤ previous.toNat + 1)) = true := by
        rw [Option.any_eq_true]
        rintro ⟨previous, hsome, hlarge⟩
        have := UInt8.lt_iff_toNat_lt.mp (h.counter previous hsome)
        have hsixteen : (0x10 : UInt8).toNat = 16 := rfl
        have := of_decide_eq_true hlarge
        omega
      simp only
      rw [if_neg hprevious]
      split
      · exact ⟨rfl, bounded_clear⟩
      · exact extendChecked_eq (h.retarget hcounter (some start)) rfl hsize

theorem Bounded.observePacketChecked_eq {self : SectionAssembler} (h : Bounded self) (pid : UInt16)
    (packet : Bytes) (sequence : Nat) :
    self.observePacketChecked pid packet sequence = some (self.observePacket pid packet sequence) ∧
      Bounded (self.observePacket pid packet sequence).1 := by
  unfold observePacketChecked observePacket
  cases hhead : packetHeader packet with
  | none => exact ⟨rfl, h⟩
  | some header =>
    simp only
    split
    · exact observeChecked_eq h hhead sequence
    · exact ⟨rfl, h⟩

theorem bounded_after (pid : UInt16) {self : SectionAssembler} (h : Bounded self)
    (packets : List (Nat × Bytes)) : Bounded (self.after pid packets) := by
  induction packets generalizing self with
  | nil => exact h
  | cons packet rest ih => exact ih (h.observePacketChecked_eq pid packet.2 packet.1).2

/-! ## Following one section -/

/-- The state after `data`, a proper beginning of a section of `length` bytes. -/
def following (length start : Nat) (counter : UInt8) (data : Bytes) : SectionAssembler where
  bytes := data
  expectedLen := if data.length < 3 then none else some length
  startSequence := some start
  lastContinuityCounter := some counter

/-- More bytes of a consistent section, possibly with stuffing behind it. -/
theorem extend_following {sect data payload : Bytes} {start : Nat} {counter : UInt8}
    (hconsistent : announcedLength sect = sect.length) (hmin : 4 ≤ sect.length)
    (hmax : sect.length ≤ maxSectionBytes) (hless : data.length < sect.length)
    (hread : data ++ payload = sect.take (data ++ payload).length ∨
      sect = (data ++ payload).take sect.length)
    (hsize : payload.length ≤ maxSectionBytes) :
    (following sect.length start counter data).extend payload =
      if (data ++ payload).length < sect.length then
        (following sect.length start counter (data ++ payload), none)
      else (clear, some { bytes := sect, startSequence := start }) := by
  have hannounced : 3 ≤ (data ++ payload).length →
      3 + lengthField (data ++ payload)[1]! (data ++ payload)[2]! = sect.length := by
    intro hthree
    rw [← hconsistent]
    change announcedLength (data ++ payload) = announcedLength sect
    rcases hread with h | h
    · conv_rhs => rw [← List.take_append_drop (data ++ payload).length sect, ← h]
      exact (announcedLength_append hthree).symm
    · rw [h]
      conv_lhs => rw [← List.take_append_drop sect.length (data ++ payload)]
      exact announcedLength_append (by rw [← h]; omega)
  have hwhole : ¬ (data ++ payload).length < sect.length →
      (data ++ payload).take sect.length = sect := by
    intro hfull
    rcases hread with h | h
    · have hlen : (data ++ payload).length = sect.length := by
        have := congrArg List.length h
        rw [List.length_take] at this
        omega
      rw [List.take_of_length_le hlen.le, h, hlen, List.take_length]
    · exact h.symm
  unfold extend following
  by_cases hshort : data.length < 3
  · simp only [if_pos hshort, Option.elim_none, List.take_of_length_le hsize, true_and]
    by_cases hthree : 3 ≤ (data ++ payload).length
    · rw [if_pos hthree, hannounced hthree, if_pos ⟨hmin, hmax⟩]
      by_cases hfull : (data ++ payload).length < sect.length
      · rw [if_pos hfull, List.take_of_length_le hfull.le, if_neg (by omega)]
        simp only [finish, if_pos hfull]
      · rw [if_neg hfull, hwhole hfull]
        simp [finish]
    · rw [if_neg hthree, if_pos (by omega), if_pos (by omega)]
      simp [finish]
  · have hgrown : ¬ (data ++ payload).length < 3 := by
      rw [List.length_append]
      omega
    simp only [if_neg hshort, if_neg hgrown, Option.elim_some, reduceCtorEq, false_and, if_false]
    by_cases hfull : (data ++ payload).length < sect.length
    · have hroom : payload.length ≤ sect.length - data.length := by
        rw [List.length_append] at hfull
        omega
      simp only [List.take_of_length_le hroom, finish, if_pos hfull]
    · have hfill : data ++ payload.take (sect.length - data.length) = sect := by
        have := hwhole hfull
        rwa [List.take_append, List.take_of_length_le hless.le] at this
      rw [if_neg hfull, hfill]
      simp [finish]

end SectionAssembler

/-! ## Carriage of a section -/

/-- The bytes after the pointer field of the first packet and all later payloads. -/
def unitBytes : List TransportPacket → Bytes
  | [] => []
  | first :: rest =>
    first.payload.drop (1 + first.payload[0]!.toNat) ++ rest.flatMap TransportPacket.payload

/-- The packets carry `sect` on `pid`: the first one begins the unit and holds the first byte
of the section, the others continue it with consecutive counters. -/
structure CarriesSection (pid : UInt16) (sect : Bytes) (packets : List TransportPacket) :
    Prop where
  samePid : ∀ packet ∈ packets, packet.pid = pid
  unitStart : ∀ first ∈ packets.head?, first.payloadUnitStart = true ∧
    1 + first.payload[0]!.toNat < first.payload.length
  continued : ∀ packet ∈ packets.tail, packet.payloadUnitStart = false
  counters : packets.IsChain fun packet next =>
    next.continuityCounter.toNat = (packet.continuityCounter.toNat + 1) % 16
  carried : sect <+: unitBytes packets

/-- A section whose length field counts its bytes, within the limits of the table syntax. -/
structure Consistent (sect : Bytes) : Prop where
  min : 4 ≤ sect.length
  max : sect.length ≤ maxSectionBytes
  length : announcedLength sect = sect.length

/-- The packet at `index` completes the section: the packets before it do not hold all of it. -/
def completes (sect : Bytes) (packets : List TransportPacket) (index : Nat) : Bool :=
  (unitBytes (packets.take index)).length < sect.length ∧
    sect.length ≤ (unitBytes (packets.take (index + 1))).length

theorem unitBytes_append (seen : List TransportPacket) (hseen : seen ≠ [])
    (more : List TransportPacket) :
    unitBytes (seen ++ more) = unitBytes seen ++ more.flatMap TransportPacket.payload := by
  cases seen with
  | nil => exact absurd rfl hseen
  | cons first rest => simp [unitBytes, List.flatMap_append]

theorem next_counter {previous counter : UInt8}
    (h : counter.toNat = (previous.toNat + 1) % 16) : (previous + 1) &&& 0x0f = counter := by
  apply UInt8.toNat_inj.mp
  rw [h, UInt8.toNat_and, UInt8.toNat_add]
  change (previous.toNat + 1) % 256 &&& (2 ^ 4 - 1) = _
  rw [Nat.and_two_pow_sub_one_eq_mod]
  omega

namespace SectionAssembler

theorem observePacket_encode {pid : UInt16} {self : SectionAssembler} {packet : TransportPacket}
    (hpid : packet.pid = pid) (sequence : Nat) :
    self.observePacket pid packet.encode sequence = self.observe
      { pid := packet.pid
        payloadUnitStart := packet.payloadUnitStart
        continuityCounter := packet.continuityCounter
        payload := packet.payload } sequence := by
  unfold observePacket
  simp [packet.packetHeader_encode, hpid]

/-- The state once the packets `seen` of a carriage have been observed. -/
def behind (sect : Bytes) (start : Nat) (seen : List TransportPacket) (counter : UInt8) :
    SectionAssembler :=
  if (unitBytes seen).length < sect.length then
    following sect.length start counter (unitBytes seen)
  else clear

/-- The section comes out when `packet` completes it. -/
def due (sect : Bytes) (start : Nat) (seen : List TransportPacket) (packet : TransportPacket) :
    Option CompletedSection :=
  if (unitBytes seen).length < sect.length ∧
      sect.length ≤ (unitBytes (seen ++ [packet])).length then
    some { bytes := sect, startSequence := start }
  else none

/-- Two beginnings of the same bytes. -/
theorem prefix_cases {sect data whole : Bytes} (hsect : sect <+: whole) (hdata : data <+: whole) :
    data = sect.take data.length ∨ sect = data.take sect.length := by
  rcases List.prefix_or_prefix_of_prefix hdata hsect with h | h
  · exact .inl (List.prefix_iff_eq_take.mp h)
  · exact .inr (List.prefix_iff_eq_take.mp h)

theorem extend_carried {sect : Bytes} (data : Bytes) {payload whole : Bytes} {start : Nat}
    {counter : UInt8} (hsect : Consistent sect) (hcarried : sect <+: whole) (hless : data.length < sect.length)
    (hdata : data ++ payload <+: whole) (hsize : payload.length ≤ maxSectionBytes) :
    (following sect.length start counter data).extend payload =
      if (data ++ payload).length < sect.length then
        (following sect.length start counter (data ++ payload), none)
      else (clear, some { bytes := sect, startSequence := start }) :=
  extend_following hsect.length hsect.min hsect.max hless (prefix_cases hcarried hdata) hsize

theorem observe_continuation {self : SectionAssembler} {header : PacketHeader}
    {sequence start : Nat} {counter : UInt8} (hstart : self.startSequence = some start)
    (hlast : self.lastContinuityCounter = some counter) (hunit : header.payloadUnitStart = false)
    (hnext : (counter + 1) &&& 0x0f = header.continuityCounter) :
    self.observe header sequence =
      { self with lastContinuityCounter := some header.continuityCounter }.extend
        header.payload := by
  simp [observe, hstart, hlast, hunit, hnext]

theorem observe_idle {header : PacketHeader} {sequence : Nat}
    (hunit : header.payloadUnitStart = false) : clear.observe header sequence = (clear, none) := by
  simp [observe, hunit, clear]

/-- One more packet of the carriage. -/
theorem observe_continued {pid : UInt16} {sect : Bytes} {start sequence : Nat}
    {seen : List TransportPacket} {packet : TransportPacket} {counter : UInt8}
    (hsect : Consistent sect) (hseen : seen ≠ []) {whole : Bytes} (hcarried : sect <+: whole)
    (hdata : unitBytes (seen ++ [packet]) <+: whole) (hpid : packet.pid = pid)
    (hcontinued : packet.payloadUnitStart = false)
    (hcounter : packet.continuityCounter.toNat = (counter.toNat + 1) % 16) :
    (behind sect start seen counter).observePacket pid packet.encode sequence =
      (behind sect start (seen ++ [packet]) packet.continuityCounter,
        due sect start seen packet) := by
  have hbytes : unitBytes (seen ++ [packet]) = unitBytes seen ++ packet.payload := by
    simp [unitBytes_append _ hseen]
  rw [observePacket_encode hpid]
  unfold behind due
  by_cases hless : (unitBytes seen).length < sect.length
  · rw [if_pos hless, observe_continuation rfl rfl hcontinued (next_counter hcounter)]
    refine (extend_carried _ hsect hcarried hless (hbytes ▸ hdata) (packet.length_payload_le.trans (by decide))).trans ?_
    rw [← hbytes]
    by_cases hmore : (unitBytes (seen ++ [packet])).length < sect.length
    · rw [if_pos hmore, if_pos hmore, if_neg (by omega)]
    · rw [if_neg hmore, if_neg hmore, if_pos (by omega)]
  · have hmore : ¬ (unitBytes (seen ++ [packet])).length < sect.length := by
      rw [hbytes, List.length_append]
      omega
    rw [if_neg hless, if_neg hmore, if_neg (by omega), observe_idle hcontinued]

/-- The first packet of the carriage, whatever the assembler held before. -/
theorem observe_first {pid : UInt16} {sect : Bytes} {sequence : Nat} {self : SectionAssembler}
    {first : TransportPacket} (hsect : Consistent sect) {whole : Bytes} (hcarried : sect <+: whole)
    (hdata : unitBytes [first] <+: whole) (hpid : first.pid = pid)
    (hunit : first.payloadUnitStart = true)
    (hpointer : 1 + first.payload[0]!.toNat < first.payload.length) :
    self.observePacket pid first.encode sequence =
      (behind sect sequence [first] first.continuityCounter, due sect sequence [] first) := by
  have hmin := hsect.min
  have hsize := first.length_payload_le
  cases hpayload : first.payload with
  | nil => simp [hpayload] at hpointer
  | cons pointer rest =>
    rw [hpayload, List.length_cons] at hsize hpointer
    simp only [List.getElem!_cons_zero] at hpointer
    have hbytes : unitBytes [first] = rest.drop pointer.toNat := by
      simp [unitBytes, hpayload, Nat.add_comm 1]
    have hlimit : (rest.drop pointer.toNat).length ≤ maxSectionBytes := by
      rw [List.length_drop]
      have : maxSectionBytes = 1024 := rfl
      omega
    rw [observePacket_encode hpid]
    have hobserve : self.observe
        { pid := first.pid, payloadUnitStart := first.payloadUnitStart,
          continuityCounter := first.continuityCounter, payload := first.payload } sequence =
        (following sect.length sequence first.continuityCounter []).extend
          (rest.drop pointer.toNat) := by
      simp only [observe, hunit, if_true, hpayload]
      rw [if_neg (by omega)]
      rfl
    rw [hobserve]
    refine (extend_carried [] hsect hcarried (by simp; omega) ?_ hlimit).trans ?_
    · rw [List.nil_append, ← hbytes]
      exact hdata
    · unfold behind due
      rw [List.nil_append, List.nil_append, ← hbytes]
      by_cases hmore : (unitBytes [first]).length < sect.length
      · rw [if_pos hmore, if_pos hmore, if_neg (by omega)]
      · rw [if_neg hmore, if_neg hmore, if_pos ⟨by simp [unitBytes]; omega, by omega⟩]

/-- The rest of a carriage, packet by packet. -/
theorem outputs_continued {pid : UInt16} {sect : Bytes} (start : Nat) (hsect : Consistent sect)
    (rest : List (Nat × TransportPacket)) (seen : List TransportPacket) (hseen : seen ≠ [])
    {whole : Bytes} (hcarried : sect <+: whole)
    (hwhole : unitBytes (seen ++ rest.map Prod.snd) <+: whole)
    (hpid : ∀ packet ∈ rest.map Prod.snd, packet.pid = pid)
    (hcontinued : ∀ packet ∈ rest.map Prod.snd, packet.payloadUnitStart = false)
    (hcounters : (seen ++ rest.map Prod.snd).IsChain fun packet next =>
      next.continuityCounter.toNat = (packet.continuityCounter.toNat + 1) % 16) :
    (behind sect start seen (seen.getLast hseen).continuityCounter).outputs pid
        (rest.map fun packet => (packet.1, packet.2.encode)) =
      (List.range rest.length).map fun index =>
        if completes sect (seen ++ rest.map Prod.snd) (seen.length + index) then
          some { bytes := sect, startSequence := start }
        else none := by
  induction rest generalizing seen with
  | nil => rfl
  | cons packet rest ih =>
    obtain ⟨sequence, packet⟩ := packet
    simp only [List.map_cons] at hwhole hpid hcontinued hcounters ⊢
    have hsplit : seen ++ packet :: rest.map Prod.snd = (seen ++ [packet]) ++ rest.map Prod.snd :=
      by simp
    have hgrown : seen ++ [packet] ≠ [] := by simp
    have hdata : unitBytes (seen ++ [packet]) <+: whole := by
      rw [hsplit, unitBytes_append _ hgrown] at hwhole
      exact (List.prefix_append _ _).trans hwhole
    have hcounter : packet.continuityCounter.toNat =
        ((seen.getLast hseen).continuityCounter.toNat + 1) % 16 :=
      (List.isChain_append.mp hcounters).2.2 _ (List.getLast_mem_getLast? hseen) _ rfl
    have hlast : ((seen ++ [packet]).getLast hgrown).continuityCounter =
        packet.continuityCounter := by simp
    rw [outputs, observe_continued hsect hseen hcarried hdata (hpid _ (by simp))
      (hcontinued _ (by simp)) hcounter]
    simp only
    rw [← hlast, ih _ hgrown (by rw [← hsplit]; exact hwhole)
      (fun other h => hpid other (by simp [h])) (fun other h => hcontinued other (by simp [h]))
      (by rw [← hsplit]; exact hcounters)]
    rw [List.length_cons, List.range_succ_eq_map, List.map_cons, List.map_map]
    congr 1
    · have htake : (seen ++ packet :: rest.map Prod.snd).take (seen.length + 1) =
          seen ++ [packet] := by simp [List.take_append]
      simp [due, completes, htake]
    · refine List.map_congr_left fun index _ => ?_
      simp only [Function.comp, hsplit, List.length_append, List.length_singleton]
      rw [Nat.add_assoc, Nat.add_comm 1]

end SectionAssembler

/-- **Section reassembly.** A consistent section carried by consecutive packets of its PID comes
out exactly once, with the packet that completes it and the sequence of the first packet. For
any packets at all no check of the assembler fails, and between two calls it holds fewer bytes
than announced. -/
theorem sections_reassembled :
    (∀ (pid : UInt16) (sect : Bytes) (start : Nat) (first : TransportPacket)
      (rest : List (Nat × TransportPacket)) (self : SectionAssembler), Consistent sect →
      CarriesSection pid sect (first :: rest.map Prod.snd) →
      self.outputs pid ((start, first.encode) :: rest.map fun packet =>
          (packet.1, packet.2.encode)) =
        (List.range (rest.length + 1)).map fun index =>
          if completes sect (first :: rest.map Prod.snd) index then
            some { bytes := sect, startSequence := start }
          else none) ∧
    ∀ (pid : UInt16) (packets : List (Nat × Bytes)),
      let state := SectionAssembler.after pid {} packets
      (∀ packet sequence, state.observePacketChecked pid packet sequence =
        some (state.observePacket pid packet sequence)) ∧
      (∀ expected, state.expectedLen = some expected → state.bytes.length < expected) ∧
      state.bytes.length ≤ maxSectionBytes := by
  refine ⟨fun pid sect start first rest self hsect h => ?_, fun pid packets => ?_⟩
  · obtain ⟨hunit, hpointer⟩ := h.unitStart first rfl
    have hdata : unitBytes [first] <+: unitBytes (first :: rest.map Prod.snd) := by
      have := unitBytes_append [first] (by simp) (rest.map Prod.snd)
      exact ⟨_, this.symm⟩
    rw [SectionAssembler.outputs, SectionAssembler.observe_first hsect h.carried hdata
      (h.samePid _ (by simp)) hunit hpointer]
    simp only
    have := SectionAssembler.outputs_continued start hsect rest [first] (by simp)
      h.carried List.prefix_rfl (fun packet hp => h.samePid packet (by simp [hp]))
      (fun packet hp => h.continued packet (by simpa using hp)) h.counters
    rw [List.getLast_singleton] at this
    rw [this, List.range_succ_eq_map, List.map_cons, List.map_map]
    congr 1
    · simp [SectionAssembler.due, completes]
    · refine List.map_congr_left fun index _ => ?_
      simp [Function.comp, Nat.add_comm]
  · have hbounded := SectionAssembler.bounded_after pid SectionAssembler.bounded_clear packets
    exact ⟨fun packet sequence => (hbounded.observePacketChecked_eq pid packet sequence).1,
      fun expected h => (hbounded.expected expected h).1, hbounded.length_lt.le⟩

/-! ## A section whose length field is split -/

def splitSection : Bytes := [0x42, 0xb0, 0x02, 0x01, 0x02]

theorem split_pid : (0x100 : UInt16) < 0x2000 := by decide

theorem split_counter : (0x0f : UInt8) < 0x10 ∧ (0x00 : UInt8) < 0x10 := by decide

/-- The adaptation field leaves three bytes of payload. -/
def splitAdaptation : Bytes := List.replicate 180 0

def splitPayload : Bytes := [0x02, 0x01, 0x02] ++ List.replicate 181 0xff

theorem split_size :
    4 + ((some splitAdaptation).elim 0 fun field => 1 + field.length) +
      [(0 : UInt8), 0x42, 0xb0].length = mpegTsPacketSize ∧
    4 + ((none : Option Bytes).elim 0 fun field => 1 + field.length) + splitPayload.length =
      mpegTsPacketSize := by
  decide +kernel

/-- The first packet holds two bytes of the section. -/
def splitFirst : TransportPacket where
  pid := 0x100
  payloadUnitStart := true
  transportPriority := false
  continuityCounter := 0x0f
  adaptation := some splitAdaptation
  payload := [0, 0x42, 0xb0]
  pid_lt := split_pid
  counter_lt := split_counter.1
  size := split_size.1

def splitSecond : TransportPacket where
  pid := 0x100
  payloadUnitStart := false
  transportPriority := false
  continuityCounter := 0
  adaptation := none
  payload := splitPayload
  pid_lt := split_pid
  counter_lt := split_counter.2
  size := split_size.2

theorem splitSection_consistent : Consistent splitSection :=
  ⟨by decide, by decide, by decide⟩

theorem splitSection_carried :
    CarriesSection 0x100 splitSection [splitFirst, splitSecond] where
  samePid := by simp [splitFirst, splitSecond]
  unitStart first hfirst := by
    cases hfirst
    decide
  continued := by simp [splitSecond]
  counters := by simp [splitFirst, splitSecond]
  carried := ⟨List.replicate 181 0xff, by decide +kernel⟩

theorem sections_reassembled_split :
    SectionAssembler.outputs 0x100 {} [(7, splitFirst.encode), (9, splitSecond.encode)] =
      [none, some { bytes := splitSection, startSequence := 7 }] := by
  have := sections_reassembled.1 0x100 splitSection 7 splitFirst [(9, splitSecond)] {}
    splitSection_consistent splitSection_carried
  exact this.trans (by decide +kernel)

end IptvRelay.Media.Psi
