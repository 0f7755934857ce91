import IptvRelay.Lib.Aligned
import IptvRelay.Media.Psi

/-!
# The packetizer of an HTTP body

Model of `MpegTsPacketizer` in `session.rs`. The body arrives in chunks of any
size; complete packets are checked and handed on, and what is left over waits
for the next chunk.
-/

namespace IptvRelay.Media

open Blocks

inductive PacketizerError where
  | invalidSyncByte (packetIndex : Nat) (actual : UInt8)
  | incompleteTail (bytes : Nat)
  deriving DecidableEq, Repr

structure MpegTsPacketizer where
  pending : Bytes := []
  deriving DecidableEq, Repr

/-- The packet begins with the MPEG-TS sync byte. -/
def Synced (packet : Bytes) : Prop := packet[0]! = 0x47

instance (packet : Bytes) : Decidable (Synced packet) := inferInstanceAs (Decidable (_ = _))

namespace MpegTsPacketizer

/-- The loop of `push` over the completed packets, from the packet with number `packetIndex`. -/
def checkSync (packetIndex : Nat) : List Bytes → Except PacketizerError Unit
  | [] => .ok ()
  | packet :: rest =>
    if ¬ Synced packet then .error (.invalidSyncByte packetIndex packet[0]!)
    else checkSync (packetIndex + 1) rest

/-- One body chunk. On an error the chunk stays pending. -/
def push (self : MpegTsPacketizer) (chunk : Bytes) :
    MpegTsPacketizer × Except PacketizerError Bytes :=
  let pending := self.pending ++ chunk
  let alignedLen := pending.length / mpegTsPacketSize * mpegTsPacketSize
  if alignedLen = 0 then ({ pending }, .ok [])
  else
    match checkSync 0 (chunksExact mpegTsPacketSize (pending.take alignedLen)) with
    | .error error => ({ pending }, .error error)
    | .ok () => ({ pending := pending.drop alignedLen }, .ok (pending.take alignedLen))

def finish (self : MpegTsPacketizer) : Except PacketizerError Unit :=
  if self.pending.isEmpty then .ok () else .error (.incompleteTail self.pending.length)

/-- Push the chunks in turn and put the outputs together; the first error ends it. -/
def pushAll (self : MpegTsPacketizer) :
    List Bytes → Except PacketizerError (Bytes × MpegTsPacketizer)
  | [] => .ok ([], self)
  | chunk :: rest =>
    match self.push chunk with
    | (_, .error error) => .error error
    | (next, .ok out) => (next.pushAll rest).map fun result => (out ++ result.1, result.2)

/-! ## One chunk -/

theorem checkSync_ok {packets : List Bytes} (h : ∀ packet ∈ packets, Synced packet)
    (packetIndex : Nat) : checkSync packetIndex packets = .ok () := by
  induction packets generalizing packetIndex with
  | nil => rfl
  | cons packet rest ih =>
    rw [checkSync, if_neg (not_not.mpr (h packet List.mem_cons_self))]
    exact ih (fun p hp => h p (List.mem_cons_of_mem _ hp)) _

theorem checkSync_error {good : List Bytes} {bad : Bytes} (hgood : ∀ packet ∈ good, Synced packet)
    (hbad : ¬ Synced bad) (more : List Bytes) (packetIndex : Nat) :
    checkSync packetIndex (good ++ bad :: more) =
      .error (.invalidSyncByte (packetIndex + good.length) bad[0]!) := by
  induction good generalizing packetIndex with
  | nil => exact if_pos hbad
  | cons packet rest ih =>
    rw [List.cons_append, checkSync, if_neg (not_not.mpr (hgood packet List.mem_cons_self)),
      ih (fun p hp => hgood p (List.mem_cons_of_mem _ hp)), List.length_cons]
    congr 2
    omega

theorem chunksExact_aligned (bs : Bytes) :
    chunksExact mpegTsPacketSize (bs.take (bs.length / mpegTsPacketSize * mpegTsPacketSize)) =
      chunksExact mpegTsPacketSize bs :=
  chunksExact_take_aligned (by decide) bs

/-- Every completed packet is synced: the complete packets are handed on. -/
theorem push_ok {self : MpegTsPacketizer} {chunk : Bytes}
    (h : ∀ packet ∈ chunksExact mpegTsPacketSize (self.pending ++ chunk), Synced packet) :
    self.push chunk =
      ({ pending := (self.pending ++ chunk).drop
          (alignedLength mpegTsPacketSize (self.pending ++ chunk)) },
        .ok ((self.pending ++ chunk).take
          (alignedLength mpegTsPacketSize (self.pending ++ chunk)))) := by
  unfold push
  dsimp only
  rw [chunksExact_aligned, checkSync_ok h, alignedLength]
  split
  · rename_i hzero
    rw [hzero, List.drop_zero, List.take_zero]
  · rfl

/-- The first packet that is not synced is reported by its place among the completed packets. -/
theorem push_error {self : MpegTsPacketizer} {chunk : Bytes} {good more : List Bytes} {bad : Bytes}
    (h : chunksExact mpegTsPacketSize (self.pending ++ chunk) = good ++ bad :: more)
    (hgood : ∀ packet ∈ good, Synced packet) (hbad : ¬ Synced bad) :
    (self.push chunk).2 = .error (.invalidSyncByte good.length bad[0]!) := by
  have hne : (self.pending ++ chunk).length / mpegTsPacketSize * mpegTsPacketSize ≠ 0 := by
    intro hzero
    have hlen := length_chunksExact mpegTsPacketSize (self.pending ++ chunk)
    rw [h, List.length_append, List.length_cons] at hlen
    rw [← hlen] at hzero
    simp [mpegTsPacketSize] at hzero
  unfold push
  dsimp only
  rw [if_neg hne, chunksExact_aligned, h, checkSync_error hgood hbad, Nat.zero_add]

/-! ## The whole body -/

/-- Pushing all chunks has the effect of pushing them as one. -/
theorem pushAll_ok {self : MpegTsPacketizer} {chunks : List Bytes}
    (hself : self.pending.length < mpegTsPacketSize)
    (h : ∀ packet ∈ chunksExact mpegTsPacketSize (self.pending ++ chunks.flatten), Synced packet) :
    self.pushAll chunks = .ok
      ((self.pending ++ chunks.flatten).take
        (alignedLength mpegTsPacketSize (self.pending ++ chunks.flatten)),
      { pending := (self.pending ++ chunks.flatten).drop
          (alignedLength mpegTsPacketSize (self.pending ++ chunks.flatten)) }) := by
  have hpos : 0 < mpegTsPacketSize := by decide
  induction chunks generalizing self with
  | nil =>
    rw [List.flatten_nil, List.append_nil, alignedLength_eq_zero hself, List.take_zero,
      List.drop_zero]
    rfl
  | cons chunk rest ih =>
    rw [List.flatten_cons, ← List.append_assoc] at h ⊢
    have hblocks := chunksExact_handover hpos (self.pending ++ chunk) rest.flatten
    rw [hblocks] at h
    have hpush := push_ok fun packet hp => h packet (List.mem_append_left _ hp)
    have hrest := @ih (self.push chunk).1
      (by rw [hpush]; exact length_drop_aligned_lt hpos _)
      (by rw [hpush]; exact fun packet hp => h packet (List.mem_append_right _ hp))
    rw [hpush] at hrest
    rw [pushAll, hpush]
    dsimp only at hrest ⊢
    rw [hrest, take_handover hpos (self.pending ++ chunk) rest.flatten,
      drop_handover hpos (self.pending ++ chunk) rest.flatten]
    rfl

/-- The chunk that completes the first bad packet is the one whose push fails. -/
theorem pushAll_error {self : MpegTsPacketizer} {chunks : List Bytes} {good more : List Bytes}
    {bad : Bytes} (hself : self.pending.length < mpegTsPacketSize)
    (h : chunksExact mpegTsPacketSize (self.pending ++ chunks.flatten) = good ++ bad :: more)
    (hgood : ∀ packet ∈ good, Synced packet) (hbad : ¬ Synced bad) :
    ∃ before chunk after out next, chunks = before ++ chunk :: after ∧
      self.pushAll before = .ok (out, next) ∧
      (self.pending ++ before.flatten).length < (good.length + 1) * mpegTsPacketSize ∧
      (good.length + 1) * mpegTsPacketSize ≤ (self.pending ++ before.flatten ++ chunk).length ∧
      ∃ later, good = chunksExact mpegTsPacketSize out ++ later ∧
        mpegTsPacketSize ∣ out.length ∧
        (next.push chunk).2 = .error (.invalidSyncByte later.length bad[0]!) := by
  have hpos : 0 < mpegTsPacketSize := by decide
  induction chunks generalizing self good with
  | nil =>
    rw [List.flatten_nil, List.append_nil, chunksExact_eq_nil hself] at h
    simp at h
  | cons chunk rest ih =>
    rw [List.flatten_cons, ← List.append_assoc, chunksExact_handover hpos] at h
    have hcount := length_chunksExact mpegTsPacketSize (self.pending ++ chunk)
    rcases append_eq_split h with ⟨later, hgood', hlater⟩ | ⟨left, hleft⟩
    · -- every packet of this chunk is synced: the bad one is completed later
      have hsynced : ∀ packet ∈ chunksExact mpegTsPacketSize (self.pending ++ chunk),
          Synced packet := fun packet hp => hgood packet (hgood' ▸ List.mem_append_left _ hp)
      have hpush := push_ok hsynced
      obtain ⟨before, last, after, out, next, rfl, hall, hshort, hlong, later', hsplit, hdvd,
        herr⟩ := @ih (self.push chunk).1 later
          (by rw [hpush]; exact length_drop_aligned_lt hpos _) (by rw [hpush]; exact hlater)
          (fun packet hp => hgood packet (hgood' ▸ List.mem_append_right _ hp))
      have hlen : good.length =
          (self.pending ++ chunk).length / mpegTsPacketSize + later.length := by
        rw [hgood', List.length_append, hcount]
      have hdrop : ((self.push chunk).1.pending).length +
          (self.pending ++ chunk).length / mpegTsPacketSize * mpegTsPacketSize =
            (self.pending ++ chunk).length := by
        rw [hpush, List.length_drop]
        exact Nat.sub_add_cancel (alignedLength_le _ _)
      have hmul : (good.length + 1) * mpegTsPacketSize =
          (self.pending ++ chunk).length / mpegTsPacketSize * mpegTsPacketSize +
            (later.length + 1) * mpegTsPacketSize := by
        rw [hlen, Nat.add_assoc, Nat.add_mul]
      refine ⟨chunk :: before, last, after, (self.pending ++ chunk).take
        (alignedLength mpegTsPacketSize (self.pending ++ chunk)) ++ out, next, rfl, ?_, ?_, ?_,
        later', ?_, ?_, herr⟩
      · rw [pushAll, hpush]
        rw [hpush] at hall
        dsimp only at hall ⊢
        rw [hall]
        rfl
      · simp only [List.flatten_cons, List.length_append] at hshort hdrop hmul ⊢
        omega
      · simp only [List.flatten_cons, List.length_append] at hlong hdrop hmul ⊢
        omega
      · rw [chunksExact_append hpos (by rw [length_take_aligned]; exact dvd_alignedLength _ _),
          chunksExact_take_aligned hpos, List.append_assoc, ← hsplit, hgood']
      · rw [List.length_append, length_take_aligned]
        exact Nat.dvd_add (dvd_alignedLength _ _) hdvd
    · -- the bad packet is completed by this chunk
      have hfull : good.length + 1 ≤ (self.pending ++ chunk).length / mpegTsPacketSize := by
        rw [← hcount, hleft, List.length_append, List.length_cons]
        omega
      refine ⟨[], chunk, rest, [], self, rfl, rfl, ?_, ?_, good, rfl, Nat.dvd_zero _,
        push_error hleft hgood hbad⟩
      · simp only [List.flatten_nil, List.append_nil]
        exact hself.trans_le (Nat.le_mul_of_pos_left _ (Nat.succ_pos _))
      · rw [List.flatten_nil, List.append_nil]
        calc (good.length + 1) * mpegTsPacketSize
            ≤ (self.pending ++ chunk).length / mpegTsPacketSize * mpegTsPacketSize :=
              Nat.mul_le_mul_right _ hfull
          _ ≤ (self.pending ++ chunk).length := Nat.div_mul_le_self _ _

/-- What a successful push hands on and keeps. -/
theorem push_eq_ok {self next : MpegTsPacketizer} {chunk out : Bytes}
    (h : self.push chunk = (next, .ok out)) :
    out = (self.pending ++ chunk).take (alignedLength mpegTsPacketSize (self.pending ++ chunk)) ∧
      next.pending =
        (self.pending ++ chunk).drop (alignedLength mpegTsPacketSize (self.pending ++ chunk)) := by
  unfold push at h
  dsimp only at h
  rw [alignedLength]
  split at h
  · rename_i hzero
    cases h
    rw [hzero]
    exact ⟨rfl, rfl⟩
  · split at h
    · cases h
    · cases h
      exact ⟨rfl, rfl⟩

theorem pushAll_eq_ok {self next : MpegTsPacketizer} {chunks : List Bytes} {out : Bytes}
    (hself : self.pending.length < mpegTsPacketSize) (h : self.pushAll chunks = .ok (out, next)) :
    out = (self.pending ++ chunks.flatten).take
      (alignedLength mpegTsPacketSize (self.pending ++ chunks.flatten)) := by
  have hpos : 0 < mpegTsPacketSize := by decide
  induction chunks generalizing self out with
  | nil =>
    cases h
    rw [List.flatten_nil, List.append_nil, alignedLength_eq_zero hself, List.take_zero]
  | cons chunk rest ih =>
    rw [pushAll] at h
    split at h
    · cases h
    · rename_i mid first hpush
      cases hrest : mid.pushAll rest with
      | error error =>
        rw [hrest] at h
        cases h
      | ok result =>
        rw [hrest] at h
        cases h
        obtain ⟨hfirst, hmid⟩ := push_eq_ok hpush
        have hlater := ih (by rw [hmid]; exact length_drop_aligned_lt hpos _) hrest
        rw [List.flatten_cons, ← List.append_assoc, take_handover hpos, hfirst, hlater, hmid]

/-! ## Independence of the chunking -/

theorem finish_ok_iff (self : MpegTsPacketizer) : self.finish = .ok () ↔ self.pending = [] := by
  unfold finish
  split
  · rename_i h
    exact iff_of_true rfl (List.isEmpty_iff.mp h)
  · rename_i h
    exact iff_of_false (by simp) fun hnil => h (List.isEmpty_iff.mpr hnil)

/-- However the body is cut: when all its packets are synced, the outputs are its longest aligned
prefix and the rest is pending. Otherwise the push that completes the first bad packet fails with
the place of that packet behind the outputs, and these are a prefix of the good packets. -/
theorem push_chunk_independent (chunks : List Bytes) :
    ((∀ packet ∈ chunksExact mpegTsPacketSize chunks.flatten, Synced packet) →
      ∃ next, pushAll {} chunks = .ok
          (chunks.flatten.take (chunks.flatten.length / mpegTsPacketSize * mpegTsPacketSize),
            next) ∧
        next.pending =
          chunks.flatten.drop (chunks.flatten.length / mpegTsPacketSize * mpegTsPacketSize) ∧
        (next.finish = .ok () ↔ mpegTsPacketSize ∣ chunks.flatten.length)) ∧
      ∀ good bad more, chunksExact mpegTsPacketSize chunks.flatten = good ++ bad :: more →
        (∀ packet ∈ good, Synced packet) → ¬ Synced bad →
        ∃ before chunk after out next, chunks = before ++ chunk :: after ∧
          pushAll {} before = .ok (out, next) ∧
          before.flatten.length < (good.length + 1) * mpegTsPacketSize ∧
          (good.length + 1) * mpegTsPacketSize ≤ (before.flatten ++ chunk).length ∧
          out <+: good.flatten ∧
          (next.push chunk).2 =
            .error (.invalidSyncByte (good.length - out.length / mpegTsPacketSize) bad[0]!) := by
  have hpos : 0 < mpegTsPacketSize := by decide
  constructor
  · intro hsynced
    refine ⟨_, @pushAll_ok {} chunks (by decide) (by simpa using hsynced), rfl, ?_⟩
    rw [finish_ok_iff]
    simp only [List.nil_append]
    rw [List.drop_eq_nil_iff, Nat.dvd_iff_mod_eq_zero]
    have hmod := Nat.div_add_mod' chunks.flatten.length mpegTsPacketSize
    rw [alignedLength]
    omega
  · intro good bad more hsplit hgood hbad
    obtain ⟨before, chunk, after, out, next, hchunks, hall, hshort, hlong, later, hlater, hdvd,
      herr⟩ := @pushAll_error {} chunks good more bad (by decide) (by simpa using hsplit)
        hgood hbad
    have hcount : good.length = out.length / mpegTsPacketSize + later.length := by
      rw [hlater, List.length_append, length_chunksExact]
    refine ⟨before, chunk, after, out, next, hchunks, hall, by simpa using hshort,
      by simpa using hlong, ?_, ?_⟩
    · rw [hlater, List.flatten_append, flatten_chunksExact hdvd]
      exact List.prefix_append _ _
    · rw [herr, hcount, Nat.add_sub_cancel_left]

end MpegTsPacketizer

end IptvRelay.Media
