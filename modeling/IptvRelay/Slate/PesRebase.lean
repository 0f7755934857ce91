import IptvRelay.Slate.PesPayload
import IptvRelay.Slate.Timeline

/-!
# Timestamps of spliced PES packets

A PES packet is cut into transport packets, the first of which begins it. The muxer rebases the
timestamps it finds in that packet. The PES packet that a receiver puts together again has its
timestamps on the timeline of the output exactly when the header did not straddle the cut.
-/

namespace IptvRelay.Slate

open Media Psi Muxing

/-! ## PES packets -/

def hasPtsField (pes : Bytes) : Bool := (pesFlags pes).any hasPts

def hasDtsField (pes : Bytes) : Bool := (pesFlags pes).any hasDts

/-- The header data is as long as its fields and lies in the packet. -/
def LegalPes (pes : Bytes) : Prop :=
  ∀ flags, pesFlags pes = some flags → flags ≠ 0x01 ∧
    (hasPts flags = true → 5 ≤ pes[8]!.toNat) ∧ (hasDts flags = true → 10 ≤ pes[8]!.toNat) ∧
    9 + pes[8]!.toNat ≤ pes.length

/-- `out` is `pes` with its PTS and DTS moved by `offset` modulo `2 ^ 33`. In the five bytes of a
field only the timestamp and the marker bits may change. -/
structure PesRebased (offset : UInt64) (pes out : Bytes) : Prop where
  length : out.length = pes.length
  pts : hasPtsField pes = true → (readTimestamp (out.drop 9)).toNat =
    ((readTimestamp (pes.drop 9)).toNat + offset.toNat) % 2 ^ 33
  dts : hasDtsField pes = true → (readTimestamp (out.drop 14)).toNat =
    ((readTimestamp (pes.drop 14)).toNat + offset.toNat) % 2 ^ 33
  ptsPrefix : hasPtsField pes = true → out[9]! &&& (0xf0 : UInt8) = pes[9]! &&& (0xf0 : UInt8)
  dtsPrefix : hasDtsField pes = true → out[14]! &&& (0xf0 : UInt8) = pes[14]! &&& (0xf0 : UInt8)
  others : ∀ j, (hasPtsField pes = true → j < 9 ∨ 14 ≤ j) →
    (hasDtsField pes = true → j < 14 ∨ 19 ≤ j) → out[j]! = pes[j]!

/-- The fields that the PES packet has lie in its first `length` bytes. -/
def TimestampsWithin (pes : Bytes) (length : Nat) : Prop :=
  (hasPtsField pes = true → 14 ≤ length) ∧ (hasDtsField pes = true → 19 ≤ length)

/-! ## One field -/

theorem toNat_rebase (offset value : UInt64) :
    (rebase offset value).toNat = (value.toNat + offset.toNat) % 2 ^ 33 := by
  rw [rebase, toNat_mask, UInt64.toNat_add]
  omega

theorem timestamp_prefix (keep top : UInt8) :
    ((keep &&& 0xf0) ||| (top &&& 0x0e) ||| 0x01) &&& (0xf0 : UInt8) = keep &&& (0xf0 : UInt8) := by
  apply UInt8.eq_of_toBitVec_eq
  simp only [UInt8.toBitVec_and, UInt8.toBitVec_or]
  ext i hi
  interval_cases i <;> simp

theorem writeTimestamp_prefix {packet : Bytes} {start : Nat} (h : start < packet.length)
    (value : UInt64) :
    (writeTimestamp packet start value)[start]! &&& (0xf0 : UInt8) =
      packet[start]! &&& (0xf0 : UInt8) := by
  have hbyte : (writeTimestamp packet start value)[start]! =
      (packet[start]! &&& (0xf0 : UInt8)) ||| (lowByte (value >>> 29) &&& (0x0e : UInt8)) |||
        0x01 := by
    unfold writeTimestamp
    rw [getElem!_set_ne _ _ (by omega), getElem!_set_ne _ _ (by omega),
      getElem!_set_ne _ _ (by omega), getElem!_set_ne _ _ (by omega), getElem!_set_self h]
  rw [hbyte, timestamp_prefix]

/-- Rebase the field at `place`, or not. -/
def rebaseWhen (write : Bool) (place : Nat) (offset : UInt64) (bytes : Bytes) : Bytes :=
  if write then writeTimestamp bytes place (rebase offset (readTimestamp (bytes.drop place)))
  else bytes

section

variable (write : Bool) (place : Nat) (offset : UInt64) (bytes : Bytes)

theorem length_rebaseWhen : (rebaseWhen write place offset bytes).length = bytes.length := by
  unfold rebaseWhen
  split
  · exact length_writeTimestamp _ _ _
  · rfl

theorem rebaseWhen_other {j : Nat} (hj : j < place ∨ place + 5 ≤ j) :
    (rebaseWhen write place offset bytes)[j]! = bytes[j]! := by
  unfold rebaseWhen
  split
  · exact writeTimestamp_other _ _ hj
  · rfl

theorem rebaseWhen_elsewhere {other : Nat} (h : other + 5 ≤ place ∨ place + 5 ≤ other) :
    readTimestamp ((rebaseWhen write place offset bytes).drop other) =
      readTimestamp (bytes.drop other) :=
  readTimestamp_congr fun j _ _ => rebaseWhen_other write place offset bytes (by omega)

theorem rebaseWhen_within (h : place < bytes.length) :
    (rebaseWhen write place offset bytes)[place]! &&& (0xf0 : UInt8) =
      bytes[place]! &&& (0xf0 : UInt8) := by
  unfold rebaseWhen
  split
  · exact writeTimestamp_prefix h _
  · rfl

/-- The field is moved if it was rebased, or if the offset is nothing. -/
theorem rebaseWhen_read (h : place + 5 ≤ bytes.length) :
    (readTimestamp ((rebaseWhen write place offset bytes).drop place)).toNat =
        ((readTimestamp (bytes.drop place)).toNat + offset.toNat) % 2 ^ 33 ↔
      write = true ∨ offset.toNat % 2 ^ 33 = 0 := by
  have hreading := isReading_readTimestamp (bytes.drop place)
  unfold IsReading at hreading
  cases write with
  | true =>
    rw [rebaseWhen, if_pos rfl, readTimestamp_writeTimestamp (rebase_lt _ _) h, toNat_rebase]
    simp
  | false =>
    rw [rebaseWhen, if_neg Bool.false_ne_true]
    simp only [Bool.false_eq_true, false_or]
    omega

end

/-! ## The whole packet -/

theorem rebaseAt_append (present : Bool) (place : Nat) (offset : UInt64) (first rest : Bytes) :
    rebaseAt present place offset first ++ rest =
      rebaseWhen (present && decide (place + 5 ≤ first.length)) place offset (first ++ rest) := by
  unfold rebaseAt rebaseWhen
  split
  · rename_i hpresent
    have hfits : place + 5 ≤ first.length :=
      of_decide_eq_true (Bool.and_eq_true_iff.mp hpresent).2
    have hread : readTimestamp ((first ++ rest).drop place) = readTimestamp (first.drop place) := by
      refine readTimestamp_congr fun j _ hj => ?_
      simp only [List.getElem!_eq_getElem?_getD]
      rw [List.getElem?_append_left (by omega)]
    have hget : (first ++ rest)[place]! = first[place]! := by
      simp only [List.getElem!_eq_getElem?_getD]
      rw [List.getElem?_append_left (by omega)]
    rw [hread]
    simp only [writeTimestamp, hget]
    rw [List.set_append_left _ _ (by omega), List.set_append_left _ _ (by simp; omega),
      List.set_append_left _ _ (by simp; omega), List.set_append_left _ _ (by simp; omega),
      List.set_append_left _ _ (by simp; omega)]
  · rfl

theorem pesFlags_append {first : Bytes} (rest : Bytes) (h : 9 ≤ first.length) :
    pesFlags (first ++ rest) = pesFlags first := by
  have htake : (first ++ rest).take 3 = first.take 3 := by
    rw [List.take_append_of_le_length (by omega)]
  have hget : ∀ j, j < 9 → (first ++ rest)[j]! = first[j]! := by
    intro j hj
    simp only [List.getElem!_eq_getElem?_getD]
    rw [List.getElem?_append_left (by omega)]
  unfold pesFlags
  rw [htake, hget 3 (by decide), hget 7 (by decide)]
  simp only [List.length_append, Nat.not_lt.mpr h, show ¬ first.length + rest.length < 9 by omega]

/-- What a receiver puts together: a field is rebased if it lies in the first payload. -/
theorem rebaseUnit_append (offset : UInt64) (first rest : Bytes) :
    rebaseUnit offset first ++ rest =
      rebaseWhen (hasDtsField (first ++ rest) && decide (19 ≤ first.length)) 14 offset
        (rebaseWhen (hasPtsField (first ++ rest) && decide (14 ≤ first.length)) 9 offset
          (first ++ rest)) := by
  unfold rebaseUnit hasPtsField hasDtsField
  by_cases hlong : 9 ≤ first.length
  · rw [pesFlags_append rest hlong]
    cases pesFlags first with
    | none => rfl
    | some flags =>
      rw [Option.elim_some, rebaseAt_append, rebaseAt_append, length_rebaseAt]
      rfl
  · have hnone : pesFlags first = none := by
      unfold pesFlags
      rw [if_pos (.inl (by omega))]
    rw [hnone, decide_eq_false (by omega : ¬ 19 ≤ first.length),
      decide_eq_false (by omega : ¬ 14 ≤ first.length)]
    simp [rebaseWhen]

/-- A PES packet comes out rebased exactly if its timestamps lie in its first packet, or the
offset is nothing. -/
theorem pesRebased_iff (offset : UInt64) {first rest : Bytes} (hlegal : LegalPes (first ++ rest)) :
    PesRebased offset (first ++ rest) (rebaseUnit offset first ++ rest) ↔
      TimestampsWithin (first ++ rest) first.length ∨ offset.toNat % 2 ^ 33 = 0 := by
  have hpts : hasPtsField (first ++ rest) = true → 14 ≤ (first ++ rest).length := by
    intro h
    obtain ⟨flags, hflags, hpresent⟩ := Option.any_eq_true .. |>.mp h
    have := hlegal flags hflags
    have := this.2.1 hpresent
    omega
  have hdts : hasDtsField (first ++ rest) = true → 19 ≤ (first ++ rest).length := by
    intro h
    obtain ⟨flags, hflags, hpresent⟩ := Option.any_eq_true .. |>.mp h
    have := hlegal flags hflags
    have := this.2.2.1 hpresent
    omega
  rw [rebaseUnit_append]
  unfold TimestampsWithin
  generalize first ++ rest = pes at hpts hdts ⊢
  generalize hmid : rebaseWhen (hasPtsField pes && decide (14 ≤ first.length)) 9 offset pes = mid
  have hlength : mid.length = pes.length := by rw [← hmid, length_rebaseWhen]
  have hptsRead : hasPtsField pes = true →
      ((readTimestamp ((rebaseWhen (hasDtsField pes && decide (19 ≤ first.length)) 14 offset
          mid).drop 9)).toNat = ((readTimestamp (pes.drop 9)).toNat + offset.toNat) % 2 ^ 33 ↔
        14 ≤ first.length ∨ offset.toNat % 2 ^ 33 = 0) := by
    intro h
    rw [rebaseWhen_elsewhere _ _ _ _ (by omega), ← hmid, rebaseWhen_read _ _ _ _ (hpts h), h]
    simp
  have hdtsRead : hasDtsField pes = true →
      ((readTimestamp ((rebaseWhen (hasDtsField pes && decide (19 ≤ first.length)) 14 offset
          mid).drop 14)).toNat = ((readTimestamp (pes.drop 14)).toNat + offset.toNat) % 2 ^ 33 ↔
        19 ≤ first.length ∨ offset.toNat % 2 ^ 33 = 0) := by
    intro h
    have hsame : readTimestamp (pes.drop 14) = readTimestamp (mid.drop 14) := by
      rw [← hmid, rebaseWhen_elsewhere _ _ _ _ (by omega)]
    rw [hsame, rebaseWhen_read _ _ _ _ (by rw [hlength]; exact hdts h), h]
    simp
  constructor
  · intro h
    by_cases hnothing : offset.toNat % 2 ^ 33 = 0
    · exact .inr hnothing
    · exact .inl ⟨fun hp => ((hptsRead hp).mp (h.pts hp)).resolve_right hnothing,
        fun hd => ((hdtsRead hd).mp (h.dts hd)).resolve_right hnothing⟩
  · intro h
    refine ⟨by rw [length_rebaseWhen, hlength], fun hp => (hptsRead hp).mpr ?_,
      fun hd => (hdtsRead hd).mpr ?_, fun hp => ?_, fun hd => ?_, fun j hp hd => ?_⟩
    · exact h.imp_left fun h => h.1 hp
    · exact h.imp_left fun h => h.2 hd
    · have := hpts hp
      rw [rebaseWhen_other _ _ _ _ (by omega), ← hmid,
        rebaseWhen_within _ _ _ _ (by omega)]
    · have := hdts hd
      rw [rebaseWhen_within _ _ _ _ (by omega), ← hmid, rebaseWhen_other _ _ _ _ (by omega)]
    · have hafter : (rebaseWhen (hasDtsField pes && decide (19 ≤ first.length)) 14 offset mid)[j]! =
          mid[j]! := by
        cases hd' : hasDtsField pes with
        | true => exact rebaseWhen_other _ _ _ _ (hd hd')
        | false => rfl
      rw [hafter, ← hmid]
      cases hp' : hasPtsField pes with
      | true => exact rebaseWhen_other _ _ _ _ (hp hp')
      | false => rfl

/-! ## Runs -/

/-- The packets carry `pes`: the first one begins it, the others continue it. All of them have a
payload flag; packets that are an adaptation field only do not stand between them. -/
structure CarriesPes (first : TransportPacket) (rest : List TransportPacket) (pes : Bytes) :
    Prop where
  unitStart : first.payloadUnitStart = true
  nonempty : first.payload ≠ []
  continued : ∀ packet ∈ rest, packet.payloadUnitStart = false
  carried : first.payload ++ rest.flatMap TransportPacket.payload = pes
  legal : LegalPes pes

/-- The packets of one stream in a stretch of the output, each with its input. -/
def streamWrites (role : Role) (heard : List (Bytes × Emitted)) : List (Bytes × Bytes) :=
  heard.filterMap fun write =>
    match write.2 with
    | .stream other output => if other = role then some (write.1, output) else none
    | _ => none

/-- A stream packet was forwarded with this offset. -/
def ForwardedBy (offset : UInt64) (write : Bytes × Emitted) : Prop :=
  ∀ role output, write.2 = .stream role output →
    ∃ counter, output = forwardedPacket offset role counter write.1

theorem forwardedBy_of_untimed (offset : UInt64) (input : Bytes) {emitted : Emitted}
    (h : emitted.Untimed) : ForwardedBy offset (input, emitted) := by
  rintro role output rfl
  cases h

/-- A running segment forwards with its own offset, which stays. -/
theorem runningPacket_forwarded (s : Muxing) (segment : Segment) (packet : Bytes) :
    (s.runningPacket segment packet).2.offset = segment.offset ∧
      ∃ more, (s.runningPacket segment packet).1.out = s.out ++ more ∧
        ∀ emitted ∈ more, ForwardedBy segment.offset (packet, emitted) := by
  have hannounced : ∀ t, Announces s t → ∃ more, t.out = s.out ++ more ∧
      ∀ emitted ∈ more, ForwardedBy segment.offset (packet, emitted) := by
    intro t h
    obtain ⟨more, hout, huntimed⟩ := h.out
    exact ⟨more, hout, fun emitted hm => forwardedBy_of_untimed _ _ (huntimed emitted hm)⟩
  have hroute : ∀ (mid : Muxing) (running : Segment), Announces s mid →
      running.offset = segment.offset → (mid.route running packet).2.offset = segment.offset ∧
        ∃ more, (mid.route running packet).1.out = s.out ++ more ∧
          ∀ emitted ∈ more, ForwardedBy segment.offset (packet, emitted) := by
    intro mid running hmid hoffset
    unfold route
    dsimp only
    split
    · refine ⟨hoffset, hannounced _ ?_⟩
      split
      · exact hmid.trans ((Announces.writePat mid).trans (Announces.writePmt _))
      · exact hmid
    · split
      · exact ⟨hoffset, hannounced _ hmid⟩
      · split
        · rename_i role _ _
          obtain ⟨counter, hout⟩ := forward_output mid running role packet
          obtain ⟨more, hmore, hforwarded⟩ := hannounced _ hmid
          refine ⟨hoffset, more ++ [.stream role
            (forwardedPacket running.offset role counter packet)], by rw [hout, hmore,
              List.append_assoc], fun emitted hm => ?_⟩
          rcases List.mem_append.mp hm with hm | hm
          · exact hforwarded emitted hm
          · obtain rfl := List.mem_singleton.mp hm
            rintro other output heq
            cases heq
            exact ⟨counter, by rw [hoffset]⟩
        · exact ⟨hoffset, hannounced _ hmid⟩
  unfold runningPacket
  split
  · exact ⟨rfl, hannounced _ (.refl s)⟩
  split
  · exact ⟨rfl, hannounced _ (.write (.refl _) rfl trivial)⟩
  dsimp only
  split
  · exact hroute s _ (.refl s) rfl
  · exact hroute _ _ ((Announces.adoptMap s _).trans (Announces.writePmt _)) rfl

/-- No segment begins in a stretch of the output. -/
def WithinSegment (piece : List (Bytes × Emitted)) : Prop :=
  ∀ write ∈ piece, write.2 ≠ .segmentStart

/-- Every stretch inside a segment was forwarded with one offset. -/
def Uniform (heard : List (Bytes × Emitted)) : Prop :=
  ∀ piece, piece <:+: heard → WithinSegment piece →
    ∃ offset, ∀ write ∈ piece, ForwardedBy offset write

/-- The newest segment was forwarded with `offset`. -/
def Closing (offset : UInt64) (heard : List (Bytes × Emitted)) : Prop :=
  ∀ piece, piece <:+ heard → WithinSegment piece → ∀ write ∈ piece, ForwardedBy offset write

theorem Closing.snoc {offset : UInt64} {heard : List (Bytes × Emitted)} {write : Bytes × Emitted}
    (h : Closing offset heard) (hwrite : ForwardedBy offset write) :
    Closing offset (heard ++ [write]) := by
  intro piece hpiece hwithin other hother
  rcases List.suffix_concat_iff.mp hpiece with rfl | ⟨front, rfl, hfront⟩
  · cases hother
  · rcases List.mem_append.mp hother with hother | hother
    · exact h front hfront (fun w hw => hwithin w (by simp [hw])) other hother
    · obtain rfl := List.mem_singleton.mp hother
      exact hwrite

theorem Uniform.snoc {offset : UInt64} {heard : List (Bytes × Emitted)} {write : Bytes × Emitted}
    (h : Uniform heard) (hclosing : Closing offset (heard ++ [write])) :
    Uniform (heard ++ [write]) := by
  intro piece hpiece hwithin
  rcases List.infix_concat_iff.mp hpiece with hsuffix | hinfix
  · exact ⟨offset, hclosing piece hsuffix hwithin⟩
  · exact h piece hinfix hwithin

theorem closing_segmentStart (offset : UInt64) (heard : List (Bytes × Emitted)) (input : Bytes) :
    Closing offset (heard ++ [(input, .segmentStart)]) := by
  intro piece hpiece hwithin write hwrite
  rcases List.suffix_concat_iff.mp hpiece with rfl | ⟨front, rfl, _⟩
  · cases hwrite
  · exact absurd rfl (hwithin (input, .segmentStart) (by simp))

theorem uniform_append {offset : UInt64} (input : Bytes) (more : List Emitted)
    {heard : List (Bytes × Emitted)} (h : Uniform heard) (hclosing : Closing offset heard)
    (hmore : ∀ emitted ∈ more, ForwardedBy offset (input, emitted)) :
    Uniform (heard ++ more.map fun emitted => (input, emitted)) ∧
      Closing offset (heard ++ more.map fun emitted => (input, emitted)) := by
  induction more generalizing heard with
  | nil => simpa using ⟨h, hclosing⟩
  | cons emitted more ih =>
    obtain ⟨hfirst, hrest⟩ := List.forall_mem_cons.mp hmore
    have hnext := hclosing.snoc hfirst
    have := ih (h.snoc hnext) hnext hrest
    simpa using this

theorem startSegment_untimed (s : Muxing) (segment : Segment) :
    ∃ more, (s.startSegment segment).1.out = s.out ++ .segmentStart :: more ∧
      ∀ emitted ∈ more, emitted.Untimed := by
  have hannounces : Announces ⟨{ s.mux with splices := s.mux.splices + 1 }, s.out ++ [.segmentStart]⟩
      (s.startSegment segment).1 :=
    (((Announces.adoptMap _ segment.map).trans (Announces.writePat _)).trans
      (Announces.writePmt _)).trans (Announces.writeDiscontinuities _ _)
  obtain ⟨more, hmore, huntimed⟩ := hannounces.out
  exact ⟨more, by rw [hmore, List.append_assoc]; rfl, huntimed⟩

/-- In every traced run the output is uniform, and its newest segment has the offset of the
running one. -/
theorem uniform_invariant :
    TraceInvariant (fun _ journal => Uniform (writes journal))
      (fun _ segment journal => Closing segment.offset (writes journal)) (fun _ => True) where
  start piece hpiece _ := ⟨0, fun write hwrite => by
    rw [List.infix_nil.mp hpiece] at hwrite
    cases hwrite⟩
  waits := trivial
  seek _ _ _ _ := trivial
  calmSegments _ _ _ _ h := h
  runsSegments _ _ _ _ _ h := h
  packet s segment journal packet more _ huniform hclosing hout _ := by
    obtain ⟨hoffset, written, hwritten, hforwarded⟩ := runningPacket_forwarded s segment packet
    obtain rfl : written = more := List.append_cancel_left (hwritten.symm.trans hout)
    rw [writes_snoc, hoffset]
    exact uniform_append packet written huniform hclosing hforwarded
  opens s segment journal packet more _ huniform hfresh _ hfound hout := by
    have hstep : s.pendingPacket segment packet =
        (s.startSegment (s.mux.seek segment packet).1).1.runningPacket
          (s.startSegment (s.mux.seek segment packet).1).2 packet := by
      simp [pendingPacket, hfresh.1, hfound]
    obtain ⟨opening, hopening, huntimed⟩ := startSegment_untimed s (s.mux.seek segment packet).1
    obtain ⟨hoffset, written, hwritten, hforwarded⟩ := runningPacket_forwarded
      (s.startSegment (s.mux.seek segment packet).1).1
      (s.startSegment (s.mux.seek segment packet).1).2 packet
    rw [hstep] at hout ⊢
    have hmore : more = opening ++ written := by
      have hall : s.out ++ .segmentStart :: more = s.out ++ .segmentStart :: (opening ++ written) :=
        hout.symm.trans (by rw [hwritten, hopening, List.append_assoc]; rfl)
      simpa using hall
    have hclosing := closing_segmentStart
      (s.startSegment (s.mux.seek segment packet).1).2.offset (writes journal) packet
    have hdone := uniform_append packet more (huniform.snoc hclosing) hclosing (by
      intro emitted hemitted
      rw [hmore] at hemitted
      rcases List.mem_append.mp hemitted with hemitted | hemitted
      · exact forwardedBy_of_untimed _ _ (huntimed emitted hemitted)
      · exact hforwarded emitted hemitted)
    rw [writes_snoc, hoffset]
    simpa using hdone

/-! ## The PES packets of a stretch -/

/-- Every PES packet that a stretch of the output carries is rebased by `offset` exactly if its
timestamps lie in its first packet, or the offset is nothing. -/
def RebasedWithin (offset : UInt64) (piece : List (Bytes × Emitted)) : Prop :=
  ∀ (role : Role) (earlier pairs later : List (Bytes × Bytes)) (first : TransportPacket)
    (rest : List TransportPacket) (pes : Bytes),
    streamWrites role piece = earlier ++ pairs ++ later →
    pairs.map Prod.fst = (first :: rest).map TransportPacket.encode →
    CarriesPes first rest pes →
      (PesRebased offset pes (pairs.flatMap fun pair => payloadOf pair.2) ↔
        TimestampsWithin pes first.payload.length ∨ offset.toNat % 2 ^ 33 = 0)

theorem mem_streamWrites {role : Role} {heard : List (Bytes × Emitted)} {input output : Bytes}
    (h : (input, output) ∈ streamWrites role heard) : (input, .stream role output) ∈ heard := by
  obtain ⟨⟨other, emitted⟩, hmem, hsome⟩ := List.mem_filterMap.mp h
  cases emitted with
  | stream otherRole packet =>
    dsimp only at hsome
    split_ifs at hsome with hrole
    cases hsome
    exact hrole ▸ hmem
  | segmentStart | pat packet | pmt packet | discontinuity otherRole packet | null packet =>
    cases hsome

/-- The payloads behind the first packet come through as they are. -/
theorem payloads_continued {offset : UInt64} {role : Role} (rest : List TransportPacket)
    {pairs : List (Bytes × Bytes)} (hinputs : pairs.map Prod.fst = rest.map TransportPacket.encode)
    (hcontinued : ∀ packet ∈ rest, packet.payloadUnitStart = false)
    (hforwarded : ∀ pair ∈ pairs, ∃ counter, pair.2 = forwardedPacket offset role counter pair.1) :
    (pairs.flatMap fun pair => payloadOf pair.2) = rest.flatMap TransportPacket.payload := by
  induction rest generalizing pairs with
  | nil => simp_all
  | cons packet rest ih =>
    cases pairs with
    | nil => simp at hinputs
    | cons pair pairs =>
      simp only [List.map_cons, List.cons.injEq] at hinputs
      obtain ⟨⟨counter, hcounter⟩, hrest⟩ := List.forall_mem_cons.mp hforwarded
      obtain ⟨hpacket, hcontinued'⟩ := List.forall_mem_cons.mp hcontinued
      rw [List.flatMap_cons, List.flatMap_cons, ih hinputs.2 hcontinued' hrest, hcounter, hinputs.1,
        payloadOf_forwarded, hpacket]
      rfl

theorem rebasedWithin {offset : UInt64} {piece : List (Bytes × Emitted)}
    (h : ∀ write ∈ piece, ForwardedBy offset write) : RebasedWithin offset piece := by
  intro role earlier pairs later first rest pes hsplit hinputs hcarries
  have hforwarded : ∀ pair ∈ pairs,
      ∃ counter, pair.2 = forwardedPacket offset role counter pair.1 := by
    intro pair hpair
    have hmem : pair ∈ streamWrites role piece := by
      rw [hsplit]
      simp [hpair]
    exact h _ (mem_streamWrites hmem) role pair.2 rfl
  cases pairs with
  | nil => simp at hinputs
  | cons pair pairs =>
    simp only [List.map_cons, List.cons.injEq] at hinputs
    obtain ⟨⟨counter, hcounter⟩, hrest⟩ := List.forall_mem_cons.mp hforwarded
    have hout : ((pair :: pairs).flatMap fun pair => payloadOf pair.2) =
        rebaseUnit offset first.payload ++ rest.flatMap TransportPacket.payload := by
      rw [List.flatMap_cons, payloads_continued rest hinputs.2 hcarries.continued hrest, hcounter,
        hinputs.1, payloadOf_forwarded, hcarries.unitStart]
      rfl
    rw [hout, ← hcarries.carried]
    exact pesRebased_iff offset (hcarries.carried ▸ hcarries.legal)

/-- **When spliced timestamps are rebased.** In every run of the muxer each stretch of the output
inside a segment has one offset, that of the running segment if it is the newest. A PES packet of
the stretch comes out rebased by it exactly if its PTS and DTS lie in its first transport packet,
or the offset is nothing modulo `2 ^ 33`. -/
theorem timestamps_rebased_iff (t : TracedMuxing) (h : tracedMachine.Reachable t) :
    (∀ piece, piece <:+: writes t.journal → WithinSegment piece →
      ∃ offset, RebasedWithin offset piece) ∧
    ∀ segment, t.muxing.mux.current = some segment → ∀ piece, piece <:+ writes t.journal →
      WithinSegment piece → RebasedWithin segment.offset piece := by
  have hsettled := uniform_invariant.settled_of_reachable h
  refine ⟨fun piece hpiece hwithin => ?_, fun segment hsegment piece hpiece hwithin => ?_⟩
  · obtain ⟨offset, hoffset⟩ := hsettled.calm piece hpiece hwithin
    exact ⟨offset, rebasedWithin hoffset⟩
  · exact rebasedWithin ((hsettled.runs segment hsegment).2 piece hpiece hwithin)

/-! ## A header across two packets -/

/-- An adaptation field that leaves ten bytes of payload. -/
def straddleField : Bytes := 0x00 :: List.replicate 172 0xff

/-- The rest of the header and of the PES packet. -/
def straddleRest : Bytes := [0x00, 0x01, 0x00, 0x01] ++ List.replicate 180 0

theorem straddle_size :
    4 + ((some straddleField).elim 0 fun field => 1 + field.length) +
      [(0x00 : UInt8), 0x00, 0x01, 0xe0, 0x00, 0x00, 0x80, 0x80, 0x05, 0x21].length =
        mpegTsPacketSize ∧
    4 + ((none : Option Bytes).elim 0 fun field => 1 + field.length) + straddleRest.length =
      mpegTsPacketSize := by
  decide +kernel

theorem straddle_pid : (0x100 : UInt16) < 0x2000 := by decide

theorem straddle_counter : (0x01 : UInt8) < 0x10 ∧ (0x02 : UInt8) < 0x10 := by decide

/-- A PES packet with the PTS 0, cut after the first byte of the timestamp. -/
def straddleFirst : TransportPacket where
  pid := 0x100
  payloadUnitStart := true
  transportPriority := false
  continuityCounter := 0x01
  adaptation := some straddleField
  payload := [0x00, 0x00, 0x01, 0xe0, 0x00, 0x00, 0x80, 0x80, 0x05, 0x21]
  pid_lt := straddle_pid
  counter_lt := straddle_counter.1
  size := straddle_size.1

def straddleSecond : TransportPacket where
  pid := 0x100
  payloadUnitStart := false
  transportPriority := false
  continuityCounter := 0x02
  adaptation := none
  payload := straddleRest
  pid_lt := straddle_pid
  counter_lt := straddle_counter.2
  size := straddle_size.2

def straddlePes : Bytes := straddleFirst.payload ++ straddleRest

theorem straddle_carried : CarriesPes straddleFirst [straddleSecond] straddlePes where
  unitStart := rfl
  nonempty := by decide
  continued := by simp [straddleSecond]
  carried := by decide +kernel
  legal flags hflags := by
    obtain rfl : (0x02 : UInt8) = flags :=
      Option.some.inj ((by decide +kernel : pesFlags straddlePes = some 0x02).symm.trans hflags)
    decide +kernel

/-- The second segment of `spliceTwice`, followed by the cut PES packet. -/
def spliceStraddled : List MuxOp :=
  spliceTwice ++ [.pushCurrent (straddleFirst.encode ++ straddleSecond.encode)]

/-- The two newest writes of a run. -/
def newestWrites (journal : List Handled) : List (Bytes × Emitted) :=
  (writes journal).drop ((writes journal).length - 2)

theorem straddled_run : ∃ t, tracedMachine.Reachable t ∧ ∃ segment,
    t.muxing.mux.current = some segment ∧ segment.offset = 3003 ∧
    WithinSegment (newestWrites t.journal) ∧
    (streamWrites .video (newestWrites t.journal)).map Prod.fst =
      [straddleFirst, straddleSecond].map TransportPacket.encode ∧
    readTimestamp (((streamWrites .video (newestWrites t.journal)).flatMap fun pair =>
      payloadOf pair.2).drop 9) = 0 := by
  obtain ⟨t, ht, hp⟩ := tracedMachine.exists_reachable_of_run spliceStraddled
    (fun t => decide ((t.muxing.mux.current.map Segment.offset) = some 3003 ∧
      (∀ write ∈ newestWrites t.journal, write.2 ≠ .segmentStart) ∧
      (streamWrites .video (newestWrites t.journal)).map Prod.fst =
        [straddleFirst, straddleSecond].map TransportPacket.encode ∧
      readTimestamp (((streamWrites .video (newestWrites t.journal)).flatMap fun pair =>
        payloadOf pair.2).drop 9) = 0))
    (by decide +kernel)
  obtain ⟨hcurrent, hwithin, hinputs, hread⟩ := of_decide_eq_true hp
  obtain ⟨segment, hsegment, hoffset⟩ := Option.map_eq_some_iff.mp hcurrent
  exact ⟨t, ht, segment, hsegment, hoffset, hwithin, hinputs, hread⟩

/-- The timestamp of the cut header is the one of the input, 3003 ticks behind the output. -/
theorem straddling_header_kept : ∃ t, tracedMachine.Reachable t ∧ ∃ segment pairs,
    t.muxing.mux.current = some segment ∧
    streamWrites .video (newestWrites t.journal) = pairs ∧
    pairs.map Prod.fst = [straddleFirst, straddleSecond].map TransportPacket.encode ∧
    CarriesPes straddleFirst [straddleSecond] straddlePes ∧
    ¬ PesRebased segment.offset straddlePes (pairs.flatMap fun pair => payloadOf pair.2) := by
  obtain ⟨t, ht, segment, hsegment, hoffset, _, hinputs, hread⟩ := straddled_run
  refine ⟨t, ht, segment, _, hsegment, rfl, hinputs, straddle_carried, fun h => ?_⟩
  have hpts := h.pts (by decide +kernel)
  rw [hread, hoffset] at hpts
  exact absurd hpts (by decide +kernel)

theorem timestamps_rebased_iff_straddled : ∃ t, tracedMachine.Reachable t ∧ ∃ segment,
    t.muxing.mux.current = some segment ∧
    RebasedWithin segment.offset (newestWrites t.journal) := by
  obtain ⟨t, ht, segment, hsegment, _, hwithin, _⟩ := straddled_run
  exact ⟨t, ht, segment, hsegment, (timestamps_rebased_iff t ht).2 segment hsegment _
    (List.drop_suffix _ _) hwithin⟩

end IptvRelay.Slate
