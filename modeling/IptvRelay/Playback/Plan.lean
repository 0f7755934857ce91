import IptvRelay.Lib.Delimited
import IptvRelay.Playback.Ranks

/-!
# Playback plans

Model of `channel_playback_plan` in `persistence/src/catalog.rs` and of `playback_generation` in
`api/src/lib.rs`: the streams that a channel can be played from, in the order in which they are
tried, and the generation of the shared session. A revision is a 64-bit word, and a JSON array
of texts is a list, if it is one.
-/

namespace IptvRelay.Playback

inductive InputAdapterPolicy where
  | auto
  | nativeTs
  | ffmpeg
  | vlc
  deriving DecidableEq, Repr

/-- The texts that the column allows. -/
def InputAdapterPolicy.text : InputAdapterPolicy → String
  | .auto => "auto"
  | .nativeTs => "native-ts"
  | .ffmpeg => "ffmpeg"
  | .vlc => "vlc"

/-- `channels`. -/
structure Channel where
  id : Uuid
  name : String
  enabled : Bool
  revision : BitVec 64
  deriving DecidableEq, Repr

/-- `provider_accounts`. -/
structure ProviderAccount where
  id : Uuid
  connectionPoolId : Option Uuid
  maxConnections : Int
  inputAdapter : InputAdapterPolicy
  enabled : Bool
  revision : BitVec 64
  alternativeBaseUrls : Option (List String)
  deriving DecidableEq, Repr

/-- `connection_pools`. -/
structure ConnectionPool where
  id : Uuid
  maxConnections : Int
  deriving DecidableEq, Repr

/-- `source_snapshots`. -/
structure SourceSnapshot where
  id : Uuid
  active : Bool
  deriving DecidableEq, Repr

structure PlaybackTables extends StreamTables where
  channels : List Channel
  accounts : List ProviderAccount
  pools : List ConnectionPool
  snapshots : List SourceSnapshot

structure ChannelPlaybackCandidateRow where
  channelId : Uuid
  channelName : String
  channelRevision : BitVec 64
  providerStreamId : Uuid
  sourceSnapshotId : Uuid
  providerAccountId : Uuid
  providerRevision : BitVec 64
  providerPoolId : Uuid
  maxConnections : Int
  inputAdapter : InputAdapterPolicy
  streamUrl : String
  urlSecretCiphertext : Option (List UInt8)
  priority : Nat
  qualityRank : Nat
  healthStatus : HealthStatus
  bitrateKbps : Option Int
  measuredPeakKbps : Option Int
  measuredBurstMs : Option Int
  alternativeBaseUrls : Option (List String)
  deriving DecidableEq, Repr

structure ChannelPlaybackPlan where
  channelId : Uuid
  channelName : String
  channelRevision : BitVec 64
  candidates : List ChannelPlaybackCandidateRow
  deriving DecidableEq, Repr

/-! ## The plan -/

/-- `CASE ps.health_status` of the plan. -/
def playedHealth : HealthStatus → Nat
  | .alive => 0
  | .unknown => 1
  | .checking => 2
  | .dead => 3

namespace PlaybackTables

variable (tables : PlaybackTables)

/-- The joins of the plan for one link, where its channel is enabled and its stream can be played. -/
def candidate (link : ChannelStream) : Option ChannelPlaybackCandidateRow := do
  let channel ← tables.channels.find? fun channel => channel.id = link.channelId
  let stream ← tables.toStreamTables.find link.providerStreamId
  let account ← tables.accounts.find? fun account => account.id = stream.providerAccountId
  let snapshot ← tables.snapshots.find? fun snapshot => snapshot.id = stream.snapshotId
  guard (channel.enabled ∧ account.enabled ∧ stream.supported ∧ snapshot.active)
  let pool := account.connectionPoolId.bind fun poolId =>
    tables.pools.find? fun pool => pool.id = poolId
  let measurement := tables.toStreamTables.measurementOf stream
  return {
    channelId := channel.id
    channelName := channel.name
    channelRevision := channel.revision
    providerStreamId := stream.id
    sourceSnapshotId := snapshot.id
    providerAccountId := stream.providerAccountId
    providerRevision := account.revision
    providerPoolId := account.connectionPoolId.getD account.id
    maxConnections := (pool.map ConnectionPool.maxConnections).getD account.maxConnections
    inputAdapter := account.inputAdapter
    streamUrl := stream.urlTemplate
    urlSecretCiphertext := stream.urlSecretCiphertext
    priority := link.priority
    qualityRank := link.qualityRank
    healthStatus := stream.healthStatus
    bitrateKbps := (measurement.map StreamMeasurementRow.averageBitrateKbps).or stream.bitrateKbps
    measuredPeakKbps := measurement.map StreamMeasurementRow.peakBitrateKbps
    measuredBurstMs := measurement.map StreamMeasurementRow.burstMs
    alternativeBaseUrls := account.alternativeBaseUrls }

/-- `ORDER BY` of the plan. -/
def candidateKey (row : ChannelPlaybackCandidateRow) : Nat ×ₗ Nat ×ₗ Nat ×ₗ Nat :=
  toLex (playedHealth row.healthStatus,
    toLex (row.qualityRank, toLex (row.priority, row.providerStreamId.toNat)))

/-- The rows of the plan before they are sorted. -/
def eligible (channelId : Uuid) : List ChannelPlaybackCandidateRow :=
  (tables.links.filter fun link => link.channelId = channelId).filterMap tables.candidate

def channelPlaybackPlan (channelId : Uuid) : Option ChannelPlaybackPlan :=
  let candidates := Sorting.sortBy candidateKey (tables.eligible channelId)
  candidates.head?.map fun first =>
    { channelId := first.channelId
      channelName := first.channelName
      channelRevision := first.channelRevision
      candidates }

end PlaybackTables

/-! ## The generation -/

/-- The bytes of a word, the most significant one first. -/
def bytesBE {n : Nat} (x : BitVec (8 * n)) : List UInt8 :=
  (List.range n).map fun i => ⟨x.extractLsb' (8 * (n - 1 - i)) 8⟩

def uuidBytes (id : Uuid) : List UInt8 := @bytesBE 16 id

def revisionBytes (revision : BitVec 64) : List UInt8 := @bytesBE 8 revision

/-- The bytes of the text; it is ASCII. -/
def InputAdapterPolicy.bytes (adapter : InputAdapterPolicy) : List UInt8 :=
  adapter.text.toList.map fun c => c.toNat.toUInt8

/-- What the digest sees of a candidate. -/
abbrev Identity := Uuid × Uuid × Uuid × BitVec 64 × Uuid × InputAdapterPolicy

def ChannelPlaybackCandidateRow.identity (row : ChannelPlaybackCandidateRow) : Identity :=
  (row.providerStreamId, row.sourceSnapshotId, row.providerAccountId, row.providerRevision,
    row.providerPoolId, row.inputAdapter)

def ChannelPlaybackCandidateRow.bytes (row : ChannelPlaybackCandidateRow) : List UInt8 :=
  uuidBytes row.providerStreamId ++ (uuidBytes row.sourceSnapshotId ++
    (uuidBytes row.providerAccountId ++ (revisionBytes row.providerRevision ++
      (uuidBytes row.providerPoolId ++ row.inputAdapter.bytes))))

/-- The bytes that are digested. -/
def generationBytes (plan : ChannelPlaybackPlan) : List UInt8 :=
  let candidates := Sorting.sortBy (fun row => row.providerStreamId.toNat) plan.candidates
  uuidBytes plan.channelId ++
    (revisionBytes plan.channelRevision ++ candidates.flatMap ChannelPlaybackCandidateRow.bytes)

/-- `sha256` yields the first eight bytes of the digest. -/
def playbackGeneration (sha256 : List UInt8 → BitVec 64) (plan : ChannelPlaybackPlan) : BitVec 64 :=
  sha256 (generationBytes plan)

section Bytes

open Delimited

theorem length_bytesBE {n : Nat} (x : BitVec (8 * n)) : (bytesBE x).length = n := by
  simp [bytesBE]

theorem bytesBE_injective (n : Nat) : Function.Injective (@bytesBE n) := by
  intro x y h
  apply BitVec.eq_of_getLsbD_eq
  intro j hj
  have hi : n - 1 - j / 8 < n := by omega
  have hbyte := List.map_inj_left.mp h (n - 1 - j / 8) (List.mem_range.mpr hi)
  have hword : x.extractLsb' (8 * (n - 1 - (n - 1 - j / 8))) 8 =
      y.extractLsb' (8 * (n - 1 - (n - 1 - j / 8))) 8 := congrArg UInt8.toBitVec hbyte
  have hbit := congrArg (fun word => word.getLsbD (j % 8)) hword
  have hlow : j % 8 < 8 := Nat.mod_lt _ (by decide)
  have hplace : 8 * (n - 1 - (n - 1 - j / 8)) + j % 8 = j := by omega
  simpa [BitVec.getLsbD_extractLsb', hlow, hplace] using hbit

theorem uuidBytes_delimited : SelfDelimiting uuidBytes :=
  .of_length (length_bytesBE (n := 16)) (bytesBE_injective 16)

theorem revisionBytes_delimited : SelfDelimiting revisionBytes :=
  .of_length (length_bytesBE (n := 8)) (bytesBE_injective 8)

/-- None of the four texts begins another. -/
theorem adapterBytes_delimited : SelfDelimiting InputAdapterPolicy.bytes := by
  intro a b hpre
  have hall : ∀ a b : InputAdapterPolicy, a.bytes.isPrefixOf b.bytes = true → a = b := by
    intro a b
    cases a <;> cases b <;> decide
  exact hall a b (List.isPrefixOf_iff_prefix.mpr hpre)

/-- The bytes of what the digest sees. -/
def identityBytes (identity : Identity) : List UInt8 :=
  uuidBytes identity.1 ++ (uuidBytes identity.2.1 ++ (uuidBytes identity.2.2.1 ++
    (revisionBytes identity.2.2.2.1 ++ (uuidBytes identity.2.2.2.2.1 ++
      identity.2.2.2.2.2.bytes))))

theorem identityBytes_delimited : SelfDelimiting identityBytes :=
  uuidBytes_delimited.pair (uuidBytes_delimited.pair (uuidBytes_delimited.pair
    (revisionBytes_delimited.pair (uuidBytes_delimited.pair adapterBytes_delimited))))

theorem identityBytes_ne_nil (identity : Identity) : identityBytes identity ≠ [] := by
  intro h
  have hlength := congrArg List.length (List.append_eq_nil_iff.mp h).1
  rw [uuidBytes, length_bytesBE] at hlength
  cases hlength

/-- The digested candidates, in the order of their streams. -/
theorem flatMap_bytes (rows : List ChannelPlaybackCandidateRow) :
    (Sorting.sortBy (fun row => row.providerStreamId.toNat) rows).flatMap
      ChannelPlaybackCandidateRow.bytes =
      (Sorting.sortBy (fun identity : Identity => identity.1.toNat)
        (rows.map ChannelPlaybackCandidateRow.identity)).flatMap identityBytes := by
  have hsorted : (Sorting.sortBy (fun row => row.providerStreamId.toNat) rows).map
      ChannelPlaybackCandidateRow.identity = Sorting.sortBy (fun identity : Identity => identity.1.toNat)
        (rows.map ChannelPlaybackCandidateRow.identity) :=
    List.map_insertionSort _ _ ChannelPlaybackCandidateRow.identity rows fun _ _ _ _ => Iff.rfl
  rw [← hsorted, List.flatMap_map]
  rfl

/-- The order of the candidates does not matter. -/
theorem generationBytes_of_perm {plan other : ChannelPlaybackPlan}
    (hplan : (plan.candidates.map ChannelPlaybackCandidateRow.providerStreamId).Nodup)
    (hchannel : plan.channelId = other.channelId)
    (hrevision : plan.channelRevision = other.channelRevision)
    (hperm : (plan.candidates.map ChannelPlaybackCandidateRow.identity).Perm
      (other.candidates.map ChannelPlaybackCandidateRow.identity)) :
    generationBytes plan = generationBytes other := by
  have hids : ((plan.candidates.map ChannelPlaybackCandidateRow.identity).map Prod.fst).Nodup := by
    rw [List.map_map]
    exact hplan
  simp only [generationBytes, flatMap_bytes]
  rw [hchannel, hrevision, Sorting.sortBy_eq_of_perm hperm fun a ha b hb hab =>
    List.inj_on_of_nodup_map hids ha hb (BitVec.eq_of_toNat_eq hab)]

end Bytes

/-- The digest of the generation sees the channel, its revision and the identities of the
candidates, whatever their order, and nothing else: two plans have the same bytes exactly when
these agree. -/
theorem generationBytes_eq_iff (plan other : ChannelPlaybackPlan)
    (hplan : (plan.candidates.map ChannelPlaybackCandidateRow.providerStreamId).Nodup) :
    generationBytes plan = generationBytes other ↔
      plan.channelId = other.channelId ∧ plan.channelRevision = other.channelRevision ∧
        (plan.candidates.map ChannelPlaybackCandidateRow.identity).Perm
          (other.candidates.map ChannelPlaybackCandidateRow.identity) := by
  constructor
  · intro h
    simp only [generationBytes, flatMap_bytes] at h
    obtain ⟨hchannel, h⟩ := uuidBytes_delimited.append_inj h
    obtain ⟨hrevision, h⟩ := revisionBytes_delimited.append_inj h
    have hsorted := identityBytes_delimited.flatMap_injective identityBytes_ne_nil h
    have hperm := Sorting.sortBy_perm (fun identity : Identity => identity.1.toNat)
      (plan.candidates.map ChannelPlaybackCandidateRow.identity)
    rw [hsorted] at hperm
    exact ⟨hchannel, hrevision,
      hperm.symm.trans (Sorting.sortBy_perm (fun identity : Identity => identity.1.toNat) _)⟩
  · rintro ⟨hchannel, hrevision, hperm⟩
    exact generationBytes_of_perm hplan hchannel hrevision hperm

/-- A candidate that differs from another in its stream. -/
def exampleCandidate (id : Uuid) : ChannelPlaybackCandidateRow where
  channelId := 9
  channelName := "News"
  channelRevision := 4
  providerStreamId := id
  sourceSnapshotId := 5
  providerAccountId := 1
  providerRevision := 7
  providerPoolId := 1
  maxConnections := 1
  inputAdapter := .auto
  streamUrl := "http://provider/live"
  urlSecretCiphertext := none
  priority := 0
  qualityRank := 1
  healthStatus := .alive
  bitrateKbps := none
  measuredPeakKbps := none
  measuredBurstMs := none
  alternativeBaseUrls := none

/-- A plan and the same plan in another order. -/
theorem generationBytes_eq_iff_reordered :
    generationBytes ⟨9, "News", 4, [exampleCandidate 2, exampleCandidate 3]⟩ =
      generationBytes ⟨9, "News", 4, [exampleCandidate 3, exampleCandidate 2]⟩ :=
  (generationBytes_eq_iff ⟨9, "News", 4, [exampleCandidate 2, exampleCandidate 3]⟩
    ⟨9, "News", 4, [exampleCandidate 3, exampleCandidate 2]⟩ (by decide)).mpr
      ⟨rfl, rfl, List.Perm.swap _ _ _⟩

end IptvRelay.Playback
