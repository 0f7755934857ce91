import Mathlib.Data.List.Basic

/-!
# Compressed bodies

Model of the sniff in `try_streaming_run` and of `detect_archive`. The sniff sees the first chunk
of the response, the artifact path sees the first bytes of the body.
-/

namespace IptvRelay.Ingest

abbrev Bytes := List UInt8

inductive ArchiveFormat where
  | plain
  | gzip
  | xz
  | zip
  deriving DecidableEq, Repr

inductive SniffError where
  | httpRequest
  deriving DecidableEq, Repr

/-- What `try_streaming_run` does with a response. -/
inductive Decision where
  /-- `Ok(None)`: download the artifact first. -/
  | fallBack
  /-- Parse while the download goes on. -/
  | overlap
  deriving DecidableEq, Repr

def gzipMagic : Bytes := [0x1f, 0x8b]

def xzMagic : Bytes := [0xfd, 0x37, 0x7a, 0x58, 0x5a, 0x00]

/-- A local file header: `PK\x03\x04`. -/
def zipMagic : Bytes := [0x50, 0x4b, 0x03, 0x04]

/-- An empty archive: `PK\x05\x06`. -/
def emptyZipMagic : Bytes := [0x50, 0x4b, 0x05, 0x06]

/-- A part of a spanned archive: `PK\x07\x08`. -/
def spannedZipMagic : Bytes := [0x50, 0x4b, 0x07, 0x08]

def isCompressed (firstChunk : Bytes) : Bool :=
  gzipMagic.isPrefixOf firstChunk || xzMagic.isPrefixOf firstChunk || zipMagic.isPrefixOf firstChunk

/-- The sniff of the first chunk of a response; `none` is a transport error. -/
def tryStreamingRun (stream : List (Option Bytes)) : Except SniffError Decision :=
  match stream.head? with
  | none => .error .httpRequest
  | some none => .error .httpRequest
  | some (some firstChunk) =>
    if isCompressed firstChunk then .ok .fallBack else .ok .overlap

def detectArchive (body : Bytes) (extensionHint : Option String) : ArchiveFormat :=
  let magic := body.take 8
  if gzipMagic.isPrefixOf magic then .gzip
  else if xzMagic.isPrefixOf magic then .xz
  else if zipMagic.isPrefixOf magic || emptyZipMagic.isPrefixOf magic ||
      spannedZipMagic.isPrefixOf magic then .zip
  else if extensionHint = some "gz" ∨ extensionHint = some "gzip" then .gzip
  else if extensionHint = some "xz" then .xz
  else if extensionHint = some "zip" then .zip
  else .plain

/-- The response whose body comes in these chunks. -/
def response (chunks : List Bytes) : List (Option Bytes) := chunks.map some

/-! ## The first chunk -/

/-- The magics that the sniff knows. -/
def sniffed : List Bytes := [gzipMagic, xzMagic, zipMagic]

theorem isCompressed_iff {chunk : Bytes} :
    isCompressed chunk = true ↔ ∃ magic ∈ sniffed, magic <+: chunk := by
  simp [isCompressed, sniffed, or_assoc]

/-- No body begins with two of them. -/
theorem sniffed_unique : ∀ magic ∈ sniffed, ∀ other ∈ sniffed,
    magic.head? = other.head? → magic = other := by
  decide

theorem sniffed_length : ∀ magic ∈ sniffed, 0 < magic.length ∧ magic.length ≤ 8 := by
  decide

theorem sniffed_eq_of_prefix {magic other body : Bytes} (hmagic : magic ∈ sniffed)
    (hother : other ∈ sniffed) (h : magic <+: body) (h' : other <+: body) : magic = other := by
  apply sniffed_unique magic hmagic other hother
  obtain ⟨rest, rfl⟩ := h
  obtain ⟨rest', hrest⟩ := h'
  have hne := List.ne_nil_of_length_pos (sniffed_length magic hmagic).1
  have hne' := List.ne_nil_of_length_pos (sniffed_length other hother).1
  have hhead := congrArg List.head? hrest
  rw [List.head?_append_of_ne_nil _ hne, List.head?_append_of_ne_nil _ hne'] at hhead
  exact hhead.symm

/-- The length of the first chunk. -/
def firstLength (chunks : List Bytes) : Nat := chunks.head?.elim 0 List.length

/-- The decision from the body and the length of the first chunk. -/
theorem tryStreamingRun_fallBack_iff {chunks : List Bytes} :
    tryStreamingRun (response chunks) = .ok .fallBack ↔
      ∃ magic ∈ sniffed, magic <+: chunks.flatten ∧ magic.length ≤ firstLength chunks := by
  cases chunks with
  | nil =>
    refine iff_of_false (by simp [tryStreamingRun, response]) ?_
    rintro ⟨magic, hmagic, -, hlength⟩
    exact absurd (sniffed_length magic hmagic).1 (Nat.not_lt.mpr hlength)
  | cons chunk rest =>
    have hdecision : tryStreamingRun (response (chunk :: rest)) = .ok .fallBack ↔
        isCompressed chunk = true := by
      simp [tryStreamingRun, response]
    rw [hdecision, isCompressed_iff]
    refine exists_congr fun magic => and_congr_right' ⟨fun h => ?_, fun h => ?_⟩
    · exact ⟨h.trans (List.prefix_append ..), h.length_le⟩
    · exact List.prefix_of_prefix_length_le h.1 (List.prefix_append ..) h.2

/-- What the sniff knows is an archive for the artifact path. -/
theorem detectArchive_of_sniffed {magic body : Bytes} (hmagic : magic ∈ sniffed)
    (h : magic <+: body) (hint : Option String) : detectArchive body hint ≠ .plain := by
  have hshort : magic <+: body.take 8 := by
    rw [List.prefix_take_iff]
    exact ⟨h, (sniffed_length magic hmagic).2⟩
  have hbool := List.isPrefixOf_iff_prefix.mpr hshort
  simp only [sniffed, List.mem_cons, List.not_mem_nil, or_false] at hmagic
  unfold detectArchive
  dsimp only
  rcases hmagic with rfl | rfl | rfl
  · rw [if_pos hbool]
    exact ArchiveFormat.noConfusion
  · split_ifs <;> simp_all
  · split_ifs <;> simp_all

/-! ## Two splits of one body -/

/-- Both splits of a body are treated alike, and not as text if the body is an archive. -/
structure SameTreatment (body : Bytes) (hint : Option String) (first second : List Bytes) :
    Prop where
  decision : tryStreamingRun (response first) = .ok .fallBack ↔
    tryStreamingRun (response second) = .ok .fallBack
  archive : detectArchive body hint ≠ .plain →
    tryStreamingRun (response first) = .ok .fallBack ∧
      tryStreamingRun (response second) = .ok .fallBack

/-- Splits are treated alike exactly if the body is plain or begins with a magic that the sniff
knows and that neither split divides. -/
theorem sameTreatment_iff {body : Bytes} (hint : Option String) {first second : List Bytes}
    (hfirst : first.flatten = body) (hsecond : second.flatten = body) :
    SameTreatment body hint first second ↔
      detectArchive body hint = .plain ∨ ∃ magic ∈ sniffed, magic <+: body ∧
        magic.length ≤ firstLength first ∧ magic.length ≤ firstLength second := by
  constructor
  · intro htreated
    by_cases hplain : detectArchive body hint = .plain
    · exact .inl hplain
    obtain ⟨hback, hback'⟩ := htreated.archive hplain
    obtain ⟨magic, hmagic, hprefix, hlength⟩ := tryStreamingRun_fallBack_iff.mp hback
    obtain ⟨other, hother, hprefix', hlength'⟩ := tryStreamingRun_fallBack_iff.mp hback'
    rw [hfirst] at hprefix
    rw [hsecond] at hprefix'
    cases sniffed_eq_of_prefix hmagic hother hprefix hprefix'
    exact .inr ⟨magic, hmagic, hprefix, hlength, hlength'⟩
  · rintro (hplain | ⟨magic, hmagic, hprefix, hlength, hlength'⟩)
    · have hnever : ∀ chunks : List Bytes, chunks.flatten = body →
          tryStreamingRun (response chunks) ≠ .ok .fallBack := by
        intro chunks hchunks hback
        obtain ⟨magic, hmagic, hprefix, -⟩ := tryStreamingRun_fallBack_iff.mp hback
        exact detectArchive_of_sniffed hmagic (hchunks ▸ hprefix) hint hplain
      exact ⟨iff_of_false (hnever first hfirst) (hnever second hsecond),
        fun harchive => absurd hplain harchive⟩
    · have hback := tryStreamingRun_fallBack_iff.mpr
        ⟨magic, hmagic, hfirst.symm ▸ hprefix, hlength⟩
      have hback' := tryStreamingRun_fallBack_iff.mpr
        ⟨magic, hmagic, hsecond.symm ▸ hprefix, hlength'⟩
      exact ⟨iff_of_true hback hback', fun _ => ⟨hback, hback'⟩⟩

/-- Both splits keep the magic of gzip in their first chunk. A first chunk of one byte divides it. -/
theorem sameTreatment_iff_gzip :
    SameTreatment [0x1f, 0x8b, 0x08] none [[0x1f, 0x8b, 0x08]] [[0x1f, 0x8b], [0x08]] ∧
      ¬SameTreatment [0x1f, 0x8b, 0x08] none [[0x1f, 0x8b, 0x08]] [[0x1f], [0x8b, 0x08]] := by
  have hwhole : [[(0x1f : UInt8), 0x8b, 0x08]].flatten = [0x1f, 0x8b, 0x08] := rfl
  constructor
  · have hbehind : [[(0x1f : UInt8), 0x8b], [0x08]].flatten = [0x1f, 0x8b, 0x08] := rfl
    exact (sameTreatment_iff none hwhole hbehind).mpr (.inr ⟨[0x1f, 0x8b], by decide⟩)
  · have hinside : [[(0x1f : UInt8)], [0x8b, 0x08]].flatten = [0x1f, 0x8b, 0x08] := rfl
    rw [sameTreatment_iff none hwhole hinside]
    decide

/-- A gzip body whose first chunk is one byte long goes to the text parser. -/
theorem divided_magic_not_sniffed :
    detectArchive [0x1f, 0x8b, 0x08] none = .gzip ∧
      tryStreamingRun (response [[0x1f, 0x8b, 0x08]]) = .ok .fallBack ∧
      tryStreamingRun (response [[0x1f], [0x8b, 0x08]]) = .ok .overlap ∧
      ¬ ∀ (body : Bytes) (hint : Option String) (first second : List Bytes),
        first.flatten = body → second.flatten = body → SameTreatment body hint first second := by
  refine ⟨rfl, rfl, rfl, fun h => ?_⟩
  have htreated := h [0x1f, 0x8b, 0x08] none [[0x1f, 0x8b, 0x08]] [[0x1f], [0x8b, 0x08]] rfl rfl
  have hback := htreated.decision.mp rfl
  cases hback

end IptvRelay.Ingest
