import IptvRelay.Lib.Occurrences
import IptvRelay.Parsers.M3u
import Mathlib.Data.List.DropRight
import Std.Data.String.ToNat

/-!
# Stable keys of playlist entries

Model of the keys in `ingest/src/pipeline.rs`. A key is made from what the provider says about
an entry and gets a number when it came before. Which characters are alphanumeric and their
lower case are parameters.
-/

namespace IptvRelay.Ingest

open Parsers

/-- The Unicode tables that the keys use. -/
structure Alphabet where
  isAlphanumeric : Char → Bool
  toLowercase : Char → List Char
  colon_not_alphanumeric : isAlphanumeric ':' = false
  colon_not_lowercase : ∀ c, isAlphanumeric c = true → ':' ∉ toLowercase c

section Model

variable {Url Duration : Type}

def tvgId (entry : M3uEntry Url Duration) : Option String := entry.attributes.get "tvg-id"

def groupTitle (entry : M3uEntry Url Duration) : Option String :=
  entry.attributes.get "group-title"

/-- `!value.trim().is_empty()`. -/
def present (value : String) : Bool := Text.trim value.toList ≠ []

def firstAttribute (attributes : Attributes) (keys : List String) : Option String :=
  (keys.findSome? attributes.get).filter present

/-- The loop of `normalize_identity_part`. -/
def normalizedFrom (alphabet : Alphabet) (separator : Bool) : List Char → List Char
  | [] => []
  | character :: rest =>
    if alphabet.isAlphanumeric character then
      alphabet.toLowercase character ++ normalizedFrom alphabet false rest
    else if separator then normalizedFrom alphabet true rest
    else '-' :: normalizedFrom alphabet true rest

/-- `str::trim_matches`. -/
def trimMatches (c : Char) (text : List Char) : List Char :=
  ((text.dropWhile (· = c)).reverse.dropWhile (· = c)).reverse

def normalizeIdentityPart (alphabet : Alphabet) (value : String) : String :=
  String.ofList (trimMatches '-' (normalizedFrom alphabet false (Text.trim value.toList)))

def stableM3uKey (alphabet : Alphabet) (entry : M3uEntry Url Duration) : String :=
  match (tvgId entry).filter present with
  | some tvgId => "tvg:" ++ tvgId
  | none =>
    match (firstAttribute entry.attributes ["channel-id", "stream-id", "id"]).filter present with
    | some streamId => "provider:" ++ streamId
    | none =>
      let channelNumber := (firstAttribute entry.attributes
        ["tvg-chno", "channel-number", "ch-number"]).getD ""
      "m3u:" ++ normalizeIdentityPart alphabet channelNumber ++ ":" ++
        normalizeIdentityPart alphabet ((groupTitle entry).getD "") ++ ":" ++
        normalizeIdentityPart alphabet entry.title

/-- A key that came before `duplicate` times. -/
def duplicateKey (baseKey : String) (duplicate : Nat) : String :=
  baseKey ++ ":duplicate-" ++ toString duplicate

/-- The map is the count of each key so far. -/
def uniqueM3uKey (alphabet : Alphabet) (entry : M3uEntry Url Duration)
    (stableKeys : String → Nat) : String × (String → Nat) :=
  let baseKey := stableM3uKey alphabet entry
  let duplicate := stableKeys baseKey
  let stableKey := if duplicate = 0 then baseKey else duplicateKey baseKey duplicate
  (stableKey, Function.update stableKeys baseKey (duplicate + 1))

/-- The keys of the entries of a snapshot in order. -/
def assignKeys (alphabet : Alphabet) (stableKeys : String → Nat) :
    List (M3uEntry Url Duration) → List String
  | [] => []
  | entry :: rest =>
    let (stableKey, stableKeys) := uniqueM3uKey alphabet entry stableKeys
    stableKey :: assignKeys alphabet stableKeys rest

end Model

/-! ## Keys with a number -/

def keyOf (occurrence : String × Nat) : String :=
  if occurrence.2 = 0 then occurrence.1 else duplicateKey occurrence.1 occurrence.2

theorem assignKeys_eq {Url Duration : Type} (alphabet : Alphabet) (stableKeys : String → Nat)
    (entries : List (M3uEntry Url Duration)) :
    assignKeys alphabet stableKeys entries =
      (Occurrences.numberedFrom stableKeys (entries.map (stableM3uKey alphabet))).map keyOf := by
  induction entries generalizing stableKeys with
  | nil => rfl
  | cons entry rest ih =>
    rw [assignKeys, List.map_cons, Occurrences.numberedFrom, List.map_cons]
    exact congrArg _ (ih _)

theorem isDigit_of_mem_toString {n : Nat} {c : Char} (h : c ∈ (toString n).toList) :
    c.isDigit = true := by
  change c ∈ (Nat.repr n).toList at h
  rw [Nat.toList_repr] at h
  exact Nat.isDigit_of_mem_toDigits (by decide) (by decide) h

/-- The digits at the end of a key that came before. -/
theorem rtakeWhile_duplicateKey (baseKey : String) (duplicate : Nat) :
    (duplicateKey baseKey duplicate).toList.rtakeWhile Char.isDigit =
      (toString duplicate).toList := by
  have hdigits : ∀ c ∈ (toString duplicate).toList.reverse, c.isDigit = true := fun c hc =>
    isDigit_of_mem_toString (List.mem_reverse.mp hc)
  have hsuffix : ":duplicate-".toList.reverse = '-' :: ":duplicate".toList.reverse := by decide
  rw [duplicateKey, String.toList_append, String.toList_append, List.rtakeWhile,
    List.reverse_append, List.reverse_append, hsuffix, List.takeWhile_append_of_pos hdigits,
    List.cons_append, List.takeWhile_cons_of_neg (by decide), List.append_nil,
    List.reverse_reverse]

theorem duplicateKey_inj {first second : String} {k l : Nat}
    (h : duplicateKey first k = duplicateKey second l) : first = second ∧ k = l := by
  have htail : (toString k).toList = (toString l).toList := by
    rw [← rtakeWhile_duplicateKey first, ← rtakeWhile_duplicateKey second, h]
  have hkl : k = l := Nat.repr_injective (String.toList_inj.mp htail)
  subst hkl
  refine ⟨?_, rfl⟩
  unfold duplicateKey at h
  exact (String.append_left_inj _).mp ((String.append_left_inj _).mp h)

/-- No key is the key of a later occurrence of another one. -/
def Unnumbered (keys : List String) : Prop :=
  ∀ key n, 0 < n → n < keys.count key → duplicateKey key n ∉ keys

theorem keyOf_nodup_iff (keys : List String) :
    ((Occurrences.numberedFrom (fun _ => 0) keys).map keyOf).Nodup ↔ Unnumbered keys := by
  rw [Occurrences.nodup_map_numberedFrom_iff]
  constructor
  · intro h key n hpos hn hmem
    have hpair := h (duplicateKey key n) 0 key n (List.count_pos_iff.mpr hmem) hn
      (by rw [keyOf, if_pos rfl, keyOf, if_neg (by simp; omega)])
    exact hpos.ne (Prod.mk.inj hpair).2
  · intro h a k b l hk hl heq
    unfold keyOf at heq
    have hmem : ∀ {key : String} {n : Nat}, n < keys.count key → key ∈ keys := fun hn =>
      List.count_pos_iff.mp (Nat.zero_lt_of_lt hn)
    split_ifs at heq with hzero hzero' hzero'
    · cases heq
      exact congrArg _ (hzero.trans hzero'.symm)
    · exact absurd (heq ▸ hmem hk) (h b l (Nat.pos_of_ne_zero hzero') hl)
    · exact absurd (heq ▸ hmem hl) (h a k (Nat.pos_of_ne_zero hzero) hk)
    · obtain ⟨hkey, hnumber⟩ := duplicateKey_inj heq
      exact Prod.ext hkey hnumber

/-! ## What the keys are made from -/

section Identities

variable {Url Duration : Type} (alphabet : Alphabet)

/-- The tvg id of an entry that has one. -/
def tvgIdentity (entry : M3uEntry Url Duration) : Option String := (tvgId entry).filter present

/-- The id that the provider gave to an entry without a tvg id. -/
def providerIdentity (entry : M3uEntry Url Duration) : Option String :=
  match tvgIdentity entry with
  | some _ => none
  | none =>
    (firstAttribute entry.attributes ["channel-id", "stream-id", "id"]).filter present

theorem normalizedFrom_colon (separator : Bool) (text : List Char) :
    ':' ∉ normalizedFrom alphabet separator text := by
  induction text generalizing separator with
  | nil => exact List.not_mem_nil
  | cons character rest ih =>
    unfold normalizedFrom
    split_ifs with halpha hseparator
    · exact fun h => (List.mem_append.mp h).elim
        (alphabet.colon_not_lowercase character halpha) (ih false)
    · exact ih true
    · exact List.not_mem_cons_of_ne_of_not_mem (by decide) (ih true)

theorem normalizeIdentityPart_colon (value : String) :
    (normalizeIdentityPart alphabet value).toList.count ':' = 0 := by
  apply List.count_eq_zero_of_not_mem
  rw [normalizeIdentityPart, String.toList_ofList]
  intro h
  apply normalizedFrom_colon alphabet false (Text.trim value.toList)
  have hinner := List.mem_reverse.mp ((List.dropWhile_sublist _).mem (List.mem_reverse.mp h))
  exact (List.dropWhile_sublist _).mem hinner

/-- An entry has a tvg id, or an id of the provider, or else a key with three colons. -/
theorem stableM3uKey_cases (entry : M3uEntry Url Duration) :
    (∃ id, tvgIdentity entry = some id ∧ stableM3uKey alphabet entry = "tvg:" ++ id) ∨
    (∃ id, tvgIdentity entry = none ∧ providerIdentity entry = some id ∧
      stableM3uKey alphabet entry = "provider:" ++ id) ∨
    (tvgIdentity entry = none ∧ providerIdentity entry = none ∧
      ∃ rest, stableM3uKey alphabet entry = "m3u:" ++ rest ∧ rest.toList.count ':' = 2) := by
  unfold stableM3uKey providerIdentity tvgIdentity
  split
  · next id htvg => exact .inl ⟨id, htvg, rfl⟩
  · next htvg =>
    split
    · next id hid => exact .inr (.inl ⟨id, htvg, hid, rfl⟩)
    · next hid =>
      simp only [String.append_assoc]
      refine .inr (.inr ⟨htvg, hid, _, rfl, ?_⟩)
      have hcolon : ":".toList.count ':' = 1 := by decide
      simp only [String.toList_append, List.count_append, normalizeIdentityPart_colon, hcolon]

theorem append_ne {kind other : String} {c d : Char} {rest rest' : List Char}
    (hkind : kind.toList = c :: rest) (hother : other.toList = d :: rest') (hcd : c ≠ d)
    (id id' : String) : kind ++ id ≠ other ++ id' := by
  intro h
  have hlist := congrArg String.toList h
  rw [String.toList_append, String.toList_append, hkind, hother] at hlist
  exact hcd (List.cons.inj hlist).1

theorem tvg_ne_provider (id id' : String) : "tvg:" ++ id ≠ "provider:" ++ id' :=
  append_ne rfl rfl (by decide) id id'

theorem tvg_ne_fallback (id rest : String) : "tvg:" ++ id ≠ "m3u:" ++ rest :=
  append_ne rfl rfl (by decide) id rest

theorem provider_ne_fallback (id rest : String) : "provider:" ++ id ≠ "m3u:" ++ rest :=
  append_ne rfl rfl (by decide) id rest

theorem stableM3uKey_tvg (entry : M3uEntry Url Duration) (id : String) :
    stableM3uKey alphabet entry = "tvg:" ++ id ↔ tvgIdentity entry = some id := by
  obtain ⟨own, htvg, hkey⟩ | ⟨own, htvg, -, hkey⟩ | ⟨htvg, -, rest, hkey, -⟩ :=
    stableM3uKey_cases alphabet entry
  · rw [hkey, htvg, String.append_right_inj, Option.some_inj]
  · rw [hkey, htvg]
    exact ⟨fun h => absurd h.symm (tvg_ne_provider id own), nofun⟩
  · rw [hkey, htvg]
    exact ⟨fun h => absurd h.symm (tvg_ne_fallback id rest), nofun⟩

theorem stableM3uKey_provider (entry : M3uEntry Url Duration) (id : String) :
    stableM3uKey alphabet entry = "provider:" ++ id ↔ providerIdentity entry = some id := by
  obtain ⟨own, htvg, hkey⟩ | ⟨own, htvg, hid, hkey⟩ | ⟨htvg, hid, rest, hkey, -⟩ :=
    stableM3uKey_cases alphabet entry
  · rw [hkey, providerIdentity, htvg]
    exact ⟨fun h => absurd h (tvg_ne_provider own id), nofun⟩
  · rw [hkey, hid, String.append_right_inj, Option.some_inj]
  · rw [hkey, hid]
    exact ⟨fun h => absurd h.symm (provider_ne_fallback id rest), nofun⟩

end Identities

/-! ## Keys of one kind -/

section Kind

variable {Entry : Type} {key : Entry → String} {identity : Entry → Option String} {kind : String}

/-- The keys of a kind occur as often as what they are made from. -/
theorem count_kind (hkind : ∀ entry id, key entry = kind ++ id ↔ identity entry = some id)
    (entries : List Entry) (id : String) :
    (entries.map key).count (kind ++ id) = (entries.filterMap identity).count id := by
  induction entries with
  | nil => rfl
  | cons entry rest ih =>
    rw [List.map_cons, List.count_cons, ih]
    by_cases hid : identity entry = some id
    · rw [List.filterMap_cons_some hid, List.count_cons_self, if_pos (by
        rw [beq_iff_eq]; exact (hkind entry id).mpr hid)]
    · rw [if_neg (by rw [beq_iff_eq]; exact fun h => hid ((hkind entry id).mp h)), Nat.add_zero]
      cases hother : identity entry with
      | none => rw [List.filterMap_cons_none hother]
      | some other =>
        rw [List.filterMap_cons_some hother, List.count_cons_of_ne]
        exact fun h => hid (hother.trans (congrArg some h))

theorem duplicateKey_kind (kind id : String) (n : Nat) :
    duplicateKey (kind ++ id) n = kind ++ duplicateKey id n := by
  unfold duplicateKey
  rw [String.append_assoc, String.append_assoc, String.append_assoc]

theorem Unnumbered.of_keys (hkind : ∀ entry id, key entry = kind ++ id ↔ identity entry = some id)
    {entries : List Entry} (h : Unnumbered (entries.map key)) :
    Unnumbered (entries.filterMap identity) := by
  intro id n hpos hn hmem
  apply h (kind ++ id) n hpos
  · rwa [count_kind hkind]
  · rw [duplicateKey_kind, ← List.count_pos_iff, count_kind hkind]
    exact List.count_pos_iff.mpr hmem

theorem Unnumbered.not_mem (hkind : ∀ entry id, key entry = kind ++ id ↔ identity entry = some id)
    {entries : List Entry} (h : Unnumbered (entries.filterMap identity)) {id : String} {n : Nat}
    (hpos : 0 < n) (hn : n < (entries.map key).count (kind ++ id)) :
    duplicateKey (kind ++ id) n ∉ entries.map key := by
  rw [count_kind hkind] at hn
  intro hmem
  rw [duplicateKey_kind, ← List.count_pos_iff, count_kind hkind] at hmem
  exact h id n hpos hn (List.count_pos_iff.mp hmem)

end Kind

/-! ## When the keys are distinct -/

variable {Url Duration : Type}

theorem count_colon_duplicateKey (baseKey : String) (n : Nat) :
    (duplicateKey baseKey n).toList.count ':' = baseKey.toList.count ':' + 1 := by
  have hmiddle : ":duplicate-".toList.count ':' = 1 := by decide
  have hdigits : (toString n).toList.count ':' = 0 := List.count_eq_zero_of_not_mem fun h =>
    absurd (isDigit_of_mem_toString h) (by decide)
  rw [duplicateKey, String.toList_append, String.toList_append, List.count_append,
    List.count_append, hmiddle, hdigits]

/-- A key that is made from number, group and title is no key with a number. -/
theorem fallback_unnumbered (alphabet : Alphabet) (entry : M3uEntry Url Duration) {rest : String}
    (hcolons : rest.toList.count ':' = 2) (n : Nat) :
    stableM3uKey alphabet entry ≠ duplicateKey ("m3u:" ++ rest) n := by
  rw [duplicateKey_kind]
  obtain ⟨own, -, hkey⟩ | ⟨own, -, -, hkey⟩ | ⟨-, -, other, hkey, hother⟩ :=
    stableM3uKey_cases alphabet entry
  · exact hkey ▸ tvg_ne_fallback _ _
  · exact hkey ▸ provider_ne_fallback _ _
  · intro h
    rw [hkey, String.append_right_inj] at h
    have hcount := count_colon_duplicateKey rest n
    rw [← h] at hcount
    omega

theorem unnumbered_keys_iff (alphabet : Alphabet) (entries : List (M3uEntry Url Duration)) :
    Unnumbered (entries.map (stableM3uKey alphabet)) ↔
      Unnumbered (entries.filterMap tvgIdentity) ∧
        Unnumbered (entries.filterMap providerIdentity) := by
  constructor
  · exact fun h =>
      ⟨h.of_keys (stableM3uKey_tvg alphabet), h.of_keys (stableM3uKey_provider alphabet)⟩
  · rintro ⟨htvg, hprovider⟩ key n hpos hn hmem
    obtain ⟨entry, -, rfl⟩ := List.mem_map.mp (List.count_pos_iff.mp (Nat.zero_lt_of_lt hn))
    obtain ⟨own, -, hkey⟩ | ⟨own, -, -, hkey⟩ | ⟨-, -, rest, hkey, hcolons⟩ :=
      stableM3uKey_cases alphabet entry
    · rw [hkey] at hn hmem
      exact htvg.not_mem (stableM3uKey_tvg alphabet) hpos hn hmem
    · rw [hkey] at hn hmem
      exact hprovider.not_mem (stableM3uKey_provider alphabet) hpos hn hmem
    · obtain ⟨other, -, hother⟩ := List.mem_map.mp hmem
      rw [hkey] at hother
      exact fallback_unnumbered alphabet other hcolons n hother

/-- The keys of a snapshot are distinct exactly when no tvg id is the one of another entry with
the number of a later occurrence, and no id of the provider is. -/
theorem assignKeys_nodup_iff (alphabet : Alphabet) (entries : List (M3uEntry Url Duration)) :
    (assignKeys alphabet (fun _ => 0) entries).Nodup ↔
      Unnumbered (entries.filterMap tvgIdentity) ∧
        Unnumbered (entries.filterMap providerIdentity) := by
  rw [assignKeys_eq, keyOf_nodup_iff, unnumbered_keys_iff]

theorem colon_ne_toLower {c : Char} (hc : c.isAlphanum = true) : ':' ≠ c.toLower := by
  intro h
  unfold Char.toLower at h
  split at h
  · next hupper =>
    have hval := congrArg (fun d => d.val.toNat) h
    have hlow := UInt32.le_iff_toNat_le.mp hupper.1
    have hhigh := UInt32.le_iff_toNat_le.mp hupper.2
    simp only [UInt32.toNat_add] at hval
    change 58 = (c.val.toNat + 32) % 4294967296 at hval
    change 65 ≤ c.val.toNat at hlow
    change c.val.toNat ≤ 90 at hhigh
    omega
  · exact absurd (h ▸ hc) (by decide)

/-- The alphabet of ASCII. -/
def Alphabet.ascii : Alphabet where
  isAlphanumeric := Char.isAlphanum
  toLowercase c := [c.toLower]
  colon_not_alphanumeric := by decide
  colon_not_lowercase _ hc h := colon_ne_toLower hc (List.mem_singleton.mp h)

def entryOf (id : String) : M3uEntry String Nat where
  durationSeconds := none
  title := "News"
  attributes := [("tvg-id", id)]
  url := "http://tv/1"
  directives := []
  rawExtinf := none

/-- The third id is the second key of the first. -/
theorem numbered_id_collides : ¬ ∀ entries : List (M3uEntry String Nat),
    (assignKeys Alphabet.ascii (fun _ => 0) entries).Nodup := by
  intro h
  have hkeys := h [entryOf "a", entryOf "a", entryOf "a:duplicate-1"]
  exact absurd hkeys (by decide +kernel)

end IptvRelay.Ingest
