import Mathlib.Data.List.Nodup
import Mathlib.Tactic.Tauto

/-!
# Tables

A table is a list of rows with a key. `UPDATE … WHERE` and `DELETE … WHERE` are maps
and filters; an insert appends a row whose key is new.
-/

namespace Table

universe u v

variable {α : Type u} {κ : Type v}

/-- `UPDATE … SET … WHERE …`. -/
def update (p : α → Bool) (f : α → α) (rows : List α) : List α :=
  rows.map fun row => if p row then f row else row

/-- `DELETE … WHERE …`. -/
def delete (p : α → Bool) (rows : List α) : List α := rows.filter fun row => !p row

/-- `SELECT count(*) … WHERE …`. -/
def count (p : α → Bool) (rows : List α) : Nat := (rows.filter p).length

variable {p : α → Bool} {f : α → α} {rows : List α} {row : α}

theorem mem_update : row ∈ update p f rows ↔ ∃ old ∈ rows, (if p old then f old else old) = row :=
  List.mem_map

theorem mem_delete : row ∈ delete p rows ↔ row ∈ rows ∧ p row = false := by
  simp [delete]

/-- A row after an update is untouched or changed. -/
theorem update_cases (h : row ∈ update p f rows) :
    (row ∈ rows ∧ p row = false) ∨ ∃ old ∈ rows, p old = true ∧ row = f old := by
  obtain ⟨old, hold, rfl⟩ := mem_update.mp h
  cases hp : p old with
  | true => exact .inr ⟨old, hold, hp, if_pos rfl⟩
  | false => exact .inl ⟨by simpa using hold, by simpa using hp⟩

theorem mem_update_of_mem (h : row ∈ rows) : (if p row then f row else row) ∈ update p f rows :=
  List.mem_map_of_mem h

/-- A query over columns that an update keeps. -/
theorem map_update {β : Type v} {g : α → β} (hkeep : ∀ row, p row = true → g (f row) = g row) :
    (update p f rows).map g = rows.map g := by
  simp only [update, List.map_map]
  refine List.map_congr_left fun row _ => ?_
  cases hp : p row with
  | true => simp [Function.comp, hp, hkeep row hp]
  | false => simp [Function.comp, hp]

/-- The same with a condition on columns that the update keeps. -/
theorem map_filter_update {β : Type v} {g : α → β} {q : α → Bool}
    (hq : ∀ row, p row = true → q (f row) = q row)
    (hkeep : ∀ row, p row = true → g (f row) = g row) :
    ((update p f rows).filter q).map g = (rows.filter q).map g := by
  have hsame : ∀ row, q (if p row then f row else row) = q row ∧
      g (if p row then f row else row) = g row := by
    intro row
    cases hp : p row with
    | true => simp [hq row hp, hkeep row hp]
    | false => simp
  simp only [update, List.filter_map, List.map_map, Function.comp_def, hsame]

/-- A lookup by columns that an update keeps. -/
theorem find?_update {q : α → Bool} (hkeep : ∀ row, p row = true → q (f row) = q row) :
    (update p f rows).find? q = (rows.find? q).map fun row => if p row then f row else row := by
  unfold update
  rw [List.find?_map]
  refine congrArg (Option.map _) (congrArg (fun r => List.find? r rows) (funext fun row => ?_))
  cases hp : p row with
  | true => simp [hp, hkeep row hp]
  | false => simp [hp]

/-- Rows with equal keys are the same row. -/
theorem eq_of_key {key : α → κ} (h : (rows.map key).Nodup) {a b : α} (ha : a ∈ rows)
    (hb : b ∈ rows) (heq : key a = key b) : a = b :=
  List.inj_on_of_nodup_map h ha hb heq

/-- A key finds its row. -/
theorem find?_of_key [DecidableEq κ] {key : α → κ} (h : (rows.map key).Nodup) (hrow : row ∈ rows) :
    rows.find? (fun other => decide (key other = key row)) = some row := by
  cases hfound : rows.find? (fun other => decide (key other = key row)) with
  | none => simpa using List.find?_eq_none.mp hfound row hrow
  | some other =>
    have hkey : key other = key row := by simpa using List.find?_some hfound
    rw [eq_of_key h (List.mem_of_find?_eq_some hfound) hrow hkey]

/-- What a column of the row of a key holds. -/
theorem find?_map_eq_some_iff {β : Type*} [DecidableEq κ] {key : α → κ} (h : (rows.map key).Nodup)
    {k : κ} {f : α → β} {value : β} :
    (rows.find? fun row => key row = k).map f = some value ↔
      ∃ row ∈ rows, key row = k ∧ f row = value := by
  constructor
  · intro hfound
    obtain ⟨row, hrow, hvalue⟩ := Option.map_eq_some_iff.mp hfound
    exact ⟨row, List.mem_of_find?_eq_some hrow, by simpa using List.find?_some hrow, hvalue⟩
  · rintro ⟨row, hrow, rfl, rfl⟩
    rw [find?_of_key h hrow, Option.map_some]

/-- A join on a key finds one row. -/
theorem filter_of_key [DecidableEq κ] {key : α → κ} (h : (rows.map key).Nodup) (hrow : row ∈ rows) :
    rows.filter (fun other => decide (key other = key row)) = [row] := by
  induction rows with
  | nil => cases hrow
  | cons first rest ih =>
    obtain ⟨hfirst, hrest⟩ := List.nodup_cons.mp h
    rcases List.mem_cons.mp hrow with rfl | hrow
    · have hnil : rest.filter (fun other => decide (key other = key row)) = [] :=
        List.filter_eq_nil_iff.mpr fun other hother heq =>
          hfirst (of_decide_eq_true heq ▸ List.mem_map_of_mem hother)
      rw [List.filter_cons, if_pos (decide_eq_true rfl), hnil]
    · have hne : key first ≠ key row := fun heq => hfirst (heq ▸ List.mem_map_of_mem hrow)
      rw [List.filter_cons, if_neg fun heq => hne (of_decide_eq_true heq), ih hrest hrow]

theorem delete_sublist : (delete p rows).Sublist rows := List.filter_sublist

theorem nodup_update {key : α → κ} (hkeep : ∀ row, p row = true → key (f row) = key row)
    (h : (rows.map key).Nodup) : ((update p f rows).map key).Nodup := by
  rwa [map_update hkeep]

theorem nodup_delete {key : α → κ} (h : (rows.map key).Nodup) :
    ((delete p rows).map key).Nodup :=
  h.sublist (delete_sublist.map key)

theorem count_append {rows more : List α} : count p (rows ++ more) = count p rows + count p more := by
  simp [count]

theorem count_delete_le {q : α → Bool} : count p (delete q rows) ≤ count p rows :=
  (delete_sublist.filter p).length_le

theorem count_eq_zero : count p rows = 0 ↔ ∀ row ∈ rows, p row = false := by
  simp [count]

/-- A key counts once. -/
theorem count_key [DecidableEq κ] {key : α → κ} (h : (rows.map key).Nodup) (hrow : row ∈ rows) :
    count (fun other => decide (key other = key row)) rows = 1 := by
  have hone : (rows.map key).count (key row) = 1 :=
    List.count_eq_one_of_mem h (List.mem_map_of_mem hrow)
  rw [List.count, List.countP_map, List.countP_eq_length_filter] at hone
  exact hone

/-! ## What a part of a table sees -/

/-- An update outside a part of the table. -/
theorem filter_update_of_disjoint {q : α → Bool}
    (h : ∀ row ∈ rows, p row = true → q row = false ∧ q (f row) = false) :
    (update p f rows).filter q = rows.filter q := by
  induction rows with
  | nil => rfl
  | cons row rows ih =>
    have hrest := ih fun other hother => h other (List.mem_cons_of_mem row hother)
    unfold update at hrest ⊢
    rw [List.map_cons, List.filter_cons, List.filter_cons, hrest]
    cases hp : p row with
    | true =>
      obtain ⟨hold, hnew⟩ := h row List.mem_cons_self hp
      simp [hold, hnew]
    | false => rw [if_neg Bool.false_ne_true]

/-- An update that keeps what a part of the table is selected by. -/
theorem filter_update {q : α → Bool} (hkeep : ∀ row, q (f row) = q row) :
    (update p f rows).filter q = update p f (rows.filter q) := by
  unfold update
  rw [List.filter_map]
  refine congrArg (List.map _) (List.filter_congr fun row _ => ?_)
  cases hp : p row with
  | true => simp only [Function.comp_apply, hp, if_true, hkeep]
  | false => simp only [Function.comp_apply, hp, if_neg Bool.false_ne_true]

/-- A delete outside a part of the table. -/
theorem filter_delete_of_disjoint {q : α → Bool}
    (h : ∀ row ∈ rows, p row = true → q row = false) : (delete p rows).filter q = rows.filter q := by
  unfold delete
  rw [List.filter_filter]
  refine List.filter_congr fun row hrow => ?_
  cases hp : p row with
  | true => rw [h row hrow hp, Bool.false_and]
  | false => rw [Bool.not_false, Bool.and_true]

/-- Tables that have the same rows under each key. -/
theorem perm_of_filter [DecidableEq κ] (key : α → κ) {other : List α}
    (h : ∀ k, (rows.filter fun row => key row = k).Perm (other.filter fun row => key row = k)) :
    rows.Perm other := by
  classical
  rw [List.perm_iff_count]
  intro row
  have hcount : ∀ table : List α,
      (table.filter fun a => key a = key row).count row = table.count row :=
    fun table => List.count_filter (decide_eq_true rfl)
  rw [← hcount rows, ← hcount other]
  exact (h (key row)).count_eq row

/-! ## Inserts that meet a row -/

section Upsert

variable [DecidableEq κ] {key : α → κ}

/-- `INSERT … ON CONFLICT (key) DO UPDATE`. -/
def upsert (key : α → κ) (rows : List α) (row : α) : List α :=
  if rows.any fun old => key old = key row then
    update (fun old => key old = key row) (fun _ => row) rows
  else rows ++ [row]

theorem upsert_of_new (h : key row ∉ rows.map key) : upsert key rows row = rows ++ [row] := by
  refine if_neg fun hany => ?_
  obtain ⟨old, hold, hkey⟩ := List.any_eq_true.mp hany
  exact h (List.mem_map.mpr ⟨old, hold, of_decide_eq_true hkey⟩)

theorem mem_upsert {x : α} :
    x ∈ upsert key rows row ↔ x = row ∨ (x ∈ rows ∧ key x ≠ key row) := by
  unfold upsert
  split
  · rename_i hany
    obtain ⟨old, hold, hkey⟩ := List.any_eq_true.mp hany
    refine ⟨fun hx => ?_, ?_⟩
    · rcases update_cases hx with ⟨hmem, hother⟩ | ⟨_, _, _, rfl⟩
      · exact .inr ⟨hmem, of_decide_eq_false hother⟩
      · exact .inl rfl
    · rintro (rfl | ⟨hmem, hother⟩)
      · exact mem_update.mpr ⟨old, hold, if_pos hkey⟩
      · exact mem_update.mpr ⟨x, hmem, if_neg (by simpa using hother)⟩
  · rename_i hnone
    have hother : ∀ old ∈ rows, key old ≠ key row := by simpa using hnone
    rw [List.mem_append, List.mem_singleton]
    refine ⟨fun hx => ?_, fun hx => ?_⟩
    · rcases hx with hmem | rfl
      · exact .inr ⟨hmem, hother x hmem⟩
      · exact .inl rfl
    · rcases hx with rfl | ⟨hmem, -⟩
      · exact .inr rfl
      · exact .inl hmem

/-- A key finds the row that was put last. -/
theorem find?_upsert (k : κ) :
    (upsert key rows row).find? (fun other => decide (key other = k)) =
      if key row = k then some row else rows.find? fun other => decide (key other = k) := by
  unfold upsert
  split
  · rename_i hany
    obtain ⟨old, hold, hkey⟩ := List.any_eq_true.mp hany
    have hkey := of_decide_eq_true hkey
    rw [find?_update fun other hother => by rw [of_decide_eq_true hother]]
    split_ifs with hk
    · cases hfound : rows.find? fun other => decide (key other = k) with
      | none => exact absurd (hkey.trans hk) (by simpa using List.find?_eq_none.mp hfound old hold)
      | some other =>
        have hother : key other = k := by simpa using List.find?_some hfound
        simp [hother, hk]
    · cases hfound : rows.find? fun other => decide (key other = k) with
      | none => rfl
      | some other =>
        have hother : key other = k := by simpa using List.find?_some hfound
        simp [hother, Ne.symm hk]
  · rename_i hnone
    rw [List.find?_append]
    split_ifs with hk
    · have hrows : rows.find? (fun other => decide (key other = k)) = none := by
        rw [List.find?_eq_none, ← hk]
        simpa using hnone
      simp [hrows, hk]
    · simp [hk]

theorem find?_foldl_upsert (new : List α) (k : κ) :
    (new.foldl (upsert key) rows).find? (fun other => decide (key other = k)) =
      (new.reverse.find? fun other => decide (key other = k)).or
        (rows.find? fun other => decide (key other = k)) := by
  induction new generalizing rows with
  | nil => rfl
  | cons row new ih =>
    rw [List.foldl_cons, ih, find?_upsert, List.reverse_cons, List.find?_append, Option.or_assoc]
    congr 1
    split_ifs with hk <;> simp [hk]

theorem nodup_upsert (h : (rows.map key).Nodup) : ((upsert key rows row).map key).Nodup := by
  unfold upsert
  split
  · exact nodup_update (fun old hold => (of_decide_eq_true hold).symm) h
  · rename_i hnone
    have hother : ∀ old ∈ rows, key old ≠ key row := by simpa using hnone
    rw [List.map_append]
    refine List.nodup_append.mpr ⟨h, List.nodup_singleton _, ?_⟩
    intro k hk other hother'
    obtain ⟨old, hold, rfl⟩ := List.mem_map.mp hk
    rw [List.mem_singleton.mp hother']
    exact hother old hold

theorem nodup_foldl_upsert (new : List α) (h : (rows.map key).Nodup) :
    ((new.foldl (upsert key) rows).map key).Nodup := by
  induction new generalizing rows with
  | nil => exact h
  | cons row new ih => exact ih (nodup_upsert h)

/-- Rows that come later win; the others stay. -/
theorem mem_foldl_upsert {new : List α} (hnew : (new.map key).Nodup) {x : α} :
    x ∈ new.foldl (upsert key) rows ↔ x ∈ new ∨ (x ∈ rows ∧ key x ∉ new.map key) := by
  induction new generalizing rows with
  | nil => simp
  | cons row new ih =>
    obtain ⟨hrow, hrest⟩ := List.nodup_cons.mp hnew
    rw [List.foldl_cons, ih hrest, mem_upsert, List.map_cons]
    constructor
    · rintro (hmem | ⟨rfl | ⟨hmem, hother⟩, hnot⟩)
      · exact .inl (List.mem_cons_of_mem row hmem)
      · exact .inl List.mem_cons_self
      · exact .inr ⟨hmem, List.not_mem_cons_of_ne_of_not_mem hother hnot⟩
    · rintro (hmem | ⟨hmem, hnot⟩)
      · rcases List.mem_cons.mp hmem with rfl | hmem
        · exact .inr ⟨.inl rfl, hrow⟩
        · exact .inl hmem
      · exact .inr ⟨.inr ⟨hmem, List.ne_of_not_mem_cons hnot⟩, List.not_mem_of_not_mem_cons hnot⟩

end Upsert

section Merge

variable [DecidableEq κ] {key : α → κ} {merge : α → α → α}

/-- `INSERT … ON CONFLICT (key) DO UPDATE`, with what the update makes of the old row. -/
def mergeRow (key : α → κ) (merge : α → α → α) (rows : List α) (row : α) : List α :=
  if rows.any fun old => key old = key row then
    update (fun old => key old = key row) (fun old => merge old row) rows
  else rows ++ [row]

theorem find?_mergeRow (hkeep : ∀ old row, key old = key row → key (merge old row) = key row)
    (k : κ) :
    (mergeRow key merge rows row).find? (fun other => decide (key other = k)) =
      if key row = k then
        some ((rows.find? fun other => decide (key other = k)).elim row fun old => merge old row)
      else rows.find? fun other => decide (key other = k) := by
  unfold mergeRow
  split
  · rename_i hany
    obtain ⟨old, hold, hkey⟩ := List.any_eq_true.mp hany
    have hkey := of_decide_eq_true hkey
    rw [find?_update fun other hother => by
      have hother := of_decide_eq_true hother
      rw [hkeep other row hother, hother]]
    cases hfound : rows.find? fun other => decide (key other = k) with
    | none =>
      have hne : key row ≠ k := fun hk => by
        simpa [hkey, hk] using List.find?_eq_none.mp hfound old hold
      rw [if_neg hne, Option.map_none]
    | some other =>
      have hother : key other = k := by simpa using List.find?_some hfound
      split_ifs with hk
      · simp [hother, hk]
      · simp [hother, Ne.symm hk]
  · rename_i hnone
    rw [List.find?_append]
    split_ifs with hk
    · have hrows : rows.find? (fun other => decide (key other = k)) = none := by
        rw [List.find?_eq_none, ← hk]
        simpa using hnone
      simp [hrows, hk]
    · simp [hk]

/-- Rows with different keys are merged independently of each other. -/
theorem find?_foldl_mergeRow
    (hkeep : ∀ old row, key old = key row → key (merge old row) = key row) {new : List α}
    (hnew : (new.map key).Nodup) (k : κ) :
    (new.foldl (mergeRow key merge) rows).find? (fun other => decide (key other = k)) =
      (new.find? fun other => decide (key other = k)).elim
        (rows.find? fun other => decide (key other = k)) fun row =>
          some ((rows.find? fun other => decide (key other = k)).elim row fun old =>
            merge old row) := by
  induction new generalizing rows with
  | nil => rfl
  | cons row new ih =>
    obtain ⟨hrow, hrest⟩ := List.nodup_cons.mp hnew
    rw [List.foldl_cons, ih hrest, find?_mergeRow hkeep, List.find?_cons]
    by_cases hk : key row = k
    · have hothers : new.find? (fun other => decide (key other = k)) = none := by
        rw [List.find?_eq_none]
        intro other hother hsame
        apply hrow
        rw [hk, ← of_decide_eq_true hsame]
        exact List.mem_map_of_mem hother
      simp [hk, hothers]
    · simp [hk]

theorem nodup_mergeRow (hkeep : ∀ old row, key old = key row → key (merge old row) = key row)
    (h : (rows.map key).Nodup) : ((mergeRow key merge rows row).map key).Nodup := by
  unfold mergeRow
  split
  · refine nodup_update (fun old hold => ?_) h
    have hold := of_decide_eq_true hold
    rw [hkeep old row hold, hold]
  · rename_i hnone
    have hother : ∀ old ∈ rows, key old ≠ key row := by simpa using hnone
    rw [List.map_append]
    refine List.nodup_append.mpr ⟨h, List.nodup_singleton _, ?_⟩
    intro k hk other hother'
    obtain ⟨old, hold, rfl⟩ := List.mem_map.mp hk
    rw [List.mem_singleton.mp hother']
    exact hother old hold

theorem find?_foldl_mergeRow_of_not_mem
    (hkeep : ∀ old row, key old = key row → key (merge old row) = key row) {new : List α} {k : κ}
    (hk : k ∉ new.map key) :
    (new.foldl (mergeRow key merge) rows).find? (fun other => decide (key other = k)) =
      rows.find? fun other => decide (key other = k) := by
  induction new generalizing rows with
  | nil => rfl
  | cons row new ih =>
    obtain ⟨hrow, hnew⟩ := not_or.mp (List.mem_cons.not.mp hk)
    rw [List.foldl_cons, ih hnew, find?_mergeRow hkeep, if_neg (Ne.symm hrow)]

theorem nodup_foldl_mergeRow
    (hkeep : ∀ old row, key old = key row → key (merge old row) = key row) (new : List α)
    (h : (rows.map key).Nodup) : ((new.foldl (mergeRow key merge) rows).map key).Nodup := by
  induction new generalizing rows with
  | nil => exact h
  | cons row new ih => exact ih (nodup_mergeRow hkeep h)

/-- A lookup behind a delete. -/
theorem find?_delete (h : (rows.map key).Nodup) (k : κ) :
    (delete p rows).find? (fun other => decide (key other = k)) =
      (rows.find? fun other => decide (key other = k)).filter fun row => !p row := by
  induction rows with
  | nil => rfl
  | cons row rows ih =>
    obtain ⟨hrow, hrest⟩ := List.nodup_cons.mp h
    have ih := ih hrest
    unfold delete at ih ⊢
    rw [List.filter_cons, List.find?_cons]
    by_cases hk : key row = k
    · rw [decide_eq_true hk]
      cases hp : p row with
      | true =>
        have hothers : rows.find? (fun other => decide (key other = k)) = none := by
          rw [List.find?_eq_none]
          intro other hother hsame
          apply hrow
          rw [hk, ← of_decide_eq_true hsame]
          exact List.mem_map_of_mem hother
        rw [if_neg (by simp), ih, hothers]
        simp [Option.filter, hp]
      | false => simp [Option.filter, hp, hk]
    · rw [decide_eq_false hk]
      cases hp : p row with
      | true =>
        rw [if_neg (by simp)]
        exact ih
      | false =>
        rw [if_pos (by simp), List.find?_cons, decide_eq_false hk]
        exact ih

/-- Merging adds no other keys. -/
theorem mem_keys_mergeRow (hkeep : ∀ old row, key old = key row → key (merge old row) = key row)
    {k : κ} (hk : k ∈ (mergeRow key merge rows row).map key) : k ∈ rows.map key ∨ k = key row := by
  unfold mergeRow at hk
  split at hk
  · rw [map_update fun old hold => by
      have hold := of_decide_eq_true hold
      rw [hkeep old row hold, hold]] at hk
    exact .inl hk
  · rw [List.map_append] at hk
    exact (List.mem_append.mp hk).imp id List.mem_singleton.mp

theorem mem_keys_foldl_mergeRow
    (hkeep : ∀ old row, key old = key row → key (merge old row) = key row) {new : List α} {k : κ}
    (hk : k ∈ (new.foldl (mergeRow key merge) rows).map key) :
    k ∈ rows.map key ∨ k ∈ new.map key := by
  induction new generalizing rows with
  | nil => exact .inl hk
  | cons row new ih =>
    rw [List.map_cons, List.mem_cons]
    rcases ih hk with hk | hk
    · exact (mem_keys_mergeRow hkeep hk).imp id .inl
    · exact .inr (.inr hk)

/-- Rows with new keys are appended. -/
theorem foldl_mergeRow_of_new {new : List α} (h : ((rows ++ new).map key).Nodup) :
    new.foldl (mergeRow key merge) rows = rows ++ new := by
  induction new generalizing rows with
  | nil => rw [List.foldl_nil, List.append_nil]
  | cons row new ih =>
    have hnew : mergeRow key merge rows row = rows ++ [row] := by
      refine if_neg fun hany => ?_
      obtain ⟨old, hold, hkey⟩ := List.any_eq_true.mp hany
      rw [List.map_append, List.map_cons] at h
      exact (List.nodup_append.mp h).2.2 (key old) (List.mem_map_of_mem hold) (key row)
        List.mem_cons_self (of_decide_eq_true hkey)
    rw [List.foldl_cons, hnew, ih (by rwa [List.append_assoc]), List.append_assoc]
    rfl

end Merge

/-! ## Rows made from rows -/

section Made

universe w

variable {β : Type w} [DecidableEq κ] {key : α → κ} {source : β → κ} {sources : List β}
  {f : β → List α}

/-- The rows that are made from one row. -/
theorem filter_flatMap_of_key (h : (sources.map source).Nodup)
    (hkey : ∀ b ∈ sources, ∀ a ∈ f b, key a = source b) {b : β} (hb : b ∈ sources) :
    (sources.flatMap f).filter (fun a => decide (key a = source b)) = f b := by
  induction sources with
  | nil => cases hb
  | cons first rest ih =>
    obtain ⟨hfirst, hrest⟩ := List.nodup_cons.mp h
    have hrestkey : ∀ b ∈ rest, ∀ a ∈ f b, key a = source b :=
      fun c hc => hkey c (List.mem_cons_of_mem first hc)
    rw [List.flatMap_cons, List.filter_append]
    rcases List.mem_cons.mp hb with rfl | hb
    · have hown : (f b).filter (fun a => decide (key a = source b)) = f b :=
        List.filter_eq_self.mpr fun a ha => decide_eq_true (hkey b List.mem_cons_self a ha)
      have hothers : (rest.flatMap f).filter (fun a => decide (key a = source b)) = [] := by
        refine List.filter_eq_nil_iff.mpr fun a ha hsame => hfirst ?_
        obtain ⟨c, hc, hac⟩ := List.mem_flatMap.mp ha
        rw [← of_decide_eq_true hsame, hrestkey c hc a hac]
        exact List.mem_map_of_mem hc
      rw [hown, hothers, List.append_nil]
    · have hown : (f first).filter (fun a => decide (key a = source b)) = [] := by
        refine List.filter_eq_nil_iff.mpr fun a ha hsame => hfirst ?_
        rw [← hkey first List.mem_cons_self a ha, of_decide_eq_true hsame]
        exact List.mem_map_of_mem hb
      rw [hown, List.nil_append, ih hrest hrestkey hb]

theorem filter_flatMap_of_not_mem (hkey : ∀ b ∈ sources, ∀ a ∈ f b, key a = source b) {k : κ}
    (hk : k ∉ sources.map source) :
    (sources.flatMap f).filter (fun a => decide (key a = k)) = [] := by
  refine List.filter_eq_nil_iff.mpr fun a ha hsame => hk ?_
  obtain ⟨b, hb, hab⟩ := List.mem_flatMap.mp ha
  rw [← of_decide_eq_true hsame, hkey b hb a hab]
  exact List.mem_map_of_mem hb

omit [DecidableEq κ] in
/-- Rows that tell from which row they are made are different when each row makes different ones. -/
theorem nodup_flatMap_of_key {μ : Type w} {other : α → μ} (h : (sources.map source).Nodup)
    (hkey : ∀ b ∈ sources, ∀ a ∈ f b, key a = source b)
    (htells : ∀ a a', other a = other a' → key a = key a')
    (hown : ∀ b ∈ sources, ((f b).map other).Nodup) : ((sources.flatMap f).map other).Nodup := by
  induction sources with
  | nil => exact List.nodup_nil
  | cons first rest ih =>
    obtain ⟨hfirst, hrest⟩ := List.nodup_cons.mp h
    rw [List.flatMap_cons, List.map_append]
    refine List.nodup_append.mpr ⟨hown first List.mem_cons_self,
      ih hrest (fun b hb => hkey b (List.mem_cons_of_mem first hb))
        fun b hb => hown b (List.mem_cons_of_mem first hb), ?_⟩
    rintro _ hx _ hy rfl
    obtain ⟨a, ha, rfl⟩ := List.mem_map.mp hx
    obtain ⟨a', ha', hsame⟩ := List.mem_map.mp hy
    obtain ⟨b, hb, hab⟩ := List.mem_flatMap.mp ha'
    apply hfirst
    rw [← hkey first List.mem_cons_self a ha, ← htells a' a hsame,
      hkey b (List.mem_cons_of_mem first hb) a' hab]
    exact List.mem_map_of_mem hb

omit [DecidableEq κ] in
/-- Different keys leave room for one row from each row. -/
theorem length_le_one_of_nodup (h : ((sources.flatMap f).map key).Nodup)
    (hkey : ∀ b ∈ sources, ∀ a ∈ f b, key a = source b) {b : β} (hb : b ∈ sources) :
    (f b).length ≤ 1 := by
  have hown : ((f b).map key).Nodup :=
    h.sublist ((List.sublist_flatten_of_mem (List.mem_map_of_mem hb)).map key)
  match hmade : f b with
  | [] => exact Nat.zero_le 1
  | [_] => exact Nat.le_refl 1
  | a :: a' :: _ =>
    rw [hmade] at hown
    have hne := (List.nodup_cons.mp hown).1
    have hsame : key a = key a' :=
      (hkey b hb a (by simp [hmade])).trans (hkey b hb a' (by simp [hmade])).symm
    simp [hsame] at hne

end Made

section InsertNew

variable [DecidableEq α]

/-- `INSERT … ON CONFLICT DO NOTHING` where the whole row is the key. -/
def insertNew (rows : List α) (row : α) : List α :=
  if rows.contains row then rows else rows ++ [row]

theorem mem_foldl_insertNew {new : List α} {x : α} :
    x ∈ new.foldl insertNew rows ↔ x ∈ new ∨ x ∈ rows := by
  induction new generalizing rows with
  | nil => simp
  | cons row new ih =>
    rw [List.foldl_cons, ih, insertNew]
    split
    · rename_i hold
      have hrow : row ∈ rows := by simpa using hold
      rw [List.mem_cons]
      refine ⟨fun hx => hx.imp .inr id, fun hx => ?_⟩
      rcases hx with (rfl | hmem) | hmem
      · exact .inr hrow
      · exact .inl hmem
      · exact .inr hmem
    · rw [List.mem_append, List.mem_singleton, List.mem_cons]
      tauto

theorem nodup_foldl_insertNew (new : List α) (h : rows.Nodup) :
    (new.foldl insertNew rows).Nodup := by
  induction new generalizing rows with
  | nil => exact h
  | cons row new ih =>
    refine ih ?_
    unfold insertNew
    split
    · exact h
    · rename_i hnot
      refine List.nodup_append.mpr ⟨h, List.nodup_singleton _, ?_⟩
      rintro old hold _ hrow rfl
      rw [List.mem_singleton.mp hrow] at hold
      simp [hold] at hnot

end InsertNew

end Table
