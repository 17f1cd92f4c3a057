import Mathlib.Data.List.Nodup

/-! Tables as lists of rows, changed as SQL statements change them. -/

set_option autoImplicit false

namespace Rows

open List

variable {Row : Type}

/-- `UPDATE … SET f WHERE chosen`. -/
def update (chosen : Row → Bool) (f : Row → Row) (rows : List Row) : List Row :=
  rows.map fun row => if chosen row then f row else row

/-- `DELETE … WHERE chosen`. -/
def delete (chosen : Row → Bool) (rows : List Row) : List Row := rows.filter (!chosen ·)

/-- `INSERT … ON CONFLICT DO UPDATE`: the rows in conflict are merged with the new one. -/
def upsert (conflict : Row → Bool) (merge : Row → Row) (new : Row) (rows : List Row) : List Row :=
  if rows.any conflict then update conflict merge rows else rows ++ [new]

variable {chosen conflict : Row → Bool} {f merge : Row → Row} {new row : Row} {rows : List Row}

theorem mem_update : row ∈ update chosen f rows ↔
      (∃ old ∈ rows, chosen old = true ∧ row = f old) ∨ row ∈ rows ∧ chosen row = false := by
  unfold update
  rw [mem_map]
  constructor
  · rintro ⟨old, isOld, rfl⟩
    by_cases isChosen : chosen old = true
    · exact .inl ⟨old, isOld, isChosen, if_pos isChosen⟩
    · rw [if_neg isChosen]
      exact .inr ⟨isOld, Bool.eq_false_iff.mpr isChosen⟩
  · rintro (⟨old, isOld, isChosen, rfl⟩ | ⟨isRow, notChosen⟩)
    · exact ⟨old, isOld, if_pos isChosen⟩
    · exact ⟨row, isRow, if_neg (Bool.eq_false_iff.mp notChosen)⟩

theorem update_of_none (none : ∀ row ∈ rows, chosen row = false) : update chosen f rows = rows := by
  conv_rhs => rw [← map_id rows]
  apply map_congr_left
  intro row isRow
  rw [if_neg (Bool.eq_false_iff.mp (none row isRow)), id_eq]

theorem mem_delete : row ∈ delete chosen rows ↔ row ∈ rows ∧ chosen row = false := by
  unfold delete
  rw [mem_filter, Bool.not_eq_true']

theorem mem_insert : row ∈ rows ++ [new] ↔ row ∈ rows ∨ row = new := by
  rw [mem_append, mem_singleton]

def Grown (entry : Row) (rows more : List Row) : Prop := ∀ row, row ∈ more ↔ row ∈ rows ∨ row = entry

theorem grown_insert (rows : List Row) (entry : Row) : Grown entry rows (rows ++ [entry]) := fun _ => mem_insert

theorem grown_delete [BEq Row] [LawfulBEq Row] {entry : Row} (there : entry ∈ rows) :
    Grown entry (delete (· == entry) rows) rows := by
  intro row
  rw [mem_delete]
  by_cases same : row = entry
  · simp [same, there]
  · simp [same]

theorem delete_of_absent [BEq Row] [LawfulBEq Row] {entry : Row} (absent : entry ∉ rows) :
    delete (· == entry) rows = rows := by
  unfold delete
  rw [filter_eq_self]
  intro row mem
  rw [Bool.not_eq_true', beq_eq_false_iff_ne]
  exact ne_of_mem_of_not_mem mem absent

/-- What is in the table after an upsert was merged, or was not touched, or is new. -/
theorem of_mem_upsert (mem : row ∈ upsert conflict merge new rows) :
    (∃ old ∈ rows, conflict old = true ∧ row = merge old) ∨ (row ∈ rows ∧ conflict row = false) ∨
      (row = new ∧ ∀ old ∈ rows, conflict old = false) := by
  unfold upsert at mem
  split at mem
  · rcases mem_update.mp mem with merged | kept
    · exact .inl merged
    · exact .inr (.inl kept)
  next none =>
  have apart : ∀ old ∈ rows, conflict old = false := by simpa using none
  rcases mem_append.mp mem with old | isNew
  · exact .inr (.inl ⟨old, apart row old⟩)
  · exact .inr (.inr ⟨mem_singleton.mp isNew, apart⟩)

section Keyed

variable {Key : Type} {key : Row → Key}

/-- No two rows have one key. -/
def Unique (key : Row → Key) (rows : List Row) : Prop := (rows.map key).Nodup

variable (unique : Unique key rows)

include unique

theorem Unique.eq {a b : Row} (isA : a ∈ rows) (isB : b ∈ rows) (same : key a = key b) : a = b :=
  inj_on_of_nodup_map unique isA isB same

theorem Unique.find? [BEq Key] [LawfulBEq Key] (mem : row ∈ rows) : rows.find? (key · == key row) = some row := by
  cases found : rows.find? (key · == key row) with
  | none => exact absurd (find?_eq_none.mp found row mem) (by simp)
  | some other =>
    have same : key other = key row := by simpa using find?_some found
    rw [unique.eq (mem_of_find?_eq_some found) mem same]

theorem Unique.update (kept : ∀ row, key (f row) = key row) : Unique key (update chosen f rows) := by
  have same : (Rows.update chosen f rows).map key = rows.map key := by
    unfold Rows.update
    rw [map_map]
    apply map_congr_left
    intro row _
    dsimp only [Function.comp_apply]
    split
    · exact kept row
    · rfl
  unfold Unique
  rw [same]
  exact unique

theorem Unique.insert (none : ∀ row ∈ rows, key row ≠ key new) : Unique key (rows ++ [new]) := by
  unfold Unique
  rw [map_append, nodup_append_comm]
  refine nodup_cons.mpr ⟨?_, unique⟩
  intro mem
  obtain ⟨old, isOld, same⟩ := mem_map.mp mem
  exact none old isOld same

theorem Unique.delete : Unique key (Rows.delete chosen rows) := unique.sublist (filter_sublist.map key)

theorem Unique.upsert (kept : ∀ row, key (merge row) = key row)
    (conflicts : ∀ row, key row = key new → conflict row = true) : Unique key (upsert conflict merge new rows) := by
  unfold Rows.upsert
  split
  · exact unique.update kept
  next none =>
  apply unique.insert
  intro old isOld same
  exact none (any_eq_true.mpr ⟨old, isOld, conflicts old same⟩)

omit unique

variable [BEq Key] [LawfulBEq Key] {k k' : Key}

theorem find?_update_self (kept : ∀ row, key (f row) = key row) :
    (update (key · == k) f rows).find? (key · == k) = (rows.find? (key · == k)).map f := by
  unfold Rows.update
  induction rows with
  | nil => rfl
  | cons row rows ih =>
    rw [map_cons, find?_cons, find?_cons]
    by_cases same : key row = k
    · simp [same, kept]
    have skipped : (key row == k) = false := beq_eq_false_iff_ne.mpr same
    simp only [skipped, Bool.false_eq_true, if_false]
    exact ih

theorem find?_update_of_ne (kept : ∀ row, key (f row) = key row) (other : k ≠ k') :
    (update (key · == k) f rows).find? (key · == k') = rows.find? (key · == k') := by
  unfold Rows.update
  induction rows with
  | nil => rfl
  | cons row rows ih =>
    rw [map_cons, find?_cons, find?_cons]
    by_cases same : key row = k
    · have skipped : (k == k') = false := beq_eq_false_iff_ne.mpr other
      simp only [same, beq_self_eq_true, if_true, kept, skipped]
      exact ih
    · have notChosen : (key row == k) = false := beq_eq_false_iff_ne.mpr same
      simp only [notChosen, Bool.false_eq_true, if_false, ih]

omit [LawfulBEq Key] in
theorem find?_delete_self : (delete (key · == k) rows).find? (key · == k) = none := by
  rw [find?_eq_none]
  intro row mem
  rw [(mem_delete.mp mem).2]
  exact Bool.false_ne_true

theorem find?_delete_of_ne (other : k ≠ k') :
    (delete (key · == k) rows).find? (key · == k') = rows.find? (key · == k') := by
  unfold Rows.delete
  rw [find?_filter]
  congr 1
  funext row
  by_cases isOther : key row = k'
  · simp [isOther, other.symm]
  · simp [isOther]

end Keyed

end Rows
