import Mathlib.Data.List.Perm.Basic

/-! Tables of a fixed number of slots, each free or holding one entry. An entry goes
into the first free slot; looking up and clearing act on the first used slot that
matches. The order of the slots carries no meaning, so the laws are about the entries
a table holds, up to order. -/

set_option autoImplicit false

namespace Slots

open List Option

variable {α : Type}

/-- Write into the first free cell; `none` when every cell is used. -/
def putFirst (entry : α) : List (Option α) → Option (List (Option α))
  | [] => none
  | none :: cells => some (some entry :: cells)
  | some held :: cells => (putFirst entry cells).map (some held :: ·)

def clearFirst (matching : α → Bool) : List (Option α) → List (Option α)
  | [] => []
  | none :: cells => none :: clearFirst matching cells
  | some held :: cells =>
    if matching held then none :: cells else some held :: clearFirst matching cells

def updateFirst (matching : α → Bool) (f : α → α) : List (Option α) → List (Option α)
  | [] => []
  | none :: cells => none :: updateFirst matching f cells
  | some held :: cells =>
    if matching held then some (f held) :: cells else some held :: updateFirst matching f cells

variable {cells : List (Option α)} {entry : α} {after : List (Option α)}

theorem length_putFirst (put : putFirst entry cells = some after) : after.length = cells.length := by
  induction cells generalizing after with
  | nil => simp [putFirst] at put
  | cons cell cells ih =>
    cases cell with
    | none =>
      simp only [putFirst, some.injEq] at put
      subst put
      rfl
    | some held =>
      simp only [putFirst, map_eq_some_iff] at put
      obtain ⟨tail, tailPut, rfl⟩ := put
      simp only [length_cons, ih tailPut]

theorem length_clearFirst (matching : α → Bool) (cells : List (Option α)) :
    (clearFirst matching cells).length = cells.length := by
  induction cells with
  | nil => rfl
  | cons cell cells ih =>
    cases cell with
    | none => simp only [clearFirst, length_cons, ih]
    | some held =>
      simp only [clearFirst]
      split <;> simp [ih]

theorem length_updateFirst (matching : α → Bool) (f : α → α) (cells : List (Option α)) :
    (updateFirst matching f cells).length = cells.length := by
  induction cells with
  | nil => rfl
  | cons cell cells ih =>
    cases cell with
    | none => simp only [updateFirst, length_cons, ih]
    | some held =>
      simp only [updateFirst]
      split <;> simp [ih]

theorem putFirst_perm (put : putFirst entry cells = some after) :
    (after.filterMap id).Perm (entry :: cells.filterMap id) := by
  induction cells generalizing after with
  | nil => simp [putFirst] at put
  | cons cell cells ih =>
    cases cell with
    | none =>
      simp only [putFirst, some.injEq] at put
      subst put
      exact List.Perm.refl _
    | some held =>
      simp only [putFirst, map_eq_some_iff] at put
      obtain ⟨tail, tailPut, rfl⟩ := put
      exact ((ih tailPut).cons held).trans (List.Perm.swap entry held _)

theorem exists_putFirst (entry : α) (room : (cells.filterMap id).length < cells.length) :
    ∃ after, putFirst entry cells = some after := by
  induction cells with
  | nil => simp at room
  | cons cell cells ih =>
    cases cell with
    | none => exact ⟨_, rfl⟩
    | some held =>
      have tailRoom : (cells.filterMap id).length < cells.length := by
        simpa [filterMap_cons] using room
      obtain ⟨after, put⟩ := ih tailRoom
      exact ⟨some held :: after, by simp [putFirst, put]⟩

theorem filterMap_clearFirst (matching : α → Bool) (cells : List (Option α)) :
    (clearFirst matching cells).filterMap id = (cells.filterMap id).eraseP matching := by
  induction cells with
  | nil => rfl
  | cons cell cells ih =>
    cases cell with
    | none => exact ih
    | some held =>
      by_cases found : matching held = true
      · simp [clearFirst, found]
      · simpa [clearFirst, found] using ih

theorem updateFirst_perm {matching : α → Bool} (found : (cells.filterMap id).find? matching = some entry) :
    ∃ rest, (cells.filterMap id).Perm (entry :: rest) ∧ ((clearFirst matching cells).filterMap id).Perm rest ∧
      ∀ f, ((updateFirst matching f cells).filterMap id).Perm (f entry :: rest) := by
  induction cells with
  | nil => cases found
  | cons cell cells ih =>
    cases cell with
    | none => exact ih found
    | some held =>
      by_cases here : matching held = true
      · have isEntry : held = entry := by simpa [here] using found
        subst isEntry
        refine ⟨cells.filterMap id, ?_, ?_, fun f => ?_⟩
        · exact List.Perm.refl _
        · simp [clearFirst, here]
        · simp [updateFirst, here]
      have later : (cells.filterMap id).find? matching = some entry := by
        simpa [here] using found
      obtain ⟨rest, all, cleared, updated⟩ := ih later
      refine ⟨held :: rest, ?_, ?_, fun f => ?_⟩
      · exact (all.cons held).trans (List.Perm.swap ..)
      · simpa [clearFirst, here] using cleared
      · simpa [updateFirst, here] using ((updated f).cons held).trans (List.Perm.swap ..)

structure Table (α : Type) (size : Nat) where
  cells : List (Option α)
  sized : cells.length = size
  deriving DecidableEq

namespace Table

variable {size : Nat}

def empty (α : Type) (size : Nat) : Table α size := ⟨replicate size none, length_replicate⟩

variable (table : Table α size)

def entries : List α := table.cells.filterMap id

def put (entry : α) : Option (Table α size) :=
  match found : putFirst entry table.cells with
  | none => none
  | some cells => some ⟨cells, (length_putFirst found).trans table.sized⟩

def find (matching : α → Bool) : Option α := table.cells.findSome? (Option.filter matching)

def clear (matching : α → Bool) : Table α size :=
  ⟨clearFirst matching table.cells, (length_clearFirst matching table.cells).trans table.sized⟩

def update (matching : α → Bool) (f : α → α) : Table α size :=
  ⟨updateFirst matching f table.cells, (length_updateFirst matching f table.cells).trans table.sized⟩

def keep (kept : α → Bool) : Table α size := ⟨table.cells.map (Option.filter kept), length_map _ |>.trans table.sized⟩

def modify (matching : α → Bool) (f : α → α) : Table α size :=
  ⟨table.cells.map (Option.map fun entry => if matching entry then f entry else entry),
    length_map _ |>.trans table.sized⟩

@[simp] theorem entries_modify (matching : α → Bool) (f : α → α) : (table.modify matching f).entries =
      table.entries.map fun entry => if matching entry then f entry else entry := by
  unfold modify entries
  rw [filterMap_map, map_filterMap]
  rfl

@[simp] theorem entries_empty : (empty α size).entries = [] := by
  simp [entries, empty]

variable {table : Table α size}

theorem put_perm {after : Table α size} (done : table.put entry = some after) :
    after.entries.Perm (entry :: table.entries) := by
  unfold put at done
  split at done
  · cases done
  rename_i cells found
  cases done
  exact putFirst_perm found

theorem exists_put (entry : α) (room : table.entries.length < size) : ∃ after, table.put entry = some after := by
  have free : (table.cells.filterMap id).length < table.cells.length := by
    rw [table.sized]
    exact room
  obtain ⟨cells, found⟩ := exists_putFirst entry free
  refine ⟨⟨cells, (length_putFirst found).trans table.sized⟩, ?_⟩
  unfold put
  split
  · rename_i missing
    simp [found] at missing
  rename_i cells' found'
  rw [found] at found'
  cases found'
  rfl

theorem find_eq (matching : α → Bool) : table.find matching = table.entries.find? matching := by
  unfold find entries
  induction table.cells with
  | nil => rfl
  | cons cell cells ih =>
    cases cell with
    | none => simpa [findSome?_cons] using ih
    | some held =>
      by_cases found : matching held = true
      · simp [Option.filter, found]
      · simp [Option.filter, found, ih]

@[simp] theorem entries_keep (kept : α → Bool) : (table.keep kept).entries = table.entries.filter kept := by
  unfold keep entries
  dsimp only
  induction table.cells with
  | nil => rfl
  | cons cell cells ih =>
    cases cell with
    | none => exact ih
    | some held =>
      by_cases stays : kept held = true
      · simpa [Option.filter, stays] using ih
      · simpa [Option.filter, stays] using ih

theorem update_perm {matching : α → Bool} (found : table.find matching = some entry) :
    ∃ rest, table.entries.Perm (entry :: rest) ∧ (table.clear matching).entries.Perm rest ∧
      ∀ f, (table.update matching f).entries.Perm (f entry :: rest) := by
  rw [find_eq] at found
  exact updateFirst_perm found

@[simp] theorem entries_clear (matching : α → Bool) : (table.clear matching).entries = table.entries.eraseP matching :=
  filterMap_clearFirst matching table.cells

end Table

end Slots
