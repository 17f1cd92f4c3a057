import Mathlib.Algebra.BigOperators.Group.List.Basic
import Mathlib.Algebra.Group.Action.Defs
import OpenChime.Shared.Mp4Layout

/-! What the reader of the restricted MP4 makes of a finished file: the tables entry by entry, a track
from its tables, and the movie from its tracks. -/

set_option autoImplicit false

namespace OpenChime.Shared.Mp4

open Boxes List BigEndian WSample
open Option (bind_some bind_eq_bind)

section Numbers

variable {front rest : List UInt8} {position width size value : Nat} (length : front.length = size)

include length

theorem rd_past (past : size ≤ position) : rd width (front ++ rest) position = rd width rest (position - size) := by
  have dropped : (front ++ rest).drop position = rest.drop (position - size) := by
    rw [drop_append, length, drop_eq_nil_of_le (by omega), nil_append]
  rw [rd, rd, number, number, dropped, length_append, length]
  simp only [show (position > size + rest.length ∨ size + rest.length - position < width) ↔
    (position - size > rest.length ∨ rest.length - (position - size) < width) by omega]

theorem rd32_past (past : size ≤ position) : rd32 (front ++ rest) position = rd32 rest (position - size) :=
  rd_past length past

theorem rd16_past (past : size ≤ position) : rd16 (front ++ rest) position = rd16 rest (position - size) :=
  rd_past length past

omit length

theorem rd_here (small : value < 256 ^ width) (rest : List UInt8) :
    rd width (encode width value ++ rest) 0 = some value := by
  have read := number_append [] rest width value
  rw [nil_append, length_nil, Nat.mod_eq_of_lt small] at read
  rw [rd, if_neg, read]
  rw [length_append, length_encode]
  omega

theorem rd32_here (small : value < 2 ^ 32) (rest : List UInt8) : rd32 (encode 4 value ++ rest) 0 = some value :=
  rd_here small rest

theorem rd16_here (small : value < 2 ^ 16) (rest : List UInt8) : rd16 (encode 2 value ++ rest) 0 = some value :=
  rd_here small rest

theorem rd32_front (inside : position + 4 ≤ front.length) : rd32 (front ++ rest) position = rd32 front position := by
  have taken : ((front ++ rest).drop position).take 4 = (front.drop position).take 4 := by
    rw [drop_append_of_le_length (by omega), take_append_of_le_length]
    rw [length_drop]
    omega
  rw [rd32, rd32, rd, rd, number, number, taken, length_append, if_neg (by omega), if_neg (by omega)]

end Numbers

variable {α : Type}

theorem rd32_entry {written : α → List UInt8} {size off : Nat} (sized : ∀ entry, (written entry).length = size)
    (within : off + 4 ≤ size) {entries : List α} {i : Nat} (inside : i < entries.length) :
    rd32 (entries.flatMap written) (i * size + off) = rd32 (written entries[i]) off := by
  induction entries generalizing i with
  | nil => exact absurd inside (Nat.not_lt_zero i)
  | cons entry entries ih =>
    rw [flatMap_cons]
    cases i with
    | zero =>
      rw [Nat.zero_mul, Nat.zero_add]
      exact rd32_front (by rw [sized]; exact within)
    | succ i =>
      have position : (i + 1) * size + off - size = i * size + off := by
        rw [Nat.add_mul]
        omega
      rw [rd32_past (sized entry) (by rw [Nat.add_mul]; omega), position]
      exact ih (Nat.lt_of_succ_lt_succ inside)

theorem rd32_row {values : List Nat} {i : Nat} (inside : i < values.length)
    (small : values[i] < 2 ^ 32) : rd32 (row values) (i * 4) = some values[i] := by
  have entry := rd32_entry (length_encode 4) (le_refl (0 + 4)) inside
  rw [Nat.add_zero] at entry
  have here := rd32_here small []
  rw [append_nil] at here
  exact entry.trans here

theorem guard_bind {holds : Prop} [Decidable holds] (met : holds) (rest : Option α) :
    ((guard holds : Option Unit).bind fun _ => rest) = rest := by
  rw [guard, if_pos met]
  rfl

theorem mapM_range {read : Nat → Option α} {values : List α}
    (each : ∀ i (inside : i < values.length), read i = some values[i]) :
    (range values.length).mapM read = some values := by
  induction values using reverseRecOn with
  | nil => rfl
  | append_singleton values value ih =>
    have before : (range values.length).mapM read = some values := by
      apply ih
      intro i inside
      rw [each i (by rw [length_append]; exact Nat.lt_add_right 1 inside), getElem_append_left inside]
    have last : read values.length = some value := by
      rw [each values.length (by rw [length_append]; exact Nat.lt_succ_self _), getElem_concat_length rfl]
    rw [length_append, length_singleton, range_succ, mapM_append, before, mapM_cons, last]
    rfl

theorem readTable_counted {count entry : Nat} {entries : List UInt8} (few : count ≤ maxSamples) (positive : entry ≠ 0)
    (length : entries.length = count * entry) : readTable (counted count entries) 0 entry = some (count, entries) := by
  have small : count < 2 ^ 32 := lt_of_le_of_lt few (by decide)
  have read : rd32 (counted count entries) (4 + 0) = some count := by
    rw [counted]
    exact rd32_here small entries
  have size : (counted count entries).length = 8 + entries.length := by
    rw [counted, length_append, length_append, length_encode, length_encode]
    omega
  have body : ((counted count entries).drop (8 + 0)).take (count * entry) = entries := by
    rw [counted, ← append_assoc, drop_left', ← length, take_length]
    rw [length_append, length_encode, length_encode]
  have fits : count ≤ ((counted count entries).length - (8 + 0)) / (if entry ≠ 0 then entry else 1) := by
    rw [if_pos positive, size, Nat.add_zero, Nat.add_sub_cancel_left, length,
      Nat.mul_div_cancel count (Nat.pos_of_ne_zero positive)]
  have room : 8 + 0 ≤ (counted count entries).length ∧
      count ≤ ((counted count entries).length - (8 + 0)) / (if entry ≠ 0 then entry else 1) :=
    ⟨by omega, fits⟩
  simp only [readTable, bind_eq_bind, read, bind_some]
  rw [guard_bind few, guard_bind room, body]
  rfl

variable {t : List WSample} {fileLen dataBase : Nat} {stbl : List UInt8} {w : Writer} {info : Info}

theorem readSizes_stszBytes (present : t ≠ []) (few : t.length ≤ maxSamples)
    (small : ∀ s ∈ t, s.size < 2 ^ 32) : readSizes (stszBytes t) = some (t.map size) := by
  have fixed : rd32 (stszBytes t) 4 = some 0 := by
    rw [stszBytes]
    exact rd32_here (by decide) _
  have count : rd32 (stszBytes t) 8 = some t.length := by
    rw [stszBytes, rd32_past (length_encode 4 0) (by decide)]
    exact rd32_here (lt_of_le_of_lt few (by decide)) _
  have length : (stszBytes t).length = 12 + 4 * t.length := by
    rw [stszBytes]
    simp only [length_append, length_encode, length_row, length_map]
    omega
  have each : ∀ i (inside : i < (t.map size).length), rd32 (stszBytes t) (12 + i * 4) = some (t.map size)[i] := by
    intro i inside
    rw [stszBytes, rd32_past (length_encode 4 0) (by omega), rd32_past (length_encode 4 0) (by omega),
      rd32_past (length_encode 4 t.length) (by omega),
      show 12 + i * 4 - 4 - 4 - 4 = i * 4 by omega]
    apply rd32_row inside
    rw [getElem_map]
    exact small _ (getElem_mem _)
  have nonempty : t.length ≠ 0 ∧ t.length ≤ maxSamples := ⟨fun empty => present (length_eq_zero_iff.mp empty), few⟩
  have read := mapM_range each
  rw [length_map] at read
  simp only [readSizes, bind_eq_bind, fixed, count, bind_some]
  rw [guard_bind nonempty, guard_bind (by omega)]
  simp only [if_true, read]

theorem spread_runs (durs : List Nat) : spread (runs durs) durs.length = durs := by
  induction durs with
  | nil => rfl
  | cons dur durs ih =>
    rw [runs]
    cases found : runs durs with
    | nil =>
      rw [found] at ih
      rw [← ih]
      rfl
    | cons entry entries =>
      obtain ⟨count, other⟩ := entry
      rw [found, spread] at ih
      dsimp only at ih ⊢
      by_cases same : dur = other
      · rw [if_pos same, spread, length_cons, Nat.add_min_add_right, replicate_succ,
          Nat.add_sub_add_right, cons_append, ih, same]
      · rw [if_neg same, spread, length_cons, Nat.min_eq_left (by omega), Nat.add_sub_cancel, spread, ih]
        rfl

theorem length_runs_le (durs : List Nat) : (runs durs).length ≤ durs.length := by
  induction durs with
  | nil => exact le_refl _
  | cons dur durs ih =>
    rw [runs]
    cases found : runs durs with
    | nil => exact Nat.succ_le_succ (Nat.zero_le _)
    | cons entry entries =>
      rw [found, length_cons] at ih
      dsimp only
      split
      · rw [length_cons, length_cons]
        omega
      · rw [length_cons, length_cons, length_cons]
        omega

theorem mem_runs {durs : List Nat} {entry : Nat × Nat} (member : entry ∈ runs durs) :
    entry.1 ≤ durs.length ∧ entry.2 ∈ durs := by
  induction durs generalizing entry with
  | nil => exact absurd member not_mem_nil
  | cons dur durs ih =>
    rw [runs] at member
    cases found : runs durs with
    | nil =>
      rw [found] at member
      rw [mem_singleton.mp member]
      exact ⟨Nat.le_add_left 1 _, mem_cons_self⟩
    | cons first entries =>
      obtain ⟨count, other⟩ := first
      have earlier (entry : Nat × Nat) (member : entry ∈ (count, other) :: entries) :
          entry.1 ≤ durs.length ∧ entry.2 ∈ durs := by
        rw [← found] at member
        exact ih member
      rw [found] at member
      dsimp only at member
      split at member
      · cases mem_cons.mp member with
        | inl same =>
          obtain ⟨less, known⟩ := earlier (count, other) mem_cons_self
          rw [same]
          exact ⟨Nat.succ_le_succ less, mem_cons_of_mem _ known⟩
        | inr member =>
          obtain ⟨less, known⟩ := earlier entry (mem_cons_of_mem _ member)
          exact ⟨Nat.le_succ_of_le less, mem_cons_of_mem _ known⟩
      · cases mem_cons.mp member with
        | inl same =>
          rw [same]
          exact ⟨Nat.le_add_left 1 _, mem_cons_self⟩
        | inr member =>
          obtain ⟨less, known⟩ := earlier entry member
          exact ⟨Nat.le_succ_of_le less, mem_cons_of_mem _ known⟩

theorem row_pairs (entries : List (Nat × Nat)) :
    row (pairs entries) = entries.flatMap fun entry => row [entry.1, entry.2] := by
  rw [pairs, row, flatMap_assoc]
  rfl

theorem readTimes_sttsBytes (few : t.length ≤ maxSamples) (small : ∀ s ∈ t, s.dur < 2 ^ 32) :
    readTimes (sttsBytes t) t.length = some (t.map dur) := by
  have fewer : (runs (t.map dur)).length ≤ maxSamples := by
    have shorter := length_runs_le (t.map dur)
    rw [length_map] at shorter
    exact shorter.trans few
  have sized (entry : Nat × Nat) : (row [entry.1, entry.2]).length = 8 := length_row _
  have length : (row (pairs (runs (t.map dur)))).length = (runs (t.map dur)).length * 8 := by
    rw [row_pairs, length_flatMap]
    simp only [sized, map_const', sum_replicate, smul_eq_mul]
  have each : ∀ i (inside : i < (runs (t.map dur)).length), (do return (← rd32 (row (pairs (runs (t.map dur)))) (i * 8),
        ← rd32 (row (pairs (runs (t.map dur)))) (i * 8 + 4))) =
        some (runs (t.map dur))[i] := by
    intro i inside
    obtain ⟨less, known⟩ := mem_runs (getElem_mem inside)
    rw [length_map] at less
    have count : (runs (t.map dur))[i].1 < 2 ^ 32 := lt_of_le_of_lt (less.trans few) (by decide)
    have delta : (runs (t.map dur))[i].2 < 2 ^ 32 := by
      obtain ⟨s, member, same⟩ := mem_map.mp known
      rw [← same]
      exact small s member
    have first := rd32_entry sized (by decide : 0 + 4 ≤ 8) inside
    have second := rd32_entry sized (by decide : 4 + 4 ≤ 8) inside
    rw [Nat.add_zero] at first
    rw [row_pairs, first, second]
    have front : rd32 (row [(runs (t.map dur))[i].1, (runs (t.map dur))[i].2]) 0 =
        some (runs (t.map dur))[i].1 := rd32_here count _
    have back : rd32 (row [(runs (t.map dur))[i].1, (runs (t.map dur))[i].2]) 4 = some (runs (t.map dur))[i].2 :=
      (rd32_past (length_encode 4 _) (le_refl 4)).trans (rd32_here delta _)
    rw [front, back]
    rfl
  have spreads : spread (runs (t.map dur)) t.length = t.map dur := by
    have spreads := spread_runs (t.map dur)
    rwa [length_map] at spreads
  have table : readTable (sttsBytes t) 0 8 = some _ := readTable_counted fewer (by decide) length
  have entries := mapM_range each
  simp only [bind_eq_bind] at entries
  simp only [readTimes, bind_eq_bind, table, bind_some]
  rw [entries, bind_some, spreads, guard_bind (length_map _)]
  rfl

variable {place : WSample → Nat}

theorem placeChunks_single (inside : ∀ s ∈ t, place s + s.size ≤ fileLen) (first : Nat) :
    placeChunks fileLen [(1, 1)] (((t.map place).zipIdx first).map Prod.swap) (t.map size) = some (t.map place) := by
  induction t generalizing first with
  | nil => rfl
  | cons s t ih =>
    have fits := inside s mem_cons_self
    have later := ih (fun other member => inside other (mem_cons_of_mem _ member)) (first + 1)
    have per : samplesPer [(1, 1)] first = some 1 := by
      rfl
    have placed : placeChunk fileLen 1 (place s) (s.size :: t.map size) = some ([place s], t.map size) := by
      rw [placeChunk, if_neg (by omega)]
      rfl
    rw [map_cons, map_cons, zipIdx_cons, map_cons, Prod.swap_prod_mk]
    simp only [placeChunks, per, bind_eq_bind, bind_some]
    rw [placed, bind_some, later]
    rfl

theorem readOffsets_stcoBytes (few : t.length ≤ maxSamples) (bounded : fileLen < 2 ^ 32)
    (inside : ∀ s ∈ t, dataBase + s.off + s.size ≤ fileLen) :
    readOffsets (stcoBytes t dataBase) stscBytes fileLen (t.map size) = some (t.map fun s => dataBase + s.off) := by
  have chunks : readTable (stcoBytes t dataBase) 0 4 = some (t.length, row (t.map fun s => dataBase + s.off)) := by
    apply readTable_counted few (by decide)
    rw [length_row, length_map, Nat.mul_comm]
  have counts : readTable stscBytes 0 12 = some _ := readTable_counted (by decide) (by decide) rfl
  have entries : (range 1).mapM (fun e => do
      return (← rd32 (row [1, 1, 1]) (e * 12), ← rd32 (row [1, 1, 1]) (e * 12 + 4))) =
      some [(1, 1)] := rfl
  have each : ∀ i (within : i < (t.map fun s => dataBase + s.off).length),
      rd32 (row (t.map fun s => dataBase + s.off)) (i * 4) = some (t.map fun s => dataBase + s.off)[i] := by
    intro i within
    apply rd32_row within
    rw [getElem_map]
    have fits := inside _ (getElem_mem (by rwa [length_map] at within))
    omega
  have offs := mapM_range each
  rw [length_map] at offs
  simp only [bind_eq_bind] at entries
  simp only [readOffsets, bind_eq_bind, chunks, counts, bind_some]
  rw [entries, bind_some, offs, bind_some]
  exact placeChunks_single inside 0

theorem mem_syncNumbers {number : Nat} : number ∈ syncNumbers t ↔ ∃ i s, t[i]? = some s ∧ s.sync ∧ number = i + 1 := by
  rw [syncNumbers, mem_map]
  constructor
  · intro found
    obtain ⟨entry, member, same⟩ := found
    obtain ⟨listed, sync⟩ := mem_filter.mp member
    obtain ⟨low, holds⟩ := mk_mem_zipIdx_iff_le_and_getElem?_sub.mp (show (entry.1, entry.2) ∈ t.zipIdx 1 from listed)
    exact ⟨entry.2 - 1, entry.1, holds, sync, by omega⟩
  · intro found
    obtain ⟨i, s, holds, sync, same⟩ := found
    refine ⟨(s, number), mem_filter.mpr ⟨?_, sync⟩, rfl⟩
    apply mk_mem_zipIdx_iff_le_and_getElem?_sub.mpr
    rw [same]
    exact ⟨Nat.le_add_left 1 i, by rwa [Nat.add_sub_cancel]⟩

theorem length_syncNumbers (t : List WSample) : (syncNumbers t).length = t.countP sync := by
  rw [syncNumbers, length_map, ← countP_eq_length_filter]
  conv_rhs => rw [← zipIdx_map_fst 1 t, countP_map]
  rfl

theorem flags_syncNumbers (t : List WSample) :
    ((range t.length).map fun i => decide (i + 1 ∈ syncNumbers t)) = t.map sync := by
  apply ext_getElem
  · rw [length_map, length_range, length_map]
  · intro i inside inside'
    rw [length_map] at inside'
    rw [getElem_map, getElem_range, getElem_map]
    have listed : i + 1 ∈ syncNumbers t ↔ t[i].sync := by
      rw [mem_syncNumbers]
      constructor
      · intro found
        obtain ⟨j, s, holds, sync, same⟩ := found
        have equal : i = j := by omega
        rw [← equal, getElem?_eq_getElem inside'] at holds
        rwa [Option.some.inj holds]
      · intro sync
        exact ⟨i, t[i], getElem?_eq_getElem inside', sync, rfl⟩
    rw [Bool.eq_iff_iff, decide_eq_true_iff, listed]

theorem readSyncs_stssBytes (few : t.length ≤ maxSamples) (found : child stbl tagStss = some (stssBytes t)) :
    readSyncs stbl true t.length = some (t.map sync) := by
  have fewer : t.countP sync ≤ maxSamples := countP_le_length.trans few
  have table : readTable (stssBytes t) 0 4 = some (t.countP sync, row (syncNumbers t)) := by
    apply readTable_counted fewer (by decide)
    rw [length_row, length_syncNumbers, Nat.mul_comm]
  have each : ∀ i (inside : i < (syncNumbers t).length), ((rd32 (row (syncNumbers t)) (i * 4)).bind fun num =>
        (guard (num ≠ 0 ∧ num ≤ t.length) : Option Unit).bind fun _ => pure num) =
        some (syncNumbers t)[i] := by
    intro i inside
    obtain ⟨j, s, holds, -, same⟩ := mem_syncNumbers.mp (getElem_mem inside)
    obtain ⟨within, -⟩ := List.getElem?_eq_some_iff.mp holds
    have small : (syncNumbers t)[i] < 2 ^ 32 := by
      have bound : maxSamples < 2 ^ 31 := by decide
      omega
    rw [rd32_row inside small, bind_some, guard_bind (by omega)]
    rfl
  have numbers := mapM_range each
  rw [length_syncNumbers] at numbers
  rw [readSyncs, if_pos rfl, found]
  simp only [bind_eq_bind, table, bind_some]
  rw [numbers, bind_some, flags_syncNumbers]
  rfl

def readBack (place : WSample → Nat) : Nat → List WSample → List Sample
  | _, [] => []
  | dts, s :: t => ⟨place s, s.size, dts, s.dur, s.sync⟩ :: readBack place (dts + s.dur) t

theorem assemble_eq_readBack (place : WSample → Nat) (dts : Nat) (t : List WSample) :
    assemble dts (t.map place) (t.map size) (t.map dur) (t.map sync) = readBack place dts t := by
  induction t generalizing dts with
  | nil => rfl
  | cons s t ih =>
    rw [map_cons, map_cons, map_cons, map_cons, assemble, ih, readBack]

theorem map_readBack {ofSample : Sample → α} {ofRecorded : WSample → α}
    (same : ∀ s dts, ofSample ⟨place s, s.size, dts, s.dur, s.sync⟩ = ofRecorded s) (dts : Nat)
    (t : List WSample) : (readBack place dts t).map ofSample = t.map ofRecorded := by
  induction t generalizing dts with
  | nil => rfl
  | cons s t ih => rw [readBack, map_cons, same, ih, map_cons]

theorem dts_readBack (place : WSample → Nat) (dts : Nat) (t : List WSample) (i : Nat)
    (inside : i < (readBack place dts t).length) :
    (readBack place dts t)[i].dts = dts + (((readBack place dts t).take i).map Sample.duration).sum := by
  induction t generalizing dts i with
  | nil => exact absurd inside (Nat.not_lt_zero i)
  | cons s t ih =>
    cases i with
    | zero => rfl
    | succ i =>
      have later := ih (dts + s.dur) i (Nat.lt_of_succ_lt_succ inside)
      simp only [readBack, getElem_cons_succ, take_succ_cons, map_cons, sum_cons]
      omega

structure Readable (t : List WSample) (dataBase fileLen : Nat) (video : Bool) : Prop where
  present : t ≠ []
  few : t.length ≤ maxSamples
  timed : ∀ s ∈ t, s.dur < 2 ^ 32
  inside : ∀ s ∈ t, dataBase + s.off + s.size ≤ fileLen
  first : ∀ s, t.head? = some s → s.sync = true
  listed : video = false → ∀ s ∈ t, s.sync = true

structure Tables (stbl : List UInt8) (t : List WSample) (dataBase : Nat) (video : Bool) : Prop where
  stts : child stbl tagStts = some (sttsBytes t)
  stss : child stbl tagStss = if video then some (stssBytes t) else none
  stsc : child stbl tagStsc = some stscBytes
  stsz : child stbl tagStsz = some (stszBytes t)
  stco : child stbl tagStco = some (stcoBytes t dataBase)

variable {video : Bool}

theorem tables_of_fits {stsd : List UInt8} (fits : Fits (box tagStsd stsd ++ (tableBytes t dataBase video ++ []))) :
    Tables (box tagStsd stsd ++ (tableBytes t dataBase video ++ [])) t dataBase video := by
  rw [append_nil, tableBytes] at fits ⊢
  cases video with
  | false =>
    rw [if_neg Bool.false_ne_true, nil_append] at fits ⊢
    have stts := fits.after
    have stsc := stts.after
    have stsz := stsc.after
    have stco := stsz.after
    constructor <;>
      · rw [child_box fits, child_box stts, child_box stsc, child_box stsz, child_box stco]
        rfl
  | true =>
    rw [if_pos rfl] at fits ⊢
    have stts := fits.after
    have stss := stts.after
    have stsc := stss.after
    have stsz := stsc.after
    have stco := stsz.after
    constructor <;>
      · rw [child_box fits, child_box stts, child_box stss, child_box stsc, child_box stsz, child_box stco]
        rfl

theorem readSyncs_tables (tables : Tables stbl t dataBase video) (readable : Readable t dataBase fileLen video) :
    readSyncs stbl video t.length = some (t.map sync) := by
  have found := tables.stss
  cases video with
  | true => exact readSyncs_stssBytes readable.few found
  | false =>
    have every : replicate t.length true = t.map sync := by
      symm
      apply eq_replicate_iff.mpr
      refine ⟨length_map _, ?_⟩
      intro flag member
      obtain ⟨s, listed, same⟩ := mem_map.mp member
      rw [← same]
      exact readable.listed rfl s listed
    rw [← every]
    rfl

theorem parseTrack_tables (tables : Tables stbl t dataBase video)
    (readable : Readable t dataBase fileLen video) (bounded : fileLen < 2 ^ 32) (timescale : Nat) :
    parseTrack stbl fileLen video timescale =
      some ⟨timescale, readBack (fun s => dataBase + s.off) 0 t, trackDuration t⟩ := by
  have sizes := readSizes_stszBytes readable.present readable.few
    (fun s member => by have fits := readable.inside s member; omega)
  have durations := readTimes_sttsBytes readable.few readable.timed
  have offsets := readOffsets_stcoBytes readable.few bounded readable.inside
  have syncs := readSyncs_tables tables readable
  have first : ¬ (video = true ∧ (t.map sync).head? ≠ some true) := by
    intro refused
    apply refused.2
    cases found : t.head? with
    | none => exact absurd (head?_eq_none_iff.mp found) readable.present
    | some s => rw [head?_map, found, Option.map_some, readable.first s found]
  simp only [parseTrack, tables.stts, tables.stsz, tables.stsc, tables.stco, bind_eq_bind,
    bind_some, sizes, length_map, durations, offsets, syncs]
  rw [guard_bind first, assemble_eq_readBack]
  rfl

theorem parseTrak_media {m : Media} {trak : List UInt8} (info : Info) (fileLen : Nat)
    (found : child trak tagMdia = some (m.mdiaBytes dataBase)) (fits : Fits (m.mdiaBytes dataBase))
    (head : m.headTag ≠ tagStbl) (clocked : m.timescale ≠ 0) (small : m.timescale < 2 ^ 32) :
    parseTrak info trak fileLen =
      parseEntry info m.kind.bytes (m.entry ++ []) (m.stblBytes dataBase) fileLen m.timescale := by
  have hdlrFits := fits.after
  have minfFits := hdlrFits.after
  have headFits := minfFits.inner
  have dinfFits := headFits.after
  have stblFits := dinfFits.after
  have mdhd : path trak [tagMdia, tagMdhd] = some (mdhdBytes m.timescale (trackDuration m.samples)) := by
    rw [path, foldlM_cons, found, bind_eq_bind, bind_some, foldlM_cons, Media.mdiaBytes, child_this fits]
    rfl
  have hdlr : path trak [tagMdia, tagHdlr] = some (hdlrBytes m.kind m.name) := by
    rw [path, foldlM_cons, found, bind_eq_bind, bind_some, foldlM_cons,
      Media.mdiaBytes, child_next (by decide) fits, child_this hdlrFits]
    rfl
  have stbl : path trak [tagMdia, tagMinf, tagStbl] = some (m.stblBytes dataBase) := by
    have minf : child (m.mdiaBytes dataBase) tagMinf = some (m.minfBytes dataBase) := by
      rw [Media.mdiaBytes, child_next (by decide) fits, child_next (by decide) hdlrFits, child_this minfFits]
    rw [path, foldlM_cons, found, bind_eq_bind, bind_some, foldlM_cons,
      minf, bind_eq_bind, bind_some, foldlM_cons, Media.minfBytes,
      child_next head headFits, child_next (by decide) dinfFits, child_this stblFits]
    rfl
  have stsd : child (m.stblBytes dataBase) tagStsd = some (counted 1 (m.entry ++ [])) := by
    rw [Media.stblBytes, child_this stblFits.inner]
  have timescale : rd32 (mdhdBytes m.timescale (trackDuration m.samples)) 12 = some m.timescale := by
    rw [mdhdBytes, rd32_past (length_encode 4 0) (by decide), rd32_past (length_encode 4 0) (by decide),
      rd32_past (length_encode 4 0) (by decide)]
    exact rd32_here small _
  have long : 12 ≤ (hdlrBytes m.kind m.name).length := by
    rw [hdlrBytes]
    simp only [length_append, length_encode, m.kind.size]
    omega
  have one : rd32 (counted 1 (m.entry ++ [])) 4 = some 1 := by
    rw [counted]
    exact rd32_here (by decide) _
  have handler : ((hdlrBytes m.kind m.name).drop 8).take 4 = m.kind.bytes := by
    rw [hdlrBytes, ← append_assoc, drop_left', take_left' m.kind.size]
    rw [length_append, length_encode]
  have entry : (counted 1 (m.entry ++ [])).drop 8 = m.entry ++ [] := by
    rw [counted, ← append_assoc, drop_left']
    rw [length_append, length_encode, length_encode]
  simp only [parseTrak, mdhd, hdlr, stbl, stsd, timescale, one, bind_eq_bind, bind_some]
  rw [guard_bind clocked, guard_bind long, guard_bind trivial, handler, entry]

def Info.withVideo (info : Info) (w : Writer) (dataBase : Nat) : Info :=
  { info with
    width := w.width
    height := w.height
    vp9Profile := 0
    vp9BitDepth := 8
    video := some ⟨videoTimescale, readBack (fun s => dataBase + s.off) 0 w.video, trackDuration w.video⟩ }

def Info.withAudio (info : Info) (w : Writer) (dataBase : Nat) : Info :=
  { info with
    opusChannels := 1
    opusPreskip := Mp4.opusPreskip
    audio := some ⟨audioTimescale, readBack (fun s => dataBase + s.off) 0 w.audio, trackDuration w.audio⟩ }

theorem parseVideo_entry (tables : Tables stbl w.video dataBase true)
    (readable : Readable w.video dataBase fileLen true) (bounded : fileLen < 2 ^ 32)
    (wide : w.width ≠ 0 ∧ w.width < 2 ^ 16) (high : w.height ≠ 0 ∧ w.height < 2 ^ 16) (unread : info.video = none) :
    parseVideo info w.vp09Bytes stbl fileLen videoTimescale = some (info.withVideo w dataBase) := by
  have width : rd16 w.vp09Bytes 24 = some w.width := by
    rw [Writer.vp09Bytes, rd16_past length_replicate (by decide), rd16_past (length_encode 2 1) (by decide),
      rd16_past (length_encode 2 0) (by decide),
      rd16_past (length_encode 2 0) (by decide),
      rd16_past length_replicate (by decide)]
    exact rd16_here wide.2 _
  have height : rd16 w.vp09Bytes 26 = some w.height := by
    rw [Writer.vp09Bytes, rd16_past length_replicate (by decide), rd16_past (length_encode 2 1) (by decide),
      rd16_past (length_encode 2 0) (by decide),
      rd16_past (length_encode 2 0) (by decide),
      rd16_past length_replicate (by decide),
      rd16_past (length_encode 2 w.width) (by decide)]
    exact rd16_here high.2 _
  have inner : w.vp09Bytes.drop 78 = box tagVpcC w.vpcCBytes ++ [] := rfl
  have size : w.vpcCBytes.length = 12 := rfl
  have fits : Fits (box tagVpcC w.vpcCBytes ++ []) := by
    rw [Fits, append_nil, length_box, size]
    decide
  have vpcC : child (w.vp09Bytes.drop 78) tagVpcC = some w.vpcCBytes := by
    rw [inner]
    exact child_this fits
  have profile : (w.vpcCBytes.getD 4 0).toNat = 0 := rfl
  have byte : w.vpcCBytes.getD 6 0 = 0x82 := rfl
  have depth : (w.vpcCBytes.getD 6 0).toNat >>> 4 = 8 := by
    rw [byte]
    decide
  simp only [parseVideo, width, height, vpcC, parseTrack_tables tables readable bounded,
    bind_eq_bind, bind_some, profile, depth]
  rw [guard_bind (by rw [unread]; rfl), guard_bind ⟨wide.1, high.1⟩]
  rfl

theorem parseAudio_entry (tables : Tables stbl w.audio dataBase false)
    (readable : Readable w.audio dataBase fileLen false) (bounded : fileLen < 2 ^ 32) (unread : info.audio = none) :
    parseAudio info w.opusBytes stbl fileLen audioTimescale = some (info.withAudio w dataBase) := by
  have inner : w.opusBytes.drop 28 = box tagDOps w.dOpsBytes ++ [] := rfl
  have size : w.dOpsBytes.length = 11 := rfl
  have fits : Fits (box tagDOps w.dOpsBytes ++ []) := by
    rw [Fits, append_nil, length_box, size]
    decide
  have dOps : child (w.opusBytes.drop 28) tagDOps = some w.dOpsBytes := by
    rw [inner]
    exact child_this fits
  have version : w.dOpsBytes.getD 0 0 = 0 := rfl
  have channels : (w.dOpsBytes.getD 1 0).toNat = 1 := rfl
  have preskip : number w.dOpsBytes 2 2 = Mp4.opusPreskip := rfl
  simp only [parseAudio, dOps, parseTrack_tables tables readable bounded, bind_eq_bind,
    bind_some, channels, preskip]
  rw [guard_bind (by rw [unread]; rfl), guard_bind ⟨by rw [size], version⟩]
  rfl

theorem parseTrak_video {id : Nat} (readable : Readable w.video dataBase fileLen true) (bounded : fileLen < 2 ^ 32)
    (wide : w.width ≠ 0 ∧ w.width < 2 ^ 16) (high : w.height ≠ 0 ∧ w.height < 2 ^ 16) (unread : info.video = none)
    (fits : Fits (w.videoTrakBytes id dataBase)) :
    parseTrak info (w.videoTrakBytes id dataBase) fileLen = some (info.withVideo w dataBase) := by
  have mdiaFits := fits.after
  have stblFits := mdiaFits.inner.after.after.inner.after.after.inner
  have found : child (w.videoTrakBytes id dataBase) tagMdia = some (w.videoMedia.mdiaBytes dataBase) :=
    (child_next (by decide) fits).trans (child_this mdiaFits)
  have entry : child (w.videoMedia.entry ++ []) tagVp09 = some w.vp09Bytes := by
    have size : (box tagVp09 w.vp09Bytes ++ []).length = 106 := rfl
    have entryFits : Fits (box tagVp09 w.vp09Bytes ++ []) := by
      rw [Fits, size]
      decide
    exact child_this entryFits
  rw [parseTrak_media info fileLen found mdiaFits.inner (by decide : tagVmhd ≠ tagStbl)
    (by decide : videoTimescale ≠ 0) (by decide : videoTimescale < 2 ^ 32)]
  rw [parseEntry, entry]
  exact parseVideo_entry (tables_of_fits stblFits) readable bounded wide high unread

theorem parseTrak_audio {id : Nat} (readable : Readable w.audio dataBase fileLen false) (bounded : fileLen < 2 ^ 32)
    (unread : info.audio = none) (fits : Fits (w.audioTrakBytes id dataBase)) :
    parseTrak info (w.audioTrakBytes id dataBase) fileLen = some (info.withAudio w dataBase) := by
  have mdiaFits := fits.after.after
  have stblFits := mdiaFits.inner.after.after.inner.after.after.inner
  have found : child (w.audioTrakBytes id dataBase) tagMdia = some (w.audioMedia.mdiaBytes dataBase) :=
    (child_next (by decide) fits).trans ((child_next (by decide) fits.after).trans (child_this mdiaFits))
  have entry : child (w.audioMedia.entry ++ []) tagOpus = some w.opusBytes := by
    have size : (box tagOpus w.opusBytes ++ []).length = 55 := rfl
    have entryFits : Fits (box tagOpus w.opusBytes ++ []) := by
      rw [Fits, size]
      decide
    exact child_this entryFits
  rw [parseTrak_media info fileLen found mdiaFits.inner (by decide : tagSmhd ≠ tagStbl)
    (by decide : audioTimescale ≠ 0) (by decide : audioTimescale < 2 ^ 32)]
  have kind : w.audioMedia.kind.bytes = tagSoun.bytes := rfl
  rw [parseEntry, if_pos kind, entry]
  exact parseAudio_entry (tables_of_fits stblFits) readable bounded unread

structure Sound (w : Writer) : Prop where
  sized : w.width ≠ 0 → w.width < 2 ^ 16 ∧ w.height ≠ 0 ∧ w.height < 2 ^ 16
  unsized : w.width = 0 → w.height = 0 ∧ w.video = []
  few : w.video.length + w.audio.length ≤ maxSamples
  videoTimed : ∀ s ∈ w.video, s.dur < 2 ^ 32
  audioTimed : ∀ s ∈ w.audio, s.dur < 2 ^ 32
  videoInside : ∀ s ∈ w.video, s.off + s.size ≤ w.data.length
  audioInside : ∀ s ∈ w.audio, s.off + s.size ≤ w.data.length
  first : ∀ s, w.video.head? = some s → s.sync = true
  listed : ∀ s ∈ w.audio, s.sync = true

namespace Writer

def found (w : Writer) (dataBase : Nat) : Info :=
  let seen := if w.video.length ≠ 0 then noInfo.withVideo w dataBase else noInfo
  if w.audio.length ≠ 0 then seen.withAudio w dataBase else seen

variable {w : Writer} {dataBase fileLen : Nat}

/-- A track that is written only when it has samples, with what comes after it. -/
theorem traks_part {present : Prop} [Decidable present] {info after : Info} {trak rest : List UInt8}
    (fits : Fits ((if present then box tagTrak trak else []) ++ rest))
    (read : present → Fits trak → parseTrak info trak fileLen = some after) :
    Fits rest ∧ traks fileLen info ((if present then box tagTrak trak else []) ++ rest) =
      traks fileLen (if present then after else info) rest := by
  by_cases here : present
  · rw [if_pos here] at fits ⊢
    refine ⟨fits.after, ?_⟩
    rw [traks_box fileLen info fits, if_pos here, read here fits.inner]
    rfl
  · rw [if_neg here] at fits ⊢
    rw [if_neg here]
    exact ⟨fits, rfl⟩

section Moov

variable {info : Info} {id dataBase fileLen : Nat} (sound : Sound w) (bounded : fileLen < 2 ^ 32)
  (long : dataBase + w.data.length ≤ fileLen)

include sound bounded long

theorem parseTrak_videoPart (unread : info.video = none) (present : w.video.length ≠ 0)
    (fits : Fits (w.videoTrakBytes id dataBase)) :
    parseTrak info (w.videoTrakBytes id dataBase) fileLen = some (info.withVideo w dataBase) := by
  have some : w.video ≠ [] := fun empty => present (length_eq_zero_iff.mpr empty)
  have wide : w.width ≠ 0 := fun narrow => some (sound.unsized narrow).2
  obtain ⟨narrow, high, low⟩ := sound.sized wide
  have readable : Readable w.video dataBase fileLen true := by
    constructor
    · exact some
    · exact le_trans (Nat.le_add_right _ _) sound.few
    · exact sound.videoTimed
    · intro s member
      have inside := sound.videoInside s member
      omega
    · exact sound.first
    · exact fun audio => Bool.noConfusion audio
  exact parseTrak_video readable bounded ⟨wide, narrow⟩ ⟨high, low⟩ unread fits

theorem parseTrak_audioPart (unread : info.audio = none) (present : w.audio.length ≠ 0)
    (fits : Fits (w.audioTrakBytes id dataBase)) :
    parseTrak info (w.audioTrakBytes id dataBase) fileLen = some (info.withAudio w dataBase) := by
  have readable : Readable w.audio dataBase fileLen false := by
    constructor
    · exact fun empty => present (length_eq_zero_iff.mpr empty)
    · exact le_trans (Nat.le_add_left _ _) sound.few
    · exact sound.audioTimed
    · intro s member
      have inside := sound.audioInside s member
      omega
    · exact fun s first => sound.listed s (mem_of_head? first)
    · exact fun _ => sound.listed
  exact parseTrak_audio readable bounded unread fits

theorem traks_moovBytes (fits : Fits (w.moovBytes dataBase)) :
    traks fileLen noInfo (w.moovBytes dataBase) = some (w.found dataBase) := by
  have unseen : noInfo.video = none := rfl
  have unread : (if w.video.length ≠ 0 then noInfo.withVideo w dataBase else noInfo).audio = none := by
    split <;> rfl
  obtain ⟨left, videoSeen⟩ := traks_part fits.after (parseTrak_videoPart sound bounded long unseen)
  obtain ⟨-, audioSeen⟩ := traks_part left (parseTrak_audioPart sound bounded long unread)
  rw [moovBytes, traks_box fileLen noInfo fits, videoSeen, audioSeen]
  rfl

end Moov

theorem found_video (w : Writer) (dataBase : Nat) : (w.found dataBase).video = if w.video.length ≠ 0 then
      some ⟨videoTimescale, readBack (fun s => dataBase + s.off) 0 w.video, trackDuration w.video⟩
    else none := by
  rw [found]
  split <;> split <;> rfl

theorem found_audio (w : Writer) (dataBase : Nat) : (w.found dataBase).audio = if w.audio.length ≠ 0 then
      some ⟨audioTimescale, readBack (fun s => dataBase + s.off) 0 w.audio, trackDuration w.audio⟩
    else none := by
  rw [found]
  split <;> split <;> rfl

theorem found_size (sound : Sound w) (present : w.missing = false) (dataBase : Nat) :
    (w.found dataBase).width = w.width ∧ (w.found dataBase).height = w.height := by
  by_cases wide : w.width = 0
  · obtain ⟨low, none⟩ := sound.unsized wide
    have empty : ¬ w.video.length ≠ 0 := by
      rw [none]
      exact fun no => no rfl
    rw [found, wide, low]
    split <;> exact ⟨rfl, rfl⟩
  · have some : w.video.length ≠ 0 := by
      intro empty
      simp [missing, if_pos wide, length_eq_zero_iff.mp empty] at present
    rw [found]
    split <;> exact ⟨rfl, rfl⟩

theorem infoMs_found (w : Writer) (dataBase : Nat) : infoMs (w.found dataBase) = w.movieMs := by
  have video : ((w.found dataBase).video.map fun t => t.duration * 1000 / t.timescale).getD 0 =
      w.videoMs := by
    rw [found_video]
    split
    · rfl
    next none =>
    rw [videoMs, length_eq_zero_iff.mp (Decidable.not_not.mp none)]
    rfl
  have audio : ((w.found dataBase).audio.map fun t =>
      (if t.duration > (w.found dataBase).opusPreskip then
        t.duration - (w.found dataBase).opusPreskip else 0) * 1000 / t.timescale).getD 0 =
      w.audioMs := by
    rw [found_audio, found]
    by_cases some : w.audio.length ≠ 0
    · rw [if_pos some, if_pos some]
      rfl
    · rw [audioMs, length_eq_zero_iff.mp (Decidable.not_not.mp some)]
      rfl
  rw [infoMs, movieMs, video, audio]

theorem parse_fileBytes (sound : Sound w) (present : w.missing = false) (short : w.base + w.data.length ≤ maxFile) :
    parse (w.fileBytes w.base) = some { w.found w.base with durationMs := w.movieMs % 2 ^ 32 } := by
  have length := w.length_fileBytes w.base
  have bound : maxFile < 2 ^ 31 := by decide
  have fits : Fits (w.fileBytes w.base) := by
    rw [Fits]
    omega
  have long : 16 ≤ (w.fileBytes w.base).length ∧ (w.fileBytes w.base).length ≤ maxFile := by
    rw [length]
    refine ⟨?_, short⟩
    rw [base]
    omega
  have ftypFound : child (w.fileBytes w.base) tagFtyp = some ftypBytes := child_this fits
  have moovFound : child (w.fileBytes w.base) tagMoov = some (w.moovBytes w.base) :=
    (child_next (by decide) fits).trans (child_this fits.after)
  have mdatFound : child (w.fileBytes w.base) tagMdat = some w.data := (child_next (by decide) fits).trans
      ((child_next (by decide) fits.after).trans (child_this fits.after.after))
  have read := traks_moovBytes sound (by omega) length.ge fits.after.inner
  have tracks : (w.found w.base).video.isSome ∨ (w.found w.base).audio.isSome := by
    rw [found_video, found_audio]
    cases video : w.video with
    | cons s t => exact Or.inl rfl
    | nil =>
      cases audio : w.audio with
      | cons s t => exact Or.inr rfl
      | nil =>
        simp [missing, video, audio, ite_self] at present
  have plain : ¬ ((w.found w.base).video.isSome ∧
      ((w.found w.base).vp9Profile ≠ 0 ∨ (w.found w.base).vp9BitDepth ≠ 8)) := by
    rw [found_video, found]
    by_cases some : w.video.length ≠ 0
    · rw [if_pos some]
      split <;> exact fun bad => bad.2.elim (fun no => no rfl) fun no => no rfl
    · rw [if_neg some]
      exact fun bad => Bool.noConfusion bad.1
  rw [traks] at read
  simp only [parse, ftypFound, moovFound, mdatFound, read, bind_eq_bind, bind_some]
  rw [guard_bind long, guard_bind tracks, guard_bind plain, infoMs_found]
  rfl

end Writer

end OpenChime.Shared.Mp4
