import Mathlib.Algebra.Order.Ring.Nat
import Mathlib.Order.Lattice.Nat
import OpenChime.Daemon.SumStore
import OpenChime.Lib.Dialogue

/-! How the summary worker builds (`sum_core.c`, `sum_worker.c`): a channel's messages are cut into
pieces, each piece has notes taken on it, and a period is summarized from its messages or, when
they are too many for one prompt, from the notes. The worker reads the database and calls the
model one question at a time, and the writer goes on between the questions. -/

set_option autoImplicit false

namespace OpenChime.Daemon.Summary

open OpenChime.Shared Dialogue List

variable {Key : Type}

structure ThreadUnit where
  root : Nat
  msgs : List SumMsg
  stop : Int
  tokens : Nat

structure SumChunk where
  first : SumMsg
  rest : List SumMsg
  stop : Int

def SumChunk.msgs (c : SumChunk) : List SumMsg := c.first :: c.rest

inductive SumPiece where
  | plain (chunk : SumChunk)
  | thread (first : SumChunk) (rest : List SumChunk) (stop : Int)

def SumPiece.stop : SumPiece → Int
  | .plain chunk => chunk.stop
  | .thread _ _ stop => stop

def SumPiece.chunks : SumPiece → List SumChunk
  | .plain chunk => [chunk]
  | .thread first rest _ => first :: rest

def SumPiece.msgs (p : SumPiece) : List SumMsg := p.chunks.flatMap (·.msgs)

/-- The pieces cut so far, and the messages of the piece being cut. -/
structure Cutting where
  pieces : List SumPiece
  cur : List SumMsg
  tokens : Nat
  stop : Int

section Cut

variable (tokens : SumMsg → Nat) (threshold gap : Nat)

/-- A message joins the unit of its thread, which is placed at its last activity. -/
def joinUnit (m : SumMsg) : List ThreadUnit → List ThreadUnit
  | [] => [{ root := m.root, msgs := [m], stop := max 0 m.created, tokens := tokens m }]
  | u :: rest =>
    if u.root = m.root then
      { u with msgs := u.msgs ++ [m], stop := max u.stop m.created, tokens := u.tokens + tokens m } :: rest
    else u :: joinUnit m rest

def threadUnits (msgs : List SumMsg) : List ThreadUnit :=
  (msgs.foldl (fun units m => joinUnit tokens m units) []).insertionSort
    fun a b => a.stop < b.stop ∨ a.stop = b.stop ∧ a.root ≤ b.root

def SumChunk.begin (m : SumMsg) : SumChunk := { first := m, rest := [], stop := max 0 m.created }

def SumChunk.add (c : SumChunk) (m : SumMsg) : SumChunk :=
  { c with rest := c.rest ++ [m], stop := max c.stop m.created }

/-- A thread too big for one piece: its own chunks of whole messages. -/
def threadChunks : Option (SumChunk × Nat) → List SumMsg → List SumChunk
  | none, [] => []
  | some (c, _), [] => [c]
  | none, m :: rest => threadChunks (some (SumChunk.begin m, tokens m)) rest
  | some (c, t), m :: rest =>
    if t + tokens m ≤ threshold then threadChunks (some (c.add m, t + tokens m)) rest
    else c :: threadChunks (some (SumChunk.begin m, tokens m)) rest

def Cutting.flush (c : Cutting) : Cutting :=
  match c.cur with
  | [] => c
  | m :: ms =>
    { c with pieces := c.pieces ++ [.plain { first := m, rest := ms, stop := c.stop }], cur := []
             tokens := 0 }

def Cutting.bigThread (c : Cutting) (chunks : List SumChunk) (stop : Int) : Cutting :=
  match chunks with
  | [] => c
  | first :: rest => { c with pieces := c.pieces ++ [.thread first rest stop] }

def Cutting.breaks (c : Cutting) (u : ThreadUnit) : Bool :=
  !c.cur.isEmpty && (decide (gap < (u.stop - c.stop).toNat) || decide (threshold < c.tokens + u.tokens))

def Cutting.add (c : Cutting) (u : ThreadUnit) : Cutting :=
  { c with cur := c.cur ++ u.msgs, tokens := c.tokens + u.tokens, stop := u.stop }

def Cutting.next (c : Cutting) (u : ThreadUnit) : Cutting :=
  if 1 < u.msgs.length ∧ threshold < u.tokens then
    c.flush.bigThread (threadChunks tokens threshold none u.msgs) u.stop
  else if c.breaks threshold gap u then c.flush.add u
  else c.add u

def cutBuild (msgs : List SumMsg) : List SumPiece :=
  ((threadUnits tokens msgs).foldl (Cutting.next tokens threshold gap)
    { pieces := [], cur := [], tokens := 0, stop := 0 }).flush.pieces

/-! The units are the threads, each whole and in order, and a piece is a run of them. -/

structure ThreadUnit.Of (msgs : List SumMsg) (u : ThreadUnit) : Prop where
  whole : u.msgs = msgs.filter (·.root = u.root)
  begun : u.msgs ≠ []
  stop : u.stop = (u.msgs.map (·.created)).foldl max 0
  tokens : u.tokens = (u.msgs.map tokens).sum

structure Units (units : List ThreadUnit) (msgs : List SumMsg) : Prop where
  all : units.flatMap (·.msgs) ~ msgs
  roots : (units.map (·.root)).Nodup
  each : ∀ u ∈ units, u.Of tokens msgs

structure PieceOf (p : SumPiece) (units : List ThreadUnit) : Prop where
  msgs : p.msgs = units.flatMap (·.msgs)
  stop : ∃ before u, units = before ++ [u] ∧ p.stop = u.stop
  near : units.IsChain fun u v : ThreadUnit => v.stop ≤ u.stop + gap
  small : ∀ c ∈ p.chunks, (c.msgs.map tokens).sum ≤ threshold ∨ c.rest = []

variable {tokens threshold gap}

variable {x m : SumMsg} {units : List ThreadUnit} {u : ThreadUnit} {msgs : List SumMsg} {c : Cutting}

variable (tokens) in
theorem joinUnit_cases (m : SumMsg) (units : List ThreadUnit) :
    (∃ before u after, units = before ++ u :: after ∧ u.root = m.root ∧ joinUnit tokens m units = before ++
      { u with msgs := u.msgs ++ [m], stop := max u.stop m.created, tokens := u.tokens + tokens m } :: after) ∨
    (∀ u ∈ units, u.root ≠ m.root) ∧ joinUnit tokens m units = units ++ [⟨m.root, [m], max 0 m.created, tokens m⟩] := by
  induction units with
  | nil => exact .inr ⟨by simp, rfl⟩
  | cons v units ih =>
    rw [joinUnit]
    split
    · next same => exact .inl ⟨[], v, units, rfl, same, rfl⟩
    next other =>
    rcases ih with ⟨before, u, after, rfl, same, joined⟩ | ⟨others, joined⟩
    · exact .inl ⟨v :: before, u, after, rfl, same, by rw [joined]; rfl⟩
    · exact .inr ⟨forall_mem_cons.mpr ⟨other, others⟩, by rw [joined]; rfl⟩

theorem ThreadUnit.Of.other (isUnit : u.Of tokens msgs) (other : u.root ≠ m.root) : u.Of tokens (msgs ++ [m]) where
  __ := isUnit
  whole := by rw [isUnit.whole, filter_append]; simp [other.symm]

theorem Units.join (isUnits : Units tokens units msgs) (m : SumMsg) :
    Units tokens (joinUnit tokens m units) (msgs ++ [m]) := by
  rcases joinUnit_cases tokens m units with ⟨before, u, after, rfl, same, joined⟩ | ⟨others, joined⟩
  · have whole := isUnits.all
    have roots := isUnits.roots
    rw [flatMap_append, flatMap_cons, ← append_assoc] at whole
    rw [joined]
    refine ⟨?_, by simpa using roots, ?_⟩
    · rw [flatMap_append, flatMap_cons, ← append_assoc, ← append_assoc, append_assoc]
      exact (perm_middle.trans (whole.cons m)).trans (perm_append_singleton m msgs).symm
    · rw [map_append, map_cons, nodup_middle, nodup_cons, ← map_append] at roots
      have changed := isUnits.each u (by simp)
      have others : ∀ v ∈ before ++ after, v.Of tokens (msgs ++ [m]) := by
        intro v isOther
        have apart : v.root ≠ m.root := fun sameRoot =>
          roots.1 (mem_map.mpr ⟨v, isOther, sameRoot.trans same.symm⟩)
        exact (isUnits.each v (((sublist_cons_self u after).append_left before).subset isOther)).other apart
      intro v isUnit
      rcases mem_append.mp isUnit with first | second
      · exact others v (mem_append_left _ first)
      rcases mem_cons.mp second with rfl | second
      · refine ⟨?_, by simp, ?_, ?_⟩
        · simp [changed.whole, filter_append, same]
        · simp [changed.stop]
        · simp [changed.tokens]
      · exact others v (mem_append_right _ second)
  · rw [joined]
    have none : msgs.filter (·.root = m.root) = [] := by
      refine filter_eq_nil_iff.mpr fun x isMsg => ?_
      obtain ⟨v, isUnit, isIn⟩ := mem_flatMap.mp (isUnits.all.mem_iff.mpr isMsg)
      rw [(isUnits.each v isUnit).whole] at isIn
      have ofUnit := of_mem_filter isIn
      simp only [decide_eq_true_eq] at ofUnit ⊢
      exact ofUnit ▸ others v isUnit
    refine ⟨?_, ?_, ?_⟩
    · rw [flatMap_append]
      exact isUnits.all.append_right _
    · rw [map_append, nodup_append_comm]
      exact nodup_cons.mpr ⟨by simpa using others, isUnits.roots⟩
    · refine forall_mem_append.mpr ⟨fun v isUnit => (isUnits.each v isUnit).other (others v isUnit), ?_⟩
      rw [forall_mem_singleton]
      refine ⟨?_, by simp, by simp, by simp⟩
      simp [filter_append, none]

theorem Units.perm {others : List ThreadUnit} (isUnits : Units tokens units msgs) (same : others ~ units) :
    Units tokens others msgs where
  all := (same.flatMap_right _).trans isUnits.all
  roots := (same.map _).nodup_iff.mpr isUnits.roots
  each u isUnit := isUnits.each u (same.mem_iff.mp isUnit)

theorem units_threadUnits (msgs : List SumMsg) : Units tokens (threadUnits tokens msgs) msgs := by
  have grouped : Units tokens (msgs.foldl (fun units m => joinUnit tokens m units) []) msgs := by
    induction msgs using reverseRecOn with
    | nil => exact ⟨.refl _, nodup_nil, by simp⟩
    | append_singleton msgs m ih =>
      rw [foldl_append]
      exact ih.join m
  exact grouped.perm (perm_insertionSort _ _)

theorem pairwise_threadUnits (msgs : List SumMsg) : (threadUnits tokens msgs).Pairwise (·.stop ≤ ·.stop) := by
  have total : Std.Total fun a b : ThreadUnit => a.stop < b.stop ∨ a.stop = b.stop ∧ a.root ≤ b.root :=
    ⟨fun a b => by omega⟩
  have trans : IsTrans ThreadUnit fun a b => a.stop < b.stop ∨ a.stop = b.stop ∧ a.root ≤ b.root :=
    ⟨fun a b c => by omega⟩
  exact (pairwise_insertionSort _ _).imp fun ordered => by omega

/-- The chunks of a big thread, from the one begun on. -/
theorem threadChunks_spec (cur : Option (SumChunk × Nat)) (msgs : List SumMsg)
    (small : ∀ c t, cur = some (c, t) → t = (c.msgs.map tokens).sum ∧ (t ≤ threshold ∨ c.rest = [])) :
    (threadChunks tokens threshold cur msgs).flatMap (·.msgs) = (cur.toList.flatMap (·.1.msgs)) ++ msgs ∧
      ∀ c ∈ threadChunks tokens threshold cur msgs, (c.msgs.map tokens).sum ≤ threshold ∨ c.rest = [] := by
  have begun (m : SumMsg) (c : SumChunk) (t : Nat) (same : some (SumChunk.begin m, tokens m) = some (c, t)) :
      t = (c.msgs.map tokens).sum ∧ (t ≤ threshold ∨ c.rest = []) := by
    cases same
    exact ⟨rfl, .inr rfl⟩
  fun_induction threadChunks tokens threshold cur msgs with
  | case1 => simp
  | case2 c t =>
    obtain ⟨sum, bound⟩ := small c t rfl
    simpa [← sum] using bound
  | case3 m rest ih => exact ih (begun m)
  | case4 c t m rest fit ih =>
    have grown : ((c.add m).msgs.map tokens).sum = t + tokens m := by
      rw [(small c t rfl).1]
      simp [SumChunk.add, SumChunk.msgs, Nat.add_assoc]
    simpa [SumChunk.add, SumChunk.msgs] using ih fun _ _ same => by
      cases same
      exact ⟨grown.symm, .inl fit⟩
  | case5 c t m rest fit ih =>
    obtain ⟨whole, each⟩ := ih (begun m)
    obtain ⟨sum, bound⟩ := small c t rfl
    rw [flatMap_cons, whole]
    exact ⟨by simp [SumChunk.begin, SumChunk.msgs], forall_mem_cons.mpr ⟨sum ▸ bound, each⟩⟩

theorem SumPiece.msgs_plain (chunk : SumChunk) : (SumPiece.plain chunk).msgs = chunk.msgs := by
  rw [SumPiece.msgs, SumPiece.chunks, flatMap_singleton]

variable (threshold gap) in
/-- The pieces so far are of some of the units, and what is being cut of the others. -/
structure Cutting.Of (tokens : SumMsg → Nat) (c : Cutting) (groups : List (List ThreadUnit)) (units : List ThreadUnit) :
    Prop where
  pieces : Forall₂ (PieceOf tokens threshold gap) c.pieces groups
  cur : c.cur = units.flatMap (·.msgs)
  tokens : c.tokens = (c.cur.map tokens).sum
  stop : units = [] ∨ ∃ before u, units = before ++ [u] ∧ c.stop = u.stop
  near : units.IsChain fun u v : ThreadUnit => v.stop ≤ u.stop + gap
  small : c.tokens ≤ threshold ∨ c.cur.length ≤ 1

namespace Cutting.Of

variable {groups : List (List ThreadUnit)} (cut : c.Of threshold gap tokens groups units)
include cut

theorem units_nil (begun : ∀ u ∈ units, u.msgs ≠ []) (none : c.cur = []) : units = [] :=
  eq_nil_iff_forall_not_mem.mpr fun u isUnit =>
    begun u isUnit (flatMap_eq_nil_iff.mp (cut.cur.symm.trans none) u isUnit)

theorem flush (begun : ∀ u ∈ units, u.msgs ≠ []) :
    ∃ more, more.flatten = units ∧ c.flush.Of threshold gap tokens (groups ++ more) [] := by
  unfold Cutting.flush
  split
  · next none =>
    have empty := cut.units_nil begun none
    exact ⟨[], empty.symm, by rw [append_nil]; exact empty ▸ cut⟩
  next m ms same =>
  have stop := cut.stop.resolve_left fun empty => by simp [cut.cur, empty] at same
  refine ⟨[units], flatten_singleton, ?_, rfl, rfl, .inl rfl, isChain_nil, .inl (Nat.zero_le _)⟩
  refine rel_append cut.pieces (.cons ⟨?_, stop, cut.near, ?_⟩ .nil)
  · rw [SumPiece.msgs_plain, ← cut.cur, same]
    rfl
  · intro chunk isChunk
    rw [mem_singleton.mp isChunk]
    rcases cut.small with small | single
    · exact .inl (by rwa [cut.tokens, same] at small)
    · exact .inr (length_eq_zero_iff.mp (by simpa [same] using single))

theorem add (isUnit : u.Of tokens msgs) (fits : ¬(1 < u.msgs.length ∧ threshold < u.tokens))
    (follows : units = [] ∨ u.stop ≤ c.stop + gap ∧ c.tokens + u.tokens ≤ threshold) :
    (c.add u).Of threshold gap tokens groups (units ++ [u]) where
  pieces := cut.pieces
  cur := by rw [Cutting.add, cut.cur, flatMap_append, flatMap_singleton]
  tokens := by rw [Cutting.add, cut.tokens, isUnit.tokens, map_append, sum_append]
  stop := .inr ⟨units, u, rfl, rfl⟩
  near := by
    refine isChain_append.mpr ⟨cut.near, isChain_singleton _, ?_⟩
    rintro v isLast _ ⟨⟩
    rcases follows with rfl | follows
    · cases isLast
    rcases cut.stop with rfl | ⟨before, w, rfl, stop⟩
    · cases isLast
    rw [getLast?_concat] at isLast
    cases isLast
    exact stop ▸ follows.1
  small := by
    rcases follows with rfl | follows
    · have none : c.cur = [] := cut.cur
      have zero := cut.tokens
      simp only [Cutting.add, none, zero, map_nil, sum_nil, nil_append, Nat.zero_add]
      omega
    · exact .inl follows.2

theorem next (isUnit : u.Of tokens msgs) (begun : ∀ u ∈ units, u.msgs ≠ []) :
    ∃ groups' units', groups'.flatten ++ units' = groups.flatten ++ units ++ [u] ∧
      (c.next tokens threshold gap u).Of threshold gap tokens groups' units' := by
  obtain ⟨more, all, flushed⟩ := cut.flush begun
  have done : (groups ++ more).flatten ++ [u] = groups.flatten ++ units ++ [u] := by rw [flatten_append, all]
  unfold Cutting.next
  split
  · next big =>
    refine ⟨groups ++ more ++ [[u]], [], by rw [← done, flatten_append, flatten_singleton, append_nil], ?_⟩
    obtain ⟨whole, small⟩ := @threadChunks_spec tokens threshold none u.msgs (by simp)
    unfold Cutting.bigThread
    split
    · next none =>
      rw [none] at whole
      exact absurd whole.symm isUnit.begun
    next first rest chunks =>
    rw [chunks] at whole small
    refine ⟨rel_append flushed.pieces (.cons ⟨?_, ⟨[], u, rfl, rfl⟩, isChain_singleton _, small⟩ .nil),
      flushed.cur, flushed.tokens, flushed.stop, flushed.near, flushed.small⟩
    rw [flatMap_singleton]
    exact whole
  · next fits =>
    split
    · exact ⟨_, _, done, flushed.add isUnit fits (.inl rfl)⟩
    next goesOn =>
    refine ⟨groups, units ++ [u], by rw [append_assoc], cut.add isUnit fits ?_⟩
    refine (em (c.cur = [])).imp (cut.units_nil begun) fun some => ?_
    simp [Cutting.breaks, some] at goesOn
    omega

end Cutting.Of

section Pieces

variable {pieces : List SumPiece} {groups : List (List ThreadUnit)}
  (each : Forall₂ (PieceOf tokens threshold gap) pieces groups)
include each

theorem stops_sublist : pieces.map (·.stop) <+ groups.flatten.map (·.stop) := by
  induction each with
  | nil => exact .slnil
  | cons isPiece _ ih =>
    obtain ⟨before, u, rfl, stop⟩ := isPiece.stop
    rw [flatten_cons, map_append, map_append, map_cons, stop]
    exact (sublist_append_right _ [u.stop]).append ih

theorem msgs_of_pieces : pieces.flatMap (·.msgs) = groups.flatten.flatMap (·.msgs) := by
  induction each with
  | nil => rfl
  | cons isPiece _ ih => rw [flatMap_cons, ih, isPiece.msgs, flatten_cons, flatMap_append]

end Pieces

/-- The pieces are of the units one after the other. -/
theorem exists_groups (msgs : List SumMsg) : ∃ groups, groups.flatten = threadUnits tokens msgs ∧
    Forall₂ (PieceOf tokens threshold gap) (cutBuild tokens threshold gap msgs) groups := by
  have run (units : List ThreadUnit) (each : ∀ u ∈ units, u.Of tokens msgs) :
      ∃ groups left, groups.flatten ++ left = units ∧
        (units.foldl (Cutting.next tokens threshold gap) ⟨[], [], 0, 0⟩).Of threshold gap tokens groups left := by
    induction units using reverseRecOn with
    | nil => exact ⟨[], [], rfl, .nil, rfl, rfl, .inl rfl, isChain_nil, .inl (Nat.zero_le _)⟩
    | append_singleton units u ih =>
      obtain ⟨before, isUnit⟩ := forall_mem_append.mp each
      obtain ⟨groups, left, rfl, cut⟩ := ih before
      rw [foldl_append]
      exact cut.next (isUnit u mem_cons_self) fun v isLeft => (before v (mem_append_right _ isLeft)).begun
  have isUnits := @units_threadUnits tokens msgs
  obtain ⟨groups, left, all, cut⟩ := run _ isUnits.each
  obtain ⟨more, rfl, flushed⟩ := cut.flush fun u isLeft =>
    (isUnits.each u (all ▸ mem_append_right _ isLeft)).begun
  exact ⟨groups ++ more, by rw [flatten_append, all], flushed.pieces⟩

theorem perm_cutBuild (msgs : List SumMsg) : (cutBuild tokens threshold gap msgs).flatMap (·.msgs) ~ msgs := by
  obtain ⟨groups, all, each⟩ := @exists_groups tokens threshold gap msgs
  rw [msgs_of_pieces each, all]
  exact (units_threadUnits msgs).all

theorem of_mem_cutBuild {p : SumPiece} (mem : p ∈ cutBuild tokens threshold gap msgs) (isIn : x ∈ p.msgs) : x ∈ msgs :=
  (perm_cutBuild msgs).mem_iff.mp (mem_flatMap.mpr ⟨p, mem, isIn⟩)

/-- A history that is cut: nothing is lost, the units are the threads, each whole and in its order,
the pieces are of units one after the other that are not too far apart, and go by their end. -/
theorem cutBuild_cuts (msgs : List SumMsg) : (cutBuild tokens threshold gap msgs).flatMap (·.msgs) ~ msgs ∧
    (∃ groups, Units tokens groups.flatten msgs ∧
      Forall₂ (PieceOf tokens threshold gap) (cutBuild tokens threshold gap msgs) groups) ∧
    (cutBuild tokens threshold gap msgs).Pairwise (·.stop ≤ ·.stop) := by
  obtain ⟨groups, all, each⟩ := @exists_groups tokens threshold gap msgs
  refine ⟨perm_cutBuild msgs, ⟨groups, all ▸ units_threadUnits msgs, each⟩, ?_⟩
  have ordered := pairwise_map.mpr (@pairwise_threadUnits tokens msgs)
  rw [← all] at ordered
  exact pairwise_map.mp (ordered.sublist (stops_sublist each))

end Cut

/-- What a key is made of: `oc_sum_ikey`, `part_key` and `key_of`. -/
inductive KeyOf (Key : Type) where
  | chunk (inputs : List (Nat × Int))
  | part (message : Nat) (stamp : Int) (k n : Nat)
  | kids (kind : NodeKind) (keys : List Key) (dated : Option Int)
  | period (inputs : List Input) (start stop zone : Int)

/-- A node a build can build on: stored, or made by this build. -/
structure Ref (Key : Type) where
  isNew : Bool
  id : Nat
  body : Text
  key : Key
  start : Int
  stop : Int
  texts : List (Nat × Text)

/-- What a call to the model shows it. A run of messages that say the same is one line to the
model; all of them count as shown. -/
inductive Prompt (Key : Type) where
  | messages (msgs : List SumMsg)
  | part (message : SumMsg) (k n : Nat)
  | notes (dated : Option Int) (kids : List (Ref Key))

def SumMsg.shown (m : SumMsg) : Nat × Text := (m.id, m.body)

/-- The message texts in a prompt, or behind the notes in it. -/
def Prompt.texts : Prompt Key → List (Nat × Text)
  | .messages msgs => msgs.map (·.shown)
  | .part message _ _ => [message.shown]
  | .notes _ kids => kids.flatMap (·.texts)

structure SumWindow where
  msgs : List SumMsg
  -- The table as it was when the window was read; no part of what the worker sees.
  seen : List MessageRow

inductive Question (Key : Type) where
  | period (channel : Nat) (start stop zone : Int) (version : Text)
  | key (key : Key) (version : Text)
  | anchor (channel : Nat) (start : Int) (gap : Nat)
  | window (channel : Nat) (start stop : Int)
  | model (prompt : Prompt Key)

/-- The model's answer is what the checks leave of it, or nothing when there is no answer or it is
not of the form asked for. -/
def Reply : Question Key → Type
  | .period .. => Option (Node Key)
  | .key .. => Option (Node Key)
  | .anchor .. => Int
  | .window .. => SumWindow
  | .model _ => Option Text

/-- What stays fixed while the worker builds: its settings, and the measures of texts it goes by. -/
structure SumConfig (Key : Type) where
  version : Text
  threshold : Nat
  gap : Nat
  tokens : SumMsg → Nat
  partCount : SumMsg → Nat
  kidsTokens : Option Int → List (Ref Key) → Option Nat
  linesTokens : List SumMsg → Nat
  bodyEmpty : Text → Bool

def inputTokens : Nat := 6000

def emptyBody : Text :=
  text "\x7b\"overview\":\x7b\"text\":\"\",\"refs\":[]\x7d,\"topics\":[],\"attention\":[],\"more\":[]\x7d"

structure Build (Key : Type) where
  nodes : List (NewNode Key)

instance : Preorder (Build Key) where
  le a b := a.nodes <+: b.nodes
  le_refl a := prefix_refl a.nodes
  le_trans _ _ _ := List.IsPrefix.trans

def Ref.ofNode (n : Node Key) (start stop : Int) : Ref Key :=
  { isNew := false, id := n.id, body := n.body, key := n.key, start, stop, texts := n.texts }

def Ref.ofNew (x : NewNode Key) (index : Nat) (start stop : Int) : Ref Key :=
  { isNew := true, id := index, body := x.body, key := x.key, start, stop, texts := x.texts }

abbrev Building (Key α : Type) : Type := Work (@Reply Key) (Build Key) α

def Build.find [DecidableEq Key] (b : Build Key) (key : Key) : Option (Ref Key) :=
  match b.nodes.findIdx? (·.key == key) with
  | none => none
  | some index => b.nodes[index]?.map fun x => Ref.ofNew x index 0 0

def askFor (question : Question Key) : Building Key (Reply question) := Work.ask question

/-- `find`: stored, or made earlier in this build. -/
def find [DecidableEq Key] (version : Text) (key : Key) : Building Key (Option (Ref Key)) := do
  let stored ← askFor (.key key version)
  match stored with
  | some n => pure (some (Ref.ofNode n 0 0))
  | none => do
      let b ← Work.get
      pure (b.find key)

def keep (x : NewNode Key) : Building Key (Ref Key) := do
  let b ← Work.get
  Work.set { nodes := b.nodes ++ [x] }
  pure (Ref.ofNew x b.nodes.length x.start x.stop)

/-- `take_notes` and `write_summary`: the answer, once checked, or failure. -/
def answerOf (prompt : Prompt Key) : Building Key Text := do
  let answer ← askFor (.model prompt)
  match answer with
  | some body => pure body
  | none => Work.fail

def Ref.input (r : Ref Key) : Input :=
  if r.isNew then .made r.id else .node r.id

def Ref.spanning (start stop : Int) (r : Ref Key) : Ref Key := { r with start, stop }

/-- What `merge` is told of the node it makes; no key and zero times are not told. -/
structure Proto (Key : Type) where
  key : Option Key
  start : Int
  stop : Int

section Sections

variable (cfg : SumConfig Key)

def fits (dated : Option Int) (kids : List (Ref Key)) : Bool :=
  match cfg.kidsTokens dated kids with
  | none => false
  | some total => decide (total ≤ inputTokens)

/-- In order, as many as fit together, and at least two while there are two. -/
def sections (dated : Option Int) : List (Ref Key) → List (Ref Key) → List (List (Ref Key))
  | [], [] => []
  | k :: cur, [] => [k :: cur]
  | [], kid :: rest => sections dated [kid] rest
  | k :: cur, kid :: rest =>
    if fits cfg dated (k :: cur ++ [kid]) then sections dated (k :: cur ++ [kid]) rest
    else if cur.isEmpty then [k, kid] :: sections dated [] rest
    else (k :: cur) :: sections dated [kid] rest

theorem length_sections_le (dated : Option Int) (cur kids : List (Ref Key)) :
    (sections cfg dated cur kids).length ≤ kids.length + min cur.length 1 ∧
      (cur.length = 1 → kids ≠ [] → (sections cfg dated cur kids).length ≤ kids.length) := by
  fun_induction sections cfg dated cur kids with
  | case1 => simp
  | case2 k cur => simp
  | case3 kid rest ih =>
    refine ⟨?_, by simp⟩
    simpa using ih.1
  | case4 k cur kid rest fit ih =>
    have bound := ih.1
    simp only [length_cons, length_append, length_nil] at bound ⊢
    refine ⟨by omega, ?_⟩
    intro _ _
    omega
  | case5 k cur kid rest fit single ih =>
    have bound := ih.1
    simp only [length_cons, length_nil] at bound ⊢
    refine ⟨by omega, ?_⟩
    intro _ _
    omega
  | case6 k cur kid rest fit several ih =>
    have bound := ih.1
    have some : cur.length ≠ 0 := by simpa using several
    simp only [length_cons, length_nil] at bound ⊢
    refine ⟨by omega, ?_⟩
    intro one
    omega

theorem length_sections_lt (dated : Option Int) (kids : List (Ref Key)) (two : 2 ≤ kids.length) :
    (sections cfg dated [] kids).length < kids.length := by
  match kids with
  | [] => simp at two
  | kid :: rest =>
    have bound := (length_sections_le cfg dated [kid] rest).2 rfl (by rintro rfl; simp at two)
    rw [sections, length_cons]
    omega

end Sections

section Recursion

variable [DecidableEq Key] (ikey : KeyOf Key → Key) (cfg : SumConfig Key)

/-- One node for these notes: found if it was made before, else one call to the model. -/
def merge (dated : Option Int) (kids : List (Ref Key)) (kind : NodeKind) (proto : Proto Key) :
    Building Key (Ref Key) := do
  let key := proto.key.getD (ikey (.kids kind (kids.map (·.key)) dated))
  let start := if proto.start ≠ 0 then proto.start else (kids.head?.map (·.start)).getD 0
  let stop := if proto.stop ≠ 0 then proto.stop else (kids.getLast?.map (·.stop)).getD 0
  let found ← find cfg.version key
  match found with
  | some r => pure (r.spanning start stop)
  | none =>
    if (cfg.kidsTokens dated kids).isNone then Work.fail
    else do
      let body ← answerOf (.notes dated kids)
      keep { kind, key, start, stop, zone := dated.getD 0, body, inputs := kids.map (·.input)
             texts := (Prompt.notes dated kids).texts, seen := [] }

def mergeSection (dated : Option Int) (part : List (Ref Key)) : Building Key (Ref Key) :=
  match part with
  | [alone] => pure alone
  | part => merge ikey cfg dated part .sect { key := none, start := 0, stop := 0 }

def mergeSections (dated : Option Int) :
    (parts : List (List (Ref Key))) → Building Key { refs : List (Ref Key) // refs.length = parts.length }
  | [] => pure ⟨[], rfl⟩
  | part :: parts => do
      let r ← mergeSection ikey cfg dated part
      let refs ← mergeSections dated parts
      pure ⟨r :: refs.1, congrArg (· + 1) refs.2⟩

/-- Bring the notes under the budget: while they do not fit, cut them into sections and merge each.
Each round leaves fewer, so as many rounds as there are notes are enough. -/
def fitRounds (dated : Option Int) :
    (rounds : Nat) → (kids : List (Ref Key)) → kids.length ≤ rounds → Building Key (List (Ref Key))
  | 0, kids, _ => pure kids
  | rounds + 1, kids, enough =>
    match cfg.kidsTokens dated kids with
    | none => Work.fail
    | some total =>
      if done : total ≤ inputTokens ∨ kids.length < 2 then pure kids
      else do
        let refs ← mergeSections ikey cfg dated (sections cfg dated [] kids)
        fitRounds dated rounds refs.1 (by
          have fewer := length_sections_lt cfg dated kids (by omega)
          have same := refs.2
          omega)

def fit (dated : Option Int) (kids : List (Ref Key)) : Building Key (List (Ref Key)) :=
  fitRounds ikey cfg dated kids.length kids le_rfl

def reduceOne (kids : List (Ref Key)) (kind : NodeKind) (proto : Proto Key) : Building Key (Ref Key) :=
  match kids with
  | [alone] => pure alone
  | kids => do
      let fitted ← fit ikey cfg none kids
      match fitted with
      | [alone] => pure alone
      | fitted => merge ikey cfg none fitted kind proto

def buildPart (m : SumMsg) (k n : Nat) : Building Key (Ref Key) := do
  let key := ikey (.part m.id m.edited k n)
  let found ← find cfg.version key
  match found with
  | some r => pure (r.spanning m.created m.created)
  | none => do
      let body ← answerOf (.part m k n)
      keep { kind := .chunk, key, start := m.created, stop := m.created, zone := 0, body
             inputs := [.message m.id m.edited], texts := (.part m k n : Prompt Key).texts
             seen := [] }

def buildParts (m : SumMsg) (n : Nat) : List Nat → Building Key (List (Ref Key))
  | [] => pure []
  | k :: ks => do
      let r ← buildPart ikey cfg m k n
      let refs ← buildParts m n ks
      pure (r :: refs)

/-- A message too big for a chunk: notes on each of its parts, then those merged into one under the
chunk's key. -/
def bigMessage (m : SumMsg) (stop : Int) (key : Key) : Building Key (Ref Key) := do
  let n := cfg.partCount m
  let kids ← buildParts ikey cfg m n (List.range n)
  reduceOne ikey cfg kids .chunk { key := some key, start := m.created, stop }

def SumChunk.inputs (c : SumChunk) : List (Nat × Int) := c.msgs.map fun m => (m.id, m.edited)

def SumChunk.start (c : SumChunk) : Int := c.rest.foldl (fun s m => min s m.created) c.first.created

def buildChunk (c : SumChunk) : Building Key (Ref Key) := do
  let key := ikey (.chunk c.inputs)
  let found ← find cfg.version key
  match found with
  | some r => pure (r.spanning c.start c.stop)
  | none =>
    if c.rest.isEmpty && decide (cfg.threshold < cfg.tokens c.first) then
      bigMessage ikey cfg c.first c.stop key
    else do
      let body ← answerOf (.messages c.msgs)
      keep { kind := .chunk, key, start := c.start, stop := c.stop, zone := 0, body
             inputs := c.msgs.map fun m => .message m.id m.edited
             texts := (.messages c.msgs : Prompt Key).texts, seen := [] }

def buildChunks : List SumChunk → Building Key (List (Ref Key))
  | [] => pure []
  | c :: cs => do
      let r ← buildChunk ikey cfg c
      let refs ← buildChunks cs
      pure (r :: refs)

def buildPiece : SumPiece → Building Key (Ref Key)
  | .plain chunk => buildChunk ikey cfg chunk
  | .thread first rest stop => do
      let head ← buildChunk ikey cfg first
      let tail ← buildChunks ikey cfg rest
      reduceOne ikey cfg (head :: tail) .thread { key := none, start := head.start, stop }

def buildPieces : List SumPiece → Building Key (List (Ref Key))
  | [] => pure []
  | p :: ps => do
      let r ← buildPiece ikey cfg p
      let refs ← buildPieces ps
      pure (r :: refs)

/-- `load_cut`, and of the pieces those whose last activity is from `start` on. -/
def loadCut (channel : Nat) (start stop : Int) : Building Key (SumWindow × List SumPiece) := do
  let origin ← askFor (.anchor channel start cfg.gap)
  let window ← askFor (.window channel origin stop)
  pure (window, (cutBuild cfg.tokens cfg.threshold cfg.gap window.msgs).filter (start ≤ ·.stop))

def SumWindow.stamp (w : SumWindow) (id : Nat) : Int :=
  match w.msgs.find? (·.id == id) with
  | none => 0
  | some m => m.edited

def keepPeriod (start stop zone : Int) (body : Text) (inputs : List Input)
    (texts : List (Nat × Text)) (seen : List MessageRow) : Building Key (Ref Key) :=
  keep { kind := .period, key := ikey (.period inputs start stop zone), start, stop, zone, body, inputs
         texts, seen }

/-- A span whose messages fit one prompt is summarized from them; a larger one from the notes on its
pieces, without the empty ones, fitted. -/
def buildPeriod (channel : Nat) (start stop zone : Int) : Building Key (Ref Key) := do
  let found ← askFor (.period channel start stop zone cfg.version)
  match found with
  | some n => pure (Ref.ofNode n start stop)
  | none => do
      let cut ← loadCut cfg channel start stop
      let all := cut.2.flatMap (·.msgs)
      if all.isEmpty then keepPeriod ikey start stop zone emptyBody [] [] cut.1.seen
      else if cfg.linesTokens all ≤ inputTokens then do
        let body ← answerOf (.messages all)
        keepPeriod ikey start stop zone body (all.map fun m => .message m.id (cut.1.stamp m.id))
          (.messages all : Prompt Key).texts cut.1.seen
      else do
        let pieces ← buildPieces ikey cfg cut.2
        let kids ← fit ikey cfg (some zone) (pieces.filter fun r => !cfg.bodyEmpty r.body)
        let body ← answerOf (.notes (some zone) kids)
        keepPeriod ikey start stop zone body (kids.map (·.input)) (Prompt.notes (some zone) kids).texts cut.1.seen

/-- What a build hands to the store: a period that was found stores nothing, and a build that failed
stores what it made before. -/
def toStore (ended : Option (Ref Key) × Build Key) : List (NewNode Key) :=
  match ended.1 with
  | none => ended.2.nodes
  | some top => if top.isNew then ended.2.nodes else []

def runBuild (channel : Nat) (start stop zone : Int) : Talk (@Reply Key) (List (NewNode Key)) :=
  (buildPeriod ikey cfg channel start stop zone { nodes := [] }).bind fun ended => .done (toStore ended)

def buildSpan (channel : Nat) (start stop : Int) : Building Key (List (Ref Key)) := do
  let cut ← loadCut cfg channel start stop
  buildPieces ikey cfg cut.2

def runChunks (channel : Nat) (start stop : Int) : Talk (@Reply Key) (List (NewNode Key)) :=
  (buildSpan ikey cfg channel start stop { nodes := [] }).bind fun ended => .done ended.2.nodes

end Recursion

end OpenChime.Daemon.Summary
