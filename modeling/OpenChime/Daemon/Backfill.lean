import OpenChime.Shared.Mention

/-! What the database thread answers a BACKFILL_REQUEST with (`process_backfill` of
`daemon/dbwriter.c`): the messages after each cursor, in all no more than a fixed
number. Only top-level messages are here; thread replies are never replayed. -/

set_option autoImplicit false

namespace OpenChime.Daemon

open Shared List

/-- A row of `messages`, as far as a BROADCAST carries it. -/
structure StoredMessage where
  (messageId channelId authorId createdAt : Nat)
  kind : UInt8
  broadcastStored : Bool
  (authorName body : Text)

structure Cursor where
  (channelId afterMessageId : Nat)
  deriving DecidableEq

def backfillMax : Nat := 500

def backfillTail : Nat := 60

def cursorsMax : Nat := 256

def inChannel (log : List StoredMessage) (channelId : Nat) : List StoredMessage := log.filter (·.channelId = channelId)

/-- Where a cursor starts: one of 0 asks for the newest page. -/
def startAfter (log : List StoredMessage) (cursor : Cursor) : Nat :=
  if cursor.afterMessageId = 0 then
    let channel := inChannel log cursor.channelId
    match (channel.drop (channel.length - backfillTail)).head? with
    | some first => first.messageId - 1
    | none => 0
  else cursor.afterMessageId

def rowsAfter (log : List StoredMessage) (cursor : Cursor) : List StoredMessage :=
  (inChannel log cursor.channelId).filter (startAfter log cursor < ·.messageId)

def replayLoop (readable : Nat → Bool) (log : List StoredMessage) :
    List Cursor → List StoredMessage → List StoredMessage
  | [], rows => rows
  | cursor :: cursors, rows =>
    if rows.length < backfillMax then
      if readable cursor.channelId then
        replayLoop readable log cursors (rows ++ (rowsAfter log cursor).take (backfillMax - rows.length))
      else replayLoop readable log cursors rows
    else rows

/-- A request without cursors names every channel of the user, in order, each with 0. -/
def effectiveCursors (members : List Nat) (cursors : List Cursor) : List Cursor :=
  if cursors = [] then members.map (⟨·, 0⟩) else cursors

/-- `process_backfill`: the rows to replay, and whether the cap was reached. -/
def processBackfill (readable : Nat → Bool) (members : List Nat) (log : List StoredMessage)
    (cursors : List Cursor) : List StoredMessage × Bool :=
  let rows := replayLoop readable log (effectiveCursors members cursors) []
  (rows, backfillMax ≤ rows.length)

def wanted (readable : Nat → Bool) (log : List StoredMessage) (cursors : List Cursor) : List StoredMessage :=
  (cursors.filter (readable ·.channelId)).flatMap (rowsAfter log)

variable {log : List StoredMessage} {readable : Nat → Bool}

theorem replayLoop_eq {cursors : List Cursor} {rows : List StoredMessage}
    (fits : rows.length + (wanted readable log cursors).length ≤ backfillMax) :
    replayLoop readable log cursors rows = rows ++ wanted readable log cursors := by
  induction cursors generalizing rows with
  | nil => simp [replayLoop, wanted]
  | cons cursor cursors ih =>
    unfold replayLoop
    by_cases reads : readable cursor.channelId
    · have split : wanted readable log (cursor :: cursors) = rowsAfter log cursor ++ wanted readable log cursors := by
        simp [wanted, reads]
      rw [split, length_append] at fits
      split
      · rw [take_of_length_le (by omega), ih, split, append_assoc]
        rw [length_append]
        omega
      have none : rowsAfter log cursor ++ wanted readable log cursors = [] := by
        apply eq_nil_of_length_eq_zero
        rw [length_append]
        omega
      rw [split, none, append_nil]
    · have split : wanted readable log (cursor :: cursors) = wanted readable log cursors := by
        simp [wanted, reads]
      rw [split] at fits ⊢
      split
      · exact ih fits
      have none : wanted readable log cursors = [] := by
        apply eq_nil_of_length_eq_zero
        omega
      rw [none, append_nil]

theorem mem_wanted {cursors : List Cursor} {row : StoredMessage} :
    row ∈ wanted readable log cursors ↔ ∃ cursor ∈ cursors, readable cursor.channelId ∧
      row ∈ log ∧ row.channelId = cursor.channelId ∧ startAfter log cursor < row.messageId := by
  simp only [wanted, mem_flatMap, mem_filter, rowsAfter, inChannel, decide_eq_true_eq]
  constructor
  · rintro ⟨cursor, ⟨member, reads⟩, ⟨stored, here⟩, later⟩
    exact ⟨cursor, member, reads, stored, here, later⟩
  · rintro ⟨cursor, member, reads, stored, here, later⟩
    exact ⟨cursor, ⟨member, reads⟩, ⟨stored, here⟩, later⟩

end OpenChime.Daemon
