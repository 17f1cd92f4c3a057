import Mathlib.Data.List.Pairwise
import OpenChime.Daemon.Calls

/-! What an event can do to the calls of the net loop, said once: `Effect` is one change of
one call and the rosters that go out with it, and every event is a few of them. -/

set_option autoImplicit false

namespace OpenChime.Daemon

open Shared List Option

variable {Key Token : Type}

def CallOut.frame? : CallOut Key Token → Option (Nat × CallDown Key Token)
  | .frame conn it => some (conn, it)
  | _ => none

namespace CallLoop

variable (d : CallLoop Key Token)

def frames : List (Nat × CallDown Key Token) := d.sent.filterMap CallOut.frame?

def news : List (Nat × CallDown Key Token) := d.frames.filter (·.2.isNews)

def rosters : List (Nat × CallRoster Key) := d.news.filterMap fun sent => sent.2.roster?.map (sent.1, ·)

def Live (id : Nat) : Prop := id ≠ 0 ∧ (d.findById id).isSome

def Unseated (conn : Nat) : Prop := ∀ c ∈ d.calls.entries, ∀ seat ∈ c.parts, seat.conn ≠ conn

end CallLoop

/-- What a change may do beyond telling everyone: take a seat out untold in the calls of some
channels, and take the seats of some connections. -/
structure Leeway where
  hushed : Nat → Prop
  out : Nat → Prop

def Leeway.Frees (may : Leeway) (seat : Seat Key Token) : Prop := seat.conn = 0 ∨ may.out seat.conn

inductive Reseat (may : Leeway) (d : CallLoop Key Token) :
    List (Seat Key Token) → List (Seat Key Token) → Prop where
  | same (seats : List (Seat Key Token)) : Reseat may d seats seats
  | left {seat : Seat Key Token} {seats after : List (Seat Key Token)}
      (out : (seat :: after).Perm seats) (free : may.Frees seat) : Reseat may d seats after
  | held {seat : Seat Key Token} {seats : List (Seat Key Token)} {i now : Nat}
      (here : seats[i]? = some seat) (free : may.Frees seat) :
      Reseat may d seats (seats.set i { seat with conn := 0, detachedMs := now })
  | joined {seats : List (Seat Key Token)} {new : Seat Key Token} (room : seats.length < maxCallParticipants)
      (apart : ∀ seat ∈ seats, seat.slot ≠ new.slot ∧ seat.user ≠ new.user)
      (unseated : d.Unseated new.conn) (live : d.Live new.conn)
      (user : ∃ jc ∈ d.conns, jc.id = new.conn ∧ jc.user = new.user) (attached : new.detachedMs = 0) :
      Reseat may d seats (seats ++ [new])

/-- A call's sharer is nobody, somebody in it, or who it was, still in it. -/
def SharerKept (c after : Call Key Token) : Prop :=
  after.sharerConn = 0 ∨ (∃ seat ∈ after.parts, seat.conn = after.sharerConn) ∨
    after.sharerConn = c.sharerConn ∧ ∀ seat ∈ c.parts, seat.conn = c.sharerConn → seat ∈ after.parts

def Replaced (d after : CallLoop Key Token) (c new : Call Key Token) : Prop :=
  new.channel = c.channel ∧ new.callId = c.callId ∧
    ∃ front back, d.calls.entries = front ++ c :: back ∧ after.calls.entries = front ++ new :: back

structure Welcomes (c : Call Key Token) (welcome : Nat × CallJoined Key Token) : Prop where
  roster : welcome.2.roster = c.roster
  seat : ∃ seat ∈ c.parts, seat.conn = welcome.1 ∧ seat.slot = welcome.2.slot

/-- The seats of a call change in a new epoch, and all of them are told: who just joined with
a CALL_JOINED, the others with a roster. -/
structure Retold (may : Leeway) (d after : CallLoop Key Token) (c new : Call Key Token)
    (welcome : Option (Nat × CallJoined Key Token)) (conns : List Nat) : Prop where
  replaced : Replaced d after c new
  epoch : new.epoch = c.epoch + 1
  reseat : Reseat may d c.parts new.parts
  sharer : SharerKept c new
  callIds : after.nextCallId = d.nextCallId
  welcomes : ∀ it ∈ welcome, Welcomes new it
  told : after.news = d.news ++ welcome.toList.map (fun it => (it.1, .joined it.2)) ++ conns.map (·, .roster new.roster)
  everyone : ∀ seat ∈ new.parts, after.Live seat.conn → seat.conn ∈ conns ∨ ∃ it ∈ welcome, it.1 = seat.conn

inductive Effect (may : Leeway) (d after : CallLoop Key Token) : Prop where
  /-- nothing about who is in a call -/
  | quiet (calls : after.calls.entries = d.calls.entries) (callIds : after.nextCallId = d.nextCallId)
      (told : after.news = d.news)
  /-- a key is handed on -/
  | keyed {c : Call Key Token} {seat other : Seat Key Token} {jc : CallConn} {key : List UInt8}
      (isCall : c ∈ d.calls.entries) (isSeat : seat ∈ c.parts) (sender : jc ∈ d.conns)
      (isConn : seat.conn = jc.id) (isOther : other ∈ c.parts)
      (calls : after.calls.entries = d.calls.entries) (callIds : after.nextCallId = d.nextCallId)
      (told : after.news = d.news ∨ after.news = d.news ++
        [(other.conn, .keyFor ⟨c.channel, c.callId, c.epoch, jc.user, key⟩)])
  /-- a call changed, its seats did not -/
  | edited {c new : Call Key Token} (replaced : Replaced d after c new) (epoch : new.epoch = c.epoch)
      (parts : new.parts = c.parts) (sharer : SharerKept c new)
      (callIds : after.nextCallId = d.nextCallId) (told : after.news = d.news)
  /-- a seat is taken out and nobody is told -/
  | silent {c new : Call Key Token} {seat : Seat Key Token} (replaced : Replaced d after c new)
      (hushed : may.hushed c.channel) (epoch : new.epoch = c.epoch)
      (out : (seat :: new.parts).Perm c.parts) (free : may.Frees seat)
      (sharer : SharerKept c new) (callIds : after.nextCallId = d.nextCallId)
      (told : after.news = d.news)
  | retold {c new : Call Key Token} {welcome : Option (Nat × CallJoined Key Token)} {conns : List Nat}
      (retold : Retold may d after c new welcome conns)
  /-- a call is over -/
  | ended {c : Call Key Token}
      (gone : ∃ front back, d.calls.entries = front ++ c :: back ∧ after.calls.entries = front ++ back)
      (free : ∀ seat ∈ c.parts, may.Frees seat)
      (callIds : after.nextCallId = d.nextCallId) (told : after.news = d.news)
  /-- a call nobody is in yet -/
  | started {c : Call Key Token} (added : after.calls.entries.Perm (c :: d.calls.entries))
      (new : ∀ other ∈ d.calls.entries, other.channel ≠ c.channel) (named : c.channel ≠ 0)
      (parts : c.parts = []) (sharer : c.sharerConn = 0) (fresh : d.nextCallId ≤ c.callId)
      (callIds : after.nextCallId = c.callId + 1) (told : after.news = d.news)

structure Kept (d after : CallLoop Key Token) : Prop where
  conns : after.conns = d.conns
  connIds : after.nextConnId = d.nextConnId
  callMax : after.callMax = d.callMax
  demo : after.demo = d.demo
  sent : d.sent <+: after.sent

theorem Kept.refl (d : CallLoop Key Token) : Kept d d := ⟨rfl, rfl, rfl, rfl, prefix_refl _⟩

theorem Kept.trans {d between after : CallLoop Key Token} (first : Kept d between)
    (second : Kept between after) : Kept d after :=
  ⟨second.conns.trans first.conns, second.connIds.trans first.connIds,
    second.callMax.trans first.callMax, second.demo.trans first.demo, first.sent.trans second.sent⟩

structure Change (may : Leeway) (d after : CallLoop Key Token) : Prop extends Kept d after where
  effect : Effect may d after

theorem Change.quiet {may : Leeway} {d after : CallLoop Key Token} (calls : after.calls = d.calls)
    (callIds : after.nextCallId = d.nextCallId) (told : after.news = d.news) (kept : Kept d after) :
    Change may d after := ⟨kept, .quiet (congrArg _ calls) callIds told⟩

theorem Change.refl {may : Leeway} (d : CallLoop Key Token) : Change may d d := .quiet rfl rfl rfl (.refl d)

namespace CallLoop

variable {d : CallLoop Key Token} {c new : Call Key Token} {ids : List Nat} {conn : Nat}

variable (frame : CallDown Key Token)

theorem kept_tell : Kept d (d.tell ids frame) := ⟨rfl, rfl, rfl, rfl, prefix_append _ _⟩

theorem frames_tell : (d.tell ids frame).frames =
      d.frames ++ (ids.filter fun id => (d.findById id).isSome).map (·, frame) := by
  unfold frames tell
  rw [filterMap_append, filterMap_map]
  congr 1
  exact congrFun filterMap_eq_map _

variable {frame : CallDown Key Token}

theorem news_tell (isNews : frame.isNews = true) :
    (d.tell ids frame).news = d.news ++ (ids.filter fun id => (d.findById id).isSome).map (·, frame) := by
  unfold news
  rw [frames_tell, filter_append]
  congr 1
  rw [filter_eq_self]
  intro sent mem
  obtain ⟨id, -, rfl⟩ := mem_map.mp mem
  exact isNews

theorem news_tell_other (isNews : frame.isNews = false) : (d.tell ids frame).news = d.news := by
  unfold news
  rw [frames_tell, filter_append]
  refine (congrArg _ ?_).trans (append_nil _)
  rw [filter_eq_nil_iff]
  intro sent mem
  obtain ⟨id, -, rfl⟩ := mem_map.mp mem
  simp [isNews]

theorem news_append {out : CallOut Key Token} (notFrame : out.frame? = none) :
    ({ d with sent := d.sent ++ [out] } : CallLoop Key Token).news = d.news := by
  unfold news frames
  simp [notFrame]

@[simp] theorem news_audioRevoke (token : Token) : (d.audioRevoke token).news = d.news := news_append rfl

@[simp] theorem setCall_nextCallId : (d.setCall c).nextCallId = d.nextCallId := rfl

@[simp] theorem setCall_conns : (d.setCall c).conns = d.conns := rfl

@[simp] theorem news_setCall : (d.setCall c).news = d.news := rfl

end CallLoop

def Seat.Apart (a b : Seat Key Token) : Prop := a.slot ≠ b.slot ∧ a.user ≠ b.user ∧ (a.conn ≠ 0 → a.conn ≠ b.conn)

theorem Seat.Apart.symm {a b : Seat Key Token} (apart : a.Apart b) : b.Apart a := by
  refine ⟨apart.1.symm, apart.2.1.symm, fun nonzero same => ?_⟩
  exact apart.2.2 (same ▸ nonzero) same.symm

instance : Std.Symm (@Seat.Apart Key Token) := ⟨fun _ _ => Seat.Apart.symm⟩

def Call.Apart (a b : Call Key Token) : Prop :=
  a.channel ≠ b.channel ∧ a.callId ≠ b.callId ∧
    ∀ seat ∈ a.parts, ∀ other ∈ b.parts, seat.conn ≠ 0 → seat.conn ≠ other.conn

theorem Call.Apart.symm {a b : Call Key Token} (apart : a.Apart b) : b.Apart a := by
  refine ⟨apart.1.symm, apart.2.1.symm, fun seat isSeat other isOther nonzero same => ?_⟩
  exact apart.2.2 other isOther seat isSeat (same ▸ nonzero) same.symm

instance : Std.Symm (@Call.Apart Key Token) := ⟨fun _ _ => Call.Apart.symm⟩

structure CallOk (c : Call Key Token) : Prop where
  seats : c.parts.Pairwise Seat.Apart
  size : c.parts.length ≤ maxCallParticipants
  sharer : c.sharerConn = 0 ∨ ∃ seat ∈ c.parts, seat.conn = c.sharerConn

structure CallLoop.Ok (d : CallLoop Key Token) : Prop where
  named : ∀ c ∈ d.calls.entries, c.channel ≠ 0
  apart : d.calls.entries.Pairwise Call.Apart
  calls : ∀ c ∈ d.calls.entries, CallOk c
  callIds : ∀ c ∈ d.calls.entries, c.callId < d.nextCallId

variable {may : Leeway} {d after : CallLoop Key Token} {c new : Call Key Token} {old seats : List (Seat Key Token)}

theorem Reseat.length_le (reseat : Reseat may d old seats)
    (size : old.length ≤ maxCallParticipants) : seats.length ≤ maxCallParticipants := by
  cases reseat with
  | same => exact size
  | left out free =>
    have length := out.length_eq
    simp only [length_cons] at length
    omega
  | held here => simpa using size
  | joined room => simpa using room

theorem Reseat.apart (reseat : Reseat may d old seats) (apart : old.Pairwise Seat.Apart)
    (here : ∀ seat ∈ old, ∃ c ∈ d.calls.entries, seat ∈ c.parts) : seats.Pairwise Seat.Apart := by
  cases reseat with
  | same => exact apart
  | left out free => exact (pairwise_cons.mp ((out.pairwise_iff Seat.Apart.symm).mpr apart)).2
  | held isSeat =>
    obtain ⟨rest, all, changed⟩ := exists_perm_set isSeat
    refine ((changed _).pairwise_iff Seat.Apart.symm).mpr ?_
    obtain ⟨first, others⟩ := pairwise_cons.mp ((all.pairwise_iff Seat.Apart.symm).mp apart)
    refine pairwise_cons.mpr ⟨fun seat mem => ?_, others⟩
    exact ⟨(first seat mem).1, (first seat mem).2.1, fun nonzero => absurd rfl nonzero⟩
  | joined room differs unseated =>
    refine pairwise_append.mpr ⟨apart, pairwise_singleton _ _, ?_⟩
    intro seat mem other isNew
    rw [mem_singleton.mp isNew]
    obtain ⟨c, isCall, isSeat⟩ := here seat mem
    exact ⟨(differs seat mem).1, (differs seat mem).2, fun _ => unseated c isCall seat isSeat⟩

variable {seat : Seat Key Token}

theorem Reseat.conn (reseat : Reseat may d old seats) (mem : seat ∈ seats) (nonzero : seat.conn ≠ 0) :
    (∃ before ∈ old, before.conn = seat.conn) ∨ d.Unseated seat.conn ∧ d.Live seat.conn := by
  cases reseat with
  | same => exact .inl ⟨seat, mem, rfl⟩
  | left out free => exact .inl ⟨seat, out.subset (mem_cons_of_mem _ mem), rfl⟩
  | held isSeat =>
    rcases mem_or_eq_of_mem_set mem with old | changed
    · exact .inl ⟨seat, old, rfl⟩
    · rw [changed] at nonzero
      exact absurd rfl nonzero
  | joined room differs unseated live =>
    rcases mem_append.mp mem with old | isNew
    · exact .inl ⟨seat, old, rfl⟩
    · rw [mem_singleton.mp isNew]
      exact .inr ⟨unseated, live⟩

theorem CallOk.kept (ok : CallOk c) (isCall : c ∈ d.calls.entries)
    (reseat : Reseat may d c.parts new.parts) (sharer : SharerKept c new) : CallOk new where
  seats := reseat.apart ok.seats fun seat mem => ⟨c, isCall, mem⟩
  size := reseat.length_le ok.size
  sharer := by
    rcases sharer with nobody | somebody | ⟨same, stays⟩
    · exact .inl nobody
    · exact .inr somebody
    rcases ok.sharer with nobody | ⟨seat, mem, isSharer⟩
    · exact .inl (same.trans nobody)
    · exact .inr ⟨seat, stays seat mem isSharer, isSharer.trans same.symm⟩

theorem CallOk.only_conn (ok : CallOk c) (isSeat : seat ∈ c.parts) (nonzero : seat.conn ≠ 0) :
    ∀ other ∈ c.parts, other.conn = seat.conn ↔ other = seat := by
  intro other mem
  refine ⟨fun same => ?_, fun same => congrArg _ same⟩
  by_contra differs
  exact (ok.seats.forall isSeat mem (Ne.symm differs)).2.2 nonzero same.symm

theorem CallOk.only_user (ok : CallOk c) (isSeat : seat ∈ c.parts) :
    ∀ other ∈ c.parts, other.user = seat.user ↔ other = seat := by
  intro other mem
  refine ⟨fun same => ?_, fun same => congrArg _ same⟩
  by_contra differs
  exact (ok.seats.forall mem isSeat differs).2.1 same

theorem CallLoop.Ok.replaced (ok : d.Ok) (replaced : Replaced d after c new) (reseat : Reseat may d c.parts new.parts)
    (sharer : SharerKept c new) (callIds : after.nextCallId = d.nextCallId) : after.Ok := by
  obtain ⟨channel, callId, front, back, before, now⟩ := replaced
  have isCall : c ∈ d.calls.entries := by simp [before]
  have newOk := (ok.calls c isCall).kept isCall reseat sharer
  have others : ∀ other ∈ front ++ back, other ∈ d.calls.entries := by
    intro other mem
    rw [before]
    rcases mem_append.mp mem with first | last
    · exact mem_append_left _ first
    · exact mem_append_right _ (mem_cons_of_mem _ last)
  have each : ∀ other ∈ after.calls.entries, other = new ∨ other ∈ front ++ back := by
    intro other mem
    rw [now] at mem
    rcases mem_append.mp mem with first | mem
    · exact .inr (mem_append_left _ first)
    rcases mem_cons.mp mem with isNew | last
    · exact .inl isNew
    · exact .inr (mem_append_right _ last)
  have middle := ok.apart
  rw [before, perm_middle.pairwise_iff Call.Apart.symm, pairwise_cons] at middle
  have newApart : ∀ other ∈ front ++ back, new.Apart other := by
    intro other mem
    obtain ⟨otherChannel, otherId, conns⟩ := middle.1 other mem
    refine ⟨channel ▸ otherChannel, callId ▸ otherId, ?_⟩
    intro seat isSeat seat' isSeat' nonzero
    rcases reseat.conn isSeat nonzero with ⟨old, wasSeat, same⟩ | ⟨unseated, -⟩
    · rw [← same] at nonzero ⊢
      exact conns old wasSeat seat' isSeat' nonzero
    · exact (unseated other (others other mem) seat' isSeat').symm
  constructor
  · intro other mem
    rcases each other mem with rfl | old
    · exact channel ▸ ok.named c isCall
    · exact ok.named other (others other old)
  · rw [now, perm_middle.pairwise_iff Call.Apart.symm, pairwise_cons]
    exact ⟨newApart, middle.2⟩
  · intro other mem
    rcases each other mem with rfl | old
    · exact newOk
    · exact ok.calls other (others other old)
  · intro other mem
    rw [callIds]
    rcases each other mem with rfl | old
    · exact callId ▸ ok.callIds c isCall
    · exact ok.callIds other (others other old)

theorem CallLoop.Ok.of_calls (ok : d.Ok) (calls : after.calls.entries = d.calls.entries)
    (callIds : after.nextCallId = d.nextCallId) : after.Ok := by
  constructor
  · rw [calls]
    exact ok.named
  · rw [calls]
    exact ok.apart
  · rw [calls]
    exact ok.calls
  · rw [calls, callIds]
    exact ok.callIds

theorem Effect.ok (effect : Effect may d after) (ok : d.Ok) : after.Ok := by
  cases effect with
  | quiet calls callIds told => exact ok.of_calls calls callIds
  | keyed isCall isSeat sender isConn isOther calls callIds told => exact ok.of_calls calls callIds
  | @edited c new replaced epoch parts sharer callIds told =>
    have reseat : Reseat may d c.parts new.parts := by
      rw [parts]
      exact .same _
    exact ok.replaced replaced reseat sharer callIds
  | silent replaced hushed epoch out free sharer callIds told =>
    exact ok.replaced replaced (.left out free) sharer callIds
  | retold it => exact ok.replaced it.replaced it.reseat it.sharer it.callIds
  | ended gone free callIds told =>
    obtain ⟨front, back, before, now⟩ := gone
    have sub : after.calls.entries.Sublist d.calls.entries := by
      rw [before, now]
      exact sublist_append_iff.mpr ⟨front, back, rfl, .refl _, sublist_cons_self _ _⟩
    refine ⟨fun c mem => ok.named c (sub.subset mem), ok.apart.sublist sub,
      fun c mem => ok.calls c (sub.subset mem), fun c mem => ?_⟩
    rw [callIds]
    exact ok.callIds c (sub.subset mem)
  | @started c added new named parts sharer fresh callIds told =>
    have isOk : CallOk c := ⟨by rw [parts]; exact .nil, by rw [parts]; exact Nat.zero_le _, .inl sharer⟩
    have each : ∀ other ∈ after.calls.entries, other = c ∨ other ∈ d.calls.entries := fun other mem =>
      mem_cons.mp (added.subset mem)
    constructor
    · intro other mem
      rcases each other mem with rfl | old
      · exact named
      · exact ok.named other old
    · rw [added.pairwise_iff Call.Apart.symm, pairwise_cons]
      refine ⟨fun other mem => ⟨(new other mem).symm, ?_, ?_⟩, ok.apart⟩
      · exact Nat.ne_of_gt ((ok.callIds other mem).trans_le fresh)
      · intro seat isSeat
        rw [parts] at isSeat
        cases isSeat
    · intro other mem
      rcases each other mem with rfl | old
      · exact isOk
      · exact ok.calls other old
    · intro other mem
      rw [callIds]
      rcases each other mem with rfl | old
      · exact Nat.lt_succ_self _
      · exact Nat.lt_succ_of_lt ((ok.callIds other old).trans_le fresh)

namespace CallLoop

variable {conn idx : Nat} {seat : Seat Key Token} {ended : Bool}

theorem callFind_spec {channel : Nat} (found : d.callFind channel = some c) :
    c ∈ d.calls.entries ∧ c.channel = channel := by
  unfold callFind at found
  split at found
  · cases found
  · rw [Slots.Table.find_eq] at found
    exact ⟨mem_of_find?_eq_some found, by simpa using find?_some found⟩

theorem callFind_none {channel : Nat} (named : channel ≠ 0) (missing : d.callFind channel = none) :
    ∀ c ∈ d.calls.entries, c.channel ≠ channel := by
  unfold callFind at missing
  rw [if_neg named, Slots.Table.find_eq] at missing
  simpa using missing

theorem getElem?_findIdx? {α : Type} {fits : α → Bool} {l : List α} {i : Nat}
    (found : l.findIdx? fits = some i) : ∃ a, l[i]? = some a ∧ fits a = true := by
  obtain ⟨inside, fit, -⟩ := findIdx?_eq_some_iff_getElem.mp found
  exact ⟨l[i], getElem?_eq_getElem inside, fit⟩

theorem callOfConn_spec (found : d.callOfConn conn = some (c, idx)) :
    c ∈ d.calls.entries ∧ ∃ seat, c.parts[idx]? = some seat ∧ seat.conn = conn := by
  obtain ⟨other, isCall, here⟩ := exists_of_findSome?_eq_some found
  obtain ⟨k, isIdx, same⟩ := map_eq_some_iff.mp here
  cases same
  obtain ⟨seat, isSeat, fits⟩ := getElem?_findIdx? isIdx
  exact ⟨isCall, seat, isSeat, by simpa using fits⟩

theorem callOfConn_none (missing : d.callOfConn conn = none) : d.Unseated conn := by
  intro c isCall seat isSeat same
  have nowhere := findSome?_eq_none_iff.mp missing c isCall
  rw [map_eq_none_iff, Call.partOfConn, findIdx?_eq_none_iff] at nowhere
  simpa [same] using nowhere seat isSeat

theorem Ok.split (ok : d.Ok) (isCall : c ∈ d.calls.entries) : ∃ front back, d.calls.entries = front ++ c :: back ∧
      (∀ other ∈ front, other.channel ≠ c.channel) ∧ ∀ other ∈ back, other.channel ≠ c.channel := by
  obtain ⟨front, back, split⟩ := append_of_mem isCall
  have apart := ok.apart
  rw [split, perm_middle.pairwise_iff Call.Apart.symm, pairwise_cons] at apart
  refine ⟨front, back, split, fun other mem => ?_, fun other mem => ?_⟩
  · exact (apart.1 other (mem_append_left _ mem)).1.symm
  · exact (apart.1 other (mem_append_right _ mem)).1.symm

theorem map_setCall {calls : List (Call Key Token)} (others : ∀ other ∈ calls, other.channel ≠ new.channel) :
    calls.map (fun entry => if entry.channel = new.channel then new else entry) = calls := by
  refine (map_congr_left fun other mem => ?_).trans (map_id _)
  rw [if_neg (others other mem)]
  rfl

theorem eraseP_channel {front back : List (Call Key Token)} (others : ∀ other ∈ front, other.channel ≠ c.channel) :
    (front ++ c :: back).eraseP (·.channel = c.channel) = front ++ back := by
  rw [eraseP_append_right]
  · rw [eraseP_cons_of_pos (by simp)]
  · intro other mem
    simpa using others other mem

theorem Ok.setCall_split (ok : d.Ok) (isCall : c ∈ d.calls.entries) (channel : new.channel = c.channel) :
    ∃ front back, d.calls.entries = front ++ c :: back ∧ (d.setCall new).calls.entries = front ++ new :: back ∧
      ((d.setCall new).calls.clear (·.channel = new.channel)).entries = front ++ back ∧
      (d.calls.clear (·.channel = c.channel)).entries = front ++ back := by
  obtain ⟨front, back, split, first, last⟩ := ok.split isCall
  rw [← channel] at first last
  have set : (d.setCall new).calls.entries = front ++ new :: back := by
    unfold CallLoop.setCall
    rw [Slots.Table.entries_modify, split, map_append, map_cons]
    simp only [decide_eq_true_eq]
    rw [map_setCall first, map_setCall last, if_pos channel.symm]
  refine ⟨front, back, split, set, ?_, ?_⟩
  · rw [Slots.Table.entries_clear, set, eraseP_channel first]
  · rw [Slots.Table.entries_clear, split, eraseP_channel (channel ▸ first)]

theorem Ok.setCall (ok : d.Ok) (isCall : c ∈ d.calls.entries) (channel : new.channel = c.channel)
    (callId : new.callId = c.callId) : Replaced d (d.setCall new) c new := by
  obtain ⟨front, back, split, set, -, -⟩ := ok.setCall_split isCall channel
  exact ⟨channel, callId, front, back, split, set⟩

theorem removePart_out (here : c.parts[idx]? = some seat) : (seat :: (c.removePart idx).parts).Perm c.parts :=
  swapRemove_perm here

theorem removePart_sharer (here : c.parts[idx]? = some seat) : SharerKept c (c.removePart idx) := by
  by_cases sharing : seat.conn = c.sharerConn
  · left
    simp [Call.removePart, here, sharing]
  right
  right
  refine ⟨by simp [Call.removePart, here, sharing], fun other mem isSharer => ?_⟩
  rcases mem_cons.mp ((removePart_out here).symm.subset mem) with same | stays
  · rw [same] at isSharer
    exact absurd isSharer sharing
  · exact stays

@[simp] theorem news_sendState : (d.sendState c ended).news = d.news := news_tell_other rfl

theorem kept_audioRevoke (token : Token) : Kept d (d.audioRevoke token) := ⟨rfl, rfl, rfl, rfl, prefix_append _ _⟩

theorem kept_setCall : Kept d (d.setCall c) := ⟨rfl, rfl, rfl, rfl, prefix_refl _⟩

theorem kept_sendState : Kept d (d.sendState c ended) := kept_tell _

theorem kept_sendRoster {exceptConn alsoConn : Nat} : Kept d (d.sendRoster c exceptConn alsoConn) := kept_tell _

theorem live_of_conns (same : after.conns = d.conns) {id : Nat} (live : after.Live id) : d.Live id := by
  unfold Live findById at live ⊢
  rwa [same] at live

theorem news_sendRoster (exceptConn alsoConn : Nat) : ∃ conns : List Nat,
      (d.sendRoster c exceptConn alsoConn).news = d.news ++ conns.map (·, .roster c.roster) ∧
      (∀ seat ∈ c.parts, d.Live seat.conn → seat.conn ≠ exceptConn → seat.conn ∈ conns) ∧
      (d.Live alsoConn → alsoConn ∈ conns) := by
  refine ⟨_, news_tell rfl, ?_, ?_⟩
  · intro seat mem live differs
    refine mem_filter.mpr ⟨mem_append_left _ (mem_filter.mpr ⟨?_, ?_⟩), live.2⟩
    · exact mem_map_of_mem mem
    · simpa using differs
  · intro live
    refine mem_filter.mpr ⟨mem_append_right _ ?_, live.2⟩
    rw [if_pos live.1]
    exact mem_singleton_self _

structure Finished (d after : CallLoop Key Token) (channel : Nat) : Prop extends Kept d after where
  calls : after.calls = d.calls.clear (·.channel = channel)
  callIds : after.nextCallId = d.nextCallId
  told : after.news = d.news

theorem Finished.tail {between : CallLoop Key Token} {channel : Nat} (finished : Finished d between channel)
    (kept : Kept between after) (calls : after.calls = between.calls) (callIds : after.nextCallId = between.nextCallId)
    (told : after.news = between.news) : Finished d after channel :=
  ⟨finished.toKept.trans kept, calls.trans finished.calls, callIds.trans finished.callIds, told.trans finished.told⟩

theorem Finished.foldl_audioRevoke {channel : Nat} (seats : List (Seat Key Token))
    (finished : Finished d after channel) :
    Finished d (seats.foldl (fun d seat => d.audioRevoke seat.token) after) channel := by
  induction seats generalizing after with
  | nil => exact finished
  | cons seat seats ih =>
    exact ih (finished.tail (kept_audioRevoke _) rfl rfl (news_audioRevoke _))

theorem finished_clear (d : CallLoop Key Token) (channel : Nat) :
    Finished d { d with calls := d.calls.clear (·.channel = channel) } channel :=
  ⟨⟨rfl, rfl, rfl, rfl, prefix_refl _⟩, rfl, rfl, rfl⟩

theorem finished_callFinish : Finished d (d.callFinish c) c.channel := by
  have revoked := (finished_clear d c.channel).foldl_audioRevoke c.parts
  unfold callFinish
  dsimp only
  generalize c.parts.foldl _ _ = between at revoked ⊢
  have told : Finished d (between.sendState c true) c.channel := revoked.tail kept_sendState rfl rfl news_sendState
  split
  · exact told.tail ⟨rfl, rfl, rfl, rfl, prefix_append _ _⟩ rfl rfl (news_append rfl)
  · exact told

theorem Finished.change {channel : Nat} (finished : Finished d after channel)
    (free : ∀ c ∈ d.calls.entries, c.channel = channel → ∀ seat ∈ c.parts, may.Frees seat) : Change may d after := by
  refine ⟨finished.toKept, ?_⟩
  have entries : after.calls.entries = d.calls.entries.eraseP (·.channel = channel) := by
    rw [finished.calls, Slots.Table.entries_clear]
  rcases exists_or_eq_self_of_eraseP (·.channel = channel) d.calls.entries with
    same | ⟨c, front, back, -, isChannel, before, now⟩
  · exact .quiet (entries.trans same) finished.callIds finished.told
  refine .ended ⟨front, back, before, entries.trans now⟩ ?_ finished.callIds finished.told
  refine free c ?_ (by simpa using isChannel)
  rw [before]
  exact mem_append_right _ mem_cons_self

/-! A handler's effect, from the table and the rosters it leaves. -/

theorem Ok.edited (ok : d.Ok) (isCall : c ∈ d.calls.entries) (channel : new.channel = c.channel)
    (callId : new.callId = c.callId) (epoch : new.epoch = c.epoch) (parts : new.parts = c.parts)
    (sharer : SharerKept c new) : Change may d (d.setCall new) :=
  ⟨kept_setCall, .edited (ok.setCall isCall channel callId) epoch parts sharer rfl rfl⟩

theorem Ok.silent (ok : d.Ok) (isCall : c ∈ d.calls.entries) (here : c.parts[idx]? = some seat)
    (hushed : may.hushed c.channel) (free : may.Frees seat) :
    Change may d ((d.audioRevoke seat.token).setCall (c.removePart idx)) :=
  ⟨(kept_audioRevoke _).trans kept_setCall,
    .silent (@Ok.setCall _ _ d c (c.removePart idx) ok isCall rfl rfl) hushed rfl (removePart_out here)
      free (removePart_sharer here) rfl (news_audioRevoke _)⟩

theorem Ok.retold (ok : d.Ok) (isCall : c ∈ d.calls.entries) (channel : new.channel = c.channel)
    (callId : new.callId = c.callId) (epoch : new.epoch = c.epoch + 1) (reseat : Reseat may d c.parts new.parts)
    (sharer : SharerKept c new) {alsoConn : Nat} (calls : after.calls = (d.setCall new).calls)
    (callIds : after.nextCallId = d.nextCallId) (conns : after.conns = d.conns)
    (isTold : after.news = ((d.setCall new).sendRoster new 0 alsoConn).news) :
    ∃ told, Retold may d after c new none told ∧ (d.Live alsoConn → alsoConn ∈ told) := by
  obtain ⟨-, -, front, back, before, now⟩ := ok.setCall isCall channel callId
  obtain ⟨told, sent, everyone, also⟩ := @news_sendRoster _ _ (d.setCall new) new 0 alsoConn
  refine ⟨told, ⟨⟨channel, callId, front, back, before, calls ▸ now⟩, epoch, reseat, sharer, callIds,
    nofun, ?_, ?_⟩, also⟩
  · rw [isTold, sent]
    simp
  · intro seat mem live
    exact .inl (everyone seat mem (live_of_conns conns live) live.1)

inductive Dropped (may : Leeway) (d after : CallLoop Key Token) (c : Call Key Token) (idx tellConn : Nat) :
    Prop where
  | told {new : Call Key Token} {conns : List Nat} (retold : Retold may d after c new none conns)
      (also : d.Live tellConn → tellConn ∈ conns) (parts : new.parts = (c.removePart idx).parts)
  | ended (empty : (c.removePart idx).parts = []) (change : Change may d after)
      (gone : ∃ front back, d.calls.entries = front ++ c :: back ∧ after.calls.entries = front ++ back)

theorem kept_callDropTell (here : c.parts[idx]? = some seat) (tellConn : Nat) :
    Kept d (d.callDropTell c idx tellConn) := by
  unfold CallLoop.callDropTell
  simp only [here]
  split
  · have finished := @finished_callFinish _ _ ((d.audioRevoke seat.token).setCall (c.removePart idx)) (c.removePart idx)
    exact ((kept_audioRevoke _).trans kept_setCall).trans finished.toKept
  · exact (((kept_audioRevoke _).trans kept_setCall).trans kept_sendRoster).trans kept_sendState

theorem news_dropped (token : Token) (tellConn : Nat) :
    ((((d.audioRevoke token).setCall c).sendRoster c 0 tellConn).sendState c false).news =
      ((d.setCall c).sendRoster c 0 tellConn).news := by
  rw [news_sendState]
  unfold sendRoster
  rw [news_tell rfl, news_tell rfl, news_setCall, news_audioRevoke]
  rfl

theorem Ok.callDropTell_spec (ok : d.Ok) (isCall : c ∈ d.calls.entries) (here : c.parts[idx]? = some seat)
    (free : may.Frees seat) (tellConn : Nat) : Dropped may d (d.callDropTell c idx tellConn) c idx tellConn := by
  have kept := @kept_callDropTell _ _ d c idx seat here tellConn
  revert kept
  unfold CallLoop.callDropTell
  simp only [here]
  split
  · next empty =>
    intro kept
    have finished := @finished_callFinish _ _ ((d.audioRevoke seat.token).setCall (c.removePart idx)) (c.removePart idx)
    obtain ⟨front, back, before, -, now, -⟩ := @Ok.setCall_split _ _ d c (c.removePart idx) ok isCall rfl
    have gone : ∃ front back, d.calls.entries = front ++ c :: back ∧
        (((d.audioRevoke seat.token).setCall (c.removePart idx)).callFinish
          (c.removePart idx)).calls.entries = front ++ back :=
      ⟨front, back, before, by rw [finished.calls]; exact now⟩
    refine .ended empty ⟨kept, .ended gone ?_ finished.callIds ?_⟩ gone
    · intro other mem
      have only := (removePart_out here).symm.subset mem
      rw [empty, mem_singleton] at only
      exact only ▸ free
    · exact finished.told.trans (news_audioRevoke _)
  · intro kept
    have reseat : Reseat may d c.parts (c.removePart idx).parts := .left (removePart_out here) free
    generalize isNew : ({ c.removePart idx with epoch := (c.removePart idx).epoch + 1 } : Call Key Token) = new
    obtain ⟨told, retold, also⟩ := @Ok.retold _ _ may d
      ((((d.audioRevoke seat.token).setCall new).sendRoster new 0 tellConn).sendState new false) c new
      ok isCall (isNew ▸ rfl) (isNew ▸ rfl) (isNew ▸ rfl) (isNew ▸ reseat) (isNew ▸ removePart_sharer here)
      tellConn rfl rfl rfl (news_dropped seat.token tellConn)
    exact .told retold also (isNew ▸ rfl)

theorem Ok.callDropTell (ok : d.Ok) (isCall : c ∈ d.calls.entries) (here : c.parts[idx]? = some seat)
    (free : may.Frees seat) (tellConn : Nat) : Change may d (d.callDropTell c idx tellConn) := by
  have kept := @kept_callDropTell _ _ d c idx seat here tellConn
  cases ok.callDropTell_spec isCall here free tellConn with
  | told retold also parts => exact ⟨kept, .retold retold⟩
  | ended empty change gone => exact change

theorem mem_set_of_ne {α : Type} {l : List α} {i : Nat} {a b other : α} (here : l[i]? = some a)
    (mem : other ∈ l) (differs : other ≠ a) : other ∈ l.set i b := by
  obtain ⟨rest, all, changed⟩ := exists_perm_set here
  rcases mem_cons.mp (all.subset mem) with same | stays
  · exact absurd same differs
  · exact (changed b).symm.subset (mem_cons_of_mem _ stays)

theorem Ok.callConnClosed (ok : d.Ok) (free : may.out conn) (now : Nat) : Change may d (d.callConnClosed conn now) := by
  unfold CallLoop.callConnClosed
  split
  · exact .refl d
  next c idx found =>
  obtain ⟨isCall, seat, here, isConn⟩ := callOfConn_spec found
  simp only [here]
  have sharer : SharerKept c { c with
      sharerConn := if decide (c.sharerConn = conn) then 0 else c.sharerConn
      parts := c.parts.set idx { seat with conn := 0, detachedMs := if now = 0 then 1 else now }
      epoch := c.epoch + 1 } := by
    by_cases sharing : c.sharerConn = conn
    · exact .inl (by simp [sharing])
    refine .inr (.inr ⟨by simp [sharing], fun other mem isSharer => ?_⟩)
    refine mem_set_of_ne here mem fun same => sharing ?_
    rw [← isSharer, same, isConn]
  have held : Reseat may d c.parts (c.parts.set idx
      { seat with conn := 0, detachedMs := if now = 0 then 1 else now }) :=
    .held here (.inr (isConn ▸ free))
  generalize isNew : ({ c with
      sharerConn := if decide (c.sharerConn = conn) then 0 else c.sharerConn
      parts := c.parts.set idx { seat with conn := 0, detachedMs := if now = 0 then 1 else now }
      epoch := c.epoch + 1 } : Call Key Token) = new at sharer
  have told : (((d.audioRevoke seat.token).setCall new).sendRoster new 0 0).news =
      ((d.setCall new).sendRoster new 0 0).news := by
    unfold sendRoster
    rw [news_tell rfl, news_tell rfl, news_setCall, news_audioRevoke]
    rfl
  have retold : ∀ after : CallLoop Key Token, after.calls = (d.setCall new).calls →
      after.nextCallId = d.nextCallId → Kept d after →
      after.news = ((d.setCall new).sendRoster new 0 0).news → Change may d after := by
    intro after calls callIds kept isTold
    obtain ⟨conns, retold, -⟩ := @Ok.retold _ _ may d after c new ok isCall (isNew ▸ rfl) (isNew ▸ rfl)
      (isNew ▸ rfl) (isNew ▸ held) sharer 0 calls callIds kept.conns isTold
    exact ⟨kept, .retold retold⟩
  have kept : Kept d (((d.audioRevoke seat.token).setCall new).sendRoster new 0 0) :=
    ((kept_audioRevoke seat.token).trans kept_setCall).trans kept_sendRoster
  split
  · exact retold _ rfl rfl (kept.trans kept_sendState) (news_sendState.trans told)
  · exact retold _ rfl rfl kept told

theorem callDropToken_eq [DecidableEq Token] (d : CallLoop Key Token) (token : Token) :
    d.callDropToken token = d ∨ ∃ c ∈ d.calls.entries, ∃ idx seat, c.parts[idx]? = some seat ∧
      seat.token = token ∧ d.callDropToken token = d.callDropTell c idx seat.conn := by
  unfold CallLoop.callDropToken
  dsimp only
  split
  · next c k seat found =>
    obtain ⟨other, isCall, here⟩ := exists_of_findSome?_eq_some found
    obtain ⟨idx, isIdx, isSeat⟩ := bind_eq_some_iff.mp here
    obtain ⟨seat', isHere, same⟩ := map_eq_some_iff.mp isSeat
    cases same
    obtain ⟨seat', isHere', fits⟩ := getElem?_findIdx? isIdx
    cases isHere.symm.trans isHere'
    exact .inr ⟨c, isCall, k, seat, isHere, by simpa using fits, rfl⟩
  · exact .inl rfl

theorem Ok.leaveOwn (ok : d.Ok) {channel : Nat} (free : may.out conn)
    (hushed : ∀ c ∈ d.calls.entries, c.channel = channel → ∀ seat ∈ c.parts, seat.conn = conn → may.hushed channel) :
    Change may d (d.leaveOwn conn channel) := by
  unfold CallLoop.leaveOwn
  split
  · exact .refl d
  next prev idx found =>
  obtain ⟨isCall, seat, here, isConn⟩ := callOfConn_spec found
  split
  · next isChannel =>
    simp only [here]
    refine ok.silent isCall here ?_ (.inr (isConn ▸ free))
    rw [isChannel]
    exact hushed prev isCall isChannel seat (mem_of_getElem? here) isConn
  · exact ok.callDropTell isCall here (.inr (isConn ▸ free)) 0

structure Trimmed (out : Seat Key Token → Prop) (c new : Call Key Token) : Prop where
  channel : new.channel = c.channel
  callId : new.callId = c.callId
  parts : ∀ seat, seat ∈ new.parts ↔ seat ∈ c.parts ∧ ¬out seat
  length : new.parts.length ≤ c.parts.length
  shorter : (∃ seat ∈ c.parts, out seat) → new.parts.length < c.parts.length

variable {out : Seat Key Token → Prop}

theorem Trimmed.refl (none : ∀ seat ∈ c.parts, ¬out seat) : Trimmed out c c where
  channel := rfl
  callId := rfl
  parts seat := ⟨fun mem => ⟨mem, none seat mem⟩, fun mem => mem.1⟩
  length := le_rfl
  shorter := by
    rintro ⟨seat, mem, isOut⟩
    exact absurd isOut (none seat mem)

theorem Trimmed.removePart (ok : CallOk c) (here : c.parts[idx]? = some seat)
    (only : ∀ other ∈ c.parts, out other ↔ other = seat) : Trimmed out c (c.removePart idx) := by
  have perm := removePart_out here
  have length : (c.removePart idx).parts.length + 1 = c.parts.length := perm.length_eq
  have seats := ok.seats
  rw [← perm.pairwise_iff Seat.Apart.symm, pairwise_cons] at seats
  refine ⟨rfl, rfl, fun other => ⟨fun mem => ?_, fun mem => ?_⟩, by omega, fun _ => by omega⟩
  · have old := perm.subset (mem_cons_of_mem _ mem)
    refine ⟨old, fun isOut => ?_⟩
    have same := (only other old).mp isOut
    exact (seats.1 other mem).1 (congrArg _ same.symm)
  · rcases mem_cons.mp (perm.symm.subset mem.1) with same | stays
    · exact absurd ((only other mem.1).mpr same) mem.2
    · exact stays

theorem Trimmed.trans {out out' : Seat Key Token → Prop} {a b : Call Key Token} (first : Trimmed out a b)
    (second : Trimmed out' b c) : Trimmed (fun seat => out seat ∨ out' seat) a c where
  channel := second.channel.trans first.channel
  callId := second.callId.trans first.callId
  parts seat := by
    rw [second.parts, first.parts, not_or, and_assoc]
  length := second.length.trans first.length
  shorter := by
    rintro ⟨seat, mem, isOut⟩
    by_cases own : out seat
    · exact second.length.trans_lt (first.shorter ⟨seat, mem, own⟩)
    · have left := (first.parts seat).mpr ⟨mem, own⟩
      exact (second.shorter ⟨seat, left, isOut.resolve_left own⟩).trans_le first.length

structure LeftOwn (d : CallLoop Key Token) (conn channel : Nat) (after : CallLoop Key Token) : Prop where
  unseated : after.Unseated conn
  trimmed : ∀ c' ∈ after.calls.entries, c'.channel = channel → ∃ c ∈ d.calls.entries, Trimmed (·.conn = conn) c c'
  stays : ∀ c ∈ d.calls.entries, c.channel = channel → ∃ c' ∈ after.calls.entries, c'.channel = channel

/-- The call a seat was in is without it, or gone; the others are as they were. -/
theorem Ok.leftOwn_of_split (ok : d.Ok) {channel : Nat} {front back now : List (Call Key Token)}
    (before : d.calls.entries = front ++ c :: back) (isSeat : seat ∈ c.parts) (nonzero : seat.conn ≠ 0)
    (after' : after.calls.entries = front ++ now ++ back) (trimmed : ∀ new ∈ now, Trimmed (· = seat) c new)
    (stays : c.channel = channel → now ≠ []) : LeftOwn d seat.conn channel after := by
  have isCall : c ∈ d.calls.entries := by simp [before]
  have only := (ok.calls c isCall).only_conn isSeat nonzero
  have apart := ok.apart
  rw [before, perm_middle.pairwise_iff Call.Apart.symm, pairwise_cons] at apart
  have elsewhere : ∀ other ∈ front ++ back, ∀ seat' ∈ other.parts, seat'.conn ≠ seat.conn := by
    intro other mem seat' isSeat' same
    exact (apart.1 other mem).2.2 seat isSeat seat' isSeat' nonzero same.symm
  have each : ∀ other ∈ after.calls.entries, other ∈ front ++ back ∨ other ∈ now := by
    intro other mem
    rw [after', mem_append, mem_append] at mem
    rw [mem_append]
    tauto
  refine ⟨fun other mem seat' isSeat' same => ?_, fun other mem isChannel => ?_, fun other mem isChannel => ?_⟩
  · rcases each other mem with old | isNew
    · exact elsewhere other old seat' isSeat' same
    · have kept := (trimmed other isNew).parts seat' |>.mp isSeat'
      exact kept.2 ((only seat' kept.1).mp same)
  · rcases each other mem with old | isNew
    · refine ⟨other, ?_, .refl (elsewhere other old)⟩
      rw [before]
      exact perm_middle.symm.subset (mem_cons_of_mem _ old)
    have kept := trimmed other isNew
    refine ⟨c, isCall, kept.channel, kept.callId, fun seat' => ?_, kept.length, ?_⟩
    · rw [kept.parts]
      exact and_congr_right fun mem => not_congr (only seat' mem).symm
    · rintro ⟨seat', mem, same⟩
      exact kept.shorter ⟨seat', mem, (only seat' mem).mp same⟩
  · rw [before] at mem
    rcases mem_cons.mp (perm_middle.subset mem) with rfl | old
    · obtain ⟨new, isNew⟩ := exists_mem_of_ne_nil now (stays isChannel)
      refine ⟨new, ?_, (trimmed new isNew).channel.trans isChannel⟩
      rw [after']
      exact mem_append_left _ (mem_append_right _ isNew)
    refine ⟨other, ?_, isChannel⟩
    rw [after', mem_append, mem_append]
    rcases mem_append.mp old with first | last
    · exact .inl (.inl first)
    · exact .inr last

theorem Ok.trimmed_removePart (ok : d.Ok) (isCall : c ∈ d.calls.entries) (here : c.parts[idx]? = some seat) :
    Trimmed (· = seat) c (c.removePart idx) :=
  .removePart (ok.calls c isCall) here fun _ _ => Iff.rfl

theorem Ok.leaveOwn_spec (ok : d.Ok) (nonzero : conn ≠ 0) (channel : Nat) :
    LeftOwn d conn channel (d.leaveOwn conn channel) := by
  unfold CallLoop.leaveOwn
  split
  · next missing =>
    have unseated := callOfConn_none missing
    exact ⟨unseated, fun c isCall _ => ⟨c, isCall, .refl (unseated c isCall)⟩,
      fun c isCall isChannel => ⟨c, isCall, isChannel⟩⟩
  next prev idx found =>
  obtain ⟨isCall, seat, here, rfl⟩ := callOfConn_spec found
  have isSeat := mem_of_getElem? here
  have trimmed := ok.trimmed_removePart isCall here
  split
  · simp only [here]
    obtain ⟨front, back, before, set, -, -⟩ := @Ok.setCall_split _ _ d prev (prev.removePart idx) ok isCall rfl
    refine @Ok.leftOwn_of_split _ _ d _ prev seat ok _ front back [prev.removePart idx] before isSeat
      nonzero ?_ ?_ (fun _ => nofun)
    · rw [append_assoc]
      exact set
    · intro new isNew
      rw [mem_singleton.mp isNew]
      exact trimmed
  next other =>
  have dropped := @Ok.callDropTell_spec _ _ ⟨fun _ => True, fun _ => True⟩ d prev idx seat ok isCall here
    (.inr trivial) 0
  cases dropped with
  | @told new conns retold also parts =>
    obtain ⟨sameChannel, sameId, front, back, before, now⟩ := retold.replaced
    refine @Ok.leftOwn_of_split _ _ d _ prev seat ok _ front back [new] before isSeat nonzero ?_ ?_ (fun _ => nofun)
    · rw [append_assoc]
      exact now
    · intro new' isNew
      rw [mem_singleton.mp isNew]
      exact ⟨sameChannel, sameId, parts ▸ trimmed.parts, parts ▸ trimmed.length, parts ▸ trimmed.shorter⟩
  | ended empty change gone =>
    obtain ⟨front, back, before, now⟩ := gone
    refine @Ok.leftOwn_of_split _ _ d _ prev seat ok _ front back [] before isSeat nonzero ?_ nofun
      (fun isChannel => absurd isChannel other)
    rw [append_nil]
    exact now

structure LeftOther (may : Leeway) (d : CallLoop Key Token) (c : Call Key Token) (user : Nat)
    (after : CallLoop Key Token) (new : Call Key Token) (movedFrom : Nat) : Prop where
  change : Change may d after
  isCall : new ∈ after.calls.entries
  trimmed : Trimmed (·.user = user) c new
  unseated : ∀ conn, d.Unseated conn → after.Unseated conn
  moved : ∀ seat ∈ c.parts, seat.user = user → movedFrom = seat.conn

theorem Ok.leaveOther (ok : d.Ok) (isCall : c ∈ d.calls.entries) (user : Nat)
    (free : ∀ seat ∈ c.parts, seat.user = user → may.Frees seat ∧ may.hushed c.channel) :
    LeftOther may d c user (d.leaveOther c user).1 (d.leaveOther c user).2.1 (d.leaveOther c user).2.2 := by
  unfold CallLoop.leaveOther
  split
  · next k seat found =>
    obtain ⟨idx, isIdx, rest⟩ := bind_eq_some_iff.mp found
    obtain ⟨seat', here, same⟩ := map_eq_some_iff.mp rest
    cases same
    obtain ⟨seat', isSeat, isUser⟩ := getElem?_findIdx? isIdx
    cases here.symm.trans isSeat
    have isUser : seat.user = user := by simpa using isUser
    subst isUser
    have mem := mem_of_getElem? here
    have only := (ok.calls c isCall).only_user mem
    have trimmed := @Trimmed.removePart _ _ c k seat (·.user = seat.user) (ok.calls c isCall) here only
    obtain ⟨front, back, split, set, -, -⟩ := @Ok.setCall_split _ _ d c (c.removePart k) ok isCall rfl
    refine ⟨ok.silent isCall here (free seat mem rfl).2 (free seat mem rfl).1, ?_, trimmed, ?_, ?_⟩
    · change c.removePart k ∈ (d.setCall (c.removePart k)).calls.entries
      rw [set]
      exact mem_append_right _ mem_cons_self
    · intro conn unseated other isOther seat' isSeat'
      change other ∈ (d.setCall (c.removePart k)).calls.entries at isOther
      rw [set] at isOther
      rcases mem_append.mp isOther with first | isOther
      · exact unseated other (by simp [split, first]) seat' isSeat'
      rcases mem_cons.mp isOther with rfl | last
      · exact unseated c isCall seat' ((trimmed.parts seat').mp isSeat').1
      · exact unseated other (by simp [split, last]) seat' isSeat'
    · intro other isOther sameUser
      rw [(only other isOther).mp sameUser]
  · next missing =>
    have gone : ∀ seat ∈ c.parts, seat.user ≠ user := by
      intro seat mem isUser
      cases found : c.partOfUser user with
      | none =>
        have other := findIdx?_eq_none_iff.mp found seat mem
        simp [isUser] at other
      | some k =>
        obtain ⟨seat', here, -⟩ := getElem?_findIdx? found
        simp [found, here] at missing
    exact ⟨.refl d, isCall, .refl gone, fun _ unseated => unseated,
      fun seat mem isUser => absurd isUser (gone seat mem)⟩

end CallLoop

abbrev Changes (may : Leeway) : CallLoop Key Token → CallLoop Key Token → Prop := Relation.ReflTransGen (Change may)

theorem Changes.ok (changes : Changes may d after) (ok : d.Ok) : after.Ok := by
  induction changes with
  | refl => exact ok
  | tail _ change ih => exact change.effect.ok ih

theorem Changes.kept (changes : Changes may d after) : Kept d after := by
  induction changes with
  | refl => exact .refl d
  | tail _ change ih => exact ih.trans change.toKept

end OpenChime.Daemon
