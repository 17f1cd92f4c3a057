import Mathlib.Data.Vector.Basic
import OpenChime.Lib.Run
import OpenChime.Lib.Slots
import OpenChime.Shared.Text

/-! Device codes: a client with no browser asks for a code and polls for it, a person approves
or denies the code on the daemon's page, and the next poll hands the token over. The table is
`devicecodes.c`; SHA-256, the random source and the allocator are its environment. -/

set_option autoImplicit false

namespace OpenChime.Daemon

open Shared Slots.Table
open List hiding Vector

def deviceTtlMs : UInt64 := 10 * 60 * 1000
def deviceIntervalS : UInt32 := 5
def deviceMax : Nat := 256
def devicePerSource : Nat := 5

/-- The sizes of the entry's text fields, with the terminating zero. -/
def challengeSize : Nat := 48
def sourceSize : Nat := 46

/-- Consonants only: no words, and none of the letters people confuse. -/
def userCodeAlpha : Text := text "BCDFGHJKLMNPQRSTVWXZ"

def dashed (k : Text) : Text := k.take 4 ++ 45 :: k.drop 4

def userCodeOf (r : Vector UInt8 8) : Text := dashed (r.toList.map fun byte => userCodeAlpha.getD (byte.toNat % 20) 0)

/-- `oc_user_code_normalise`, with the letters `k` read so far. -/
def normaliseFrom (k : Text) : Text → Option Text
  | [] => if k.length = 8 then some (dashed k) else none
  | c :: typed =>
    if c = 45 ∨ c = 32 then normaliseFrom k typed
    else
      let upper := if 97 ≤ c ∧ c ≤ 122 then c - 32 else c
      if upper ∉ userCodeAlpha ∨ k.length = 8 then none else normaliseFrom (k ++ [upper]) typed

def userCodeNormalise (typed : Text) : Option Text := normaliseFrom [] typed

def b64url : Text := text "ABCDEFGHIJKLMNOPQRSTUVWXYZabcdefghijklmnopqrstuvwxyz0123456789-_"

def sextet (v : Nat) : UInt8 := b64url.getD (v % 64) 0

def base64urlEncode : List UInt8 → Text
  | [] => []
  | [a] =>
    let v := a.toNat * 2 ^ 16
    [sextet (v / 2 ^ 18), sextet (v / 2 ^ 12)]
  | [a, b] =>
    let v := a.toNat * 2 ^ 16 + b.toNat * 2 ^ 8
    [sextet (v / 2 ^ 18), sextet (v / 2 ^ 12), sextet (v / 2 ^ 6)]
  | a :: b :: c :: rest =>
    let v := a.toNat * 2 ^ 16 + b.toNat * 2 ^ 8 + c.toNat
    sextet (v / 2 ^ 18) :: sextet (v / 2 ^ 12) :: sextet (v / 2 ^ 6) :: sextet v :: base64urlEncode rest

inductive CodeState where
  | pending
  | approved (token : Text)
  | denied
  deriving DecidableEq

structure DeviceEntry where
  /-- Which start this is. The daemon keeps no such number: it only tells the answers apart. -/
  request : Nat
  st : CodeState
  secretHash : List UInt8
  userCode : Text
  challenge : Text
  source : Text
  addr : Text
  createdMs : UInt64
  expiresMs : UInt64
  lastPollMs : UInt64
  intervalS : UInt32
  deriving DecidableEq

inductive CodeEvent where
  | started (request : Nat) (deviceCode userCode source : Text) (expiresMs : UInt64)
  | approved (request : Nat) (userCode token : Text)
  | denied (request : Nat) (userCode : Text)
  | released (request : Nat) (deviceCode token : Text) (now : UInt64)
  deriving DecidableEq

def CodeEvent.request : CodeEvent → Nat
  | .started request .. => request
  | .approved request .. => request
  | .denied request .. => request
  | .released request .. => request

def CodeEvent.begun? : CodeEvent → Option Text
  | .started _ deviceCode .. => some deviceCode
  | _ => none

def CodeEvent.start? : CodeEvent → Option Nat
  | .started request .. => some request
  | _ => none

structure DevCodes where
  e : Slots.Table DeviceEntry deviceMax
  ttlMs : UInt64
  intervalS : UInt32
  /-- How many requests were started, and what the calls were answered: not in the source. -/
  starts : Nat
  log : List CodeEvent

inductive BeginAnswer where
  | begun (request : Nat) (deviceCode userCode : Text)
  | refused
  | tooMany

inductive PollAnswer where
  | pending (intervalS : UInt32)
  | slow (intervalS : UInt32)
  | gone
  | denied
  | token (request : Nat) (token : Text)

/-! What an answer tells of a code. -/

def BeginAnswer.event (source : Text) (expiresMs : UInt64) : BeginAnswer → Option CodeEvent
  | .begun request deviceCode userCode => some (.started request deviceCode userCode source expiresMs)
  | _ => none

def PollAnswer.event (deviceCode : Option Text) (now : UInt64) : PollAnswer → Option CodeEvent
  | .token request given => some (.released request (deviceCode.getD []) given now)
  | _ => none

/-- What a start draws: the bytes of each try at a user code, and the secret. -/
structure BeginEnv where
  draw : Nat → Option (Vector UInt8 8)
  secret : Option (Vector UInt8 32)
  hashed : Bool

namespace DevCodes

variable (sha256 : Text → List UInt8)

def new : DevCodes := { e := .empty _ _, ttlMs := deviceTtlMs, intervalS := deviceIntervalS, starts := 0, log := [] }

variable (d : DevCodes)

def setTtl (ms : UInt64) : DevCodes := { d with ttlMs := if ms = 0 then deviceTtlMs else ms }

def setInterval (s : UInt32) : DevCodes := { d with intervalS := if s = 0 then deviceIntervalS else s }

def sweep (now : UInt64) : DevCodes := { d with e := d.e.keep fun x => now < x.expiresMs }

def hasUserCode (code : Text) (x : DeviceEntry) : Bool := x.userCode == code

def byUser (code : Text) : Option DeviceEntry := d.e.find (hasUserCode code)

def note (event : Option CodeEvent) : DevCodes :=
  match event with
  | none => d
  | some event => { d with log := d.log ++ [event] }

/-- A user code no live request has, in the tries left of eight. -/
def drawUserCode (d : DevCodes) (draw : Nat → Option (Vector UInt8 8)) : Nat → Option Text
  | 0 => none
  | left + 1 =>
    match draw (7 - left) with
    | none => none
    | some r =>
      if (d.byUser (userCodeOf r)).isSome then d.drawUserCode draw left else some (userCodeOf r)

def fromSource (source : Text) : Nat := (d.e.entries.filter (·.source == source)).length

/-- `oc_devcodes_begin` after the sweep. A null source or address is the empty text. -/
def beginSwept (source addr : Text) (challenge : Option Text) (now : UInt64)
    (env : BeginEnv) : DevCodes × BeginAnswer :=
  if devicePerSource ≤ d.fromSource source then (d, .tooMany)
  else
    match challenge with
    | none => (d, .refused)
    | some challenge =>
      if challengeSize ≤ challenge.length then (d, .refused)
      else
        match d.drawUserCode env.draw 8, env.secret with
        | some userCode, some secret =>
          let deviceCode := base64urlEncode secret.toList
          if !env.hashed then (d, .refused)
          else
            let x : DeviceEntry :=
              { request := d.starts, st := .pending, secretHash := sha256 deviceCode
                userCode := userCode, challenge := fitted challengeSize challenge
                source := fitted sourceSize source, addr := fitted sourceSize addr
                createdMs := now, expiresMs := now + d.ttlMs, lastPollMs := 0
                intervalS := d.intervalS }
            -- a full table refuses before anything is drawn; what is drawn is then lost
            match d.e.put x with
            | none => (d, .refused)
            | some e => ({ d with e := e, starts := d.starts + 1 }, .begun x.request deviceCode userCode)
        | _, _ => (d, .refused)

def begin (source addr : Text) (challenge : Option Text) (now : UInt64) (env : BeginEnv) : DevCodes × BeginAnswer :=
  (d.sweep now).beginSwept sha256 source addr challenge now env

def hasSecret (code : Text) (x : DeviceEntry) : Bool := x.secretHash == sha256 code

/-- A poll of a pending request: sooner than its interval, it makes that five seconds longer. -/
def tooSoon (x : DeviceEntry) (now : UInt64) : Bool :=
  x.lastPollMs != 0 && now < x.lastPollMs + x.intervalS.toUInt64 * 1000

def polled (now : UInt64) (x : DeviceEntry) : DeviceEntry :=
  { x with
    lastPollMs := now
    intervalS := if tooSoon x now then x.intervalS + 5 else x.intervalS }

def pollSwept (deviceCode : Text) (now : UInt64) : DevCodes × PollAnswer :=
  match d.e.find (hasSecret sha256 deviceCode) with
  | none => (d, .gone)
  | some x =>
    let gone := { d with e := d.e.clear (hasSecret sha256 deviceCode) }
    match x.st with
    | .denied => (gone, .denied)
    | .approved token => (gone, .token x.request token)
    | .pending =>
      ({ d with e := d.e.update (hasSecret sha256 deviceCode) (polled now) },
        if tooSoon x now then .slow (polled now x).intervalS
        else .pending (polled now x).intervalS)

/-- `hashed` is whether SHA-256 gave a digest; a null device code is `none`. -/
def poll (deviceCode : Option Text) (hashed : Bool) (now : UInt64) : DevCodes × PollAnswer :=
  match deviceCode, hashed with
  | some code, true => (d.sweep now).pollSwept sha256 code now
  | _, _ => (d.sweep now, .gone)

def find (typed : Text) (now : UInt64) : DevCodes × Option DeviceEntry :=
  let swept := d.sweep now
  (swept, (userCodeNormalise typed).bind fun code =>
    (swept.byUser code).bind fun x => if x.st = .pending then some x else none)

def become (st : CodeState) (x : DeviceEntry) : DeviceEntry := { x with st := st }

/-- The page's answer for a user code, and which request that was. -/
def answer (userCode : Text) (st : CodeState) : DevCodes × Option Nat :=
  match d.byUser userCode with
  | none => (d, none)
  | some x =>
    if x.st = .pending then
      ({ d with e := d.e.update (hasUserCode userCode) (become st) }, some x.request)
    else (d, none)

/-- `copied` is whether there was memory for the token. -/
def approve (userCode token : Option Text) (copied : Bool) (now : UInt64) : DevCodes × Option Nat :=
  match userCode, token, copied with
  | some code, some token, true => (d.sweep now).answer code (.approved token)
  | _, _, _ => (d.sweep now, none)

def deny (userCode : Option Text) (now : UInt64) : DevCodes × Option Nat :=
  match userCode with
  | some code => (d.sweep now).answer code .denied
  | none => (d.sweep now, none)

end DevCodes

inductive DeviceCall where
  | setTtl (ms : UInt64)
  | setInterval (s : UInt32)
  | begin (source addr : Text) (challenge : Option Text) (now : UInt64) (env : BeginEnv)
  | poll (deviceCode : Option Text) (hashed : Bool) (now : UInt64)
  | find (typed : Text) (now : UInt64)
  | approve (userCode token : Option Text) (copied : Bool) (now : UInt64)
  | deny (userCode : Option Text) (now : UInt64)

namespace DevCodes

variable (sha256 : Text → List UInt8)

def step (d : DevCodes) : DeviceCall → Option DevCodes
  | .setTtl ms => some (d.setTtl ms)
  | .setInterval s => some (d.setInterval s)
  | .begin source addr challenge now env =>
    let done := d.begin sha256 source addr challenge now env
    some (done.1.note (done.2.event source (now + d.ttlMs)))
  | .poll deviceCode hashed now =>
    let done := d.poll sha256 deviceCode hashed now
    some (done.1.note (done.2.event deviceCode now))
  | .find typed now => some (d.find typed now).1
  | .approve userCode token copied now =>
    let done := d.approve userCode token copied now
    some (done.1.note (done.2.map fun request => .approved request (userCode.getD []) (token.getD [])))
  | .deny userCode now =>
    let done := d.deny userCode now
    some (done.1.note (done.2.map fun request => .denied request (userCode.getD [])))

/-- A source fits its field, and nobody polls with another text of a device code's digest. -/
def Sensible (d : DevCodes) : DeviceCall → Prop
  | .begin source _ _ _ _ => source.length < sourceSize
  | .poll (some code) _ _ =>
    ∀ begun ∈ d.log.filterMap CodeEvent.begun?, sha256 begun = sha256 code → begun = code
  | _ => True

instance (d : DevCodes) (call : DeviceCall) : Decidable (d.Sensible sha256 call) := by
  unfold Sensible
  split <;> infer_instance

end DevCodes

/-! What a call does to the live entries and the log, once the expired are swept. -/

structure DeviceEntry.Same (x y : DeviceEntry) : Prop where
  request : y.request = x.request
  secretHash : y.secretHash = x.secretHash
  userCode : y.userCode = x.userCode
  source : y.source = x.source
  expiresMs : y.expiresMs = x.expiresMs

structure Fresh (sha256 : Text → List UInt8) (live : List DeviceEntry) (deviceCode : Text)
    (x : DeviceEntry) : Prop where
  st : x.st = .pending
  secretHash : x.secretHash = sha256 deviceCode
  userCode : ∀ y ∈ live, y.userCode ≠ x.userCode
  source : (live.filter (·.source == x.source)).length < devicePerSource

inductive CodeChange (sha256 : Text → List UInt8) (d : DevCodes) (call : DeviceCall)
    (live : List DeviceEntry) : List DeviceEntry → Nat → List CodeEvent → Prop where
  | kept : CodeChange sha256 d call live live d.starts d.log
  | started (deviceCode : Text) (x : DeviceEntry) (fresh : Fresh sha256 live deviceCode x)
      (numbered : x.request = d.starts) :
      CodeChange sha256 d call live (x :: live) (d.starts + 1)
        (d.log ++ [.started x.request deviceCode x.userCode x.source x.expiresMs])
  | polled (x y : DeviceEntry) (rest : List DeviceEntry) (isX : live.Perm (x :: rest))
      (same : x.Same y) (st : y.st = x.st) :
      CodeChange sha256 d call live (y :: rest) d.starts d.log
  | approved (x y : DeviceEntry) (rest : List DeviceEntry) (token : Text)
      (isX : live.Perm (x :: rest)) (same : x.Same y) (pending : x.st = .pending)
      (st : y.st = .approved token) :
      CodeChange sha256 d call live (y :: rest) d.starts (d.log ++ [.approved x.request x.userCode token])
  | denied (x y : DeviceEntry) (rest : List DeviceEntry) (isX : live.Perm (x :: rest))
      (same : x.Same y) (pending : x.st = .pending) (st : y.st = .denied) :
      CodeChange sha256 d call live (y :: rest) d.starts (d.log ++ [.denied x.request x.userCode])
  | dropped (x : DeviceEntry) (rest : List DeviceEntry) (isX : live.Perm (x :: rest)) :
      CodeChange sha256 d call live rest d.starts d.log
  | released (x : DeviceEntry) (rest : List DeviceEntry) (deviceCode token : Text) (now : UInt64)
      (hashed : Bool) (isPoll : call = .poll (some deviceCode) hashed now)
      (isX : live.Perm (x :: rest)) (st : x.st = .approved token)
      (digest : x.secretHash = sha256 deviceCode) (intime : now < x.expiresMs) :
      CodeChange sha256 d call live rest d.starts (d.log ++ [.released x.request deviceCode token now])

def CodeStep (sha256 : Text → List UInt8) (d after : DevCodes) (call : DeviceCall) : Prop :=
  ∃ live entries, live.Sublist d.e.entries ∧ after.e.entries.Perm entries ∧
    CodeChange sha256 d call live entries after.starts after.log

namespace DevCodes

variable {sha256 : Text → List UInt8} {d : DevCodes}

theorem drawUserCode_unused {draw : Nat → Option (Vector UInt8 8)} {left : Nat} {code : Text}
    (drawn : d.drawUserCode draw left = some code) : ∀ y ∈ d.e.entries, y.userCode ≠ code := by
  induction left with
  | zero => cases drawn
  | succ left ih =>
    unfold drawUserCode at drawn
    split at drawn
    · cases drawn
    split at drawn
    · exact ih drawn
    next r _ unused =>
    cases drawn
    intro y isY same
    apply unused
    unfold byUser
    rw [find_eq, find?_isSome]
    exact ⟨y, isY, beq_iff_eq.mpr same⟩

theorem sweep_sublist (now : UInt64) : (d.sweep now).e.entries.Sublist d.e.entries := by
  unfold sweep
  rw [entries_keep]
  exact filter_sublist

variable {now : UInt64}

theorem sweep_live {x : DeviceEntry} (live : x ∈ (d.sweep now).e.entries) : now < x.expiresMs := by
  unfold sweep at live
  rw [entries_keep] at live
  exact of_decide_eq_true (mem_filter.mp live).2

theorem changes_sweep (call : DeviceCall) (now : UInt64) : CodeStep sha256 d (d.sweep now) call :=
  ⟨_, _, sweep_sublist now, .refl _, .kept⟩

theorem changes_begin {source addr : Text} {challenge : Option Text} {env : BeginEnv}
    (fits : source.length < sourceSize) :
    CodeStep sha256 d ((d.begin sha256 source addr challenge now env).1.note
      ((d.begin sha256 source addr challenge now env).2.event source (now + d.ttlMs)))
      (.begin source addr challenge now env) := by
  have whole : fitted sourceSize source = source := take_of_length_le (by omega)
  unfold begin beginSwept
  split
  · exact changes_sweep _ now
  next room =>
  split
  · exact changes_sweep _ now
  split
  · exact changes_sweep _ now
  split
  · next userCode secret drawn _ =>
    dsimp only
    split
    · exact changes_sweep _ now
    split
    · exact changes_sweep _ now
    next e put =>
    rw [whole] at put
    refine ⟨_, _, sweep_sublist now, put_perm put, .started (base64urlEncode secret.toList) _ ?_ rfl⟩
    exact ⟨rfl, rfl, drawUserCode_unused drawn, Nat.lt_of_not_le room⟩
  · exact changes_sweep _ now

theorem changes_poll {deviceCode : Option Text} {hashed : Bool} :
    CodeStep sha256 d ((d.poll sha256 deviceCode hashed now).1.note
      ((d.poll sha256 deviceCode hashed now).2.event deviceCode now)) (.poll deviceCode hashed now) := by
  unfold poll
  split
  · next code =>
    unfold pollSwept
    split
    · exact changes_sweep _ now
    next x found =>
    obtain ⟨rest, all, cleared, updated⟩ := update_perm found
    have isX : x ∈ (d.sweep now).e.entries := all.mem_iff.mpr mem_cons_self
    have digest : x.secretHash = sha256 code := by
      rw [find_eq] at found
      have matched : hasSecret sha256 code x = true := find?_some found
      exact beq_iff_eq.mp matched
    split
    · exact ⟨_, rest, sweep_sublist now, cleared, .dropped x rest all⟩
    · next token st =>
      exact ⟨_, rest, sweep_sublist now, cleared,
        .released x rest code token now true rfl all st digest (sweep_live isX)⟩
    dsimp only
    split <;>
    exact ⟨_, _, sweep_sublist now, updated (polled now),
      .polled x (polled now x) rest all ⟨rfl, rfl, rfl, rfl, rfl⟩ rfl⟩
  · exact changes_sweep _ now

theorem changes_answer {call : DeviceCall} {code : Text} {st : CodeState} {event : Nat → CodeEvent}
    (changes : ∀ x rest, (d.sweep now).e.entries.Perm (x :: rest) → x.st = .pending → x.userCode = code →
      CodeChange sha256 d call (d.sweep now).e.entries (become st x :: rest) d.starts (d.log ++ [event x.request])) :
    CodeStep sha256 d (((d.sweep now).answer code st).1.note (((d.sweep now).answer code st).2.map event)) call := by
  unfold answer
  split
  · exact changes_sweep _ now
  next x found =>
  split
  · next pending =>
    unfold byUser at found
    obtain ⟨rest, all, _, updated⟩ := update_perm found
    rw [find_eq] at found
    have matched : hasUserCode code x = true := find?_some found
    exact ⟨_, _, sweep_sublist now, updated (become st), changes x rest all pending (beq_iff_eq.mp matched)⟩
  · exact changes_sweep _ now

theorem changes_approve {userCode token : Option Text} {copied : Bool} :
    CodeStep sha256 d ((d.approve userCode token copied now).1.note ((d.approve userCode token copied now).2.map
      fun request => .approved request (userCode.getD []) (token.getD []))) (.approve userCode token copied now) := by
  unfold approve
  split
  · next code token =>
    refine changes_answer fun x rest all pending named => ?_
    rw [Option.getD_some, Option.getD_some, ← named]
    exact .approved x _ rest token all ⟨rfl, rfl, rfl, rfl, rfl⟩ pending rfl
  · exact changes_sweep _ now

theorem changes_deny {userCode : Option Text} : CodeStep sha256 d ((d.deny userCode now).1.note
      ((d.deny userCode now).2.map fun request => .denied request (userCode.getD []))) (.deny userCode now) := by
  unfold deny
  split
  · next code =>
    refine changes_answer fun x rest all pending named => ?_
    rw [Option.getD_some, ← named]
    exact .denied x _ rest all ⟨rfl, rfl, rfl, rfl, rfl⟩ pending rfl
  · exact changes_sweep _ now

theorem step_changes {call : DeviceCall} {after : DevCodes} (sensible : d.Sensible sha256 call)
    (taken : d.step sha256 call = some after) : CodeStep sha256 d after call := by
  cases call with
  | setTtl ms =>
    cases taken
    exact ⟨_, _, .refl _, .refl _, .kept⟩
  | setInterval s =>
    cases taken
    exact ⟨_, _, .refl _, .refl _, .kept⟩
  | begin source addr challenge now env =>
    cases taken
    exact changes_begin sensible
  | poll deviceCode hashed now =>
    cases taken
    exact changes_poll
  | find typed now =>
    cases taken
    exact changes_sweep _ now
  | approve userCode token copied now =>
    cases taken
    exact changes_approve
  | deny userCode now =>
    cases taken
    exact changes_deny

end DevCodes

/-! A token goes to one poll, of the code it was approved for. -/

structure Earned (before : List CodeEvent) (request : Nat) (deviceCode token : Text)
    (now : UInt64) : Prop where
  approved : ∃ userCode source expires, .started request deviceCode userCode source expires ∈ before ∧
      .approved request userCode token ∈ before ∧ now < expires
  undenied : ∀ userCode, .denied request userCode ∉ before
  first : ∀ code token now, .released request code token now ∉ before

/-- Every token that was handed over had been earned at that moment; a number is one start's. -/
structure ReleasesEarned (log : List CodeEvent) : Prop where
  earned : ∀ n request deviceCode token now, log[n]? = some (.released request deviceCode token now) →
      Earned (log.take n) request deviceCode token now
  starts : (log.filterMap CodeEvent.start?).Nodup

structure Known (sha256 : Text → List UInt8) (log : List CodeEvent) (x : DeviceEntry) : Prop where
  started : ∃ deviceCode, sha256 deviceCode = x.secretHash ∧
    .started x.request deviceCode x.userCode x.source x.expiresMs ∈ log
  approved : ∀ token, x.st = .approved token → .approved x.request x.userCode token ∈ log
  undenied : x.st ≠ .denied → ∀ userCode, .denied x.request userCode ∉ log
  unreleased : ∀ code token now, .released x.request code token now ∉ log

structure CodesOk (sha256 : Text → List UInt8) (live : List DeviceEntry) (starts : Nat)
    (log : List CodeEvent) : Prop where
  userCodes : (live.map DeviceEntry.userCode).Nodup
  requests : (live.map DeviceEntry.request).Nodup
  sources : ∀ source, (live.filter (·.source == source)).length ≤ devicePerSource
  known : ∀ x ∈ live, Known sha256 log x
  begun : ∀ event ∈ log, event.request < starts
  starts : (log.filterMap CodeEvent.start?).Nodup
  earned : ∀ n request deviceCode token now, log[n]? = some (.released request deviceCode token now) →
      Earned (log.take n) request deviceCode token now

variable {sha256 : Text → List UInt8} {live rest : List DeviceEntry} {starts : Nat}
  {log : List CodeEvent} {x y : DeviceEntry} {event : CodeEvent}

theorem Known.snoc (known : Known sha256 log x) (other : event.request ≠ x.request) :
    Known sha256 (log ++ [event]) x := by
  have notNew : ∀ e : CodeEvent, e.request = x.request → e ∉ log → e ∉ log ++ [event] := by
    intro e own notOld mem
    rcases mem_append.mp mem with old | new
    · exact notOld old
    · rw [mem_singleton] at new
      exact other (new ▸ own)
  obtain ⟨deviceCode, digest, started⟩ := known.started
  constructor
  · exact ⟨deviceCode, digest, mem_append_left _ started⟩
  · intro token st
    exact mem_append_left _ (known.approved token st)
  · intro st userCode
    exact notNew _ rfl (known.undenied st userCode)
  · intro code token now
    exact notNew _ rfl (known.unreleased code token now)

theorem earned_snoc (old : ∀ n request deviceCode token now,
      log[n]? = some (.released request deviceCode token now) → Earned (log.take n) request deviceCode token now)
    (new : ∀ request deviceCode token now, event = .released request deviceCode token now →
      Earned log request deviceCode token now) :
    ∀ n request deviceCode token now, (log ++ [event])[n]? = some (.released request deviceCode token now) →
        Earned ((log ++ [event]).take n) request deviceCode token now := by
  intro n request deviceCode token now here
  rcases Nat.lt_or_ge n log.length with inside | past
  · rw [List.getElem?_append_left inside] at here
    rw [List.take_append_of_le_length (inside.le)]
    exact old n _ _ _ _ here
  have isLast : n = log.length := by
    have bound := (List.getElem?_eq_some_iff.mp here).1
    rw [List.length_append, List.length_singleton] at bound
    omega
  subst isLast
  rw [List.getElem?_concat_length, Option.some.injEq] at here
  rw [take_left]
  exact new _ _ _ _ here

namespace CodesOk

variable (ok : CodesOk sha256 live starts log)

include ok

theorem perm (same : live.Perm rest) : CodesOk sha256 rest starts log where
  __ := ok
  userCodes := (same.map _).nodup_iff.mp ok.userCodes
  requests := (same.map _).nodup_iff.mp ok.requests
  sources := by
    intro source
    rw [← (same.filter _).length_eq]
    exact ok.sources source
  known := by
    intro x isX
    exact ok.known x (same.mem_iff.mpr isX)

theorem sublist (fewer : rest.Sublist live) : CodesOk sha256 rest starts log where
  __ := ok
  userCodes := ok.userCodes.sublist (fewer.map _)
  requests := ok.requests.sublist (fewer.map _)
  sources := by
    intro source
    exact Nat.le_trans (fewer.filter _).length_le (ok.sources source)
  known := by
    intro x isX
    exact ok.known x (fewer.subset isX)

theorem number_lt (isX : x ∈ live) : x.request < starts := by
  obtain ⟨deviceCode, _, started⟩ := (ok.known x isX).started
  exact ok.begun _ started

end CodesOk

structure Apart (live : List DeviceEntry) (x : DeviceEntry) : Prop where
  userCode : ∀ y ∈ live, y.userCode ≠ x.userCode
  request : ∀ y ∈ live, y.request ≠ x.request
  source : (live.filter (·.source == x.source)).length < devicePerSource

theorem Apart.same (apart : Apart rest x) (same : x.Same y) : Apart rest y := by
  constructor
  · rw [same.userCode]
    exact apart.userCode
  · rw [same.request]
    exact apart.request
  · rw [same.source]
    exact apart.source

namespace CodesOk

theorem apart (ok : CodesOk sha256 (x :: rest) starts log) : Apart rest x := by
  have userCodes := ok.userCodes
  have requests := ok.requests
  have sources := ok.sources x.source
  rw [map_cons, nodup_cons] at userCodes requests
  rw [filter_cons_of_pos (by simp)] at sources
  constructor
  · intro y isY same
    exact userCodes.1 (same ▸ mem_map_of_mem isY)
  · intro y isY same
    exact requests.1 (same ▸ mem_map_of_mem isY)
  · exact sources

theorem cons (ok : CodesOk sha256 rest starts log) (apart : Apart rest x)
    (known : Known sha256 log x) : CodesOk sha256 (x :: rest) starts log where
  __ := ok
  userCodes := by
    rw [map_cons, nodup_cons]
    refine ⟨?_, ok.userCodes⟩
    intro mem
    obtain ⟨y, isY, same⟩ := mem_map.mp mem
    exact apart.userCode y isY same
  requests := by
    rw [map_cons, nodup_cons]
    refine ⟨?_, ok.requests⟩
    intro mem
    obtain ⟨y, isY, same⟩ := mem_map.mp mem
    exact apart.request y isY same
  sources := by
    intro source
    by_cases own : x.source = source
    · subst own
      rw [filter_cons_of_pos (by simp)]
      exact apart.source
    · rw [filter_cons_of_neg (by simpa using own)]
      exact ok.sources source
  known := by
    intro y isY
    rcases mem_cons.mp isY with rfl | inRest
    · exact known
    · exact ok.known y inRest

theorem snoc {now : Nat} (ok : CodesOk sha256 rest starts log)
    (other : ∀ y ∈ rest, y.request ≠ event.request) (later : starts ≤ now)
    (begun : event.request < now) (start : event.start? = none ∨ event.request = starts)
    (new : ∀ request deviceCode token now, event = .released request deviceCode token now →
      Earned log request deviceCode token now) :
    CodesOk sha256 rest now (log ++ [event]) where
  __ := ok
  known := by
    intro y isY
    exact (ok.known y isY).snoc (other y isY).symm
  begun := by
    intro e mem
    rcases mem_append.mp mem with old | isNew
    · exact (ok.begun e old).trans_le later
    · rw [mem_singleton.mp isNew]
      exact begun
  starts := by
    rw [filterMap_append]
    cases isStart : event.start? with
    | none => simpa [isStart] using ok.starts
    | some number =>
      have same : number = starts := by
        cases event with
        | started request =>
          cases isStart
          simpa [CodeEvent.start?, CodeEvent.request] using start
        | approved | denied | released => cases isStart
      have unused : number ∉ log.filterMap CodeEvent.start? := by
        intro mem
        obtain ⟨e, inLog, isNumber⟩ := mem_filterMap.mp mem
        have bound := ok.begun e inLog
        cases e with
        | started request =>
          cases isNumber
          simp only [CodeEvent.request] at bound
          omega
        | approved | denied | released => cases isNumber
      simp only [filterMap_cons, isStart, filterMap_nil]
      rw [nodup_append_comm]
      exact nodup_cons.mpr ⟨unused, ok.starts⟩
  earned := earned_snoc ok.earned new

end CodesOk

/-- An entry's state changes by an event of its own that releases nothing. -/
theorem CodesOk.edit (ok : CodesOk sha256 (x :: rest) starts log) (same : x.Same y)
    (own : event.request = x.request) (noStart : event.start? = none)
    (noRelease : ∀ request deviceCode token now, event ≠ .released request deviceCode token now)
    (approved : ∀ token, y.st = .approved token → .approved y.request y.userCode token ∈ log ++ [event])
    (undenied : y.st ≠ .denied → ∀ userCode, .denied y.request userCode ∉ log ++ [event]) :
    CodesOk sha256 (y :: rest) starts (log ++ [event]) := by
  have others : CodesOk sha256 rest starts (log ++ [event]) := by
    refine (ok.sublist (sublist_cons_self x rest)).snoc ?_ (le_rfl) ?_ (.inl noStart) ?_
    · rw [own]
      exact ok.apart.request
    · rw [own]
      exact ok.number_lt mem_cons_self
    · intro request deviceCode token now isRelease
      exact absurd isRelease (noRelease _ _ _ _)
  have known := ok.known x mem_cons_self
  obtain ⟨deviceCode, digest, started⟩ := known.started
  refine others.cons (ok.apart.same same) ⟨?_, approved, undenied, ?_⟩
  · rw [same.secretHash, same.request, same.userCode, same.source, same.expiresMs]
    exact ⟨deviceCode, digest, mem_append_left _ started⟩
  · intro code token now mem
    rw [same.request] at mem
    rcases mem_append.mp mem with old | new
    · exact known.unreleased code token now old
    · exact noRelease _ _ _ _ (mem_singleton.mp new).symm

theorem CodesOk.change {d : DevCodes} {call : DeviceCall} {entries : List DeviceEntry} {after : Nat}
    {said : List CodeEvent} (ok : CodesOk sha256 live d.starts d.log) (sensible : d.Sensible sha256 call)
    (change : CodeChange sha256 d call live entries after said) : CodesOk sha256 entries after said := by
  cases change with
  | kept => exact ok
  | started deviceCode x fresh numbered =>
    have unused : ∀ event ∈ d.log, event.request ≠ x.request := by
      intro event mem same
      have bound := ok.begun event mem
      omega
    have others : ∀ y ∈ live, y.request ≠ x.request := by
      intro y isY same
      have bound := ok.number_lt isY
      omega
    refine CodesOk.cons ?_ ⟨fresh.userCode, others, fresh.source⟩ ?_
    · refine ok.snoc others (Nat.le_succ _) ?_ (.inr numbered) ?_
      · simp only [CodeEvent.request]
        omega
      · nofun
    constructor
    · exact ⟨deviceCode, fresh.secretHash.symm, mem_concat_self⟩
    · intro token st
      rw [fresh.st] at st
      cases st
    · intro _ userCode mem
      rcases mem_append.mp mem with old | new
      · exact unused _ old rfl
      · cases mem_singleton.mp new
    · intro code token now mem
      rcases mem_append.mp mem with old | new
      · exact unused _ old rfl
      · cases mem_singleton.mp new
  | polled x y rest isX same st =>
    have okX := ok.perm isX
    have known := okX.known x mem_cons_self
    refine (okX.sublist (sublist_cons_self x rest)).cons (okX.apart.same same) ?_
    constructor
    · rw [same.secretHash, same.request, same.userCode, same.source, same.expiresMs]
      exact known.started
    · rw [st, same.request, same.userCode]
      exact known.approved
    · rw [st, same.request]
      exact known.undenied
    · rw [same.request]
      exact known.unreleased
  | approved x y rest token isX same pending st =>
    have okX := ok.perm isX
    refine okX.edit same rfl rfl nofun ?_ ?_
    · intro other isOther
      rw [st] at isOther
      cases isOther
      rw [same.request, same.userCode]
      exact mem_concat_self
    · intro _ userCode mem
      rw [same.request] at mem
      rcases mem_append.mp mem with old | new
      · refine (okX.known x mem_cons_self).undenied ?_ userCode old
        rw [pending]
        exact CodeState.noConfusion
      · cases mem_singleton.mp new
  | denied x y rest isX same pending st =>
    refine (ok.perm isX).edit same rfl rfl nofun ?_ (absurd st)
    intro other isOther
    simp [st] at isOther
  | dropped x rest isX => exact (ok.perm isX).sublist (sublist_cons_self x entries)
  | released x rest deviceCode token now hashed isPoll isX st digest intime =>
    have okX := ok.perm isX
    have known := okX.known x mem_cons_self
    refine (okX.sublist (sublist_cons_self x entries)).snoc okX.apart.request
      (le_rfl) (okX.number_lt mem_cons_self) (.inl rfl) ?_
    intro _ _ _ _ isRelease
    cases isRelease
    obtain ⟨begunCode, sameDigest, started⟩ := known.started
    have isOwn : begunCode = deviceCode := by
      subst isPoll
      exact sensible begunCode (mem_filterMap.mpr ⟨_, started, rfl⟩) (sameDigest.trans digest)
    subst isOwn
    constructor
    · exact ⟨_, _, _, started, known.approved token st, intime⟩
    · exact known.undenied (by rw [st]; exact CodeState.noConfusion)
    · exact known.unreleased

theorem CodesOk.step {d after : DevCodes} {call : DeviceCall} (ok : CodesOk sha256 d.e.entries d.starts d.log)
    (sensible : d.Sensible sha256 call) (taken : d.step sha256 call = some after) :
    CodesOk sha256 after.e.entries after.starts after.log := by
  obtain ⟨live, entries, swept, same, change⟩ := DevCodes.step_changes sensible taken
  exact ((ok.sublist swept).change sensible change).perm same.symm

/-- After any calls, at any times: every token given out was earned, no two live requests have one
user code, and no source has too many. -/
theorem device_code_gives_its_token_once {calls : List DeviceCall} {d : DevCodes}
    (run : Machine.Run (DevCodes.step sha256) (DevCodes.Sensible sha256) DevCodes.new calls d) :
    ReleasesEarned d.log ∧ (d.e.entries.map DeviceEntry.userCode).Nodup ∧
      ∀ source, (d.e.entries.filter (·.source == source)).length ≤ devicePerSource := by
  have ok := run.invariant (fun _ d => CodesOk sha256 d.e.entries d.starts d.log) (by
      unfold DevCodes.new
      constructor <;> simp)
    (by
      intro _ _ _ _ ok sensible taken
      exact ok.step sensible taken)
  exact ⟨⟨ok.earned, ok.starts⟩, ok.userCodes, ok.sources⟩

def anyDraw : BeginEnv := ⟨fun _ => some (.replicate 8 3), some (.replicate 32 7), true⟩

def approvedCalls : List DeviceCall :=
  [.begin [1] [1] (some []) 10 anyDraw, .approve (some (userCodeOf (.replicate 8 3))) (some [5]) true 20,
    .poll (some (base64urlEncode (replicate 32 7))) true 30]

theorem device_code_gives_its_token_once_approved :
    ∃ d, Machine.Run (DevCodes.step id) (DevCodes.Sensible id) DevCodes.new approvedCalls d ∧
      (d.log.getLast? = some (.released 0 (base64urlEncode (replicate 32 7)) [5] 30)) ∧
      ReleasesEarned d.log ∧ (d.e.entries.map DeviceEntry.userCode).Nodup ∧
      ∀ source, (d.e.entries.filter (·.source == source)).length ≤ devicePerSource := by
  obtain ⟨d, followed⟩ : ∃ d, Machine.follow (DevCodes.step id)
      (fun d call => decide (d.Sensible id call)) DevCodes.new approvedCalls = some d := ⟨_, rfl⟩
  have run := Machine.Run.nil.of_follow (fun _ _ => of_decide_eq_true) followed
  refine ⟨d, run, ?_, device_code_gives_its_token_once run⟩
  cases followed
  rfl

end OpenChime.Daemon
