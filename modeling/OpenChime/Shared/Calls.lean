import Mathlib.Logic.Basic

/-! The call frames of `shared/protocol.h`. A device key and a media token are opaque, and
so is a sealed media key. -/

set_option autoImplicit false

namespace OpenChime.Shared

def maxCallParticipants : Nat := 32

def maxCallInvites : Nat := maxCallParticipants

def callSealedLen : Nat := 64

/-- `oc_call_part`; `away` is the one flag there is. -/
structure CallPart (Key : Type) where
  (user slot : Nat)
  deviceKey : Key
  codecs : Nat
  away : Bool
  deriving DecidableEq

/-- `oc_call_joined`; the epoch is a `uint32_t`, and a call has fewer than 2^32 of them. -/
structure CallJoined (Key Token : Type) where
  (channel call udpPort : Nat)
  token : Token
  (slot epoch starter startedAt : Nat)
  parts : List (CallPart Key)
  deriving DecidableEq

structure CallRoster (Key : Type) where
  (channel call epoch : Nat)
  parts : List (CallPart Key)
  deriving DecidableEq

structure CallState where
  (channel call starter startedAt : Nat)
  ended : Bool
  (parts invited : List Nat)
  sharer : Nat
  deriving DecidableEq

structure CallKeyFor where
  (channel call epoch sender : Nat)
  sealed : List UInt8
  deriving DecidableEq

inductive CallUp (Key : Type) where
  | join (channel : Nat) (deviceKey : Key) (invite : List Nat) (codecs : Nat)
  | invite (channel : Nat) (users : List Nat)
  | leave (channel : Nat)
  | decline (channel : Nat)
  | end_ (channel : Nat)
  | share (channel : Nat) (on : Bool)
  /-- a sealed key for each recipient -/
  | key (channel call epoch : Nat) (entries : List (Nat × List UInt8))
  deriving DecidableEq

/-- `OC_ERR_*` -/
inductive CallError where
  | notInCall
  | notCallStarter
  | callFull
  | callUnavailable
  | internal
  /-- what the reader said of a join or an invitation -/
  | denied (code : Nat)
  deriving DecidableEq

inductive CallDown (Key Token : Type) where
  | joined (frame : CallJoined Key Token)
  | roster (frame : CallRoster Key)
  | keyFor (frame : CallKeyFor)
  | state (frame : CallState)
  | error (code : CallError)
  deriving DecidableEq

variable {Key Token : Type}

/-- The frames a participant's keys and list of participants come from. -/
def CallDown.isNews : CallDown Key Token → Bool
  | .joined _ => true
  | .roster _ => true
  | .keyFor _ => true
  | .state _ => false
  | .error _ => false

def CallJoined.roster (it : CallJoined Key Token) : CallRoster Key := ⟨it.channel, it.call, it.epoch, it.parts⟩

def CallDown.roster? : CallDown Key Token → Option (CallRoster Key)
  | .joined it => some it.roster
  | .roster it => some it
  | _ => none

end OpenChime.Shared
