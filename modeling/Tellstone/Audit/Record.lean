import Tellstone.Lib.Utf8
import Tellstone.Rbac.Policy

/-! Audit records: what is written for an event, and what a replay reads back from a line. -/
namespace Tellstone.Audit
open ByteStream

inductive EventType where
  | connect
  | disconnect
  | authSuccess
  | authFailure
  | aclDeny
  | command
  deriving DecidableEq, Repr

def EventType.text : EventType → Bytes
  | connect => ascii "connect"
  | disconnect => ascii "disconnect"
  | authSuccess => ascii "auth_success"
  | authFailure => ascii "auth_failure"
  | aclDeny => ascii "acl_deny"
  | command => ascii "command"

inductive Key where
  | time
  | level
  | event
  | msg
  | user
  | remoteAddr
  | protocol
  | reason
  | command
  | key
  | shardID
  deriving DecidableEq, Repr

inductive Value where
  | str (s : Bytes)
  | int (i : Int)
  | uint (n : Nat)
  | bool (b : Bool)
  deriving DecidableEq, Repr

structure Field where
  key : Key
  value : Value
  deriving DecidableEq, Repr

abbrev Entry := Key → Option Value

def Entry.put (e : Entry) (f : Field) : Entry := fun k => if k = f.key then some f.value else e k

/-- The fields of a line that a replay looks at. -/
structure Record where
  time : Bytes
  event : Bytes
  user : Bytes
  remoteAddr : Bytes
  reason : Bytes
  command : Bytes
  key : Bytes
  deriving DecidableEq, Repr

/-- A missing key reads as empty, and a value of another type is refused. -/
def Entry.text (e : Entry) (k : Key) : Option Bytes :=
  match e k with
  | none => some []
  | some (.str s) => some (Utf8.sanitize s)
  | some _ => none

def Entry.record (e : Entry) : Option Record := do
  return ⟨← e.text .time, ← e.text .event, ← e.text .user, ← e.text .remoteAddr, ← e.text .reason,
    ← e.text .command, ← e.text .key⟩

/-- Code outside the repository: encoding/json and RFC 3339 times. -/
structure Codec where
  encode : Entry → Bytes
  valid : Bytes → Bool
  unmarshal : Bytes → Option Record
  formatTime : Nat → Bytes
  parseTime : Bytes → Option Nat

/-- What is encoded is valid and is read back, up to bytes that are no UTF-8. -/
structure Codec.Documented (J : Codec) : Prop where
  valid_encode (e : Entry) : J.valid (J.encode e) = true
  valid_nil : J.valid [] = false
  unmarshal_encode (e : Entry) : J.unmarshal (J.encode e) = e.record
  parse_format (t : Nat) : J.parseTime (J.formatTime t) = some t
  plain_time (t : Nat) : Utf8.valid (J.formatTime t) = true

def entryOf (J : Codec) (now : Nat) (event : EventType) (msg : Bytes) (fields : List Field) : Entry :=
  fields.foldl Entry.put fun
    | .time => some (.str (J.formatTime now))
    | .level => some (.str (ascii "AUDIT"))
    | .event => some (.str event.text)
    | .msg => some (.str msg)
    | _ => none

structure ReplayEntry where
  timestamp : Nat
  username : Bytes
  remoteAddr : Bytes
  reason : Bytes
  deriving DecidableEq, Repr

def decodeRecord (J : Codec) (data : Bytes) : Option ReplayEntry :=
  match J.unmarshal data with
  | none => none
  | some r =>
    if r.event = EventType.authFailure.text then
      (J.parseTime r.time).map fun ts => ⟨ts, r.user, r.remoteAddr, r.reason⟩
    else if r.event = EventType.aclDeny.text then
      (J.parseTime r.time).map fun ts =>
        ⟨ts, r.user, r.remoteAddr,
          ascii "NOPERM command=" ++ r.command ++ ascii " key=" ++ r.key⟩
    else none

def Codec.mark (s : Bytes) : Bytes := s.flatMap (fun b => [1, b]) ++ [0]

def Codec.unmark : Bytes → Option (Bytes × Bytes)
  | 1 :: b :: rest => (unmark rest).map fun (s, rest) => (b :: s, rest)
  | 0 :: rest => some ([], rest)
  | _ => none

theorem Codec.unmark_mark (s rest : Bytes) : unmark (mark s ++ rest) = some (s, rest) := by
  induction s with
  | nil => rfl
  | cons b s ih =>
    change unmark (1 :: b :: (mark s ++ rest)) = _
    rw [unmark, ih]
    rfl

def Codec.marked : Codec where
  encode e :=
    match e.record with
    | none => [0]
    | some r =>
      1 :: (mark r.time ++ mark r.event ++ mark r.user ++ mark r.remoteAddr ++ mark r.reason ++
        mark r.command ++ mark r.key)
  valid b := decide (b ≠ [])
  unmarshal
    | 1 :: rest => do
      let (time, rest) ← unmark rest
      let (event, rest) ← unmark rest
      let (user, rest) ← unmark rest
      let (remoteAddr, rest) ← unmark rest
      let (reason, rest) ← unmark rest
      let (command, rest) ← unmark rest
      let (key, _) ← unmark rest
      return ⟨time, event, user, remoteAddr, reason, command, key⟩
    | _ => none
  formatTime t := List.replicate t 48
  parseTime b := some b.length

theorem Codec.user_le_encode {e : Entry} {r : Record} (text : e.record = some r) :
    r.user.length ≤ (Codec.marked.encode e).length := by
  have announced : r.user.length ≤ (mark r.user).length := by
    simp [mark, List.length_flatMap]
    omega
  simp only [marked, text, List.length_cons, List.length_append]
  omega

theorem Codec.marked_documented : Codec.marked.Documented where
  valid_encode e := by
    simp only [marked, decide_eq_true_eq]
    split <;> exact List.cons_ne_nil _ _
  valid_nil := rfl
  unmarshal_encode e := by
    simp only [marked]
    cases e.record with
    | none => rfl
    | some r =>
      have last := unmark_mark r.key []
      rw [List.append_nil] at last
      simp only [List.append_assoc, last, unmark_mark, Option.pure_def, Option.bind_eq_bind,
        Option.bind_some]
  parse_format t := by simp [marked]
  plain_time t := Utf8.valid_of_ascii fun b mem => by
    rw [List.eq_of_mem_replicate mem]
    decide

end Tellstone.Audit
