import Tellstone.Command

/-! The frames of the binary protocol: a length, a type byte and a payload. -/
namespace Tellstone.Network
open ByteStream

inductive MessageType where
  | ping
  | pong
  | request
  | response
  | auth
  | authOk
  | authErr
  | error
  deriving DecidableEq, Repr

def MessageType.byte : MessageType → UInt8
  | ping => 0
  | pong => 1
  | request => 2
  | response => 3
  | auth => 4
  | authOk => 5
  | authErr => 6
  | error => 7

inductive OpCode where
  | get
  | set
  | delete
  | roleCreate
  | roleSetUser
  | roleDelUser
  | roleDelete
  | roleList
  | roleGetUser
  | aclSetUser
  | aclDelUser
  | aclList
  | aclLog
  deriving DecidableEq, Repr

namespace OpCode

def ofByte : UInt8 → Option OpCode
  | 1 => some get
  | 2 => some set
  | 3 => some delete
  | 4 => some roleCreate
  | 5 => some roleSetUser
  | 6 => some roleDelUser
  | 7 => some roleDelete
  | 8 => some roleList
  | 9 => some roleGetUser
  | 10 => some aclSetUser
  | 11 => some aclDelUser
  | 12 => some aclList
  | 13 => some aclLog
  | _ => none

def name : Option OpCode → Bytes
  | some get => ascii "GET"
  | some set => ascii "SET"
  | some delete => ascii "DELETE"
  | some roleCreate => ascii "ROLE CREATE"
  | some roleSetUser => ascii "ROLE SETUSER"
  | some roleDelUser => ascii "ROLE DELUSER"
  | some roleDelete => ascii "ROLE DELETE"
  | some roleList => ascii "ROLE LIST"
  | some roleGetUser => ascii "ROLE GETUSER"
  | some aclSetUser => ascii "ACL SETUSER"
  | some aclDelUser => ascii "ACL DELUSER"
  | some aclList => ascii "ACL LIST"
  | some aclLog => ascii "ACL LOG"
  | none => ascii "UNKNOWN"

end OpCode

/-- A decoded frame. Type and op are the bytes of the wire, known or not. -/
structure Message where
  type : UInt8
  op : UInt8
  ttl : Int
  key : Bytes
  value : Bytes
  payload : Bytes
  deriving DecidableEq, Repr

namespace Message

def hasType (m : Message) (t : MessageType) : Bool := decide (m.type = t.byte)

def opCode (m : Message) : Option OpCode := OpCode.ofByte m.op

end Message

def responseOK : Bytes := ascii "OK"

def responseNotFound : Bytes := ascii "NOT_FOUND"

def responseEmptyKey : Bytes := ascii "EMPTY_KEY"

def responseStorageFailure : Bytes := ascii "STORAGE_FAILURE"

def responseInvalidOpCode : Bytes := ascii "INVALID_OPCODE"

def responseAuthErr : Bytes := ascii "INVALID_AUTH"

def responseNotAuthorized : Bytes := ascii "NOT_AUTHORIZED"

/-- What a frame is answered with. A nil payload stands for no answer at all. -/
structure Answer where
  payload : Option Bytes
  type : MessageType
  deriving DecidableEq, Repr

def binaryReply : Command.Reply → Answer
  | .ok => ⟨some responseOK, .response⟩
  | .bulk b => ⟨some b, .response⟩
  | .null => ⟨some responseNotFound, .error⟩
  | .int _ => ⟨some responseOK, .response⟩
  | .denied _ => ⟨some responseNotAuthorized, .error⟩
  | .errorMsg text => ⟨some text, .error⟩
  | .storageErr _ => ⟨some responseStorageFailure, .error⟩

theorem isError_of_binaryReply {reply : Command.Reply}
    (accepted : (binaryReply reply).type ≠ .error) : reply.isError = false := by
  cases reply with
  | denied cmd => exact absurd rfl accepted
  | errorMsg text => exact absurd rfl accepted
  | storageErr err => exact absurd rfl accepted
  | _ => rfl

def putUintBE (w n : Nat) : Bytes := (putUint w n).reverse

/-- A frame in a slice of its own. A request is put together from its fields. -/
def Message.marshal (m : Message) : Bytes :=
  let payload :=
    if m.hasType .request then
      m.op :: putUintBE 2 m.key.length ++ putUintBE 8 (word64 m.ttl) ++ m.key ++ m.value
    else m.payload
  putUintBE 4 (1 + payload.length) ++ m.type :: payload

def writeFastPathMax : Nat := 512

/-- The writes of one frame: header and payload at once, or one after the other. -/
def writes (type : UInt8) (payload : Bytes) : List Bytes :=
  let header := putUintBE 4 (1 + payload.length) ++ [type]
  if payload.length ≤ writeFastPathMax then [header ++ payload] else [header, payload]

/-- `outOfRange` is the run-time fault of slicing beyond the buffer. -/
inductive DecodeError where
  | shortRead
  | tooLong
  | zeroLength
  | malformedFrame
  | outOfRange
  deriving DecidableEq, Repr

def uintBE (bs : Bytes) : Nat := uint bs.reverse

def decodePayload (type : UInt8) (raw : Bytes) : Except DecodeError Message :=
  if type = MessageType.request.byte then
    if raw.length < 11 then .error .malformedFrame
    else
      let keyLen := uintBE ((raw.drop 1).take 2)
      if raw.length < 11 + keyLen then .error .malformedFrame
      else
        .ok {
          type := type
          op := raw.headD 0
          ttl := int64 (uintBE ((raw.drop 3).take 8))
          key := (raw.drop 11).take keyLen
          value := raw.drop (11 + keyLen)
          payload := raw }
  else .ok ⟨type, 0, 0, [], raw, raw⟩

/-- The buffer length and the end of the frame are compared as 32-bit integers. -/
def decode (data : Bytes) (maxMsgSize : Nat) : Except DecodeError (Nat × Message) :=
  if data.length < 5 then .error .shortRead
  else
    let length := uintBE (data.take 4)
    if length = 0 then .error .zeroLength
    else if maxMsgSize < length then .error .tooLong
    else if data.length % 2 ^ 32 < (length + 4) % 2 ^ 32 then .error .shortRead
    else
      let type := data.getD 4 0
      let payloadLen := length - 1
      if payloadLen = 0 then .ok (0, ⟨type, 0, 0, [], [], []⟩)
      else if data.length < 5 + payloadLen then .error .outOfRange
      else (decodePayload type ((data.drop 5).take payloadLen)).map fun msg => (payloadLen, msg)

end Tellstone.Network
