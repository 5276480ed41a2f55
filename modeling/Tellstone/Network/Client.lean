import Tellstone.Network.Payload

/-! The client: its two ways to take a frame off a stream, and its calls, each of which sends a
request and reads one frame. -/
namespace Tellstone.Network
open ByteStream Cursor

/-- `outOfRange` is the run-time fault of slicing beyond the payload. -/
inductive StreamError where
  | zeroLength
  | bufferTooSmall
  | malformedFrame
  | outOfRange
  deriving DecidableEq, Repr

def readFields (data : Bytes) : Except StreamError Message :=
  let type := data.headD 0
  let raw := data.drop 1
  if type = MessageType.request.byte then
    if raw.length < 11 then .error .malformedFrame
    else
      let keyLen := uintBE ((raw.drop 1).take 2)
      if raw.length < 11 + keyLen then .error .malformedFrame
      else
        .ok {
          type := type
          op := raw.headD 0
          ttl := int64 (uintBE ((raw.drop 3).take 8))
          key := (raw.drop 11).take keyLen
          value := raw.drop (11 + keyLen)
          payload := raw }
  else .ok ⟨type, 0, 0, [], raw, raw⟩

/-- One frame into a buffer whose size is cut to 32 bits, and the rest of the stream. -/
def read (bufLen : Nat) (stream : Bytes) : Option (Except StreamError Message × Bytes) :=
  (readFull 4 stream).bind fun front =>
    let length := uintBE front.1
    if length = 0 then some (.error .zeroLength, front.2)
    else if bufLen % 2 ^ 32 < length then some (.error .bufferTooSmall, front.2)
    else (readFull length front.2).map fun body => (readFields body.1, body.2)

/-- What Unmarshal makes of the bytes behind the length. The key is sliced unchecked. -/
def unmarshalFields (data : Bytes) : Except StreamError Message :=
  let type := data.headD 0
  let raw := data.drop 1
  if type = MessageType.request.byte then
    if raw.length < 11 then .error .malformedFrame
    else
      let keyLen := uintBE ((raw.drop 1).take 2)
      match slice raw 11 (11 + keyLen) with
      | .error _ => .error .outOfRange
      | .ok key =>
        .ok {
          type := type
          op := raw.headD 0
          ttl := int64 (uintBE ((raw.drop 3).take 8))
          key := key
          value := raw.drop (11 + keyLen)
          payload := raw }
  else .ok ⟨type, 0, 0, [], raw, raw⟩

def unmarshal (stream : Bytes) : Option (Except StreamError Message × Bytes) :=
  (readFull 4 stream).bind fun front =>
    let length := uintBE front.1
    if length = 0 then some (.error .zeroLength, front.2)
    else (readFull length front.2).map fun body => (unmarshalFields body.1, body.2)

section
variable {type : UInt8} {payload : Bytes} {maxMsgSize bufLen : Nat}

theorem readFull_length (word : 1 + payload.length < 2 ^ 32) (rest : Bytes) :
    readFull 4 (frame type payload ++ rest) =
        some (putUintBE 4 (1 + payload.length), type :: payload ++ rest) ∧
      uintBE (putUintBE 4 (1 + payload.length)) = 1 + payload.length := by
  constructor
  · rw [frame, List.append_assoc, readFull_append _ (putUintBE_length 4 _)]
  · exact uintBE_putUintBE word

theorem readFull_body (rest : Bytes) :
    readFull (1 + payload.length) (type :: payload ++ rest) = some (type :: payload, rest) :=
  readFull_append rest (by rw [List.length_cons, Nat.add_comm])

theorem read_frame (word : 1 + payload.length < 2 ^ 32) (fits : 1 + payload.length ≤ bufLen % 2 ^ 32)
    (rest : Bytes) :
    read bufLen (frame type payload ++ rest) = some (readFields (type :: payload), rest) := by
  obtain ⟨front, length⟩ := @readFull_length type payload word rest
  rw [read, front, Option.bind_some]
  simp only [length]
  rw [if_neg (by omega), if_neg (by omega), readFull_body, Option.map_some]

theorem read_small (word : 1 + payload.length < 2 ^ 32) (small : bufLen % 2 ^ 32 < 1 + payload.length)
    (rest : Bytes) :
    read bufLen (frame type payload ++ rest) =
      some (.error .bufferTooSmall, type :: payload ++ rest) := by
  obtain ⟨front, length⟩ := @readFull_length type payload word rest
  rw [read, front, Option.bind_some]
  simp only [length]
  rw [if_neg (by omega), if_pos small]

theorem unmarshal_frame (word : 1 + payload.length < 2 ^ 32) (rest : Bytes) :
    unmarshal (frame type payload ++ rest) = some (unmarshalFields (type :: payload), rest) := by
  obtain ⟨front, length⟩ := @readFull_length type payload word rest
  rw [unmarshal, front, Option.bind_some]
  simp only [length]
  rw [if_neg (by omega), readFull_body, Option.map_some]

theorem decode_whole (word : 1 + payload.length < 2 ^ 32) (legal : 1 + payload.length ≤ maxMsgSize) :
    decode (frame type payload) maxMsgSize =
      (framed type payload).map fun msg => (payload.length, msg) := by
  have size : (frame type payload).length = 1 + payload.length + 4 := by
    rw [frame_length]
    omega
  have length : uintBE ((frame type payload).take 4) = 1 + payload.length := by
    rw [frame, List.take_left' (putUintBE_length 4 _), uintBE_putUintBE word]
  have tag : (frame type payload).getD 4 0 = type := by
    simp [frame, List.getD_eq_getElem?_getD]
  have body : ((frame type payload).drop 5).take payload.length = payload := by
    have header : frame type payload = (putUintBE 4 (1 + payload.length) ++ [type]) ++ payload := by
      simp [frame]
    rw [header, List.drop_left' (by simp), List.take_length]
  simp only [decode, length, size, tag, Nat.add_sub_cancel_left, body, Nat.lt_irrefl, if_false]
  rw [if_neg (by omega), if_neg (by omega), if_neg (by omega), framed]
  by_cases empty : payload = []
  · rw [if_pos empty, if_pos (List.length_eq_zero_iff.mpr empty), empty]
    rfl
  · rw [if_neg empty, if_neg (fun none => empty (List.length_eq_zero_iff.mp none)),
      if_neg (by omega)]

end

/-- All three take the same message or refuse the frame, and none slices out of range. -/
def Agree (type : UInt8) (payload : Bytes) (maxMsgSize bufLen : Nat) : Prop :=
  let whole := frame type payload
  (∃ msg, decode whole maxMsgSize = .ok (payload.length, msg) ∧
    read bufLen whole = some (.ok msg, []) ∧ unmarshal whole = some (.ok msg, [])) ∨
  ∃ decodeErr readErr unmarshalErr, decode whole maxMsgSize = .error decodeErr ∧
    read bufLen whole = some (.error readErr, []) ∧
    unmarshal whole = some (.error unmarshalErr, []) ∧
    decodeErr ≠ .outOfRange ∧ readErr ≠ .outOfRange ∧ unmarshalErr ≠ .outOfRange

/-- A request without a payload, or with a key that is announced longer than it is. -/
def Divisive (type : UInt8) (payload : Bytes) : Prop :=
  type = MessageType.request.byte ∧
    (payload = [] ∨
      11 ≤ payload.length ∧ payload.length < 11 + uintBE ((payload.drop 1).take 2))

section
variable {type : UInt8} {payload : Bytes} {maxMsgSize bufLen : Nat}

theorem agree_iff (word : 1 + payload.length < 2 ^ 32) (legal : 1 + payload.length ≤ maxMsgSize)
    (fits : 1 + payload.length ≤ bufLen % 2 ^ 32) :
    Agree type payload maxMsgSize bufLen ↔
      (∃ msg, framed type payload = .ok msg ∧ readFields (type :: payload) = .ok msg ∧
        unmarshalFields (type :: payload) = .ok msg) ∨
      ∃ decodeErr readErr unmarshalErr, framed type payload = .error decodeErr ∧
        readFields (type :: payload) = .error readErr ∧
        unmarshalFields (type :: payload) = .error unmarshalErr ∧
        decodeErr ≠ .outOfRange ∧ readErr ≠ .outOfRange ∧ unmarshalErr ≠ .outOfRange := by
  have reads := @read_frame type payload bufLen word fits []
  have unmarshals := @unmarshal_frame type payload word []
  rw [List.append_nil] at reads unmarshals
  simp only [Agree, decode_whole word legal, reads, unmarshals]
  cases framed type payload <;> simp [Except.map]

theorem fields_other (other : type ≠ MessageType.request.byte) :
    framed type payload = .ok ⟨type, 0, 0, [], payload, payload⟩ ∧
      readFields (type :: payload) = .ok ⟨type, 0, 0, [], payload, payload⟩ ∧
      unmarshalFields (type :: payload) = .ok ⟨type, 0, 0, [], payload, payload⟩ := by
  refine ⟨?_, if_neg other, if_neg other⟩
  rw [framed]
  split
  · rename_i empty
    rw [empty]
  · exact if_neg other

theorem fields_short (request : type = MessageType.request.byte) (short : payload.length < 11) :
    readFields (type :: payload) = .error .malformedFrame ∧
      unmarshalFields (type :: payload) = .error .malformedFrame := by
  constructor
  · simp only [readFields, List.headD_cons, List.drop_succ_cons, List.drop_zero, if_pos request,
      if_pos short]
  · simp only [unmarshalFields, List.headD_cons, List.drop_succ_cons, List.drop_zero,
      if_pos request, if_pos short]

theorem fields_overrun (request : type = MessageType.request.byte) (enough : 11 ≤ payload.length)
    (overrun : payload.length < 11 + uintBE ((payload.drop 1).take 2)) :
    unmarshalFields (type :: payload) = .error .outOfRange := by
  simp only [unmarshalFields, List.headD_cons, List.drop_succ_cons, List.drop_zero,
    if_pos request, if_neg (Nat.not_lt.mpr enough), slice]
  rw [if_neg (by omega)]

theorem fields_whole (request : type = MessageType.request.byte) (enough : 11 ≤ payload.length)
    (whole : 11 + uintBE ((payload.drop 1).take 2) ≤ payload.length) :
    ∃ msg, framed type payload = .ok msg ∧ readFields (type :: payload) = .ok msg ∧
      unmarshalFields (type :: payload) = .ok msg := by
  have some : payload ≠ [] := by
    intro none
    rw [none] at enough
    exact absurd enough (by decide)
  simp only [framed, if_neg some, decodePayload, readFields, unmarshalFields, List.headD_cons,
    List.drop_succ_cons, List.drop_zero, if_pos request, if_neg (Nat.not_lt.mpr enough),
    if_neg (Nat.not_lt.mpr whole), slice_ok (Nat.le_add_right _ _) whole, Nat.add_sub_cancel_left]
  exact ⟨_, rfl, rfl, rfl⟩

/-- The decoders agree on a whole frame just if it is not one of two kinds of requests. -/
theorem decoders_agree_iff (word : 1 + payload.length < 2 ^ 32)
    (legal : 1 + payload.length ≤ maxMsgSize) (fits : 1 + payload.length ≤ bufLen % 2 ^ 32) :
    Agree type payload maxMsgSize bufLen ↔ ¬ Divisive type payload := by
  rw [agree_iff word legal fits, Divisive]
  by_cases request : type = MessageType.request.byte
  swap
  · exact ⟨fun _ divisive => request divisive.1, fun _ => Or.inl ⟨_, fields_other request⟩⟩
  by_cases short : payload.length < 11
  · obtain ⟨reads, unmarshals⟩ := fields_short request short
    by_cases empty : payload = []
    · have accepted : framed type payload = .ok ⟨type, 0, 0, [], [], []⟩ := if_pos empty
      rw [reads, accepted]
      constructor
      · rintro (⟨msg, -, refused, -⟩ | ⟨_, _, _, refused, -⟩)
        · cases refused
        · cases refused
      · intro united
        exact absurd ⟨request, Or.inl empty⟩ united
    · have refused : framed type payload = .error .malformedFrame := by
        rw [framed, if_neg empty, decodePayload, if_pos request, if_pos short]
      constructor
      · rintro - ⟨-, none | ⟨enough, -⟩⟩
        · exact empty none
        · omega
      · intro _
        exact Or.inr ⟨_, _, _, refused, reads, unmarshals, by decide, by decide, by decide⟩
  · have enough := Nat.le_of_not_lt short
    by_cases overrun : payload.length < 11 + uintBE ((payload.drop 1).take 2)
    · rw [fields_overrun request enough overrun]
      constructor
      · rintro (⟨msg, -, -, refused⟩ | ⟨_, _, _, -, -, fault, -, -, other⟩)
        · cases refused
        · exact absurd (Except.error.inj fault).symm other
      · intro united
        exact absurd ⟨request, Or.inr ⟨enough, overrun⟩⟩ united
    · constructor
      · rintro - ⟨-, none | ⟨-, longer⟩⟩
        · rw [none] at enough
          exact absurd enough (by decide)
        · exact overrun longer
      · intro _
        exact Or.inl (fields_whole request enough (Nat.le_of_not_lt overrun))

end

theorem decoders_agree_iff_response : Agree MessageType.response.byte (ascii "OK") 64 64 :=
  (decoders_agree_iff (by decide) (by decide) (by decide)).mpr (by
    intro divisive
    exact absurd divisive.1 (by decide))

def overrunning : Bytes := [1, 0, 1, 0, 0, 0, 0, 0, 0, 0, 0]

/-- An empty request is taken by Decode only, and a key that overruns makes Unmarshal fault. -/
theorem decoders_disagree :
    ¬ Agree MessageType.request.byte [] 64 64 ∧
    unmarshal (frame MessageType.request.byte overrunning) = some (.error .outOfRange, []) ∧
    ¬ Agree MessageType.request.byte overrunning 64 64 := by
  have accepted : decode (frame MessageType.request.byte []) 64 = .ok (0, ⟨2, 0, 0, [], [], []⟩) := by
    decide
  have refused : read 64 (frame MessageType.request.byte []) =
      some (.error .malformedFrame, []) := by decide
  have faults : unmarshal (frame MessageType.request.byte overrunning) =
      some (.error .outOfRange, []) := by decide
  refine ⟨?_, faults, ?_⟩
  · rintro (⟨msg, -, reads, -⟩ | ⟨_, _, _, decodes, -⟩)
    · rw [refused] at reads
      cases reads
    · rw [accepted] at decodes
      cases decodes
  · rintro (⟨msg, -, -, unmarshals⟩ | ⟨_, _, _, -, -, unmarshals, -, -, other⟩)
    · rw [faults] at unmarshals
      cases unmarshals
    · rw [faults] at unmarshals
      cases unmarshals
      exact other rfl

/-- What fails a call: it was not sent, no frame was read, or the server refuses. -/
inductive ClientError where
  | requestTooLarge
  | credentialsTooLong
  | read (err : StreamError)
  | server (text : Bytes)
  | authFailed (text : Bytes)
  deriving DecidableEq, Repr

/-- `call` is what the other calls are made of. -/
inductive ClientOp where
  | call (type : MessageType) (payload : Bytes)
  | get (key : Bytes)
  | delete (key : Bytes)
  | set (key value : Bytes) (ttl : Int)
  | auth (password : Bytes)
  | authUser (username password : Bytes)

namespace ClientOp

def keyed (room : Nat) (op : UInt8) (key value : Bytes) (ttl : Int) :
    Except ClientError (MessageType × Bytes) :=
  let payload := op :: putUintBE 2 key.length ++ putUintBE 8 (word64 ttl) ++ key ++ value
  if room < payload.length then .error .requestTooLarge else .ok (.request, payload)

def request : ClientOp → Except ClientError (MessageType × Bytes)
  | call type payload => .ok (type, payload)
  | get key => keyed 512 1 key [] 0
  | delete key => keyed 512 3 key [] 0
  | set key value ttl => keyed 2048 2 key value ttl
  | auth password =>
    if maxUint16 < password.length then .error .credentialsTooLong
    else .ok (.auth, putUintBE 2 0 ++ putUintBE 2 password.length ++ password)
  | authUser username password =>
    match authUserPayload username password with
    | none => .error .credentialsTooLong
    | some payload => .ok (.auth, payload)

/-- What becomes of the frame that was read: the message, its value, or an error. -/
def result : ClientOp → Message → Except ClientError (Message ⊕ Bytes)
  | call _ _, resp => .ok (.inl resp)
  | get _, resp | delete _, resp | set _ _ _, resp =>
    if resp.hasType .error then .error (.server resp.value) else .ok (.inr resp.value)
  | auth _, resp | authUser _ _, resp =>
    if resp.hasType .authOk then .ok (.inr []) else .error (.authFailed resp.value)

end ClientOp

/-- A call with its scratch buffer, and the frame that the server would answer. -/
structure ClientCall where
  op : ClientOp
  bufLen : Nat
  type : UInt8
  payload : Bytes
  word : 1 + payload.length < 2 ^ 32

namespace ClientCall

def own (c : ClientCall) : Except ClientError (Message ⊕ Bytes) :=
  match readFields (c.type :: c.payload) with
  | .error err => .error (.read err)
  | .ok resp => c.op.result resp

/-- The outcome, and what is left of the stream. Nothing if the call waits for ever. -/
def run (c : ClientCall) (stream : Bytes) : Option (Except ClientError (Message ⊕ Bytes) × Bytes) :=
  match c.op.request with
  | .error err => some (.error err, stream)
  | .ok _ =>
    (read c.bufLen (stream ++ frame c.type c.payload)).map fun taken =>
      (match taken.1 with
        | .error err => .error (.read err)
        | .ok resp => c.op.result resp, taken.2)

def runAll : Bytes → List ClientCall → List (Except ClientError (Message ⊕ Bytes))
  | _, [] => []
  | stream, c :: calls =>
    match c.run stream with
    | none => []
    | some taken => taken.1 :: runAll taken.2 calls

def leftover : Bytes → List ClientCall → Option Bytes
  | stream, [] => some stream
  | stream, c :: calls => (c.run stream).bind fun taken => leftover taken.2 calls

def Roomy (c : ClientCall) : Prop :=
  c.op.request.isOk = true → 1 + c.payload.length ≤ c.bufLen % 2 ^ 32

theorem run_nil (c : ClientCall) :
    ∃ outcome rest, c.run [] = some (outcome, rest) ∧ (∀ v, outcome = .ok v → c.own = .ok v) ∧
      (rest = [] ↔ c.Roomy) := by
  rw [run, Roomy]
  cases sent : c.op.request with
  | error err =>
    refine ⟨_, _, rfl, fun v returned => ?_, fun _ sent => ?_, fun _ => rfl⟩
    · cases returned
    · cases sent
  | ok message =>
    have taken := @read_frame c.type c.payload c.bufLen c.word
    have left := @read_small c.type c.payload c.bufLen c.word
    rw [List.nil_append, ← List.append_nil (frame c.type c.payload)]
    by_cases fits : 1 + c.payload.length ≤ c.bufLen % 2 ^ 32
    · rw [taken fits]
      exact ⟨c.own, [], rfl, fun v returned => returned, fun _ _ => fits, fun _ => rfl⟩
    · rw [left (Nat.lt_of_not_le fits)]
      refine ⟨.error (.read .bufferTooSmall), _, rfl, fun v returned => ?_, fun none => ?_, ?_⟩
      · cases returned
      · cases none
      · intro roomy
        exact absurd (roomy rfl) fits

theorem leftover_nil_iff (calls : List ClientCall) :
    (∀ k, leftover [] (calls.take k) = some []) ↔ ∀ c ∈ calls, c.Roomy := by
  induction calls with
  | nil => simp [leftover]
  | cons c calls ih =>
    obtain ⟨outcome, rest, ran, -, empty⟩ := c.run_nil
    have step (k : Nat) : leftover [] ((c :: calls).take (k + 1)) = leftover rest (calls.take k) := by
      rw [List.take_succ_cons, leftover, ran, Option.bind_some]
    rw [List.forall_mem_cons, ← empty, ← ih]
    constructor
    · intro nothing
      have first := nothing 1
      rw [step 0, List.take_zero, leftover] at first
      have none : rest = [] := Option.some.inj first
      refine ⟨none, fun k => ?_⟩
      rw [← none, ← step k, none]
      exact nothing (k + 1)
    · rintro ⟨none, others⟩ k
      cases k with
      | zero => rfl
      | succ k =>
        rw [step, none]
        exact others k

theorem runAll_own {calls : List ClientCall} {i : Nat} {c : ClientCall}
    (called : calls[i]? = some c) (roomy : ∀ earlier ∈ calls.take i, earlier.Roomy) :
    ∃ outcome, (runAll [] calls)[i]? = some outcome ∧ ∀ v, outcome = .ok v → c.own = .ok v := by
  induction calls generalizing i with
  | nil => cases called
  | cons first calls ih =>
    obtain ⟨outcome, rest, ran, own, empty⟩ := first.run_nil
    cases i with
    | zero =>
      cases called
      refine ⟨outcome, ?_, own⟩
      rw [runAll, ran, List.getElem?_cons_zero]
    | succ i =>
      rw [List.take_succ_cons, List.forall_mem_cons] at roomy
      have none := empty.mpr roomy.1
      rw [runAll, ran, List.getElem?_cons_succ, none]
      exact ih called roomy.2

end ClientCall

/-- The stream is at the start of a frame before every call just if each buffer had room; and a
call before which that was so returns, if without error the response to its own request. -/
theorem client_in_step (calls : List ClientCall) :
    ((∀ k, ClientCall.leftover [] (calls.take k) = some []) ↔ ∀ c ∈ calls, c.Roomy) ∧
    ∀ i c, calls[i]? = some c → (∀ earlier ∈ calls.take i, earlier.Roomy) →
      ∃ outcome, (ClientCall.runAll [] calls)[i]? = some outcome ∧
        ∀ v, outcome = .ok v → c.own = .ok v :=
  ⟨ClientCall.leftover_nil_iff calls, fun _ _ => ClientCall.runAll_own⟩

def getAnswered (key : Bytes) (bufLen : Nat) (value : Bytes)
    (word : 1 + value.length < 2 ^ 32) : ClientCall :=
  ⟨.get key, bufLen, MessageType.response.byte, value, word⟩

theorem client_in_step_two :
    (ClientCall.runAll [] [getAnswered [97] 64 (ascii "one") (by decide),
      getAnswered [98] 1 (ascii "two") (by decide)])[1]? =
        some (.error (.read .bufferTooSmall)) ∧
    ∃ outcome, (ClientCall.runAll [] [getAnswered [97] 64 (ascii "one") (by decide),
      getAnswered [98] 1 (ascii "two") (by decide)])[1]? = some outcome ∧
        ∀ v, outcome = .ok v →
          (getAnswered [98] 1 (ascii "two") (by decide)).own = .ok v := by
  refine ⟨by decide, (client_in_step _).2 1 _ rfl ?_⟩
  intro earlier mem
  rw [List.take_succ_cons, List.take_zero, List.mem_singleton] at mem
  subst mem
  exact fun _ => by decide

def planted : Bytes := [0, 0, 0] ++ frame MessageType.response.byte (ascii "evil")

/-- A value does not fit its buffer. Its rest is read as a length by the second call and as a
response by the third. -/
theorem client_mistaken :
    let third := getAnswered [99] 64 (ascii "three") (by decide)
    (ClientCall.runAll [] [getAnswered [97] 4 planted (by decide),
      getAnswered [98] 64 (ascii "two") (by decide), third])[2]? =
        some (.ok (.inr (ascii "evil"))) ∧
    third.own = .ok (.inr (ascii "three")) := by
  decide

end Tellstone.Network
