import Tellstone.Network.Server

/-! Decode reads back what Marshal writes, and Write sends the same bytes. -/
namespace Tellstone.Network
open ByteStream

@[simp] theorem putUintBE_length (w n : Nat) : (putUintBE w n).length = w := by
  simp [putUintBE]

theorem uintBE_putUintBE {w n : Nat} (small : n < 256 ^ w) : uintBE (putUintBE w n) = n := by
  rw [uintBE, putUintBE, List.reverse_reverse, uint_putUint_of_lt small]

def frame (type : UInt8) (payload : Bytes) : Bytes :=
  putUintBE 4 (1 + payload.length) ++ type :: payload

@[simp] theorem frame_length (type : UInt8) (payload : Bytes) :
    (frame type payload).length = 5 + payload.length := by
  simp [frame]
  omega

def Message.body (m : Message) : Bytes :=
  m.op :: putUintBE 2 m.key.length ++ putUintBE 8 (word64 m.ttl) ++ m.key ++ m.value

theorem Message.body_length (m : Message) :
    m.body.length = 11 + m.key.length + m.value.length := by
  simp [body]
  omega

theorem Message.marshal_request {m : Message} (request : m.type = MessageType.request.byte) :
    m.marshal = frame m.type m.body := by
  simp [marshal, hasType, request, frame, body]

theorem Message.marshal_other {m : Message} (other : m.type ≠ MessageType.request.byte) :
    m.marshal = frame m.type m.payload := by
  simp [marshal, hasType, other, frame]

theorem writes_flatten (type : UInt8) (payload : Bytes) :
    (writes type payload).flatten = frame type payload := by
  unfold writes
  simp only
  split <;> simp [frame]

theorem decode_legal {data : Bytes} {n maxMsgSize : Nat} (long : 5 ≤ data.length)
    (length : uintBE (data.take 4) = n + 1) (legal : n + 1 ≤ maxMsgSize)
    (small : n + 1 < 2 ^ 32 - 4) (fits : data.length < 2 ^ 32) :
    decode data maxMsgSize =
      if data.length < n + 5 then .error .shortRead
      else if n = 0 then .ok (0, ⟨data.getD 4 0, 0, 0, [], [], []⟩)
      else (decodePayload (data.getD 4 0) ((data.drop 5).take n)).map fun msg => (n, msg) := by
  have wrap : (n + 1 + 4) % 2 ^ 32 = n + 5 := Nat.mod_eq_of_lt (by omega)
  simp only [decode, length, Nat.mod_eq_of_lt fits, wrap, Nat.add_sub_cancel]
  rw [if_neg (by omega), if_neg (by omega), if_neg (by omega)]
  by_cases short : data.length < n + 5
  · rw [if_pos short, if_pos short]
  · rw [if_neg short, if_neg short, if_neg (by omega : ¬ data.length < 5 + n)]

section
variable {type : UInt8} {payload : Bytes} {maxMsgSize : Nat}

theorem frame_take (type : UInt8) (later : Bytes) (small : 1 + payload.length < 2 ^ 32) :
    uintBE ((frame type payload ++ later).take 4) = payload.length + 1 := by
  rw [frame, List.append_assoc, List.take_left' (putUintBE_length 4 _), uintBE_putUintBE small,
    Nat.add_comm]

theorem decode_cut {front : Bytes} (start : front <+: frame type payload)
    (cut : front ≠ frame type payload) (legal : 1 + payload.length ≤ maxMsgSize)
    (small : 1 + payload.length < 2 ^ 32 - 4) : decode front maxMsgSize = .error .shortRead := by
  have shorter : front.length < 5 + payload.length := by
    rw [← frame_length type payload]
    exact Nat.lt_of_le_of_ne start.length_le fun same => cut (start.eq_of_length same)
  by_cases long : 5 ≤ front.length
  · have length : uintBE (front.take 4) = payload.length + 1 := by
      obtain ⟨back, whole⟩ := start
      have read := frame_take type [] (by omega : 1 + payload.length < 2 ^ 32)
      rwa [List.append_nil, ← whole, List.take_append_of_le_length (by omega)] at read
    rw [decode_legal long length (by omega) (by omega) (by omega), if_pos (by omega)]
  · rw [decode, if_pos (by omega)]

def framed (type : UInt8) (payload : Bytes) : Except DecodeError Message :=
  if payload = [] then .ok ⟨type, 0, 0, [], [], []⟩ else decodePayload type payload

theorem decode_frame (rest : Bytes) (legal : 1 + payload.length ≤ maxMsgSize)
    (small : 1 + payload.length < 2 ^ 32 - 4)
    (fits : (frame type payload ++ rest).length < 2 ^ 32) :
    decode (frame type payload ++ rest) maxMsgSize =
      (framed type payload).map fun msg => (payload.length, msg) := by
  have size : (frame type payload ++ rest).length = 5 + payload.length + rest.length := by simp
  have body : ((frame type payload ++ rest).drop 5).take payload.length = payload := by
    have header : frame type payload ++ rest =
        (putUintBE 4 (1 + payload.length) ++ [type]) ++ (payload ++ rest) := by simp [frame]
    rw [header, List.drop_left' (by simp), List.take_left]
  have tag : (frame type payload ++ rest).getD 4 0 = type := by
    simp [frame, List.getD_eq_getElem?_getD]
  rw [decode_legal (by omega) (frame_take type rest (by omega)) (by omega) (by omega) fits,
    if_neg (by omega), body, tag, framed]
  by_cases empty : payload = []
  · rw [if_pos empty, if_pos (List.length_eq_zero_iff.mpr empty), empty]
    rfl
  · rw [if_neg empty, if_neg (fun none => empty (List.length_eq_zero_iff.mp none))]

end

theorem decodePayload_body {m : Message} (request : m.type = MessageType.request.byte)
    (key : m.key.length ≤ 65535) (ttl : -2 ^ 63 ≤ m.ttl ∧ m.ttl < 2 ^ 63) :
    decodePayload m.type m.body = .ok { m with payload := m.body } := by
  have size := m.body_length
  have keyLen : uintBE ((m.body.drop 1).take 2) = m.key.length := by
    rw [show m.body.drop 1 = putUintBE 2 m.key.length ++
        (putUintBE 8 (word64 m.ttl) ++ (m.key ++ m.value)) by simp [Message.body],
      List.take_left' (putUintBE_length 2 _), uintBE_putUintBE (by omega)]
  have ttlWord : uintBE ((m.body.drop 3).take 8) = word64 m.ttl := by
    rw [show m.body = (m.op :: putUintBE 2 m.key.length) ++
        (putUintBE 8 (word64 m.ttl) ++ (m.key ++ m.value)) by simp [Message.body],
      List.drop_left' (by simp), List.take_left' (putUintBE_length 8 _),
      uintBE_putUintBE (word64_lt _)]
  have fields : m.body.drop 11 = m.key ++ m.value := by
    rw [show m.body = (m.op :: putUintBE 2 m.key.length ++ putUintBE 8 (word64 m.ttl)) ++
        (m.key ++ m.value) by simp [Message.body], List.drop_left' (by simp)]
  have value : m.body.drop (11 + m.key.length) = m.value := by
    rw [← List.drop_drop, fields, List.drop_left]
  have op : m.body.headD 0 = m.op := rfl
  simp only [decodePayload, request, ↓reduceIte, keyLen, ttlWord, fields, value, op, size,
    List.take_left, int64_word64 ttl.1 ttl.2]
  rw [if_neg (by omega), if_neg (by omega)]

/-- Decode after Marshal gives the fields back and skips exactly the frame, a cut frame is waited
for, and Write sends the bytes of Marshal. -/
theorem decode_marshal :
    (∀ (m : Message) (maxMsgSize : Nat), m.type = MessageType.request.byte →
      m.key.length ≤ 65535 → -2 ^ 63 ≤ m.ttl ∧ m.ttl < 2 ^ 63 →
      12 + m.key.length + m.value.length ≤ maxMsgSize →
      12 + m.key.length + m.value.length < 2 ^ 32 - 4 →
      (∀ rest, (m.marshal ++ rest).length < 2 ^ 32 →
        ∃ payloadLen msg, decode (m.marshal ++ rest) maxMsgSize = .ok (payloadLen, msg) ∧
          msg.op = m.op ∧ msg.ttl = m.ttl ∧ msg.key = m.key ∧ msg.value = m.value ∧
          5 + payloadLen = m.marshal.length) ∧
      ∀ front, front <+: m.marshal → front ≠ m.marshal →
        decode front maxMsgSize = .error .shortRead) ∧
    ∀ m : Message, m.type ≠ MessageType.request.byte →
      (writes m.type m.payload).flatten = m.marshal := by
  constructor
  · intro m maxMsgSize request key ttl legal small
    have full : m.body ≠ [] := List.cons_ne_nil _ _
    have size := m.body_length
    have legal : 1 + m.body.length ≤ maxMsgSize := by omega
    have small : 1 + m.body.length < 2 ^ 32 - 4 := by omega
    rw [Message.marshal_request request]
    constructor
    · intro rest fits
      refine ⟨m.body.length, { m with payload := m.body }, ?_, rfl, rfl, rfl, rfl, ?_⟩
      · rw [decode_frame rest legal small fits, framed, if_neg full,
          decodePayload_body request key ttl]
        rfl
      · rw [frame_length]
    · intro front start cut
      exact decode_cut start cut legal small
  · intro m other
    rw [Message.marshal_other other, writes_flatten]

theorem decode_marshal_set :
    let m : Message := ⟨2, 2, -1, [107], [0, 0, 0, 1], []⟩
    (∃ payloadLen msg, decode (m.marshal ++ [0]) 64 = .ok (payloadLen, msg) ∧
      msg.op = 2 ∧ msg.ttl = -1 ∧ msg.key = [107] ∧ msg.value = [0, 0, 0, 1] ∧
      5 + payloadLen = m.marshal.length) ∧
    decode (m.marshal.take 20) 64 = .error .shortRead ∧
    (writes 3 (ascii "OK")).flatten = (⟨3, 0, 0, [], [], ascii "OK"⟩ : Message).marshal := by
  obtain ⟨requests, others⟩ := decode_marshal
  obtain ⟨whole, cut⟩ := requests ⟨2, 2, -1, [107], [0, 0, 0, 1], []⟩ 64 rfl (by decide) (by decide)
    (by decide) (by decide)
  exact ⟨whole [0] (by decide), cut _ (List.take_prefix 20 _) (by decide),
    others ⟨3, 0, 0, [], [], ascii "OK"⟩ (by decide)⟩

/-- It fails for a reason of its own, or what it hands out lies in the buffer. -/
def InBounds (data : Bytes) : Except DecodeError (Nat × Message) → Prop
  | .error err => err ≠ .outOfRange
  | .ok (payloadLen, msg) =>
    5 + payloadLen ≤ data.length ∧ msg.payload <:+: data ∧ msg.key <:+: data ∧ msg.value <:+: data

/-- The length and its own size do not fit 32 bits, and what is left is in the buffer while the
frame is not. -/
def WrapsAround (data : Bytes) (maxMsgSize : Nat) : Prop :=
  let length := uintBE (data.take 4)
  5 ≤ data.length ∧ 2 ^ 32 - 4 ≤ length ∧ length ≤ maxMsgSize ∧
    (length + 4) % 2 ^ 32 ≤ data.length % 2 ^ 32 ∧ data.length < 4 + length

theorem infix_fields (raw : Bytes) (n m : Nat) : (raw.drop n).take m <:+: raw :=
  (List.take_prefix _ _).isInfix.trans (List.drop_suffix _ _).isInfix

theorem decodePayload_error {type : UInt8} {raw : Bytes} {err : DecodeError}
    (failed : decodePayload type raw = .error err) : err = .malformedFrame := by
  unfold decodePayload at failed
  split at failed
  · split at failed
    · exact (Except.error.inj failed).symm
    · simp only at failed
      split at failed
      · exact (Except.error.inj failed).symm
      · cases failed
  · cases failed

theorem decodePayload_ok {type : UInt8} {raw : Bytes} {msg : Message}
    (read : decodePayload type raw = .ok msg) :
    msg.payload = raw ∧ msg.key <:+: raw ∧ msg.value <:+: raw := by
  unfold decodePayload at read
  split at read
  · split at read
    · cases read
    · simp only at read
      split at read
      · cases read
      · obtain rfl := Except.ok.inj read
        exact ⟨rfl, infix_fields raw _ _, (List.drop_suffix _ _).isInfix⟩
  · obtain rfl := Except.ok.inj read
    exact ⟨rfl, List.nil_infix, List.infix_rfl⟩

theorem decode_outOfRange_iff (data : Bytes) (maxMsgSize : Nat) :
    decode data maxMsgSize = .error .outOfRange ↔ WrapsAround data maxMsgSize := by
  unfold decode WrapsAround
  simp only
  generalize uintBE (data.take 4) = length
  by_cases short : data.length < 5
  · rw [if_pos short]
    exact iff_of_false (by simp) (by omega)
  rw [if_neg short]
  by_cases zero : length = 0
  · rw [if_pos zero]
    exact iff_of_false (by simp) (by omega)
  rw [if_neg zero]
  by_cases long : maxMsgSize < length
  · rw [if_pos long]
    exact iff_of_false (by simp) (by omega)
  rw [if_neg long]
  by_cases cut : data.length % 2 ^ 32 < (length + 4) % 2 ^ 32
  · rw [if_pos cut]
    exact iff_of_false (by simp) (by omega)
  rw [if_neg cut]
  by_cases empty : length - 1 = 0
  · rw [if_pos empty]
    exact iff_of_false (by simp) (by omega)
  rw [if_neg empty]
  by_cases beyond : data.length < 5 + (length - 1)
  · rw [if_pos beyond]
    exact iff_of_true rfl (by omega)
  · rw [if_neg beyond]
    refine iff_of_false ?_ (by omega)
    cases read : decodePayload (data.getD 4 0) ((data.drop 5).take (length - 1)) with
    | error err => simp [decodePayload_error read, Except.map]
    | ok msg => simp [Except.map]

theorem decode_ok {data : Bytes} {maxMsgSize payloadLen : Nat} {msg : Message}
    (read : decode data maxMsgSize = .ok (payloadLen, msg)) :
    5 + payloadLen ≤ data.length ∧ msg.payload <:+: data ∧ msg.key <:+: data ∧
      msg.value <:+: data := by
  unfold decode at read
  simp only at read
  split at read
  · cases read
  split at read
  · cases read
  split at read
  · cases read
  split at read
  · cases read
  split at read
  · cases read
    exact ⟨by omega, List.nil_infix, List.nil_infix, List.nil_infix⟩
  split at read
  · cases read
  · rename_i inside
    cases parsed : decodePayload (data.getD 4 0)
        ((data.drop 5).take (uintBE (data.take 4) - 1)) with
    | error err =>
      rw [parsed] at read
      cases read
    | ok got =>
      rw [parsed] at read
      cases read
      obtain ⟨payload, key, value⟩ := decodePayload_ok parsed
      have raw := infix_fields data 5 (uintBE (data.take 4) - 1)
      exact ⟨Nat.le_of_not_lt inside, payload ▸ raw, key.trans raw, value.trans raw⟩

/-- Decode stays within the buffer unless the bounds check wraps around. -/
theorem decode_in_bounds_iff (data : Bytes) (maxMsgSize : Nat) :
    InBounds data (decode data maxMsgSize) ↔ ¬ WrapsAround data maxMsgSize := by
  rw [← decode_outOfRange_iff]
  cases read : decode data maxMsgSize with
  | error err => simp [InBounds]
  | ok result => exact iff_of_true (decode_ok read) (by simp)

theorem decode_slices_out_of_range :
    ¬ InBounds [255, 255, 255, 255, 0] (decode [255, 255, 255, 255, 0] (2 ^ 32 - 1)) := by
  have fault : decode [255, 255, 255, 255, 0] (2 ^ 32 - 1) = .error .outOfRange := by decide
  rw [fault]
  exact absurd rfl

end Tellstone.Network
