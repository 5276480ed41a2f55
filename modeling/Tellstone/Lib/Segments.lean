import Tellstone.Lib.ByteStream

/-! A stream that comes and goes in pieces. Full reads, a hash and a file do not depend on where
the pieces end. -/
namespace Segments
open ByteStream

def writeAt (bytes : Bytes) (offset : Nat) (data : Bytes) : Bytes :=
  bytes.take offset ++ data ++ bytes.drop (offset + data.length)

theorem writeAt_end (bytes data : Bytes) : writeAt bytes bytes.length data = bytes ++ data := by
  rw [writeAt, List.take_length, List.drop_eq_nil_of_le (by omega), List.append_nil]

theorem writeAt_middle (front rest : Bytes) {old data : Bytes} {offset : Nat}
    (here : front.length = offset) (same : data.length = old.length) :
    writeAt (front ++ (old ++ rest)) offset data = front ++ (data ++ rest) := by
  have behind : (front ++ (old ++ rest)).drop (front.length + data.length) = rest := by
    rw [same, ← List.append_assoc, List.drop_left' List.length_append]
  rw [← here, writeAt, behind, List.take_left, List.append_assoc]

theorem writeAt_zeros (front data : Bytes) {offset n : Nat} (here : front.length = offset)
    (room : data.length ≤ n) :
    writeAt (front ++ List.replicate n 0) offset data =
      (front ++ data) ++ List.replicate (n - data.length) 0 := by
  have split : List.replicate n (0 : UInt8) =
      List.replicate data.length 0 ++ List.replicate (n - data.length) 0 := by
    rw [List.replicate_append_replicate, Nat.add_sub_cancel' room]
  rw [split, writeAt_middle front _ here List.length_replicate.symm, List.append_assoc]

theorem writeAt_length {bytes data : Bytes} {offset : Nat}
    (inside : offset + data.length ≤ bytes.length) :
    (writeAt bytes offset data).length = bytes.length := by
  simp only [writeAt, List.length_append, List.length_take, List.length_drop]
  omega

theorem writeAt_take {bytes data : Bytes} {offset n : Nat} (inside : offset ≤ bytes.length)
    (size : n = offset + data.length) :
    (writeAt bytes offset data).take n = bytes.take offset ++ data := by
  apply List.take_left'
  rw [List.length_append, List.length_take, size]
  omega

inductive ReadError where
  | eof
  | unexpectedEOF
  deriving DecidableEq, Repr

/-- A full read, `n` bytes into its buffer. What does not fit stays in the segment. -/
def fill (buf : Bytes) (n : Nat) : List Bytes → Except ReadError (Bytes × List Bytes)
  | [] =>
    if buf.length ≤ n then .ok (buf, [])
    else .error (if n = 0 then .eof else .unexpectedEOF)
  | segment :: segments =>
    let room := buf.length - n
    if room = 0 then .ok (buf, segment :: segments)
    else if segment.length ≤ room then
      fill (writeAt buf n segment) (n + segment.length) segments
    else .ok (writeAt buf n (segment.take room), segment.drop room :: segments)

def readFull (buf : Bytes) (segments : List Bytes) : Except ReadError (Bytes × List Bytes) :=
  fill buf 0 segments

theorem fill_enough {buf : Bytes} {n : Nat} {segments : List Bytes} (inside : n ≤ buf.length)
    (enough : buf.length ≤ n + segments.flatten.length) :
    ∃ rest, fill buf n segments =
        .ok (buf.take n ++ segments.flatten.take (buf.length - n), rest) ∧
      rest.flatten = segments.flatten.drop (buf.length - n) := by
  induction segments generalizing buf n with
  | nil =>
    have full : buf.length ≤ n := by simpa using enough
    refine ⟨[], ?_, by simp⟩
    rw [fill, if_pos full, List.take_of_length_le full, List.flatten_nil, List.take_nil,
      List.append_nil]
  | cons segment segments ih =>
    simp only [List.flatten_cons, List.length_append] at enough ⊢
    simp only [fill]
    split
    · rename_i full
      rw [full, List.take_of_length_le (by omega), List.take_zero, List.append_nil]
      exact ⟨_, rfl, rfl⟩
    split
    · rename_i whole
      have size : (writeAt buf n segment).length = buf.length := writeAt_length (by omega)
      obtain ⟨rest, filled, left⟩ := @ih (writeAt buf n segment) (n + segment.length)
        (by omega) (by omega)
      have room : buf.length - (n + segment.length) = buf.length - n - segment.length := by omega
      refine ⟨rest, ?_, ?_⟩
      · rw [filled, size, writeAt_take inside rfl, room, List.append_assoc, List.take_append,
          List.take_of_length_le whole]
      · rw [left, size, room, List.drop_append, List.drop_eq_nil_of_le whole, List.nil_append]
    · rename_i part
      have taken : (segment.take (buf.length - n)).length = buf.length - n :=
        List.length_take_of_le (by omega)
      refine ⟨segment.drop (buf.length - n) :: segments, ?_, ?_⟩
      · rw [writeAt, taken, List.drop_eq_nil_of_le (by omega), List.append_nil,
          List.take_append_of_le_length (by omega)]
      · rw [List.flatten_cons, List.drop_append_of_le_length (by omega)]

theorem fill_short {buf : Bytes} {n : Nat} {segments : List Bytes}
    (short : n + segments.flatten.length < buf.length) :
    fill buf n segments =
      .error (if n + segments.flatten.length = 0 then .eof else .unexpectedEOF) := by
  induction segments generalizing buf n with
  | nil =>
    have less : ¬ buf.length ≤ n := by
      simp only [List.flatten_nil, List.length_nil] at short
      omega
    rw [fill, if_neg less, List.flatten_nil, List.length_nil, Nat.add_zero]
  | cons segment segments ih =>
    simp only [List.flatten_cons, List.length_append] at short ⊢
    have size : (writeAt buf n segment).length = buf.length := writeAt_length (by omega)
    simp only [fill]
    rw [if_neg (by omega), if_pos (by omega), ih (by omega), Nat.add_assoc]

theorem readFull_eq (buf : Bytes) (segments : List Bytes) :
    match ByteStream.readFull buf.length segments.flatten with
    | some (bytes, tail) =>
      ∃ rest, readFull buf segments = .ok (bytes, rest) ∧ rest.flatten = tail
    | none =>
      readFull buf segments =
        .error (if segments.flatten = [] then .eof else .unexpectedEOF) := by
  by_cases enough : buf.length ≤ segments.flatten.length
  · obtain ⟨rest, filled, left⟩ := fill_enough (Nat.zero_le buf.length)
      (by rwa [Nat.zero_add] : buf.length ≤ 0 + segments.flatten.length)
    rw [ByteStream.readFull, if_pos enough]
    exact ⟨rest, filled, left⟩
  · have short : 0 + segments.flatten.length < buf.length := by omega
    have ended := fill_short short
    rw [readFull_short (by omega)]
    simpa only [readFull, Nat.zero_add, List.length_eq_zero_iff] using ended

/-- An open file; `room` is what its device still takes. -/
structure File where
  content : Bytes
  offset : Nat
  room : Fault
  deriving DecidableEq, Repr

namespace File
variable {f : File} {bytes : Bytes}

def create (room : Fault) : File := ⟨[], 0, room⟩

def write (f : File) (data : Bytes) : File × Bool :=
  let taken := f.room.cut data
  (⟨writeAt f.content f.offset taken, f.offset + taken.length, f.room.map (· - data.length)⟩,
    f.room.takes data.length)

def writeAll (f : File) : List Bytes → File × Bool
  | [] => (f, true)
  | data :: rest =>
    match f.write data with
    | (f, true) => f.writeAll rest
    | (f, false) => (f, false)

def seek (f : File) (offset : Nat) : File := { f with offset }

/-- The file is `bytes` and stands at their end. -/
structure Holds (f : File) (bytes : Bytes) : Prop where
  content : f.content = bytes
  offset : f.offset = bytes.length

theorem create_holds (room : Fault) : (create room).Holds [] := ⟨rfl, rfl⟩

theorem write_cases (f : File) (data : Bytes) :
    f.write data = (⟨writeAt f.content f.offset data, f.offset + data.length,
        f.room.map (· - data.length)⟩, true) ∨
      (∃ f', f.write data = (f', false)) ∧ f.room ≠ none := by
  by_cases takes : f.room.takes data.length = true
  · have whole : f.room.cut data = data := by
      cases room : f.room with
      | none => rfl
      | some n => exact List.take_of_length_le (Fault.takes_iff.mp takes n room)
    exact Or.inl (by rw [write, whole, takes])
  · have fails : f.room.takes data.length = false := by simpa using takes
    refine Or.inr ⟨⟨_, by rw [write, fails]⟩, ?_⟩
    intro healthy
    rw [healthy] at fails
    cases fails

theorem writeAll_cases (holds : f.Holds bytes) (pieces : List Bytes) :
    (∃ f', f.writeAll pieces = (f', true) ∧ f'.Holds (bytes ++ pieces.flatten) ∧
        (f.room = none → f'.room = none)) ∨
      (∃ f', f.writeAll pieces = (f', false)) ∧ f.room ≠ none := by
  induction pieces generalizing f bytes with
  | nil => exact Or.inl ⟨f, rfl, by simpa using holds, id⟩
  | cons data rest ih =>
    rcases f.write_cases data with wrote | ⟨⟨f', failed⟩, unhealthy⟩
    · have next : Holds ⟨writeAt f.content f.offset data, f.offset + data.length,
          f.room.map (· - data.length)⟩ (bytes ++ data) := by
        constructor
        · rw [holds.content, holds.offset, writeAt_end]
        · rw [holds.offset, List.length_append]
      simp only [writeAll, wrote]
      rcases ih next with ⟨f', all, holds', healthy⟩ | ⟨failed, unhealthy⟩
      · refine Or.inl ⟨f', all, ?_, fun none => healthy (by simp [none])⟩
        rwa [List.flatten_cons, ← List.append_assoc]
      · exact Or.inr ⟨failed, fun none => unhealthy (by simp [none])⟩
    · exact Or.inr ⟨⟨f', by rw [writeAll, failed]⟩, unhealthy⟩

theorem seek_write_cases {front body data : Bytes} (holds : f.Holds (front ++ body))
    (same : data.length = front.length) :
    (∃ f', (f.seek 0).write data = (f', true) ∧ f'.content = data ++ body) ∨
      (∃ f', (f.seek 0).write data = (f', false)) ∧ f.room ≠ none := by
  rcases (f.seek 0).write_cases data with wrote | failed
  · refine Or.inl ⟨_, wrote, ?_⟩
    have replaced := writeAt_middle [] body rfl same
    simpa only [seek, holds.content, List.nil_append, List.length_nil] using replaced
  · exact Or.inr failed

end File

/-- A hash that is fed in pieces and whose sum depends on their concatenation only. -/
structure StreamHash where
  State : Type
  new : State
  write : State → Bytes → State
  sum64 : State → UInt64
  streams : ∀ pieces pieces' : List Bytes, pieces.flatten = pieces'.flatten →
    sum64 (pieces.foldl write new) = sum64 (pieces'.foldl write new)

namespace StreamHash
variable {H : StreamHash} {h : H.State} {bytes : Bytes}

def digest (H : StreamHash) (bytes : Bytes) : UInt64 := H.sum64 (H.write H.new bytes)

def Fed (H : StreamHash) (h : H.State) (bytes : Bytes) : Prop :=
  ∃ pieces : List Bytes, h = pieces.foldl H.write H.new ∧ pieces.flatten = bytes

theorem Fed.new (H : StreamHash) : H.Fed H.new [] := ⟨[], rfl, rfl⟩

theorem Fed.writes (fed : H.Fed h bytes) (pieces : List Bytes) :
    H.Fed (pieces.foldl H.write h) (bytes ++ pieces.flatten) := by
  obtain ⟨before, rfl, rfl⟩ := fed
  exact ⟨before ++ pieces, by rw [List.foldl_append], by rw [List.flatten_append]⟩

theorem Fed.sum64 (fed : H.Fed h bytes) : H.sum64 h = H.digest bytes := by
  obtain ⟨pieces, rfl, rfl⟩ := fed
  exact H.streams pieces [pieces.flatten] (by simp)

end StreamHash

end Segments
