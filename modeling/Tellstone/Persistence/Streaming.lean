import Tellstone.Lib.Segments
import Tellstone.Persistence.Dump
import Tellstone.Storage.Buffer

/-! The two ways of writing a snapshot, call by call. -/
namespace Tellstone
open ByteStream Framing
open Segments (writeAt StreamHash ReadError File)

namespace Buffer

def bytes (b : Buffer) : Bytes := b.array.take b.len

def empty : Buffer := ⟨[], 0, Nat.zero_le _⟩

def make (n : Nat) : Buffer := ⟨List.replicate n 0, n, by simp⟩

def sized (b : Buffer) (n : Nat) : Buffer :=
  if room : b.array.length < n then make n else ⟨b.array, n, Nat.le_of_not_lt room⟩

def readFull (b : Buffer) (pipe : List Bytes) : Except ReadError (Buffer × List Bytes) :=
  match Segments.readFull b.bytes pipe with
  | .error err => .error err
  | .ok (bytes, pipe) =>
    .ok (⟨overwrite b.array bytes, bytes.length, by simp [overwrite]⟩, pipe)

@[simp] theorem sized_len (b : Buffer) (n : Nat) : (b.sized n).len = n := by
  unfold sized
  split <;> rfl

theorem bytes_length (b : Buffer) : b.bytes.length = b.len := List.length_take_of_le b.fits

theorem readFull_eq (b : Buffer) (pipe : List Bytes) :
    match ByteStream.readFull b.len pipe.flatten with
    | some (bytes, tail) =>
      ∃ b' rest, b.readFull pipe = .ok (b', rest) ∧ b'.bytes = bytes ∧ b'.len = b.len ∧
        rest.flatten = tail
    | none =>
      b.readFull pipe = .error (if pipe.flatten = [] then .eof else .unexpectedEOF) := by
  have full := Segments.readFull_eq b.bytes pipe
  rw [bytes_length] at full
  rcases read : ByteStream.readFull b.len pipe.flatten with _ | ⟨bytes, tail⟩
  · simp only [read] at full
    simp only [readFull, full]
  · simp only [read] at full
    obtain ⟨rest, got, left⟩ := full
    have filled : b.readFull pipe =
        .ok (⟨overwrite b.array bytes, bytes.length, by simp [overwrite]⟩, rest) := by
      simp only [readFull, got]
    refine ⟨_, rest, filled, ?_, (readFull_some read).2, left⟩
    simp [Buffer.bytes, overwrite]

end Buffer

namespace Streaming

abbrev Fingerprint := { bytes : Bytes // bytes.length = 16 }

def buildSnapshotHeader (createdAt : Int) (fingerprint : Fingerprint) : Bytes :=
  let hdr : Bytes := List.replicate snapHeader 0
  let hdr := writeAt hdr 0 snapMagic
  let hdr := writeAt hdr 4 (putUint 4 snapVersion2)
  let hdr := writeAt hdr 8 (putUint 8 0)
  let hdr := writeAt hdr 16 (putUint 8 (word64 createdAt))
  let hdr := writeAt hdr 24 (putUint 8 0)
  writeAt hdr 32 fingerprint.1

def patchHeader (hdr : Bytes) (keyCount : Nat) (checksum : UInt64) : Bytes :=
  let hdr := writeAt hdr 8 (putUint 8 keyCount)
  writeAt hdr 24 (putUint 8 checksum.toNat)

def entryPieces (entry : Sigma fun _ : Bytes => Item) : List Bytes :=
  [(snapshotRecord entry).header, entry.1, entry.2.value]

/-- What snapshotWrite wraps the failure of a write in. -/
inductive WriteError where
  | writeHeader
  | writeEntry
  | patchHeader
  deriving DecidableEq, Repr

/-- The variables of snapshotWrite that its callback changes. -/
structure Dump (H : StreamHash) where
  h : H.State
  f : File
  keyCount : Nat
  writeErr : Bool

def Dump.entry {H : StreamHash} (s : Dump H) (entry : Sigma fun _ : Bytes => Item) : Dump H :=
  if s.writeErr then s
  else
    let h := (entryPieces entry).foldl H.write s.h
    match s.f.writeAll (entryPieces entry) with
    | (f, true) => ⟨h, f, s.keyCount + 1, false⟩
    | (f, false) => ⟨h, f, s.keyCount, true⟩

def snapshotWrite (H : StreamHash) (createdAt : Int) (fingerprint : Fingerprint) (room : Fault)
    (now : Time) (order : MapOrder) (e : Engine) : Except WriteError (Nat × Bytes) :=
  let hdr := buildSnapshotHeader createdAt fingerprint
  match (File.create room).write hdr with
  | (_, false) => .error .writeHeader
  | (f, true) =>
    let s : Dump H := (e.forEach now order).foldl Dump.entry ⟨H.write H.new hdr, f, 0, false⟩
    if s.writeErr then .error .writeEntry
    else
      match (s.f.seek 0).write (patchHeader hdr s.keyCount (H.sum64 s.h)) with
      | (_, false) => .error .patchHeader
      | (f, true) => .ok (s.keyCount, f.content)

/-- The callback of the parent: the pipe, and whether a write to it has failed. -/
def sendEntry (s : File × Bool) (entry : Sigma fun _ : Bytes => Item) : File × Bool :=
  if s.2 then s
  else
    match s.1.writeAll (entryPieces entry) with
    | (w, true) => (w, false)
    | (w, false) => (w, true)

def serializeEngineToWriter (w : File) (now : Time) (order : MapOrder) (e : Engine) : File × Bool :=
  (e.forEach now order).foldl sendEntry (w, false)

structure Child (H : StreamHash) where
  pipe : List Bytes
  h : H.State
  f : File
  keyCount : Nat
  entryBuf : Buffer
  keyBuf : Buffer
  valBuf : Buffer

def childTurn {H : StreamHash} (s : Child H) : Turn (Child H) Error :=
  match s.entryBuf.readFull s.pipe with
  | .error .eof => .stop s
  | .error .unexpectedEOF => .fail s .snapshotChild
  | .ok (entryBuf, pipe) =>
    let h := H.write s.h entryBuf.bytes
    match (s.keyBuf.sized (headerKeyLen entryBuf.bytes)).readFull pipe with
    | .error _ => .fail s .snapshotChild
    | .ok (keyBuf, pipe) =>
      let h := H.write h keyBuf.bytes
      match (s.valBuf.sized (headerValLen entryBuf.bytes)).readFull pipe with
      | .error _ => .fail s .snapshotChild
      | .ok (valBuf, pipe) =>
        let h := H.write h valBuf.bytes
        match s.f.writeAll [entryBuf.bytes, keyBuf.bytes, valBuf.bytes] with
        | (_, false) => .fail s .snapshotChild
        | (f, true) => .more ⟨pipe, h, f, s.keyCount + 1, entryBuf, keyBuf, valBuf⟩

def snapshotChildWrite (H : StreamHash) (createdAt : Int) (fingerprint : Fingerprint)
    (room : Fault) (pipe : List Bytes) : Except Error Bytes :=
  let hdr := buildSnapshotHeader createdAt fingerprint
  match (File.create room).write hdr with
  | (_, false) => .error .snapshotChild
  | (f, true) =>
    let start : Child H := ⟨pipe, H.write H.new hdr, f, 0, .make 16, .empty, .empty⟩
    match loop childTurn (fun s => s.pipe.flatten.length) start with
    | (_, some err) => .error err
    | (s, none) =>
      match (s.f.seek 0).write (patchHeader hdr s.keyCount (H.sum64 s.h)) with
      | (_, false) => .error .snapshotChild
      | (f, true) => .ok f.content

theorem header_length (createdAt : Time) (fingerprint : Fingerprint) (keyCount checksum : Nat) :
    (Tellstone.buildSnapshotHeader createdAt fingerprint.1 keyCount checksum).length =
      snapHeader := by
  simp [Tellstone.buildSnapshotHeader, fingerprint.2, snapMagic, snapHeader]

theorem buildSnapshotHeader_eq (createdAt : Int) (fingerprint : Fingerprint) :
    buildSnapshotHeader createdAt fingerprint =
      Tellstone.buildSnapshotHeader (word64 createdAt) fingerprint.1 0 0 := by
  simp only [buildSnapshotHeader, snapHeader]
  rw [← List.nil_append (List.replicate 48 (0 : UInt8)),
    Segments.writeAt_zeros _ snapMagic (by simp) (by decide),
    Segments.writeAt_zeros _ (putUint 4 _) (by simp [snapMagic]) (by simp [snapMagic]),
    Segments.writeAt_zeros _ (putUint 8 _) (by simp [snapMagic]) (by simp [snapMagic]),
    Segments.writeAt_zeros _ (putUint 8 _) (by simp [snapMagic]) (by simp [snapMagic]),
    Segments.writeAt_zeros _ (putUint 8 _) (by simp [snapMagic]) (by simp [snapMagic]),
    Segments.writeAt_zeros _ fingerprint.1 (by simp [snapMagic])
      (by simp [snapMagic, fingerprint.2])]
  simp [Tellstone.buildSnapshotHeader, fingerprint.2, snapMagic]

theorem patchHeader_eq (createdAt : Time) (fingerprint : Bytes) (keyCount : Nat)
    (checksum : UInt64) :
    patchHeader (Tellstone.buildSnapshotHeader createdAt fingerprint 0 0) keyCount checksum =
      Tellstone.buildSnapshotHeader createdAt fingerprint keyCount checksum.toNat := by
  have counted := Segments.writeAt_middle (snapMagic ++ putUint 4 snapVersion2)
    (putUint 8 createdAt ++ (putUint 8 0 ++ fingerprint)) (by simp [snapMagic] : _ = 8)
    (by simp : (putUint 8 keyCount).length = (putUint 8 0).length)
  have summed := Segments.writeAt_middle
    (snapMagic ++ putUint 4 snapVersion2 ++ putUint 8 keyCount ++ putUint 8 createdAt) fingerprint
    (by simp [snapMagic] : _ = 24)
    (by simp : (putUint 8 checksum.toNat).length = (putUint 8 0).length)
  simp only [List.append_assoc] at counted summed
  simp only [patchHeader, Tellstone.buildSnapshotHeader, List.append_assoc]
  rw [counted, summed]

section
variable {H : StreamHash} {room : Fault} {content body : Bytes} {h : H.State} {f : File}

/-- `content` has been hashed and is the file. -/
structure Written (H : StreamHash) (room : Fault) (content : Bytes) (h : H.State) (f : File) :
    Prop where
  hashed : H.Fed h content
  file : f.Holds content
  healthy : room = none → f.room = none

theorem Written.start (H : StreamHash) (room : Fault) (hdr : Bytes) :
    (∃ f, (File.create room).write hdr = (f, true) ∧ Written H room hdr (H.write H.new hdr) f) ∨
      (∃ f, (File.create room).write hdr = (f, false)) ∧ room ≠ none := by
  rcases (File.create room).write_cases hdr with wrote | failed
  · refine Or.inl ⟨_, wrote, ?_, ?_, ?_⟩
    · simpa using (StreamHash.Fed.new H).writes [hdr]
    · exact ⟨Segments.writeAt_end [] hdr, Nat.zero_add _⟩
    · intro healthy
      simp [File.create, healthy]
  · exact Or.inr failed

theorem Written.pieces (written : Written H room content h f) (pieces : List Bytes) :
    (∃ f', f.writeAll pieces = (f', true) ∧
        Written H room (content ++ pieces.flatten) (pieces.foldl H.write h) f') ∨
      (∃ f', f.writeAll pieces = (f', false)) ∧ room ≠ none := by
  rcases File.writeAll_cases written.file pieces with ⟨f', wrote, holds, healthy⟩ | ⟨failed, bad⟩
  · exact Or.inl ⟨f', wrote, written.hashed.writes pieces, holds, healthy ∘ written.healthy⟩
  · exact Or.inr ⟨failed, bad ∘ written.healthy⟩

theorem Written.patch {P : Primitives} (sums : P.xxhash = H.digest) {createdAt : Int}
    {fingerprint : Fingerprint}
    (written : Written H room (buildSnapshotHeader createdAt fingerprint ++ body) h f)
    (keyCount : Nat) :
    let patched :=
      patchHeader (buildSnapshotHeader createdAt fingerprint) keyCount (H.sum64 h)
    (∃ f', (f.seek 0).write patched = (f', true) ∧
        f'.content = snapshotFile P (word64 createdAt) fingerprint.1 keyCount body) ∨
      (∃ f', (f.seek 0).write patched = (f', false)) ∧ room ≠ none := by
  intro patched
  have header : patched = Tellstone.buildSnapshotHeader (word64 createdAt) fingerprint.1 keyCount
      (H.sum64 h).toNat := by
    simp only [patched]
    rw [buildSnapshotHeader_eq, patchHeader_eq]
  have same : patched.length = (buildSnapshotHeader createdAt fingerprint).length := by
    rw [header, buildSnapshotHeader_eq, header_length, header_length]
  rcases File.seek_write_cases written.file same with ⟨f', wrote, replaced⟩ | ⟨failed, bad⟩
  · refine Or.inl ⟨f', wrote, ?_⟩
    rw [replaced, header, snapshotFile, written.hashed.sum64, sums, buildSnapshotHeader_eq]
  · exact Or.inr ⟨failed, bad ∘ written.healthy⟩

end

theorem entryPieces_flatten (entry : Sigma fun _ : Bytes => Item) :
    (entryPieces entry).flatten = (snapshotRecord entry).bytes := by
  simp [entryPieces, Record.bytes, snapshotRecord, Record.set]

theorem foldl_entries {σ : Type} {callback : σ → (Sigma fun _ : Bytes => Item) → σ}
    (Inv : Bytes → Nat → σ → Prop)
    (step : ∀ body n s entry, Inv body n s →
      Inv (body ++ (snapshotRecord entry).bytes) (n + 1) (callback s entry))
    (entries : List (Sigma fun _ : Bytes => Item)) (body : Bytes) (n : Nat) (s : σ)
    (inv : Inv body n s) :
    Inv (body ++ entries.flatMap fun entry => (snapshotRecord entry).bytes) (n + entries.length)
      (entries.foldl callback s) := by
  induction entries generalizing body n s with
  | nil => simpa using inv
  | cons entry entries ih =>
    have next := ih _ _ _ (step body n s entry inv)
    rwa [List.append_assoc, Nat.add_right_comm, Nat.add_assoc] at next

section
variable {H : StreamHash} {P : Primitives} {room : Fault} {hdr body : Bytes} {n : Nat}

def Dump.Seen (room : Fault) (hdr body : Bytes) (n : Nat) (s : Dump H) : Prop :=
  s.writeErr = true ∧ room ≠ none ∨
    s.writeErr = false ∧ s.keyCount = n ∧ Written H room (hdr ++ body) s.h s.f

theorem Dump.Seen.entry {s : Dump H} (seen : s.Seen room hdr body n)
    (entry : Sigma fun _ : Bytes => Item) :
    (s.entry entry).Seen room hdr (body ++ (snapshotRecord entry).bytes) (n + 1) := by
  rcases seen with ⟨failed, bad⟩ | ⟨fine, count, written⟩
  · refine Or.inl ⟨?_, bad⟩
    rw [Dump.entry, if_pos failed, failed]
  rcases written.pieces (entryPieces entry) with ⟨f, wrote, next⟩ | ⟨⟨f, failed⟩, bad⟩
  · rw [entryPieces_flatten, List.append_assoc] at next
    refine Or.inr ?_
    simp only [Dump.entry, fine, wrote, count, Bool.false_eq_true, ↓reduceIte, true_and]
    exact next
  · refine Or.inl ⟨?_, bad⟩
    simp only [Dump.entry, fine, failed, Bool.false_eq_true, ↓reduceIte]

theorem snapshotWrite_cases (sums : P.xxhash = H.digest) (createdAt : Int)
    (fingerprint : Fingerprint) (room : Fault) (now : Time) (order : MapOrder) (e : Engine) :
    snapshotWrite H createdAt fingerprint room now order e =
        .ok ((e.forEach now order).length,
          snapshotFile P (word64 createdAt) fingerprint.1 (e.forEach now order).length
            (Tellstone.serializeEngineToWriter now order e)) ∨
      (∃ err, snapshotWrite H createdAt fingerprint room now order e = .error err) ∧
        room ≠ none := by
  rcases Written.start H room (buildSnapshotHeader createdAt fingerprint) with
    ⟨f, wrote, written⟩ | ⟨⟨f, failed⟩, bad⟩
  · have start : Dump.Seen room (buildSnapshotHeader createdAt fingerprint) [] 0
        (⟨_, f, 0, false⟩ : Dump H) := Or.inr ⟨rfl, rfl, by simpa using written⟩
    have seen := foldl_entries (Dump.Seen room (buildSnapshotHeader createdAt fingerprint))
      (fun body n s entry inv => inv.entry entry) (e.forEach now order) [] 0 _ start
    simp only [List.nil_append, Nat.zero_add] at seen
    simp only [snapshotWrite, wrote]
    rcases seen with ⟨failed, bad⟩ | ⟨fine, count, written⟩
    · exact Or.inr ⟨⟨.writeEntry, if_pos failed⟩, bad⟩
    · rw [fine, count]
      rcases written.patch sums (e.forEach now order).length with
        ⟨f', wrote', content⟩ | ⟨⟨f', failed⟩, bad⟩
      · refine Or.inl ?_
        simp only [wrote', content, Bool.false_eq_true, ↓reduceIte]
        rfl
      · refine Or.inr ⟨⟨.patchHeader, ?_⟩, bad⟩
        simp only [failed, Bool.false_eq_true, ↓reduceIte]
  · exact Or.inr ⟨⟨.writeHeader, by simp only [snapshotWrite, failed]⟩, bad⟩

def Sent (room : Fault) (body : Bytes) (s : File × Bool) : Prop :=
  s.2 = true ∧ room ≠ none ∨
    s.2 = false ∧ s.1.Holds body ∧ (room = none → s.1.room = none)

theorem Sent.entry {s : File × Bool} (sent : Sent room body s)
    (entry : Sigma fun _ : Bytes => Item) :
    Sent room (body ++ (snapshotRecord entry).bytes) (sendEntry s entry) := by
  rcases sent with ⟨failed, bad⟩ | ⟨fine, holds, healthy⟩
  · refine Or.inl ⟨?_, bad⟩
    rw [sendEntry, if_pos failed, failed]
  rcases File.writeAll_cases holds (entryPieces entry) with
    ⟨w, wrote, holds', healthy'⟩ | ⟨⟨w, failed⟩, bad⟩
  · rw [entryPieces_flatten] at holds'
    refine Or.inr ?_
    simp only [sendEntry, fine, wrote, Bool.false_eq_true, ↓reduceIte, true_and]
    exact ⟨holds', healthy' ∘ healthy⟩
  · refine Or.inl ⟨?_, bad ∘ healthy⟩
    simp only [sendEntry, fine, failed, Bool.false_eq_true, ↓reduceIte]

theorem serializeEngineToWriter_sent (room : Fault) (now : Time) (order : MapOrder) (e : Engine) :
    Sent room (Tellstone.serializeEngineToWriter now order e)
      (serializeEngineToWriter (File.create room) now order e) := by
  have start : Sent room [] (File.create room, false) :=
    Or.inr ⟨rfl, File.create_holds room, id⟩
  exact foldl_entries (fun body _ => Sent room body) (fun body n s entry inv => inv.entry entry)
    (e.forEach now order) [] 0 _ start

/-- The child's variables beside those of a child that reads the pipe as one stream. -/
structure Child.Follows (room : Fault) (hdr : Bytes) (s : Child H) (t : ChildState) : Prop where
  pipe : s.pipe.flatten = t.pipe
  written : Written H room (hdr ++ t.body) s.h s.f
  count : s.keyCount = t.keyCount
  entryBuf : s.entryBuf.len = 16

theorem Child.Follows.size (s : Child H) (t : ChildState) (follows : s.Follows room hdr t) :
    s.pipe.flatten.length = t.pipe.length := by
  rw [follows.pipe]

theorem Child.Follows.turn (s : Child H) (t : ChildState) (follows : s.Follows room hdr t) :
    Turn.Related (Child.Follows room hdr) (room ≠ none) (childTurn s) (Tellstone.childTurn t) := by
  have header := s.entryBuf.readFull_eq s.pipe
  rw [follows.entryBuf, follows.pipe] at header
  rcases readHeader : readFull 16 t.pipe with _ | ⟨entryBytes, afterHeader⟩
  · simp only [readHeader] at header
    simp only [childTurn, Tellstone.childTurn, readHeader, header]
    by_cases ended : t.pipe = []
    · simp only [ended, ↓reduceIte]
      exact .stop follows
    · simp only [ended, ↓reduceIte]
      exact .fail _ follows
  simp only [readHeader] at header
  obtain ⟨entryBuf, pipe, gotHeader, rfl, entryLen, left⟩ := header
  simp only [childTurn, Tellstone.childTurn, readHeader, gotHeader]
  have key := (s.keyBuf.sized (headerKeyLen entryBuf.bytes)).readFull_eq pipe
  rw [Buffer.sized_len, left] at key
  rcases readKey : readFull (headerKeyLen entryBuf.bytes) afterHeader with _ | ⟨keyBytes, afterKey⟩
  · simp only [readKey] at key
    simp only [key]
    exact .fail _ follows
  simp only [readKey] at key
  obtain ⟨keyBuf, pipe, gotKey, rfl, -, left⟩ := key
  simp only [gotKey]
  have value := (s.valBuf.sized (headerValLen entryBuf.bytes)).readFull_eq pipe
  rw [Buffer.sized_len, left] at value
  rcases readVal : readFull (headerValLen entryBuf.bytes) afterKey with _ | ⟨valBytes, afterVal⟩
  · simp only [readVal] at value
    simp only [value]
    exact .fail _ follows
  simp only [readVal] at value
  obtain ⟨valBuf, pipe, gotVal, rfl, -, left⟩ := value
  simp only [gotVal]
  rcases follows.written.pieces [entryBuf.bytes, keyBuf.bytes, valBuf.bytes] with
    ⟨f, wrote, written⟩ | ⟨⟨f, failed⟩, bad⟩
  · simp only [wrote]
    refine .more ⟨left, ?_, by rw [follows.count], entryLen⟩
    simpa only [List.flatten_cons, List.flatten_nil, List.append_nil, List.append_assoc,
      List.foldl_cons, List.foldl_nil] using written
  · simp only [failed]
    exact .breaks _ _ bad

theorem snapshotChildWrite_cases (sums : P.xxhash = H.digest) (createdAt : Int)
    (fingerprint : Fingerprint) (room : Fault) (pipe : List Bytes) :
    snapshotChildWrite H createdAt fingerprint room pipe =
        Tellstone.snapshotChildWrite P (word64 createdAt) pipe.flatten fingerprint.1 ∨
      (∃ err, snapshotChildWrite H createdAt fingerprint room pipe = .error err) ∧
        room ≠ none := by
  rcases Written.start H room (buildSnapshotHeader createdAt fingerprint) with
    ⟨f, wrote, written⟩ | ⟨⟨f, failed⟩, bad⟩
  · have start : Child.Follows room (buildSnapshotHeader createdAt fingerprint)
        (⟨pipe, _, f, 0, .make 16, .empty, .empty⟩ : Child H) ⟨pipe.flatten, [], 0⟩ :=
      ⟨rfl, by simpa using written, rfl, rfl⟩
    have looped := loop_related Child.Follows.size Child.Follows.turn start
    simp only [snapshotChildWrite, Tellstone.snapshotChildWrite, wrote]
    generalize loop childTurn _ _ = left at looped ⊢
    generalize loop Tellstone.childTurn _ _ = right at looped ⊢
    obtain ⟨s, err⟩ := left
    obtain ⟨t, err'⟩ := right
    rcases looped with ⟨⟨err, rfl⟩, bad⟩ | ⟨follows, rfl⟩
    · exact Or.inr ⟨⟨err, rfl⟩, bad⟩
    cases err with
    | some err => exact Or.inl rfl
    | none =>
      rcases follows.written.patch sums s.keyCount with
        ⟨f', wrote', content⟩ | ⟨⟨f', failed⟩, bad⟩
      · have count : s.keyCount = t.keyCount := follows.count
        simp only [wrote', content]
        rw [count]
        exact Or.inl rfl
      · simp only [failed]
        exact Or.inr ⟨⟨.snapshotChild, rfl⟩, bad⟩
  · exact Or.inr ⟨⟨.snapshotChild, by simp only [snapshotChildWrite, failed]⟩, bad⟩

end

section
variable {H : StreamHash} {P : Primitives}

theorem snapshotFile_word64 (P : Primitives) (now : Time) (fingerprint : Bytes) (keyCount : Nat)
    (body : Bytes) :
    snapshotFile P (word64 now) fingerprint keyCount body =
      snapshotFile P now fingerprint keyCount body := by
  simp only [snapshotFile, Tellstone.buildSnapshotHeader, putUint_word64]

theorem snapshotWrite_eq (sums : P.xxhash = H.digest) (fingerprint : Fingerprint) (now : Time)
    (order : MapOrder) (e : Engine) :
    snapshotWrite H now fingerprint none now order e =
      .ok ((e.forEach now order).length, Tellstone.snapshotWrite P now order e fingerprint.1) := by
  rcases snapshotWrite_cases sums now fingerprint none now order e with wrote | ⟨-, bad⟩
  · rw [wrote, snapshotFile_word64, Tellstone.snapshotWrite]
  · exact absurd rfl bad

theorem snapshotChildWrite_eq (sums : P.xxhash = H.digest) (fingerprint : Fingerprint)
    (now : Time) (pipe : List Bytes) :
    snapshotChildWrite H now fingerprint none pipe =
      Tellstone.snapshotChildWrite P now pipe.flatten fingerprint.1 := by
  rcases snapshotChildWrite_cases sums now fingerprint none pipe with wrote | ⟨-, bad⟩
  · simp only [wrote, Tellstone.snapshotChildWrite, snapshotFile_word64]
  · exact absurd rfl bad

end

def rolling : StreamHash where
  State := UInt64
  new := 7
  write h bytes := bytes.foldl (fun h b => h * 31 + b.toUInt64) h
  sum64 h := h
  streams pieces pieces' same := by
    rw [← List.foldl_flatten, same, List.foldl_flatten]

/-- The header, patched with the number of entries and the hash, and the entries. The child writes
it from any segments of what the parent sent. -/
theorem snapshotChildWrite_is_snapshotWrite (H : StreamHash) (createdAt : Int)
    (fingerprint : Fingerprint) (now : Time) (order : MapOrder) (e : Engine)
    (short : ∀ entry ∈ e.forEach now order,
      entry.1.length < 2 ^ 32 ∧ entry.2.value.length < 2 ^ 32)
    (pipe : List Bytes)
    (sent : pipe.flatten = (serializeEngineToWriter (File.create none) now order e).1.content) :
    let entries := e.forEach now order
    let body := entries.flatMap fun entry => (entryPieces entry).flatten
    let hdr := buildSnapshotHeader createdAt fingerprint
    let file := patchHeader hdr entries.length (H.digest (hdr ++ body)) ++ body
    (serializeEngineToWriter (File.create none) now order e).2 = false ∧
      snapshotWrite H createdAt fingerprint none now order e = .ok (entries.length, file) ∧
      snapshotChildWrite H createdAt fingerprint none pipe = .ok file := by
  intro entries body hdr file
  let P : Primitives := { Primitives.tagged with xxhash := H.digest }
  have recordsShort : ∀ r ∈ entries.map snapshotRecord, r.Short := by
    intro r mem
    obtain ⟨entry, found, rfl⟩ := List.mem_map.mp mem
    obtain ⟨key, value⟩ := short entry found
    exact ⟨Nat.le_sub_one_of_lt key, Nat.le_sub_one_of_lt value⟩
  have bodyEq : body = Tellstone.serializeEngineToWriter now order e := by
    simp only [body, entries, Tellstone.serializeEngineToWriter, entryPieces_flatten]
  have fileEq : file = snapshotFile P (word64 createdAt) fingerprint.1 entries.length body := by
    simp only [file, hdr, snapshotFile, P]
    rw [buildSnapshotHeader_eq, patchHeader_eq]
  rcases serializeEngineToWriter_sent none now order e with ⟨-, bad⟩ | ⟨fine, holds, -⟩
  · exact absurd rfl bad
  refine ⟨fine, ?_, ?_⟩
  · rcases snapshotWrite_cases (P := P) (H := H) rfl createdAt fingerprint none now order e with
      wrote | ⟨-, bad⟩
    · rw [wrote, fileEq, bodyEq]
    · exact absurd rfl bad
  · rcases snapshotChildWrite_cases (P := P) (H := H) rfl createdAt fingerprint none pipe with
      wrote | ⟨-, bad⟩
    · rw [wrote, fileEq, bodyEq, sent, holds.content, serializeEngineToWriter_eq,
        snapshotChildWrite_records P _ _ recordsShort, List.length_map]
    · exact absurd rfl bad

theorem snapshotChildWrite_is_snapshotWrite_segments :
    ∃ file, snapshotWrite rolling (-1) ⟨zeroFingerprint, rfl⟩ none 5 .asStored twoKeys =
        .ok (2, file) ∧
      snapshotChildWrite rolling (-1) ⟨zeroFingerprint, rfl⟩ none
        [[1, 0, 0], [], [0, 1, 0, 0, 0, 0, 0, 0, 0, 0, 0, 0, 0, 97, 1, 1, 0],
          [0, 0, 1, 0, 0, 0, 20, 0, 0, 0, 0, 0, 0, 0, 98], [2]] = .ok file :=
  ⟨_, (snapshotChildWrite_is_snapshotWrite rolling (-1) ⟨zeroFingerprint, rfl⟩ 5 .asStored twoKeys
    (by decide +kernel) _ (by decide +kernel)).2⟩

end Streaming

end Tellstone
