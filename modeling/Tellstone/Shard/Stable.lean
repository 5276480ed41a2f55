import Tellstone.Shard

/-! Properties of an engine that none of its calls breaks. Loads and requests use it only through
its calls. -/
namespace Tellstone
open ByteStream Framing

/-- No call of the engine breaks `Inv`. -/
structure Engine.Stable (P : Primitives) (Inv : Engine → Prop) : Prop where
  set : ∀ (now : Time) (e : Engine) (key value : Bytes) (ttl : Duration), Inv e →
    Inv (e.set P now key value ttl).1
  setFromBuffer : ∀ (now : Time) (e : Engine) (buf : Bytes) (keyLen : Int) (ttl : Duration),
    Inv e → Inv (e.setFromBuffer P now buf keyLen ttl).1
  setRaw : ∀ (now : Time) (e : Engine) (key value : Bytes) (ttl : Duration), Inv e →
    Inv (e.setRaw now key value ttl).1
  delete : ∀ (now : Time) (e : Engine) (key : Bytes), Inv e → Inv (e.delete now key).1
  get : ∀ (now : Time) (e : Engine) (key : Bytes), Inv e → Inv (e.get P now key).1

namespace Engine.Stable

section
variable {P : Primitives} {Inv : Engine → Prop} {e : Engine}

theorem applyRecord (stable : Stable P Inv) (inv : Inv e) (now : Time)
    (header keyBuf valBuf : Bytes) : Inv (Tellstone.applyRecord P now e header keyBuf valBuf).1 := by
  simp only [Tellstone.applyRecord]
  split
  · exact stable.delete now e keyBuf inv
  · split
    · split
      · exact inv
      · exact stable.set now e keyBuf valBuf _ inv
    · exact stable.set now e keyBuf valBuf _ inv

theorem apply (stable : Stable P Inv) {g : Progress} (inv : Inv g.engine) (now : Time)
    (header keyBuf valBuf : Bytes) : Inv (g.apply P now header keyBuf valBuf).1.engine := by
  rw [Progress.apply_engine]
  exact stable.applyRecord inv now header keyBuf valBuf

theorem plaintextTurn (stable : Stable P Inv) (now : Time) (fileSize : Int) (s : Replay)
    (inv : Inv s.engine) : Inv (Tellstone.plaintextTurn P now fileSize s).state.engine := by
  rcases readHeader : readFull 16 s.rest with _ | ⟨header, rest⟩
  · simp only [Tellstone.plaintextTurn, readHeader]
    exact inv
  simp only [Tellstone.plaintextTurn, readHeader]
  split
  · exact inv
  rcases readFull (headerKeyLen header) rest with _ | ⟨keyBuf, rest'⟩
  · exact inv
  simp only
  rcases readFull (headerValLen header) rest' with _ | ⟨valBuf, rest''⟩
  · exact inv
  simp only [Turn.state_next]
  exact stable.apply inv now header keyBuf valBuf

theorem encryptedTurn (stable : Stable P Inv) (now : Time) (key : CipherKey) (fileSize : Int)
    (s : Replay) (inv : Inv s.engine) :
    Inv (Tellstone.encryptedTurn P now key fileSize s).state.engine := by
  rcases readLen : readFull 4 s.rest with _ | ⟨recLenBuf, rest⟩
  · simp only [Tellstone.encryptedTurn, readLen]
    exact inv
  simp only [Tellstone.encryptedTurn, readLen]
  split
  · exact inv
  split
  · exact inv
  rcases readFull (uint recLenBuf) rest with _ | ⟨record, rest'⟩
  · exact inv
  simp only
  rcases (CryptoEngine.chacha key).openWithCounter P (record.take 12) (record.drop 12)
    with _ | plaintext
  · exact inv
  simp only
  split
  · exact inv
  split
  · exact inv
  simp only [Turn.state_next]
  apply stable.apply
  exact inv

theorem replayWAL (stable : Stable P Inv) (inv : Inv e) (now : Time) (s : Storage) :
    Inv (s.replayWAL P now e).engine := by
  unfold Storage.replayWAL
  split
  · exact inv
  split
  · rename_i h _ key _
    have looped := loop_invariant (fun r : Replay => Inv r.engine)
      (stable.encryptedTurn now key s.wal.length) (fun r => r.rest.length)
      ⟨.start e, s.wal.drop walMagicLen, s.wal.length - walMagicLen, walMagicLen⟩ inv
    simp only [Storage.replayWALEncrypted]
    split <;> exact looped
  · have looped := loop_invariant (fun r : Replay => Inv r.engine)
      (stable.plaintextTurn now s.wal.length) (fun r => r.rest.length)
      ⟨.start e, s.wal, s.wal.length, 0⟩ inv
    simp only [Storage.replayWALPlaintext]
    split <;> exact looped

theorem restoreEntry (stable : Stable P Inv) (inv : Inv e) (now : Time) (entry : DecodedEntry) :
    Inv (Tellstone.restoreEntry P now e entry).1 := by
  have stored (duration : Duration) : Inv (restoreValue P now e entry duration).1 := by
    simp only [restoreValue]
    split
    · exact stable.setRaw now e _ _ duration inv
    · exact stable.setFromBuffer now e _ _ duration inv
  simp only [Tellstone.restoreEntry]
  split
  · split
    · exact inv
    · exact stored _
  · exact stored _

theorem restoreScan (stable : Stable P Inv) (inv : Inv e) (now : Time) (fileChecksum : Nat)
    (outcome : SnapshotScan × Option Error) :
    Inv (Tellstone.restoreScan P now e fileChecksum outcome).1 := by
  simp only [Tellstone.restoreScan]
  split
  · exact inv
  split
  · exact inv
  · exact foldUntil_invariant (fun e _ => Inv e)
      (fun e entry _ inv => stable.restoreEntry inv now entry) (fun _ _ inv => inv) e _ inv

theorem loadSnapshot (stable : Stable P Inv) (inv : Inv e) (now : Time) (s : Storage) :
    Inv (s.loadSnapshot P now e).1 := by
  simp only [Storage.loadSnapshot]
  split
  · simp only [snapshotRead]
    split
    · exact inv
    split
    · exact inv
    split
    · exact inv
    split
    · exact inv
    split
    · exact inv
    · exact stable.restoreScan inv now _ _
  · exact inv

theorem loadShard (stable : Stable P Inv) (inv : Inv e) (now : Time) (order : MapOrder)
    (faults : Nat → Fault) (s : Storage) : Inv (s.loadShard P now order faults e).engine := by
  have snapped := stable.loadSnapshot inv now s
  simp only [Storage.loadShard]
  split
  · exact inv
  rcases loaded : s.loadSnapshot P now e with ⟨filled, _ | err⟩
  all_goals rw [loaded] at snapped
  · have replayed := stable.replayWAL snapped now s
    simp only
    split
    · exact replayed
    split
    · exact replayed
    · exact replayed
  · exact snapped

theorem run (stable : Stable P Inv) (now : Time) (order : MapOrder) (cfg : Config)
    (crypto : CryptoEngine) (draws : Nat) (store : Storage)
    (inv : Inv (Shard.newEngine cfg crypto draws)) :
    Inv (Shard.run P now order cfg crypto draws store).1.engine := by
  simp only [Shard.run]
  split
  · rcases store.openShard crypto with ⟨store, _ | err⟩
    · exact stable.loadShard inv now order _ store
    · exact inv
  · exact inv

theorem execute (stable : Stable P Inv) {s : Shard} (inv : Inv s.engine) (c : Request) :
    Inv (s.execute P c).1.engine := by
  unfold Shard.execute
  split
  · exact stable.get c.now s.engine c.key inv
  · have looked := stable.get c.now s.engine c.key inv
    have stored := stable.set c.now _ c.key c.value c.ttl looked
    simp only
    split
    · exact looked
    · split
      · rename_i rejected
        rw [rejected] at stored
        exact stored
      · rename_i accepted
        rw [accepted] at stored
        exact stored
  · split
    · exact inv
    · exact stable.delete c.now s.engine c.key inv
  · exact inv

end

end Engine.Stable

theorem Engine.accounted_stable {P : Primitives} (law : P.Lawful) (ceiling : Nat) :
    Engine.Stable P fun e => e.Accounted ∧ e.maxBytes = ceiling where
  set := by
    rintro now e key value ttl ⟨accounted, rfl⟩
    exact ⟨accounted.set law, Engine.set_maxBytes⟩
  setFromBuffer := by
    rintro now e buf keyLen ttl ⟨accounted, rfl⟩
    exact ⟨accounted.setFromBuffer law buf keyLen, Engine.setFromBuffer_maxBytes⟩
  setRaw := by
    rintro now e key value ttl ⟨accounted, rfl⟩
    exact ⟨accounted.setRaw, Engine.setRaw_maxBytes⟩
  delete := by
    rintro now e key ⟨accounted, rfl⟩
    exact ⟨accounted.delete, Engine.delete_maxBytes now e key⟩
  get := by
    rintro now e key ⟨accounted, rfl⟩
    exact ⟨accounted.get, Engine.get_maxBytes P now e key⟩

end Tellstone
