import Tellstone.Persistence.Updates
import Tellstone.Storage.Accounting

/-! A replay under the memory ceiling: every record that has not expired is charged
in full when its turn comes. -/
namespace Tellstone
open ByteStream ExpiringMap Framing

section
variable {P : Primitives} {e : Engine}

theorem set_ledger (law : P.Lawful) (accounted : e.Accounted) {key value : Bytes} (now : Time)
    (ttl : Duration) (room : e.full (Engine.charge e.crypto key value) = false) :
    (e.set P now key value ttl).1.ledger = e.ledger.insert key (Engine.charge e.crypto key value) ∧
      (e.set P now key value ttl).1.Accounted := by
  have size := e.crypto.encryptInPlace_length law e.draws value
  have puts := Engine.set_puts P now ttl room
  constructor
  · rw [puts.ledger, size, Engine.charge]
  · exact accounted.set law

theorem replayRecords_admits (law : P.Lawful) (now : Nat) (accounted : e.Accounted)
    {cs : List LogCall} (fits : ∀ c ∈ cs, c.record.Fits)
    (dated : ∀ c ∈ cs, c.dated = true) :
    ((replayRecords P now e (cs.map LogCall.record)).2 = none ↔
      Ledger.admits (Engine.charge e.crypto) e.maxBytes e.ledger
        ((cs.map LogCall.update).filter (Update.effective now)) = true) ∧
    (replayRecords P now e (cs.map LogCall.record)).1.Accounted ∧
    (replayRecords P now e (cs.map LogCall.record)).1.maxBytes = e.maxBytes := by
  induction cs generalizing e with
  | nil => simp [replayRecords, foldUntil, Ledger.admits, accounted]
  | cons c cs ih =>
    obtain ⟨fits, laterFits⟩ := List.forall_mem_cons.mp fits
    obtain ⟨dated, laterDated⟩ := List.forall_mem_cons.mp dated
    simp only [replayRecords, List.map_cons, foldUntil]
    cases c with
    | write key value expiration =>
      rcases replayRecord_set P now e fits dated with ⟨gone, same⟩ | ⟨alive, ttl, -, stored⟩
      · rw [LogCall.record, same, LogCall.update,
          List.filter_cons_of_neg (by simpa [Update.effective] using gone)]
        exact ih accounted laterFits laterDated
      · rw [LogCall.record, stored, LogCall.update,
          List.filter_cons_of_pos (by simpa [Update.effective] using alive), Ledger.admits]
        cases room : e.full (Engine.charge e.crypto key value) with
        | true =>
          have none : e.ledger.room e.maxBytes (Engine.charge e.crypto key value) = false := by
            simpa [accounted.full_eq] using room
          rw [Engine.set_full room]
          simp [none, accounted]
        | false =>
          have free : e.ledger.room e.maxBytes (Engine.charge e.crypto key value) = true := by
            simpa [accounted.full_eq] using room
          obtain ⟨ledger, accounted'⟩ := set_ledger law accounted now ttl room
          have rest := ih accounted' laterFits laterDated
          rw [Engine.set_crypto, Engine.set_maxBytes, ledger] at rest
          rw [show e.set P now key value ttl = ((e.set P now key value ttl).1, none) from
            Prod.ext rfl (Engine.set_ok_iff.mpr room), free, Bool.true_and]
          exact rest
    | delete key =>
      have erased : (e.delete now key).1.Accounted := accounted.delete
      have rest := ih erased laterFits laterDated
      rw [Engine.delete_crypto, Engine.delete_maxBytes, Engine.delete_ledger] at rest
      rw [LogCall.record, replayRecord_tombstone fits]
      exact rest

end

end Tellstone
