import Tellstone.Lib.UpdateLog
import Tellstone.Persistence.Faults

/-! A log as updates of an expiring map: what a replay makes of the engine. -/
namespace Tellstone
open ByteStream ExpiringMap Framing

def LogCall.update : LogCall → Update Bytes Bytes
  | .write key value expiration => .set key value expiration
  | .delete key => .del key

def LogCall.dated : LogCall → Bool
  | .write _ _ (some t) => decide (0 < t) && decide (t < 2 ^ 63)
  | _ => true

theorem unixNano_of_lt {t : Nat} (small : t < 2 ^ 63) : unixNano t = t := by
  rw [unixNano, int64, Nat.mod_eq_of_lt (by omega), if_pos small]

theorem timeUntil_past {t now : Nat} (past : t ≤ now) : timeUntil t now ≤ 0 := by
  change max (-2 ^ 63 : Int) (min (2 ^ 63 - 1) (t - now)) ≤ 0
  omega

theorem timeUntil_ahead {t now : Nat} (small : t < 2 ^ 63) (ahead : now < t) :
    timeUntil t now = ((t - now : Nat) : Int) := by
  change max (-2 ^ 63 : Int) (min (2 ^ 63 - 1) (t - now)) = ((t - now : Nat) : Int)
  omega

section
variable {P : Primitives} {now : Nat} {e e' : Engine}

theorem replayRecord_eq {r : Record} (fits : r.Fits) :
    replayRecord P now e r =
      if r.ttlNano = tombstoneTTL then ((e.delete now r.key).1, none)
      else if r.ttlNano = 0 then e.set P now r.key r.value 0
      else if timeUntil r.ttlNano now ≤ 0 then (e, none)
      else e.set P now r.key r.value (timeUntil r.ttlNano now) := by
  have kept (ttl : Duration) : (e.set P now r.key r.value ttl).2 ≠ some .recordExpired := by
    rw [Engine.set_err]
    split <;> simp
  simp only [replayRecord, applyRecord, headerTTL_header fits]
  by_cases tombstone : r.ttlNano = tombstoneTTL
  · simp [tombstone]
  by_cases forever : r.ttlNano = 0
  · simp [forever, kept, tombstoneTTL]
  by_cases past : timeUntil r.ttlNano now ≤ 0
  · simp [tombstone, forever, past]
  · simp [tombstone, forever, past, kept]

theorem ttlNano_cases {key value : Bytes} {expiration : Option Nat}
    (dated : (LogCall.write key value expiration).dated = true) (now : Nat) :
    expiration = none ∨
      ttlNano expiration ≠ tombstoneTTL ∧ ttlNano expiration ≠ 0 ∧
        (Update.survives now expiration = false ∧ timeUntil (ttlNano expiration) now ≤ 0 ∨
          Update.survives now expiration = true ∧ ¬ timeUntil (ttlNano expiration) now ≤ 0 ∧
            expiry now (timeUntil (ttlNano expiration) now) = expiration) := by
  cases expiration with
  | none => exact Or.inl rfl
  | some t =>
    simp only [LogCall.dated, Bool.and_eq_true, decide_eq_true_eq] at dated
    have later : 0 < t := dated.1
    have small : t < 2 ^ 63 := dated.2
    simp only [ttlNano, unixNano_of_lt small, tombstoneTTL]
    refine Or.inr ⟨by omega, by omega, ?_⟩
    by_cases past : t ≤ now
    · exact Or.inl ⟨by simpa [Update.survives] using past, timeUntil_past past⟩
    · have ahead : now < t := Nat.lt_of_not_le past
      have positive : (0 : Int) < ((t - now : Nat) : Int) := by omega
      rw [timeUntil_ahead small ahead]
      refine Or.inr ⟨by simpa [Update.survives] using ahead, Int.not_le.mpr positive, ?_⟩
      rw [expiry, if_pos positive, Int.toNat_natCast, Nat.add_sub_of_le ahead.le]

theorem replayRecord_set (P : Primitives) (now : Nat) (e : Engine) {key value : Bytes}
    {expiration : Option Nat} (fits : (Record.set key value expiration).Fits)
    (dated : (LogCall.write key value expiration).dated = true) :
    Update.survives now expiration = false ∧
        replayRecord P now e (.set key value expiration) = (e, none) ∨
      Update.survives now expiration = true ∧ ∃ ttl, expiry now ttl = expiration ∧
        replayRecord P now e (.set key value expiration) = e.set P now key value ttl := by
  rw [replayRecord_eq fits]
  simp only [Record.set]
  rcases ttlNano_cases dated now with rfl | ⟨ordinary, finite, ⟨gone, past⟩ | ⟨alive, ahead, instant⟩⟩
  · exact Or.inr ⟨rfl, 0, rfl, by simp [ttlNano, tombstoneTTL]⟩
  · exact Or.inl ⟨gone, by simp only [ordinary, finite, past, ↓reduceIte]⟩
  · exact Or.inr ⟨alive, _, instant, by simp only [ordinary, finite, ahead, ↓reduceIte]⟩

theorem replayRecord_tombstone {key : Bytes} (fits : (Record.tombstone key).Fits) :
    replayRecord P now e (.tombstone key) = ((e.delete now key).1, none) := by
  rw [replayRecord_eq fits]
  exact if_pos rfl

theorem replayRecord_room (law : P.Lawful) {key value : Bytes} {expiration : Option Nat}
    (fits : (Record.set key value expiration).Fits)
    (dated : (LogCall.write key value expiration).dated = true)
    (room : Update.survives now expiration = false ∨
      e.full (key.length + e.crypto.storedSize value.length) = false) :
    ∃ e', replayRecord P now e (.set key value expiration) = (e', none) ∧
      e'.contents P = (Update.set key value expiration).replay now (e.contents P) := by
  rcases replayRecord_set P now e fits dated with ⟨gone, same⟩ | ⟨alive, ttl, instant, stored⟩
  · exact ⟨e, same, by simp [Update.replay, gone]⟩
  · have free : e.full (key.length + e.crypto.storedSize value.length) = false := by
      simpa [alive] using room
    refine ⟨_, stored.trans (Prod.ext rfl (Engine.set_ok_iff.mpr free)), ?_⟩
    simp [Update.replay, alive, Engine.contents_set law free, instant]

theorem replayRecord_contents (law : P.Lawful) {c : LogCall} (fits : c.record.Fits)
    (dated : c.dated = true) (ok : replayRecord P now e c.record = (e', none)) :
    e'.contents P = c.update.replay now (e.contents P) := by
  cases c with
  | write key value expiration =>
    rcases replayRecord_set P now e fits dated with ⟨gone, same⟩ | ⟨alive, ttl, instant, stored⟩
    · rw [LogCall.record, same] at ok
      cases ok
      simp [LogCall.update, Update.replay, gone]
    · rw [LogCall.record, stored] at ok
      simp [LogCall.update, Update.replay, alive, Engine.contents_set_ok law ok, instant]
  | delete key =>
    rw [LogCall.record, replayRecord_tombstone fits] at ok
    cases ok
    exact Engine.contents_delete P now e key

theorem replayRecords_contents (law : P.Lawful) {cs : List LogCall}
    (fits : ∀ c ∈ cs, c.record.Fits) (dated : ∀ c ∈ cs, c.dated = true)
    (ok : replayRecords P now e (cs.map LogCall.record) = (e', none)) :
    e'.contents P = Update.replayAll now (e.contents P) (cs.map LogCall.update) := by
  induction cs generalizing e with
  | nil =>
    cases ok
    rfl
  | cons c cs ih =>
    simp only [replayRecords, List.map_cons, foldUntil] at ok
    rcases first : replayRecord P now e c.record with ⟨e₁, _ | err⟩
    · simp only [first] at ok
      have rest := ih (fun b hb => fits b (List.mem_cons_of_mem c hb))
        (fun b hb => dated b (List.mem_cons_of_mem c hb)) ok
      rw [rest, replayRecord_contents law (fits c List.mem_cons_self)
        (dated c List.mem_cons_self) first]
      rfl
    · simp only [first] at ok
      cases ok

end

namespace Storage

def LogOf (P : Primitives) (s : Storage) (mode : WalMode) (cs : List LogCall) : Prop :=
  ∃ entries, s.Open P mode entries [] ∧ entries.map (·.record) = cs.map LogCall.record

section
variable {P : Primitives} {s s' : Storage} {mode : WalMode} {cs : List LogCall}

theorem LogOf.enabled (log : s.LogOf P mode cs) : s.enabled = true := by
  obtain ⟨entries, opened, -⟩ := log
  exact opened.enabled

theorem LogOf.accepts (log : s.LogOf P mode cs) : ∀ c ∈ cs, mode.accepts c = true := by
  obtain ⟨entries, ⟨-, -, h, rfl, logs⟩, records⟩ := log
  intro c mem
  have logged : c.record ∈ entries.map (·.record) := by
    rw [records]
    exact List.mem_map_of_mem mem
  obtain ⟨⟨ctr, r⟩, at_r, rfl⟩ := List.mem_map.mp logged
  exact (logs.fits _ at_r).accepts

theorem LogOf.fits (log : s.LogOf P mode cs) : ∀ c ∈ cs, c.record.Fits := by
  intro c mem
  exact (WalMode.accepts_fits (log.accepts c mem) 0).record

theorem LogOf.log (law : P.Lawful) (log : s.LogOf P mode cs) {fault : Fault} {c : LogCall}
    (ok : s.log P fault c = (s', none)) : s'.LogOf P mode (cs ++ [c]) := by
  obtain ⟨entries, opened, records⟩ := log
  obtain ⟨-, -, ctr, next⟩ := opened.log_ok law ok
  exact ⟨entries ++ [⟨ctr, c.record⟩], next, by simp [records]⟩

theorem LogOf.replayWAL (law : P.Lawful) (log : s.LogOf P mode cs)
    (dated : ∀ c ∈ cs, c.dated = true) (ctr : UInt64) {now : Time} {e e' : Engine}
    (replayed : replayRecords P now e (cs.map LogCall.record) = (e', none)) :
    ((s.reopened ctr).replayWAL P now e).err = none ∧
      ((s.reopened ctr).replayWAL P now e).engine.contents P =
        Update.replayAll now (e.contents P) (cs.map LogCall.update) := by
  have contents := replayRecords_contents law log.fits dated replayed
  obtain ⟨entries, opened, records⟩ := log
  rw [← records] at replayed
  obtain ⟨s', ran, -⟩ := (opened.reopened ctr).recovered law (Or.inl rfl) now replayed
  rw [ran]
  exact ⟨rfl, contents⟩

end

end Storage

end Tellstone
