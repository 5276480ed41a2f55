import Mathlib.Data.List.Forall2
import Tellstone.Audit.File

/-! What the files of an audit log hold along a run: the frames of some records, of which only the
last may be cut. -/
namespace Tellstone.Audit
open ByteStream Network Framing

/-- A record that was handed to the writer, with the number of its nonce. -/
structure Sealed where
  draw : Nat
  record : Bytes
  deriving DecidableEq, Repr

section
variable (P : Primitives) (ce : CryptoEngine)

def Sealed.blob (s : Sealed) : Bytes := ce.encryptInPlace P s.draw s.record

def Sealed.frame (s : Sealed) : Bytes := putUintBE 4 (s.blob P ce).length ++ s.blob P ce

def Holds (head seg : Bytes) (rs : List Sealed) : Prop :=
  ∃ n, seg = head ++ (rs.flatMap (Sealed.frame P ce)).take n

def LogEngine.handed (J : Codec) (e : LogEngine) : List Call → List Sealed
  | [] => []
  | call :: calls =>
    (if e.enabled = false ∨ e.filter call.event = false ∨ e.failed then []
      else [⟨e.draws, line J call⟩]) ++ (e.record P J call).handed J calls

end

section
variable {P : Primitives} {ce : CryptoEngine} {head seg : Bytes} {rs : List Sealed}

theorem Holds.whole (head : Bytes) (rs : List Sealed) :
    Holds P ce head (head ++ rs.flatMap (Sealed.frame P ce)) rs :=
  ⟨_, by rw [List.take_of_length_le (Nat.le_refl _)]⟩

theorem Holds.begun (head : Bytes) : Holds P ce head head [] := ⟨0, by simp⟩

theorem Holds.cut (rs : List Sealed) (s : Sealed) (n : Nat) :
    Holds P ce head (head ++ rs.flatMap (Sealed.frame P ce) ++ (s.frame P ce).take n)
      (rs ++ [s]) := by
  refine ⟨(rs.flatMap (Sealed.frame P ce)).length + n, ?_⟩
  rw [List.flatMap_append, List.flatMap_singleton, List.take_length_add_append, List.append_assoc]

end

namespace AuditFile

structure SameSetup (f f' : AuditFile) : Prop where
  ce : f'.ce = f.ce
  keyMode : f'.keyMode = f.keyMode
  fingerprint : f'.fingerprint = f.fingerprint

def head (f : AuditFile) : Bytes := header f.keyMode f.fingerprint

variable (P : Primitives) (f : AuditFile)

def Traced (parts : List (List Sealed)) : Prop :=
  List.Forall₂ (Holds P f.ce f.head) f.segments parts

/-- Nothing went wrong so far: the current file is whole and the last one. -/
structure Intact (earlier : List (List Sealed)) (rs : List Sealed) : Prop where
  closed : List.Forall₂ (Holds P f.ce f.head) f.closed earlier
  current : f.current = f.head ++ rs.flatMap (Sealed.frame P f.ce)
  unused : f.unused = []

variable {P f} {earlier : List (List Sealed)} {rs : List Sealed}

theorem Intact.traced (intact : f.Intact P earlier rs) : f.Traced P (earlier ++ [rs]) := by
  rw [Traced, segments, intact.unused, intact.current]
  exact List.rel_append intact.closed (.cons (.whole f.head rs) .nil)

theorem new_intact (P : Primitives) (ce : CryptoEngine) (keyMode : KeyMode)
    (fingerprint : Fingerprint) : (new ce keyMode fingerprint).Intact P [] [] where
  closed := .nil
  current := (List.append_nil _).symm
  unused := rfl

/-- What a write comes to: the record is in the log, and if the write failed it may be cut. -/
inductive Wrote (P : Primitives) (f : AuditFile) (before : List Sealed) (s : Sealed) :
    AuditFile × Bool → Prop where
  | whole {done : AuditFile} {earlier : List (List Sealed)} {rs : List Sealed}
    (same : SameSetup f done) (intact : done.Intact P earlier rs)
    (all : earlier.flatten ++ rs = before ++ [s]) : Wrote P f before s (done, true)
  | broken {done : AuditFile} {parts : List (List Sealed)} (same : SameSetup f done)
    (traced : done.Traced P parts) (all : parts.flatten = before ++ [s]) :
    Wrote P f before s (done, false)

theorem Intact.broken {done : AuditFile} {s : Sealed} {n : Nat} (intact : f.Intact P earlier rs)
    (same : SameSetup f done) (closed : done.closed = f.closed)
    (current : done.current = f.current ++ (s.frame P f.ce).take n)
    (unused : done.unused = []) : Wrote P f (earlier.flatten ++ rs) s (done, false) := by
  have kept : done.head = f.head := by rw [head, head, same.keyMode, same.fingerprint]
  have all : (earlier ++ [rs ++ [s]]).flatten = earlier.flatten ++ rs ++ [s] := by simp
  refine .broken same ?_ all
  rw [Traced, segments, same.ce, kept, closed, current, unused, intact.current]
  exact List.rel_append intact.closed (.cons (.cut rs s n) .nil)

theorem Intact.extended {done : AuditFile} {s : Sealed} (intact : f.Intact P earlier rs)
    (same : SameSetup f done) (closed : done.closed = f.closed)
    (current : done.current = f.current ++ s.frame P f.ce) (unused : done.unused = []) :
    done.Intact P earlier (rs ++ [s]) := by
  have kept : done.head = f.head := by rw [head, head, same.keyMode, same.fingerprint]
  refine ⟨?_, ?_, unused⟩
  · rw [same.ce, kept, closed]
    exact intact.closed
  · rw [same.ce, kept, current, intact.current, List.flatMap_append, List.flatMap_singleton,
      List.append_assoc]

theorem Intact.rotated {g : AuditFile} {s : Sealed} (intact : f.Intact P earlier (rs ++ [s]))
    (same : SameSetup g f) (fate : RotateFate) :
    Wrote P g (earlier.flatten ++ rs) s (f.rotate fate) := by
  have all : (earlier ++ [rs ++ [s]]).flatten = earlier.flatten ++ rs ++ [s] := by simp
  cases fate with
  | openFails => exact .broken same intact.traced all
  | closeFails =>
    have files := List.rel_append intact.traced (.cons (.begun f.head) .nil)
    have traced : (f.rotate .closeFails).1.Traced P (earlier ++ [rs ++ [s]] ++ [[]]) := by
      simpa [Traced, segments, rotate, intact.unused, head] using files
    exact .broken ⟨same.ce, same.keyMode, same.fingerprint⟩ traced (by simp)
  | done =>
    have next : (f.rotate .done).1.Intact P (earlier ++ [rs ++ [s]]) [] :=
      ⟨intact.traced, (List.append_nil _).symm, rfl⟩
    exact .whole ⟨same.ce, same.keyMode, same.fingerprint⟩ next (by simp)

theorem Intact.write (intact : f.Intact P earlier rs) (on : f.ce.enabled = true) (draw : Nat)
    (fates : RecordFates) (p : Bytes) :
    Wrote P f (earlier.flatten ++ rs) ⟨draw, p⟩ (f.write P draw fates p) := by
  rw [AuditFile.write, if_pos on]
  have frame : Sealed.frame P f.ce ⟨draw, p⟩ =
      putUintBE 4 (f.ce.encryptInPlace P draw p).length ++ f.ce.encryptInPlace P draw p := rfl
  have size : (putUintBE 4 (f.ce.encryptInPlace P draw p).length).length = 4 := putUintBE_length 4 _
  simp only
  generalize f.ce.encryptInPlace P draw p = out at frame size ⊢
  generalize putUintBE 4 out.length = len at frame size ⊢
  cases fates.lengthWrite with
  | some n =>
    have part : len.take n = (Sealed.frame P f.ce ⟨draw, p⟩).take (min n 4) := by
      rw [frame, List.take_append_of_le_length (by omega), ← size]
      exact List.take_eq_take_min
    simp only [append, Fault.cut, Option.isNone_some]
    exact intact.broken ⟨rfl, rfl, rfl⟩ rfl (congrArg _ part) intact.unused
  | none =>
    cases written : fates.recordWrite with
    | some n =>
      have part : len ++ out.take n = (Sealed.frame P f.ce ⟨draw, p⟩).take (len.length + n) := by
        rw [frame, List.take_length_add_append]
      simp only [append, Fault.cut, Option.isNone_none, writeRecord, written, Option.isNone_some,
        List.append_assoc]
      exact intact.broken ⟨rfl, rfl, rfl⟩ rfl (congrArg _ part) intact.unused
    | none =>
      simp only [append, Fault.cut, Option.isNone_none, writeRecord, written, List.append_assoc,
        ← frame]
      split
      · apply Intact.rotated
        · exact intact.extended ⟨rfl, rfl, rfl⟩ rfl rfl intact.unused
        · exact ⟨rfl, rfl, rfl⟩
      · refine .whole ⟨rfl, rfl, rfl⟩ (intact.extended ⟨rfl, rfl, rfl⟩ rfl rfl intact.unused) ?_
        rw [List.append_assoc]

end AuditFile

namespace LogEngine

variable {P : Primitives} {J : Codec} {e : LogEngine}

/-- The records so far are in the files: whole, unless a write failed. -/
inductive Kept (P : Primitives) (e : LogEngine) (rs : List Sealed) : Prop where
  | intact {earlier : List (List Sealed)} {last : List Sealed} (fine : e.failed = false)
    (files : e.file.Intact P earlier last) (all : earlier.flatten ++ last = rs)
  | broken {parts : List (List Sealed)} (failed : e.failed = true) (files : e.file.Traced P parts)
    (all : parts.flatten = rs)

theorem Kept.traced {rs : List Sealed} (kept : e.Kept P rs) :
    ∃ parts, e.file.Traced P parts ∧ parts.flatten = rs := by
  cases kept with
  | intact fine files all => exact ⟨_, files.traced, by simpa using all⟩
  | broken failed files all => exact ⟨_, files, all⟩

theorem Kept.record {rs : List Sealed} (kept : e.Kept P rs) (on : e.file.ce.enabled = true)
    (call : Call) :
    (e.record P J call).Kept P (rs ++ e.handed P J [call]) ∧
      AuditFile.SameSetup e.file (e.record P J call).file := by
  by_cases passed : e.enabled = false ∨ e.filter call.event = false ∨ e.failed = true
  · have same : e.record P J call = e := by
      unfold LogEngine.record
      rcases passed with off | out | failed
      · rw [if_pos (Or.inl off)]
      · rw [if_pos (Or.inr out)]
      · simp [failed]
    rw [same, handed, if_pos passed, same]
    exact ⟨by simpa [handed] using kept, rfl, rfl, rfl⟩
  · obtain ⟨enabled, wanted, fine⟩ : e.enabled ≠ false ∧ e.filter call.event ≠ false ∧
        ¬ e.failed = true := by simpa only [not_or] using passed
    cases kept with
    | broken failed files all => exact absurd failed fine
    | intact _ files all =>
      have wrote := files.write on e.draws call.fates (line J call)
      have handed : e.handed P J [call] = [⟨e.draws, line J call⟩] := by
        rw [handed, if_neg passed, handed, List.append_nil]
      rw [handed, LogEngine.record, if_neg (not_or.mpr ⟨enabled, wanted⟩), if_neg fine, ← all]
      generalize e.file.write P e.draws call.fates (line J call) = written at wrote ⊢
      cases wrote with
      | whole same intact all => exact ⟨.intact rfl intact all, same⟩
      | broken same traced all => exact ⟨.broken rfl traced all, same⟩

theorem handed_cons (call : Call) (calls : List Call) :
    e.handed P J (call :: calls) = e.handed P J [call] ++ (e.record P J call).handed P J calls := by
  rw [handed, handed, handed, List.append_nil]

theorem Kept.recordAll {rs : List Sealed} (kept : e.Kept P rs) (on : e.file.ce.enabled = true)
    (calls : List Call) :
    (e.recordAll P J calls).Kept P (rs ++ e.handed P J calls) ∧
      AuditFile.SameSetup e.file (e.recordAll P J calls).file := by
  induction calls generalizing e rs with
  | nil => exact ⟨by simpa [LogEngine.recordAll, handed] using kept, rfl, rfl, rfl⟩
  | cons call calls ih =>
    obtain ⟨next, same⟩ := kept.record on call (J := J)
    obtain ⟨rest, setup⟩ := ih next (by rw [same.ce]; exact on)
    rw [handed_cons, ← List.append_assoc]
    refine ⟨rest, ?_⟩
    exact ⟨setup.ce.trans same.ce, setup.keyMode.trans same.keyMode,
      setup.fingerprint.trans same.fingerprint⟩

end LogEngine

end Tellstone.Audit
