import Tellstone.Audit.Record
import Tellstone.Network.Codec

/-! The writer of audit files: a header, records one after the other, sealed ones behind their
length, and a new file once enough was written. -/
namespace Tellstone.Audit
open ByteStream Network

def auditFileMagic : Bytes := ascii "TSDA"

def auditFileVersion : UInt8 := 1

inductive KeyMode where
  | simple
  | envelope
  deriving DecidableEq, Repr

def KeyMode.byte : KeyMode → UInt8
  | simple => 0
  | envelope => 1

def auditFileHeaderLen : Nat := 22

def rotateAfterBytes : Nat := 50 * 2 ^ 20

/-- The fingerprint of a key, or zeros. -/
abbrev Fingerprint := { fp : Bytes // fp.length = 16 }

def header (keyMode : KeyMode) (fingerprint : Fingerprint) : Bytes :=
  auditFileMagic ++ [auditFileVersion, keyMode.byte] ++ fingerprint.1

theorem header_length (keyMode : KeyMode) (fingerprint : Fingerprint) :
    (header keyMode fingerprint).length = auditFileHeaderLen := by
  simp [header, auditFileMagic, ascii, fingerprint.2, auditFileHeaderLen]

/-- The files of one writer: done with, being written, and begun but never written to. -/
structure AuditFile where
  ce : CryptoEngine
  keyMode : KeyMode
  fingerprint : Fingerprint
  maxSize : Nat
  closed : List Bytes
  current : Bytes
  unused : List Bytes
  bytesWritten : Nat

namespace AuditFile

def new (ce : CryptoEngine) (keyMode : KeyMode) (fingerprint : Fingerprint) : AuditFile :=
  ⟨ce, keyMode, fingerprint, rotateAfterBytes, [], header keyMode fingerprint, [], 0⟩

def segments (f : AuditFile) : List Bytes := f.closed ++ f.current :: f.unused

end AuditFile

/-- How a rotation fails: no new file with its header, or no close of the old one. -/
inductive RotateFate where
  | done
  | openFails
  | closeFails
  deriving DecidableEq, Repr

structure RecordFates where
  lengthWrite : Fault
  recordWrite : Fault
  rotate : RotateFate
  deriving DecidableEq, Repr

def RecordFates.healthy : RecordFates := ⟨none, none, .done⟩

namespace AuditFile

def append (f : AuditFile) (fault : Fault) (bs : Bytes) : AuditFile × Bool :=
  ({ f with current := f.current ++ fault.cut bs }, fault.isNone)

def rotate (f : AuditFile) (fate : RotateFate) : AuditFile × Bool :=
  match fate with
  | .openFails => (f, false)
  | .closeFails => ({ f with unused := f.unused ++ [header f.keyMode f.fingerprint] }, false)
  | .done =>
    ({ f with
        closed := f.closed ++ f.current :: f.unused
        current := header f.keyMode f.fingerprint
        unused := []
        bytesWritten := 0 }, true)

def writeRecord (f : AuditFile) (fates : RecordFates) (out : Bytes) : AuditFile × Bool :=
  match f.append fates.recordWrite out with
  | (f, false) => (f, false)
  | (f, true) =>
    let f := { f with bytesWritten := f.bytesWritten + out.length }
    if f.maxSize ≤ f.bytesWritten then f.rotate fates.rotate else (f, true)

def write (P : Primitives) (f : AuditFile) (draw : Nat) (fates : RecordFates) (p : Bytes) :
    AuditFile × Bool :=
  if f.ce.enabled then
    let out := f.ce.encryptInPlace P draw p
    match f.append fates.lengthWrite (putUintBE 4 out.length) with
    | (f, false) => (f, false)
    | (f, true) => { f with bytesWritten := f.bytesWritten + 4 }.writeRecord fates out
  else f.writeRecord fates p

end AuditFile

/-- One call of Record, with its time and what becomes of its writes. -/
structure Call where
  now : Nat
  event : EventType
  msg : Bytes
  fields : List Field
  fates : RecordFates

/-- `draws` counts the nonces, and `failed` says that a write failed before. -/
structure LogEngine where
  enabled : Bool
  filter : EventType → Bool
  file : AuditFile
  failed : Bool
  draws : Nat

namespace LogEngine

def new (filter : EventType → Bool) (file : AuditFile) : LogEngine := ⟨true, filter, file, false, 0⟩

def line (J : Codec) (call : Call) : Bytes :=
  J.encode (entryOf J call.now call.event call.msg call.fields)

/-- Events that are not asked for are passed over, and after a failure all of them are. -/
def record (P : Primitives) (J : Codec) (e : LogEngine) (call : Call) : LogEngine :=
  if e.enabled = false ∨ e.filter call.event = false then e
  else if e.failed then e
  else
    let (file, ok) := e.file.write P e.draws call.fates (line J call)
    { e with file := file, failed := !ok, draws := e.draws + 1 }

def recordAll (P : Primitives) (J : Codec) (e : LogEngine) (calls : List Call) : LogEngine :=
  calls.foldl (record P J) e

end LogEngine

end Tellstone.Audit
