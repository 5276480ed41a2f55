import Tellstone.Lib.Framing
import Tellstone.Storage.Engine

/-! The write-ahead log of one shard: record layout, the files of a shard's
data directory, and the append path of both formats. -/
namespace Tellstone
open ByteStream

def walMagic : Bytes := [0x54, 0x53, 0x57, 0x01]

def walMagicLen : Nat := 4

def maxUint32 : Nat := 2 ^ 32 - 1

def tombstoneTTL : Int := -2 ^ 63

def unixNano (t : Time) : Int := int64 (t % 2 ^ 64)

def ttlNano : Option Time → Int
  | none => 0
  | some t => unixNano t

structure Record where
  ttlNano : Int
  key : Bytes
  value : Bytes
  deriving DecidableEq, Repr

namespace Record

def set (key value : Bytes) (expiration : Option Time) : Record :=
  ⟨Tellstone.ttlNano expiration, key, value⟩

def tombstone (key : Bytes) : Record := ⟨tombstoneTTL, key, []⟩

def header (r : Record) : Bytes :=
  putUint 4 r.key.length ++ putUint 4 r.value.length ++ putUint 8 (word64 r.ttlNano)

def bytes (r : Record) : Bytes := r.header ++ r.key ++ r.value

/-- Every field fits its place in the header. -/
structure Fits (r : Record) : Prop where
  key : r.key.length ≤ maxUint32
  value : r.value.length ≤ maxUint32
  ttlLow : -2 ^ 63 ≤ r.ttlNano
  ttlHigh : r.ttlNano < 2 ^ 63

structure Short (r : Record) : Prop where
  key : r.key.length ≤ maxUint32
  value : r.value.length ≤ maxUint32

theorem Fits.short {r : Record} (fits : r.Fits) : r.Short := ⟨fits.key, fits.value⟩

@[simp] theorem header_length (r : Record) : r.header.length = 16 := by
  simp [header]

theorem bytes_length (r : Record) : r.bytes.length = 16 + r.key.length + r.value.length := by
  simp [bytes]
  omega

@[simp] theorem bytes_take (r : Record) : r.bytes.take 16 = r.header := by
  rw [bytes, List.append_assoc, List.take_left' r.header_length]

@[simp] theorem bytes_drop (r : Record) : r.bytes.drop 16 = r.key ++ r.value := by
  rw [bytes, List.append_assoc, List.drop_left' r.header_length]

end Record

structure SealCall where
  key : CipherKey
  nonce : Bytes
  plaintext : Bytes
  deriving DecidableEq, Repr

def counterNonce (ctr : UInt64) (shardID : Nat) : Bytes :=
  putUint 8 ctr.toNat ++ putUint 4 shardID

def counterOf (bs : Bytes) : UInt64 := .ofNat (uint (bs.take 8))

@[simp] theorem counterNonce_length (ctr : UInt64) (shardID : Nat) :
    (counterNonce ctr shardID).length = 12 := by
  simp [counterNonce]

theorem counterOf_putUint (ctr : UInt64) (rest : Bytes) :
    counterOf (putUint 8 ctr.toNat ++ rest) = ctr := by
  have small : ctr.toNat < 256 ^ 8 := ctr.toNat_lt
  rw [counterOf, List.take_left' (putUint_length 8 _), uint_putUint_of_lt small,
    UInt64.ofNat_toNat]

/-- A file open for encrypted appends. `sealed` is the history of SealWithCounter calls of the
shard. -/
structure SealedFile where
  bytes : Bytes
  key : CipherKey
  nonceCtr : UInt64
  shardID : Nat
  sealed : List SealCall
  deriving DecidableEq, Repr

def sealedLen (r : Record) : Nat := 12 + (r.bytes.length + 16)

/-- The counter is taken and the record sealed before the size check and the writes. -/
def appendRecordEncrypted (P : Primitives) (fault : Fault) (f : SealedFile) (r : Record) :
    SealedFile × Option Error :=
  let plaintext := r.bytes
  let nonce := counterNonce f.nonceCtr f.shardID
  let f := { f with
    nonceCtr := f.nonceCtr + 1
    sealed := f.sealed ++ [⟨f.key, nonce, plaintext⟩] }
  match (CryptoEngine.chacha f.key).sealWithCounter P nonce plaintext with
  | .error e => (f, some e)
  | .ok ciphertext =>
    let recLen := 12 + ciphertext.length
    if recLen > maxUint32 then (f, some (.recordTooLarge recLen))
    else
      let (written, ok) := writeSync fault [putUint 4 recLen, nonce, ciphertext]
      ({ f with bytes := f.bytes ++ written }, if ok then none else some .io)

/-- A plaintext log opened with a key is `migrating` until LoadShard has rewritten it. -/
inductive WalMode where
  | plaintext
  | encrypted (key : CipherKey)
  | migrating (pending : CipherKey)
  deriving DecidableEq, Repr

def WalMode.crypto : WalMode → Option CryptoEngine
  | .encrypted key => some (.chacha key)
  | _ => none

structure ShardHandle where
  mode : WalMode
  nonceCtr : UInt64
  deriving DecidableEq, Repr

/-- The files of one shard: shard_NNN.db, .snap, .nonce and .db.migrating. -/
structure Disk where
  wal : Option Bytes
  snap : Option Bytes
  nonce : Option Bytes
  migrating : Option Bytes
  deriving DecidableEq, Repr

def Disk.empty : Disk := ⟨none, none, none, none⟩

/-- The part of one shard. The handle's file is the `wal` of the disk; `sealed` records the
SealWithCounter calls. -/
structure Storage where
  enabled : Bool
  shardID : Nat
  disk : Disk
  handle : Option ShardHandle
  sealed : List SealCall
  deriving DecidableEq, Repr

namespace Storage

def wal (s : Storage) : Bytes := s.disk.wal.getD []

def setWal (s : Storage) (bytes : Bytes) : Storage :=
  { s with disk := { s.disk with wal := some bytes } }

def appendRecord (P : Primitives) (fault : Fault) (s : Storage) (r : Record) :
    Storage × Option Error :=
  match s.handle with
  | none => (s, some (.shardNotOpened s.shardID))
  | some h =>
    match h.mode with
    | .migrating _ => (s, some (.migrationInProgress s.shardID))
    | .encrypted key =>
      let (f, err) := appendRecordEncrypted P fault ⟨s.wal, key, h.nonceCtr, s.shardID, s.sealed⟩ r
      ({ s.setWal f.bytes with handle := some { h with nonceCtr := f.nonceCtr }, sealed := f.sealed },
        err)
    | .plaintext =>
      let (written, ok) := writeSync fault [r.header, r.key, r.value]
      (s.setWal (s.wal ++ written), if ok then none else some .io)

def write (P : Primitives) (fault : Fault) (s : Storage) (key value : Bytes)
    (expiration : Option Time) : Storage × Option Error :=
  if !s.enabled then (s, none)
  else if key.length > maxUint32 then (s, some (.keyTooLarge key.length))
  else if value.length > maxUint32 then (s, some (.valueTooLarge value.length))
  else s.appendRecord P fault (.set key value expiration)

def delete (P : Primitives) (fault : Fault) (s : Storage) (key : Bytes) :
    Storage × Option Error :=
  if !s.enabled then (s, none)
  else if key.length > maxUint32 then (s, some (.keyTooLarge key.length))
  else s.appendRecord P fault (.tombstone key)

end Storage

end Tellstone
