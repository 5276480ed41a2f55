import Tellstone.Crypto
import Tellstone.Lib.Resp2
import Tellstone.Rbac.Role

/-! What the errors of the store and of the policy read. -/
namespace Tellstone
open ByteStream Resp2

/-- What the source takes from outside: strconv.Quote, the words of failed system calls, bcrypt
over a random salt, RFC 3339 times. `useRaw` says that the engines encrypt. -/
structure Platform where
  quote : Bytes → Bytes
  system : Error → Bytes
  bcrypt : Bytes → Bytes → Except Bytes Bytes
  formatTime : Nat → Bytes
  useRaw : Bool

/-- Quote escapes control characters, and errors from outside are one line. -/
structure Platform.Documented (pl : Platform) : Prop where
  quote (b : Bytes) : Plain (pl.quote b)
  system (err : Error) : Plain (pl.system err)
  bcrypt {salt password text : Bytes} (failed : pl.bcrypt salt password = .error text) : Plain text

namespace Platform

def errorText (pl : Platform) : Error → Bytes
  | .engineFull => ascii "memory: limit reached"
  | .invalidKeyLength => ascii "storage: invalid key length for SetFromBuffer"
  | .decryptionFailed => ascii "cipher: authentication failed during decryption"
  | .badKeyLength => ascii "crypto: encryption key must be exactly 32 bytes"
  | .badNonce got => ascii "crypto: nonce must be 12 bytes, got " ++ number got
  | .io => pl.system .io
  | .recordExpired => ascii "persistence: record expired"
  | .shardNotOpened shard => ascii "persistence: shard " ++ number shard ++ ascii " not opened"
  | .migrationInProgress shard =>
    ascii "persistence: shard " ++ number shard ++ ascii " migration in progress, writes blocked"
  | .keyTooLarge bytes =>
    ascii "persistence: key too large (" ++ number bytes ++ ascii " bytes, max 4294967295)"
  | .valueTooLarge bytes =>
    ascii "persistence: value too large (" ++ number bytes ++ ascii " bytes, max 4294967295)"
  | .recordTooLarge bytes =>
    ascii "persistence: encrypted record too large (" ++ number bytes ++
      ascii " bytes, max 4294967295)"
  | .readWALHeader => ascii "persistence: read WAL header: " ++ pl.system .readWALHeader
  | .encryptedWithoutKey shard =>
    ascii "persistence: shard " ++ number shard ++ ascii " has encrypted WAL but no crypto engine"
  | .migrationDecrypt key cause =>
    ascii "persistence: migration decrypt " ++ pl.quote key ++ ascii ": " ++ pl.errorText cause
  | .migrationWrite key cause =>
    ascii "persistence: migration write " ++ pl.quote key ++ ascii ": " ++ pl.errorText cause
  | .loadSnapshot shard cause =>
    ascii "persistence: load shard " ++ number shard ++ ascii " snapshot: " ++ pl.errorText cause
  | .snapshotOpen => ascii "snapshot: open " ++ pl.system .snapshotOpen
  | .snapshotHeader => ascii "snapshot: read header: " ++ pl.system .snapshotHeader
  | .snapshotMagic found =>
    ascii "snapshot: invalid magic " ++ pl.quote found ++ ascii " (want " ++
      pl.quote (ascii "TSNS") ++ ascii ")"
  | .snapshotVersion found =>
    ascii "snapshot: unsupported version " ++ number found ++ ascii " (want 1 or 2)"
  | .snapshotFingerprintRead =>
    ascii "snapshot: read v2 fingerprint: " ++ pl.system .snapshotFingerprintRead
  | .snapshotFingerprint =>
    ascii "snapshot: key fingerprint mismatch (snapshot was encrypted with a different key)"
  | .snapshotEntryHeader => ascii "snapshot: read entry header: " ++ pl.system .snapshotEntryHeader
  | .snapshotLengths key value remaining =>
    ascii "snapshot: invalid entry lengths key=" ++ number key ++ ascii " val=" ++ number value ++
      ascii " (remaining=" ++ number remaining ++ ascii ")"
  | .snapshotEntry => ascii "snapshot: read key+value: " ++ pl.system .snapshotEntry
  | .snapshotChecksum file computed =>
    ascii "snapshot: checksum mismatch (file=" ++ number file ++ ascii ", computed=" ++
      number computed ++ ascii ")"
  | .snapshotSet cause =>
    (if pl.useRaw then ascii "snapshot: engine.SetRaw: "
      else ascii "snapshot: engine.SetFromBuffer: ") ++ pl.errorText cause
  | .snapshotChild => ascii "snapshot: child: " ++ pl.system .snapshotChild
  | .shardStopped => ascii "shard: stopped"
  | .openPersistence shard cause =>
    ascii "shard " ++ number shard ++ ascii ": open persistence: " ++ pl.errorText cause
  | .loadPersistence shard cause =>
    ascii "shard " ++ number shard ++ ascii ": load persistence: " ++ pl.errorText cause

def rbacText (pl : Platform) : Rbac.Error → Bytes
  | .noRules role => ascii "rbac: role " ++ pl.quote role ++ ascii " requires at least one rule"
  | .unknownCategory name => ascii "rbac: unknown category " ++ pl.quote name
  | .unknownCommand name role =>
    ascii "rbac: unknown command " ++ pl.quote name ++ ascii " in role " ++ pl.quote role
  | .malformedRule rule role =>
    ascii "rbac: malformed rule " ++ pl.quote rule ++ ascii " in role " ++ pl.quote role
  | .roleWithoutName => ascii "rbac: role without a name"
  | .duplicateRole name => ascii "rbac: duplicate role " ++ pl.quote name
  | .userWithoutName => ascii "rbac: user without a name"
  | .duplicateUser name => ascii "rbac: duplicate user " ++ pl.quote name
  | .userUnknownRole user role =>
    ascii "rbac: user " ++ pl.quote user ++ ascii " references unknown role " ++ pl.quote role
  | .passwordAndNopass user =>
    ascii "rbac: user " ++ pl.quote user ++ ascii " sets both password and nopass"
  | .noPassword user =>
    ascii "rbac: user " ++ pl.quote user ++
      ascii " has no password; set nopass: true for a passwordless user"
  | .notBcrypt user =>
    ascii "rbac: user " ++ pl.quote user ++ ascii " password is not a valid bcrypt hash"
  | .undefinedDefault role =>
    ascii "rbac: default_role " ++ pl.quote role ++ ascii " is not a defined role"
  | .ruleWithoutClaim => ascii "rbac: oauth rule without a claim"
  | .ruleWithoutMatch claim =>
    ascii "rbac: oauth rule for claim " ++ pl.quote claim ++ ascii " without a match pattern"
  | .ruleWithoutRole claim =>
    ascii "rbac: oauth rule for claim " ++ pl.quote claim ++ ascii " without a role"
  | .ruleUnknownRole role => ascii "rbac: oauth rule references unknown role " ++ pl.quote role
  | .middleWildcard pattern =>
    ascii "rbac: oauth rule match " ++ pl.quote pattern ++
      ascii ": only a leading or trailing * is allowed"
  | .roleExists name => ascii "rbac: role " ++ pl.quote name ++ ascii " already exists"
  | .unknownRole name => ascii "rbac: unknown role " ++ pl.quote name
  | .lastAdmin user =>
    ascii "rbac: cannot delete " ++ pl.quote user ++
      ascii ": last user with ACL management rights"
  | .roleMissing name => ascii "rbac: role " ++ pl.quote name ++ ascii " does not exist"

variable {pl : Platform}

theorem errorText_plain (documented : pl.Documented) (err : Error) : Plain (pl.errorText err) := by
  induction err
  case snapshotSet cause ih =>
    rw [errorText, plain_append]
    refine ⟨?_, ih⟩
    split <;> exact plain_ascii (by decide)
  all_goals
    simp only [errorText, plain_append, plain_number, documented.quote, documented.system, *,
      and_true]
  all_goals repeat' apply And.intro
  all_goals exact plain_ascii (by decide)

theorem rbacText_plain (documented : pl.Documented) (err : Rbac.Error) :
    Plain (pl.rbacText err) := by
  cases err
  all_goals simp only [rbacText, plain_append, documented.quote, and_true]
  all_goals repeat' apply And.intro
  all_goals exact plain_ascii (by decide)

end Platform

end Tellstone
