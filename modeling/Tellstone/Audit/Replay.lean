import Mathlib.Data.List.DropRight
import Tellstone.Audit.Reading
import Tellstone.Rbac.Log

/-! What a restart recovers: the end of the history in the audit files, and with it the end of
everything ACL LOG has to show. -/
namespace Tellstone.Audit
open ByteStream

section
variable {α β : Type}

def collect (maxEntries : Nat) (out : List α) : List α → List α
  | [] => out
  | entry :: earlier =>
    if out.length < maxEntries then collect maxEntries (out ++ [entry]) earlier else out

def walk (read : β → List α) (maxEntries : Nat) (out : List α) : List β → List α
  | [] => out
  | file :: earlier =>
    if out.length < maxEntries then
      walk read maxEntries (collect maxEntries out (read file).reverse) earlier
    else out

theorem collect_eq (maxEntries : Nat) (out entries : List α) :
    collect maxEntries out entries = out ++ entries.take (maxEntries - out.length) := by
  induction entries generalizing out with
  | nil => simp [collect]
  | cons entry earlier ih =>
    rw [collect]
    split
    · rename_i room
      have next : maxEntries - out.length = maxEntries - (out ++ [entry]).length + 1 := by
        rw [List.length_append, List.length_singleton]
        omega
      rw [ih, next, List.take_succ_cons, List.append_assoc]
      rfl
    · rename_i full
      rw [Nat.sub_eq_zero_of_le (Nat.le_of_not_lt full), List.take_zero, List.append_nil]

theorem walk_eq (read : β → List α) (maxEntries : Nat) (out : List α) (files : List β) :
    walk read maxEntries out files =
      out ++ (files.flatMap fun file => (read file).reverse).take (maxEntries - out.length) := by
  induction files generalizing out with
  | nil => simp [walk]
  | cons file earlier ih =>
    rw [walk]
    split
    · rw [ih, collect_eq, List.flatMap_cons, List.take_append, List.append_assoc,
        List.length_append, List.length_take]
      congr 3
      omega
    · rename_i full
      rw [Nat.sub_eq_zero_of_le (Nat.le_of_not_lt full), List.take_zero, List.append_nil]

theorem walk_reverse (read : β → List α) (maxEntries : Nat) (files : List β) :
    (walk read maxEntries [] files.reverse).reverse = (files.flatMap read).rtake maxEntries := by
  rw [walk_eq, List.rtake_eq_reverse_take_reverse, List.reverse_flatMap, List.nil_append]
  rfl

end

def auditFileSuffix : Bytes := ascii "_tsd.log"

/-- A directory entry, and what reading it gives if it can be read. -/
structure DirFile where
  name : Bytes
  contents : Option Bytes
  deriving DecidableEq, Repr

def paths (dir : List DirFile) : List DirFile :=
  (dir.filter fun file => auditFileSuffix.isSuffixOf file.name).insertionSort
    fun a b => a.name ≤ b.name

section
variable (P : Primitives) (J : Codec)

def replayAuthLog (ce : CryptoEngine) (dir : List DirFile) (maxEntries : Int) : List ReplayEntry :=
  if maxEntries ≤ 0 then []
  else
    (walk (fun file => readFile P J ce file.contents) maxEntries.toNat [] (paths dir).reverse).reverse

def history (ce : CryptoEngine) (dir : List DirFile) : List ReplayEntry :=
  (paths dir).flatMap fun file => readFile P J ce file.contents

theorem paths_sorted (dir : List DirFile) :
    (paths dir).Pairwise (fun a b => a.name ≤ b.name) ∧
      (paths dir).Perm (dir.filter fun file => auditFileSuffix.isSuffixOf file.name) := by
  refine ⟨?_, List.perm_insertionSort _ _⟩
  have total : Std.Total fun a b : DirFile => a.name ≤ b.name :=
    ⟨fun a b => List.le_total a.name b.name⟩
  have trans : IsTrans DirFile fun a b => a.name ≤ b.name := ⟨fun _ _ _ => List.le_trans⟩
  exact List.pairwise_insertionSort _ _

theorem replayAuthLog_eq (ce : CryptoEngine) (dir : List DirFile) (maxEntries : Int) :
    replayAuthLog P J ce dir maxEntries = (history P J ce dir).rtake maxEntries.toNat := by
  unfold replayAuthLog
  split
  · rename_i none
    rw [Int.toNat_of_nonpos none, List.rtake_zero]
  · exact walk_reverse _ _ _

def LogEngine.replayAuthLog (e : LogEngine) (dir : List DirFile) (maxEntries : Int) :
    List ReplayEntry :=
  if e.enabled then Audit.replayAuthLog P J e.file.ce dir maxEntries else []

def ReplayEntry.authLogEntry (r : ReplayEntry) : Rbac.AuthLogEntry :=
  ⟨r.timestamp, r.username, r.remoteAddr, r.reason⟩

/-- A replay returns the last entries of the files in the order of their names, and ACL LOG shows
the last hundred events, those of the earlier run first. -/
theorem authLog_last_events (ce : CryptoEngine) (dir : List DirFile) (maxEntries : Int)
    (policy : Option Rbac.PolicyStore) (allocated : Nat) (cost : Bytes → Bool)
    (seeded : List Rbac.AuthLogEntry) (events : List Rbac.Event) :
    ((paths dir).Pairwise (fun a b => a.name ≤ b.name) ∧
      (paths dir).Perm (dir.filter fun file => auditFileSuffix.isSuffixOf file.name) ∧
      replayAuthLog P J ce dir maxEntries =
        ((paths dir).flatMap fun file => readFile P J ce file.contents).rtake maxEntries.toNat) ∧
    (((Rbac.Store.new policy allocated).seedAuthLog seeded).afterAll cost events).authLog =
      (seeded ++ events.filterMap Rbac.Event.recorded).rtake
        (min (seeded ++ events.filterMap Rbac.Event.recorded).length 100) := by
  obtain ⟨sorted, found⟩ := paths_sorted dir
  refine ⟨⟨sorted, found, replayAuthLog_eq P J ce dir maxEntries⟩, ?_⟩
  have logged : (((Rbac.Store.new policy allocated).seedAuthLog seeded).afterAll cost events).Logged _ :=
    ((Rbac.Store.new_logged policy allocated).seedAuthLog seeded).afterAll events
  rw [logged.authLog, Rbac.buffered, List.rtake, List.nil_append, Rbac.defaultAuthLogCap]
  congr 1
  omega

end

end Tellstone.Audit
