import Mathlib.Data.List.Sort
import Tellstone.Rbac.Manager
import Tellstone.Texts

/-! What is read off a policy for the listings, and the password options of SETUSER. -/
namespace Tellstone.Rbac
open ByteStream

/-- Letters in one case. Two from outside ASCII fold into it: long s and the Kelvin sign. -/
def fold : Bytes → Bytes
  | 0xc5 :: 0xbf :: rest => 115 :: fold rest
  | 0xe2 :: 0x84 :: 0xaa :: rest => 107 :: fold rest
  | b :: rest => (if 65 ≤ b ∧ b ≤ 90 then b + 32 else b) :: fold rest
  | [] => []

def equalFold (a literal : Bytes) : Bool := decide (fold a = literal)

def sortStrings (names : List Bytes) : List Bytes := names.insertionSort fun a b => a ≤ b

def sorted {β : Type} (m : AList (fun _ : Bytes => β)) : List (Bytes × β) :=
  (m.entries.map fun entry => (entry.1, entry.2)).insertionSort fun a b => a.1 ≤ b.1

theorem length_sorted {β : Type} (m : AList (fun _ : Bytes => β)) :
    (sorted m).length = m.keys.length := by
  rw [sorted, List.length_insertionSort, List.length_map, AList.keys, List.keys, List.length_map]

def commandName (id : UInt16) : Option Bytes :=
  (allCommands.find? fun cmd => decide (cmd.id = id)).map Cmd.name

def wordCommands (w : UInt64) (i : Nat) : List Bytes :=
  if w = 0 then []
  else
    (List.range 64).filterMap fun bit =>
      if w &&& ((1 : UInt64) <<< bit.toUInt64) = 0 then none else commandName (i * 64 + bit).toUInt16

def Role.grantedCommands (r : Role) : List Bytes :=
  sortStrings (r.permissions.zipIdx.flatMap fun (w, i) => wordCommands w i)

def categoriesForCommand (cmd : Cmd) : List Bytes :=
  sortStrings
    ((categories.filter fun c => decide (c.1 ≠ ascii "none") && c.2.contains cmd).map Prod.fst)

def Store.authLog (s : Store) : List AuthLogEntry :=
  if s.logLen = 0 then []
  else
    let start : Int := (s.logHead : Int) - s.logLen
    let start := if start < 0 then start + s.log.length else start
    (List.range s.logLen).map fun i =>
      s.log.getD ((start + i) % s.log.length).toNat ⟨0, [], [], []⟩

def passwordFromOpts (pl : Platform) : Bytes → Bytes → List Bytes → Except Bytes Bytes
  | _, passHash, [] => .ok passHash
  | salt, _, opt :: opts =>
    if equalFold opt (ascii "nopass") then passwordFromOpts pl salt [] opts
    else if 1 < opt.length ∧ opt.head? = some 62 then
      match pl.bcrypt (salt.take 16) (opt.drop 1) with
      | .error text => .error text
      | .ok h => passwordFromOpts pl (salt.drop 16) h opts
    else .error (ascii "rbac: malformed password option " ++ pl.quote opt)

theorem passwordFromOpts_plain {pl : Platform} (documented : pl.Documented)
    {salt passHash text : Bytes} {opts : List Bytes}
    (refused : passwordFromOpts pl salt passHash opts = .error text) : Resp2.Plain text := by
  induction opts generalizing salt passHash with
  | nil => cases refused
  | cons opt opts ih =>
    unfold passwordFromOpts at refused
    split at refused
    · exact ih refused
    · split at refused
      · cases hashed : pl.bcrypt (salt.take 16) (opt.drop 1) with
        | error reason =>
          simp only [hashed] at refused
          cases refused
          exact documented.bcrypt hashed
        | ok h =>
          simp only [hashed] at refused
          exact ih refused
      · cases refused
        exact Resp2.plain_append.mpr ⟨Resp2.plain_ascii (by decide), documented.quote opt⟩

end Tellstone.Rbac
