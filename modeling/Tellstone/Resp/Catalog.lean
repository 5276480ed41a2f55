import Mathlib.Data.List.Infix
import Tellstone.Lib.Glob
import Tellstone.Rbac.Listing
import Tellstone.Resp.Protocol

/-! The COMMAND family: the fixed table of the commands, and what the subcommands tell of
it. -/
namespace Tellstone.Resp
open ByteStream

def appendSimpleString (dst s : Bytes) : Bytes := dst ++ 43 :: s ++ [13, 10]

def appendBulks (dst : Bytes) (bs : List Bytes) : Bytes :=
  bs.foldl appendBulk (appendArray dst bs.length)

def appendSimpleStringArray (dst : Bytes) (texts : List Bytes) : Bytes :=
  texts.foldl appendSimpleString (appendArray dst texts.length)

def wrongNumber (command : Bytes) : Bytes :=
  ascii "ERR wrong number of arguments for '" ++ command ++ ascii "' command"

/-- A negative arity is a minimum; a `lastKey` of -1 is the end of the arguments. -/
structure CommandSpec where
  name : String
  arity : Int
  flags : List String := []
  firstKey : Int := 0
  lastKey : Int := 0
  step : Int := 0
  summary : String
  since : String
  group : String
  complexity : String
  subs : List CommandSpec := []

def CommandSpec.sub (name : String) (arity : Int) (summary since complexity : String) :
    CommandSpec where
  name := name
  arity := arity
  summary := summary
  since := since
  group := "server"
  complexity := complexity

def respCommands : List CommandSpec :=
  [{ name := "acl"
     arity := -2
     flags := ["admin", "noscript", "loading", "stale"]
     summary := "Manage the access control list"
     since := "1.1.0"
     group := "server"
     complexity := "O(1)"
     subs :=
      [.sub "setuser" (-4) "Modify or create a user" "1.1.0" "O(1)",
        .sub "deluser" 3 "Delete a user" "1.1.0" "O(1)",
        .sub "list" 2 "List users and their rules" "1.1.0" "O(N)",
        .sub "log" (-2) "Show recent ACL denials" "1.1.0" "O(N)"] },
   { name := "auth"
     arity := -2
     flags := ["noscript", "loading", "stale", "fast"]
     summary := "Authenticate to the server"
     since := "1.0.0"
     group := "connection"
     complexity := "O(1)" },
   { name := "command"
     arity := -1
     summary := "Get details about server commands"
     since := "2.8.13"
     group := "server"
     complexity := "O(N)"
     subs :=
      [.sub "count" 2 "Return the total number of commands in the server" "1.2.0" "O(1)",
        .sub "docs" (-2) "Return documentary information about commands" "1.2.0" "O(N)",
        .sub "info" (-2) "Return details about multiple commands" "1.2.0" "O(N)",
        .sub "list" (-2) "Return a list of the server's command names" "1.2.0" "O(N)",
        .sub "help" 2 "Print this help" "1.2.0" "O(1)"] },
   { name := "del"
     arity := -2
     flags := ["write"]
     firstKey := 1
     lastKey := -1
     step := 1
     summary := "Delete one or more keys"
     since := "1.0.0"
     group := "generic"
     complexity := "O(N)" },
   { name := "get"
     arity := 2
     flags := ["readonly", "fast"]
     firstKey := 1
     lastKey := 1
     step := 1
     summary := "Get the value of a key"
     since := "1.0.0"
     group := "string"
     complexity := "O(1)" },
   { name := "ping"
     arity := -1
     flags := ["fast"]
     summary := "Ping the server"
     since := "1.0.0"
     group := "connection"
     complexity := "O(1)" },
   { name := "quit"
     arity := 1
     flags := ["noscript", "loading", "stale"]
     summary := "Close the connection"
     since := "1.0.0"
     group := "connection"
     complexity := "O(1)" },
   { name := "role"
     arity := -2
     flags := ["admin", "noscript", "loading", "stale"]
     summary := "Manage the access control list roles"
     since := "1.1.0"
     group := "server"
     complexity := "O(1)"
     subs :=
      [.sub "create" (-4) "Create a role" "1.1.0" "O(1)",
        .sub "setuser" (-4) "Assign a role and password to a user" "1.1.0" "O(1)",
        .sub "deluser" 3 "Delete a user" "1.1.0" "O(1)",
        .sub "delete" 3 "Delete a role" "1.1.0" "O(1)",
        .sub "list" 2 "List roles and their users" "1.1.0" "O(N)",
        .sub "getuser" 3 "Show a user's role" "1.1.0" "O(1)"] },
   { name := "set"
     arity := -3
     flags := ["write", "denyoom"]
     firstKey := 1
     lastKey := 1
     step := 1
     summary :=
      "Set the string value of a key, ignoring its type. The key is created if it doesn't exist."
     since := "1.0.0"
     group := "string"
     complexity := "O(1)" },
   { name := "starttls"
     arity := 1
     flags := ["noscript", "loading", "stale"]
     summary := "Upgrade the connection to TLS"
     since := "1.1.0"
     group := "connection"
     complexity := "O(1)" }]

/-- The categories that grant a command of the table. QUIT and STARTTLS are in none. -/
def aclCategories (name : Bytes) : List Bytes :=
  if respCommands.any fun c => decide (ascii c.name = name) then
    ((Rbac.lookupCommand name).map Rbac.categoriesForCommand).getD []
  else []

/-- A command, or a subcommand that is named behind a bar, with the name of its parent. -/
def findCommand (name : Bytes) : Option (CommandSpec × Option Bytes) :=
  match respCommands.find? fun c => Rbac.equalFold name (ascii c.name) with
  | some c => some (c, none)
  | none =>
    (name.idxOf? 124).bind fun idx =>
      respCommands.findSome? fun c =>
        if Rbac.equalFold (name.take idx) (ascii c.name) then
          (c.subs.find? fun sub => Rbac.equalFold (name.drop (idx + 1)) (ascii sub.name)).map
            fun sub => (sub, some (ascii c.name))
        else none

def fullName (parent : Option Bytes) (name : String) : Bytes :=
  match parent with
  | none => ascii name
  | some parent => parent ++ ascii "|" ++ ascii name

def appendACLCats (out : Bytes) (cats : List Bytes) : Bytes :=
  appendSimpleStringArray out (cats.map fun cat => ascii "@" ++ cat)

def appendKeySpecs (out : Bytes) (flags : List String) (firstKey lastKey step : Int) : Bytes :=
  if firstKey = 0 then appendArray out 0
  else
    let access := if flags.contains "write" then ["RW", "access", "update"] else ["RO", "access"]
    let lastkey := if lastKey = -1 then -1 else lastKey - firstKey
    let out := appendArray out 1
    let out := appendArray out 6
    let out := appendBulk out (ascii "flags")
    let out := appendSimpleStringArray out (access.map ascii)
    let out := appendBulk out (ascii "begin_search")
    let out := appendArray out 4
    let out := appendBulk out (ascii "type")
    let out := appendBulk out (ascii "index")
    let out := appendBulk out (ascii "spec")
    let out := appendArray out 2
    let out := appendBulk out (ascii "index")
    let out := appendInt out firstKey
    let out := appendBulk out (ascii "find_keys")
    let out := appendArray out 4
    let out := appendBulk out (ascii "type")
    let out := appendBulk out (ascii "range")
    let out := appendBulk out (ascii "spec")
    let out := appendArray out 6
    let out := appendBulk out (ascii "lastkey")
    let out := appendInt out lastkey
    let out := appendBulk out (ascii "keystep")
    let out := appendInt out step
    let out := appendBulk out (ascii "limit")
    appendInt out 0

mutual

def appendCommandInfo (out : Bytes) (parent : Option Bytes) : CommandSpec → Bytes
  | ⟨name, arity, flags, firstKey, lastKey, step, _, _, _, _, subs⟩ =>
    let name := fullName parent name
    let out := appendArray out 10
    let out := appendBulk out name
    let out := appendInt out arity
    let out := appendSimpleStringArray out (flags.map ascii)
    let out := appendInt out firstKey
    let out := appendInt out lastKey
    let out := appendInt out step
    let out := appendACLCats out (aclCategories name)
    let out := appendArray out 0
    let out := appendKeySpecs out flags firstKey lastKey step
    appendSubcommands (appendArray out subs.length) name subs

def appendSubcommands (out : Bytes) (parent : Bytes) : List CommandSpec → Bytes
  | [] => out
  | sub :: subs => appendSubcommands (appendCommandInfo out (some parent) sub) parent subs

end

def appendCommandDoc (parent : Option Bytes) (out : Bytes) (c : CommandSpec) : Bytes :=
  let out := appendBulk out (fullName parent c.name)
  let out := appendArray out 8
  let out := appendBulk out (ascii "summary")
  let out := appendBulk out (ascii c.summary)
  let out := appendBulk out (ascii "since")
  let out := appendBulk out (ascii c.since)
  let out := appendBulk out (ascii "group")
  let out := appendBulk out (ascii c.group)
  let out := appendBulk out (ascii "complexity")
  appendBulk out (ascii c.complexity)

def appendCommandDocSubs (out : Bytes) (c : CommandSpec) : Bytes :=
  c.subs.foldl (appendCommandDoc (some (ascii c.name))) out

def commandCount (args : List Bytes) (out : Bytes) : Bytes :=
  if args.length ≠ 2 then appendError out (wrongNumber (ascii "command|count"))
  else appendInt out respCommands.length

def commandInfoAll (out : Bytes) : Bytes :=
  respCommands.foldl (fun out c => appendCommandInfo out none c)
    (appendArray out respCommands.length)

def commandInfo (args : List Bytes) (out : Bytes) : Bytes :=
  if args.length = 2 then commandInfoAll out
  else
    (args.drop 2).foldl
      (fun out name =>
        match findCommand name with
        | some (c, parent) => appendCommandInfo out parent c
        | none => appendNullBulk out)
      (appendArray out (args.length - 2))

/-- The entries of the map that a name stands for, counted twice as keys and values. -/
def docCount (name : Bytes) : Nat :=
  match findCommand name with
  | some (c, none) => 2 + 2 * c.subs.length
  | some (_, some _) => 2
  | none => 0

def commandDocs (args : List Bytes) (out : Bytes) : Bytes :=
  if args.length = 2 then
    let n := respCommands.foldl (fun n c => n + (1 + c.subs.length)) 0
    respCommands.foldl (fun out c => appendCommandDocSubs (appendCommandDoc none out c) c)
      (appendArray out (2 * n))
  else
    let n := (args.drop 2).foldl (fun n name => n + docCount name) 0
    (args.drop 2).foldl
      (fun out name =>
        match findCommand name with
        | some (c, none) => appendCommandDocSubs (appendCommandDoc none out c) c
        | some (c, some parent) => appendCommandDoc (some parent) out c
        | none => out)
      (appendArray out n)

def globMatch : Bytes → Bytes → Bool
  | [], s => s.isEmpty
  | c :: pat, s =>
    if c = 42 then
      if pat = [] then true
      else if pat.head? = some 42 then globMatch pat s
      else s.tails.any fun rest => globMatch pat rest
    else
      match s with
      | [] => false
      | b :: s => (decide (c = 63) || decide (b = c)) && globMatch pat s

theorem globMatch_star {pat : Bytes} (left : pat ≠ []) (last : pat.head? ≠ some 42) (s : Bytes) :
    globMatch (42 :: pat) s = s.tails.any fun rest => globMatch pat rest := by
  rw [globMatch.eq_def]
  simp only [if_pos, if_neg left, if_neg last]

theorem globMatch_star_star (pat s : Bytes) :
    globMatch (42 :: 42 :: pat) s = globMatch (42 :: pat) s := by
  rw [globMatch.eq_def]
  simp only [reduceCtorEq, if_true, if_false, List.head?_cons]

theorem globMatch_symbol {c : UInt8} (other : c ≠ 42) (pat : Bytes) (b : UInt8) (s : Bytes) :
    globMatch (c :: pat) (b :: s) = ((decide (c = 63) || decide (b = c)) && globMatch pat s) := by
  rw [globMatch, if_neg other]

/-- The pattern matches the texts that split along it. -/
theorem globMatch_iff_splits (pat s : Bytes) :
    globMatch pat s = true ↔ Glob.Splits 42 63 pat s := by
  induction pat generalizing s with
  | nil => rw [Glob.Splits.nil_iff, globMatch, List.isEmpty_iff]
  | cons c pat ih =>
    by_cases star : c = 42
    · subst star
      cases pat with
      | nil =>
        exact iff_of_true rfl (Glob.Splits.star_last s)
      | cons d pat =>
        by_cases again : d = 42
        · subst again
          rw [Glob.Splits.star_star, globMatch_star_star, ih s]
        · rw [Glob.Splits.star_cons, globMatch_star (by simp) (by simpa using again),
            List.any_eq_true]
          simp only [List.mem_tails, ih]
    · rw [Glob.Splits.symbol_cons star]
      cases s with
      | nil => simp [globMatch, star]
      | cons b s => simp [globMatch_symbol star, ih]

def commandList (args : List Bytes) (out : Bytes) : Bytes :=
  let names := respCommands.map fun c => ascii c.name
  let list := fun names => appendBulks out (Rbac.sortStrings names)
  let kind := args.getD 3 []
  let value := args.getD 4 []
  if args.length = 2 then list names
  else if equalFold (args.getD 2 []) (ascii "FILTERBY") then
    if args.length ≠ 5 then appendError out (wrongNumber (ascii "command|list"))
    else if equalFold kind (ascii "MODULE") then list []
    else if equalFold kind (ascii "ACLCAT") then
      let cat := Rbac.toLower (if value.head? = some 64 then value.drop 1 else value)
      list (names.filter fun name => (aclCategories name).any (Rbac.equalFold cat))
    else if equalFold kind (ascii "PATTERN") then
      list (names.filter (globMatch (Rbac.toLower value)))
    else
      appendError out (ascii "ERR unknown command list filter type '" ++ kind ++ ascii "'")
  else appendError out (ascii "ERR syntax error")

def helpLines : List String :=
  ["COMMAND <subcommand> [<arg> [value] [opt] ...]. Subcommands are:",
    "COUNT",
    "    Return the total number of commands in the server.",
    "DOCS [<command-name> ...]",
    "    Return documentary information about commands.",
    "INFO [<command-name> ...]",
    "    Return details about multiple commands.",
    "LIST [FILTERBY MODULE <module-name> | ACLCAT <category> | PATTERN <pattern>]",
    "    Return a list of the server's command names.",
    "HELP",
    "    Print this help."]

def commandHelp (args : List Bytes) (out : Bytes) : Bytes :=
  if args.length ≠ 2 then appendError out (wrongNumber (ascii "command|help"))
  else appendBulks out (helpLines.map ascii)

def command (args : List Bytes) (out : Bytes) : Bytes :=
  let sub := args.getD 1 []
  if args.length = 1 then commandInfoAll out
  else if equalFold sub (ascii "COUNT") then commandCount args out
  else if equalFold sub (ascii "DOCS") then commandDocs args out
  else if equalFold sub (ascii "INFO") then commandInfo args out
  else if equalFold sub (ascii "LIST") then commandList args out
  else if equalFold sub (ascii "HELP") then commandHelp args out
  else appendError out (ascii "ERR unknown subcommand '" ++ sub ++ ascii "'. Try COMMAND HELP.")

end Tellstone.Resp
