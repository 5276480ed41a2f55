import Tellstone.Command

/-! RESP2: multibulk commands out of a read buffer, and the replies. -/
namespace Tellstone.Resp
open ByteStream

inductive ParseError where
  | incomplete
  | protocol
  deriving DecidableEq, Repr

def maxBulkLen : Int := 512 * 1024 * 1024

def parseLine (buf : Bytes) : Except ParseError (Int × Bytes) :=
  let line := buf.takeWhile fun b => decide (b ≠ 13)
  match buf.drop line.length with
  | _ :: lf :: next =>
    if lf ≠ 10 then .error .protocol
    else
      match Command.atoi line with
      | none => .error .protocol
      | some v => .ok (v, next)
  | _ => .error .incomplete

def parseArgs : Nat → Bytes → Except ParseError (List Bytes × Bytes)
  | 0, buf => .ok ([], buf)
  | _ + 1, [] => .error .incomplete
  | n + 1, c :: buf =>
    if c ≠ 36 then .error .protocol
    else
      match parseLine buf with
      | .error err => .error err
      | .ok (blen, next) =>
        if blen < 0 ∨ maxBulkLen < blen then .error .protocol
        else if next.length < blen.toNat + 2 then .error .incomplete
        else if next.getD blen.toNat 0 ≠ 13 ∨ next.getD (blen.toNat + 1) 0 ≠ 10 then
          .error .protocol
        else
          match parseArgs n (next.drop (blen.toNat + 2)) with
          | .error err => .error err
          | .ok (args, rest) => .ok (next.take blen.toNat :: args, rest)

def parse : Bytes → Except ParseError (List Bytes × Bytes)
  | [] => .error .incomplete
  | c :: buf =>
    if c ≠ 42 then .error .protocol
    else
      match parseLine buf with
      | .error err => .error err
      | .ok (n, next) =>
        if n < 0 ∨ maxBulkLen < n then .error .protocol else parseArgs n.toNat next

theorem parseLine_shorter {buf next : Bytes} {v : Int} (parsed : parseLine buf = .ok (v, next)) :
    next.length < buf.length := by
  unfold parseLine at parsed
  simp only at parsed
  split at parsed
  · rename_i cr lf rest left
    split at parsed
    · cases parsed
    · split at parsed
      · cases parsed
      · cases parsed
        have size := congrArg List.length left
        simp only [List.length_drop, List.length_cons] at size
        omega
  · cases parsed

theorem parseArgs_shorter {n : Nat} {buf rest : Bytes} {args : List Bytes}
    (parsed : parseArgs n buf = .ok (args, rest)) : rest.length ≤ buf.length := by
  induction n generalizing buf args rest with
  | zero =>
    cases parsed
    exact Nat.le_refl _
  | succ n ih =>
    rcases buf with _ | ⟨c, buf⟩
    · cases parsed
    simp only [parseArgs] at parsed
    split at parsed
    · cases parsed
    rcases line : parseLine buf with err | ⟨blen, next⟩
    · simp only [line] at parsed
      cases parsed
    have shorter := parseLine_shorter line
    simp only [line] at parsed
    split at parsed
    · cases parsed
    split at parsed
    · cases parsed
    split at parsed
    · cases parsed
    rcases more : parseArgs n (next.drop (blen.toNat + 2)) with err | ⟨others, left⟩
    · simp only [more] at parsed
      cases parsed
    have fewer := ih more
    simp only [more] at parsed
    cases parsed
    simp only [List.length_drop] at fewer
    simp only [List.length_cons]
    omega

theorem parse_shorter {buf rest : Bytes} {args : List Bytes}
    (parsed : parse buf = .ok (args, rest)) : rest.length < buf.length := by
  rcases buf with _ | ⟨c, buf⟩
  · cases parsed
  simp only [parse] at parsed
  split at parsed
  · cases parsed
  rcases line : parseLine buf with err | ⟨n, next⟩
  · simp only [line] at parsed
    cases parsed
  have shorter := parseLine_shorter line
  simp only [line] at parsed
  split at parsed
  · cases parsed
  have fewer := parseArgs_shorter parsed
  simp only [List.length_cons]
  omega

def equalFold (a literal : Bytes) : Bool :=
  decide (a.map (fun c => if 97 ≤ c ∧ c ≤ 122 then c - 32 else c) = literal)

theorem length_of_equalFold {a literal : Bytes} (same : equalFold a literal = true) :
    a.length = literal.length := by
  have folded := congrArg List.length (of_decide_eq_true same)
  rwa [List.length_map] at folded

def respPong : Bytes := ascii "+PONG" ++ [13, 10]

def respOK : Bytes := ascii "+OK" ++ [13, 10]

def respNullBulk : Bytes := ascii "$-1" ++ [13, 10]

def appendDecimal (dst : Bytes) (n : Int) : Bytes :=
  dst ++ (if n < 0 then [45] else []) ++ ascii (String.ofList (Nat.toDigits 10 n.natAbs))

def appendError (dst s : Bytes) : Bytes := dst ++ 45 :: s ++ [13, 10]

def appendBulk (dst b : Bytes) : Bytes :=
  appendDecimal (dst ++ [36]) b.length ++ [13, 10] ++ b ++ [13, 10]

def appendNullBulk (dst : Bytes) : Bytes := dst ++ respNullBulk

def appendInt (dst : Bytes) (n : Int) : Bytes := appendDecimal (dst ++ [58]) n ++ [13, 10]

def appendArray (dst : Bytes) (n : Nat) : Bytes := appendDecimal (dst ++ [42]) n ++ [13, 10]

/-- What a reply of the command layer looks like. `text` gives the words of an error. -/
def respReply (text : Error → Bytes) (dst : Bytes) : Command.Reply → Bytes
  | .ok => dst ++ respOK
  | .bulk b => appendBulk dst b
  | .null => appendNullBulk dst
  | .int n => appendInt dst n
  | .denied cmd =>
    appendError dst (ascii "NOPERM no permission for '" ++ cmd ++ ascii "' command on this key")
  | .errorMsg s => appendError dst s
  | .storageErr err => appendError dst (ascii "ERR " ++ text err)

end Tellstone.Resp
