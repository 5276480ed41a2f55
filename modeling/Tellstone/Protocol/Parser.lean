import Tellstone.Lib.ByteStream
import Tellstone.Lib.Scan

/-! The scanner of SQL statements. Every index and slice expression is checked: a function
returns none where the program would stop with an index out of range. -/
namespace Tellstone.Protocol
open ByteStream Scan

inductive CommandType where
  | unknown
  | get
  | set
  | delete
  deriving DecidableEq, Repr

inductive QueryError where
  | parse
  | ttlOverflow
  deriving DecidableEq, Repr

/-- A slice may be nil. The TTL is a time.Duration, in nanoseconds. -/
structure ParsedQuery where
  type : CommandType
  key : Option Bytes
  value : Option Bytes
  ttl : Int
  deriving DecidableEq, Repr

def isSpace (c : UInt8) : Bool := c = 32 || c = 9 || c = 10 || c = 13

/-- The first loop of `trimSpaceInline`, with `n` the distance of its two indices. -/
def trimStart (b : Bytes) : (n start : Nat) → Option Nat
  | 0, start => some start
  | n + 1, start => do
    let c ← b[start]?
    if isSpace c then trimStart b n (start + 1) else some start

def trimEnd (b : Bytes) : (n stop : Nat) → Option Nat
  | 0, stop => some stop
  | n + 1, stop => do
    let c ← b[stop - 1]?
    if isSpace c then trimEnd b n (stop - 1) else some stop

def trimSpaceInline (b : Bytes) : Option Bytes := do
  let start ← trimStart b b.length 0
  let stop ← trimEnd b (b.length - start) b.length
  slice b start stop

def indexByte (c : UInt8) : Bytes → Option Nat
  | [] => none
  | v :: b => if v = c then some 0 else (indexByte c b).map (· + 1)

def lower (c : UInt8) : UInt8 := if 65 ≤ c ∧ c ≤ 90 then c + 32 else c

/-- The comparison loop of both searches, at offset `i` and with `n` bytes left. -/
def matchesAt (b word : Bytes) (i : Nat) : (n j : Nat) → Option Bool
  | 0, _ => some true
  | n + 1, j => do
    let c ← b[i + j]?
    let w ← word[j]?
    if lower c ≠ w then some false else matchesAt b word i n (j + 1)

def hasPrefixCase (b word : Bytes) : Option Bool :=
  if b.length < word.length then some false else matchesAt b word 0 word.length 0

def search (b substr : Bytes) : (n i : Nat) → Option (Option Nat)
  | 0, _ => some none
  | n + 1, i => do
    if ← matchesAt b substr i substr.length 0 then some (some i) else search b substr n (i + 1)

def indexCase (b substr : Bytes) : Option (Option Nat) :=
  if substr.length = 0 then some (some 0)
  else search b substr (b.length + 1 - substr.length) 0

def extractQuotedValueInline (b : Bytes) : Option (Option Bytes) := do
  let b ← trimSpaceInline b
  if b.length = 0 then some none
  else
    let first ← b[0]?
    let last ← b[b.length - 1]?
    if (first = 39 ∧ last = 39) ∨ (first = 34 ∧ last = 34) then
      (slice b 1 (b.length - 1)).map some
    else some (some b)

def extractSelectKeyInline (b : Bytes) : Option (Option Bytes) := do
  match ← indexCase b (ascii "where") with
  | none => some none
  | some idx =>
    let sub ← slice b (idx + 5) b.length
    match indexByte 61 sub with
    | none => some none
    | some eqIdx =>
      let rest ← slice sub (eqIdx + 1) sub.length
      extractQuotedValueInline rest

def wrap64 (i : Int) : Int := i.bmod 18446744073709551616

def isDigit (c : UInt8) : Bool := 48 ≤ c && c ≤ 57

def readDigits (b : Bytes) : (n i : Nat) → (val : Int) → Option Int
  | 0, _, val => some val
  | n + 1, i, val => do
    let c ← b[i]?
    if isDigit c then readDigits b n (i + 1) (wrap64 (val * 10 + (c - 48).toNat)) else some val

def maxTTL : Int := 24 * 60 * 60 * 1000

structure SetPayload where
  key : Option Bytes
  value : Option Bytes
  ttl : Int
  overflow : Bool
  deriving DecidableEq, Repr

/-- The token steps of `extractSetPayloadInline`, on the arguments in the parentheses. -/
def scanArguments (argsBlock : Bytes) : Option SetPayload := do
  match indexByte 44 argsBlock with
  | none =>
    let key ← extractQuotedValueInline argsBlock
    some ⟨key, none, 0, false⟩
  | some comma1 =>
    let key ← extractQuotedValueInline (← slice argsBlock 0 comma1)
    let rem1 ← slice argsBlock (comma1 + 1) argsBlock.length
    match indexByte 44 rem1 with
    | none =>
      let value ← extractQuotedValueInline rem1
      some ⟨key, value, 0, false⟩
    | some comma2 =>
      let value ← extractQuotedValueInline (← slice rem1 0 comma2)
      let rem2 ← trimSpaceInline (← slice rem1 (comma2 + 1) rem1.length)
      if 0 < rem2.length then
        let val ← readDigits rem2 rem2.length 0 0
        if maxTTL < val then some ⟨none, none, 0, true⟩
        else some ⟨key, value, wrap64 (val * 1000000), false⟩
      else some ⟨key, value, 0, false⟩

def extractSetPayloadInline (b : Bytes) : Option SetPayload := do
  match ← indexCase b (ascii "values") with
  | none => some ⟨none, none, 0, false⟩
  | some valIdx =>
    let sub ← slice b valIdx b.length
    match indexByte 40 sub with
    | none => some ⟨none, none, 0, false⟩
    | some openParen =>
      let behind ← slice sub openParen sub.length
      match indexByte 41 behind with
      | none => some ⟨none, none, 0, false⟩
      | some closeParen =>
        scanArguments (← slice sub (openParen + 1) (openParen + closeParen))

def parseKey (type : CommandType) (trimmed : Bytes) : Option (ParsedQuery × Option QueryError) := do
  let key ← extractSelectKeyInline trimmed
  some (⟨type, key, none, 0⟩, if key.isNone then some .parse else none)

def parseSet (trimmed : Bytes) : Option (ParsedQuery × Option QueryError) := do
  let p ← extractSetPayloadInline trimmed
  some (⟨.set, p.key, p.value, p.ttl⟩,
    if p.overflow then some .ttlOverflow
    else if p.key.isNone ∨ p.value.isNone then some .parse
    else none)

def parseQuery (raw : Bytes) : Option (ParsedQuery × Option QueryError) := do
  let trimmed ← trimSpaceInline raw
  if trimmed.length = 0 then some (⟨.unknown, none, none, 0⟩, some .parse)
  else if ← hasPrefixCase trimmed (ascii "select") then parseKey .get trimmed
  else if ← hasPrefixCase trimmed (ascii "insert") then parseSet trimmed
  else if ← hasPrefixCase trimmed (ascii "delete") then parseKey .delete trimmed
  else some (⟨.unknown, none, none, 0⟩, some .parse)

theorem trimStart_eq (b : Bytes) (n start : Nat) (whole : start + n = b.length) :
    trimStart b n start = some (start + ((b.drop start).takeWhile isSpace).length) := by
  induction n generalizing start with
  | zero =>
    rw [List.drop_eq_nil_of_le (by omega)]
    rfl
  | succ n ih =>
    have inside : start < b.length := by omega
    rw [trimStart, List.drop_eq_getElem_cons inside, List.getElem?_eq_getElem inside]
    simp only [Option.bind_eq_bind, Option.bind_some, List.takeWhile_cons]
    split
    · rw [ih (start + 1) (by omega), List.length_cons]
      congr 1
      omega
    · rfl

theorem trimEnd_eq (b : Bytes) (start n : Nat) (inside : start + n ≤ b.length) :
    trimEnd b n (start + n) =
      some (start + (((b.drop start).take n).rdropWhile isSpace).length) := by
  induction n with
  | zero => simp [trimEnd]
  | succ n ih =>
    have here : start + n < b.length := by omega
    have last : (b.drop start).take (n + 1) = (b.drop start).take n ++ [b[start + n]] := by
      rw [List.take_add_one, List.getElem?_drop, List.getElem?_eq_getElem here]
      rfl
    rw [trimEnd, last, List.rdropWhile_concat]
    simp only [← Nat.add_assoc, Nat.add_sub_cancel, List.getElem?_eq_getElem here,
      Option.bind_eq_bind, Option.bind_some]
    split
    · exact ih (by omega)
    · rw [List.length_append, List.length_take, List.length_drop, Nat.min_eq_left (by omega)]
      rfl

theorem trimSpaceInline_eq (b : Bytes) : trimSpaceInline b = some (trim isSpace b) := by
  have start := trimStart_eq b b.length 0 (Nat.zero_add _)
  rw [List.drop_zero, Nat.zero_add] at start
  have split : b.takeWhile isSpace ++ b.dropWhile isSpace = b := List.takeWhile_append_dropWhile
  have long := congrArg List.length split
  rw [List.length_append] at long
  have rest : b.drop (b.takeWhile isSpace).length = b.dropWhile isSpace := by
    have behind : (b.takeWhile isSpace ++ b.dropWhile isSpace).drop
        (b.takeWhile isSpace).length = b.dropWhile isSpace := List.drop_left
    rwa [split] at behind
  have stop := trimEnd_eq b (b.takeWhile isSpace).length (b.dropWhile isSpace).length (by omega)
  rw [rest, List.take_length, long] at stop
  obtain ⟨blank, ended⟩ : trim isSpace b <+: b.dropWhile isSpace := List.rdropWhile_prefix _ _
  have shorter := congrArg List.length ended
  rw [List.length_append] at shorter
  have window : b.length - (b.takeWhile isSpace).length = (b.dropWhile isSpace).length := by omega
  simp only [trimSpaceInline, start, window, Option.bind_eq_bind, Option.bind_some, stop]
  change slice b _ (_ + (trim isSpace b).length) = _
  rw [slice, if_pos (by omega), List.drop_take, rest, Nat.add_sub_cancel_left, ← ended,
    List.take_left]

theorem indexByte_eq (c : UInt8) (b : Bytes) :
    indexByte c b = (cut c b).map fun p => p.1.length := by
  induction b with
  | nil => rfl
  | cons v b ih =>
    rw [indexByte, cut]
    split
    · rfl
    · rw [ih, Option.map_map, Option.map_map]
      rfl

theorem matchesAt_eq (b word : Bytes) (i n j : Nat) (whole : j + n = word.length)
    (inside : i + j + n ≤ b.length) :
    matchesAt b word i n j =
      some (decide (((b.drop (i + j)).take n).map lower = word.drop j)) := by
  induction n generalizing j with
  | zero =>
    rw [List.drop_eq_nil_of_le (show word.length ≤ j by omega)]
    rfl
  | succ n ih =>
    have here : i + j < b.length := by omega
    have there : j < word.length := by omega
    rw [matchesAt, List.getElem?_eq_getElem here, List.getElem?_eq_getElem there,
      List.drop_eq_getElem_cons here, List.drop_eq_getElem_cons there]
    simp only [Option.bind_eq_bind, Option.bind_some, List.take_succ_cons, List.map_cons,
      List.cons.injEq]
    split
    · rename_i other
      rw [decide_eq_false (fun same => other same.1)]
    · rename_i same
      rw [ih (j + 1) (by omega) (by omega)]
      simp only [not_not.mp same, true_and, Nat.add_assoc]

def starts (word b : Bytes) : Bool := decide ((b.take word.length).map lower = word)

theorem hasPrefixCase_eq (b word : Bytes) : hasPrefixCase b word = some (starts word b) := by
  unfold hasPrefixCase starts
  split
  · rename_i short
    rw [decide_eq_false]
    intro same
    have long := congrArg List.length same
    rw [List.length_map, List.length_take] at long
    omega
  · rename_i long
    rw [matchesAt_eq b word 0 word.length 0 (Nat.zero_add _) (by omega)]
    rfl

theorem search_eq (b substr : Bytes) (n i : Nat) (inside : n = 0 ∨ i + n + substr.length ≤ b.length + 1) :
    search b substr n i = some ((List.range' i n).find? fun i =>
      decide (((b.drop i).take substr.length).map lower = substr)) := by
  induction n generalizing i with
  | zero => rfl
  | succ n ih =>
    rw [search, matchesAt_eq b substr i substr.length 0 (Nat.zero_add _) (by omega),
      List.range'_succ, List.find?_cons]
    simp only [Nat.add_zero, List.drop_zero, Option.bind_eq_bind, Option.bind_some]
    split
    · rename_i same
      rw [same]
    · rename_i other
      rw [eq_false_of_ne_true other, ih (i + 1) (by omega)]

theorem indexCase_eq {substr : Bytes} (word : substr ≠ []) (b : Bytes) :
    indexCase b substr = some (find lower substr b) := by
  have some_length : substr.length ≠ 0 := by simpa using word
  rw [indexCase, if_neg some_length, search_eq b substr _ 0 (by omega), find,
    List.range_eq_range']

def loneQuote (t : Bytes) : Bool := decide (t = [39] ∨ t = [34])

/-- A text without the quotes around it. One quote alone cannot be taken off twice. -/
def unquote (t : Bytes) : Option (Option Bytes) :=
  if t = [] then some none
  else if loneQuote t then none
  else if (t.head? = some 39 ∧ t.getLast? = some 39) ∨ (t.head? = some 34 ∧ t.getLast? = some 34)
    then some (some t.tail.dropLast)
  else some (some t)

theorem extractQuotedValueInline_eq (b : Bytes) :
    extractQuotedValueInline b = unquote (trim isSpace b) := by
  simp only [extractQuotedValueInline, trimSpaceInline_eq, Option.bind_eq_bind, Option.bind_some]
  generalize trim isSpace b = t
  cases t with
  | nil => rfl
  | cons x rest =>
    obtain rfl | ⟨mid, y, rfl⟩ := List.eq_nil_or_concat rest
    · simp [unquote, loneQuote, slice]
      by_cases single : x = 39
      · simp [single]
      · by_cases double : x = 34
        · simp [double]
        · simp [single, double]
    · have inner : slice (x :: (mid ++ [y])) 1 (mid.length + 1) = some mid := by
        simp [slice]
      have last : (x :: (mid ++ [y])).getLast? = some y := by
        rw [← List.cons_append, List.getLast?_concat]
      simp [unquote, loneQuote, inner, last]

theorem unquote_isSome (t : Bytes) : (unquote t).isSome = !loneQuote t := by
  unfold unquote
  split
  · rename_i empty
    rw [empty]
    rfl
  · cases lone : loneQuote t with
    | true => rfl
    | false =>
      simp only [Bool.false_eq_true, ↓reduceIte]
      split <;> rfl

theorem loneQuote_eq_false {t : Bytes} : loneQuote t = false ↔ ∃ text, unquote t = some text := by
  rw [← Option.isSome_iff_exists, unquote_isSome, Bool.not_eq_true']

def number (t : Bytes) : Int :=
  (t.takeWhile isDigit).foldl (fun val c => wrap64 (val * 10 + (c - 48).toNat)) 0

theorem readDigits_eq (b : Bytes) (n i : Nat) (val : Int) (whole : i + n = b.length) :
    readDigits b n i val = some (((b.drop i).takeWhile isDigit).foldl
      (fun val c => wrap64 (val * 10 + (c - 48).toNat)) val) := by
  induction n generalizing i val with
  | zero =>
    rw [List.drop_eq_nil_of_le (by omega)]
    rfl
  | succ n ih =>
    have inside : i < b.length := by omega
    rw [readDigits, List.drop_eq_getElem_cons inside, List.getElem?_eq_getElem inside]
    simp only [Option.bind_eq_bind, Option.bind_some, List.takeWhile_cons]
    split
    · rw [ih (i + 1) _ (by omega), List.foldl_cons]
    · rfl

def comparand (t : Bytes) : Option Bytes :=
  (find lower (ascii "where") t).bind fun i => (cut 61 (t.drop (i + 5))).map Prod.snd

def argsBlock (t : Bytes) : Option Bytes :=
  (find lower (ascii "values") t).bind fun i =>
    (cut 40 (t.drop i)).bind fun p => (cut 41 p.2).map Prod.fst

theorem extractSelectKeyInline_eq (b : Bytes) :
    extractSelectKeyInline b =
      match comparand b with
      | none => some none
      | some rest => unquote (trim isSpace rest) := by
  simp only [extractSelectKeyInline, comparand, indexCase_eq (show ascii "where" ≠ [] by decide),
    Option.bind_eq_bind, Option.bind_some]
  cases found : find lower (ascii "where") b with
  | none => rfl
  | some i =>
    have inside : i + 5 ≤ b.length := find_inside found
    simp only [Option.bind_some, slice_drop inside, indexByte_eq]
    rcases cut_cases 61 (b.drop (i + 5)) with ⟨-, uncut⟩ | ⟨front, back, whole, before, -⟩
    · rw [uncut]
      rfl
    · simp only [whole, cut_append before, Option.map_some, slice_behind, Option.bind_some,
        extractQuotedValueInline_eq]

def blockPayload (block : Bytes) : Option SetPayload :=
  match cut 44 block with
  | none => (unquote (trim isSpace block)).map fun key => ⟨key, none, 0, false⟩
  | some (first, rest) =>
    (unquote (trim isSpace first)).bind fun key =>
      match cut 44 rest with
      | none => (unquote (trim isSpace rest)).map fun value => ⟨key, value, 0, false⟩
      | some (second, rest) =>
        (unquote (trim isSpace second)).map fun value =>
          if maxTTL < number (trim isSpace rest) then ⟨none, none, 0, true⟩
          else ⟨key, value, wrap64 (number (trim isSpace rest) * 1000000), false⟩

theorem readTTL_eq (t : Bytes) (key value : Option Bytes) :
    (if 0 < t.length then
        (readDigits t t.length 0 0).bind fun val =>
          if maxTTL < val then some (⟨none, none, 0, true⟩ : SetPayload)
          else some ⟨key, value, wrap64 (val * 1000000), false⟩
      else some ⟨key, value, 0, false⟩) =
    some (if maxTTL < number t then ⟨none, none, 0, true⟩
      else ⟨key, value, wrap64 (number t * 1000000), false⟩) := by
  rw [readDigits_eq t t.length 0 0 (Nat.zero_add _), List.drop_zero]
  cases t with
  | nil => rfl
  | cons c t =>
    rw [if_pos (show 0 < (c :: t).length by simp), Option.bind_some]
    change (if maxTTL < number (c :: t) then _ else _) = _
    split <;> rfl

theorem scanArguments_eq (args : Bytes) : scanArguments args = blockPayload args := by
  simp only [scanArguments, blockPayload, indexByte_eq, extractQuotedValueInline_eq,
    trimSpaceInline_eq, Option.bind_eq_bind]
  rcases cut_cases 44 args with ⟨-, uncut⟩ | ⟨first, rest, rfl, comma, -⟩
  · rw [uncut]
    cases unquote (trim isSpace args) <;> rfl
  · simp only [cut_append comma, Option.map_some, slice_before, slice_behind, Option.bind_some]
    cases unquote (trim isSpace first) with
    | none => rfl
    | some key =>
      rcases cut_cases 44 rest with ⟨-, uncut⟩ | ⟨second, rest, rfl, comma, -⟩
      · rw [uncut]
        cases unquote (trim isSpace rest) <;> rfl
      · simp only [cut_append comma, Option.map_some, slice_before, slice_behind,
          Option.bind_some]
        cases unquote (trim isSpace second) with
        | none => rfl
        | some value => exact readTTL_eq (trim isSpace rest) key value

theorem slice_parens (front args back : Bytes) :
    slice (front ++ 40 :: (args ++ 41 :: back)) (front.length + 1)
      (front.length + (args.length + 1)) = some args := by
  have middle := slice_middle (front ++ [40]) args (41 :: back)
  rw [List.length_append, List.length_singleton] at middle
  rw [← Nat.add_assoc, Nat.add_right_comm]
  simpa using middle

theorem extractSetPayloadInline_eq (b : Bytes) :
    extractSetPayloadInline b =
      match argsBlock b with
      | none => some ⟨none, none, 0, false⟩
      | some block => blockPayload block := by
  simp only [extractSetPayloadInline, argsBlock, scanArguments_eq,
    indexCase_eq (show ascii "values" ≠ [] by decide), Option.bind_eq_bind, Option.bind_some]
  cases found : find lower (ascii "values") b with
  | none => rfl
  | some i =>
    have inside : i ≤ b.length := Nat.le_of_add_right_le (find_inside found)
    simp only [Option.bind_some, slice_drop inside, indexByte_eq]
    rcases cut_cases 40 (b.drop i) with ⟨-, uncut⟩ | ⟨front, behind, whole, before, -⟩
    · rw [uncut]
      rfl
    · have paren : slice (front ++ 40 :: behind) front.length (front ++ 40 :: behind).length =
          some (40 :: behind) := by
        rw [slice_drop (by simp), List.drop_left]
      simp only [whole, cut_append before, Option.map_some, Option.bind_some, paren]
      rcases cut_cases 41 behind with ⟨-, uncut⟩ | ⟨args, back, rfl, inner, -⟩
      · simp [Scan.cut, uncut]
      · have closing : Scan.cut 41 (40 :: (args ++ 41 :: back)) = some (40 :: args, back) := by
          rw [← List.cons_append]
          exact cut_append (by simp [inner]) back
        simp only [closing, cut_append inner, Option.map_some, List.length_cons, slice_parens,
          Option.bind_some]

def keyQuery (type : CommandType) (t : Bytes) : Option (ParsedQuery × Option QueryError) :=
  ((comparand t).elim (some none) fun rest => unquote (trim isSpace rest)).map fun key =>
    (⟨type, key, none, 0⟩, if key.isNone then some .parse else none)

def SetPayload.query (p : SetPayload) : ParsedQuery × Option QueryError :=
  (⟨.set, p.key, p.value, p.ttl⟩,
    if p.overflow then some .ttlOverflow
    else if p.key.isNone ∨ p.value.isNone then some .parse
    else none)

def setQuery (t : Bytes) : Option (ParsedQuery × Option QueryError) :=
  ((argsBlock t).elim (some ⟨none, none, 0, false⟩) blockPayload).map SetPayload.query

theorem parseKey_eq (type : CommandType) (t : Bytes) : parseKey type t = keyQuery type t := by
  simp only [parseKey, keyQuery, extractSelectKeyInline_eq, Option.bind_eq_bind]
  cases comparand t with
  | none => rfl
  | some rest =>
    simp only [Option.elim_some]
    cases unquote (trim isSpace rest) <;> rfl

theorem parseSet_eq (t : Bytes) : parseSet t = setQuery t := by
  simp only [parseSet, setQuery, extractSetPayloadInline_eq, Option.bind_eq_bind]
  cases argsBlock t with
  | none => rfl
  | some block =>
    simp only [Option.elim_some]
    cases blockPayload block <;> rfl

theorem parseQuery_eq (raw : Bytes) :
    parseQuery raw =
      if starts (ascii "select") (trim isSpace raw) then keyQuery .get (trim isSpace raw)
      else if starts (ascii "insert") (trim isSpace raw) then setQuery (trim isSpace raw)
      else if starts (ascii "delete") (trim isSpace raw) then keyQuery .delete (trim isSpace raw)
      else some (⟨.unknown, none, none, 0⟩, some .parse) := by
  simp only [parseQuery, trimSpaceInline_eq, hasPrefixCase_eq, parseKey_eq, parseSet_eq,
    Option.bind_eq_bind, Option.bind_some]
  generalize trim isSpace raw = t
  cases t with
  | nil => rfl
  | cons c t => rw [if_neg (by simp)]

def fields (block : Bytes) : List Bytes :=
  match cut 44 block with
  | none => [block]
  | some (first, rest) =>
    match cut 44 rest with
    | none => [first, rest]
    | some (second, _) => [first, second]

def quoted (raw : Bytes) : List Bytes :=
  let t := trim isSpace raw
  if starts (ascii "select") t then (comparand t).toList
  else if starts (ascii "insert") t then (argsBlock t).elim [] fields
  else if starts (ascii "delete") t then (comparand t).toList
  else []

theorem keyQuery_isSome (type : CommandType) (t : Bytes) :
    (keyQuery type t).isSome = true ↔
      ∀ b ∈ (comparand t).toList, loneQuote (trim isSpace b) = false := by
  rw [keyQuery, Option.isSome_map]
  cases comparand t with
  | none => simp
  | some rest => simp [unquote_isSome]

theorem blockPayload_isSome (block : Bytes) :
    (blockPayload block).isSome = true ↔
      ∀ b ∈ fields block, loneQuote (trim isSpace b) = false := by
  unfold blockPayload fields
  rcases cut 44 block with _ | ⟨first, rest⟩
  · simp [unquote_isSome]
  · have key := unquote_isSome (trim isSpace first)
    simp only
    cases taken : unquote (trim isSpace first) with
    | none =>
      rw [taken] at key
      have lone : loneQuote (trim isSpace first) = true := by simpa using key.symm
      rcases cut 44 rest with _ | ⟨second, rest⟩ <;> simp [lone]
    | some k =>
      rw [taken] at key
      have whole : loneQuote (trim isSpace first) = false := by simpa using key.symm
      rcases cut 44 rest with _ | ⟨second, rest⟩ <;> simp [whole, unquote_isSome]

theorem setQuery_isSome (t : Bytes) :
    (setQuery t).isSome = true ↔
      ∀ b ∈ (argsBlock t).elim [] fields, loneQuote (trim isSpace b) = false := by
  rw [setQuery, Option.isSome_map]
  cases argsBlock t with
  | none => simp
  | some block => exact blockPayload_isSome block

/-- The scanner stays inside its slices exactly when no text it takes quotes off is a single
quote. -/
theorem parseQuery_inside_iff (raw : Bytes) :
    (parseQuery raw).isSome = true ↔
      ∀ b ∈ quoted raw, trim isSpace b ≠ [39] ∧ trim isSpace b ≠ [34] := by
  have lone : ∀ t : Bytes, loneQuote t = false ↔ t ≠ [39] ∧ t ≠ [34] := by
    intro t
    simp [loneQuote]
  simp only [← lone, parseQuery_eq, quoted]
  split
  · exact keyQuery_isSome .get _
  · split
    · exact setQuery_isSome _
    · split
      · exact keyQuery_isSome .delete _
      · simp

theorem parseQuery_lone_quote : parseQuery (ascii "select where='") = none := by
  decide +kernel

end Tellstone.Protocol
