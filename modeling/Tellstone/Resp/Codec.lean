import Tellstone.Lib.Incremental
import Tellstone.Lib.Resp2
import Tellstone.Resp.Protocol

/-! Parse reads back what AppendArray and AppendBulk write, and waits for the rest of
anything less. -/
namespace Tellstone.Resp
open ByteStream Incremental

def decimal (n : Nat) : Bytes := (Nat.toDigits 10 n).map fun c => c.toNat.toUInt8

theorem appendDecimal_nat (dst : Bytes) (n : Nat) : appendDecimal dst n = dst ++ decimal n := by
  have sign : ¬ (n : Int) < 0 := by omega
  simp [appendDecimal, sign, ascii, decimal]

theorem decimal_range {n : Nat} {b : UInt8} (mem : b ∈ decimal n) : 48 ≤ b ∧ b ≤ 57 :=
  Resp2.digits_range mem

theorem decimal_ne_nil (n : Nat) : decimal n ≠ [] := by
  simp [decimal, Nat.toDigits_ne_nil]

theorem digits_decimal (n : Nat) : Command.digits (decimal n) = some n := by
  have all : (decimal n).all fun b => decide (48 ≤ b ∧ b ≤ 57) := by
    rw [List.all_eq_true]
    intro b mem
    exact decide_eq_true (decimal_range mem)
  rw [Command.digits, if_pos all]
  exact congrArg some (Resp2.digits_value n)

theorem atoi_decimal {n : Nat} (small : n < 2 ^ 63) : Command.atoi (decimal n) = some n := by
  have unsigned (sign : UInt8) (other : sign < 48) : (decimal n).head? ≠ some sign := by
    intro first
    have range := (decimal_range (List.mem_of_mem_head? first)).1
    exact absurd other (UInt8.not_lt.mpr range)
  simp only [Command.atoi, unsigned 45 (by decide), unsigned 43 (by decide), decimal_ne_nil,
    digits_decimal, decide_false, Bool.false_eq_true, or_false, ↓reduceIte, Option.bind_some,
    if_pos small]
  rfl

def line : Parser ParseError UInt8 (Bytes × UInt8) := fun buf =>
  let text := buf.takeWhile fun b => decide (b ≠ 13)
  match buf.drop text.length with
  | _ :: lf :: next => .ok ((text, lf), next)
  | _ => .error .incomplete

theorem line_stable : Stable .incomplete line where
  ending {buf _ _} read := by
    simp only [line] at read
    split at read
    · rename_i cr lf rest left
      have tail : cr :: lf :: rest <:+ buf := left ▸ List.drop_suffix _ _
      cases read
      exact ((List.suffix_cons _ _).trans (List.suffix_cons _ _)).trans tail
    · cases read
  ok {buf value next} read later := by
    simp only [line] at read ⊢
    split at read
    · rename_i cr lf rest left
      cases read
      have short : (buf.takeWhile fun b => decide (b ≠ 13)).length < buf.length := by
        have size := congrArg List.length left
        simp only [List.length_drop, List.length_cons] at size
        omega
      rw [List.takeWhile_append, if_neg (by omega), List.drop_append_of_le_length (by omega), left]
      rfl
    · cases read
  error {buf err} read other := by
    simp only [line] at read
    split at read
    · cases read
    · cases read
      exact absurd rfl other

theorem line_reads {text : Bytes} (plain : ∀ b ∈ text, b ≠ 13) :
    Reads line (text ++ [13, 10]) (text, 10) := by
  intro rest
  have upTo : (text ++ ([13, 10] ++ rest)).takeWhile (fun b => decide (b ≠ 13)) = text := by
    rw [List.takeWhile_append_of_pos]
    · simp
    · exact fun b mem => decide_eq_true (plain b mem)
  simp only [line, List.append_assoc, upTo, List.drop_left]
  rfl

def number (read : Bytes × UInt8) : Parser ParseError UInt8 Int :=
  if read.2 ≠ 10 then fail .protocol
  else
    match Command.atoi read.1 with
    | none => fail .protocol
    | some v => done v

theorem number_stable (read : Bytes × UInt8) : Stable .incomplete (number read) := by
  unfold number
  split
  · exact .fail _
  · split
    · exact .fail _
    · exact .done _

theorem parseLine_eq : parseLine = andThen line number := by
  funext buf
  simp only [parseLine, andThen, line, number]
  cases buf.drop (buf.takeWhile fun b => decide (b ≠ 13)).length with
  | nil => rfl
  | cons cr left =>
    cases left with
    | nil => rfl
    | cons lf next =>
      by_cases ends : lf = 10
      · simp only [ends, ne_eq, not_true_eq_false, ↓reduceIte]
        cases Command.atoi (buf.takeWhile fun b => decide (b ≠ 13)) <;> rfl
      · simp [ends, fail]

theorem parseLine_stable : Stable .incomplete parseLine := by
  rw [parseLine_eq]
  exact line_stable.andThen number_stable

theorem parseLine_reads {n : Nat} (small : n < 2 ^ 63) :
    Reads parseLine (decimal n ++ [13, 10]) n := by
  have plain : ∀ b ∈ decimal n, b ≠ 13 := by
    rintro b mem rfl
    exact absurd (decimal_range mem).1 (by decide)
  rw [parseLine_eq, ← List.append_nil (decimal n ++ [13, 10])]
  apply (line_reads plain).andThen
  simp only [number, atoi_decimal small]
  exact Reads.done _

def bulk (n : Nat) : Parser ParseError UInt8 Bytes :=
  andThen (exactly .incomplete (n + 2)) fun bytes =>
    if bytes.getD n 0 ≠ 13 ∨ bytes.getD (n + 1) 0 ≠ 10 then fail .protocol
    else done (bytes.take n)

theorem bulk_apply (n : Nat) (buf : Bytes) : bulk n buf =
    if buf.length < n + 2 then .error .incomplete
    else if buf.getD n 0 ≠ 13 ∨ buf.getD (n + 1) 0 ≠ 10 then .error .protocol
    else .ok (buf.take n, buf.drop (n + 2)) := by
  have inside (i : Nat) (lt : i < n + 2) : (buf.take (n + 2)).getD i 0 = buf.getD i 0 := by
    simp [List.getD_eq_getElem?_getD, lt]
  by_cases short : buf.length < n + 2
  · rw [if_pos short]
    exact andThen_error (if_pos short) _
  · rw [if_neg short, bulk, andThen_ok (if_neg short), inside n (by omega),
      inside (n + 1) (by omega)]
    split
    · rfl
    · rw [done, List.take_take, Nat.min_eq_left (by omega)]

theorem bulk_stable (n : Nat) : Stable .incomplete (bulk n) := by
  apply (Stable.exactly _).andThen
  intro bytes
  split
  · exact .fail _
  · exact .done _

theorem bulk_reads (b : Bytes) : Reads (bulk b.length) (b ++ [13, 10]) b := by
  rw [← List.append_nil (b ++ [13, 10])]
  apply (Reads.exactly (by simp)).andThen
  have ends : ¬ ((b ++ [13, 10]).getD b.length 0 ≠ 13 ∨
      (b ++ [13, 10]).getD (b.length + 1) 0 ≠ 10) := by
    simp [List.getD_eq_getElem?_getD]
  rw [if_neg ends, List.take_left]
  exact Reads.done _

def counted {β : Type} (sigil : UInt8) (next : Nat → Parser ParseError UInt8 β) :
    Parser ParseError UInt8 β :=
  andThen (one .incomplete) fun c =>
    if c ≠ sigil then fail .protocol
    else andThen parseLine fun n =>
      if n < 0 ∨ maxBulkLen < n then fail .protocol else next n.toNat

theorem counted_cons {β : Type} (sigil : UInt8) (next : Nat → Parser ParseError UInt8 β)
    (c : UInt8) (buf : Bytes) : counted sigil next (c :: buf) =
      if c ≠ sigil then .error .protocol
      else
        match parseLine buf with
        | .error err => .error err
        | .ok (n, rest) =>
          if n < 0 ∨ maxBulkLen < n then .error .protocol else next n.toNat rest := by
  rw [counted, andThen_ok rfl]
  split
  · rfl
  cases read : parseLine buf with
  | error err => exact andThen_error read _
  | ok result =>
    obtain ⟨n, rest⟩ := result
    rw [andThen_ok read]
    simp only
    split <;> rfl

theorem counted_stable {β : Type} (sigil : UInt8) {next : Nat → Parser ParseError UInt8 β}
    (stable : ∀ n, Stable .incomplete (next n)) : Stable .incomplete (counted sigil next) := by
  apply Stable.one.andThen
  intro c
  split
  · exact .fail _
  apply parseLine_stable.andThen
  intro n
  split
  · exact .fail _
  · exact stable _

theorem counted_reads {β : Type} {sigil : UInt8} {next : Nat → Parser ParseError UInt8 β} {n : Nat}
    {text : Bytes} {value : β} (small : n ≤ maxBulkLen) (reads : Reads (next n) text value) :
    Reads (counted sigil next) ([sigil] ++ ((decimal n ++ [13, 10]) ++ text)) value := by
  have bound : n < 2 ^ 63 := by
    simp only [maxBulkLen] at small
    omega
  have inRange : ¬ ((n : Int) < 0 ∨ maxBulkLen < n) := by omega
  apply (Reads.one sigil).andThen
  rw [if_neg (by simp)]
  apply (parseLine_reads bound).andThen
  rw [if_neg inRange, Int.toNat_natCast]
  exact reads

theorem parse_eq : parse = counted 42 parseArgs := by
  funext buf
  cases buf with
  | nil => rfl
  | cons c buf => exact (counted_cons 42 parseArgs c buf).symm

theorem parseArgs_succ (n : Nat) : parseArgs (n + 1) = counted 36 fun size =>
    andThen (bulk size) fun b => andThen (parseArgs n) fun args => done (b :: args) := by
  funext buf
  cases buf with
  | nil => rfl
  | cons c buf =>
    rw [counted_cons, parseArgs]
    congr 1
    cases parseLine buf with
    | error err => rfl
    | ok read =>
      obtain ⟨size, next⟩ := read
      simp only [andThen, bulk_apply]
      congr 1
      split
      · rfl
      split
      · rfl
      simp only
      cases parseArgs n (next.drop (size.toNat + 2)) <;> rfl

theorem parseArgs_stable (n : Nat) : Stable .incomplete (parseArgs n) := by
  induction n with
  | zero => exact .done _
  | succ n ih =>
    rw [parseArgs_succ]
    exact counted_stable 36 fun size => (bulk_stable size).andThen fun b => ih.andThen fun args =>
      .done _

theorem parse_stable : Stable .incomplete parse := by
  rw [parse_eq]
  exact counted_stable 42 parseArgs_stable

def request (args : List Bytes) : Bytes := args.foldl appendBulk (appendArray [] args.length)

def bulkText (b : Bytes) : Bytes :=
  [36] ++ ((decimal b.length ++ [13, 10]) ++ (b ++ [13, 10]))

theorem foldl_appendBulk (args : List Bytes) (dst : Bytes) :
    args.foldl appendBulk dst = dst ++ args.flatMap bulkText := by
  induction args generalizing dst with
  | nil => simp
  | cons b args ih =>
    rw [List.foldl_cons, ih, appendBulk, appendDecimal_nat, List.flatMap_cons, bulkText]
    simp

theorem request_eq (args : List Bytes) : request args =
    [42] ++ ((decimal args.length ++ [13, 10]) ++ args.flatMap bulkText) := by
  rw [request, foldl_appendBulk, appendArray, appendDecimal_nat]
  simp

theorem parseArgs_reads {args : List Bytes} (fits : ∀ b ∈ args, b.length ≤ maxBulkLen) :
    Reads (parseArgs args.length) (args.flatMap bulkText) args := by
  induction args with
  | nil => exact Reads.done _
  | cons b args ih =>
    have size := fits b List.mem_cons_self
    have others := ih fun b mem => fits b (List.mem_cons_of_mem _ mem)
    have tail : Reads (andThen (parseArgs args.length) fun args => done (b :: args))
        (args.flatMap bulkText) (b :: args) := by
      rw [← List.append_nil (args.flatMap bulkText)]
      exact others.andThen (Reads.done _)
    have text : (b :: args).flatMap bulkText =
        [36] ++ ((decimal b.length ++ [13, 10]) ++ ((b ++ [13, 10]) ++ args.flatMap bulkText)) := by
      rw [List.flatMap_cons, bulkText]
      simp only [List.append_assoc]
    rw [List.length_cons, parseArgs_succ, text]
    exact counted_reads size ((bulk_reads b).andThen tail)

/-- Parse takes exactly the request off the buffer, whatever follows, and asks for more on every
cut. -/
theorem parse_request (args : List Bytes) (count : args.length ≤ maxBulkLen)
    (fits : ∀ b ∈ args, b.length ≤ maxBulkLen) :
    (∀ rest, parse (request args ++ rest) = .ok (args, rest)) ∧
    ∀ front, front <+: request args → front ≠ request args →
      parse front = .error .incomplete := by
  have reads : Reads parse (request args) args := by
    rw [parse_eq, request_eq]
    exact counted_reads count (parseArgs_reads fits)
  exact ⟨reads, fun front start cut => parse_stable.cut reads start cut⟩

theorem parse_request_crlf :
    parse (request [[13, 10], []] ++ [42]) = .ok ([[13, 10], []], [42]) ∧
    parse ((request [[13, 10], []]).take 9) = .error .incomplete := by
  obtain ⟨whole, cut⟩ := parse_request [[13, 10], []] (by decide) (by decide)
  exact ⟨whole [42], cut _ (List.take_prefix 9 _) (by decide)⟩

end Tellstone.Resp
