import Tellstone.Protocol.Parser

/-! Statements as a client renders them, and what the scanner makes of them. -/
namespace Tellstone.Protocol
open ByteStream Scan

abbrev Text := { b : Bytes // 39 ∉ b ∧ 34 ∉ b }

/-- What stands between SELECT or DELETE and WHERE; it compares nothing. -/
abbrev Target := { b : Bytes // 61 ∉ b }

/-- What stands between INTO and VALUES; it opens no parenthesis. -/
abbrev Table := { b : Bytes // 40 ∉ b }

structure Decimal where
  digits : Bytes
  written : digits ≠ []
  decimal : ∀ c ∈ digits, isDigit c = true

def Decimal.value (d : Decimal) : Nat := d.digits.foldl (fun n c => n * 10 + (c - 48).toNat) 0

def whereKey (key : Text) : Bytes := ascii " WHERE key = '" ++ key.1 ++ ascii "'"

def select (target : Target) (key : Text) : Bytes := ascii "SELECT " ++ target.1 ++ whereKey key

def delete (target : Target) (key : Text) : Bytes := ascii "DELETE " ++ target.1 ++ whereKey key

def arguments (key value : Text) (ttl : Option Decimal) : Bytes :=
  ascii "'" ++ key.1 ++ ascii "', '" ++ value.1 ++ ascii "'" ++
    ttl.elim [] fun ttl => ascii ", " ++ ttl.digits

def insert (table : Table) (key value : Text) (ttl : Option Decimal) : Bytes :=
  ascii "INSERT INTO " ++ table.1 ++ ascii " VALUES (" ++ arguments key value ttl ++ ascii ")"

def ReadBack (key value : Text) (ttl : Option Decimal)
    (result : Option (ParsedQuery × Option QueryError)) : Prop :=
  match ttl with
  | none => result = some (⟨.set, some key.1, some value.1, 0⟩, none)
  | some ttl =>
    if ttl.value ≤ maxTTL then
      result = some (⟨.set, some key.1, some value.1, ttl.value * 1000000⟩, none)
    else ∃ q, result = some (q, some .ttlOverflow)

theorem starts_append {word here : Bytes} (same : here.map lower = word) (rest : Bytes) :
    starts word (here ++ rest) = true := by
  have long : word.length = here.length := by rw [← same, List.length_map]
  rw [starts, long, List.take_left, same, decide_eq_true rfl]

theorem starts_other {word here : Bytes} (long : here.length = word.length)
    (other : here.map lower ≠ word) (rest : Bytes) : starts word (here ++ rest) = false := by
  rw [starts, ← long, List.take_left, decide_eq_false other]

theorem comparand_append {front here gap : Bytes} (same : here.map lower = ascii "where")
    (clean : 61 ∉ front ++ here ++ gap) (rest : Bytes) :
    comparand (front ++ here ++ (gap ++ 61 :: rest)) = some rest := by
  obtain ⟨i, before, found⟩ := @find_le _ _ _ lower _ front (gap ++ 61 :: rest) here same
  have long : here.length = 5 := by
    rw [← List.length_map (f := lower), same]
    rfl
  have inside : i + 5 ≤ (front ++ here ++ gap).length := by
    simp only [List.length_append]
    omega
  rw [comparand, found, Option.bind_some, ← List.append_assoc,
    List.drop_append_of_le_length inside, cut_append (mt List.mem_of_mem_drop clean)]
  rfl

theorem argsBlock_append {front here gap : Bytes} (same : here.map lower = ascii "values")
    (clean : 40 ∉ front ++ here ++ gap) (behind : Bytes) :
    argsBlock (front ++ here ++ (gap ++ 40 :: behind)) = (cut 41 behind).map Prod.fst := by
  obtain ⟨i, before, found⟩ := @find_le _ _ _ lower _ front (gap ++ 40 :: behind) here same
  have inside : i ≤ (front ++ here ++ gap).length := by
    simp only [List.length_append]
    omega
  rw [argsBlock, found, Option.bind_some, ← List.append_assoc,
    List.drop_append_of_le_length inside, cut_append (mt List.mem_of_mem_drop clean)]
  rfl

theorem unquote_framed (b : Bytes) : unquote (39 :: (b ++ [39])) = some (some b) := by
  have last : (39 :: (b ++ [39])).getLast? = some 39 := by
    rw [← List.cons_append, List.getLast?_concat]
  simp [unquote, loneQuote, last]

theorem unquote_open {b : Bytes} (inner : 39 ∉ b) (text : Text) :
    unquote (39 :: b) ≠ some (some text.1) := by
  obtain rfl | ⟨front, y, rfl⟩ := List.eq_nil_or_concat b
  · simp [unquote, loneQuote]
  · rw [List.concat_eq_append] at inner ⊢
    have last : (39 :: (front ++ [y])).getLast? = some y := by
      rw [← List.cons_append, List.getLast?_concat]
    have other : y ≠ 39 := by
      rintro rfl
      exact inner (by simp)
    have kept : unquote (39 :: (front ++ [y])) = some (some (39 :: (front ++ [y]))) := by
      simp [unquote, loneQuote, last, other]
    rw [kept]
    intro same
    have opened : 39 :: (front ++ [y]) = text.1 := Option.some.inj (Option.some.inj same)
    exact text.2.1 (opened ▸ List.mem_cons_self)

theorem unquote_trim_quoted (text : Bytes) :
    unquote (trim isSpace (32 :: 39 :: (text ++ [39]))) = some (some text) := by
  rw [trim_space rfl, trim_framed rfl rfl, unquote_framed]

theorem keyQuery_rendered (type : CommandType) (verb : Bytes) (clean : 61 ∉ verb)
    (target : Target) (key : Text) :
    keyQuery type (verb ++ target.1 ++ whereKey key) =
      some (⟨type, some key.1, none, 0⟩, none) := by
  have shape : verb ++ target.1 ++ whereKey key =
      (verb ++ target.1 ++ [32]) ++ ascii "WHERE" ++
        (ascii " key " ++ 61 :: (32 :: 39 :: (key.1 ++ [39]))) := by
    simp only [whereKey, List.append_assoc]
    rfl
  have unequal : 61 ∉ (verb ++ target.1 ++ [32]) ++ ascii "WHERE" ++ ascii " key " := by
    have words : 61 ∉ [32] ++ (ascii "WHERE" ++ ascii " key ") := by decide
    simp only [List.append_assoc, List.mem_append, not_or] at words ⊢
    exact ⟨clean, target.2, words⟩
  rw [keyQuery, shape, comparand_append (by decide) unequal]
  simp only [Option.elim_some, unquote_trim_quoted]
  rfl

theorem trim_rendered {x y : UInt8} {statement rest : Bytes}
    (shape : statement = x :: (rest ++ [y])) (first : isSpace x = false)
    (last : isSpace y = false) : trim isSpace statement = statement := by
  rw [shape, trim_framed first last]

theorem parseQuery_select (target : Target) (key : Text) :
    parseQuery (select target key) = some (⟨.get, some key.1, none, 0⟩, none) := by
  have shape : select target key =
      83 :: (ascii "ELECT " ++ target.1 ++ ascii " WHERE key = '" ++ key.1 ++ [39]) := by
    simp only [select, whereKey, List.append_assoc]
    rfl
  have verb : select target key = ascii "SELECT" ++ ([32] ++ target.1 ++ whereKey key) := by
    simp only [select, List.append_assoc]
    rfl
  have selects : starts (ascii "select") (select target key) = true := by
    rw [verb]
    exact starts_append (by decide) _
  rw [parseQuery_eq, trim_rendered shape rfl rfl, if_pos selects]
  exact keyQuery_rendered .get (ascii "SELECT ") (by decide) target key

theorem parseQuery_delete (target : Target) (key : Text) :
    parseQuery (delete target key) = some (⟨.delete, some key.1, none, 0⟩, none) := by
  have shape : delete target key =
      68 :: (ascii "ELETE " ++ target.1 ++ ascii " WHERE key = '" ++ key.1 ++ [39]) := by
    simp only [delete, whereKey, List.append_assoc]
    rfl
  have verb : delete target key = ascii "DELETE" ++ ([32] ++ target.1 ++ whereKey key) := by
    simp only [delete, List.append_assoc]
    rfl
  have selects : starts (ascii "select") (delete target key) = false := by
    rw [verb]
    exact starts_other (by decide) (by decide) _
  have inserts : starts (ascii "insert") (delete target key) = false := by
    rw [verb]
    exact starts_other (by decide) (by decide) _
  have deletes : starts (ascii "delete") (delete target key) = true := by
    rw [verb]
    exact starts_append (by decide) _
  rw [parseQuery_eq, trim_rendered shape rfl rfl, if_neg (by simp [selects]),
    if_neg (by simp [inserts]), if_pos deletes]
  exact keyQuery_rendered .delete (ascii "DELETE ") (by decide) target key

def block (key value : Text) (ttl : Option Decimal) : Bytes :=
  (arguments key value ttl).takeWhile fun c => decide (c ≠ 41)

theorem parseQuery_insert (table : Table) (key value : Text) (ttl : Option Decimal) :
    parseQuery (insert table key value ttl) =
      (blockPayload (block key value ttl)).map SetPayload.query := by
  have shape : insert table key value ttl = 73 :: (ascii "NSERT INTO " ++ table.1 ++
      ascii " VALUES (" ++ arguments key value ttl ++ [41]) := by
    simp only [insert, List.append_assoc]
    rfl
  have verb : insert table key value ttl = ascii "INSERT" ++ (ascii " INTO " ++ table.1 ++
      ascii " VALUES (" ++ arguments key value ttl ++ [41]) := by
    simp only [insert, List.append_assoc]
    rfl
  have selects : starts (ascii "select") (insert table key value ttl) = false := by
    rw [verb]
    exact starts_other (by decide) (by decide) _
  have inserts : starts (ascii "insert") (insert table key value ttl) = true := by
    rw [verb]
    exact starts_append (by decide) _
  have values : insert table key value ttl = (ascii "INSERT INTO " ++ table.1 ++ [32]) ++
      ascii "VALUES" ++ ([32] ++ 40 :: (arguments key value ttl ++ [41])) := by
    simp only [insert, List.append_assoc]
    rfl
  have unopened : 40 ∉ (ascii "INSERT INTO " ++ table.1 ++ [32]) ++ ascii "VALUES" ++ [32] := by
    have first : 40 ∉ ascii "INSERT INTO " := by decide
    have words : 40 ∉ [32] ++ (ascii "VALUES" ++ [32]) := by decide
    simp only [List.append_assoc, List.mem_append, not_or] at words ⊢
    exact ⟨first, table.2, words⟩
  rw [parseQuery_eq, trim_rendered shape rfl rfl, if_neg (by simp [selects]), if_pos inserts,
    setQuery, values, argsBlock_append (by decide) unopened, cut_last]
  rfl

def Plain (b : Bytes) : Prop := 44 ∉ b ∧ 41 ∉ b

instance (b : Bytes) : Decidable (Plain b) := inferInstanceAs (Decidable (_ ∧ _))

theorem Plain.takeWhile_append {front : Bytes} (plain : Plain front) (back : Bytes) :
    (front ++ back).takeWhile (fun c => decide (c ≠ 41)) =
      front ++ back.takeWhile fun c => decide (c ≠ 41) := by
  apply List.takeWhile_append_of_pos
  intro c mem
  rw [decide_eq_true_eq]
  rintro rfl
  exact plain.2 mem

theorem Plain.field {front : Bytes} (plain : Plain front) {c : UInt8} (ends : c = 44 ∨ c = 41)
    (back : Bytes) :
    (cut 44 ((front ++ c :: back).takeWhile fun c => decide (c ≠ 41))).elim
      ((front ++ c :: back).takeWhile fun c => decide (c ≠ 41)) Prod.fst = front := by
  rw [plain.takeWhile_append]
  obtain rfl | rfl := ends
  · rw [List.takeWhile_cons_of_pos (by decide), cut_append plain.1]
    rfl
  · rw [List.takeWhile_cons_of_neg (by decide), List.append_nil, cut_none plain.1]
    rfl

theorem exists_plain {b : Bytes} (marked : ¬Plain b) :
    ∃ front c back, b = front ++ c :: back ∧ (c = 44 ∨ c = 41) ∧ Plain front := by
  have there : ∃ c ∈ b, c = 44 ∨ c = 41 := by
    by_contra none_there
    apply marked
    constructor
    · exact fun mem => none_there ⟨44, mem, .inl rfl⟩
    · exact fun mem => none_there ⟨41, mem, .inr rfl⟩
  obtain ⟨front, c, back, whole, ends, others⟩ := exists_first (fun c => c = 44 ∨ c = 41) there
  refine ⟨front, c, back, whole, ends, ?_, ?_⟩
  · exact fun mem => others 44 mem (.inl rfl)
  · exact fun mem => others 41 mem (.inr rfl)

theorem unquote_cut {front : Bytes} (inner : 39 ∉ front) (text : Text) :
    unquote (trim isSpace (39 :: front)) ≠ some (some text.1) := by
  rw [trim_cons rfl]
  apply unquote_open
  intro mem
  have kept : front.rdropWhile isSpace <+: front := List.rdropWhile_prefix _ _
  exact inner (kept.mem mem)

/-! ### The payload of a block -/

inductive Fields (b : Bytes) : SetPayload → Prop where
  | one {key : Option Bytes} (comma : cut 44 b = none)
      (first : unquote (trim isSpace b) = some key) : Fields b ⟨key, none, 0, false⟩
  | two {k v : Bytes} {key value : Option Bytes} (comma : cut 44 b = some (k, v))
      (first : unquote (trim isSpace k) = some key) (last : cut 44 v = none)
      (second : unquote (trim isSpace v) = some value) : Fields b ⟨key, value, 0, false⟩
  | three {k v rest ttl : Bytes} {key value : Option Bytes} (comma : cut 44 b = some (k, rest))
      (first : unquote (trim isSpace k) = some key) (comma' : cut 44 rest = some (v, ttl))
      (second : unquote (trim isSpace v) = some value)
      (fits : ¬maxTTL < number (trim isSpace ttl)) :
      Fields b ⟨key, value, wrap64 (number (trim isSpace ttl) * 1000000), false⟩
  | overflow {k v rest ttl : Bytes} {key value : Option Bytes}
      (comma : cut 44 b = some (k, rest)) (first : unquote (trim isSpace k) = some key)
      (comma' : cut 44 rest = some (v, ttl)) (second : unquote (trim isSpace v) = some value)
      (large : maxTTL < number (trim isSpace ttl)) : Fields b ⟨none, none, 0, true⟩

theorem fields_of_payload {b : Bytes} {p : SetPayload} (read : blockPayload b = some p) :
    Fields b p := by
  unfold blockPayload at read
  rcases comma : cut 44 b with _ | ⟨k, rest⟩
  · rw [comma] at read
    obtain ⟨key, first, rfl⟩ := Option.map_eq_some_iff.mp read
    exact .one comma first
  · rw [comma] at read
    obtain ⟨key, first, read⟩ := Option.bind_eq_some_iff.mp read
    rcases comma' : cut 44 rest with _ | ⟨v, ttl⟩
    · rw [comma'] at read
      obtain ⟨value, second, rfl⟩ := Option.map_eq_some_iff.mp read
      exact .two comma first comma' second
    · rw [comma'] at read
      obtain ⟨value, second, rfl⟩ := Option.map_eq_some_iff.mp read
      split
      · exact .overflow comma first comma' second ‹_›
      · exact .three comma first comma' second ‹_›

theorem Fields.key {b : Bytes} {p : SetPayload} (fields : Fields b p) {text : Bytes}
    (key : p.key = some text) :
    unquote (trim isSpace ((cut 44 b).elim b Prod.fst)) = some (some text) := by
  cases fields with
  | one comma first => rw [comma, Option.elim_none, first, ← key]
  | two comma first _ _ | three comma first _ _ _ => rw [comma, Option.elim_some, first, ← key]
  | overflow => cases key

theorem Fields.value {b : Bytes} {p : SetPayload} (fields : Fields b p) {text first rest : Bytes}
    (comma : cut 44 b = some (first, rest)) (value : p.value = some text) :
    unquote (trim isSpace ((cut 44 rest).elim rest Prod.fst)) = some (some text) := by
  cases fields with
  | one => cases value
  | two again _ last second =>
    cases comma.symm.trans again
    rw [last, Option.elim_none, second, ← value]
  | three again _ comma' second _ =>
    cases comma.symm.trans again
    rw [comma', Option.elim_some, second, ← value]
  | overflow => cases value

/-- Three fields, quotes off the first two, and a number in the third that is too large as an
int64. -/
def Overflows (b : Bytes) : Prop :=
  ∃ k v rest ttl, cut 44 b = some (k, rest) ∧ cut 44 rest = some (v, ttl) ∧
    loneQuote (trim isSpace k) = false ∧ loneQuote (trim isSpace v) = false ∧
    maxTTL < number (trim isSpace ttl)

theorem overflows_iff (b : Bytes) :
    Overflows b ↔ ∃ q, (blockPayload b).map SetPayload.query = some (q, some .ttlOverflow) := by
  constructor
  · rintro ⟨k, v, rest, ttl, comma, comma', whole, whole', large⟩
    obtain ⟨key, first⟩ := loneQuote_eq_false.mp whole
    obtain ⟨value, second⟩ := loneQuote_eq_false.mp whole'
    refine ⟨⟨.set, none, none, 0⟩, ?_⟩
    simp only [blockPayload, comma, first, comma', second, if_pos large, Option.bind_some,
      Option.map_some]
    rfl
  · rintro ⟨q, read⟩
    obtain ⟨p, payload, error⟩ := Option.map_eq_some_iff.mp read
    cases fields_of_payload payload with
    | one | two | three =>
      have error := congrArg Prod.snd error
      simp only [SetPayload.query, Bool.false_eq_true, ↓reduceIte] at error
      split at error <;> cases error
    | overflow comma first comma' second large =>
      exact ⟨_, _, _, _, comma, comma', loneQuote_eq_false.mpr ⟨_, first⟩,
        loneQuote_eq_false.mpr ⟨_, second⟩, large⟩

/-! ### The arguments that were rendered -/

def ending (ttl : Option Decimal) : Bytes := ttl.elim [] fun ttl => ascii ", " ++ ttl.digits

theorem arguments_eq (key value : Text) (ttl : Option Decimal) :
    arguments key value ttl =
      39 :: (key.1 ++ 39 :: 44 :: 32 :: 39 :: (value.1 ++ 39 :: ending ttl)) := by
  simp only [arguments, List.append_assoc]
  rfl

theorem plain_quoted {b : Bytes} (plain : Plain b) : Plain (39 :: (b ++ [39])) := by
  unfold Plain at plain ⊢
  simpa using plain

theorem cut_key {key : Text} (plain : Plain key.1) (value : Text) (ttl : Option Decimal) :
    cut 44 (block key value ttl) = some (39 :: (key.1 ++ [39]),
      (32 :: 39 :: (value.1 ++ 39 :: ending ttl)).takeWhile fun c => decide (c ≠ 41)) := by
  have shape : arguments key value ttl =
      39 :: (key.1 ++ [39]) ++ 44 :: 32 :: 39 :: (value.1 ++ 39 :: ending ttl) := by
    simp [arguments_eq]
  have quoted := plain_quoted plain
  rw [block, shape, quoted.takeWhile_append, List.takeWhile_cons_of_pos (by decide),
    cut_append quoted.1]

theorem plain_key {key value : Text} {ttl : Option Decimal} {p : SetPayload}
    (read : blockPayload (block key value ttl) = some p) (same : p.key = some key.1) :
    Plain key.1 := by
  by_contra marked
  obtain ⟨front, c, back, whole, ends, plain⟩ := exists_plain marked
  have first := (fields_of_payload read).key same
  have shape : arguments key value ttl =
      39 :: front ++ c :: (back ++ 39 :: 44 :: 32 :: 39 :: (value.1 ++ 39 :: ending ttl)) := by
    simp [arguments_eq, whole]
  have opened : Plain (39 :: front) := by
    unfold Plain at plain ⊢
    simpa using plain
  rw [block, shape, opened.field ends] at first
  have inner : 39 ∉ front := fun mem => key.2.1 (by simp [whole, mem])
  exact unquote_cut inner key first

theorem plain_value {key value : Text} {ttl : Option Decimal} {p : SetPayload}
    (plain : Plain key.1) (read : blockPayload (block key value ttl) = some p)
    (same : p.value = some value.1) : Plain value.1 := by
  by_contra marked
  obtain ⟨front, c, back, whole, ends, plain_front⟩ := exists_plain marked
  have second := (fields_of_payload read).value (cut_key plain value ttl) same
  have shape : 32 :: 39 :: (value.1 ++ 39 :: ending ttl) =
      32 :: 39 :: front ++ c :: (back ++ 39 :: ending ttl) := by
    simp [whole]
  have opened : Plain (32 :: 39 :: front) := by
    unfold Plain at plain_front ⊢
    simpa using plain_front
  rw [shape, opened.field ends, trim_space rfl] at second
  have inner : 39 ∉ front := fun mem => value.2.1 (by simp [whole, mem])
  exact unquote_cut inner value second

/-! ### The TTL -/

theorem digit_bare {c : UInt8} (digit : isDigit c = true) : isSpace c = false := by
  by_contra blank
  simp only [isSpace, Bool.not_eq_false, Bool.or_eq_true, decide_eq_true_eq] at blank
  obtain ((rfl | rfl) | rfl) | rfl := blank <;> cases digit

theorem wrap64_step (n d : Int) : wrap64 (wrap64 n * 10 + d) = wrap64 (n * 10 + d) := by
  simp only [wrap64]
  rw [← Int.bmod_add_bmod, Int.bmod_mul_bmod, Int.bmod_add_bmod]

theorem foldl_wrap64 (digits : Bytes) (n : Nat) :
    digits.foldl (fun val c => wrap64 (val * 10 + (c - 48).toNat)) (wrap64 n) =
      wrap64 (digits.foldl (fun n c => n * 10 + (c - 48).toNat) n : Nat) := by
  induction digits generalizing n with
  | nil => rw [List.foldl_nil, List.foldl_nil]
  | cons c digits ih =>
    have step : (n : Int) * 10 + (c - 48).toNat = (n * 10 + (c - 48).toNat : Nat) := by
      omega
    rw [List.foldl_cons, List.foldl_cons, wrap64_step, step]
    exact ih _

theorem number_rendered (ttl : Decimal) :
    number (trim isSpace (32 :: ttl.digits)) = wrap64 ttl.value := by
  have trimmed : trim isSpace ttl.digits = ttl.digits := by
    obtain ⟨c, digits, whole⟩ := List.exists_cons_of_ne_nil ttl.written
    have bare : ∀ x ∈ c :: digits, isSpace x = false := fun x mem =>
      digit_bare (ttl.decimal x (whole ▸ mem))
    rw [whole, trim_cons (bare c List.mem_cons_self), List.rdropWhile_eq_self_iff.mpr]
    intro some_left
    rw [bare _ (List.mem_cons_of_mem c (List.getLast_mem some_left))]
    exact Bool.false_ne_true
  have all : ttl.digits.takeWhile isDigit = ttl.digits :=
    List.takeWhile_eq_self_iff.mpr ttl.decimal
  rw [trim_space rfl, trimmed, number, all]
  exact foldl_wrap64 ttl.digits 0

def payload (key value : Text) : Option Decimal → SetPayload
  | none => ⟨some key.1, some value.1, 0, false⟩
  | some ttl =>
    if maxTTL < wrap64 ttl.value then ⟨none, none, 0, true⟩
    else ⟨some key.1, some value.1, wrap64 (wrap64 ttl.value * 1000000), false⟩

theorem blockPayload_plain {key value : Text} (plain : Plain key.1) (plain' : Plain value.1)
    (ttl : Option Decimal) :
    blockPayload (block key value ttl) = some (payload key value ttl) := by
  have quoted : Plain (32 :: 39 :: (value.1 ++ [39])) := by
    unfold Plain at plain' ⊢
    simpa using plain'
  have shape : 32 :: 39 :: (value.1 ++ 39 :: ending ttl) =
      32 :: 39 :: (value.1 ++ [39]) ++ ending ttl := by
    simp
  have key_taken : unquote (trim isSpace (39 :: (key.1 ++ [39]))) = some (some key.1) := by
    rw [trim_framed rfl rfl, unquote_framed]
  rw [blockPayload, cut_key plain, shape, quoted.takeWhile_append]
  simp only [key_taken, Option.bind_some]
  cases ttl with
  | none =>
    simp only [ending, Option.elim_none, List.takeWhile_nil, List.append_nil, cut_none quoted.1,
      unquote_trim_quoted, Option.map_some]
    rfl
  | some ttl =>
    have unclosed : (ending (some ttl)).takeWhile (fun c => decide (c ≠ 41)) =
        44 :: 32 :: ttl.digits := by
      change (44 :: 32 :: ttl.digits).takeWhile _ = _
      rw [List.takeWhile_eq_self_iff]
      intro c mem
      rw [decide_eq_true_eq]
      rintro rfl
      have digit : 41 ∈ ttl.digits := by simpa using mem
      cases ttl.decimal 41 digit
    rw [unclosed, cut_append quoted.1]
    simp only [unquote_trim_quoted, number_rendered, Option.map_some]
    rfl

theorem wrap64_small {n : Int} (above : -9223372036854775808 ≤ n) (below : n < 9223372036854775808) :
    wrap64 n = n :=
  Int.bmod_eq_of_le above below

theorem payload_small {key value : Text} {ttl : Decimal} (small : (ttl.value : Int) ≤ maxTTL) :
    payload key value (some ttl) = ⟨some key.1, some value.1, ttl.value * 1000000, false⟩ := by
  have day : maxTTL = 86400000 := rfl
  rw [day] at small
  have exact : wrap64 ttl.value = ttl.value := wrap64_small (by omega) (by omega)
  have exact' : wrap64 (ttl.value * 1000000) = ttl.value * 1000000 :=
    wrap64_small (by omega) (by omega)
  rw [payload, exact, exact', if_neg (by rw [day]; omega)]

def Faithful (key value : Text) : Option Decimal → Prop
  | none => Plain key.1 ∧ Plain value.1
  | some ttl =>
    if ttl.value ≤ maxTTL then Plain key.1 ∧ Plain value.1
    else if Plain key.1 ∧ Plain value.1 then maxTTL < wrap64 ttl.value
    else Overflows (block key value (some ttl))

theorem plain_of_read {key value : Text} {ttl : Option Decimal} {duration : Int}
    (read : (blockPayload (block key value ttl)).map SetPayload.query =
      some (⟨.set, some key.1, some value.1, duration⟩, none)) : Plain key.1 ∧ Plain value.1 := by
  obtain ⟨p, payload, query⟩ := Option.map_eq_some_iff.mp read
  have fields := congrArg Prod.fst query
  have key_read : p.key = some key.1 := congrArg ParsedQuery.key fields
  have value_read : p.value = some value.1 := congrArg ParsedQuery.value fields
  have plain := plain_key payload key_read
  exact ⟨plain, plain_value plain payload value_read⟩

theorem readBack_iff (table : Table) (key value : Text) (ttl : Option Decimal) :
    ReadBack key value ttl (parseQuery (insert table key value ttl)) ↔
      Faithful key value ttl := by
  rw [parseQuery_insert]
  cases ttl with
  | none =>
    constructor
    · exact plain_of_read
    · rintro ⟨plain, plain'⟩
      rw [ReadBack, blockPayload_plain plain plain']
      rfl
  | some ttl =>
    simp only [ReadBack, Faithful]
    by_cases small : (ttl.value : Int) ≤ maxTTL
    · rw [if_pos small, if_pos small]
      constructor
      · exact plain_of_read
      · rintro ⟨plain, plain'⟩
        rw [blockPayload_plain plain plain', payload_small small]
        rfl
    · rw [if_neg small, if_neg small]
      by_cases plain : Plain key.1 ∧ Plain value.1
      · rw [if_pos plain, blockPayload_plain plain.1 plain.2, payload]
        by_cases large : maxTTL < wrap64 ttl.value
        · rw [if_pos large]
          exact iff_of_true ⟨_, rfl⟩ large
        · rw [if_neg large]
          refine iff_of_false ?_ large
          rintro ⟨q, read⟩
          cases congrArg Prod.snd (Option.some.inj read)
      · rw [if_neg plain, overflows_iff]

/-- SELECT and DELETE give back every key, an INSERT its key, value and TTL exactly when neither
text has a comma or a closing parenthesis; it refuses exactly the TTLs that as an int64 are more
than a day. -/
theorem parseQuery_rendered_iff (target : Target) (table : Table) (key value : Text)
    (ttl : Option Decimal) :
    parseQuery (select target key) = some (⟨.get, some key.1, none, 0⟩, none) ∧
        parseQuery (delete target key) = some (⟨.delete, some key.1, none, 0⟩, none) ∧
        ReadBack key value ttl (parseQuery (insert table key value ttl)) ↔
      Faithful key value ttl := by
  constructor
  · rintro ⟨-, -, read⟩
    exact (readBack_iff table key value ttl).mp read
  · intro faithful
    exact ⟨parseQuery_select target key, parseQuery_delete target key,
      (readBack_iff table key value ttl).mpr faithful⟩

theorem parseQuery_misreads :
    let table : Table := ⟨ascii "t", by decide⟩
    let value : Text := ⟨ascii "v", by decide⟩
    let overlong : Decimal := ⟨ascii "18446744073709551616", by decide, by decide +kernel⟩
    parseQuery (insert table ⟨ascii "a,b", by decide⟩ value none) =
        some (⟨.set, some (ascii "'a"), some (ascii "b'"), 0⟩, none) ∧
      parseQuery (insert table ⟨ascii "k", by decide⟩ value (some overlong)) =
        some (⟨.set, some (ascii "k"), some (ascii "v"), 0⟩, none) := by
  decide +kernel

end Tellstone.Protocol
