import Mathlib.Data.List.Basic

/-! Parsers that are handed a growing buffer until it holds a whole value. `more` is the
error by which they ask for it. -/
namespace Incremental

/-- A value off the front of a buffer, and the rest. -/
abbrev Parser (ε α β : Type) := List α → Except ε (β × List α)

variable {ε α β γ : Type} {more : ε}

/-- What a parser says of a buffer, unless it asks for more, it says of every longer one. -/
structure Stable (more : ε) (parser : Parser ε α β) : Prop where
  ending : ∀ {buf value rest}, parser buf = .ok (value, rest) → rest <:+ buf
  ok : ∀ {buf value rest}, parser buf = .ok (value, rest) →
    ∀ later, parser (buf ++ later) = .ok (value, rest ++ later)
  error : ∀ {buf err}, parser buf = .error err → err ≠ more →
    ∀ later, parser (buf ++ later) = .error err

def Reads (parser : Parser ε α β) (text : List α) (value : β) : Prop :=
  ∀ rest, parser (text ++ rest) = .ok (value, rest)

theorem Stable.cut {parser : Parser ε α β} (stable : Stable more parser) {text front : List α}
    {value : β} (reads : Reads parser text value) (start : front <+: text) (cut : front ≠ text) :
    parser front = .error more := by
  obtain ⟨back, rfl⟩ := start
  have whole : parser (front ++ back) = .ok (value, []) := by
    simpa using reads []
  cases said : parser front with
  | ok result =>
    obtain ⟨other, rest⟩ := result
    rw [stable.ok said back] at whole
    have none : back = [] := by
      have split := congrArg Prod.snd (Except.ok.inj whole)
      exact (List.append_eq_nil_iff.mp split).2
    exact absurd (by rw [none, List.append_nil]) cut
  | error err =>
    by_cases asks : err = more
    · rw [asks]
    · rw [stable.error said asks back] at whole
      cases whole

def andThen (first : Parser ε α β) (next : β → Parser ε α γ) : Parser ε α γ := fun buf =>
  match first buf with
  | .error err => .error err
  | .ok (value, rest) => next value rest

theorem andThen_ok {first : Parser ε α β} {buf rest : List α} {value : β}
    (read : first buf = .ok (value, rest)) (next : β → Parser ε α γ) :
    andThen first next buf = next value rest := by
  simp only [andThen, read]

theorem andThen_error {first : Parser ε α β} {buf : List α} {err : ε}
    (refused : first buf = .error err) (next : β → Parser ε α γ) :
    andThen first next buf = .error err := by
  simp only [andThen, refused]

def done (value : β) : Parser ε α β := fun buf => .ok (value, buf)

def fail (err : ε) : Parser ε α β := fun _ => .error err

def one (more : ε) : Parser ε α α
  | [] => .error more
  | c :: rest => .ok (c, rest)

def exactly (more : ε) (n : Nat) : Parser ε α (List α) := fun buf =>
  if buf.length < n then .error more else .ok (buf.take n, buf.drop n)

theorem Stable.done (value : β) : Stable more (done value : Parser ε α β) where
  ending said := by
    cases said
    exact List.suffix_rfl
  ok said later := by
    cases said
    rfl
  error said := by cases said

theorem Stable.fail (err : ε) : Stable more (fail err : Parser ε α β) where
  ending said := by cases said
  ok said := by cases said
  error said _ _ := said

theorem Stable.one : Stable more (one more : Parser ε α α) where
  ending {buf _ _} said := by
    cases buf with
    | nil => cases said
    | cons c rest =>
      cases said
      exact List.suffix_cons _ _
  ok {buf _ _} said later := by
    cases buf with
    | nil => cases said
    | cons c rest =>
      cases said
      rfl
  error {buf _} said other := by
    cases buf with
    | nil =>
      cases said
      exact absurd rfl other
    | cons c rest => cases said

theorem Stable.exactly (n : Nat) : Stable more (exactly more n : Parser ε α (List α)) where
  ending {buf _ _} said := by
    unfold Incremental.exactly at said
    split at said
    · cases said
    · cases said
      exact List.drop_suffix _ _
  ok {buf _ _} said later := by
    unfold Incremental.exactly at said ⊢
    split at said
    · cases said
    · rename_i enough
      cases said
      rw [if_neg (by simp only [List.length_append]; omega),
        List.take_append_of_le_length (by omega), List.drop_append_of_le_length (by omega)]
  error {buf _} said other := by
    unfold Incremental.exactly at said
    split at said
    · cases said
      exact absurd rfl other
    · cases said

theorem Stable.andThen {first : Parser ε α β} {next : β → Parser ε α γ}
    (front : Stable more first) (back : ∀ value, Stable more (next value)) :
    Stable more (andThen first next) where
  ending {buf _ _} said := by
    cases read : first buf with
    | error err =>
      rw [andThen_error read] at said
      cases said
    | ok result =>
      rw [andThen_ok read] at said
      exact ((back result.1).ending said).trans (front.ending read)
  ok {buf _ _} said later := by
    cases read : first buf with
    | error err =>
      rw [andThen_error read] at said
      cases said
    | ok result =>
      rw [andThen_ok read] at said
      rw [andThen_ok (front.ok read later)]
      exact (back result.1).ok said later
  error {buf _} said other later := by
    cases read : first buf with
    | error err =>
      rw [andThen_error read] at said
      cases said
      exact andThen_error (front.error read other later) next
    | ok result =>
      rw [andThen_ok read] at said
      rw [andThen_ok (front.ok read later)]
      exact (back result.1).error said other later

theorem Reads.done (value : β) : Reads (done value : Parser ε α β) [] value := fun _ => rfl

theorem Reads.one (c : α) : Reads (one more) [c] c := fun _ => rfl

theorem Reads.exactly {n : Nat} {text : List α} (size : text.length = n) :
    Reads (exactly more n) text text := by
  intro rest
  subst size
  rw [Incremental.exactly, if_neg (by simp), List.take_left, List.drop_left]

theorem Reads.andThen {first : Parser ε α β} {next : β → Parser ε α γ} {front back : List α}
    {value : β} {result : γ} (reads : Reads first front value)
    (follows : Reads (next value) back result) :
    Reads (andThen first next) (front ++ back) result := by
  intro rest
  rw [List.append_assoc, andThen_ok (reads _)]
  exact follows rest

theorem Reads.andDone {first : Parser ε α β} {text : List α} {value : β}
    (reads : Reads first text value) (f : β → γ) :
    Reads (Incremental.andThen first fun v => Incremental.done (f v)) text (f value) := by
  intro rest
  rw [andThen_ok (reads rest)]
  rfl

def several : Nat → Parser ε α β → Parser ε α (List β)
  | 0, _ => done []
  | n + 1, parser =>
    andThen parser fun value => andThen (several n parser) fun values => done (value :: values)

theorem Reads.several {parser : Parser ε α β} {text : β → List α} {values : List β}
    (reads : ∀ v ∈ values, Reads parser (text v) v) :
    Reads (several values.length parser) (values.flatMap text) values := by
  induction values with
  | nil => exact .done []
  | cons value values ih =>
    have others := ih fun v mem => reads v (List.mem_cons_of_mem _ mem)
    exact (reads value List.mem_cons_self).andThen (others.andDone (List.cons value))

/-- These values come off the front of a buffer one after another, before this rest. -/
inductive Parses (parser : Parser ε α β) : List α → List β → List α → Prop where
  | nil (buf : List α) : Parses parser buf [] buf
  | cons {buf mid rest : List α} {value : β} {values : List β}
      (read : parser buf = .ok (value, mid)) (others : Parses parser mid values rest) :
      Parses parser buf (value :: values) rest

namespace Parses

variable {parser : Parser ε α β} {buf mid rest : List α} {value : β} {values others : List β}

theorem append (first : Parses parser buf values mid) (second : Parses parser mid others rest) :
    Parses parser buf (values ++ others) rest := by
  induction first with
  | nil => exact second
  | cons read _ ih => exact .cons read (ih second)

theorem split (parses : Parses parser buf (values ++ others) rest) :
    ∃ mid, Parses parser buf values mid ∧ Parses parser mid others rest := by
  induction values generalizing buf with
  | nil => exact ⟨buf, .nil buf, parses⟩
  | cons value values ih =>
    cases parses with
    | cons read further =>
      obtain ⟨mid, first, second⟩ := ih further
      exact ⟨mid, .cons read first, second⟩

theorem snoc (first : Parses parser buf values mid) (read : parser mid = .ok (value, rest)) :
    Parses parser buf (values ++ [value]) rest :=
  first.append (.cons read (.nil rest))

theorem ending (stable : Stable more parser) (parses : Parses parser buf values rest) :
    rest <:+ buf := by
  induction parses with
  | nil => exact List.suffix_rfl
  | cons read _ ih => exact ih.trans (stable.ending read)

theorem later (stable : Stable more parser) (parses : Parses parser buf values rest)
    (later : List α) : Parses parser (buf ++ later) values (rest ++ later) := by
  induction parses with
  | nil => exact .nil _
  | cons read _ ih => exact .cons (stable.ok read later) ih

theorem comparable {rest' : List α} (first : Parses parser buf values rest)
    (second : Parses parser buf others rest') :
    (∃ further, others = values ++ further ∧ Parses parser rest further rest') ∨
      ∃ further, values = others ++ further ∧ Parses parser rest' further rest := by
  induction first generalizing others with
  | nil => exact Or.inl ⟨others, rfl, second⟩
  | @cons buf mid rest value values read parses ih =>
    cases second with
    | nil => exact Or.inr ⟨value :: values, rfl, .cons read parses⟩
    | cons read' parses' =>
      cases read.symm.trans read'
      rcases ih parses' with ⟨further, rfl, goesOn⟩ | ⟨further, rfl, goesOn⟩
      · exact Or.inl ⟨further, rfl, goesOn⟩
      · exact Or.inr ⟨further, rfl, goesOn⟩

end Parses

end Incremental
