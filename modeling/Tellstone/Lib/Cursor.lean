import Tellstone.Lib.Incremental

/-! Encoders that append to a buffer and may refuse, and decoders that move a position along an
array. -/
namespace Cursor
open Incremental

variable {α β γ : Type}

def Appends (encode : List α → β → Option (List α)) (fits : β → Prop) (text : β → List α) : Prop :=
  ∀ buf value out, encode buf value = some out ↔ fits value ∧ out = buf ++ text value

namespace Appends

variable {encode : List α → β → Option (List α)} {fits : β → Prop} {text : β → List α}

theorem foldlM (appends : Appends encode fits text) :
    Appends (fun buf values => values.foldlM encode buf) (fun values => ∀ v ∈ values, fits v)
      (List.flatMap text) := by
  intro buf values out
  induction values generalizing buf with
  | nil => simp [eq_comm]
  | cons value values ih =>
    simp only [List.foldlM_cons, List.forall_mem_cons, List.flatMap_cons]
    constructor
    · intro encoded
      obtain ⟨mid, first, rest⟩ := Option.bind_eq_some_iff.mp encoded
      obtain ⟨fine, rfl⟩ := (appends _ _ _).mp first
      obtain ⟨others, rfl⟩ := (ih _).mp rest
      exact ⟨⟨fine, others⟩, List.append_assoc _ _ _⟩
    · rintro ⟨⟨fine, others⟩, rfl⟩
      refine Option.bind_eq_some_iff.mpr ⟨_, (appends _ _ _).mpr ⟨fine, rfl⟩,
        (ih _).mpr ⟨others, ?_⟩⟩
      exact (List.append_assoc _ _ _).symm

theorem andThen {next : List α → β → Option (List α)} {fits' : β → Prop} {text' : β → List α}
    (first : Appends encode fits text) (second : Appends next fits' text') :
    Appends (fun buf value => (encode buf value).bind fun buf => next buf value)
      (fun value => fits value ∧ fits' value) (fun value => text value ++ text' value) := by
  intro buf value out
  constructor
  · intro encoded
    obtain ⟨mid, front, back⟩ := Option.bind_eq_some_iff.mp encoded
    obtain ⟨fine, rfl⟩ := (first _ _ _).mp front
    obtain ⟨fine', rfl⟩ := (second _ _ _).mp back
    exact ⟨⟨fine, fine'⟩, List.append_assoc _ _ _⟩
  · rintro ⟨⟨fine, fine'⟩, rfl⟩
    refine Option.bind_eq_some_iff.mpr ⟨_, (first _ _ _).mpr ⟨fine, rfl⟩,
      (second _ _ _).mpr ⟨fine', ?_⟩⟩
    exact (List.append_assoc _ _ _).symm

theorem part (appends : Appends encode fits text) (proj : γ → β) :
    Appends (fun buf value => encode buf (proj value)) (fun value => fits (proj value))
      (fun value => text (proj value)) :=
  fun buf value out => appends buf (proj value) out

end Appends

inductive Stop where
  | refused
  | outOfRange
  deriving DecidableEq, Repr

def slice (array : List α) (i j : Nat) : Except Stop (List α) :=
  if i ≤ j ∧ j ≤ array.length then .ok ((array.drop i).take (j - i)) else .error .outOfRange

theorem slice_ok {array : List α} {i j : Nat} (ordered : i ≤ j)
    (within : j ≤ array.length) : slice array i j = .ok ((array.drop i).take (j - i)) :=
  if_pos ⟨ordered, within⟩

abbrev Decoder (α β : Type) := List α → Nat → Except Stop (β × Nat)

namespace Decoder

def done (value : β) : Decoder α β := fun _ pos => .ok (value, pos)

def andThen (first : Decoder α β) (next : β → Decoder α γ) : Decoder α γ := fun array pos =>
  match first array pos with
  | .error stop => .error stop
  | .ok (value, pos) => next value array pos

def field (n : Nat) : Decoder α (List α) := fun array pos =>
  if array.length < pos + n then .error .refused
  else (slice array pos (pos + n)).map fun elements => (elements, pos + n)

def times : Nat → Decoder α β → Decoder α (List β)
  | 0, _ => done []
  | n + 1, d => d.andThen fun value => (times n d).andThen fun values => done (value :: values)

def exact (d : Decoder α β) (array : List α) : Except Stop β :=
  match d array 0 with
  | .error stop => .error stop
  | .ok (value, pos) => if pos = array.length then .ok value else .error .refused

end Decoder

/-- At a position, the decoder does what the parser does with the rest of the array. -/
structure Tracks (d : Decoder α β) (parser : Parser Unit α β) : Prop where
  stable : Stable () parser
  ok : ∀ {array pos value rest}, pos ≤ array.length → parser (array.drop pos) = .ok (value, rest) →
    d array pos = .ok (value, array.length - rest.length)
  refuses : ∀ {array pos}, pos ≤ array.length → parser (array.drop pos) = .error () →
    d array pos = .error .refused

namespace Tracks

variable {d : Decoder α β} {parser : Parser Unit α β}

theorem done (value : β) : Tracks (.done value : Decoder α β) (Incremental.done value) where
  stable := .done value
  ok within read := by
    cases read
    rw [List.length_drop, Nat.sub_sub_self within]
    rfl
  refuses _ refused := by cases refused

theorem field (n : Nat) : Tracks (.field n : Decoder α (List α)) (exactly () n) where
  stable := .exactly n
  ok {array pos _ _} within read := by
    unfold exactly at read
    split at read
    · cases read
    · rename_i enough
      cases read
      rw [List.length_drop] at enough
      have behind : array.length - ((array.drop pos).drop n).length = pos + n := by
        simp only [List.length_drop]
        omega
      rw [Decoder.field, if_neg (by omega), slice, if_pos (by omega), behind, Nat.add_sub_cancel_left]
      rfl
  refuses {array pos} within refused := by
    unfold exactly at refused
    split at refused
    · rename_i short
      rw [List.length_drop] at short
      rw [Decoder.field, if_pos (by omega)]
    · cases refused

theorem andThen {next : β → Decoder α γ} {after : β → Parser Unit α γ} (first : Tracks d parser)
    (then_ : ∀ value, Tracks (next value) (after value)) :
    Tracks (d.andThen next) (Incremental.andThen parser after) where
  stable := first.stable.andThen fun value => (then_ value).stable
  ok {array pos _ _} within read := by
    cases front : parser (array.drop pos) with
    | error err =>
      rw [andThen_error front] at read
      cases read
    | ok result =>
      obtain ⟨value, rest⟩ := result
      rw [andThen_ok front] at read
      have tail := (first.stable.ending front).trans (List.drop_suffix _ _)
      rw [List.suffix_iff_eq_drop.mp tail] at read
      rw [Decoder.andThen, first.ok within front]
      exact (then_ value).ok (Nat.sub_le _ _) read
  refuses {array pos} within refused := by
    cases front : parser (array.drop pos) with
    | error err => rw [Decoder.andThen, first.refuses within front]
    | ok result =>
      obtain ⟨value, rest⟩ := result
      rw [andThen_ok front] at refused
      have tail := (first.stable.ending front).trans (List.drop_suffix _ _)
      rw [List.suffix_iff_eq_drop.mp tail] at refused
      rw [Decoder.andThen, first.ok within front]
      exact (then_ value).refuses (Nat.sub_le _ _) refused

theorem times (tracks : Tracks d parser) (n : Nat) : Tracks (.times n d) (several n parser) := by
  induction n with
  | zero => exact .done []
  | succ n ih => exact tracks.andThen fun value => ih.andThen fun values => .done (value :: values)

theorem inRange (tracks : Tracks d parser) {array : List α} {pos : Nat}
    (within : pos ≤ array.length) : d array pos ≠ .error .outOfRange := by
  cases read : parser (array.drop pos) with
  | error err =>
    rw [tracks.refuses within read]
    exact fun same => by cases same
  | ok result =>
    rw [tracks.ok within read]
    exact fun same => by cases same

theorem exact_inRange (tracks : Tracks d parser) (array : List α) :
    d.exact array ≠ .error .outOfRange := by
  have front := tracks.inRange (Nat.zero_le array.length)
  rw [Decoder.exact]
  split
  · rename_i stop stopped
    rw [stopped] at front
    exact fun same => front (by cases same; rfl)
  · split <;> exact fun same => by cases same

theorem decodes (tracks : Tracks d parser) {text : List α} {value : β}
    (reads : Reads parser text value) (more : List α) :
    d (text ++ more) 0 = .ok (value, text.length) := by
  rw [tracks.ok (Nat.zero_le _) (reads more), List.length_append, Nat.add_sub_cancel]

theorem refuses_cut (tracks : Tracks d parser) {text front : List α} {value : β}
    (reads : Reads parser text value) (start : front <+: text) (cut : front ≠ text) :
    d front 0 = .error .refused :=
  tracks.refuses (Nat.zero_le _) (tracks.stable.cut reads start cut)

end Tracks

/-- The text is decoded to the value, and no cut or extension of it is decoded at all. -/
structure Inverts (decode : List α → Except Stop β) (text : List α) (value : β) : Prop where
  whole : decode text = .ok value
  cut : ∀ front, front <+: text → front ≠ text → decode front = .error .refused
  longer : ∀ more, more ≠ [] → decode (text ++ more) = .error .refused

/-- An encoder and a decoder: what fits is written as a text that the parser reads. -/
structure Format (encode : List α → β → Option (List α)) (d : Decoder α β) (fits : β → Prop)
    (text : β → List α) : Prop where
  appends : Appends encode fits text
  decodes : ∃ parser, Tracks d parser ∧ ∀ {value}, fits value → Reads parser (text value) value

namespace Format

variable {encode : List α → β → Option (List α)} {d : Decoder α β} {fits : β → Prop}
  {text : β → List α}

theorem inverts (format : Format encode d fits text) {value : β} {out : List α}
    (encoded : encode [] value = some out) : Inverts d.exact out value := by
  obtain ⟨fine, rfl⟩ := (format.appends _ _ _).mp encoded
  obtain ⟨parser, tracks, reads⟩ := format.decodes
  have reads := reads fine
  rw [List.nil_append]
  refine ⟨?_, fun front start cut => ?_, fun more some => ?_⟩
  · have all := tracks.decodes reads []
    rw [List.append_nil] at all
    rw [Decoder.exact, all]
    exact if_pos rfl
  · rw [Decoder.exact, tracks.refuses_cut reads start cut]
  · rw [Decoder.exact, tracks.decodes reads more]
    have length := List.length_pos_iff.mpr some
    refine if_neg ?_
    rw [List.length_append]
    omega

theorem inRange (format : Format encode d fits text) (array : List α) :
    d.exact array ≠ .error .outOfRange := by
  obtain ⟨parser, tracks, -⟩ := format.decodes
  exact tracks.exact_inRange array

end Format

end Cursor
