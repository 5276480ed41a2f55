import Tellstone.Lib.ByteStream

/-! Logs made of self-delimiting frames. A byte prefix is a run of whole frames and at most one
cut frame; a reader sees exactly the whole ones. -/
namespace Framing
open ByteStream

variable {α β γ σ τ ε : Type}

def whole (size : α → Nat) : Nat → List α → List α
  | _, [] => []
  | n, a :: as => if size a ≤ n then a :: whole size (n - size a) as else []

theorem whole_start (size : α → Nat) (n : Nat) (as : List α) : whole size n as <+: as := by
  induction as generalizing n with
  | nil => exact List.nil_prefix
  | cons a as ih =>
    simp only [whole]
    split
    · exact List.cons_prefix_cons.mpr ⟨rfl, ih _⟩
    · exact List.nil_prefix

theorem whole_map (size : β → Nat) (f : α → β) (n : Nat) (as : List α) :
    whole size n (as.map f) = (whole (size ∘ f) n as).map f := by
  induction as generalizing n with
  | nil => rfl
  | cons a as ih =>
    simp only [List.map_cons, whole, Function.comp_apply]
    split
    · rw [ih, List.map_cons]
    · rfl

def Cut (frame : α → Bytes) (ok : α → Prop) (tail : Bytes) : Prop :=
  tail = [] ∨ ∃ a, ok a ∧ tail <+: frame a ∧ tail.length < (frame a).length

theorem take_frames (frame : α → Bytes) {ok : α → Prop} (n : Nat) (as : List α)
    (fits : ∀ a ∈ as, ok a) :
    ∃ tail, (as.flatMap frame).take n =
        (whole (fun a => (frame a).length) n as).flatMap frame ++ tail ∧ Cut frame ok tail := by
  induction as generalizing n with
  | nil => exact ⟨[], by simp [whole], Or.inl rfl⟩
  | cons a as ih =>
    simp only [whole, List.flatMap_cons]
    split
    · rename_i small
      obtain ⟨tail, split, cut⟩ :=
        ih (n - (frame a).length) (fun b hb => fits b (List.mem_cons_of_mem a hb))
      refine ⟨tail, ?_, cut⟩
      rw [List.take_append, List.take_of_length_le small, split, List.flatMap_cons,
        List.append_assoc]
    · rename_i beyond
      refine ⟨(frame a).take n, ?_, Or.inr ⟨a, fits a List.mem_cons_self, List.take_prefix n _, ?_⟩⟩
      · rw [List.take_append_of_le_length (by omega), List.flatMap_nil, List.nil_append]
      · rw [List.length_take]
        omega

theorem length_flatMap_frames (frame : α → Bytes) (as : List α) :
    (as.flatMap frame).length = (as.map (fun a => (frame a).length)).sum := by
  rw [List.length_flatMap]

inductive Turn (σ ε : Type) where
  | more (s : σ)
  | stop (s : σ)
  | fail (s : σ) (e : ε)

def Turn.next (state : γ → σ) : γ × Option ε → Turn σ ε
  | (g, none) => .more (state g)
  | (g, some e) => .fail (state g) e

@[simp] theorem Turn.next_none (state : γ → σ) (g : γ) :
    (Turn.next state (g, none) : Turn σ ε) = .more (state g) := rfl

@[simp] theorem Turn.next_some (state : γ → σ) (g : γ) (e : ε) :
    Turn.next state (g, some e) = .fail (state g) e := rfl

theorem Turn.next_eq_more {state : γ → σ} {x : γ × Option ε} {t : σ}
    (h : Turn.next state x = .more t) : t = state x.1 := by
  rcases x with ⟨g, _ | e⟩
  · rw [next_none] at h
    injection h with h
    exact h.symm
  · cases h

theorem Turn.next_ne_fail {state : γ → σ} {x : γ × Option ε} (ok : x.2 = none) (t : σ) (e : ε) :
    Turn.next state x ≠ .fail t e := by
  obtain ⟨g, err⟩ := x
  cases ok
  intro no
  cases no

def turns (step : σ → Turn σ ε) : Nat → σ → σ × Option ε
  | 0, s => (s, none)
  | n + 1, s =>
    match step s with
    | .more t => turns step n t
    | .stop t => (t, none)
    | .fail t e => (t, some e)

def loop (step : σ → Turn σ ε) (size : σ → Nat) (s : σ) : σ × Option ε :=
  turns step (size s + 1) s

def Shrinks (step : σ → Turn σ ε) (size : σ → Nat) : Prop :=
  ∀ s t, step s = .more t → size t < size s

theorem turns_eq_loop {step : σ → Turn σ ε} {size : σ → Nat} (shrinks : Shrinks step size)
    (n : Nat) (s : σ) (enough : size s < n) : turns step n s = loop step size s := by
  induction n using Nat.strongRecOn generalizing s with
  | ind n ih =>
    obtain ⟨m, rfl⟩ : ∃ m, n = m + 1 := ⟨n - 1, by omega⟩
    simp only [loop, turns]
    cases turn : step s with
    | more t =>
      have less := shrinks s t turn
      exact (ih m (by omega) t (by omega)).trans (ih (size s) (by omega) t less).symm
    | stop t => rfl
    | fail t e => rfl

theorem loop_more {step : σ → Turn σ ε} {size : σ → Nat} (shrinks : Shrinks step size)
    {s t : σ} (h : step s = .more t) : loop step size s = loop step size t := by
  have less := shrinks s t h
  rw [loop, turns, h]
  exact turns_eq_loop shrinks _ t less

theorem loop_stop {step : σ → Turn σ ε} {size : σ → Nat} {s t : σ} (h : step s = .stop t) :
    loop step size s = (t, none) := by
  rw [loop, turns, h]

theorem loop_fail {step : σ → Turn σ ε} {size : σ → Nat} {s t : σ} {e : ε}
    (h : step s = .fail t e) : loop step size s = (t, some e) := by
  rw [loop, turns, h]

def Turn.state : Turn σ ε → σ
  | .more s => s
  | .stop s => s
  | .fail s _ => s

@[simp] theorem Turn.state_next (state : γ → σ) (x : γ × Option ε) :
    (Turn.next state x).state = state x.1 := by
  rcases x with ⟨g, _ | e⟩ <;> rfl

theorem loop_invariant {step : σ → Turn σ ε} (Inv : σ → Prop)
    (keeps : ∀ s, Inv s → Inv (step s).state) (size : σ → Nat) (s : σ) (inv : Inv s) :
    Inv (loop step size s).1 := by
  have all (n : Nat) (s : σ) (inv : Inv s) : Inv (turns step n s).1 := by
    induction n generalizing s with
    | zero => exact inv
    | succ n ih =>
      have next := keeps s inv
      simp only [turns]
      cases turn : step s with
      | more t =>
        rw [turn] at next
        exact ih t next
      | stop t =>
        rw [turn] at next
        exact next
      | fail t e =>
        rw [turn] at next
        exact next
  exact all _ s inv

theorem loop_ok {step : σ → Turn σ ε} (Inv : σ → Prop) (keeps : ∀ s, Inv s → Inv (step s).state)
    (sound : ∀ s, Inv s → ∀ t e, step s ≠ .fail t e) (size : σ → Nat) (s : σ) (inv : Inv s) :
    (loop step size s).2 = none := by
  have all (n : Nat) (s : σ) (inv : Inv s) : (turns step n s).2 = none := by
    induction n generalizing s with
    | zero => rfl
    | succ n ih =>
      have next := keeps s inv
      simp only [turns]
      cases turn : step s with
      | more t =>
        rw [turn] at next
        exact ih t next
      | stop t => rfl
      | fail t e => exact absurd turn (sound s inv t e)
  exact all _ s inv

/-- Two turns that end alike in related states, unless the first fails where it may. -/
inductive Turn.Related (R : σ → τ → Prop) (may : Prop) : Turn σ ε → Turn τ ε → Prop where
  | more {s : σ} {t : τ} (related : R s t) : Related R may (.more s) (.more t)
  | stop {s : σ} {t : τ} (related : R s t) : Related R may (.stop s) (.stop t)
  | fail {s : σ} {t : τ} (e : ε) (related : R s t) : Related R may (.fail s e) (.fail t e)
  | breaks {s : σ} (e : ε) (turn : Turn τ ε) (allowed : may) : Related R may (.fail s e) turn

theorem loop_related {step : σ → Turn σ ε} {step' : τ → Turn τ ε} {size : σ → Nat}
    {size' : τ → Nat} {R : σ → τ → Prop} {may : Prop} (sizes : ∀ s t, R s t → size s = size' t)
    (turn : ∀ s t, R s t → Turn.Related R may (step s) (step' t)) {s : σ} {t : τ} (start : R s t) :
    (∃ e, (loop step size s).2 = some e) ∧ may ∨
      R (loop step size s).1 (loop step' size' t).1 ∧
        (loop step size s).2 = (loop step' size' t).2 := by
  have all (n : Nat) (s : σ) (t : τ) (related : R s t) :
      (∃ e, (turns step n s).2 = some e) ∧ may ∨
        R (turns step n s).1 (turns step' n t).1 ∧ (turns step n s).2 = (turns step' n t).2 := by
    induction n generalizing s t with
    | zero => exact Or.inr ⟨related, rfl⟩
    | succ n ih =>
      have next := turn s t related
      simp only [turns]
      generalize step s = left at next ⊢
      generalize step' t = right at next ⊢
      cases next with
      | more related => exact ih _ _ related
      | stop related => exact Or.inr ⟨related, rfl⟩
      | fail e related => exact Or.inr ⟨related, rfl⟩
      | breaks e turn allowed => exact Or.inl ⟨⟨e, rfl⟩, allowed⟩
  rw [loop, loop, sizes s t start]
  exact all _ s t start

def foldUntil (eat : γ → α → γ × Option ε) : γ → List α → γ × Option ε
  | g, [] => (g, none)
  | g, a :: as =>
    match eat g a with
    | (g', none) => foldUntil eat g' as
    | (g', some e) => (g', some e)

theorem foldUntil_append (eat : γ → α → γ × Option ε) (g : γ) (as bs : List α) :
    foldUntil eat g (as ++ bs) =
      match foldUntil eat g as with
      | (g', none) => foldUntil eat g' bs
      | (g', some e) => (g', some e) := by
  induction as generalizing g with
  | nil => rfl
  | cons a as ih =>
    simp only [List.cons_append, foldUntil]
    rcases eat g a with ⟨g', _ | e⟩
    · exact ih g'
    · rfl

theorem foldUntil_map (eat : γ → β → γ × Option ε) (f : α → β) (g : γ) (as : List α) :
    foldUntil eat g (as.map f) = foldUntil (fun g a => eat g (f a)) g as := by
  induction as generalizing g with
  | nil => rfl
  | cons a as ih =>
    simp only [List.map_cons, foldUntil]
    rcases eat g (f a) with ⟨g', _ | e⟩
    · exact ih g'
    · rfl

theorem foldUntil_invariant {eat : γ → α → γ × Option ε} (Inv : γ → List α → Prop)
    (keeps : ∀ g a as, Inv g (a :: as) → Inv (eat g a).1 as)
    (weakens : ∀ g as, Inv g as → Inv g []) (g : γ) (as : List α) (inv : Inv g as) :
    Inv (foldUntil eat g as).1 [] := by
  induction as generalizing g with
  | nil => exact inv
  | cons a as ih =>
    have next := keeps g a as inv
    simp only [foldUntil]
    rcases eaten : eat g a with ⟨g', _ | e⟩
    · exact ih g' (by simpa only [eaten] using next)
    · exact weakens g' as (by simpa only [eaten] using next)

theorem foldUntil_total {eat : γ → α → γ × Option ε} {next : γ → α → γ} (Inv : γ → Prop)
    (keeps : ∀ g a, Inv g → eat g a = (next g a, none) ∧ Inv (next g a)) (g : γ) (as : List α)
    (inv : Inv g) : foldUntil eat g as = (as.foldl next g, none) ∧ Inv (as.foldl next g) := by
  induction as generalizing g with
  | nil => exact ⟨rfl, inv⟩
  | cons a as ih =>
    obtain ⟨step, inv'⟩ := keeps g a inv
    simpa only [foldUntil, step, List.foldl_cons] using ih (next g a) inv'

theorem foldUntil_collect (f : α → List β) (out : List β) (as : List α) :
    foldUntil (fun out a => (out ++ f a, (none : Option ε))) out as = (out ++ as.flatMap f, none) := by
  induction as generalizing out with
  | nil => rw [foldUntil, List.flatMap_nil, List.append_nil]
  | cons a as ih =>
    rw [List.flatMap_cons, ← List.append_assoc]
    exact ih (out ++ f a)

/-- A loop over a stream that turns a whole frame at its head into one `eat` of the accumulator. -/
def Eats (step : σ → Turn σ ε) (state : γ → Bytes → σ) (frame : α → Bytes) (ok : α → Prop)
    (eat : γ → α → γ × Option ε) : Prop :=
  ∀ g a rest, ok a →
    step (state g (frame a ++ rest)) = .next (fun g' => state g' rest) (eat g a)

theorem loop_frames {step : σ → Turn σ ε} {size : σ → Nat} (shrinks : Shrinks step size)
    {state : γ → Bytes → σ} {frame : α → Bytes} {ok : α → Prop} {eat : γ → α → γ × Option ε}
    (eats : Eats step state frame ok eat) (as : List α) (fits : ∀ a ∈ as, ok a)
    (g : γ) (rest : Bytes) :
    match foldUntil eat g as with
    | (g', none) => loop step size (state g (as.flatMap frame ++ rest)) =
        loop step size (state g' rest)
    | (g', some e) => ∃ left, loop step size (state g (as.flatMap frame ++ rest)) =
        (state g' left, some e) := by
  induction as generalizing g with
  | nil => rfl
  | cons a as ih =>
    have turn := eats g a (as.flatMap frame ++ rest) (fits a List.mem_cons_self)
    simp only [foldUntil, List.flatMap_cons, List.append_assoc]
    rcases ate : eat g a with ⟨g', _ | e⟩
    · rw [ate, Turn.next_none] at turn
      rw [loop_more shrinks turn]
      exact ih (fun b hb => fits b (List.mem_cons_of_mem a hb)) g'
    · rw [ate, Turn.next_some] at turn
      exact ⟨_, loop_fail turn⟩

theorem loop_log {step : σ → Turn σ ε} {size : σ → Nat} (shrinks : Shrinks step size)
    {state : γ → Bytes → σ} {frame : α → Bytes} {ok : α → Prop} {eat : γ → α → γ × Option ε}
    (eats : Eats step state frame ok eat) {tail : Bytes}
    (stops : ∀ g, step (state g tail) = .stop (state g tail))
    (as : List α) (fits : ∀ a ∈ as, ok a) (g : γ) :
    match foldUntil eat g as with
    | (g', none) => loop step size (state g (as.flatMap frame ++ tail)) = (state g' tail, none)
    | (g', some e) => ∃ left, loop step size (state g (as.flatMap frame ++ tail)) =
        (state g' left, some e) := by
  have frames := loop_frames shrinks eats as fits g tail
  rcases folded : foldUntil eat g as with ⟨g', _ | e⟩
  · simp only [folded] at frames
    exact frames.trans (loop_stop (stops g'))
  · simpa only [folded] using frames

end Framing
