import Tellstone.Lib.Float64
import Tellstone.Lib.Resp2
import Tellstone.Rbac.Policy

/-! The claims of a token: what is checked of them before the token is accepted. -/
namespace Tellstone.OAuth
open ByteStream

/-- A JSON value as Go decodes it into an interface. -/
inductive Json where
  | null
  | bool (b : Bool)
  | num (x : Float64)
  | str (s : Bytes)
  | arr (items : List Json)
  | obj (fields : List (Bytes × Json))

abbrev RawClaims := AList (fun _ : Bytes => Json)

structure Config where
  issuer : Bytes
  clientID : Bytes
  deriving DecidableEq, Repr

inductive ClaimsError where
  | expired
  | notYetValid
  | issuerMismatch
  | audienceMismatch
  deriving DecidableEq, Repr

def ClaimsError.text : ClaimsError → Bytes
  | expired => ascii "generic: token expired"
  | notYetValid => ascii "generic: token not yet valid"
  | issuerMismatch => ascii "generic: issuer mismatch"
  | audienceMismatch => ascii "generic: audience mismatch"

def num : Option Json → Option Int64
  | some (.num x) => some x.toInt64
  | _ => none

def Json.asString : Json → Option Bytes
  | .str s => some s
  | _ => none

def audContains (aud : Option Json) (want : Bytes) : Bool :=
  match aud with
  | some (.str a) => decide (a = want)
  | some (.arr items) => items.any fun v => decide (v.asString = some want)
  | _ => false

def validateClaims (now : Int64) (raw : RawClaims) (cfg : Config) : Except ClaimsError Unit :=
  if (num (raw.lookup (ascii "exp"))).any fun exp => decide (exp ≤ now) then .error .expired
  else if (num (raw.lookup (ascii "nbf"))).any fun nbf => decide (now < nbf) then
    .error .notYetValid
  else if cfg.issuer ≠ [] ∧ (raw.lookup (ascii "iss")).bind Json.asString ≠ some cfg.issuer then
    .error .issuerMismatch
  else if cfg.clientID ≠ [] ∧ audContains (raw.lookup (ascii "aud")) cfg.clientID = false then
    .error .audienceMismatch
  else .ok ()

def flattenValue : Json → Option (List Bytes)
  | .str s => some [s]
  | .arr items =>
    let strings := items.filterMap Json.asString
    if strings = [] then none else some strings
  | .num x => some [Resp2.number x.toInt64.toInt]
  | .bool b => some [if b then ascii "true" else ascii "false"]
  | _ => none

def flatten (raw : RawClaims) : Rbac.Claims :=
  raw.entries.foldl
    (fun out claim =>
      match flattenValue claim.2 with
      | some values => out.insert claim.1 values
      | none => out) ∅

/-- The claim names the client, alone or among others. -/
inductive Names (client : Bytes) : Json → Prop where
  | alone : Names client (.str client)
  | among {items : List Json} (listed : Json.str client ∈ items) : Names client (.arr items)

/-- What a token that is accepted has to keep to. -/
structure Limits (now : Int64) (raw : RawClaims) (cfg : Config) : Prop where
  exp : ∀ claim, raw.lookup (ascii "exp") = some claim →
    ∃ x, claim = .num x ∧ (now.toInt : ℚ) < x.value
  nbf : ∀ claim, raw.lookup (ascii "nbf") = some claim →
    ∃ x, claim = .num x ∧ x.value < now.toInt + 1
  iss : raw.lookup (ascii "iss") = some (.str cfg.issuer)
  aud : cfg.clientID ≠ [] →
    ∃ claim, raw.lookup (ascii "aud") = some claim ∧ Names cfg.clientID claim

/-- Times are numbers, the second in the range of the clock, and there is an issuer to compare
with, or none is named. -/
structure Plain (raw : RawClaims) (cfg : Config) : Prop where
  exp : ∀ claim, raw.lookup (ascii "exp") = some claim → ∃ x, claim = .num x
  nbf : ∀ claim, raw.lookup (ascii "nbf") = some claim → ∃ x, claim = .num x ∧ x.value < 2 ^ 63
  iss : cfg.issuer = [] → raw.lookup (ascii "iss") = some (.str [])

/-- One of the claims that are looked at is wrong. -/
inductive Refused (now : Int64) (raw : RawClaims) (cfg : Config) : Prop where
  | expired {x : Float64} (found : raw.lookup (ascii "exp") = some (.num x))
    (past : x.toInt64 ≤ now)
  | early {x : Float64} (found : raw.lookup (ascii "nbf") = some (.num x))
    (ahead : now < x.toInt64)
  | foreign (configured : cfg.issuer ≠ [])
    (other : raw.lookup (ascii "iss") ≠ some (.str cfg.issuer))
  | unmeant (configured : cfg.clientID ≠ [])
    (other : ¬ ∃ claim, raw.lookup (ascii "aud") = some claim ∧ Names cfg.clientID claim)

section
variable {now : Int64} {raw : RawClaims} {cfg : Config}

theorem asString_iff {claim : Option Json} {s : Bytes} :
    claim.bind Json.asString = some s ↔ claim = some (.str s) := by
  cases claim with
  | none => simp
  | some claim => cases claim <;> simp [Json.asString]

theorem audContains_iff (aud : Option Json) (want : Bytes) :
    audContains aud want = true ↔ ∃ claim, aud = some claim ∧ Names want claim := by
  constructor
  · intro contains
    unfold audContains at contains
    split at contains
    · obtain rfl := of_decide_eq_true contains
      exact ⟨_, rfl, .alone⟩
    · rename_i items
      obtain ⟨v, listed, same⟩ := List.any_eq_true.mp contains
      cases v with
      | str s =>
        obtain rfl : s = want := by simpa [Json.asString] using same
        exact ⟨_, rfl, .among listed⟩
      | _ => simp [Json.asString] at same
    · cases contains
  · rintro ⟨claim, rfl, names⟩
    cases names with
    | alone => simp [audContains]
    | among listed => exact List.any_eq_true.mpr ⟨_, listed, by simp [Json.asString]⟩

theorem check_ok_iff {a : Prop} [Decidable a] {err : ClaimsError} {rest : Except ClaimsError Unit} :
    (if a then .error err else rest) = .ok () ↔ ¬ a ∧ rest = .ok () := by
  split <;> simp_all

theorem validateClaims_ok_iff : validateClaims now raw cfg = .ok () ↔
    (∀ exp, num (raw.lookup (ascii "exp")) = some exp → now < exp) ∧
    (∀ nbf, num (raw.lookup (ascii "nbf")) = some nbf → nbf ≤ now) ∧
    (cfg.issuer ≠ [] → raw.lookup (ascii "iss") = some (.str cfg.issuer)) ∧
    (cfg.clientID ≠ [] →
      ∃ claim, raw.lookup (ascii "aud") = some claim ∧ Names cfg.clientID claim) := by
  have late : ((num (raw.lookup (ascii "exp"))).any fun exp => decide (exp ≤ now)) = true ↔
      ¬ ∀ exp, num (raw.lookup (ascii "exp")) = some exp → now < exp := by
    cases num (raw.lookup (ascii "exp")) <;> simp
  have early : ((num (raw.lookup (ascii "nbf"))).any fun nbf => decide (now < nbf)) = true ↔
      ¬ ∀ nbf, num (raw.lookup (ascii "nbf")) = some nbf → nbf ≤ now := by
    cases num (raw.lookup (ascii "nbf")) <;> simp
  have audience : audContains (raw.lookup (ascii "aud")) cfg.clientID = false ↔ _ :=
    Bool.eq_false_iff.trans (not_congr (audContains_iff _ _))
  simp only [validateClaims, check_ok_iff, late, early, audience, ne_eq, asString_iff, not_and,
    not_not, and_true]

theorem num_eq_some_iff {claim : Option Json} {n : Int64} :
    num claim = some n ↔ ∃ x, claim = some (.num x) ∧ x.toInt64 = n := by
  cases claim with
  | none => simp [num]
  | some claim => cases claim <;> simp [num]

theorem validateClaims_ok_iff_not_refused :
    validateClaims now raw cfg = .ok () ↔ ¬ Refused now raw cfg := by
  rw [validateClaims_ok_iff]
  constructor
  · rintro ⟨later, earlier, issued, meant⟩ refused
    cases refused with
    | expired found past => exact Int64.not_lt.mpr past (later _ (by rw [found]; rfl))
    | early found ahead => exact Int64.not_lt.mpr (earlier _ (by rw [found]; rfl)) ahead
    | foreign configured other => exact other (issued configured)
    | unmeant configured other => exact other (meant configured)
  · intro fine
    refine ⟨fun exp read => ?_, fun nbf read => ?_, fun configured => ?_, fun configured => ?_⟩
    · obtain ⟨x, found, rfl⟩ := num_eq_some_iff.mp read
      exact Int64.not_le.mp fun past => fine (.expired found past)
    · obtain ⟨x, found, rfl⟩ := num_eq_some_iff.mp read
      exact Int64.not_lt.mp fun ahead => fine (.early found ahead)
    · exact of_not_not fun other => fine (.foreign configured other)
    · exact of_not_not fun other => fine (.unmeant configured other)

theorem limits_iff_plain (accepted : validateClaims now raw cfg = .ok ()) :
    Limits now raw cfg ↔ Plain raw cfg := by
  obtain ⟨later, earlier, issued, meant⟩ := validateClaims_ok_iff.mp accepted
  constructor
  · intro limits
    refine ⟨fun claim found => ?_, fun claim found => ?_, fun none => ?_⟩
    · obtain ⟨x, same, -⟩ := limits.exp claim found
      exact ⟨x, same⟩
    · obtain ⟨x, rfl, near⟩ := limits.nbf claim found
      have early : x.toInt64 ≤ now := earlier _ (by rw [found]; rfl)
      exact ⟨x, rfl, (x.value_lt_iff_of_toInt64_le early).mp near⟩
    · rw [← none]
      exact limits.iss
  · intro plain
    refine ⟨fun claim found => ?_, fun claim found => ?_, ?_, meant⟩
    · obtain ⟨x, rfl⟩ := plain.exp claim found
      exact ⟨x, rfl, x.lt_value_of_lt_toInt64 (later _ (by rw [found]; rfl))⟩
    · obtain ⟨x, rfl, small⟩ := plain.nbf claim found
      have early : x.toInt64 ≤ now := earlier _ (by rw [found]; rfl)
      exact ⟨x, rfl, (x.value_lt_iff_of_toInt64_le early).mpr small⟩
    · by_cases none : cfg.issuer = []
      · rw [none]
        exact plain.iss none
      · exact issued none

end

/-- Acceptance enforces the limits exactly if no check is passed over, or another one refuses the
token. -/
theorem limits_enforced_iff (now : Int64) (raw : RawClaims) (cfg : Config) :
    (validateClaims now raw cfg = .ok () → Limits now raw cfg) ↔
      Plain raw cfg ∨ Refused now raw cfg := by
  rw [forall_congr' limits_iff_plain, validateClaims_ok_iff_not_refused]
  exact or_iff_not_imp_right.symm

def sampleClaims (name : Bytes) (claim : Json) : RawClaims :=
  (AList.singleton (ascii "iss") (Json.str (ascii "idp"))).insert name claim

/-- An expiry in quotes, a null one, and a start as far as the clock counts are not looked at. -/
theorem unchecked_times_accepted :
    let cfg : Config := ⟨ascii "idp", []⟩
    let quoted := sampleClaims (ascii "exp") (.str (ascii "1"))
    let empty := sampleClaims (ascii "exp") .null
    let distant := sampleClaims (ascii "nbf") (.num ⟨1, 63, by decide, by decide⟩)
    (validateClaims 1700000000 quoted cfg = .ok () ∧ ¬ Limits 1700000000 quoted cfg) ∧
      (validateClaims 1700000000 empty cfg = .ok () ∧ ¬ Limits 1700000000 empty cfg) ∧
      validateClaims 1700000000 distant cfg = .ok () ∧ ¬ Limits 1700000000 distant cfg := by
  refine ⟨⟨rfl, fun limits => ?_⟩, ⟨rfl, fun limits => ?_⟩, rfl, fun limits => ?_⟩
  · obtain ⟨x, same, -⟩ := limits.exp _ rfl
    cases same
  · obtain ⟨x, same, -⟩ := limits.exp _ rfl
    cases same
  · obtain ⟨x, same, near⟩ := limits.nbf _ rfl
    cases same
    have clock : Int64.toInt 1700000000 = 1700000000 := by decide
    norm_num [Float64.value, clock] at near

end Tellstone.OAuth
