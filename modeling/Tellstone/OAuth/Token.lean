import Tellstone.Lib.Base64
import Tellstone.Network.Server
import Tellstone.OAuth.Claims
import Tellstone.Resp.Server

/-! Tokens: how they are taken apart and verified, and which secrets are taken for one. -/
namespace Tellstone.OAuth
open ByteStream Frontend

def b64 (s : Bytes) : Option Bytes := if s = [] then none else Base64.decodeRawUrl s

def splitToken (token : Bytes) : Option (Bytes × Bytes × Bytes) :=
  match token.splitOn 46 with
  | [header, payload, sig] =>
    match b64 header, b64 payload, b64 sig with
    | some header, some payload, some sig => some (header, payload, sig)
    | _, _, _ => none
  | _ => none

structure Header where
  alg : Bytes
  kid : Bytes
  deriving DecidableEq, Repr

def allowedAlgs : List Bytes := [ascii "RS256", ascii "ES256"]

/-- Code outside the repository: encoding/json, and the check of a signature. -/
structure Library (κ : Type) where
  header : Bytes → Option Header
  payload : Bytes → Option RawClaims
  verifySignature : Bytes → κ → Bytes → Bytes → Bool

inductive RefreshError where
  | coolingDown
  | transient
  deriving DecidableEq, Repr

inductive VerifyError where
  | invalidToken
  | refresh
  deriving DecidableEq, Repr

abbrev Keys (κ : Type) := Bytes → Option κ

/-- The key of a token, which may have come with a refresh. `refreshed` is what a refresh gives. -/
def keyFor {κ : Type} (keys : Keys κ) (refreshed : Except RefreshError (Keys κ)) (kid : Bytes) :
    Except VerifyError κ :=
  match keys kid with
  | some key => .ok key
  | none =>
    match refreshed with
    | .error .coolingDown => .error .invalidToken
    | .error .transient => .error .refresh
    | .ok keys =>
      match keys kid with
      | some key => .ok key
      | none => .error .invalidToken

def verify {κ : Type} (L : Library κ) (cfg : Config) (now : Int64) (keys : Keys κ)
    (refreshed : Except RefreshError (Keys κ)) (token : Bytes) : Except VerifyError Rbac.Claims :=
  match splitToken token with
  | none => .error .invalidToken
  | some (headerB, payloadB, sig) =>
    match L.header headerB with
    | none => .error .invalidToken
    | some hdr =>
      if hdr.alg ∉ allowedAlgs then .error .invalidToken
      else if hdr.kid = [] then .error .invalidToken
      else
        match keyFor keys refreshed hdr.kid with
        | .error err => .error err
        | .ok key =>
          let segments := token.splitOn 46
          let signed := segments.headD [] ++ [46] ++ segments.getD 1 []
          if L.verifySignature hdr.alg key signed sig = false then .error .invalidToken
          else
            match L.payload payloadB with
            | none => .error .invalidToken
            | some raw =>
              match validateClaims now raw cfg with
              | .error _ => .error .invalidToken
              | .ok _ => .ok (flatten raw)

structure Segment (s : Bytes) : Prop where
  nonempty : s ≠ []
  encoded : Base64.RawUrl s

theorem length_splitOn (a : UInt8) (s : Bytes) : (s.splitOn a).length = s.count a + 1 := by
  induction s with
  | nil => rfl
  | cons b s ih =>
    rw [List.splitOn] at ih ⊢
    rw [List.splitOnP_cons_eq_if_modifyHead, List.count_cons]
    by_cases same : (b == a) = true
    · rw [if_pos same, if_pos same, List.length_cons, ih]
    · rw [if_neg same, if_neg same, List.length_modifyHead, ih]

theorem b64_isSome_iff (s : Bytes) : (b64 s).isSome = true ↔ Segment s := by
  unfold b64
  split
  · rename_i empty
    constructor
    · intro none
      cases none
    · intro segment
      exact absurd empty segment.nonempty
  · rename_i present
    rw [Base64.decodeRawUrl_isSome_iff]
    exact ⟨fun encoded => ⟨present, encoded⟩, Segment.encoded⟩

theorem splitToken_isSome_iff (token : Bytes) : (splitToken token).isSome = true ↔
    token.count 46 = 2 ∧ ∀ segment ∈ token.splitOn 46, Segment segment := by
  have parts := length_splitOn 46 token
  unfold splitToken
  split
  · rename_i header payload sig split
    rw [split] at parts ⊢
    have two : token.count 46 = 2 := by simpa using parts.symm
    simp only [List.forall_mem_cons, ← b64_isSome_iff]
    cases b64 header <;> cases b64 payload <;> cases b64 sig <;> simp [two]
  · rename_i other
    constructor
    · intro none
      cases none
    · rintro ⟨two, -⟩
      rw [two] at parts
      obtain ⟨header, payload, sig, split⟩ := List.length_eq_three.mp parts
      exact absurd split (other header payload sig)

theorem isJWT_of_splitToken {token : Bytes} (split : (splitToken token).isSome = true) :
    isJWT token = true := by
  obtain ⟨two, segments⟩ := (splitToken_isSome_iff token).mp split
  have parts := length_splitOn 46 token
  rw [two] at parts
  obtain ⟨header, payload, sig, split⟩ := List.length_eq_three.mp parts
  have joined : [46].intercalate (token.splitOn 46) = token := List.intercalate_splitOn 46
  rw [split] at segments joined
  simp only [List.forall_mem_cons] at segments
  have first := List.length_pos_iff.mpr segments.1.nonempty
  have second := List.length_pos_iff.mpr segments.2.1.nonempty
  have third := List.length_pos_iff.mpr segments.2.2.1.nonempty
  have long : 5 ≤ token.length := by
    rw [← joined]
    simp [List.intercalate]
    omega
  simp [isJWT, two, long]

structure Checks (hash password : Bytes) (job : AuthJob) : Prop where
  password : job.password = password
  passHash : job.passHash = hash
  plain : job.oauth = false

/-- A secret that is no token is compared with the hash of the default user, on both listeners. -/
def PasswordChecked (b : Bytes) : Prop :=
  splitToken b = none → ∀ {σ : Type} (m : Moment σ) (st : ConnState) (core : Core σ)
    (p : Rbac.PolicyStore) (u : Rbac.User), core.policy.active = some p →
    p.userFor (ascii "default") = some u → u.passwordHash ≠ [] →
    (∀ (srv : Resp.Server σ) (cmd : Bytes), srv.access = .policy true → ∃ job,
      Checks u.passwordHash b job ∧
        srv.auth m st core [cmd, b] = .submit m st core job Resp.invalidPassword) ∧
    (∀ (srv : Network.Server σ) (value : Bytes), srv.access = .policy true →
      Network.parseAuthPayload value = some ([], b) → ∃ job, Checks u.passwordHash b job ∧
        srv.handleAuthMessage m st core value = .submit m st core job Network.invalidAuth)

theorem passwordChecked_of_not_isJWT {b : Bytes} (plain : isJWT b = false) : PasswordChecked b := by
  intro _ σ m st core p u active found hashed
  have size : u.passwordHash.length ≠ 0 := mt List.length_eq_zero_iff.mp hashed
  constructor
  · intro srv cmd access
    refine ⟨⟨b, u.passwordHash, ascii "default", ascii "invalid password",
      some (.new (ascii "default") (p.roleFor (ascii "default"))), false⟩, ⟨rfl, rfl, rfl⟩, ?_⟩
    simp [Resp.Server.auth, access, plain, Resp.Server.authRBAC, Resp.Server.authUser, active,
      found, size]
  · intro srv value access parsed
    refine ⟨⟨b, u.passwordHash, ascii "default", ascii "invalid password",
      some (.new (ascii "default") (p.roleFor (ascii "default"))), false⟩, ⟨rfl, rfl, rfl⟩, ?_⟩
    simp [Network.Server.handleAuthMessage, access, parsed, plain, Network.Server.authUser, active,
      found]

theorem verify_undecodable {κ : Type} (L : Library κ) (cfg : Config) (now : Int64) (keys : Keys κ)
    (refreshed : Except RefreshError (Keys κ)) {token : Bytes}
    (undecodable : splitToken token = none) :
    verify L cfg now keys refreshed token = .error .invalidToken := by
  rw [verify, undecodable]

/-- Tokens are told by their shape, and every other secret of the default user is checked as a
password, exactly for secrets that decode if they have two dots and five bytes. -/
theorem token_routing_iff (b : Bytes) :
    ((isJWT b = true ↔ (splitToken b).isSome = true) ∧ PasswordChecked b) ↔
      (b.count 46 = 2 → 5 ≤ b.length → ∀ segment ∈ b.splitOn 46, Segment segment) := by
  have looks : isJWT b = true ↔ b.count 46 = 2 ∧ 5 ≤ b.length := by simp [isJWT]
  constructor
  · rintro ⟨shape, -⟩ two long
    exact ((splitToken_isSome_iff b).mp (shape.mp (looks.mpr ⟨two, long⟩))).2
  · intro decodable
    have shape : isJWT b = true → (splitToken b).isSome = true := by
      intro looking
      obtain ⟨two, long⟩ := looks.mp looking
      exact (splitToken_isSome_iff b).mpr ⟨two, decodable two long⟩
    refine ⟨⟨shape, isJWT_of_splitToken⟩, fun none => ?_⟩
    refine passwordChecked_of_not_isJWT ?_ none
    rw [Bool.eq_false_iff]
    intro looking
    have split := shape looking
    rw [none] at split
    cases split

/-- A password with two dots goes to the provider, which refuses it, and is never compared. -/
theorem dotted_password_misrouted :
    (isJWT (ascii "1.2.3") = true ∧ splitToken (ascii "1.2.3") = none) ∧
    (∀ (σ : Type) (srv : Resp.Server σ) (m : Moment σ) (st : ConnState) (core : Core σ)
      (cmd : Bytes), srv.access = .policy true →
      srv.auth m st core [cmd, ascii "1.2.3"] =
        .submit m st core ⟨ascii "1.2.3", [], [], ascii "invalid token", none, true⟩
          Resp.invalidPassword) ∧
    ∀ (κ : Type) (L : Library κ) (cfg : Config) (now : Int64) (keys : Keys κ)
      (refreshed : Except RefreshError (Keys κ)),
      verify L cfg now keys refreshed (ascii "1.2.3") = .error .invalidToken := by
  have undecodable : splitToken (ascii "1.2.3") = none := by decide
  refine ⟨⟨by decide, undecodable⟩, fun σ srv m st core cmd access => ?_,
    fun κ L cfg now keys r => ?_⟩
  · have looks : isJWT (ascii "1.2.3") = true := by decide
    simp [Resp.Server.auth, access, looks]
  · exact verify_undecodable L cfg now keys r undecodable

end Tellstone.OAuth
