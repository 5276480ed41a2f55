import Tellstone.Server

/-! The expiry that a SET asks for, and the one that its entry gets. -/
namespace Tellstone
open ByteStream

/-- The options of SET that ask for an expiry. -/
inductive TtlOption where
  | ex
  | px
  deriving DecidableEq, Repr

namespace TtlOption

def name : TtlOption → Bytes
  | ex => ascii "EX"
  | px => ascii "PX"

def unit : TtlOption → Int
  | ex => Command.second
  | px => Command.millisecond

theorem unit_pos (o : TtlOption) : 0 < o.unit := by
  cases o <;> decide

theorem name_inj {a : Bytes} {o o' : TtlOption} (one : Command.equalFoldASCII a o.name = true)
    (other : Command.equalFoldASCII a o'.name = true) : o = o' := by
  have first {x y : UInt8} {b : Bytes} : ¬(Command.equalFoldASCII a (x :: b) = true ∧
      Command.equalFoldASCII a (y :: b) = true ∧ x ||| 0x20 ≠ y ||| 0x20) := by
    rintro ⟨left, right, differ⟩
    cases a with
    | nil => simp [Command.equalFoldASCII] at left
    | cons z a =>
      simp only [Command.equalFoldASCII, List.zip_cons_cons, List.all_cons, Bool.and_eq_true,
        decide_eq_true_eq] at left right
      exact differ (left.2.1.symm.trans right.2.1)
  cases o <;> cases o'
  · rfl
  · exact absurd ⟨one, other, by decide⟩ first
  · exact absurd ⟨one, other, by decide⟩ first
  · rfl

end TtlOption

def requestedExpiry (now : Time) (amount unit : Int) : Option Int :=
  if amount = 0 then none else some (now + amount * unit)

def Router.expires (r : Router) (key : Bytes) : Option (Option Int) :=
  (r.entry key).map fun item => item.expiration.map Int.ofNat

theorem expiry_mulInt64_iff (now : Time) (amount : Int) {unit : Int} (positive : 0 < unit) :
    (expiry now (Command.mulInt64 amount unit)).map Int.ofNat = requestedExpiry now amount unit ↔
      0 ≤ amount ∧ amount * unit < 2 ^ 63 := by
  have sign : amount = 0 ∧ amount * unit = 0 ∨ 0 < amount ∧ 0 < amount * unit ∨
      amount < 0 ∧ amount * unit < 0 := by
    rcases Int.lt_trichotomy amount 0 with negative | rfl | more
    · exact Or.inr (Or.inr ⟨negative, Int.mul_neg_of_neg_of_pos negative positive⟩)
    · exact Or.inl ⟨rfl, Int.zero_mul _⟩
    · exact Or.inr (Or.inl ⟨more, Int.mul_pos more positive⟩)
  unfold expiry requestedExpiry Command.mulInt64
  generalize amount * unit = product at sign
  have range : Int.bmod product (2 ^ 64) = product ↔ -2 ^ 63 ≤ product ∧ product < 2 ^ 63 := by
    simp only [Int.bmod]
    omega
  generalize Int.bmod product (2 ^ 64) = wrapped at range
  by_cases none_asked : amount = 0
  · have kept : wrapped = product := range.mpr (by omega)
    have zero : ¬0 < wrapped := by omega
    rw [if_neg zero, if_pos none_asked]
    simp only [Option.map_none, true_iff]
    omega
  · rw [if_neg none_asked]
    by_cases later : 0 < wrapped
    · rw [if_pos later]
      simp only [Option.map_some, Option.some.injEq, Int.ofNat_eq_natCast]
      change ((now + wrapped.toNat : Nat) : Int) = (now : Int) + product ↔ _
      omega
    · rw [if_neg later]
      simp only [Option.map_none, reduceCtorEq, false_iff]
      omega

theorem parseSetTTL_option {name key value option amount : Bytes} {o : TtlOption} {ttl : Duration}
    (named : Command.equalFoldASCII option o.name = true)
    (parsed : Command.parseSetTTL ([name, key, value, option, amount].map some) = some ttl) :
    ∃ v, Command.atoi amount = some v ∧ 0 < v ∧ ttl = Command.mulInt64 v o.unit := by
  change ((Command.atoi amount).bind fun v =>
    if v ≤ 0 then none
    else if Command.equalFoldASCII option (ascii "EX") = true then
      some (Command.mulInt64 v Command.second)
    else if Command.equalFoldASCII option (ascii "PX") = true then
      some (Command.mulInt64 v Command.millisecond)
    else none) = some ttl at parsed
  obtain ⟨v, read, parsed⟩ := Option.bind_eq_some_iff.mp parsed
  refine ⟨v, read, ?_⟩
  split at parsed
  · cases parsed
  · rename_i positive
    refine ⟨Int.not_le.mp positive, ?_⟩
    by_cases ex : Command.equalFoldASCII option (ascii "EX") = true
    · rw [if_pos ex] at parsed
      cases TtlOption.name_inj (o := .ex) ex named
      exact (Option.some.inj parsed).symm
    · rw [if_neg ex] at parsed
      cases o with
      | ex => exact absurd named ex
      | px =>
        have px : Command.equalFoldASCII option (ascii "PX") = true := named
        rw [if_pos px] at parsed
        exact (Option.some.inj parsed).symm

theorem routerStore_set_expires {P : Primitives} {now : Time} {faults : Faults} {b b' : Backend}
    {key value : Bytes} {ttl : Duration}
    (stored : (routerStore P now faults).set b key value ttl = (b', none)) :
    b'.router.expires key = some ((expiry now ttl).map Int.ofNat) := by
  have ok : ((b.router.shardFor key).execute P (b.request now faults .set key value ttl)).2.err =
      none := congrArg Prod.snd stored
  have after : b'.router = (b.router.dispatch P (b.request now faults .set key value ttl)).1 :=
    congrArg (fun x => x.1.router) stored.symm
  have expiration := Shard.execute_set_expiration rfl ok
  have shard := Router.dispatch_owner P b.router (b.request now faults .set key value ttl)
  rw [← after] at shard
  change (((b'.router.shardFor key).engine.items.lookup key).map _) = _
  rw [show b'.router.shardFor key = _ from shard]
  have mapped := congrArg (Option.map (Option.map Int.ofNat)) expiration
  rw [Option.map_map] at mapped
  exact mapped

theorem set_expires {P : Primitives} {now : Time} {faults : Faults} {t : Nat} {c : Command.Ctx}
    {b : Backend} {name key value : Bytes} {rest : List Command.Arg} {reply : Command.Reply}
    (args : c.args = some name :: some key :: some value :: rest)
    (named : Command.lookup (some name) = some .set)
    (replied : (Command.execute (routerStore P now faults) t c b).reply = some reply)
    (accepted : reply.isError = false) :
    ∃ ttl, Command.parseSetTTL c.args = some ttl ∧
      (Command.execute (routerStore P now faults) t c b).store.router.expires key =
        some ((expiry now (if ttl = 0 then c.ttl else ttl)).map Int.ofNat) := by
  have found : c.args.head?.bind Command.lookup = some .set := by
    rw [args]
    exact named
  have ran := Command.execute_accepted found replied accepted
  obtain ⟨ttl, parsed, stored⟩ := Command.set_stored ran accepted
  refine ⟨ttl, parsed, ?_⟩
  rw [args] at stored
  exact routerStore_set_expires stored

/-- An accepted SET expires when the client asked exactly when the TTL fits 63 bits of nanoseconds
and, on the binary protocol, is not negative. -/
theorem requested_expiry_honoured_iff (P : Primitives) (now : Time) (faults : Faults) (t : Nat)
    (b : Backend) :
    (∀ (c : Command.Ctx) (name key value option amount : Bytes) (o : TtlOption)
        (reply : Command.Reply),
      c.args = [name, key, value, option, amount].map some → c.ttl = 0 →
      Command.lookup (some name) = some .set → Command.equalFoldASCII option o.name = true →
      let out := Command.execute (routerStore P now faults) t c b
      out.reply = some reply → reply.isError = false →
      ∃ v, Command.atoi amount = some v ∧ 0 < v ∧
        (out.store.router.expires key = some (requestedExpiry now v o.unit) ↔
          v * o.unit < 2 ^ 63)) ∧
    (∀ (admin : Network.Admin) (msg : Network.Message) (remote : Bytes)
        (policy : Option Rbac.Store),
      msg.hasType .ping = false → msg.opCode = some .set →
      let handled := Network.networkHandler (routerStore P now faults) t admin msg remote policy b
      handled.answer.type ≠ .error →
      (handled.store.router.expires msg.key =
          some (requestedExpiry now msg.ttl Command.millisecond) ↔
        0 ≤ msg.ttl ∧ msg.ttl * Command.millisecond < 2 ^ 63)) := by
  constructor
  · intro c name key value option amount o reply args untimed named chosen out replied accepted
    obtain ⟨ttl, parsed, expires⟩ := set_expires args named replied accepted
    rw [args] at parsed
    obtain ⟨v, read, positive, rfl⟩ := parseSetTTL_option chosen parsed
    have kept : (if Command.mulInt64 v o.unit = 0 then c.ttl else Command.mulInt64 v o.unit) =
        Command.mulInt64 v o.unit := by
      split
      · rename_i zero
        rw [untimed, zero]
      · rfl
    rw [kept] at expires
    refine ⟨v, read, positive, ?_⟩
    rw [expires, Option.some.injEq, expiry_mulInt64_iff now v o.unit_pos]
    exact and_iff_right positive.le
  · intro admin msg remote policy other op handled accepted
    by_cases empty : msg.key.length = 0
    · have rejected : handled.answer = ⟨some Network.responseEmptyKey, .error⟩ := by
        simp [handled, Network.networkHandler, other, op, empty]
      exact absurd (congrArg Network.Answer.type rejected) accepted
    · have ran : handled = Network.runCommand (routerStore P now faults) t
          [ascii "SET", msg.key, msg.value] (Command.mulInt64 msg.ttl Command.millisecond) remote
          policy b := by
        simp [handled, Network.networkHandler, other, op, empty]
      have found : Command.lookup (some (ascii "SET")) = some .set := by decide
      rw [ran] at accepted
      obtain ⟨reply, replied, fine⟩ := Network.runCommand_accepted found accepted
      obtain ⟨ttl, parsed, expires⟩ := set_expires rfl found replied fine
      cases parsed
      rw [ran]
      change Router.expires (Backend.router (Command.execute _ _ _ _).store) msg.key = _ ↔ _
      rw [expires, Option.some.injEq]
      exact expiry_mulInt64_iff now msg.ttl (by decide)

def Command.Ctx.setting (option amount : String) : Command.Ctx where
  args := [ascii "SET", ascii "k", ascii "v", ascii option, ascii amount].map some
  ttl := 0
  policy := none
  session := none
  remote := []

def Network.Message.setting (ttl : Int) : Network.Message :=
  ⟨2, 2, ttl, ascii "k", ascii "v", []⟩

theorem requested_expiry_honoured_ten :
    (Command.execute (routerStore .tagged 1000 .healthy) 0 (.setting "EX" "10")
      .empty).store.router.expires (ascii "k") = some (some 10000001000) ∧
    (Network.networkHandler (routerStore .tagged 1000 .healthy) 0 .none
      (.setting 10) [] none .empty).store.router.expires (ascii "k") = some (some 10001000) := by
  obtain ⟨resp, binary⟩ := requested_expiry_honoured_iff .tagged 1000 .healthy 0 .empty
  constructor
  · obtain ⟨v, read, -, exact⟩ := resp (.setting "EX" "10") (ascii "SET") (ascii "k") (ascii "v")
      (ascii "EX") (ascii "10") .ex .ok rfl rfl (by decide) (by decide) (by decide +kernel) rfl
    have ten : v = 10 := Option.some.inj (read.symm.trans (by decide))
    subst ten
    exact exact.mpr (by decide)
  · exact (binary .none (.setting 10) [] none (by decide) (by decide) (by decide +kernel)).mpr
      (by decide)

/-- On RESP 292 years come out as no expiry and 584 as 290 milliseconds; a negative binary field
stores for good. -/
theorem requested_expiry_wraps :
    ((Command.execute (routerStore .tagged 1000 .healthy) 0
        (.setting "EX" "9223372037") .empty).reply = some .ok ∧
      (Command.execute (routerStore .tagged 1000 .healthy) 0
        (.setting "EX" "9223372037") .empty).store.router.expires (ascii "k") = some none) ∧
    ((Command.execute (routerStore .tagged 1000 .healthy) 0
        (.setting "EX" "18446744074") .empty).reply = some .ok ∧
      (Command.execute (routerStore .tagged 1000 .healthy) 0
        (.setting "EX" "18446744074") .empty).store.router.expires (ascii "k") =
          some (some 290449384)) ∧
    ((Network.networkHandler (routerStore .tagged 1000 .healthy) 0 .none
        (.setting (-5)) [] none .empty).answer = ⟨some Network.responseOK, .response⟩ ∧
      (Network.networkHandler (routerStore .tagged 1000 .healthy) 0 .none
        (.setting (-5)) [] none .empty).store.router.expires (ascii "k") = some none) := by
  decide +kernel

end Tellstone
