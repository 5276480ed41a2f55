import Mathlib.Data.Finset.Card
import Tellstone.Server

/-! What a DEL deletes and what its reply says about it. -/
namespace Tellstone
open ByteStream ExpiringMap Command

def Router.live (now : Time) (r : Router) (key : Bytes) : Bool :=
  (r.entry key).any fun item => !expired now item.expiration

def Router.Logging (P : Primitives) (modes : Nat → WalMode) (r : Router) : Prop :=
  ∀ i : Fin r.shards.length, ∃ entries tail,
    (r.shards.get i).persistence.Open P (modes i) entries tail

namespace Backend

def logs (modes : Nat → WalMode) (faults : Faults) (b : Backend) (n : Nat) (key : Bytes) : Bool :=
  (faults n).1.isNone && (modes (b.router.shardOf key)).accepts (.delete key)

def appendFails (modes : Nat → WalMode) (faults : Faults) (b : Backend) (keys : List Bytes) :
    Bool :=
  (keys.zipIdx b.calls).any fun (key, n) => !b.logs modes faults n key

end Backend

/-- A reply that is no error counts the live keys of a DEL that deleted all; a failed append is
reported. -/
structure DeletesHonestly (now : Time) (before after : Router) (keys : List Bytes)
    (failed refused : Bool) (count : Option Int) : Prop where
  deleted : refused = false → ∀ key ∈ keys, after.live now key = false
  counted : refused = false → ∀ n, count = some n →
    n = (keys.toFinset.filter fun key => before.live now key = true).card
  reported : failed = true → refused = true

def Command.Reply.count : Reply → Option Int
  | int n => some n
  | _ => none

def Command.Ctx.denied (c : Ctx) (cmd : DataCommand) : Bool :=
  c.policy.isSome && (c.denyKey cmd).isSome

section
variable {P : Primitives} {modes : Nat → WalMode} {now : Time} {faults : Faults}

theorem Shard.execute_del {s : Shard} {mode : WalMode} {entries : List LogEntry} {tail : Bytes}
    (law : P.Lawful) (opened : s.persistence.Open P mode entries tail) {c : Request}
    (op : c.op = .del) :
    let logged := c.fault.isNone && mode.accepts (.delete c.key)
    (s.execute P c).2.ok = (logged && (s.engine.delete c.now c.key).2) ∧
      (s.execute P c).1.engine.items =
        if logged then s.engine.items.erase c.key else s.engine.items := by
  obtain ⟨ctr, written, -, -, outcome⟩ := opened.log law c.fault (.delete c.key)
  have err : (s.persistence.delete P c.fault c.key).2 = none ↔
      (c.fault.isNone && mode.accepts (.delete c.key)) = true := by
    rcases outcome with ⟨accepted, -, result⟩ | ⟨refused, -, result⟩
    · change (s.persistence.delete P c.fault c.key).2 = _ at result
      rw [result, accepted]
      cases c.fault <;> simp
    · change (s.persistence.delete P c.fault c.key).2 ≠ none at result
      simp [result, refused]
  unfold execute
  simp only [op, opened.enabled, ↓reduceIte]
  rcases deleted : s.persistence.delete P c.fault c.key with ⟨store, _ | failure⟩
  · rw [deleted] at err
    have logged := err.mp rfl
    simp [logged, Engine.delete_items]
  · rw [deleted] at err
    have unlogged : (c.fault.isNone && mode.accepts (.delete c.key)) = false :=
      Bool.eq_false_iff.mpr fun logged => by cases err.mpr logged
    simp [unlogged]

theorem Engine.delete_found (e : Engine) (key : Bytes) :
    (e.delete now key).2 = (e.items.lookup key).any fun item => !expired now item.expiration := by
  unfold delete
  cases e.items.lookup key with
  | none => rfl
  | some item => cases gone : expired now item.expiration <;> simp [gone]

theorem Router.Logging.dispatch (law : P.Lawful) {r : Router} (logging : r.Logging P modes)
    (c : Request) : (r.dispatch P c).1.Logging P modes := by
  rintro ⟨i, inside⟩
  have within : i < r.shards.length := by simpa [Router.dispatch, Router.put] using inside
  by_cases owner : (r.shardOf c.key : Nat) = i
  · subst owner
    obtain ⟨entries, tail, opened⟩ := logging (r.shardOf c.key)
    obtain ⟨written, grown, -⟩ := Shard.execute_open law opened c
    exact ⟨entries, tail ++ written, by simpa [Router.dispatch, Router.put] using grown⟩
  · obtain ⟨entries, tail, opened⟩ := logging ⟨i, within⟩
    exact ⟨entries, tail, by simpa [Router.dispatch, Router.put, owner] using opened⟩

theorem Router.dispatch_del (law : P.Lawful) {r : Router} (logging : r.Logging P modes)
    {c : Request} (op : c.op = .del) :
    let logged := c.fault.isNone && (modes (r.shardOf c.key)).accepts (.delete c.key)
    (r.dispatch P c).2.ok = (logged && r.live c.now c.key) ∧
      ∀ k, (r.dispatch P c).1.entry k =
        if logged = true ∧ k = c.key then none else r.entry k := by
  intro logged
  obtain ⟨entries, tail, opened⟩ := logging (r.shardOf c.key)
  obtain ⟨answer, items⟩ := Shard.execute_del law opened op
  constructor
  · rw [show (r.dispatch P c).2.ok = _ from answer, Engine.delete_found]
    rfl
  · intro k
    rw [Router.entry, Router.dispatch_shardFor]
    by_cases owner : r.shardOf k = r.shardOf c.key
    · rw [if_pos owner, show ((r.shardFor c.key).execute P c).1.engine.items = _ from items]
      have home : r.entry k = (r.shardFor c.key).engine.items.lookup k := by
        rw [Router.entry, Router.shardFor, owner]
        rfl
      by_cases done : logged = true
      · rw [if_pos done]
        by_cases same : k = c.key
        · subst same
          rw [if_pos ⟨done, rfl⟩, AList.lookup_erase]
        · rw [if_neg fun both => same both.2, AList.lookup_erase_ne same, home]
          rfl
      · rw [if_neg done, if_neg fun both => done both.1, home]
        rfl
    · have other : ¬(logged = true ∧ k = c.key) := fun both => owner (both.2 ▸ rfl)
      rw [if_neg owner, if_neg other, Router.entry]

theorem routerStore_delete (law : P.Lawful) {b b' : Backend} {key : Bytes} {found : Bool}
    (logging : b.router.Logging P modes)
    (ran : (routerStore P now faults).delete b key = (b', found)) :
    let logged := b.logs modes faults b.calls key
    found = (logged && b.router.live now key) ∧
      (∀ k, b'.router.entry k = if logged = true ∧ k = key then none else b.router.entry k) ∧
      b'.router.Logging P modes ∧ b'.router.shards.length = b.router.shards.length ∧
      b'.calls = b.calls + 1 := by
  cases ran
  obtain ⟨answer, entries⟩ :=
    Router.dispatch_del law logging (c := b.request now faults .del key [] 0) rfl
  exact ⟨answer, entries, logging.dispatch law _, Router.dispatch_count _, rfl⟩

theorem Backend.logs_next {b b' : Backend} (same : b'.router.shards.length = b.router.shards.length)
    (n : Nat) (key : Bytes) : b'.logs modes faults n key = b.logs modes faults n key := by
  simp [Backend.logs, Router.shardOf, Router.numShards, same]

theorem card_filter_cons (p : Bytes → Bool) (key : Bytes) (keys : List Bytes) :
    ((key :: keys).toFinset.filter fun k => p k = true).card =
      (keys.toFinset.filter fun k => (decide (k ≠ key) && p k) = true).card +
        if p key then 1 else 0 := by
  have others : (keys.toFinset.filter fun k => (decide (k ≠ key) && p k) = true) =
      (keys.toFinset.filter fun k => p k = true).erase key := by
    ext k
    simp only [Finset.mem_filter, Finset.mem_erase, Bool.and_eq_true, decide_eq_true_eq]
    tauto
  rw [others, List.toFinset_cons, Finset.filter_insert]
  by_cases holds : p key = true
  · rw [if_pos holds, if_pos holds, ← Finset.card_insert_of_notMem (Finset.notMem_erase key _)]
    congr 1
    ext k
    by_cases same : k = key <;> simp [same]
  · rw [if_neg holds, if_neg holds, Finset.erase_eq_of_notMem (by simp [holds]), Nat.add_zero]

theorem delKeys_logged (law : P.Lawful) (now : Time) {b : Backend} (logging : b.router.Logging P modes)
    {keys : List Bytes} (logged : b.appendFails modes faults keys = false) :
    let next := delKeys (routerStore P now faults) b (keys.map some)
    next.2 = (keys.toFinset.filter fun key => b.router.live now key = true).card ∧
      ∀ k, next.1.router.entry k = if k ∈ keys then none else b.router.entry k := by
  induction keys generalizing b with
  | nil => simp [delKeys]
  | cons key keys ih =>
    rcases ran : (routerStore P now faults).delete b key with ⟨b', found⟩
    obtain ⟨answer, entries, logging', count, calls⟩ := routerStore_delete law logging ran
    simp only [Backend.appendFails, List.zipIdx_cons, List.any_cons, Bool.or_eq_false_iff,
      Bool.not_eq_false'] at logged
    obtain ⟨first, rest⟩ := logged
    have rest' : b'.appendFails modes faults keys = false := by
      rw [← rest, Backend.appendFails, calls]
      simp only [Backend.logs_next count]
    obtain ⟨counted, left⟩ := ih logging' rest'
    have live : ∀ k, b'.router.live now k = (decide (k ≠ key) && b.router.live now k) := by
      intro k
      rw [Router.live, entries k]
      by_cases same : k = key <;> simp [same, first, Router.live]
    rw [first, Bool.true_and] at answer
    simp only [List.map_cons, delKeys, aliased, Option.getD_some, ran]
    constructor
    · rw [card_filter_cons, ← answer]
      simp only [live] at counted
      rw [counted]
      cases found <;> rfl
    · intro k
      rw [left k, entries k]
      by_cases same : k = key <;> by_cases later : k ∈ keys <;> simp [same, later, first]

theorem execute_del {σ : Type} (S : Store σ) (t : Nat) (st : σ) {c : Ctx} {name : Bytes}
    {keys : List Bytes} (args : c.args = some name :: keys.map some)
    (named : lookup (some name) = some .del) :
    (∃ reply, (execute S t c st).reply = some reply ∧ reply.isError = true ∧
        (c.denied .del = true ∨ keys = [])) ∨
      c.denied .del = false ∧
        (execute S t c st).store = (delKeys S st (keys.map some)).1 ∧
        (execute S t c st).reply = some (.int (delKeys S st (keys.map some)).2) := by
  have found : c.args.head?.bind lookup = some .del := by
    rw [args]
    exact named
  unfold execute
  simp only [found]
  cases keys with
  | nil =>
    have few : c.args.length < DataCommand.arity .del := by
      rw [args]
      exact Nat.one_lt_two
    rw [if_pos few]
    exact Or.inl ⟨_, rfl, rfl, Or.inr rfl⟩
  | cons key keys =>
    have count : c.args.length = keys.length + 2 := by simp [args]
    have enough : ¬c.args.length < DataCommand.arity .del := by
      change ¬c.args.length < 2
      omega
    have ran : handler S .del c st = ((delKeys S st ((key :: keys).map some)).1,
        .int (delKeys S st ((key :: keys).map some)).2) := by
      simp only [handler, del]
      rw [if_neg (show ¬c.args.length < 2 by omega), args]
      rfl
    rw [if_neg enough, ran]
    unfold Ctx.denied
    rcases c.policy with _ | policy
    · exact Or.inr ⟨rfl, rfl, rfl⟩
    · rcases c.denyKey .del with _ | denied
      · exact Or.inr ⟨rfl, rfl, rfl⟩
      · exact Or.inl ⟨_, rfl, rfl, Or.inl rfl⟩

theorem delKeys_honest_iff (law : P.Lawful) {b : Backend} (logging : b.router.Logging P modes)
    (keys : List Bytes) {count : Option Int}
    (counts : ∀ n, count = some n →
      n = (delKeys (routerStore P now faults) b (keys.map some)).2) :
    DeletesHonestly now b.router
        (delKeys (routerStore P now faults) b (keys.map some)).1.router keys
        (b.appendFails modes faults keys) false count ↔
      b.appendFails modes faults keys = false := by
  constructor
  · intro honest
    exact Bool.eq_false_iff.mpr fun failed => by cases honest.reported failed
  · intro logged
    obtain ⟨counted, left⟩ := delKeys_logged law now logging logged
    constructor
    · intro _ key named
      rw [Router.live, left key, if_pos named]
      rfl
    · intro _ n shown
      rw [counts n shown, counted]
    · intro failed
      exact absurd (failed.symm.trans logged) (by decide)

end

/-- A DEL deletes what it names and counts what was live exactly when no append fails. -/
theorem deletes_honestly_iff {P : Primitives} (law : P.Lawful) (modes : Nat → WalMode) (now : Time)
    (faults : Faults) (t : Nat) (b : Backend) (logging : b.router.Logging P modes) :
    (∀ (c : Ctx) (name : Bytes) (keys : List Bytes),
      c.args = some name :: keys.map some → lookup (some name) = some .del →
      let out := execute (routerStore P now faults) t c b
      let failed := b.appendFails modes faults (if c.denied .del then [] else keys)
      DeletesHonestly now b.router out.store.router keys failed
        ((out.reply.map Reply.isError).getD false) (out.reply.bind Reply.count) ↔
        failed = false) ∧
    (∀ (admin : Network.Admin) (msg : Network.Message) (remote : Bytes)
        (policy : Option Rbac.Store),
      msg.hasType .ping = false → msg.opCode = some .delete →
      let handled := Network.networkHandler (routerStore P now faults) t admin msg remote policy b
      let failed := b.appendFails modes faults [msg.key]
      DeletesHonestly now b.router handled.store.router [msg.key] failed
        (decide (handled.answer.type = .error)) none ↔ failed = false) := by
  constructor
  · intro c name keys args named out failed
    rcases execute_del (routerStore P now faults) t b args named with
      ⟨reply, replied, refused, without⟩ | ⟨allowed, store, replied⟩
    · have untouched : failed = false := by
        rcases without with denied | rfl
        · simp [failed, denied, Backend.appendFails]
        · simp [failed, Backend.appendFails]
      have error : (out.reply.map Reply.isError).getD false = true := by
        simp [out, replied, refused]
      rw [error, untouched]
      refine ⟨fun _ => rfl, fun _ => ⟨?_, ?_, fun _ => rfl⟩⟩
      · intro fine
        cases fine
      · intro fine
        cases fine
    · have acted : failed = b.appendFails modes faults keys := by simp [failed, allowed]
      have fine : (out.reply.map Reply.isError).getD false = false := by
        simp [out, replied, Reply.isError]
      rw [acted, fine, show out.store = _ from store]
      apply delKeys_honest_iff law logging keys
      intro n shown
      simpa [out, replied, Reply.count] using shown.symm
  · intro admin msg remote policy other op handled failed
    have ran : handled = Network.runCommand (routerStore P now faults) t
        [ascii "DEL", msg.key] 0 remote policy b := by
      simp [handled, Network.networkHandler, other, op]
    have args : [ascii "DEL", msg.key].map some = some (ascii "DEL") :: [msg.key].map some := rfl
    rcases execute_del (routerStore P now faults) t b
        (c := ⟨[ascii "DEL", msg.key].map some, 0, none, none, remote⟩) args
        (by decide) with ⟨-, -, -, denied | none_named⟩ | ⟨-, store, replied⟩
    · cases denied
    · cases none_named
    · have fine : decide (handled.answer.type = .error) = false := by
        rw [ran, Network.runCommand]
        simp only [replied]
        rfl
      rw [fine, show handled.store = _ from (congrArg Network.Handled.store ran).trans store]
      apply delKeys_honest_iff law logging [msg.key]
      intro n shown
      cases shown

theorem Router.pair_logging (maxMemBytes : Nat) :
    (Router.pair maxMemBytes).Logging .tagged fun _ => CryptoEngine.passThrough.walMode := by
  have opened (id : Nat) : ∃ entries tail,
      (Shard.blank (.pair maxMemBytes) id).persistence.Open .tagged
        CryptoEngine.passThrough.walMode entries tail := by
    obtain ⟨s, ran, ⟨entries, log, -⟩, -⟩ := Shard.run_fresh Primitives.tagged_lawful id .passThrough 0
      .asStored (.pair maxMemBytes) 0
    rw [Shard.blank, ran]
    exact ⟨entries, [], log⟩
  rintro ⟨i, inside⟩
  match i with
  | 0 => exact opened 0
  | 1 => exact opened 1

def Backend.holding : Backend :=
  ((routerStore .tagged 1 .healthy).set .empty (ascii "k") (ascii "v") 0).1

theorem Backend.holding_logging :
    Backend.holding.router.Logging .tagged fun _ => CryptoEngine.passThrough.walMode :=
  (Router.pair_logging 0).dispatch Primitives.tagged_lawful _

def Command.Ctx.deletes (keys : List String) : Ctx where
  args := some (ascii "DEL") :: (keys.map ascii).map some
  ttl := 0
  policy := none
  session := none
  remote := []

def Network.Message.deletes (key : String) : Network.Message := ⟨2, 3, 0, ascii key, [], []⟩

theorem deletes_honestly_named_twice :
    DeletesHonestly 2 Backend.holding.router
        (execute (routerStore .tagged 2 .healthy) 0 (.deletes ["k", "j", "k"]) .holding).store.router
        (["k", "j", "k"].map ascii) false false (some 1) ∧
      DeletesHonestly 2 Backend.holding.router
        (Network.networkHandler (routerStore .tagged 2 .healthy) 0 .none (.deletes "k") [] none
          .holding).store.router [ascii "k"] false false none := by
  obtain ⟨resp, binary⟩ := deletes_honestly_iff Primitives.tagged_lawful
    (fun _ => CryptoEngine.passThrough.walMode) 2 .healthy 0 .holding Backend.holding_logging
  constructor
  · have honest := (resp (.deletes ["k", "j", "k"]) (ascii "DEL") (["k", "j", "k"].map ascii) rfl
      (by decide)).mpr (by decide +kernel)
    have replied : (execute (routerStore .tagged 2 .healthy) 0 (.deletes ["k", "j", "k"])
        .holding).reply = some (.int 1) := by decide +kernel
    exact ⟨fun _ => honest.deleted (by rw [replied]; rfl),
      fun _ n shown => honest.counted (by rw [replied]; rfl) n (by rw [replied]; exact shown),
      fun failed => failed⟩
  · have honest := (binary .none (.deletes "k") [] none (by decide) (by decide)).mpr
      (by decide +kernel)
    exact ⟨fun _ => honest.deleted (by decide +kernel), fun _ n shown => (by cases shown),
      fun failed => failed⟩

theorem failed_delete_unreported :
    ((execute (routerStore .tagged 2 fun _ => (some 0, none)) 0 (.deletes ["k"])
        .holding).reply = some (.int 0) ∧
      (execute (routerStore .tagged 2 fun _ => (some 0, none)) 0 (.deletes ["k"])
        .holding).store.router.live 2 (ascii "k") = true) ∧
    ((Network.networkHandler (routerStore .tagged 2 fun _ => (some 0, none)) 0 .none
        (.deletes "k") [] none .holding).answer = ⟨some Network.responseOK, .response⟩ ∧
      (Network.networkHandler (routerStore .tagged 2 fun _ => (some 0, none)) 0 .none
        (.deletes "k") [] none .holding).store.router.live 2 (ascii "k") = true) := by
  decide +kernel

end Tellstone
