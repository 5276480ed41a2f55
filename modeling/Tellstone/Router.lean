import Mathlib.Algebra.Order.BigOperators.Group.List
import Tellstone.Shard.Stable

/-! The shards of a server and the router in front of them. The configured memory
limit is divided among the shards. -/
namespace Tellstone
open ByteStream

def hashKey (key : Bytes) : UInt32 :=
  key.foldl (fun h b => (h ^^^ b.toUInt32) * 16777619) 2166136261

/-- A router that can serve: its shard count is kept in 32 bits, and requests divide by it. -/
structure Router where
  shards : List Shard
  indexed : 0 < shards.length % 2 ^ 32

structure Boot where
  now : Time
  order : MapOrder
  crypto : CryptoEngine
  draws : Nat
  store : Storage

def Boot.plain (id : Nat) : Boot := ⟨0, .asStored, .passThrough, 0, .fresh id⟩

/-- The first failure ends the start, with the id of the shard that failed. -/
def initShards (P : Primitives) (cfg : Config) (boot : Nat → Boot) :
    List Nat → Except (Nat × Error) (List Shard)
  | [] => .ok []
  | id :: ids =>
    let b := boot id
    match Shard.run P b.now b.order cfg b.crypto b.draws b.store with
    | (_, some err) => .error (id, err)
    | (s, none) => (initShards P cfg boot ids).map (s :: ·)

theorem initShards_length {P : Primitives} {cfg : Config} {boot : Nat → Boot} {ids : List Nat}
    {shards : List Shard} (started : initShards P cfg boot ids = .ok shards) :
    shards.length = ids.length := by
  induction ids generalizing shards with
  | nil =>
    cases started
    rfl
  | cons id ids ih =>
    simp only [initShards] at started
    split at started
    · cases started
    · cases rest : initShards P cfg boot ids with
      | error err => simp [rest, Except.map] at started
      | ok later =>
        simp only [rest, Except.map, Except.ok.injEq] at started
        rw [← started, List.length_cons, List.length_cons, ih rest]

namespace Router

def new? (shards : List Shard) : Option Router :=
  if indexed : 0 < shards.length % 2 ^ 32 then some ⟨shards, indexed⟩ else none

def numShards (r : Router) : Nat := r.shards.length % 2 ^ 32

def shardOf (r : Router) (key : Bytes) : Fin r.shards.length :=
  ⟨(hashKey key).toNat % r.numShards, Nat.lt_of_lt_of_le (Nat.mod_lt _ r.indexed) (Nat.mod_le _ _)⟩

def shardFor (r : Router) (key : Bytes) : Shard := r.shards.get (r.shardOf key)

def entry (r : Router) (key : Bytes) : Option Item := (r.shardFor key).engine.items.lookup key

def put (r : Router) (sid : Fin r.shards.length) (s : Shard) : Router where
  shards := r.shards.set sid s
  indexed := by simpa using r.indexed

def dispatch (P : Primitives) (r : Router) (c : Request) : Router × Response :=
  let sid := r.shardOf c.key
  let (s, response) := (r.shards.get sid).execute P c
  (r.put sid s, response)

def dispatchAll (P : Primitives) : Router → List Request → Router × List Response
  | r, [] => (r, [])
  | r, c :: requests =>
    let (r, response) := r.dispatch P c
    let (r, responses) := dispatchAll P r requests
    (r, response :: responses)

theorem shardFor_put (r : Router) (key k : Bytes) (s : Shard) :
    (r.put (r.shardOf key) s).shardFor k =
      if r.shardOf k = r.shardOf key then s else r.shardFor k := by
  have index : ((r.put (r.shardOf key) s).shardOf k : Nat) = r.shardOf k := by
    simp [shardOf, numShards, put]
  simp only [shardFor, List.get_eq_getElem, index]
  by_cases same : r.shardOf k = r.shardOf key
  · simp [put, same]
  · rw [if_neg same]
    exact List.getElem_set_ne (fun eq => same (Fin.ext eq.symm)) _

theorem dispatch_shardFor (P : Primitives) (r : Router) (c : Request) (k : Bytes) :
    (r.dispatch P c).1.shardFor k =
      if r.shardOf k = r.shardOf c.key then ((r.shardFor c.key).execute P c).1
      else r.shardFor k :=
  shardFor_put r c.key k _

theorem dispatch_owner (P : Primitives) (r : Router) (c : Request) :
    (r.dispatch P c).1.shardFor c.key = ((r.shardFor c.key).execute P c).1 := by
  rw [dispatch_shardFor, if_pos rfl]

def Each (Inv : Engine → Prop) (r : Router) : Prop := ∀ s ∈ r.shards, Inv s.engine

section
variable {P : Primitives} {Inv : Engine → Prop} {r : Router}

theorem Each.dispatch (stable : Engine.Stable P Inv) (each : r.Each Inv) (c : Request) :
    (r.dispatch P c).1.Each Inv := by
  intro s mem
  rcases List.mem_or_eq_of_mem_set mem with old | rfl
  · exact each s old
  · exact stable.execute (each _ (List.get_mem _ _)) c

theorem dispatch_count (c : Request) : (r.dispatch P c).1.shards.length = r.shards.length := by
  simp [Router.dispatch, Router.put]

theorem Each.dispatchAll (stable : Engine.Stable P Inv) (each : r.Each Inv)
    (requests : List Request) :
    (r.dispatchAll P requests).1.Each Inv ∧
      (r.dispatchAll P requests).1.shards.length = r.shards.length := by
  induction requests generalizing r with
  | nil => exact ⟨each, rfl⟩
  | cons c requests ih =>
    obtain ⟨last, count⟩ := ih (each.dispatch stable c)
    exact ⟨last, count.trans (dispatch_count c)⟩

theorem initShards_each (stable : Engine.Stable P Inv) {cfg : Config} {boot : Nat → Boot}
    (inv : ∀ crypto draws, Inv (Shard.newEngine cfg crypto draws)) {ids : List Nat}
    {shards : List Shard} (started : initShards P cfg boot ids = .ok shards) :
    ∀ s ∈ shards, Inv s.engine := by
  induction ids generalizing shards with
  | nil =>
    cases started
    exact fun s mem => absurd mem List.not_mem_nil
  | cons id ids ih =>
    have first := stable.run (boot id).now (boot id).order cfg (boot id).crypto (boot id).draws
      (boot id).store (inv _ _)
    simp only [initShards] at started
    split at started
    · cases started
    · rename_i s ran
      rw [ran] at first
      cases rest : initShards P cfg boot ids with
      | error err => simp [rest, Except.map] at started
      | ok later =>
        simp only [rest, Except.map, Except.ok.injEq] at started
        rw [← started]
        exact List.forall_mem_cons.mpr ⟨first, ih rest⟩

end

end Router

def startShards (P : Primitives) (cfg : Config) (boot : Nat → Boot) :
    Except (Nat × Error) (List Shard) :=
  initShards P cfg boot (List.range cfg.numShards)

/-- The shards after a run of requests. Without a router that can serve, the first request
panics. -/
def served (P : Primitives) (shards : List Shard) (requests : List Request) : List Shard :=
  match Router.new? shards with
  | some r => (r.dispatchAll P requests).1.shards
  | none => shards

def allocatedBytes (shards : List Shard) : Nat :=
  (shards.map fun s => s.engine.allocatedBytes).sum

theorem served_each {P : Primitives} {Inv : Engine → Prop} (stable : Engine.Stable P Inv)
    {shards : List Shard} (each : ∀ s ∈ shards, Inv s.engine) (requests : List Request) :
    (∀ s ∈ served P shards requests, Inv s.engine) ∧
      (served P shards requests).length = shards.length := by
  unfold served Router.new?
  by_cases indexed : 0 < shards.length % 2 ^ 32
  · have start : Router.Each Inv ⟨shards, indexed⟩ := each
    rw [dif_pos indexed]
    exact start.dispatchAll stable requests
  · rw [dif_neg indexed]
    exact ⟨each, rfl⟩

theorem allocatedBytes_le {shards : List Shard} {ceiling : Nat} (positive : 0 < ceiling)
    (each : ∀ s ∈ shards, s.engine.Accounted ∧ s.engine.maxBytes = ceiling) :
    allocatedBytes shards ≤ shards.length * ceiling := by
  have one : ∀ n ∈ shards.map fun s => s.engine.allocatedBytes, n ≤ ceiling := by
    intro n mem
    obtain ⟨s, found, rfl⟩ := List.mem_map.mp mem
    obtain ⟨accounted, same⟩ := each s found
    have within := accounted.within
    omega
  have total := List.sum_le_card_nsmul _ ceiling one
  simpa [allocatedBytes] using total

/-- Every run stays within the limit, with every shard bounded, exactly when the limit is a byte
per shard or more. -/
theorem limit_respected_iff {P : Primitives} (law : P.Lawful) (cfg : Config)
    (limited : 0 < cfg.maxMemBytes) (boot : Nat → Boot) (shards : List Shard)
    (started : startShards P cfg boot = .ok shards) :
    (∀ requests : List Request, allocatedBytes (served P shards requests) ≤ cfg.maxMemBytes ∧
      ∀ s ∈ served P shards requests, 0 < s.engine.maxBytes) ↔
      cfg.numShards ≤ cfg.maxMemBytes := by
  have share : Shard.maxBytes cfg = cfg.maxMemBytes / cfg.numShards := by
    rw [Shard.maxBytes, if_pos limited]
  have stable := Engine.accounted_stable law (Shard.maxBytes cfg)
  have each := Router.initShards_each stable
    (fun crypto draws => ⟨Engine.new_accounted _ _ _ _ _, rfl⟩) started
  have count : shards.length = cfg.numShards :=
    (initShards_length started).trans List.length_range
  constructor
  · intro respected
    obtain ⟨later, same⟩ := served_each stable each []
    have first : 0 < (served P shards []).length := by
      rw [same, count]
      exact cfg.sharded
    have mem := List.get_mem (served P shards []) ⟨0, first⟩
    have bounded := (respected []).2 _ mem
    rw [(later _ mem).2, share] at bounded
    exact Nat.le_of_not_lt fun fewer => by
      rw [Nat.div_eq_of_lt fewer] at bounded
      exact Nat.lt_irrefl 0 bounded
  · intro enough requests
    obtain ⟨later, same⟩ := served_each stable each requests
    have positive : 0 < Shard.maxBytes cfg := by
      rw [share]
      exact Nat.div_pos enough cfg.sharded
    constructor
    · calc allocatedBytes (served P shards requests)
          ≤ (served P shards requests).length * Shard.maxBytes cfg :=
            allocatedBytes_le positive later
        _ = cfg.numShards * (cfg.maxMemBytes / cfg.numShards) := by rw [same, count, share]
        _ ≤ cfg.maxMemBytes := Nat.mul_div_le _ _
    · intro s mem
      rw [(later s mem).2]
      exact positive

def Shard.blank (cfg : Config) (id : Nat) : Shard :=
  (Shard.run .tagged 0 .asStored cfg .passThrough 0 (.fresh id)).1

def Config.pair (maxMemBytes : Nat) : Config := ⟨0, 0, maxMemBytes, 2, Nat.two_pos⟩

def Router.pair (maxMemBytes : Nat) : Router where
  shards := [Shard.blank (.pair maxMemBytes) 0, Shard.blank (.pair maxMemBytes) 1]
  indexed := show 0 < 2 % 2 ^ 32 by decide

theorem limit_respected_eleven_bytes :
    startShards .tagged (.pair 11) Boot.plain = .ok (Router.pair 11).shards ∧
      ∀ requests : List Request,
        allocatedBytes (served .tagged (Router.pair 11).shards requests) ≤ 11 ∧
          ∀ s ∈ served .tagged (Router.pair 11).shards requests, 0 < s.engine.maxBytes :=
  ⟨rfl, (limit_respected_iff Primitives.tagged_lawful (.pair 11) (by decide) Boot.plain
    (Router.pair 11).shards rfl).mpr (by decide)⟩

theorem limit_below_shard_count :
    startShards .tagged (.pair 1) Boot.plain = .ok (Router.pair 1).shards ∧
      (∀ s ∈ (Router.pair 1).shards, s.engine.maxBytes = 0) ∧
      allocatedBytes (served .tagged (Router.pair 1).shards
        [.healthy 1 .set [107] [49] 0, .healthy 2 .set [108] [50, 51] 0]) = 5 :=
  ⟨rfl, by decide +kernel, by decide +kernel⟩

end Tellstone
