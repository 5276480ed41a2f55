import Tellstone.Router

/-! The shards behind the router, seen as one map. Which shard holds a key, and the entries that
reads take away, are not to be seen in the answers. -/
namespace Tellstone
open ByteStream ExpiringMap

/-- An entry that cannot be decrypted is there, without a value. -/
abbrev Listing := ExpiringMap Bytes (Option Bytes)

def Engine.listing (P : Primitives) (e : Engine) : Listing :=
  decode (fun stored => some (e.crypto.plain P stored)) e.raw

namespace Listing

/-- What a call does to the map. One that meets an error does nothing. -/
def apply (m : Listing) (c : Request) (err : Option Error) : Listing :=
  match c.op, err with
  | .set, none => ExpiringMap.put m c.key (some c.value) (expiry c.now c.ttl)
  | .del, none => ExpiringMap.erase m c.key
  | _, _ => m

def answer (m : Listing) (c : Request) (err : Option Error) : Response :=
  match c.op, err with
  | .get, _ =>
    let val := (view c.now m c.key).join
    ⟨val, val.isSome, none⟩
  | .set, none => ⟨none, true, none⟩
  | .del, none => ⟨none, (view c.now m c.key).isSome, none⟩
  | _, _ => ⟨none, false, err⟩

/-- The answers of one map to calls that meet these errors. -/
def answers : Listing → List Request → List (Option Error) → List Response
  | m, c :: requests, err :: errs => m.answer c err :: answers (m.apply c err) requests errs
  | _, _, _ => []

theorem view_apply_of_ne (m : Listing) {c : Request} {k : Bytes} (other : k ≠ c.key)
    (err : Option Error) (now : Time) : view now (m.apply c err) k = view now m k := by
  unfold apply
  split
  · rw [view_put_of_ne other]
  · rw [view_erase_of_ne other]
  · rfl

theorem view_apply {a b : Listing} {now : Time} {k : Bytes} (same : view now a k = view now b k)
    (c : Request) (err : Option Error) :
    view now (a.apply c err) k = view now (b.apply c err) k := by
  by_cases own : k = c.key
  · subst own
    unfold apply
    split
    · rw [view_put_self, view_put_self]
    · rw [view_erase_self, view_erase_self]
    · exact same
  · rwa [view_apply_of_ne a own, view_apply_of_ne b own]

theorem answer_congr {a b : Listing} {c : Request}
    (same : view c.now a c.key = view c.now b c.key) (err : Option Error) :
    a.answer c err = b.answer c err := by
  unfold answer
  rw [same]

end Listing

section
variable {P : Primitives}

theorem Engine.listing_get (now : Time) (e : Engine) (key : Bytes) :
    SameFrom now ((e.get P now key).1.listing P) (e.listing P) := by
  rw [listing, get_crypto]
  exact (get_sameFrom P now e key).decode _

theorem Engine.listing_set_ok (law : P.Lawful) {now : Time} {e e' : Engine} {key value : Bytes}
    {ttl : Duration} (stored : e.set P now key value ttl = (e', none)) :
    e'.listing P = ExpiringMap.put (e.listing P) key (some value) (expiry now ttl) := by
  have crypto : e'.crypto = e.crypto := by
    rw [← @set_crypto P now e key value ttl, stored]
  have plain := congrArg some (CryptoEngine.plain_encrypt law e.crypto e.draws value)
  rw [listing, crypto, set_ok_raw stored]
  exact decode_put (f := fun stored => some (e.crypto.plain P stored)) plain e.raw key _

theorem Engine.full_of_set_err {now : Time} {e e' : Engine} {key value : Bytes} {ttl : Duration}
    {err : Error} (refused : e.set P now key value ttl = (e', some err)) :
    e.full (key.length + e.crypto.storedSize value.length) = true := by
  by_contra room
  have ok : (e.set P now key value ttl).2 = none := set_ok_iff.mpr (eq_false_of_ne_true room)
  cases (congrArg Prod.snd refused).symm.trans ok

theorem Engine.listing_delete (now : Time) (e : Engine) (key : Bytes) :
    (e.delete now key).1.listing P = ExpiringMap.erase (e.listing P) key := by
  rw [listing, delete_crypto, raw_erase (delete_items now e key), decode_erase]
  rfl

/-- A call of a shard is a call of its map, with the error it met. -/
structure Follows (P : Primitives) (s : Shard) (c : Request) (r : Shard × Response) : Prop where
  response : r.2 = (s.engine.listing P).answer c r.2.err
  state : SameFrom c.now (r.1.engine.listing P) ((s.engine.listing P).apply c r.2.err)

theorem Shard.execute_follows (law : P.Lawful) (s : Shard) (c : Request) :
    Follows P s c (s.execute P c) := by
  have read := Engine.listing_get (P := P) c.now s.engine c.key
  unfold execute
  cases op : c.op with
  | get =>
    have val : (s.engine.get P c.now c.key).2 =
        (view c.now (s.engine.listing P) c.key).join := by
      rw [Engine.get_result, Engine.read_eq, Engine.listing, view_decode]
      cases view c.now s.engine.raw c.key <;> rfl
    exact ⟨by simp [Listing.answer, op, val], by simpa [Listing.apply, op] using read⟩
  | set =>
    simp only
    generalize (if s.persistence.enabled then
        s.persistence.write P c.fault c.key c.value (expiry c.now c.ttl)
      else (s.persistence, none)) = appended
    obtain ⟨store, _ | err⟩ := appended
    · rcases stored : (s.engine.get P c.now c.key).1.set P c.now c.key c.value c.ttl with
        ⟨engine, _ | err⟩
      · refine ⟨by simp [Listing.answer, op], ?_⟩
        simp only [Listing.apply, op, Engine.listing_set_ok law stored]
        exact read.put _ _ _
      · have kept : engine = (s.engine.get P c.now c.key).1 :=
          congrArg Prod.fst (stored.symm.trans (Engine.set_full (Engine.full_of_set_err stored)))
        refine ⟨by simp [Listing.answer, op], ?_⟩
        simpa [Listing.apply, op, kept] using read
    · exact ⟨by simp [Listing.answer, op], by simpa [Listing.apply, op] using read⟩
  | del =>
    simp only
    generalize (if s.persistence.enabled then s.persistence.delete P c.fault c.key
      else (s.persistence, none)) = appended
    obtain ⟨store, _ | err⟩ := appended
    · have found : (s.engine.delete c.now c.key).2 =
          (view c.now (s.engine.listing P) c.key).isSome := by
        rw [Engine.delete_result, Engine.listing, view_decode]
        cases view c.now s.engine.raw c.key <;> rfl
      refine ⟨by simp [Listing.answer, op, found], ?_⟩
      simp only [Listing.apply, op, Engine.listing_delete]
      exact .refl _ _
    · exact ⟨by simp [Listing.answer, op], by simpa [Listing.apply, op] using .refl _ _⟩
  | _ => exact ⟨by simp [Listing.answer, op], by simpa [Listing.apply, op] using .refl _ _⟩

end

namespace Router

def listing (P : Primitives) (r : Router) : Listing :=
  fun key => (r.shardFor key).engine.listing P key

section
variable {P : Primitives}

theorem dispatch_answer (law : P.Lawful) (r : Router) (c : Request) :
    (r.dispatch P c).2 = (r.listing P).answer c (r.dispatch P c).2.err :=
  ((r.shardFor c.key).execute_follows law c).response.trans (Listing.answer_congr rfl _)

theorem dispatch_listing (law : P.Lawful) (r : Router) (c : Request) :
    SameFrom c.now ((r.dispatch P c).1.listing P)
      ((r.listing P).apply c (r.dispatch P c).2.err) := by
  intro t after k
  have follows := ((r.shardFor c.key).execute_follows law c).state t after k
  by_cases same : r.shardOf k = r.shardOf c.key
  · have owner : r.shardFor k = r.shardFor c.key := congrArg r.shards.get same
    have own : view t ((r.shardFor c.key).engine.listing P) k = view t (r.listing P) k := by
      rw [view, view, listing, owner]
    refine Eq.trans ?_ (follows.trans (Listing.view_apply own c _))
    rw [view, view, listing, dispatch_shardFor, if_pos same]
  · have other : k ≠ c.key := fun eq => same (congrArg r.shardOf eq)
    rw [Listing.view_apply_of_ne _ other, view, view, listing, dispatch_shardFor, if_neg same]
    rfl

theorem dispatchAll_answers (law : P.Lawful) {r : Router} {m : Listing} {requests : List Request}
    (ordered : requests.Pairwise fun a b => a.now ≤ b.now)
    (same : ∀ c ∈ requests, SameFrom c.now (r.listing P) m) :
    (r.dispatchAll P requests).2 =
      m.answers requests ((r.dispatchAll P requests).2.map Response.err) := by
  induction requests generalizing r m with
  | nil => rfl
  | cons c requests ih =>
    rw [List.pairwise_cons] at ordered
    rw [List.forall_mem_cons] at same
    have first := (dispatch_answer law r c).trans
      (Listing.answer_congr (same.1 c.now (Nat.le_refl _) c.key) _)
    have rest := ih ordered.2 (r := (r.dispatch P c).1)
      (m := m.apply c (r.dispatch P c).2.err) (by
        intro d mem t after k
        have later := Nat.le_trans (ordered.1 d mem) after
        rw [dispatch_listing law r c t later k]
        exact Listing.view_apply (same.1 t later k) c _)
    simp only [dispatchAll, List.map_cons, Listing.answers]
    rw [← first, ← rest]

end

/-- The answers of the shards to calls in the order of their clock readings are those of one map
to calls that meet the same errors. -/
theorem shards_are_one_map {P : Primitives} (law : P.Lawful) (r : Router) (requests : List Request)
    (ordered : requests.Pairwise fun a b => a.now ≤ b.now) :
    (r.dispatchAll P requests).2 =
      (r.listing P).answers requests ((r.dispatchAll P requests).2.map Response.err) :=
  dispatchAll_answers law ordered fun _ _ => .refl _ _

def twoKeys : List Request :=
  [.healthy 1 .set [107] [49] 3, .healthy 2 .set [108] [50] 0, .healthy 3 .get [107] [] 0,
    .healthy 5 .del [107] [] 0]

/-- The keys are on different shards, and the first has expired when it is deleted. -/
theorem shards_are_one_map_two_keys :
    ((pair 0).dispatchAll .tagged twoKeys).2 =
      ((pair 0).listing .tagged).answers twoKeys [none, none, none, none] := by
  have errs : ((pair 0).dispatchAll .tagged twoKeys).2.map Response.err =
      [none, none, none, none] := by decide +kernel
  rw [← errs]
  exact shards_are_one_map Primitives.tagged_lawful (pair 0) twoKeys (by
    simp [twoKeys, Request.healthy])

end Router

end Tellstone
