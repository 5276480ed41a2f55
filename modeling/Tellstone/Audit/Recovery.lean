import Tellstone.Audit.Reading
import Tellstone.Audit.Segments

/-! What both readers make of a sealed file that ends anywhere. -/
namespace Tellstone.Audit
open ByteStream Network Framing

section
variable (P : Primitives) (J : Codec) (ce : CryptoEngine)

/-- The records that the first `n` bytes behind the header contain as a whole. -/
def contained (n : Nat) (rs : List Sealed) : List Sealed :=
  whole (fun s => (s.frame P ce).length) n rs

/-- Cut anywhere, the file gives both readers the records that are there as a whole. -/
def Survives (body : Bytes) (rs : List Sealed) : Prop :=
  ∀ n, decodeAllRecords P J ce (body.take n) =
      .ok ((contained P ce (min n body.length) rs).flatMap Sealed.record) ∧
    decodeEncrypted P J ce (body.take n) =
      (contained P ce (min n body.length) rs).filterMap fun s => decodeRecord J s.record

/-- A record whose length does not fit its field is not there up to the length in the field. -/
def Measured (body : Bytes) (rs : List Sealed) : Prop :=
  ∀ before s behind, rs = before ++ s :: behind → 2 ^ 32 ≤ (s.blob P ce).length →
    body.length < (before.flatMap (Sealed.frame P ce)).length + 4 + (s.blob P ce).length % 2 ^ 32

end

section
variable {P : Primitives} {J : Codec} {ce : CryptoEngine}

theorem frame_length (s : Sealed) : (s.frame P ce).length = 4 + (s.blob P ce).length := by
  rw [Sealed.frame, List.length_append, putUintBE_length]

theorem blob_pos (law : P.Lawful) (on : ce.enabled = true) (s : Sealed) :
    0 < (s.blob P ce).length := by
  rw [Sealed.blob, CryptoEngine.encryptInPlace_length law, CryptoEngine.storedSize, if_pos on]
  omega

theorem nextFrame_announced {size n : Nat} (announced : size % 2 ^ 32 = n) (data : Bytes)
    (there : n ≤ data.length) : nextFrame (putUintBE 4 size ++ data) =
      if n = 0 then .empty else .blob (data.take n) (data.drop n) := by
  have value : uintBE (putUintBE 4 size) = n := by
    rw [uintBE_putUintBE_mod]
    exact announced
  have long : ¬ (putUintBE 4 size ++ data).length < 4 := by
    rw [List.length_append, putUintBE_length]
    omega
  rw [nextFrame, if_neg long, List.take_left' (putUintBE_length 4 _),
    List.drop_left' (putUintBE_length 4 _), value]
  simp only [if_neg (Nat.not_lt.mpr there)]

theorem nextFrame_cut (s : Sealed) {n : Nat} (short : n < 4 + (s.blob P ce).length % 2 ^ 32) :
    nextFrame ((s.frame P ce).take n) = .none ∨ nextFrame ((s.frame P ce).take n) = .cut := by
  unfold nextFrame
  by_cases few : ((s.frame P ce).take n).length < 4
  · exact Or.inl (if_pos few)
  · right
    have enough : 4 ≤ n := by
      rw [List.length_take] at few
      omega
    have value : uintBE (((s.frame P ce).take n).take 4) = (s.blob P ce).length % 2 ^ 32 := by
      rw [List.take_take, Nat.min_eq_left enough, Sealed.frame,
        List.take_left' (putUintBE_length 4 _), uintBE_putUintBE_mod]
      rfl
    have left : (((s.frame P ce).take n).drop 4).length < (s.blob P ce).length % 2 ^ 32 := by
      rw [List.length_drop, List.length_take]
      omega
    rw [if_neg few]
    simp only [value, if_pos left]
    rw [if_neg (by omega)]

/-- A valid record whose length fits its field. -/
structure Proper (P : Primitives) (J : Codec) (ce : CryptoEngine) (s : Sealed) : Prop where
  fits : (s.blob P ce).length < 2 ^ 32
  valid : J.valid s.record = true

section
variable (law : P.Lawful) (on : ce.enabled = true)

include law on

theorem nextFrame_proper {s : Sealed} (proper : Proper P J ce s) (rest : Bytes) :
    nextFrame (s.frame P ce ++ rest) = .blob (s.blob P ce) rest := by
  have positive := blob_pos law on s
  have there : (s.blob P ce).length ≤ (s.blob P ce ++ rest).length := by
    rw [List.length_append]
    omega
  rw [Sealed.frame, List.append_assoc, nextFrame_announced (Nat.mod_eq_of_lt proper.fits) _ there,
    if_neg (by omega), List.take_left, List.drop_left]

theorem encryptedTurn_eats : Eats (encryptedTurn P J ce) (fun out data => (data, out))
    (Sealed.frame P ce) (Proper P J ce)
    fun out s => (out ++ (decodeRecord J s.record).toList, none) := by
  intro out s rest proper
  have opens : ce.decryptInPlace P (s.blob P ce) = .ok s.record :=
    CryptoEngine.decrypt_encrypt law ce s.draw s.record
  simp only [encryptedTurn, nextFrame_proper law on proper, opens, Turn.next_none]

theorem allRecordsTurn_eats : Eats (allRecordsTurn P J ce) (fun out data => (data, out))
    (Sealed.frame P ce) (Proper P J ce) fun out s => (out ++ s.record, none) := by
  intro out s rest proper
  have opens : ce.decryptInPlace P (s.blob P ce) = .ok s.record :=
    CryptoEngine.decrypt_encrypt law ce s.draw s.record
  simp only [allRecordsTurn, nextFrame_proper law on proper, opens, proper.valid, if_true,
    Turn.next_none]

theorem decode_frames {before : List Sealed} (proper : ∀ s ∈ before, Proper P J ce s) {tail : Bytes}
    (stops : nextFrame tail = .none ∨ nextFrame tail = .cut) :
    decodeAllRecords P J ce (before.flatMap (Sealed.frame P ce) ++ tail) =
        .ok (before.flatMap Sealed.record) ∧
      decodeEncrypted P J ce (before.flatMap (Sealed.frame P ce) ++ tail) =
        before.filterMap fun s => decodeRecord J s.record := by
  have allEnd (out : Bytes) : allRecordsTurn P J ce (tail, out) = .stop (tail, out) := by
    rcases stops with stops | stops <;> simp [allRecordsTurn, stops]
  have securityEnd (out : List ReplayEntry) :
      encryptedTurn P J ce (tail, out) = .stop (tail, out) := by
    rcases stops with stops | stops <;> simp [encryptedTurn, stops]
  have all := loop_log allRecordsTurn_shrinks (allRecordsTurn_eats law on) allEnd before proper []
  have security :=
    loop_log encryptedTurn_shrinks (encryptedTurn_eats law on) securityEnd before proper []
  rw [foldUntil_collect] at all security
  constructor
  · rw [decodeAllRecords, if_neg (by simp [on]), all]
    rfl
  · rw [decodeEncrypted, security, List.filterMap_eq_flatMap_toList]
    rfl

theorem decode_overrun (documented : J.Documented) {before : List Sealed}
    (proper : ∀ s ∈ before, Proper P J ce s) {size n : Nat} (announced : size % 2 ^ 32 = n)
    {data : Bytes} (exactly : data.length = n) :
    decodeAllRecords P J ce (before.flatMap (Sealed.frame P ce) ++ (putUintBE 4 size ++ data)) ≠
      .ok (before.flatMap Sealed.record) := by
  have frames := loop_frames allRecordsTurn_shrinks (allRecordsTurn_eats law on) before proper []
    (putUintBE 4 size ++ data)
  have found := nextFrame_announced announced data (Nat.le_of_eq exactly.symm)
  rw [List.take_of_length_le (Nat.le_of_eq exactly), List.drop_eq_nil_of_le (Nat.le_of_eq exactly)]
    at found
  rw [foldUntil_collect] at frames
  simp only [List.nil_append] at frames
  rw [decodeAllRecords, if_neg (by simp [on]), frames]
  generalize before.flatMap Sealed.record = out
  generalize putUintBE 4 size ++ data = rest at found ⊢
  by_cases none : n = 0
  · rw [if_pos none] at found
    have turn : allRecordsTurn P J ce (rest, out) = .fail (rest, out) .zeroLengthBlob := by
      simp only [allRecordsTurn, found]
    rw [loop_fail turn]
    simp
  rw [if_neg none] at found
  cases opened : ce.decryptInPlace P data with
  | error cause =>
    have turn : allRecordsTurn P J ce (rest, out) = .fail (rest, out) (.decryptRecord cause) := by
      simp only [allRecordsTurn, found, opened]
    rw [loop_fail turn]
    simp
  | ok plain =>
    cases valid : J.valid plain with
    | false =>
      have turn : allRecordsTurn P J ce (rest, out) = .fail (rest, out) .notJSON := by
        simp [allRecordsTurn, found, opened, valid]
      rw [loop_fail turn]
      simp
    | true =>
      have turn : allRecordsTurn P J ce (rest, out) = .more ([], out ++ plain) := by
        simp [allRecordsTurn, found, opened, valid]
      have ends : allRecordsTurn P J ce ([], out ++ plain) = .stop ([], out ++ plain) := by
        simp [allRecordsTurn, nextFrame]
      rw [loop_more allRecordsTurn_shrinks turn, loop_stop ends]
      intro same
      have empty : plain = [] := by simpa using same
      rw [empty, documented.valid_nil] at valid
      cases valid

omit law on in
theorem take_measured (rs : List Sealed) (n : Nat)
    (measured : ∀ before s behind, rs = before ++ s :: behind → 2 ^ 32 ≤ (s.blob P ce).length →
      n < (before.flatMap (Sealed.frame P ce)).length + 4 + (s.blob P ce).length % 2 ^ 32) :
    ∃ tail, (rs.flatMap (Sealed.frame P ce)).take n =
        (contained P ce n rs).flatMap (Sealed.frame P ce) ++ tail ∧
      (∀ s ∈ contained P ce n rs, (s.blob P ce).length < 2 ^ 32) ∧
      (nextFrame tail = .none ∨ nextFrame tail = .cut) := by
  induction rs generalizing n with
  | nil => exact ⟨[], by simp [contained, whole], by simp [contained, whole], Or.inl rfl⟩
  | cons s rs ih =>
    have first (large : 2 ^ 32 ≤ (s.blob P ce).length) : n < 4 + (s.blob P ce).length % 2 ^ 32 := by
      simpa using measured [] s rs rfl large
    have below := Nat.mod_le (s.blob P ce).length (2 ^ 32)
    by_cases there : (s.frame P ce).length ≤ n
    · have small : (s.blob P ce).length < 2 ^ 32 := by
        by_contra large
        have early := first (Nat.le_of_not_lt large)
        rw [frame_length] at there
        omega
      obtain ⟨tail, parts, fits, stops⟩ := ih (n - (s.frame P ce).length) (by
        intro before r behind split large
        have later := measured (s :: before) r behind (by rw [split]; rfl) large
        rw [List.flatMap_cons, List.length_append] at later
        omega)
      have next : contained P ce n (s :: rs) =
          s :: contained P ce (n - (s.frame P ce).length) rs := by
        rw [contained, whole, if_pos there]
        rfl
      refine ⟨tail, ?_, ?_, stops⟩
      · rw [next, List.flatMap_cons, List.take_append, List.take_of_length_le there, parts,
          List.flatMap_cons, List.append_assoc]
      · rw [next]
        exact List.forall_mem_cons.mpr ⟨small, fits⟩
    · have none : contained P ce n (s :: rs) = [] := by
        rw [contained, whole, if_neg there]
      refine ⟨(s.frame P ce).take n, ?_, by simp [none], nextFrame_cut s ?_⟩
      · rw [none, List.flatMap_cons, List.take_append_of_le_length (by omega)]
        rfl
      · by_cases large : 2 ^ 32 ≤ (s.blob P ce).length
        · exact first large
        · rw [Nat.mod_eq_of_lt (Nat.lt_of_not_le large), ← frame_length]
          omega

omit law on in
theorem contained_before {before : List Sealed} {s : Sealed} (behind : List Sealed) {n : Nat}
    (short : n < (s.frame P ce).length) :
    contained P ce ((before.flatMap (Sealed.frame P ce)).length + n) (before ++ s :: behind) =
      before := by
  induction before with
  | nil =>
    rw [List.flatMap_nil, List.length_nil, Nat.zero_add, List.nil_append, contained, whole,
      if_neg (by omega)]
  | cons r before ih =>
    have rest : (List.flatMap (Sealed.frame P ce) (r :: before)).length + n - (r.frame P ce).length =
        (before.flatMap (Sealed.frame P ce)).length + n := by
      rw [List.flatMap_cons, List.length_append]
      omega
    have there : (r.frame P ce).length ≤
        (List.flatMap (Sealed.frame P ce) (r :: before)).length + n := by
      rw [List.flatMap_cons, List.length_append]
      omega
    rw [List.cons_append, contained, whole, if_pos there, rest]
    exact congrArg (List.cons r) ih

section
variable {body : Bytes} {rs : List Sealed} (starts : body <+: rs.flatMap (Sealed.frame P ce))
  (valid : ∀ s ∈ rs, J.valid s.record = true)

include starts valid

omit law on valid in
theorem survives_at_length {before behind : List Sealed} {s : Sealed}
    (split : rs = before ++ s :: behind) (large : 2 ^ 32 ≤ (s.blob P ce).length)
    (there : ¬ body.length <
      (before.flatMap (Sealed.frame P ce)).length + 4 + (s.blob P ce).length % 2 ^ 32)
    (survives : Survives P J ce body rs) :
    decodeAllRecords P J ce (before.flatMap (Sealed.frame P ce) ++
        (putUintBE 4 (s.blob P ce).length ++
          (s.blob P ce).take ((s.blob P ce).length % 2 ^ 32))) =
      .ok (before.flatMap Sealed.record) := by
  have below := Nat.mod_lt (s.blob P ce).length (by decide : 2 ^ 32 > 0)
  generalize (s.blob P ce).length % 2 ^ 32 = n at below there ⊢
  have short : 4 + n < (s.frame P ce).length := by
    rw [frame_length]
    omega
  have read := (survives ((before.flatMap (Sealed.frame P ce)).length + (4 + n))).1
  have inside : min ((before.flatMap (Sealed.frame P ce)).length + (4 + n)) body.length =
      (before.flatMap (Sealed.frame P ce)).length + (4 + n) := by omega
  have bytes : body.take ((before.flatMap (Sealed.frame P ce)).length + (4 + n)) =
      before.flatMap (Sealed.frame P ce) ++
        (putUintBE 4 (s.blob P ce).length ++ (s.blob P ce).take n) := by
    rw [List.prefix_iff_eq_take.mp starts, List.take_take, Nat.min_eq_left (by omega), split,
      List.flatMap_append, List.take_length_add_append, List.flatMap_cons,
      List.take_append_of_le_length (by omega), Sealed.frame]
    congr 1
    have four := putUintBE_length 4 (s.blob P ce).length
    rw [List.take_append, List.take_of_length_le (by omega), four]
    congr 2
    omega
  rw [bytes, inside, split, contained_before behind short] at read
  exact read

theorem survives_of_measured (measured : Measured P ce body rs) : Survives P J ce body rs := by
  intro n
  obtain ⟨tail, parts, fits, stops⟩ := take_measured rs (min n body.length) (by
    intro before s behind split large
    have short := measured before s behind split large
    omega)
  have taken : body.take n = (rs.flatMap (Sealed.frame P ce)).take (min n body.length) := by
    rw [List.take_eq_take_min, List.prefix_iff_eq_take.mp starts, List.take_take, List.length_take]
    congr 1
    have size := starts.length_le
    omega
  have proper : ∀ s ∈ contained P ce (min n body.length) rs, Proper P J ce s := by
    intro s mem
    exact ⟨fits s mem, valid s ((whole_start _ _ rs).subset mem)⟩
  rw [taken, parts]
  exact decode_frames law on proper stops

theorem measured_of_survives (documented : J.Documented) (survives : Survives P J ce body rs) :
    Measured P ce body rs := by
  intro before s behind split large
  by_contra there
  induction len : before.length using Nat.strongRecOn generalizing before s behind with
  | ind m ih =>
    by_cases fit : ∀ r ∈ before, (r.blob P ce).length < 2 ^ 32
    · have proper : ∀ r ∈ before, Proper P J ce r := by
        intro r mem
        exact ⟨fit r mem, valid r (split ▸ List.mem_append_left _ mem)⟩
      have cut := survives_at_length starts split large there survives
      exact decode_overrun law on documented proper rfl (List.length_take_of_le (Nat.mod_le _ _)) cut
    · push Not at fit
      obtain ⟨r, mem, exceeds⟩ := fit
      obtain ⟨first, between, parts⟩ := List.append_of_mem mem
      have shorter : first.length < m := by
        rw [← len, parts, List.length_append, List.length_cons]
        omega
      have below := Nat.mod_le (r.blob P ce).length (2 ^ 32)
      refine ih first.length shorter first r (between ++ s :: behind) ?_ exceeds ?_ rfl
      · rw [split, parts, List.append_assoc]
        rfl
      · rw [parts, List.flatMap_append, List.flatMap_cons, List.length_append, List.length_append,
          frame_length] at there
        omega

end

end

end

namespace LogEngine

theorem handed_valid {J : Codec} (documented : J.Documented) (P : Primitives) (e : LogEngine)
    (calls : List Call) : ∀ s ∈ e.handed P J calls, J.valid s.record = true := by
  induction calls generalizing e with
  | nil => simp [handed]
  | cons call calls ih =>
    intro s mem
    rw [handed, List.mem_append] at mem
    rcases mem with now | later
    · split at now
      · cases now
      · rw [List.mem_singleton.mp now]
        exact documented.valid_encode _
    · exact ih _ s later

/-- Cut anywhere behind its header, every file of a run gives both readers the records that are
there as a whole, exactly if no record outgrows its length field and is there as far as that says.
-/
theorem segments_survive_iff {P : Primitives} (law : P.Lawful) {J : Codec}
    (documented : J.Documented) {ce : CryptoEngine} (on : ce.enabled = true) (keyMode : KeyMode)
    (fingerprint : Fingerprint) (filter : EventType → Bool) (calls : List Call) :
    ∃ parts,
      parts.flatten = (new filter (.new ce keyMode fingerprint)).handed P J calls ∧
      List.Forall₂
        (fun seg rs =>
          Holds P ce (header keyMode fingerprint) seg rs ∧
          (Survives P J ce (seg.drop auditFileHeaderLen) rs ↔
            Measured P ce (seg.drop auditFileHeaderLen) rs))
        ((new filter (.new ce keyMode fingerprint)).recordAll P J calls).file.segments parts := by
  have fresh : (new filter (.new ce keyMode fingerprint)).Kept P [] :=
    .intact rfl (AuditFile.new_intact P ce keyMode fingerprint) rfl
  obtain ⟨kept, same⟩ := fresh.recordAll on calls (J := J)
  obtain ⟨parts, traced, all⟩ := kept.traced
  have kind : ∀ seg rs, Holds P ce (header keyMode fingerprint) seg rs →
      (∀ s ∈ rs, J.valid s.record = true) →
      (Survives P J ce (seg.drop auditFileHeaderLen) rs ↔
        Measured P ce (seg.drop auditFileHeaderLen) rs) := by
    intro seg rs ⟨n, content⟩ valid
    have starts : seg.drop auditFileHeaderLen <+: rs.flatMap (Sealed.frame P ce) := by
      rw [content, List.drop_left' (header_length _ _)]
      exact List.take_prefix _ _
    exact ⟨measured_of_survives law on starts valid documented,
      survives_of_measured law on starts valid⟩
  refine ⟨parts, all, ?_⟩
  have valid : ∀ rs ∈ parts, ∀ s ∈ rs, J.valid s.record = true := by
    intro rs mem s inside
    apply handed_valid documented P (new filter (.new ce keyMode fingerprint)) calls
    rw [← List.nil_append (handed ..), ← all]
    exact List.mem_flatten.mpr ⟨rs, mem, inside⟩
  have both := (List.forall₂_and_left _ _).mpr ⟨valid, traced.flip⟩
  apply both.flip.imp
  intro seg rs ⟨valid, holds⟩
  rw [same.ce, AuditFile.head, same.keyMode, same.fingerprint] at holds
  exact ⟨holds, kind seg rs holds valid⟩

def sampleEngine : CryptoEngine := .chacha ⟨List.replicate 32 7, List.length_replicate⟩

def sample : LogEngine :=
  new (fun _ => true) (.new sampleEngine .envelope ⟨List.replicate 16 9, List.length_replicate⟩)

def rejected (user : Bytes) : Call := ⟨0, .authFailure, [], [⟨.user, .str user⟩], .healthy⟩

theorem short_record_survives :
    sampleEngine.enabled = true ∧
    ∃ parts,
      parts.flatten = sample.handed .tagged .marked [rejected [97]] ∧
      List.Forall₂
        (fun seg rs =>
          Holds .tagged sampleEngine sample.file.head seg rs ∧
          (Survives .tagged .marked sampleEngine (seg.drop auditFileHeaderLen) rs ↔
            Measured .tagged sampleEngine (seg.drop auditFileHeaderLen) rs))
        (sample.recordAll .tagged .marked [rejected [97]]).file.segments parts :=
  ⟨rfl, segments_survive_iff Primitives.tagged_lawful Codec.marked_documented rfl _ _ _ _⟩

theorem writeRecord_first (f : AuditFile) (first : f.closed = []) (out : Bytes) :
    (f.writeRecord .healthy out).1.segments.headD [] = f.current ++ out := by
  unfold AuditFile.writeRecord
  simp only [AuditFile.append, RecordFates.healthy, Fault.cut, Option.isNone_none]
  split <;> simp [AuditFile.rotate, AuditFile.segments, first]

theorem sample_rejected (user : Bytes) :
    (sample.recordAll .tagged .marked [rejected user]).file.segments.headD [] =
      sample.file.head ++ Sealed.frame .tagged sampleEngine ⟨0, line .marked (rejected user)⟩ := by
  have recorded : (sample.recordAll .tagged .marked [rejected user]).file =
      (sample.file.write .tagged 0 .healthy (line .marked (rejected user))).1 := by
    simp [recordAll, LogEngine.record, sample, new, rejected]
  have on : sample.file.ce.enabled = true := rfl
  rw [recorded, AuditFile.write, if_pos on]
  simp only [AuditFile.append, RecordFates.healthy, Fault.cut, Option.isNone_none]
  rw [← RecordFates.healthy, writeRecord_first _ rfl, List.append_assoc]
  rfl

theorem length_le_line (user : Bytes) : user.length ≤ (line .marked (rejected user)).length := by
  have text : (entryOf .marked 0 .authFailure [] [⟨.user, .str user⟩]).record =
      some ⟨[], Utf8.sanitize EventType.authFailure.text, Utf8.sanitize user, [], [], [], []⟩ := rfl
  exact (Utf8.length_le_sanitize user).trans (Codec.user_le_encode text)

theorem large_rejected {user : Bytes} (large : 2 ^ 32 ≤ user.length) :
    ¬ Survives .tagged .marked sampleEngine
      (((sample.recordAll .tagged .marked [rejected user]).file.segments.headD []).drop
        auditFileHeaderLen)
      (sample.handed .tagged .marked [rejected user]) := by
  intro survives
  have handed : sample.handed .tagged .marked [rejected user] =
      [⟨0, line .marked (rejected user)⟩] := rfl
  have long := large.trans (length_le_line user)
  have valid := handed_valid Codec.marked_documented .tagged sample [rejected user]
  rw [handed] at valid
  rw [sample_rejected, AuditFile.head, List.drop_left' (header_length _ _), handed] at survives
  generalize line .marked (rejected user) = p at long valid survives
  have size : (Sealed.blob .tagged sampleEngine ⟨0, p⟩).length = 12 + p.length + 16 :=
    CryptoEngine.encryptInPlace_length Primitives.tagged_lawful _ _ _
  have measured := measured_of_survives Primitives.tagged_lawful rfl (by simp) valid
    Codec.marked_documented survives
  have short := measured [] ⟨0, p⟩ [] rfl (by omega)
  have below := Nat.mod_le (Sealed.blob .tagged sampleEngine ⟨0, p⟩).length (2 ^ 32)
  rw [frame_length, List.flatMap_nil, List.length_nil] at short
  omega

theorem oversize_record_lost :
    ¬ Survives .tagged .marked sampleEngine
      (((sample.recordAll .tagged .marked [rejected (.replicate (2 ^ 32) 97)]).file.segments.headD
        []).drop auditFileHeaderLen)
      (sample.handed .tagged .marked [rejected (.replicate (2 ^ 32) 97)]) :=
  large_rejected (Nat.le_of_eq List.length_replicate.symm)

end LogEngine

end Tellstone.Audit
