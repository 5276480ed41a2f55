import Tellstone.Frontend.Gate
import Tellstone.Lib.Session

/-! Commands that wait in the buffer of a connection. Over TLS a call looks at them only if
there was something to read, and a wake-up may come when there is nothing. -/
namespace Tellstone.Frontend
open ByteStream EventLoop

namespace Tls

def unread (t : Tls) : Bytes := t.input ++ t.records.flatten

def incoming (t : Tls) : Bytes := t.readBuf ++ t.unread

theorem available_eq (t : Tls) : t.available = t.unread.length := by
  simp only [available, unread, List.length_append]

theorem receive_incoming (t : Tls) (a : Arrival) :
    (t.receive a).incoming = t.incoming ++ a.records.flatten := by
  simp [incoming, unread, receive]

theorem dropWhile_isEmpty_flatten (records : List Bytes) :
    (records.dropWhile List.isEmpty).flatten = records.flatten := by
  induction records with
  | nil => rfl
  | cons record records ih =>
    cases record with
    | nil => simpa using ih
    | cons b bytes => rfl

theorem nextRecord_unread (t : Tls) :
    t.nextRecord.1 ++ t.nextRecord.2.flatten = t.unread ∧
      (t.nextRecord.1 = [] → t.unread = [] ∧ t.nextRecord.2 = []) := by
  unfold nextRecord unread
  split
  · rename_i present
    exact ⟨rfl, fun nothing => absurd nothing present⟩
  · rename_i nothing
    have left := dropWhile_isEmpty_flatten t.records
    rw [not_not.mp nothing, List.nil_append, ← left]
    split
    · rename_i none
      rw [none]
      exact ⟨rfl, fun _ => ⟨rfl, rfl⟩⟩
    · rename_i record records next
      rw [next]
      refine ⟨rfl, fun (empty : record = []) => ?_⟩
      have left : t.records.dropWhile List.isEmpty ≠ [] := by simp [next]
      have head := List.head_dropWhile_not List.isEmpty left
      simp only [next, List.head_cons] at head
      rw [empty] at head
      cases head

structure Onward (t t' : Tls) : Prop where
  cap : t'.bufCap = t.bufCap
  ending : t'.ending = t.ending
  stream : t'.incoming = t.incoming
  shaken : t'.handshakeCompleted = (t.handshakeCompleted || t.hello)

theorem Onward.unread {t t' : Tls} (onward : t.Onward t') (same : t'.readBuf = t.readBuf) :
    t'.unread = t.unread := by
  have stream := onward.stream
  rw [incoming, incoming, same] at stream
  exact List.append_cancel_left stream

inductive Filled (t : Tls) : Tls × Bool × Option ReadError → Prop where
  | early (t' : Tls) (same : t'.readBuf = t.readBuf)
      (down : (t.handshakeCompleted || t.hello) = false) : Filled t (t', false, some t.readError)
  | full (t' : Tls) (same : t'.readBuf = t.readBuf) (noRoom : t.readBuf.length = t.bufCap) :
      Filled t (t', false, none)
  | empty (t' : Tls) (same : t'.readBuf = t.readBuf) (room : t.readBuf.length < t.bufCap)
      (nothing : t.unread = []) : Filled t (t', false, some t.readError)
  | data (t' : Tls) (gotSome : Bool) (err : Option ReadError) (got : gotSome = true)
      (room : t.readBuf.length < t.bufCap) (present : t.unread ≠ [])
      (shaken : t'.handshakeCompleted = true)
      (known : err = none ∨ err = some .other ∧ t.ending = .alert) :
      Filled t (t', gotSome, err)

theorem append_nil (t : Tls) : (t.append []).readBuf = t.readBuf := by
  simp [append]

theorem append_stream (t : Tls) (room : Nat) :
    t.readBuf ++ (t.nextRecord.1.take room).take room ++
        (t.nextRecord.1.drop room ++ t.nextRecord.2.flatten) = t.readBuf ++ t.unread := by
  rw [← t.nextRecord_unread.1, List.take_take, Nat.min_self, List.append_assoc,
    ← List.append_assoc (List.take _ _), List.take_append_drop]

theorem fill_onward (t : Tls) : t.Onward t.fill.1 := by
  have stream := t.append_stream (t.bufCap - t.readBuf.length)
  unfold fill read
  simp only
  split
  · exact ⟨rfl, rfl, by simp [append, incoming, unread], rfl⟩
  split
  · exact ⟨rfl, rfl, by simp [append, incoming, unread], rfl⟩
  split
  · rename_i empty
    have none : t.nextRecord.1.take (t.bufCap - t.readBuf.length) = [] := by
      rw [show t.nextRecord.1 = [] from empty, List.take_nil]
    rw [none] at stream
    exact ⟨rfl, rfl, stream, rfl⟩
  split
  · exact ⟨rfl, rfl, stream, rfl⟩
  · exact ⟨rfl, rfl, stream, rfl⟩

theorem fill_filled (t : Tls) : t.Filled t.fill := by
  have fits := t.fits
  unfold fill read
  simp only
  split
  · rename_i down
    exact .early _ (append_nil _) down
  rename_i up
  split
  · rename_i noRoom
    exact .full _ (append_nil _) (by omega)
  rename_i room
  split
  · rename_i nothing
    exact .empty _ (append_nil _) (by omega) (t.nextRecord_unread.2 nothing).1
  rename_i some
  have present : t.unread ≠ [] := by
    intro nothing
    rw [← t.nextRecord_unread.1] at nothing
    exact some (List.append_eq_nil_iff.mp nothing).1
  have got : t.nextRecord.1.take (t.bufCap - t.readBuf.length) ≠ [] := by
    simp only [ne_eq, List.take_eq_nil_iff, not_or]
    exact ⟨room, some⟩
  split
  · rename_i last
    exact .data _ _ _ (decide_eq_true got) (by omega) present (eq_true_of_ne_false up)
      (Or.inr ⟨rfl, last.2.2⟩)
  · exact .data _ _ _ (decide_eq_true got) (by omega) present (eq_true_of_ne_false up) (Or.inl rfl)

def Roomy (grow : Tls → Option Tls) (t : Tls) : Prop :=
  ∃ t' ∈ grow t, t'.readBuf.length < t'.bufCap

end Tls

namespace ConnState

def buffer (st : ConnState) : Bytes := (st.tls.map Tls.readBuf).getD st.inbound

theorem buffer_some {st : ConnState} {t : Tls} (encrypted : st.tls = some t) :
    st.buffer = t.readBuf := by
  rw [buffer, encrypted]
  rfl

theorem discard_buffer (st : ConnState) (n : Nat) : (st.discard n).buffer = st.buffer.drop n := by
  unfold discard buffer
  cases st.tls <;> rfl

def Shaken (st : ConnState) : Prop := ∀ t ∈ st.tls, t.readBuf ≠ [] → t.handshakeCompleted = true

theorem shaken_of_plaintext {st : ConnState} (plaintext : st.tls = none) : st.Shaken := by
  intro t here
  cases plaintext.symm.trans here

def Clear (complete : Bytes → Bool) (st : ConnState) : Prop :=
  st.authPending = true ∨ complete st.buffer = false

theorem opened_clear {complete : Bytes → Bool} (empty : complete [] = false) (remoteAddr : Bytes)
    (tls authenticated : Bool) (session : Option Rbac.SessionContext) :
    (opened remoteAddr tls authenticated session).Shaken ∧
      (opened remoteAddr tls authenticated session).Clear complete := by
  cases tls with
  | false => exact ⟨nofun, Or.inr empty⟩
  | true =>
    refine ⟨?_, Or.inr empty⟩
    rintro t ⟨⟩ some
    exact absurd rfl some

/-- A complete command waits in the buffer for nothing, and there is nothing to read. -/
def Stranded (complete : Bytes → Bool) (grow : Tls → Option Tls) (st : ConnState) : Prop :=
  st.authPending = false ∧
    ∃ t ∈ st.tls, complete t.readBuf = true ∧ t.unread = [] ∧ t.ending = .quiet ∧ t.Roomy grow

theorem Clear.not_stranded {complete : Bytes → Bool} {grow : Tls → Option Tls} {st : ConnState}
    (clear : st.Clear complete) : ¬st.Stranded complete grow := by
  rintro ⟨idle, t, encrypted, waits, -⟩
  have here : st.buffer = t.readBuf := buffer_some encrypted
  rcases clear with pending | nothing
  · exact Bool.false_ne_true (idle.symm.trans pending)
  · rw [here] at nothing
    exact Bool.false_ne_true (nothing.symm.trans waits)

end ConnState

section
variable {σ φ : Type}

theorem Pass.turn_none {p : Pass σ φ} {t : Tls} {serve : Pass σ φ → Tls → Pass σ φ × Action}
    {goOn : Pass σ φ → Pass σ φ × Action} (none : (p.turn t serve goOn).2 = .none) :
    ∃ q, (t.fill.2.1 = true ∧ serve (p.withTls t.fill.1) t.fill.1 = (q, .none) ∨
        t.fill.2.1 = false ∧ q = p.withTls t.fill.1) ∧
      (t.fill.2.2 = some .notEnough ∧ p.turn t serve goOn = (q, .none) ∨
        t.fill.2.2 = Option.none ∧ p.turn t serve goOn = goOn q) := by
  unfold Pass.turn at none ⊢
  simp only at none ⊢
  generalize served : (if t.fill.2.1 then serve (p.withTls t.fill.1) t.fill.1
    else (p.withTls t.fill.1, Action.none)) = s at none ⊢
  obtain ⟨q, action⟩ := s
  by_cases stays : action = .none
  · subst stays
    rw [if_neg (by simp)] at none ⊢
    refine ⟨q, ?_, ?_⟩
    · split at served
      · rename_i gotSome
        exact Or.inl ⟨gotSome, served⟩
      · rename_i nothing
        cases served
        exact Or.inr ⟨eq_false_of_ne_true nothing, rfl⟩
    · cases err : t.fill.2.2 with
      | none => exact Or.inr ⟨rfl, rfl⟩
      | some e =>
        rw [err] at none
        cases e with
        | notEnough => exact Or.inl ⟨rfl, rfl⟩
        | other => cases none
  · rw [if_pos stays] at none
    exact absurd none stays

theorem Pass.turn_nothing {p : Pass σ φ} {t : Tls} (serve : Pass σ φ → Tls → Pass σ φ × Action)
    (goOn : Pass σ φ → Pass σ φ × Action) (nothing : t.fill.2 = (false, some .notEnough)) :
    p.turn t serve goOn = (p.withTls t.fill.1, .none) := by
  simp [Pass.turn, nothing]

theorem Pass.withTls_unread {p : Pass σ φ} {t u : Tls} (encrypted : p.state.tls = some t)
    (shaken : p.state.Shaken) (same : u.readBuf = t.readBuf)
    (up : u.handshakeCompleted = (t.handshakeCompleted || t.hello)) :
    (p.withTls u).state.Shaken ∧ (p.withTls u).state.buffer = p.state.buffer := by
  constructor
  · rintro _ ⟨⟩ some
    rw [up, shaken t encrypted (same ▸ some)]
    rfl
  · rw [ConnState.buffer_some encrypted, ← same]
    rfl

/-- A loop of turns, each behind `grow`, in which `serve` leaves no complete command. -/
structure Loops (complete : Bytes → Bool) (grow : Tls → Option Tls)
    (serve : Pass σ φ → Tls → Pass σ φ × Action) (loop : Nat → Pass σ φ → Pass σ φ × Action) :
    Prop where
  empty : complete [] = false
  spent : ∀ p, (loop 0 p).2 = .halt
  refused : ∀ fuel p t, p.state.tls = some t → grow t = none → (loop (fuel + 1) p).2 ≠ .none
  turns : ∀ fuel p t t', p.state.tls = some t → grow t = some t' →
    loop (fuel + 1) p = p.turn t' serve (loop fuel)
  grows : ∀ t t', grow t = some t' → ∃ cap fits positive,
    t' = { t with bufCap := cap, fits := fits, positive := positive }
  cramped : ∀ t t' (u : Tls), grow t = some t' → t'.readBuf.length = t'.bufCap → u.readBuf = t'.readBuf →
    u.bufCap = t'.bufCap → ¬u.Roomy grow
  serves : ∀ p t q, p.state.tls = some t → p.state.Open → serve p t = (q, .none) →
    q.state.Open ∧ q.state.Clear complete ∧
      ∃ t', q.state.tls = some t' ∧ t'.handshakeCompleted = t.handshakeCompleted

namespace Loops

variable {complete : Bytes → Bool} {grow : Tls → Option Tls}
  {serve : Pass σ φ → Tls → Pass σ φ × Action} {loop : Nat → Pass σ φ → Pass σ φ × Action}
  (loops : Loops complete grow serve loop)
include loops

theorem shaken {p : Pass σ φ} {t : Tls} (encrypted : p.state.tls = some t)
    (shaken : p.state.Shaken) (waits : complete t.readBuf = true) : t.handshakeCompleted = true := by
  refine shaken t encrypted fun nothing => ?_
  rw [nothing, loops.empty] at waits
  cases waits

theorem clears {fuel : Nat} {p : Pass σ φ} {t : Tls} (encrypted : p.state.tls = some t)
    (unmarked : p.state.Open) (shaken : p.state.Shaken) (none : (loop fuel p).2 = .none) :
    (loop fuel p).1.state.Shaken ∧
      ((loop fuel p).1.state.Clear complete ∨ p.state.Stranded complete grow) := by
  induction fuel generalizing p t with
  | zero =>
    rw [loops.spent] at none
    cases none
  | succ fuel ih =>
    cases grown : grow t with
    | none => exact absurd none (loops.refused fuel p t encrypted grown)
    | some t' =>
      rw [loops.turns fuel p t t' encrypted grown] at none ⊢
      obtain ⟨q, served, on⟩ := Pass.turn_none none
      have room : t'.readBuf.length < t'.bufCap → t.Roomy grow := fun less => ⟨t', grown, less⟩
      have cramped := loops.cramped t t'
      have still (u : Tls) : (p.withTls u).state.Open := ⟨unmarked.stays, unmarked.plain⟩
      have filled := t'.fill_filled
      have onward := t'.fill_onward
      generalize t'.fill = r at filled onward served on
      obtain ⟨cap, fits, positive, rfl⟩ := loops.grows t t' grown
      cases filled with
      | early u same down =>
        obtain ⟨got, -⟩ | ⟨-, rfl⟩ := served
        · cases got
        obtain ⟨shaken', kept⟩ := Pass.withTls_unread encrypted shaken same onward.shaken
        obtain ⟨-, done⟩ | ⟨goesOn, -⟩ := on
        · rw [done]
          refine ⟨shaken', Or.inl (Or.inr (eq_false_of_ne_true fun waits => ?_))⟩
          rw [kept, ConnState.buffer_some encrypted] at waits
          have up := loops.shaken encrypted shaken waits
          exact Bool.false_ne_true ((Bool.or_eq_false_iff.mp down).1.symm.trans up)
        · cases goesOn
      | full u same noRoom =>
        obtain ⟨got, -⟩ | ⟨-, rfl⟩ := served
        · cases got
        obtain ⟨shaken', kept⟩ := Pass.withTls_unread encrypted shaken same onward.shaken
        obtain ⟨err, -⟩ | ⟨-, goesOn⟩ := on
        · cases err
        · rw [goesOn] at none ⊢
          obtain ⟨after, clear | ⟨-, t'', ⟨⟩, -, -, -, some⟩⟩ := ih rfl (still u) shaken' none
          · exact ⟨after, Or.inl clear⟩
          · exact absurd some (cramped u grown noRoom same onward.cap)
      | empty u same less nothing =>
        obtain ⟨got, -⟩ | ⟨-, rfl⟩ := served
        · cases got
        obtain ⟨shaken', kept⟩ := Pass.withTls_unread encrypted shaken same onward.shaken
        obtain ⟨err, done⟩ | ⟨goesOn, -⟩ := on
        · rw [done]
          refine ⟨shaken', or_iff_not_imp_left.mpr fun waits => ?_⟩
          obtain ⟨idle, waits⟩ := not_or.mp waits
          rw [kept, ConnState.buffer_some encrypted] at waits
          refine ⟨eq_false_of_ne_true idle, t, encrypted, eq_true_of_ne_false waits, nothing, ?_,
            room less⟩
          by_contra more
          rw [Tls.readError, if_neg more] at err
          cases err
        · cases goesOn
      | data u gotSome err got less present up known =>
        obtain ⟨-, serves⟩ | ⟨nothing, -⟩ := served
        · obtain ⟨open', clear, t'', there, same⟩ := loops.serves _ u q rfl (still u)
            serves
          obtain ⟨err', -⟩ | ⟨-, goesOn⟩ := on
          · rcases known with rfl | ⟨rfl, -⟩ <;> cases err'
          · rw [goesOn] at none ⊢
            have shaken' : q.state.Shaken := by
              intro v here _
              cases there.symm.trans here
              exact same.trans up
            obtain ⟨after, clear' | stranded⟩ := ih there open' shaken' none
            · exact ⟨after, Or.inl clear'⟩
            · exact absurd stranded clear.not_stranded
        · exact absurd (nothing.symm.trans got) Bool.false_ne_true

theorem strands (fuel : Nat) {p : Pass σ φ} (shaken : p.state.Shaken)
    (stranded : p.state.Stranded complete grow) :
    (loop (fuel + 1) p).2 = .none ∧ (loop (fuel + 1) p).1.state.authPending = false ∧
      (loop (fuel + 1) p).1.state.buffer = p.state.buffer ∧
      (loop (fuel + 1) p).1.state.available = 0 := by
  obtain ⟨idle, t, encrypted, waits, nothing, quiet, t', grown, less⟩ := stranded
  have up := loops.shaken encrypted shaken waits
  have onward := t'.fill_onward
  have filled := t'.fill_filled
  have turn (err : t'.fill.2 = (false, some .notEnough)) :=
    Pass.turn_nothing (p := p) serve (loop fuel) err
  rw [loops.turns fuel p t t' encrypted grown]
  obtain ⟨cap, fits, positive, rfl⟩ := loops.grows t t' grown
  generalize Tls.fill _ = r at filled onward turn
  cases filled with
  | early u same down =>
    exact absurd ((Bool.or_eq_false_iff.mp down).1.symm.trans up) Bool.false_ne_true
  | full u same noRoom => exact absurd less (Nat.not_lt.mpr (Nat.le_of_eq noRoom.symm))
  | data u gotSome err got less present up known => exact absurd nothing present
  | empty u same less nothing =>
    rw [turn (by rw [Tls.readError, if_pos quiet])]
    refine ⟨rfl, idle, (Pass.withTls_unread encrypted shaken same onward.shaken).2, ?_⟩
    have spent : u.unread = [] := (onward.unread same).trans nothing
    have left : (p.withTls u).state.available = u.available := rfl
    rw [left, Tls.available_eq, spent]
    rfl

end Loops

abbrev Happening (σ : Type) := Event (Io σ) (Option Rbac.Claims) (Core σ)

abbrev Session (σ : Type) := Life (Io σ) (Option Rbac.Claims) (Core σ)

abbrev Sight (σ φ : Type) := Obs ConnState (Entry σ φ) AuthJob Verdict

def dispatched (seen : List (Sight σ φ)) : List φ :=
  seen.filterMap fun
    | .did (.served _ e) => some e.frame
    | _ => none

theorem dispatched_append (seen log : List (Sight σ φ)) :
    dispatched (seen ++ log) = dispatched seen ++ dispatched log :=
  List.filterMap_append

def sights (st : ConnState) (core : Core σ) (frame : φ) (d : Dispatched σ) : List (Sight σ φ) :=
  .did (.served st ⟨frame, d.kind, core, d.core⟩) ::
    d.job.toList.map fun job => .did (.submitted st job)

theorem dispatched_sights (st : ConnState) (core : Core σ) (frame : φ) (d : Dispatched σ) :
    dispatched (sights st core frame d) = [frame] := by
  simp only [dispatched, sights, List.filterMap_cons]
  cases d.job <;> rfl

theorem Pass.sights_take (p : Pass σ φ) (core : Core σ) (frame : φ) (d : Dispatched σ) :
    (p.take core frame d).log.map Obs.did = p.log.map .did ++ sights p.state core frame d := by
  simp only [Pass.take, sights, List.map_append, List.map_cons, List.map_map, Function.comp_def]

/-- A front end that serves the complete commands of a buffer whenever it has read something. -/
structure Drains (f : FrontEnd σ φ) (complete : Bytes → Bool) (grow : Tls → Option Tls) : Prop where
  one : f.listener.OneAtATime ConnState.authPending
  opened : ∀ io core, (f.onOpen io core).Open ∧ (f.onOpen io core).Shaken ∧
    (f.onOpen io core).Clear complete
  traffic : ∀ {io core st}, st.Open → st.Shaken → (f.onTraffic io core st).action = .none →
    (f.onTraffic io core st).state.Open ∧ (f.onTraffic io core st).state.Shaken ∧
      ((f.onTraffic io core st).state.Clear complete ∨ st.Stranded complete grow)
  strands : ∀ io core {st}, st.Shaken → st.Stranded complete grow →
    (f.onTraffic io core st).action = .none ∧
      (f.onTraffic io core st).state.authPending = false ∧
      (f.onTraffic io core st).state.buffer = st.buffer ∧
      (f.onTraffic io core st).state.available = 0

theorem Guarded.stays_open {f : FrontEnd σ φ} {opensUp : Core σ → Prop}
    {passwordless : Core σ → φ → Prop} {verifies : Core σ → φ → AuthJob → Prop}
    {dispatch : Moment σ → ConnState → Core σ → φ → Dispatched σ}
    (guarded : Guarded f opensUp passwordless verifies dispatch) {io : Io σ} {core : Core σ}
    {st : ConnState} (unmarked : st.Open) (none : (f.onTraffic io core st).action = .none) :
    (f.onTraffic io core st).state.Open := by
  obtain ⟨r, leads, same⟩ := guarded.traffic io core st
  rw [same] at none ⊢
  exact leads.stays none unmarked

/-- A connection with no tasks, no pending verification and nothing to read has no complete
command in its buffer. -/
def NothingStranded (f : FrontEnd σ φ) (complete : Bytes → Bool) (l : Session σ) : Prop :=
  ∀ n, ∀ c ∈ (l.upTo n).conn f.listener, c.state.authPending = false → c.tasks = [] →
    c.state.available = 0 → complete c.state.buffer = false

/-- The last wake-up does not find a complete command in the TLS buffer with nothing behind it. -/
def WakesToRead (complete : Bytes → Bool) (grow : Tls → Option Tls) (id : Nat)
    (w : World (Core σ) ConnState AuthJob Verdict) : Happening σ → Prop
  | .task k _ => k = id → ∀ c ∈ w.conns id, c.tasks = [.wake] → ¬c.state.Stranded complete grow
  | _ => True

/-- A connection that is to be closed, that has a task to run, or that left no command. -/
def Attended (complete : Bytes → Bool) (c : Conn ConnState AuthJob Verdict) : Prop :=
  c.closes = true ∨
    c.state.Open ∧ c.state.Shaken ∧ (c.tasks ≠ [] ∨ c.state.Clear complete)

theorem callback_kept (access : Access) (reply : Bool → Bytes) (io : Io σ) (core : Core σ)
    (st : ConnState) (job : AuthJob) (v : Verdict) :
    (callback access reply io core st job v).state.tls = st.tls ∧
      (callback access reply io core st job v).state.upgradeTLS = st.upgradeTLS ∧
      (callback access reply io core st job v).state.inbound = st.inbound := by
  unfold callback settleAuth authFailed
  simp only
  split <;> split <;> exact ⟨rfl, rfl, rfl⟩

namespace Drains

variable {f : FrontEnd σ φ} {complete : Bytes → Bool} {grow : Tls → Option Tls}

theorem receive_open {st : ConnState} (a : Arrival) (unmarked : st.Open) (shaken : st.Shaken) :
    (st.receive a).Open ∧ (st.receive a).Shaken := by
  cases encrypted : st.tls with
  | none =>
    simp only [ConnState.receive, encrypted]
    exact ⟨⟨unmarked.stays, unmarked.plain⟩, nofun⟩
  | some t =>
    simp only [ConnState.receive, encrypted]
    refine ⟨⟨unmarked.stays, unmarked.plain⟩, ?_⟩
    rintro _ ⟨⟩
    exact shaken t encrypted

theorem receive_stranded {st : ConnState} {a : Arrival}
    (stranded : (st.receive a).Stranded complete grow) : ¬st.Clear complete := by
  cases encrypted : st.tls with
  | none =>
    simp only [ConnState.receive, encrypted] at stranded
    obtain ⟨-, t, here, -⟩ := stranded
    cases here
  | some t =>
    simp only [ConnState.receive, encrypted] at stranded
    obtain ⟨idle, _, ⟨⟩, waits, -⟩ := stranded
    rintro (pending | nothing)
    · exact Bool.false_ne_true (idle.symm.trans pending)
    · rw [ConnState.buffer_some encrypted] at nothing
      exact Bool.false_ne_true (nothing.symm.trans waits)

theorem attended_callback {st : ConnState} (unmarked : st.Open) (shaken : st.Shaken)
    (access : Access) (reply : Bool → Bytes) (io : Io σ) (core : Core σ) (job : AuthJob) (v : Verdict)
    (tasks : List (Task AuthJob Verdict)) :
    let f := callback access reply io core st job v
    Attended complete ⟨f.state, tasks ++ [Task.after f.closes]⟩ := by
  obtain ⟨tls, plain, -⟩ := callback_kept access reply io core st job v
  have closing := callback_closes access reply io core st job v
  intro f
  cases closes : f.closes with
  | true => exact Or.inl (List.any_append.trans (Bool.or_eq_true_iff.mpr (Or.inr rfl)))
  | false =>
    refine Or.inr ⟨⟨?_, plain.trans unmarked.plain⟩, fun t here => ?_, Or.inl (by simp)⟩
    · by_contra marked
      exact Bool.false_ne_true (closes.symm.trans (closing (eq_true_of_ne_false marked)))
    · exact shaken t (tls.symm.trans here)

theorem attended_left (drains : Drains f complete grow) {io : Io σ} {core : Core σ}
    {st : ConnState} {tasks : List (Task AuthJob Verdict)}
    (before : tasks.any Task.isClose = true ∨ st.Open ∧ st.Shaken)
    (calm : tasks = [] → ¬st.Stranded complete grow) :
    ∀ c ∈ (f.listener.traffic io core st).left tasks, Attended complete c := by
  intro c here
  obtain ⟨stays, rfl⟩ := Served.mem_left here
  rcases before with closes | ⟨unmarked, shaken⟩
  · exact Or.inl closes
  · obtain ⟨open', shaken', clear | stranded⟩ := drains.traffic unmarked shaken stays
    · exact Or.inr ⟨open', shaken', Or.inr clear⟩
    · exact Or.inr ⟨open', shaken', Or.inl fun last => calm last stranded⟩

theorem turn (drains : Drains f complete grow) {w : World (Core σ) ConnState AuthJob Verdict}
    {id : Nat} {ev : Happening σ} (reads : WakesToRead complete grow id w ev)
    (attended : ∀ c ∈ w.conns id, Attended complete c)
    {conn : Option (Conn ConnState AuthJob Verdict)}
    {log : List (Obs ConnState (Entry σ φ) AuthJob Verdict)}
    (turn : w.Turn f.listener id ev conn log) : ∀ c ∈ conn, Attended complete c := by
  cases turn with
  | idle unread => exact attended
  | refused io gone => exact fun _ here => by cases here
  | readable io c there =>
    apply drains.attended_left
    · rcases attended c there with closes | ⟨unmarked, shaken, -⟩
      · exact Or.inl closes
      · exact Or.inr (receive_open io.arrival unmarked shaken)
    · intro last stranded
      rcases attended c there with closes | ⟨-, -, tasks | clear⟩
      · rw [Conn.closes, last] at closes
        cases closes
      · exact tasks last
      · exact receive_stranded stranded clear
  | wake io c tasks there first =>
    apply drains.attended_left
    · rcases attended c there with closes | ⟨unmarked, shaken, -⟩
      · rw [Conn.closes, first] at closes
        exact Or.inl closes
      · exact Or.inr ⟨unmarked, shaken⟩
    · intro last
      exact reads rfl c there (by rw [first, last])
  | broken io c job v tasks there first ends => exact fun _ here => by cases here
  | finish io c job v tasks there first stays =>
    rintro _ ⟨⟩
    rcases attended c there with closes | ⟨unmarked, shaken, -⟩
    · rw [Conn.closes, first] at closes
      exact Or.inl (List.any_append.trans (Bool.or_eq_true_iff.mpr (Or.inl closes)))
    · obtain ⟨open', shaken', -⟩ := drains.traffic unmarked shaken stays
      exact attended_callback open' shaken' f.access f.reply io _ job v tasks
  | closed io c tasks there first => exact fun _ here => by cases here
  | verified i job oracle c there busy =>
    rintro _ ⟨⟩
    rcases attended c there with closes | ⟨unmarked, shaken, -⟩
    · exact Or.inl (List.any_append.trans (Bool.or_eq_true_iff.mpr (Or.inl closes)))
    · exact Or.inr ⟨unmarked, shaken, Or.inl (by simp)⟩
  | expire c there =>
    rintro _ ⟨⟩
    exact Or.inl (List.any_append.trans (Bool.or_eq_true_iff.mpr (Or.inr rfl)))
  | hangup => exact fun _ here => by cases here

theorem attended (drains : Drains f complete grow) (l : Session σ)
    (reads : (l.accepted f.listener).Along f.listener
      (WakesToRead complete grow (l.id f.listener)) l.events) :
    ∀ c ∈ l.conn f.listener, Attended complete c := by
  refine (l.follows drains.one (fun _ _ conn => ∀ c ∈ conn, Attended complete c) ?_ ?_ reads).1
  · rintro _ ⟨⟩
    obtain ⟨unmarked, shaken, clear⟩ := drains.opened l.input (l.first f.listener).backend
    exact Or.inr ⟨unmarked, shaken, Or.inr clear⟩
  · intro w events seen ev conn log _ now before step
    exact drains.turn now before step

theorem nothingStranded_iff (drains : Drains f complete grow) (l : Session σ) :
    NothingStranded f complete l ↔ (l.accepted f.listener).Along f.listener
      (WakesToRead complete grow (l.id f.listener)) l.events := by
  constructor
  · intro nothing
    rw [Life.along_iff]
    intro n
    induction n using Nat.strong_induction_on with
    | _ n ih =>
      intro ev here
      cases ev with
      | task k io =>
        rintro rfl c there last stranded
        obtain closes | ⟨-, shaken, -⟩ := drains.attended (l.upTo n) (Life.upTo_along ih) c there
        · rw [Conn.closes, last] at closes
          cases closes
        -- The wake-up leaves the command where it is, and nothing else will come for it.
        obtain ⟨stays, idle, same, read⟩ := drains.strands io
          ((l.upTo n).last f.listener).backend shaken stranded
        have next : (l.upTo (n + 1)).conn f.listener =
            some ⟨(f.onTraffic io ((l.upTo n).last f.listener).backend c.state).state, []⟩ := by
          rw [Life.conn, Life.upTo_succ here]
          exact (World.step_wake f.listener there last io).trans (if_pos stays)
        have clear := nothing (n + 1) _ next idle rfl read
        obtain ⟨-, t, encrypted, waits, -⟩ := stranded
        rw [same, ConnState.buffer_some encrypted] at clear
        exact Bool.false_ne_true (clear.symm.trans waits)
      | _ => trivial
  · intro reads n c here idle done _
    have before := Life.upTo_along (fun m (_ : m < n) => Life.along_iff.mp reads m)
    rcases drains.attended (l.upTo n) before c here with
      closes | ⟨-, -, tasks | pending | nothing⟩
    · rw [Conn.closes, done] at closes
      cases closes
    · exact absurd done tasks
    · exact absurd (idle.symm.trans pending) Bool.false_ne_true
    · exact nothing

end Drains

end

end Tellstone.Frontend
