import Tellstone.Network.Gate
import Tellstone.Resp.Gate

/-! The authentication gate and the limit on failed attempts, for both front ends over the
router and for every run of their event loops. -/
namespace Tellstone
open ByteStream EventLoop Frontend

def Frontend.Access.letMeIn : Access := .password ⟨ascii "pw", by decide⟩

/-- Bcrypt is equality on these servers, and their store is two empty shards. -/
def Resp.Server.sample : Resp.Server Backend where
  store now := routerStore .tagged now .healthy
  access := .letMeIn
  tls := false
  startTLS := false
  compare hash password := decide (hash = password)
  text _ := []
  admin _ _ _ policy := (policy, Resp.respOK)

def Network.Server.sample : Network.Server Backend where
  store now := routerStore .tagged now .healthy
  access := .letMeIn
  tls := false
  maxMsgSize := 1024
  compare hash password := decide (hash = password)
  admin _ := .none

namespace Frontend

def Core.empty : Core Backend := ⟨.empty, .new none 0⟩

def Moment.quiet : Moment Backend := ⟨0, id, false, [], false⟩

def Io.sends (bytes : Bytes) : Io Backend :=
  ⟨[], ⟨bytes, false, [], .quiet⟩, false, fun _ => .quiet, .quiet⟩

abbrev Events (σ : Type) := List (EventLoop.Event (Io σ) (Option Rbac.Claims) (Core σ))

/-- The first connection sends an AUTH, whose verification runs to the end of its callback. -/
def attempt (auth : Bytes) : Events Backend :=
  [.readable 0 (.sends auth), .take, .verified 0 none, .task 0 (.sends [])]

def runNext : Events Backend := [.task 0 (.sends [])]

end Frontend

def Resp.sendAuth (password : String) : Bytes :=
  ascii "*2\r\n$4\r\nAUTH\r\n" ++ appendBulk [] (ascii password)

def Resp.sendGet : Bytes := ascii "*2\r\n$3\r\nGET\r\n$1\r\nk\r\n"

def Network.sendAuth (password : String) : Bytes :=
  write .auth ([0, 0, 0, UInt8.ofNat password.length] ++ ascii password)

def Network.sendGet : Bytes := write .request ([1, 0, 1, 0, 0, 0, 0, 0, 0, 0, 0] ++ ascii "k")

section
variable {σ : Type}

/-- Commands reach the store and the policy only behind the gate, which opens only for a
passwordless default user, an AUTH of a passwordless user, or the verified AUTH of the connection;
on the binary protocol only for the last. -/
theorem authentication_gate (resp : Resp.Server σ) (binary : Network.Server σ)
    (respRestricted : resp.access ≠ .unrestricted)
    (binaryRestricted : binary.access ≠ .unrestricted) (core : Core σ)
    (respEvents binaryEvents : Events σ) :
    GateHolds resp.frontEnd resp.OpensUp resp.Passwordless resp.Verifies
        ((World.start core).run resp.frontEnd.listener respEvents).1
        ((World.start core).run resp.frontEnd.listener respEvents).2 ∧
      GateHolds binary.frontEnd (fun _ => False) (fun _ _ => False) binary.Verifies
        ((World.start core).run binary.frontEnd.listener binaryEvents).1
        ((World.start core).run binary.frontEnd.listener binaryEvents).2 := by
  constructor
  · apply Guarded.gateHolds
    exact Resp.Server.guarded fun _ _ => Resp.Server.onOpen_opensUp respRestricted
  · apply Guarded.gateHolds
    refine Network.Server.guarded fun io core up => ?_
    exact binaryRestricted (of_decide_eq_true up)

end

def reached {φ : Type} (trace : List (Observed Backend φ)) : Nat :=
  trace.countP fun o =>
    match o.2 with
    | .did (.served _ e) => e.kind.gated
    | _ => false

def Frontend.login (auth get : Bytes) : Events Backend :=
  [.accept (.sends [])] ++ attempt auth ++ runNext ++ [.readable 0 (.sends get)]

theorem authentication_gate_login :
    (reached ((World.start .empty).run Resp.Server.sample.frontEnd.listener
        (login (Resp.sendAuth "pw") Resp.sendGet)).2 = 1 ∧
      reached ((World.start .empty).run Network.Server.sample.frontEnd.listener
        (login (Network.sendAuth "pw") Network.sendGet)).2 = 1) ∧
    GateHolds Resp.Server.sample.frontEnd Resp.Server.sample.OpensUp
        Resp.Server.sample.Passwordless Resp.Server.sample.Verifies
        ((World.start .empty).run Resp.Server.sample.frontEnd.listener
          (login (Resp.sendAuth "pw") Resp.sendGet)).1
        ((World.start .empty).run Resp.Server.sample.frontEnd.listener
          (login (Resp.sendAuth "pw") Resp.sendGet)).2 ∧
      GateHolds Network.Server.sample.frontEnd (fun _ => False) (fun _ _ => False)
        Network.Server.sample.Verifies
        ((World.start .empty).run Network.Server.sample.frontEnd.listener
          (login (Network.sendAuth "pw") Network.sendGet)).1
        ((World.start .empty).run Network.Server.sample.frontEnd.listener
          (login (Network.sendAuth "pw") Network.sendGet)).2 :=
  ⟨⟨by decide +kernel, by decide +kernel⟩,
    authentication_gate .sample .sample (by nofun) (by nofun) .empty
      (login (Resp.sendAuth "pw") Resp.sendGet) (login (Network.sendAuth "pw") Network.sendGet)⟩

section
variable {σ : Type}

def HardStop {φ : Type} (f : FrontEnd σ φ) (core : Core σ) (events : Events σ) : Prop :=
  ∀ id n, (id, .did n) ∈ ((World.start core).run f.listener events).2 →
    n.state.authFails < maxAuthFails

/-- The limit holds as long as the event loop runs a queued close before any more traffic of the
connection. -/
theorem failed_auth_limit (resp : Resp.Server σ) (binary : Network.Server σ) (core : Core σ)
    (respEvents binaryEvents : Events σ)
    (respPrompt : (World.start core).Prompt resp.frontEnd.listener respEvents)
    (binaryPrompt : (World.start core).Prompt binary.frontEnd.listener binaryEvents) :
    HardStop resp.frontEnd core respEvents ∧ HardStop binary.frontEnd core binaryEvents := by
  have respGuarded : Guarded resp.frontEnd (fun _ => True) resp.Passwordless resp.Verifies
      resp.dispatch := Resp.Server.guarded fun _ _ _ => trivial
  have binaryGuarded : Guarded binary.frontEnd (fun _ => True) (fun _ _ => False) binary.Verifies
      binary.dispatch := Network.Server.guarded fun _ _ _ => trivial
  constructor
  · intro id n mem
    exact respGuarded.limited respPrompt mem
  · intro id n mem
    exact binaryGuarded.limited binaryPrompt mem

end

/-- What was dispatched beyond the limit, with the job if it was a submission. -/
def beyondLimit {φ : Type} (trace : List (Observed Backend φ)) : List (Option AuthJob) :=
  trace.filterMap fun o =>
    match o.2 with
    | .did n => if maxAuthFails ≤ n.state.authFails then some n.job? else none
    | .finished _ _ _ => none

theorem not_hardStop {φ : Type} {f : FrontEnd Backend φ} {core : Core Backend}
    {events : Events Backend} (beyond : beyondLimit ((World.start core).run f.listener events).2 ≠ []) :
    ¬HardStop f core events := by
  intro stops
  refine beyond (List.filterMap_eq_nil_iff.mpr ?_)
  rintro ⟨id, o⟩ mem
  cases o with
  | did n => exact if_neg (Nat.not_le.mpr (stops id n mem))
  | finished s job v => rfl

/-- Three attempts with a wrong password, and what comes after the callback of the third. -/
def Frontend.stuffing (auth : Bytes) (after : Events Backend) : Events Backend :=
  [.accept (.sends [])] ++ attempt auth ++ runNext ++ attempt auth ++ runNext ++ attempt auth ++ after

theorem failed_auth_limit_prompt :
    ((World.start .empty).Prompt Resp.Server.sample.frontEnd.listener
        (stuffing (Resp.sendAuth "no") (runNext ++ [.readable 0 (.sends (Resp.sendAuth "no"))])) ∧
      (World.start .empty).Prompt Network.Server.sample.frontEnd.listener
        (stuffing (Network.sendAuth "no")
          (runNext ++ [.readable 0 (.sends (Network.sendAuth "no"))]))) ∧
    HardStop Resp.Server.sample.frontEnd .empty
        (stuffing (Resp.sendAuth "no") (runNext ++ [.readable 0 (.sends (Resp.sendAuth "no"))])) ∧
      HardStop Network.Server.sample.frontEnd .empty
        (stuffing (Network.sendAuth "no")
          (runNext ++ [.readable 0 (.sends (Network.sendAuth "no"))])) :=
  ⟨⟨by decide +kernel, by decide +kernel⟩,
    failed_auth_limit .sample .sample .empty _ _ (by decide +kernel)
      (by decide +kernel)⟩

/-- The third callback only queues the close. Traffic that comes first brings a fourth attempt to
the workers. -/
theorem fourth_attempt_before_close :
    (beyondLimit ((World.start .empty).run Resp.Server.sample.frontEnd.listener
        (stuffing (Resp.sendAuth "no") [.readable 0 (.sends (Resp.sendAuth "no"))])).2 =
      [none, some ⟨ascii "no", ascii "pw", ascii "default", ascii "invalid password", none, false⟩] ∧
    beyondLimit ((World.start .empty).run Network.Server.sample.frontEnd.listener
        (stuffing (Network.sendAuth "no") [.readable 0 (.sends (Network.sendAuth "no"))])).2 =
      [none, some ⟨ascii "no", ascii "pw", [], [], none, false⟩]) ∧
    ¬HardStop Resp.Server.sample.frontEnd .empty
        (stuffing (Resp.sendAuth "no") [.readable 0 (.sends (Resp.sendAuth "no"))]) ∧
      ¬HardStop Network.Server.sample.frontEnd .empty
        (stuffing (Network.sendAuth "no") [.readable 0 (.sends (Network.sendAuth "no"))]) := by
  refine ⟨⟨by decide +kernel, by decide +kernel⟩, not_hardStop ?_, not_hardStop ?_⟩
  · decide +kernel
  · decide +kernel

end Tellstone
