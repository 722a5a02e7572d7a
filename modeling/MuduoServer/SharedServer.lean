import MuduoServer.ServerInvariant
import Mathlib.Data.Fintype.Basic

/-!
The connections of a server and who has a `TcpConnectionPtr` to them: the table, the functors
of the loops and threads of the user. A thread that calls `send` or `shutdown` reads `state_`,
may set it, and queues a functor that is bound to the plain `this`. What the threads of the
loops do are the steps of the server system.
-/
namespace MuduoServer

open FaultMachine

namespace ServerFunctor

/-- The `TcpConnectionPtr` that the functor is bound to. -/
def pointer? : ServerFunctor → Option ℕ
  | .connectEstablished i | .removeConnectionInLoop i | .connectDestroyed i => some i
  | .sendInLoop _ _ | .shutdownInLoop _ => none

/-- The plain `this` that the functor is bound to. -/
def this? : ServerFunctor → Option ℕ
  | .sendInLoop i _ | .shutdownInLoop i => some i
  | .connectEstablished _ | .removeConnectionInLoop _ | .connectDestroyed _ => none

end ServerFunctor

/-- Where a thread is inside a call of `send` or `shutdown`. -/
inductive UserCall
  | idle
  | sendSaw (i : ℕ) (data : List UInt8)
  | shutdownSaw (i : ℕ)
  | shutdownSet (i : ℕ)
  deriving DecidableEq

namespace UserCall

def conn? : UserCall → Option ℕ
  | .idle => none
  | .sendSaw i _ | .shutdownSaw i | .shutdownSet i => some i

/-- The functor that the call has still to queue. -/
def functor? : UserCall → Option ServerFunctor
  | .idle | .shutdownSaw _ => none
  | .sendSaw i data => some (.sendInLoop i data)
  | .shutdownSet i => some (.shutdownInLoop i)

end UserCall

/-- `ran` are the functors of the batch that a loop has run; they exist until the batch ends.
`pointers` are the ones that a thread has, with a copy for each. -/
structure SharedServer (L T : Type) where
  sys : ServerSystem L
  ran : L → List ServerFunctor
  pointers : T → List ℕ
  calls : T → UserCall

inductive SharedStep (L T : Type)
  | loop (a : ServerStep L)
  | hold (t : T) (i : ℕ)
  | release (t : T) (i : ℕ)
  | send (t : T) (i : ℕ) (data : List UInt8)
  | shutdown (t : T) (i : ℕ)
  | setState (t : T)
  | queue (t : T)

namespace SharedServer

open ServerSystem (Fault)

variable {L T : Type}

def start (sys : ServerSystem L) : SharedServer L T :=
  { sys := sys
    ran := fun _ => []
    pointers := fun _ => []
    calls := fun _ => .idle }

section Holders
variable (s : SharedServer L T)

/-- The object of the loop is there: a loop of the pool ends with its thread. -/
def Stands (l : L) : Prop := (s.sys.loops l).returned = false ∨ l = s.sys.server.loop_

/-- The functors of loop `l`. -/
def bound (l : L) : List ServerFunctor := s.ran l ++ s.sys.contents l

def Used (i : ℕ) : Prop := ∃ t, i ∈ s.pointers t

def Listed (i : ℕ) : Prop := ∃ e ∈ s.sys.server.connections_.entries, e.2 = i

def Carried (i : ℕ) : Prop := ∃ l, s.Stands l ∧ ∃ f ∈ s.bound l, f.pointer? = some i

/-- Some `TcpConnectionPtr` is left, so the connection has not been destroyed. -/
def Alive (i : ℕ) : Prop := s.Used i ∨ s.Listed i ∨ s.Carried i

/-- A functor of `send` or `shutdown` waits in a loop that goes on. -/
def Waits (l : L) (i : ℕ) : Prop :=
  (s.sys.loops l).returned = false ∧ ∃ f ∈ s.sys.contents l, f.this? = some i

end Holders

variable [DecidableEq L] [DecidableEq T]

def setCall (s : SharedServer L T) (t : T) (call : UserCall) : SharedServer L T :=
  { s with calls := Function.update s.calls t call }

/-- A thread reads `state_`, and goes on with `call` if it is `kConnected`. -/
def test (s : SharedServer L T) (t : T) (i : ℕ) (call : UserCall) :
    Except Fault (SharedServer L T) :=
  match s.sys.conns i with
  | none => .error .noConnection
  | some c => pure (if c.tcp.state_ = .kConnected then s.setCall t call else s)

def setState (s : SharedServer L T) (t : T) : Except Fault (SharedServer L T) :=
  match s.calls t with
  | .shutdownSaw i => do
      let sys ← s.sys.onConn i fun c => pure (c.setState .kDisconnecting)
      pure ({ s with sys := sys }.setCall t (.shutdownSet i))
  | _ => pure s

/-- `loop_->runInLoop` from another thread queues the functor. -/
def queue (s : SharedServer L T) (t : T) : Except Fault (SharedServer L T) :=
  match (s.calls t).functor? with
  | none => pure s
  | some f =>
      match s.sys.conns f.conn with
      | none => .error .noConnection
      | some c => do
          let sys ← s.sys.queueInLoop c.loop_ f
          pure ({ s with sys := sys }.setCall t .idle)

/-- The functors that have run in the batch after a step of a loop's thread. -/
def ranAfter (s : SharedServer L T) : ServerStep L → L → List ServerFunctor
  | .runFunctor l _ => Function.update s.ran l ((s.sys.next? l).toList ++ s.ran l)
  | .finish l => Function.update s.ran l []
  | _ => s.ran

def step (s : SharedServer L T) : SharedStep L T → Except Fault (SharedServer L T)
  | .loop a => do
      let sys ← s.sys.step a
      pure { s with sys := sys, ran := s.ranAfter a }
  | .hold t i => pure { s with pointers := Function.update s.pointers t (i :: s.pointers t) }
  | .release t i => pure { s with pointers := Function.update s.pointers t ((s.pointers t).erase i) }
  | .send t i data => s.test t i (.sendSaw i data)
  | .shutdown t i => s.test t i (.shutdownSaw i)
  | .setState t => s.setState t
  | .queue t => s.queue t

/-- A loop's thread has a pointer while it handles an event, for the channel is tied, and while
the user's code that it runs calls `send` or `shutdown`. -/
def Reached (s : SharedServer L T) : ServerStep L → Prop
  | .handleEvent i _ _ _ | .setHighWaterMarkCallback i _ => s.Alive i
  | .send i inLoop _ _ | .shutdown i inLoop => inLoop = true ∧ s.Alive i
  | .newConnection | .swap _ | .runFunctor _ _ | .finish _ | .quit _ | .destroy | .joined => True

/-- A thread inside a call does nothing else. -/
def Enabled (s : SharedServer L T) : SharedStep L T → Prop
  | .loop a => s.sys.Enabled a ∧ s.Reached a
  | .hold t i => s.calls t = .idle ∧ s.Alive i
  | .release t i | .send t i _ | .shutdown t i => s.calls t = .idle ∧ i ∈ s.pointers t
  | .setState t => ∃ i ∈ (s.calls t).conn?, s.calls t = .shutdownSaw i
  | .queue t => (s.calls t).functor?.isSome

def machine : Machine (SharedServer L T) (SharedStep L T) Fault where
  init s := ∃ sys, ServerSystem.machine.init sys ∧ s = start sys
  enabled := Enabled
  step := step

section Decidable
variable [Fintype L] [Fintype T] (s : SharedServer L T)

instance (l : L) : Decidable (s.Stands l) := inferInstanceAs (Decidable (_ ∨ _))

instance (i : ℕ) : Decidable (s.Used i) := inferInstanceAs (Decidable (∃ t, i ∈ s.pointers t))

instance (i : ℕ) : Decidable (s.Listed i) := inferInstanceAs (Decidable (∃ e ∈ _, _ = i))

instance (i : ℕ) : Decidable (s.Carried i) :=
  inferInstanceAs (Decidable (∃ l, s.Stands l ∧ ∃ f ∈ s.bound l, f.pointer? = some i))

instance (i : ℕ) : Decidable (s.Alive i) := inferInstanceAs (Decidable (_ ∨ _ ∨ _))

instance (l : L) (i : ℕ) : Decidable (s.Waits l i) :=
  inferInstanceAs (Decidable (_ ∧ ∃ f ∈ _, _ = some i))

instance (a : ServerStep L) : Decidable (s.Reached a) :=
  match a with
  | .handleEvent i _ _ _ | .setHighWaterMarkCallback i _ => inferInstanceAs (Decidable (s.Alive i))
  | .send i _ _ _ | .shutdown i _ => inferInstanceAs (Decidable (_ = true ∧ s.Alive i))
  | .newConnection | .swap _ | .runFunctor _ _ | .finish _ | .quit _ | .destroy | .joined =>
      instDecidableTrue

instance (a : SharedStep L T) : Decidable (s.Enabled a) :=
  match a with
  | .loop a => inferInstanceAs (Decidable (s.sys.Enabled a ∧ s.Reached a))
  | .hold t i => inferInstanceAs (Decidable (s.calls t = .idle ∧ s.Alive i))
  | .release t i | .send t i _ | .shutdown t i =>
      inferInstanceAs (Decidable (s.calls t = .idle ∧ i ∈ s.pointers t))
  | .setState t =>
      inferInstanceAs (Decidable (∃ i ∈ (s.calls t).conn?, s.calls t = .shutdownSaw i))
  | .queue t => inferInstanceAs (Decidable ((s.calls t).functor?.isSome = true))

instance (a : SharedStep L T) : Decidable ((machine : Machine (SharedServer L T) _ _).enabled s a) :=
  inferInstanceAs (Decidable (s.Enabled a))

end Decidable

end SharedServer

end MuduoServer
