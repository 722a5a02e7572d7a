import MuduoServer.ConnectorSockets

/-!
One iteration of `EventLoop::loop` with its list of active channels. The list is fixed
before any callback runs, and each callback may call into the library. The connectors are
those of `Connector.cc`; what the assertion of `EventLoop::removeChannel` asks about a
connector's channel is read off the list. The connectors outlive the loop here.
-/
namespace MuduoServer

open FaultMachine

/-- A connector's channel goes by its socket. The others are those of the timers, of the
acceptors and of the wakeup descriptor, which are never removed. -/
inductive ChannelId
  | connector (k sockfd : ℕ)
  | connection (n : ℕ)
  | other (n : ℕ)
  deriving DecidableEq

inductive ChannelCallback
  | closeCallback_
  | errorCallback_
  | readCallback_
  | writeCallback_
  deriving DecidableEq

namespace ChannelId

def isSet : ChannelId → ChannelCallback → Bool
  | .connector _ _, .errorCallback_ | .connector _ _, .writeCallback_ => true
  | .connector _ _, .closeCallback_ | .connector _ _, .readCallback_ => false
  | .connection _, _ => true
  | .other _, .readCallback_ => true
  | .other _, _ => false

def select (p : Prop) [Decidable p] (cb : ChannelCallback) : List ChannelCallback :=
  if p then [cb] else []

open Poll in
/-- The callbacks that `handleEventWithGuard` invokes, in this order. -/
def callbacks (ch : ChannelId) (revents : Finset Poll) : List ChannelCallback :=
  (select (POLLHUP ∈ revents ∧ POLLIN ∉ revents) .closeCallback_ ++
    select (POLLERR ∈ revents ∨ POLLNVAL ∈ revents) .errorCallback_ ++
    select (POLLIN ∈ revents ∨ POLLPRI ∈ revents ∨ POLLRDHUP ∈ revents) .readCallback_ ++
    select (POLLOUT ∈ revents) .writeCallback_).filter ch.isSet

/-- A connector sets the error and the write callback. -/
theorem callbacks_connector (k sockfd : ℕ) (revents : Finset Poll) :
    (ChannelId.connector k sockfd).callbacks revents =
      select (.POLLERR ∈ revents ∨ .POLLNVAL ∈ revents) .errorCallback_ ++
        select (.POLLOUT ∈ revents) .writeCallback_ := by
  have hnone : ∀ (p : Prop) [Decidable p] (cb : ChannelCallback),
      (ChannelId.connector k sockfd).isSet cb = false →
      (select p cb).filter (ChannelId.connector k sockfd).isSet = [] := by
    intro p hp cb hcb
    unfold select
    split
    · simp [hcb]
    · rfl
  have hall : ∀ (p : Prop) [Decidable p] (cb : ChannelCallback),
      (ChannelId.connector k sockfd).isSet cb = true →
      (select p cb).filter (ChannelId.connector k sockfd).isSet = select p cb := by
    intro p hp cb hcb
    unfold select
    split
    · simp [hcb]
    · rfl
  simp only [callbacks, List.filter_append, hnone _ .closeCallback_ rfl,
    hall _ .errorCallback_ rfl, hnone _ .readCallback_ rfl, hall _ .writeCallback_ rfl,
    List.nil_append, List.append_nil]

end ChannelId

/-- The functors that remove channels or register them. -/
inductive LoopFunctor
  | startInLoop (k : ℕ)
  | stopInLoop (k : ℕ)
  | connectDestroyed (n : ℕ)
  deriving DecidableEq

/-- `rest` are the active channels still to come, and `calls` the callbacks of the current
one still to come; `inCallback` says that user code runs. `removed` are the channels that
were removed since the last `poll`. -/
structure ActiveLoop where
  connectors : ℕ → Connector
  connections : List ℕ
  activeChannels_ : List ChannelId
  rest : List (ChannelId × Finset Poll)
  currentActiveChannel_ : Option ChannelId
  calls : List ChannelCallback
  inCallback : Bool
  eventHandling_ : Bool
  pendingFunctors_ : List LoopFunctor
  removed : List ChannelId

inductive ActiveStep
  | poll (active : List (ChannelId × Finset Poll))
  | next
  | callback (soError : ℕ) (selfConnect : Bool)
  | endOfEvents
  | start (k : ℕ) (result : ConnectResult)
  | stop (k : ℕ)
  | restart (k : ℕ) (result : ConnectResult)
  | startInLoop (k delay : ℕ) (result : ConnectResult)
  | newConnection (n : ℕ)
  | queueInLoop (f : LoopFunctor)
  | runFunctor (f : LoopFunctor) (result : ConnectResult)
  | resetChannel (k : ℕ)

namespace ActiveLoop

def new : ActiveLoop :=
  { connectors := fun _ => Connector.new
    connections := []
    activeChannels_ := []
    rest := []
    currentActiveChannel_ := none
    calls := []
    inCallback := false
    eventHandling_ := false
    pendingFunctors_ := []
    removed := [] }

/-- What `EventLoop::removeChannel` asserts. -/
def MayRemove (s : ActiveLoop) (ch : ChannelId) : Prop :=
  s.eventHandling_ = true → s.currentActiveChannel_ = some ch ∨ ch ∉ s.activeChannels_

instance (s : ActiveLoop) (ch : ChannelId) : Decidable (s.MayRemove ch) :=
  inferInstanceAs (Decidable (_ → _))

/-- Where the channel of the connector `k` is in the iteration. -/
def activity (s : ActiveLoop) (k : ℕ) : Activity :=
  match (s.connectors k).channel_ with
  | none => .idle
  | some sockfd =>
      if s.eventHandling_ = false ∨ .connector k sockfd ∉ s.activeChannels_ then .idle
      else if s.currentActiveChannel_ = some (.connector k sockfd) then .handling
      else if .connector k sockfd ∈ s.rest.map Prod.fst then .waiting
      else .handled

def view (s : ActiveLoop) (k : ℕ) : Connector := { s.connectors k with activity := s.activity k }

/-- The channels that have left the poller. -/
def left (c c' : Connector) : List ℕ := c.poller.filter (· ∉ c'.poller)

/-- A member function of the connector `k` runs in the loop thread. -/
def call (s : ActiveLoop) (k : ℕ) (f : Connector → Except Connector.Fault Connector) :
    Except Connector.Fault ActiveLoop := do
  let c ← f (s.view k)
  pure { s with
    connectors := Function.update s.connectors k c
    removed := s.removed ++ (left (s.connectors k) c).map (.connector k) }

def handle (soError : ℕ) (selfConnect : Bool) :
    ChannelCallback → Connector → Except Connector.Fault Connector
  | .errorCallback_ => Connector.handleError
  | .writeCallback_ => Connector.handleWrite soError selfConnect
  | .closeCallback_ | .readCallback_ => pure

/-- The first callback of `calls`. A connector runs user code in `newConnectionCallback_`
only, every other channel in any callback. -/
def runCallback (s : ActiveLoop) (ch : ChannelId) (cb : ChannelCallback)
    (soError : ℕ) (selfConnect : Bool) : Except Connector.Fault ActiveLoop :=
  match ch with
  | .connector k _ => do
      let t ← s.call k (handle soError selfConnect cb)
      pure { t with inCallback := (t.connectors k).handed ≠ (s.connectors k).handed }
  | .connection _ | .other _ => pure { s with inCallback := true }

/-- `TcpConnection::connectDestroyed` as far as the channel goes. -/
def connectDestroyed (s : ActiveLoop) (n : ℕ) : Except Connector.Fault ActiveLoop := do
  check (s.MayRemove (.connection n)) .activeChannel
  check (n ∈ s.connections) .unknownToPoller
  pure { s with
    connections := s.connections.erase n
    removed := s.removed ++ [.connection n] }

/-- What `start` and `stop` do in another thread before they queue. -/
def announce (s : ActiveLoop) : LoopFunctor → ActiveLoop
  | .startInLoop k =>
      { s with connectors :=
          Function.update s.connectors k { s.connectors k with connect_ := true } }
  | .stopInLoop k =>
      { s with connectors :=
          Function.update s.connectors k { s.connectors k with connect_ := false } }
  | .connectDestroyed _ => s

def runFunctor (s : ActiveLoop) (result : ConnectResult) :
    LoopFunctor → Except Connector.Fault ActiveLoop
  | .startInLoop k => s.call k (Connector.startInLoop · result)
  | .stopInLoop k => s.call k Connector.stopInLoop
  | .connectDestroyed n => s.connectDestroyed n

def step (s : ActiveLoop) : ActiveStep → Except Connector.Fault ActiveLoop
  | .poll active => pure { s with
      activeChannels_ := active.map Prod.fst
      rest := active
      currentActiveChannel_ := none
      calls := []
      inCallback := false
      eventHandling_ := true
      removed := [] }
  | .next =>
      match s.rest with
      | [] => pure s
      | (ch, revents) :: rest => pure { s with
          rest := rest
          currentActiveChannel_ := some ch
          calls := ch.callbacks revents
          inCallback := false }
  | .callback soError selfConnect =>
      match s.currentActiveChannel_, s.calls with
      | some ch, cb :: calls => { s with calls := calls }.runCallback ch cb soError selfConnect
      | _, _ => pure s
  | .endOfEvents => pure { s with
      currentActiveChannel_ := none
      inCallback := false
      eventHandling_ := false }
  | .start k result => s.call k (Connector.start · result)
  | .stop k => s.call k Connector.stop
  | .restart k result => s.call k (Connector.restart · result)
  | .startInLoop k delay result =>
      s.call k fun c => { c with timers := c.timers.erase delay }.startInLoop result
  | .newConnection n => pure { s with connections := n :: s.connections }
  | .queueInLoop f => pure { s.announce f with pendingFunctors_ := s.pendingFunctors_ ++ [f] }
  | .runFunctor f result =>
      { s with pendingFunctors_ := s.pendingFunctors_.erase f }.runFunctor result f
  | .resetChannel k => s.call k (fun c => pure c.resetChannel)

def Registered (s : ActiveLoop) : ChannelId → Prop
  | .connector k sockfd => sockfd ∈ (s.connectors k).poller
  | .connection n => n ∈ s.connections
  | .other _ => True

instance (s : ActiveLoop) (ch : ChannelId) : Decidable (s.Registered ch) :=
  match ch with
  | .connector k sockfd => inferInstanceAs (Decidable (sockfd ∈ (s.connectors k).poller))
  | .connection n => inferInstanceAs (Decidable (n ∈ s.connections))
  | .other _ => instDecidableTrue

/-- User code runs in a callback of the iteration, or between two iterations. -/
def UserCode (s : ActiveLoop) : Prop := s.inCallback = true ∨ s.eventHandling_ = false

instance (s : ActiveLoop) : Decidable s.UserCode := inferInstanceAs (Decidable (_ ∨ _))

def Enabled (s : ActiveLoop) : ActiveStep → Prop
  | .poll active => s.eventHandling_ = false ∧ (active.map Prod.fst).Nodup ∧
      ∀ p ∈ active, s.Registered p.1
  | .next => s.eventHandling_ = true ∧ s.calls = [] ∧ s.rest ≠ []
  | .callback _ _ => s.eventHandling_ = true ∧ s.currentActiveChannel_ ≠ none ∧ s.calls ≠ []
  | .endOfEvents => s.eventHandling_ = true ∧ s.calls = [] ∧ s.rest = []
  | .start _ _ | .stop _ | .restart _ _ => s.UserCode
  | .startInLoop k delay _ => s.UserCode ∧ delay ∈ (s.connectors k).timers
  | .newConnection n => s.UserCode ∧ n ∉ s.connections
  | .queueInLoop _ => True
  | .runFunctor f _ => s.eventHandling_ = false ∧ f ∈ s.pendingFunctors_
  | .resetChannel k => s.eventHandling_ = false ∧ 0 < (s.connectors k).resets

instance (s : ActiveLoop) (a : ActiveStep) : Decidable (s.Enabled a) := by
  cases a <;> (simp only [Enabled]; infer_instance)

/-- The connector's part of `handleEventWithGuard` is the callbacks of its channel one after
the other. -/
theorem handleEventWithGuard_eq (soError : ℕ) (selfConnect : Bool) (revents : Finset Poll)
    (k sockfd : ℕ) (c : Connector) :
    Channel.handleEventWithGuard (Connector.callbacks soError selfConnect) revents c =
      ((ChannelId.connector k sockfd).callbacks revents).foldlM
        (fun c cb => handle soError selfConnect cb c) c := by
  have hselect : ∀ (p : Prop) [Decidable p] (cb : ChannelCallback) (c : Connector),
      (ChannelId.select p cb).foldlM (fun c cb => handle soError selfConnect cb c) c =
        Channel.callIf p (handle soError selfConnect cb) c := by
    intro p hp cb c
    unfold ChannelId.select Channel.callIf
    split
    · simp [List.foldlM]
    · rfl
  rw [ChannelId.callbacks_connector, List.foldlM_append, hselect]
  simp only [hselect]
  unfold Channel.handleEventWithGuard
  simp only [Connector.callbacks, Connector.callIf_pure, ok_bind]
  rfl

def machine : Machine ActiveLoop ActiveStep Connector.Fault where
  init s := s = new
  enabled := Enabled
  step := step

instance (s : ActiveLoop) (a : ActiveStep) : Decidable (machine.enabled s a) :=
  inferInstanceAs (Decidable (s.Enabled a))

end ActiveLoop

end MuduoServer
