import MuduoServer.Channel
import Mathlib.Data.Finset.Insert

/-!
`muduo/net/Connector.cc`: connecting to a server and trying again. A socket goes by the
number of its creation and its channel by the same number. What connect(2), `SO_ERROR` and
the comparison of the two addresses give are arguments of the steps. A retry timer and the
owner each hold a `shared_ptr` of the connector; the queued `resetChannel` holds none.
-/
namespace MuduoServer

open FaultMachine

/-- The values of `savedErrno`; `none` is 0. -/
inductive ConnectResult
  | none
  | EINPROGRESS
  | EINTR
  | EISCONN
  | EAGAIN
  | EADDRINUSE
  | EADDRNOTAVAIL
  | ECONNREFUSED
  | ENETUNREACH
  | EACCES
  | EPERM
  | EAFNOSUPPORT
  | EALREADY
  | EBADF
  | EFAULT
  | ENOTSOCK
  | other (errno : ℕ)
  deriving DecidableEq

inductive ConnectorState
  | kDisconnected
  | kConnecting
  | kConnected
  deriving DecidableEq

/-- The connector's channel in the `activeChannels_` of the loop: absent, before, in and
after its `handleEvent`. -/
inductive Activity
  | idle
  | waiting
  | handling
  | handled
  deriving DecidableEq

/-- `poller` has the channels that are registered, `resets` counts the queued
`resetChannel`, and `timers` has the delays of the retry timers that have not expired. -/
structure Connector where
  connect_ : Bool
  state_ : ConnectorState
  channel_ : Option ℕ
  retryDelayMs_ : ℕ
  poller : List ℕ
  activity : Activity
  resets : ℕ
  timers : List ℕ
  sockets : ℕ
  closed : List ℕ
  handed : List ℕ
  owned : Bool
  alive : Bool
  deriving DecidableEq

namespace Connector

def kMaxRetryDelayMs : ℕ := 30 * 1000

def kInitRetryDelayMs : ℕ := 500

/-- All but the last are of the connector and its channel; the last is the assertion of
`EventLoop::removeChannel`. -/
inductive Fault
  | notDisconnected
  | channelInConnecting
  | channelInDestructor
  | writeNotDisconnected
  | errorNotConnecting
  | nullChannel
  | unknownToPoller
  | activeChannel
  deriving DecidableEq

def new : Connector :=
  { connect_ := false
    state_ := .kDisconnected
    channel_ := none
    retryDelayMs_ := kInitRetryDelayMs
    poller := []
    activity := .idle
    resets := 0
    timers := []
    sockets := 0
    closed := []
    handed := []
    owned := true
    alive := true }

def setState (s : Connector) (state : ConnectorState) : Connector := { s with state_ := state }

/-- `sockets::close`. -/
def close (s : Connector) (sockfd : ℕ) : Connector := { s with closed := s.closed ++ [sockfd] }

def retry (s : Connector) (sockfd : ℕ) : Connector :=
  let s := (s.close sockfd).setState .kDisconnected
  if s.connect_ then
    { s with
      timers := s.timers ++ [s.retryDelayMs_]
      retryDelayMs_ := min (s.retryDelayMs_ * 2) kMaxRetryDelayMs }
  else s

def connecting (s : Connector) (sockfd : ℕ) : Except Fault Connector := do
  let s := s.setState .kConnecting
  check (s.channel_ = none) .channelInConnecting
  pure { s with channel_ := some sockfd, poller := s.poller ++ [sockfd] }

/-- The errors are told apart as in the `switch`. -/
def connect (s : Connector) (result : ConnectResult) : Except Fault Connector :=
  let sockfd := s.sockets
  let s := { s with sockets := s.sockets + 1 }
  match result with
  | .none | .EINPROGRESS | .EINTR | .EISCONN => s.connecting sockfd
  | .EAGAIN | .EADDRINUSE | .EADDRNOTAVAIL | .ECONNREFUSED | .ENETUNREACH => pure (s.retry sockfd)
  | .EACCES | .EPERM | .EAFNOSUPPORT | .EALREADY | .EBADF | .EFAULT | .ENOTSOCK =>
      pure (s.close sockfd)
  | .other _ => pure (s.close sockfd)

def startInLoop (s : Connector) (result : ConnectResult) : Except Fault Connector := do
  check (s.state_ = .kDisconnected) .notDisconnected
  if s.connect_ then s.connect result else pure s

def start (s : Connector) (result : ConnectResult) : Except Fault Connector :=
  { s with connect_ := true }.startInLoop result

def restart (s : Connector) (result : ConnectResult) : Except Fault Connector :=
  { s.setState .kDisconnected with
    retryDelayMs_ := kInitRetryDelayMs
    connect_ := true }.startInLoop result

/-- The loop asserts that a channel which is removed by another handler is not active. -/
def removeAndResetChannel (s : Connector) : Except Fault (ℕ × Connector) :=
  match s.channel_ with
  | none => .error .nullChannel
  | some sockfd => do
      check (s.activity = .idle ∨ s.activity = .handling) .activeChannel
      check (sockfd ∈ s.poller) .unknownToPoller
      pure (sockfd, { s with poller := s.poller.erase sockfd, resets := s.resets + 1 })

def stopInLoop (s : Connector) : Except Fault Connector :=
  if s.state_ = .kConnecting then do
    let removed ← (s.setState .kDisconnected).removeAndResetChannel
    pure (removed.2.retry removed.1)
  else pure s

def stop (s : Connector) : Except Fault Connector := { s with connect_ := false }.stopInLoop

/-- The channel is destroyed. -/
def resetChannel (s : Connector) : Connector :=
  { s with channel_ := none, resets := s.resets - 1 }

def handleWrite (soError : ℕ) (selfConnect : Bool) (s : Connector) : Except Fault Connector :=
  if s.state_ = .kConnecting then do
    let removed ← s.removeAndResetChannel
    let sockfd := removed.1
    let s := removed.2
    if soError ≠ 0 then pure (s.retry sockfd)
    else if selfConnect then pure (s.retry sockfd)
    else
      let s := s.setState .kConnected
      if s.connect_ then pure { s with handed := s.handed ++ [sockfd] }
      else pure (s.close sockfd)
  else do
    check (s.state_ = .kDisconnected) .writeNotDisconnected
    pure s

def handleError (s : Connector) : Except Fault Connector := do
  check (s.state_ = .kConnecting) .errorNotConnecting
  let removed ← s.removeAndResetChannel
  pure (removed.2.retry removed.1)

/-- `connecting` sets the write and the error callback only. -/
def callbacks (soError : ℕ) (selfConnect : Bool) : Channel.Callbacks Connector Fault where
  closeCallback_ := pure
  errorCallback_ := handleError
  readCallback_ := pure
  writeCallback_ := handleWrite soError selfConnect

def handleEvent (s : Connector) (revents : Finset Poll) (soError : ℕ) (selfConnect : Bool) :
    Except Fault Connector := do
  let s ← Channel.handleEventWithGuard (callbacks soError selfConnect) revents
    { s with activity := .handling }
  pure { s with activity := .handled }

def destroy (s : Connector) : Except Fault Connector := do
  check (s.channel_ = none) .channelInDestructor
  pure { s with alive := false }

/-- Some `shared_ptr` of the connector is left. -/
def Held (s : Connector) : Prop := s.owned = true ∨ s.timers ≠ []

instance (s : Connector) : Decidable s.Held := inferInstanceAs (Decidable (_ ∨ _))

end Connector

/-- `startInLoop` is the call from a retry timer; `release` is the owner giving up its
`shared_ptr`. -/
inductive ConnectorStep
  | start (result : ConnectResult)
  | stop
  | restart (result : ConnectResult)
  | startInLoop (delay : ℕ) (result : ConnectResult)
  | resetChannel
  | poll
  | handleEvent (revents : Finset Poll) (soError : ℕ) (selfConnect : Bool)
  | endOfEvents
  | release
  | destroy
  deriving DecidableEq

namespace Connector

open Channel (kWriteEvent)

/-- A functor runs when no event is being handled, and a timer callback while some are. -/
def Enabled (s : Connector) : ConnectorStep → Prop
  | .start _ | .stop | .restart _ | .release => s.alive = true ∧ s.owned = true
  | .startInLoop delay _ => s.alive = true ∧ delay ∈ s.timers
  | .resetChannel => s.alive = true ∧ s.Held ∧ 0 < s.resets ∧ s.activity = .idle
  | .poll => s.alive = true ∧ s.Held ∧ s.activity = .idle ∧ s.poller ≠ []
  | .handleEvent revents _ _ => s.alive = true ∧ s.Held ∧ s.activity = .waiting ∧
      revents ⊆ kWriteEvent ∪ {.POLLERR, .POLLHUP, .POLLNVAL}
  | .endOfEvents => s.alive = true ∧ s.Held ∧ s.activity = .handled
  | .destroy => s.alive = true ∧ ¬ s.Held

instance (s : Connector) (a : ConnectorStep) : Decidable (s.Enabled a) :=
  match a with
  | .start _ | .stop | .restart _ | .release => inferInstanceAs (Decidable (_ ∧ _))
  | .startInLoop _ _ => inferInstanceAs (Decidable (_ ∧ _))
  | .resetChannel => inferInstanceAs (Decidable (_ ∧ _))
  | .poll => inferInstanceAs (Decidable (_ ∧ _))
  | .handleEvent _ _ _ => inferInstanceAs (Decidable (_ ∧ _))
  | .endOfEvents => inferInstanceAs (Decidable (_ ∧ _))
  | .destroy => inferInstanceAs (Decidable (_ ∧ _))

def step (s : Connector) : ConnectorStep → Except Fault Connector
  | .start result => s.start result
  | .stop => s.stop
  | .restart result => s.restart result
  | .startInLoop delay result => { s with timers := s.timers.erase delay }.startInLoop result
  | .resetChannel => pure s.resetChannel
  | .poll => pure { s with activity := .waiting }
  | .handleEvent revents soError selfConnect => s.handleEvent revents soError selfConnect
  | .endOfEvents => pure { s with activity := .idle }
  | .release => pure { s with owned := false }
  | .destroy => s.destroy

def machine : Machine Connector ConnectorStep Fault where
  init s := s = new
  enabled := Enabled
  step := step

instance (s : Connector) (a : ConnectorStep) : Decidable (machine.enabled s a) :=
  inferInstanceAs (Decidable (s.Enabled a))

end Connector

end MuduoServer
