import MuduoServer.Channel

/-!
`muduo/net/poller/EPollPoller.cc` over the kernel's epoll set. A channel carries the
index with which the poller remembers it: `kNew` is unknown, `kAdded` is in the
kernel set, and `kDeleted` is known and out of the set. `update` adds a channel
that is new or deleted in any case, so one that is left without interest there
enters the set with no events.
-/
namespace MuduoServer

open FaultMachine

/-- The calls that end in `Channel::update`. -/
inductive Interest
  | enableReading
  | enableWriting
  | disableWriting
  | disableAll
  deriving DecidableEq

namespace Interest

def run : Interest → Channel → Channel
  | .enableReading => Channel.enableReading
  | .enableWriting => Channel.enableWriting
  | .disableWriting => Channel.disableWriting
  | .disableAll => Channel.disableAll

/-- What is watched after the call. -/
def events (i : Interest) (events_ : Finset Poll) : Finset Poll :=
  (i.run { events_ := events_, added := true }).events_

theorem run_eq (i : Interest) (c : Channel) :
    i.run c = { events_ := i.events c.events_, added := true } := by
  cases i <;> rfl

end Interest

inductive PollerCall (C : Type)
  | update (i : Interest) (channel : C)
  | remove (channel : C)

/-- The fields of a channel that a poller reads and writes. -/
structure PolledChannel where
  events_ : Finset Poll
  revents_ : Finset Poll
  index_ : ℤ

namespace PolledChannel

def new : PolledChannel := { events_ := Channel.kNoneEvent, revents_ := ∅, index_ := -1 }

def isNoneEvent (c : PolledChannel) : Prop := c.events_ = Channel.kNoneEvent

instance (c : PolledChannel) : Decidable c.isNoneEvent := inferInstanceAs (Decidable (_ = _))

end PolledChannel

/-- `struct epoll_event` with its `data.ptr`. -/
structure EpollEvent (C : Type) where
  events : Finset Poll
  ptr : C

inductive EpollOp
  | EPOLL_CTL_ADD
  | EPOLL_CTL_MOD
  | EPOLL_CTL_DEL
  deriving DecidableEq

/-- `epoll` is the kernel's set behind `epollfd_`, and `syserrs` are the operations
that have failed and were only logged. -/
structure EPollPoller (C : Type) where
  channels : C → PolledChannel
  channels_ : ℕ → Option C
  epoll : ℕ → Option (EpollEvent C)
  syserrs : List EpollOp

namespace EPollPoller

inductive Fault
  | notNoneEvent
  | knownFd
  | unknownFd
  | otherChannel
  | badIndex
  | eraseCount
  | sysFatal (op : EpollOp)
  deriving DecidableEq

def kNew : ℤ := -1

def kAdded : ℤ := 1

def kDeleted : ℤ := 2

/-- `epoll_ctl`: `EPOLL_CTL_ADD` takes a descriptor that is not in the set, the others
one that is. -/
def epollCtl {C : Type} (epoll : ℕ → Option (EpollEvent C)) (op : EpollOp) (fd : ℕ)
    (event : EpollEvent C) : Option (ℕ → Option (EpollEvent C)) :=
  match op, epoll fd with
  | .EPOLL_CTL_ADD, none => some (Function.update epoll fd (some event))
  | .EPOLL_CTL_MOD, some _ => some (Function.update epoll fd (some event))
  | .EPOLL_CTL_DEL, some _ => some (Function.update epoll fd none)
  | _, _ => none

variable {C : Type}

def new : EPollPoller C :=
  { channels := fun _ => PolledChannel.new
    channels_ := fun _ => none
    epoll := fun _ => none
    syserrs := [] }

/-- Descriptor `n` of the kernel's set is watched for `events`. -/
def Watches (s : EPollPoller C) (n : ℕ) (events : Finset Poll) : Prop :=
  ∃ e ∈ s.epoll n, e.events = events

/-- What there is to report for an entry of the set when `ready` holds. -/
def pending (ready : ℕ → Finset Poll) (n : ℕ) (e : EpollEvent C) : EpollEvent C :=
  { e with events := ready n ∩ (e.events ∪ {.POLLERR, .POLLHUP}) }

/-- The size of `events_` at first; it is doubled when `epoll_wait` has filled it. -/
def kInitEventListSize : ℕ := 16

/-- `epoll_wait` reports each ready entry once, and leaves some out only when there is
no room for more. -/
structure Waits (s : EPollPoller C) (ready : ℕ → Finset Poll) (maxevents : ℕ)
    (events : List (EpollEvent C)) : Prop where
  pending : ∀ e ∈ events, ∃ n w, s.epoll n = some w ∧ e = pending ready n w ∧ e.events ≠ ∅
  nodup : (events.map EpollEvent.ptr).Nodup
  room : events.length ≤ maxevents
  all : events.length < maxevents → ∀ n w, s.epoll n = some w →
    (EPollPoller.pending ready n w).events ≠ ∅ → EPollPoller.pending ready n w ∈ events

variable [DecidableEq C] (fd : C ↪ ℕ)

def setIndex (s : EPollPoller C) (channel : C) (index : ℤ) : EPollPoller C :=
  { s with channels :=
      Function.update s.channels channel { s.channels channel with index_ := index } }

def setEvents (s : EPollPoller C) (channel : C) (events : Finset Poll) : EPollPoller C :=
  { s with channels :=
      Function.update s.channels channel { s.channels channel with events_ := events } }

omit [DecidableEq C] in
/-- A failed `EPOLL_CTL_DEL` is logged, another failure ends the program. -/
def update (s : EPollPoller C) (operation : EpollOp) (channel : C) :
    Except Fault (EPollPoller C) :=
  let event := { events := (s.channels channel).events_, ptr := channel }
  match epollCtl s.epoll operation (fd channel) event with
  | some epoll => .ok { s with epoll := epoll }
  | none =>
      if operation = .EPOLL_CTL_DEL then .ok { s with syserrs := s.syserrs ++ [operation] }
      else .error (.sysFatal operation)

/-- `assert(channels_.find(fd) != channels_.end())` and `assert(channels_[fd] == channel)`. -/
def checkKnown (s : EPollPoller C) (channel : C) : Except Fault Unit := do
  check (s.channels_ (fd channel) ≠ none) .unknownFd
  check (s.channels_ (fd channel) = some channel) .otherChannel

/-- A new channel is entered into `channels_`, a deleted one is there. -/
def register (s : EPollPoller C) (channel : C) : Except Fault (EPollPoller C) :=
  if (s.channels channel).index_ = kNew then do
    check (s.channels_ (fd channel) = none) .knownFd
    pure { s with channels_ := Function.update s.channels_ (fd channel) (some channel) }
  else do
    s.checkKnown fd channel
    pure s

def updateChannel (s : EPollPoller C) (channel : C) : Except Fault (EPollPoller C) :=
  let index := (s.channels channel).index_
  if index = kNew ∨ index = kDeleted then do
    let s ← s.register fd channel
    (s.setIndex channel kAdded).update fd .EPOLL_CTL_ADD channel
  else do
    s.checkKnown fd channel
    check (index = kAdded) .badIndex
    if (s.channels channel).isNoneEvent then do
      let s ← s.update fd .EPOLL_CTL_DEL channel
      pure (s.setIndex channel kDeleted)
    else
      s.update fd .EPOLL_CTL_MOD channel

def removeChannel (s : EPollPoller C) (channel : C) : Except Fault (EPollPoller C) := do
  s.checkKnown fd channel
  check (s.channels channel).isNoneEvent .notNoneEvent
  let index := (s.channels channel).index_
  check (index = kAdded ∨ index = kDeleted) .badIndex
  check (s.channels_ (fd channel)).isSome .eraseCount
  let s := { s with channels_ := Function.update s.channels_ (fd channel) none }
  if index = kAdded then do
    let s ← s.update fd .EPOLL_CTL_DEL channel
    pure (s.setIndex channel kNew)
  else
    pure (s.setIndex channel kNew)

def setRevents (s : EPollPoller C) (channel : C) (revents : Finset Poll) : EPollPoller C :=
  { s with channels :=
      Function.update s.channels channel { s.channels channel with revents_ := revents } }

/-- `events` are what `epoll_wait` has written; the channels become active in their order. -/
def fillActiveChannels (s : EPollPoller C) :
    List (EpollEvent C) → Except Fault (EPollPoller C × List C)
  | [] => pure (s, [])
  | event :: events => do
      s.checkKnown fd event.ptr
      let r ← fillActiveChannels (s.setRevents event.ptr event.events) events
      pure (r.1, event.ptr :: r.2)

/-- `epoll_wait` may report a member of the set with some of its events, or with those
that are always watched. -/
def Reports (s : EPollPoller C) (event : EpollEvent C) : Prop :=
  ∃ e ∈ s.epoll (fd event.ptr), e.ptr = event.ptr ∧
    event.events ⊆ e.events ∪ {.POLLERR, .POLLHUP}

def step (s : EPollPoller C) : PollerCall C → Except Fault (EPollPoller C)
  | .update i channel =>
      (s.setEvents channel (i.events (s.channels channel).events_)).updateChannel fd channel
  | .remove channel => do
      check (s.channels channel).isNoneEvent .notNoneEvent
      s.removeChannel fd channel

/-- `remove` is called for a channel without interest. -/
def Enabled (s : EPollPoller C) : PollerCall C → Prop
  | .update _ _ => True
  | .remove channel => (s.channels channel).isNoneEvent

def machine : Machine (EPollPoller C) (PollerCall C) Fault where
  init s := s = new
  enabled := Enabled
  step s a := s.step fd a

end EPollPoller

end MuduoServer
