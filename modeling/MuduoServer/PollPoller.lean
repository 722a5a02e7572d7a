import MuduoServer.EPollPoller
import MuduoServer.Registry

/-!
`muduo/net/poller/PollPoller.cc`. The index of a channel is its position in the
array that `poll` takes. A channel without interest stays there with its
descriptor negated, so that the kernel ignores it and `removeChannel` can still
tell whose entry it is.
-/
namespace MuduoServer

open FaultMachine

/-- `struct pollfd`. -/
structure PollFd where
  fd : ℤ
  events : Finset Poll
  revents : Finset Poll
  deriving DecidableEq

structure PollPoller (C : Type) where
  channels : C → PolledChannel
  channels_ : ℤ → Option C
  pollfds_ : List PollFd

namespace PollPoller

inductive Fault
  | notNoneEvent
  | knownFd
  | unknownFd
  | otherChannel
  | badIndex
  | otherPollfd
  | eraseCount
  | nullChannel
  deriving DecidableEq

variable {C : Type}

def new : PollPoller C :=
  { channels := fun _ => PolledChannel.new
    channels_ := fun _ => none
    pollfds_ := [] }

/-- `-fd-1`, which the kernel ignores. -/
def ignored (fd : ℤ) : ℤ := -fd - 1

/-- `pollfds_[idx]` under `assert(0 <= idx && idx < pollfds_.size())`. -/
def pollfdAt (s : PollPoller C) (idx : ℤ) : Except Fault PollFd :=
  match s.pollfds_[idx.toNat]? with
  | some pfd => if 0 ≤ idx then .ok pfd else .error .badIndex
  | none => .error .badIndex

variable [DecidableEq C] (fd : C ↪ ℕ)

def setIndex (s : PollPoller C) (channel : C) (index : ℤ) : PollPoller C :=
  { s with channels :=
      Function.update s.channels channel { s.channels channel with index_ := index } }

def setEvents (s : PollPoller C) (channel : C) (events : Finset Poll) : PollPoller C :=
  { s with channels :=
      Function.update s.channels channel { s.channels channel with events_ := events } }

def setRevents (s : PollPoller C) (channel : C) (revents : Finset Poll) : PollPoller C :=
  { s with channels :=
      Function.update s.channels channel { s.channels channel with revents_ := revents } }

def checkKnown (s : PollPoller C) (channel : C) : Except Fault Unit := do
  check (s.channels_ (fd channel) ≠ none) .unknownFd
  check (s.channels_ (fd channel) = some channel) .otherChannel

def updateChannel (s : PollPoller C) (channel : C) : Except Fault (PollPoller C) :=
  let c := s.channels channel
  if c.index_ < 0 then do
    check (s.channels_ (fd channel) = none) .knownFd
    let pfd : PollFd := { fd := fd channel, events := c.events_, revents := ∅ }
    let pollfds_ := s.pollfds_ ++ [pfd]
    let s := { s with pollfds_ := pollfds_ }.setIndex channel (pollfds_.length - 1)
    pure { s with channels_ := Function.update s.channels_ pfd.fd (some channel) }
  else do
    s.checkKnown fd channel
    let pfd ← s.pollfdAt c.index_
    check (pfd.fd = fd channel ∨ pfd.fd = ignored (fd channel)) .otherPollfd
    let pfd := { pfd with events := c.events_, revents := ∅ }
    -- the descriptor of a channel with interest is left as it is
    let pfd := if c.isNoneEvent then { pfd with fd := ignored (fd channel) } else pfd
    pure { s with pollfds_ := s.pollfds_.set c.index_.toNat pfd }

def removeChannel (s : PollPoller C) (channel : C) : Except Fault (PollPoller C) := do
  s.checkKnown fd channel
  let c := s.channels channel
  check c.isNoneEvent .notNoneEvent
  let pfd ← s.pollfdAt c.index_
  check (pfd.fd = ignored (fd channel) ∧ pfd.events = c.events_) .otherPollfd
  check (s.channels_ (fd channel)).isSome .eraseCount
  let s := { s with channels_ := Function.update s.channels_ (fd channel) none }
  if c.index_.toNat = s.pollfds_.length - 1 then
    pure { s with pollfds_ := s.pollfds_.dropLast }
  else
    match s.pollfds_.getLast? with
    | none => .error .badIndex
    | some back =>
        let channelAtEnd := if back.fd < 0 then ignored back.fd else back.fd
        match s.channels_ channelAtEnd with
        | none => .error .nullChannel
        | some other =>
            let s := { s with pollfds_ := swapPop s.pollfds_ c.index_.toNat }
            pure (s.setIndex other c.index_)

omit [DecidableEq C] in
/-- Descriptor `n` is watched for `events`. -/
def Watches (s : PollPoller C) (n : ℕ) (events : Finset Poll) : Prop :=
  ∃ pfd ∈ s.pollfds_, pfd.fd = n ∧ pfd.events = events

/-- What `::poll` writes to an entry: it ignores a negative descriptor, and the others
are open. -/
def polled (ready : ℕ → Finset Poll) (pfd : PollFd) : PollFd :=
  { pfd with revents := if pfd.fd < 0 then ∅
      else ready pfd.fd.toNat ∩ (pfd.events ∪ {.POLLERR, .POLLHUP}) }

omit [DecidableEq C] in
/-- `::poll`, with the number of entries that have something to report. -/
def poll (ready : ℕ → Finset Poll) (s : PollPoller C) : PollPoller C × ℕ :=
  let pollfds_ := s.pollfds_.map (polled ready)
  ({ s with pollfds_ := pollfds_ }, pollfds_.countP fun pfd => pfd.revents ≠ ∅)

/-- The loop over `pollfds_`, which stops when `numEvents` entries have been handled. -/
def fillActiveChannels (s : PollPoller C) :
    List PollFd → ℕ → Except Fault (PollPoller C × List C)
  | [], _ => pure (s, [])
  | _ :: _, 0 => pure (s, [])
  | pfd :: pfds, numEvents + 1 =>
      if pfd.revents ≠ ∅ then
        match s.channels_ pfd.fd with
        | none => .error .unknownFd
        | some channel => do
            check ((fd channel : ℤ) = pfd.fd) .otherChannel
            let r ← fillActiveChannels (s.setRevents channel pfd.revents) pfds numEvents
            pure (r.1, channel :: r.2)
      else
        fillActiveChannels s pfds (numEvents + 1)

def step (s : PollPoller C) : PollerCall C → Except Fault (PollPoller C)
  | .update i channel =>
      (s.setEvents channel (i.events (s.channels channel).events_)).updateChannel fd channel
  | .remove channel => do
      check (s.channels channel).isNoneEvent .notNoneEvent
      s.removeChannel fd channel

end PollPoller

end MuduoServer
