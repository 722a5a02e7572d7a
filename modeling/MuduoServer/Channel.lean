import MuduoServer.FaultMachine
import Mathlib.Data.Finset.Basic

/-!
A channel of `muduo/net/Channel.h` and `Channel.cc`: the events a descriptor is
watched for, whether the poller knows the channel, and the order in which one
poll result is handed to the callbacks. An event mask is the set of its bits.
-/
namespace MuduoServer

open FaultMachine

inductive Poll
  | POLLIN
  | POLLPRI
  | POLLOUT
  | POLLRDHUP
  | POLLERR
  | POLLHUP
  | POLLNVAL
  deriving DecidableEq

/-- `added` is the poller's entry for the channel. -/
structure Channel where
  events_ : Finset Poll
  added : Bool

namespace Channel

open Poll

inductive Fault
  | notNoneEvent
  | unknownToPoller
  deriving DecidableEq

def kNoneEvent : Finset Poll := ∅

def kReadEvent : Finset Poll := {POLLIN, POLLPRI}

def kWriteEvent : Finset Poll := {POLLOUT}

def new : Channel := { events_ := kNoneEvent, added := false }

/-- The loop's poller is told about the channel. -/
def update (c : Channel) : Channel := { c with added := true }

def enableReading (c : Channel) : Channel := update { c with events_ := c.events_ ∪ kReadEvent }

def enableWriting (c : Channel) : Channel := update { c with events_ := c.events_ ∪ kWriteEvent }

def disableWriting (c : Channel) : Channel := update { c with events_ := c.events_ \ kWriteEvent }

def disableAll (c : Channel) : Channel := update { c with events_ := kNoneEvent }

def isNoneEvent (c : Channel) : Prop := c.events_ = kNoneEvent

def isWriting (c : Channel) : Prop := (c.events_ ∩ kWriteEvent).Nonempty

instance (c : Channel) : Decidable c.isNoneEvent := inferInstanceAs (Decidable (_ = _))

instance (c : Channel) : Decidable c.isWriting := inferInstanceAs (Decidable (Finset.Nonempty _))

/-- `remove` asserts that nothing is watched, and the poller that it has the
channel. -/
def remove (c : Channel) : Except Fault Channel := do
  check c.isNoneEvent .notNoneEvent
  check c.added .unknownToPoller
  pure { c with added := false }

/-- What `poll` may report: a watched event, or one that is always watched. The
pollers take a channel that watches nothing out of the set. -/
def Reports (c : Channel) (revents : Finset Poll) : Prop :=
  c.added ∧ ¬ c.isNoneEvent ∧ revents ⊆ c.events_ ∪ {POLLERR, POLLHUP, POLLNVAL}

instance (c : Channel) (revents : Finset Poll) : Decidable (c.Reports revents) :=
  inferInstanceAs (Decidable (_ ∧ _))

structure Callbacks (σ ε : Type) where
  closeCallback_ : σ → Except ε σ
  errorCallback_ : σ → Except ε σ
  readCallback_ : σ → Except ε σ
  writeCallback_ : σ → Except ε σ

/-- `if (p) callback();` -/
def callIf {σ ε : Type} (p : Prop) [Decidable p] (callback : σ → Except ε σ) (s : σ) :
    Except ε σ :=
  if p then callback s else pure s

/-- The callbacks run one after the other on the owner's state, as the bits of
`revents` select them. -/
def handleEventWithGuard {σ ε : Type} (cb : Callbacks σ ε) (revents : Finset Poll) (s : σ) :
    Except ε σ := do
  let s ← callIf (POLLHUP ∈ revents ∧ POLLIN ∉ revents) cb.closeCallback_ s
  let s ← callIf (POLLERR ∈ revents ∨ POLLNVAL ∈ revents) cb.errorCallback_ s
  let s ← callIf (POLLIN ∈ revents ∨ POLLPRI ∈ revents ∨ POLLRDHUP ∈ revents) cb.readCallback_ s
  callIf (POLLOUT ∈ revents) cb.writeCallback_ s

variable (c : Channel)

theorem isWriting_iff : c.isWriting ↔ POLLOUT ∈ c.events_ := by
  unfold isWriting kWriteEvent
  constructor
  · intro ⟨p, hp⟩
    obtain ⟨hc, ho⟩ := Finset.mem_inter.mp hp
    rwa [Finset.mem_singleton.mp ho] at hc
  · intro h
    exact ⟨POLLOUT, Finset.mem_inter.mpr ⟨h, Finset.mem_singleton_self _⟩⟩

@[simp] theorem isWriting_enableWriting : c.enableWriting.isWriting := by
  simp [isWriting_iff, enableWriting, update, kWriteEvent]

@[simp] theorem isWriting_disableWriting : ¬ c.disableWriting.isWriting := by
  simp [isWriting_iff, disableWriting, update, kWriteEvent]

@[simp] theorem isWriting_disableAll : ¬ c.disableAll.isWriting := by
  simp [isWriting_iff, disableAll, update, kNoneEvent]

@[simp] theorem isWriting_enableReading : c.enableReading.isWriting ↔ c.isWriting := by
  simp [isWriting_iff, enableReading, update, kReadEvent]

@[simp] theorem not_isWriting_new : ¬ new.isWriting := by
  simp [isWriting_iff, new, kNoneEvent]

theorem remove_eq_ok {c' : Channel} :
    c.remove = .ok c' ↔ c.isNoneEvent ∧ c.added ∧ c' = { c with added := false } := by
  unfold remove
  simp [@eq_comm _ c']

end Channel

end MuduoServer
