import MuduoServer.ConnectionPhases
import MuduoServer.TcpServer
import Mathlib.Logic.Relation

/-!
What the server keeps about one connection, as a ledger: whether the table has
it, which functors that establish or destroy it wait in its loop, how many
removals wait in the acceptor's loop, and what has run. A connection out of the
table has `connectDestroyed` either waiting once or done once. All steps of the
system act on the ledger of one connection and leave the others alone; a table
in which no name is given twice is all they need.
-/
namespace MuduoServer

open FaultMachine

/-- The functor establishes or destroys connection `i`. -/
def ServerFunctor.handles (i : ℕ) : ServerFunctor → Bool
  | .connectEstablished j => j = i
  | .connectDestroyed j => j = i
  | _ => false

structure Ledger where
  inTable : Bool
  line : List ServerFunctor
  removals : ℕ
  removed : Bool
  destroyed : ℕ

namespace Ledger

/-- The ledger fits the connection `i` in its state. -/
structure Tracks (v : Ledger) (i : ℕ) (t : TcpConnection) : Prop where
  standing : t.Standing (v.destroyed ≠ 0)
  line : v.line = (if t.state_ = .kConnecting then [.connectEstablished i] else []) ++
    (if v.inTable ∨ v.destroyed ≠ 0 then [] else [.connectDestroyed i])
  once : v.destroyed ≤ 1
  held : v.inTable → v.destroyed = 0
  removals : v.removals ≤ 1
  closed : v.removals ≠ 0 ∨ v.removed → t.state_ = .kDisconnected
  unrun : v.removals ≠ 0 → v.removed = false

variable {v : Ledger} {i : ℕ} {t t' : TcpConnection} {rest : List ServerFunctor}

theorem tracks_new (writeComplete highWater : Bool) (highWaterMark : ℕ) :
    Tracks ⟨true, [.connectEstablished i], 0, false, 0⟩ i
      (TcpConnection.new writeComplete highWater highWaterMark) := by
  have hnew := TcpConnection.new_standing writeComplete highWater highWaterMark
  refine ⟨by simpa using hnew, rfl, Nat.zero_le _, fun _ => rfl, Nat.zero_le _, ?_, fun _ => rfl⟩
  simp

/-- Operations that neither establish nor reopen the connection. -/
theorem Tracks.update (h : v.Tracks i t) (hs : t'.Standing (v.destroyed ≠ 0))
    (hne : t'.state_ = .kConnecting ↔ t.state_ = .kConnecting)
    (hend : t.state_ = .kDisconnected → t'.state_ = .kDisconnected) : v.Tracks i t' := by
  refine ⟨hs, ?_, h.once, h.held, h.removals, fun hc => hend (h.closed hc), h.unrun⟩
  rw [h.line]
  simp only [hne]

theorem Tracks.connecting (h : v.Tracks i t) (hline : v.line = .connectEstablished i :: rest) :
    t.state_ = .kConnecting := by
  by_contra hne
  have heq := h.line
  rw [hline, if_neg hne, List.nil_append] at heq
  split at heq <;> cases heq

theorem Tracks.established (h : v.Tracks i t) (hline : v.line = .connectEstablished i :: rest)
    (hs : t'.Standing (v.destroyed ≠ 0)) (hstate : t'.state_ = .kConnected) :
    Tracks { v with line := rest } i t' := by
  have hconn := h.connecting hline
  have hnot : ¬ (v.removals ≠ 0 ∨ v.removed) := by
    intro hc
    have hd := h.closed hc
    rw [hconn] at hd
    cases hd
  refine ⟨hs, ?_, h.once, h.held, h.removals, fun hc => absurd hc hnot, h.unrun⟩
  have heq := h.line
  rw [hline, if_pos hconn] at heq
  rw [if_neg (by simp [hstate])]
  exact (List.cons.inj heq).2

/-- `connectDestroyed` is next in line: the connection is established, out of the
table and not destroyed. -/
theorem Tracks.next_destroyed (h : v.Tracks i t) (hline : v.line = .connectDestroyed i :: rest) :
    t.state_ ≠ .kConnecting ∧ v.inTable = false ∧ v.destroyed = 0 ∧ rest = [] := by
  have heq := h.line
  rw [hline] at heq
  have hne : t.state_ ≠ .kConnecting := by
    intro hc
    rw [if_pos hc] at heq
    cases heq
  rw [if_neg hne, List.nil_append] at heq
  split at heq
  · cases heq
  · rename_i hcond
    rw [not_or] at hcond
    refine ⟨hne, by simpa using hcond.1, by simpa using hcond.2, (List.cons.inj heq).2⟩

theorem Tracks.destroyed (h : v.Tracks i t) (hline : v.line = .connectDestroyed i :: rest)
    (hs : t'.Standing True) (hstate : t'.state_ = .kDisconnected) :
    Tracks { v with line := rest, destroyed := v.destroyed + 1 } i t' := by
  obtain ⟨hne, htable, hzero, rfl⟩ := h.next_destroyed hline
  refine ⟨by simpa using hs, ?_, by simp [hzero], ?_, h.removals, fun _ => hstate, h.unrun⟩
  · simp [hstate]
  · simp [htable]

/-- `removeConnectionInLoop` takes the connection out of the table and queues
`connectDestroyed`. -/
theorem Tracks.removal (h : v.Tracks i t) (htable : v.inTable) (hsome : v.removals ≠ 0) :
    Tracks ⟨false, v.line ++ [.connectDestroyed i], v.removals - 1, true, v.destroyed⟩ i t := by
  have hstate := h.closed (Or.inl hsome)
  have hone : v.removals - 1 = 0 := by
    have hle := h.removals
    omega
  refine ⟨h.standing, ?_, h.once, by simp, by simp [hone], fun _ => hstate, by simp [hone]⟩
  simp [h.line, hstate, htable, h.held htable]

/-- The close callback queues a removal. -/
theorem Tracks.close (h : v.Tracks i t) (hopen : t.Open) (hs : t'.Standing (v.destroyed ≠ 0))
    (hstate : t'.state_ = .kDisconnected) :
    Tracks { v with removals := v.removals + 1 } i t' := by
  have hne : t.state_ ≠ .kConnecting ∧ t.state_ ≠ .kDisconnected := by
    rcases hopen with ho | ho <;> simp [ho]
  have hzero : v.removals = 0 ∧ v.removed = false := by
    by_contra hc
    apply hne.2
    apply h.closed
    by_cases hr : v.removals = 0
    · right
      simpa [hr] using hc
    · exact Or.inl hr
  refine ⟨hs, ?_, h.once, h.held, by simp [hzero.1], fun _ => hstate, fun _ => hzero.2⟩
  simp [h.line, hne.1, hstate]

/-- The destructor takes the connection out of the table and hands it
`connectDestroyed`. -/
theorem Tracks.handOver (h : v.Tracks i t) (htable : v.inTable) :
    Tracks { v with inTable := false, line := v.line ++ [.connectDestroyed i] } i t := by
  refine ⟨h.standing, ?_, h.once, by simp, h.removals, h.closed, h.unrun⟩
  simp [h.line, htable, h.held htable]

/-- Out of the table and not destroyed, a connection waits for `connectDestroyed`. -/
theorem Tracks.waiting (h : v.Tracks i t) (htable : v.inTable = false) (hzero : v.destroyed = 0) :
    .connectDestroyed i ∈ v.line := by
  have hcond : ¬ (v.inTable = true ∨ v.destroyed ≠ 0) := by simp [htable, hzero]
  rw [h.line, if_neg hcond]
  exact List.mem_append_right _ (List.mem_singleton_self _)

theorem Tracks.line_eq_nil (h : v.Tracks i t) (htable : v.inTable)
    (hne : t.state_ ≠ .kConnecting) : v.line = [] := by
  simp [h.line, htable, hne]

end Ledger

section Queues
variable {L : Type} [DecidableEq L]

/-- The queues with `f` in front of that of `l`: `f` is being called. -/
def front (q : L → List ServerFunctor) (l : L) (f : ServerFunctor) : L → List ServerFunctor :=
  Function.update q l (f :: q l)

def back (q : L → List ServerFunctor) (l : L) (f : ServerFunctor) : L → List ServerFunctor :=
  Function.update q l (q l ++ [f])

inductive Adds (q : L → List ServerFunctor) (l : L) (f : ServerFunctor) :
    (L → List ServerFunctor) → Prop
  | first : Adds q l f (front q l f)
  | last : Adds q l f (back q l f)

end Queues

namespace Adds
variable {L : Type} [DecidableEq L] {q q' : L → List ServerFunctor} {l : L} {f : ServerFunctor}

theorem mem (h : Adds q l f q') {l' : L} {g : ServerFunctor} :
    g ∈ q' l' ↔ g ∈ q l' ∨ (l' = l ∧ g = f) := by
  by_cases hl : l' = l
  · subst hl
    cases h <;> simp [front, back, or_comm]
  · cases h <;> simp [front, back, hl]

/-- The functors that `p` does not hold of stay the same. -/
theorem filter_of_not (h : Adds q l f q') {p : ServerFunctor → Bool} (hp : p f = false) (l' : L) :
    (q' l').filter p = (q l').filter p := by
  by_cases hl : l' = l
  · subst hl
    cases h <;> simp [front, back, hp]
  · cases h <;> simp [front, back, Function.update_of_ne hl]

theorem count_of_ne (h : Adds q l f q') {g : ServerFunctor} (hne : g ≠ f) (l' : L) :
    (q' l').count g = (q l').count g := by
  by_cases hl : l' = l
  · subst hl
    cases h <;> simp [front, back, List.count_append, hne.symm]
  · cases h <;> simp [front, back, Function.update_of_ne hl]

theorem count_self (h : Adds q l f q') : (q' l).count f = (q l).count f + 1 := by
  cases h <;> simp [front, back, List.count_append]

theorem others (h : Adds q l f q') {i : ℕ} (hf : f.conn = i) (l' : L) (j : ℕ) (hj : j ≠ i) :
    (q' l').filter (fun f => f.conn = j) = (q l').filter (fun f => f.conn = j) := by
  apply h.filter_of_not
  simp [hf, hj.symm]

end Adds

namespace ServerSystem
variable {L : Type}

def contents (s : ServerSystem L) (l : L) : List ServerFunctor := (s.loops l).queue.contents

/-- The ledger of connection `i`, with `q` as the queues of the loops. -/
def ledger (s : ServerSystem L) (q : L → List ServerFunctor) (i : ℕ) (c : Connection L) : Ledger :=
  { inTable := s.server.connections_.lookup c.name_ = some i
    line := (q c.loop_).filter (ServerFunctor.handles i)
    removals := (q s.server.loop_).count (.removeConnectionInLoop i)
    removed := i ∈ s.removed
    destroyed := s.destroyed.count i }

/-- A functor of a connection waits in its loop, a removal in the acceptor's loop,
and a `send` waits just for a connection that has been established. -/
def Placed (s : ServerSystem L) (l : L) (f : ServerFunctor) : Prop :=
  ∃ c, s.conns f.conn = some c ∧
    match f with
    | .connectEstablished _ => l = c.loop_
    | .removeConnectionInLoop _ => l = s.server.loop_
    | .connectDestroyed _ => l = c.loop_
    | .sendInLoop _ _ => l = c.loop_ ∧ c.tcp.state_ ≠ .kConnecting
    | .shutdownInLoop _ => l = c.loop_ ∧ c.tcp.state_ ≠ .kConnecting

structure Tracked (s : ServerSystem L) (q : L → List ServerFunctor) : Prop where
  tracks : ∀ i c, s.conns i = some c → (s.ledger q i c).Tracks i c.tcp
  placed : ∀ l, ∀ f ∈ q l, s.Placed l f
  entries : ∀ name i, s.server.connections_.lookup name = some i →
    ∃ c, s.conns i = some c ∧ c.name_ = name
  numbered : ∀ i, (s.conns i).isSome ∨ i ∈ s.removed ∨ i ∈ s.destroyed → i < s.server.nextConnId_

/-- From `s` with the queues `q` to `s'` with `q'` only connection `i` is touched. -/
structure Touches (i : ℕ) (s : ServerSystem L) (q : L → List ServerFunctor)
    (s' : ServerSystem L) (q' : L → List ServerFunctor) : Prop where
  conns : ∀ j, j ≠ i → s'.conns j = s.conns j
  loop_ : s'.server.loop_ = s.server.loop_
  number : i < s'.server.nextConnId_ ∧ s.server.nextConnId_ ≤ s'.server.nextConnId_
  lookup : ∀ name j, j ≠ i →
    (s'.server.connections_.lookup name = some j ↔ s.server.connections_.lookup name = some j)
  removed : ∀ j, j ≠ i → (j ∈ s'.removed ↔ j ∈ s.removed)
  destroyed : ∀ j, j ≠ i → s'.destroyed.count j = s.destroyed.count j
  queues : ∀ l j, j ≠ i →
    (q' l).filter (fun f => f.conn = j) = (q l).filter (fun f => f.conn = j)

variable {s s' : ServerSystem L} {q q' : L → List ServerFunctor} {i : ℕ}

theorem filter_handles_conn (fs : List ServerFunctor) (j : ℕ) :
    (fs.filter fun f => f.conn = j).filter (ServerFunctor.handles j) =
      fs.filter (ServerFunctor.handles j) := by
  rw [List.filter_filter]
  congr 1
  funext f
  cases f <;> simp +contextual [ServerFunctor.handles, ServerFunctor.conn]

theorem count_removal_conn (fs : List ServerFunctor) (j : ℕ) :
    (fs.filter fun f => f.conn = j).count (.removeConnectionInLoop j) =
      fs.count (.removeConnectionInLoop j) := by
  rw [List.count_filter]
  simp [ServerFunctor.conn]

theorem Touches.ledger (h : Touches i s q s' q') {j : ℕ} (hne : j ≠ i) (c : Connection L) :
    s'.ledger q' j c = s.ledger q j c := by
  unfold ServerSystem.ledger
  rw [← filter_handles_conn, h.queues _ _ hne, filter_handles_conn, h.loop_,
    ← count_removal_conn, h.queues _ _ hne, count_removal_conn, h.destroyed _ hne]
  simp only [h.lookup _ _ hne, h.removed _ hne]

/-- Only the ledger and the functors of the touched connection are left to check. -/
theorem Tracked.touch (h : s.Tracked q) (c' : Connection L) (ht : Touches i s q s' q')
    (hc' : s'.conns i = some c') (htracks : (s'.ledger q' i c').Tracks i c'.tcp)
    (hplaced : ∀ l, ∀ f ∈ q' l, f.conn = i → s'.Placed l f)
    (hentry : ∀ name, s'.server.connections_.lookup name = some i → c'.name_ = name) :
    s'.Tracked q' where
  tracks := by
    intro j c hc
    by_cases hj : j = i
    · subst hj
      obtain rfl := Option.some.inj (hc'.symm.trans hc)
      exact htracks
    · rw [ht.ledger hj]
      rw [ht.conns j hj] at hc
      exact h.tracks j c hc
  placed := by
    intro l f hf
    by_cases hj : f.conn = i
    · exact hplaced l f hf hj
    · have hold : f ∈ q l := by
        have hmem : f ∈ (q' l).filter fun g => g.conn = f.conn :=
          List.mem_filter.mpr ⟨hf, by simp⟩
        rw [ht.queues l _ hj] at hmem
        exact List.mem_of_mem_filter hmem
      obtain ⟨c, hc, hplace⟩ := h.placed l f hold
      refine ⟨c, (ht.conns _ hj).trans hc, ?_⟩
      cases f <;> simpa [ht.loop_] using hplace
  entries := by
    intro name j hlook
    by_cases hj : j = i
    · subst hj
      exact ⟨c', hc', hentry name hlook⟩
    · rw [ht.conns j hj]
      exact h.entries name j ((ht.lookup name j hj).mp hlook)
  numbered := by
    intro j hj
    by_cases hji : j = i
    · rw [hji]
      exact ht.number.1
    · have hdestroyed : j ∈ s'.destroyed ↔ j ∈ s.destroyed := by
        rw [← List.count_pos_iff, ht.destroyed j hji, List.count_pos_iff]
      rw [ht.conns j hji, ht.removed j hji, hdestroyed] at hj
      exact lt_of_lt_of_le (h.numbered j hj) ht.number.2

theorem Tracked.lt (h : s.Tracked q) {c : Connection L} (hc : s.conns i = some c) :
    i < s.server.nextConnId_ := by
  apply h.numbered
  simp [hc]

theorem Tracked.waiting (h : s.Tracked q) {c : Connection L} (hc : s.conns i = some c)
    (hlook : s.server.connections_.lookup c.name_ ≠ some i) (hzero : s.destroyed.count i = 0) :
    .connectDestroyed i ∈ q c.loop_ := by
  have hmem : .connectDestroyed i ∈ (s.ledger q i c).line :=
    (h.tracks i c hc).waiting (by simpa [ledger] using hlook) hzero
  exact List.mem_of_mem_filter hmem

/-- `g` runs on the connection that is there. -/
theorem yields_onConn {E : TcpConnection.Fault → Prop} {D : Fault → Prop}
    {P : TcpConnection → Prop} {g : TcpConnection → Except TcpConnection.Fault TcpConnection}
    {c : Connection L} (hc : s.conns i = some c) (hg : Yields E P (g c.tcp))
    (hE : ∀ e, E e → D (.conn e)) :
    Yields D (fun s' => ∃ t, P t ∧ s' = s.setConn i { c with tcp := t }) (s.onConn i g) := by
  unfold onConn
  simp only [hc]
  refine (hg.mapError hE).bind ?_
  intro t ht
  exact yields_pure ⟨t, ht, rfl⟩

section Edge
open Relation

theorem edge_connecting {a b : StateE} (h : ReflTransGen StateE.Edge a b)
    (ha : a ≠ .kConnecting) : b ≠ .kConnecting := by
  induction h with
  | refl => exact ha
  | tail _ he ih => cases he <;> simp

theorem edge_disconnected {a b : StateE} (h : ReflTransGen StateE.Edge a b)
    (ha : a = .kDisconnected) : b = .kDisconnected := by
  induction h with
  | refl => exact ha
  | tail _ he ih =>
    rw [ih] at he
    cases he

theorem edge_to_disconnected {a : StateE} (h : a ≠ .kConnecting) :
    ReflTransGen StateE.Edge a .kDisconnected := by
  cases a with
  | kDisconnected => exact .refl
  | kConnecting => exact absurd rfl h
  | kConnected => exact .single .closed
  | kDisconnecting => exact .single .ended

end Edge

theorem Placed.setConn {l : L} {f : ServerFunctor} (h : s.Placed l f) {c : Connection L}
    (hc : s.conns i = some c) {t : TcpConnection}
    (hne : c.tcp.state_ ≠ .kConnecting → t.state_ ≠ .kConnecting) :
    (s.setConn i { c with tcp := t }).Placed l f := by
  obtain ⟨d, hd, hplace⟩ := h
  by_cases hf : f.conn = i
  · rw [hf] at hd
    obtain rfl := Option.some.inj (hc.symm.trans hd)
    refine ⟨{ c with tcp := t }, by simp [ServerSystem.setConn, hf], ?_⟩
    cases f with
    | sendInLoop | shutdownInLoop => exact ⟨hplace.1, hne hplace.2⟩
    | connectEstablished | removeConnectionInLoop | connectDestroyed => exact hplace
  · refine ⟨d, by simp [ServerSystem.setConn, Function.update_of_ne hf, hd], ?_⟩
    cases f <;> exact hplace

/-- A new state of connection `i`, while the functors of the others stay. -/
theorem Tracked.setConn (h : s.Tracked q) {c : Connection L} (hc : s.conns i = some c)
    {t : TcpConnection} (hne : c.tcp.state_ ≠ .kConnecting → t.state_ ≠ .kConnecting)
    (hsub : ∀ l, ∀ f ∈ q' l, f ∈ q l ∨ (s.setConn i { c with tcp := t }).Placed l f)
    (hothers : ∀ l j, j ≠ i →
      (q' l).filter (fun f => f.conn = j) = (q l).filter (fun f => f.conn = j))
    (htracks : (s.ledger q' i c).Tracks i t) :
    (s.setConn i { c with tcp := t }).Tracked q' := by
  refine h.touch (i := i) { c with tcp := t } ?_ ?_ htracks ?_ ?_
  · refine ⟨?_, rfl, ⟨h.lt hc, le_refl _⟩, fun _ _ _ => Iff.rfl, fun _ _ => Iff.rfl,
      fun _ _ => rfl, hothers⟩
    intro j hj
    simp [ServerSystem.setConn, Function.update_of_ne hj]
  · simp [ServerSystem.setConn]
  · intro l f hf _
    rcases hsub l f hf with hold | hnew
    · exact (h.placed l f hold).setConn hc hne
    · exact hnew
  · intro name hlook
    obtain ⟨d, hd, hname⟩ := h.entries name i hlook
    obtain rfl := Option.some.inj (hc.symm.trans hd)
    exact hname

variable [DecidableEq L]

section Ledger
variable {c : Connection L} {l : L} {f : ServerFunctor}

theorem ledger_front (hf : f.handles i) :
    s.ledger (front q c.loop_ f) i c =
      { s.ledger q i c with line := f :: (s.ledger q i c).line } := by
  have hcount : ((front q c.loop_ f) s.server.loop_).count (.removeConnectionInLoop i) =
      (q s.server.loop_).count (.removeConnectionInLoop i) := by
    apply Adds.first.count_of_ne
    rintro rfl
    simp [ServerFunctor.handles] at hf
  unfold ServerSystem.ledger
  rw [hcount]
  simp [front, hf]

theorem ledger_back (hf : f.handles i) :
    s.ledger (back q c.loop_ f) i c =
      { s.ledger q i c with line := (s.ledger q i c).line ++ [f] } := by
  have hcount : ((back q c.loop_ f) s.server.loop_).count (.removeConnectionInLoop i) =
      (q s.server.loop_).count (.removeConnectionInLoop i) := by
    apply Adds.last.count_of_ne
    rintro rfl
    simp [ServerFunctor.handles] at hf
  unfold ServerSystem.ledger
  rw [hcount]
  simp [back, hf]

theorem ledger_removal (h : Adds q s.server.loop_ (.removeConnectionInLoop i) q') :
    s.ledger q' i c = { s.ledger q i c with removals := (s.ledger q i c).removals + 1 } := by
  unfold ServerSystem.ledger
  rw [h.count_self, h.filter_of_not (by simp [ServerFunctor.handles])]

/-- A `send` or a `shutdown` does not show in the ledger. -/
theorem ledger_of_not (h : Adds q l f q') (hf : f.handles i = false)
    (hne : .removeConnectionInLoop i ≠ f) : s.ledger q' i c = s.ledger q i c := by
  unfold ServerSystem.ledger
  rw [h.count_of_ne hne, h.filter_of_not hf]

end Ledger

end ServerSystem

end MuduoServer
