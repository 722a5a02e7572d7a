import MuduoServer.ConnectionPointers

/-!
Whether the functors of `send` and `shutdown` find their connection. While a connection is in
the table or a functor is bound to a pointer to it, it is there; after `connectDestroyed` only
the threads of the user keep it, and a thread that has read `kConnected` before may queue its
functor afterwards. So the last pointer must not be given up while such a functor waits.
-/
namespace MuduoServer

open FaultMachine FaultMachine.Machine

namespace ServerFunctor

def removal? : ServerFunctor → Option ℕ
  | .removeConnectionInLoop i => some i
  | .connectEstablished _ | .connectDestroyed _ | .sendInLoop _ _ | .shutdownInLoop _ => none

theorem conn_of_pointer {f : ServerFunctor} {i : ℕ} (h : f.pointer? = some i) : f.conn = i := by
  cases f <;> simp_all [pointer?, conn]

theorem conn_of_this {f : ServerFunctor} {i : ℕ} (h : f.this? = some i) : f.conn = i := by
  cases f <;> simp_all [this?, conn]

end ServerFunctor

namespace SharedServer

variable {L T : Type} {s s' : SharedServer L T} {i j : ℕ} {l l' : L} {t : T} {f : ServerFunctor}

section Conditions
variable [DecidableEq L] (s : SharedServer L T)

/-- No functor waits for connection `i`, or not only the table has a pointer to it. -/
def Secure (i : ℕ) : Prop := ∀ l, s.Waits l i → s.Used i ∨ s.Carried i

/-- What loop `l` leaves of the functors when its batch ends. -/
def boundAfter (l l' : L) : List ServerFunctor :=
  if l' = l then s.sys.contents l' else s.bound l'

/-- The step does not give up the last pointer to a connection for which a functor waits. -/
def Spares : SharedStep L T → Prop
  | .release t i => ∀ l, s.Waits l i →
      i ∈ (s.pointers t).erase i ∨ (∃ u, u ≠ t ∧ i ∈ s.pointers u) ∨ s.Listed i ∨ s.Carried i
  | .loop (.finish l) => ∀ f ∈ s.ran l, ∀ i ∈ f.pointer?, ∀ l', s.Waits l' i →
      (l' = l → (s.sys.loops l).quit_ = false) → s.Used i ∨ s.Listed i ∨
        ∃ l', s.Stands l' ∧ ∃ f ∈ s.boundAfter l l', f.pointer? = some i
  | .loop .destroy => ∀ e ∈ s.sys.server.connections_.entries,
      (∀ c ∈ s.sys.conns e.2, c.loop_ = s.sys.server.loop_) → s.Secure e.2
  | .loop .newConnection =>
      ∀ j ∈ s.sys.server.connections_.lookup s.sys.server.connName, s.Secure j
  | .loop (.handleEvent i revents r _) => ∀ c ∈ s.sys.conns i, c.loop_ = s.sys.server.loop_ →
      TcpConnection.Ends revents r →
      ∀ j ∈ s.sys.server.connections_.lookup c.name_, j ≠ i → s.Secure j
  | .loop (.runFunctor l _) => ∀ f ∈ s.sys.next? l, ∀ i ∈ f.removal?, ∀ c ∈ s.sys.conns i,
      ∀ j ∈ s.sys.server.connections_.lookup c.name_, j ≠ i → s.Secure j
  | _ => True

end Conditions

/-- A connection is there as long as a functor waits for it. -/
structure Safe (s : SharedServer L T) : Prop where
  alive : ∀ l i, s.Waits l i → s.Alive i
  calls : ∀ t, ∀ i ∈ (s.calls t).conn?, i ∈ s.pointers t
  placed : ∀ l, ∀ f ∈ s.bound l, s.sys.AtHome l f
  numbered : ∀ i, (s.sys.conns i).isSome → i < s.sys.server.nextConnId_

theorem listed_iff : s.Listed i ↔ ∃ name, s.sys.server.connections_.lookup name = some i := by
  constructor
  · intro h
    obtain ⟨e, he, rfl⟩ := h
    exact ⟨e.1, AList.mem_lookup_iff.mpr he⟩
  · intro h
    obtain ⟨name, hname⟩ := h
    exact ⟨⟨name, i⟩, AList.mem_lookup_iff.mp hname, rfl⟩

/-- The loops' threads take a step in which no functor has left a queue. -/
theorem Safe.passes (h : s.Safe) {sys : ServerSystem L} {lost : ℕ → Prop}
    (hp : ServerSystem.Passes lost s.sys sys) (hlost : ∀ i, lost i → s.Secure i) :
    Safe { s with sys := sys } := by
  have hstands : ∀ l, s.Stands l → Stands { s with sys := sys } l := by
    intro l hl
    unfold Stands
    rw [hp.returned, hp.base]
    exact hl
  have hcarried : ∀ i, s.Carried i → Carried { s with sys := sys } i := by
    rintro i ⟨l, hl, f, hf, hi⟩
    refine ⟨l, hstands l hl, f, ?_, hi⟩
    rcases List.mem_append.mp hf with hran | hqueued
    · exact List.mem_append_left _ hran
    · exact List.mem_append_right _ (hp.mem hqueued)
  constructor
  · intro l i hwaits
    have hbefore : s.Waits l i := by
      obtain ⟨hreturned, f, hf, hi⟩ := hwaits
      obtain ⟨fs, hfs, hnew⟩ := hp.contents l
      refine ⟨(hp.returned l).symm.trans hreturned, f, ?_, hi⟩
      rw [show ServerSystem.contents sys l = _ from hfs] at hf
      refine (List.mem_append.mp hf).resolve_right ?_
      intro hf
      rw [(hnew f hf).1] at hi
      cases hi
    rcases h.alive l i hbefore with hused | hlisted | hheld
    · exact Or.inl hused
    · by_cases hgone : lost i
      · rcases hlost i hgone l hbefore with hused | hheld
        · exact Or.inl hused
        · exact Or.inr (Or.inr (hcarried i hheld))
      · obtain ⟨name, hname⟩ := listed_iff.mp hlisted
        rcases hp.table name i hname hgone with hstill | ⟨l', hl', f, hf, hi⟩
        · exact Or.inr (Or.inl (listed_iff.mpr ⟨name, hstill⟩))
        · exact Or.inr (Or.inr ⟨l', hl', f, List.mem_append_right _ hf, hi⟩)
    · exact Or.inr (Or.inr (hcarried i hheld))
  · exact h.calls
  · intro l f hf
    rcases List.mem_append.mp hf with hran | hqueued
    · exact (h.placed l f (List.mem_append_left _ hran)).mono hp.base hp.conns
    · obtain ⟨fs, hfs, hnew⟩ := hp.contents l
      rw [show ServerSystem.contents sys l = _ from hfs] at hqueued
      rcases List.mem_append.mp hqueued with hqueued | hqueued
      · exact (h.placed l f (List.mem_append_right _ hqueued)).mono hp.base hp.conns
      · exact (hnew f hqueued).2
  · exact hp.numbered h.numbered

/-- All connections keep their pointers. -/
theorem Safe.keeps (h : s.Safe) {sys : ServerSystem L}
    (hp : ServerSystem.Passes (fun _ => False) s.sys sys) : Safe { s with sys := sys } :=
  h.passes hp fun _ hlost => hlost.elim

theorem home_of_this (h : f.this? = some i) (c : Connection L) : s.sys.home c f = c.loop_ := by
  cases f <;> simp_all [ServerFunctor.this?, ServerSystem.home]

/-- A loop of the pool that returns takes with it no pointer to a connection that a functor
waits for in another loop. -/
theorem Safe.home_ne (h : s.Safe) (hf : f ∈ s.bound l) (hi : f.pointer? = some i)
    (hwaits : s.Waits l' i) (hbase : l ≠ s.sys.server.loop_) : l' = l := by
  obtain ⟨-, g, hg, hgi⟩ := hwaits
  obtain ⟨c, hc, hl⟩ := h.placed l f hf
  obtain ⟨d, hd, hl'⟩ := h.placed l' g (List.mem_append_right _ hg)
  have hsame : f.conn = g.conn := by
    rw [ServerFunctor.conn_of_pointer hi, ServerFunctor.conn_of_this hgi]
  rw [hsame, hd, Option.some.injEq] at hc
  subst hc
  have hgl : l' = d.loop_ := hl'.trans (home_of_this hgi d)
  cases f with
  | removeConnectionInLoop k => exact absurd hl hbase
  | connectEstablished k => exact hgl.trans hl.symm
  | connectDestroyed k => exact hgl.trans hl.symm
  | sendInLoop k message => cases hi
  | shutdownInLoop k => cases hi

theorem this_of_functor {call : UserCall} (h : call.functor? = some f) :
    call.conn? = some f.conn ∧ f.this? = some f.conn := by
  cases call <;> simp only [UserCall.functor?, reduceCtorEq, Option.some.injEq] at h
  · rw [← h]
    exact ⟨rfl, rfl⟩
  · rw [← h]
    exact ⟨rfl, rfl⟩

section Call
variable [DecidableEq T]

theorem Safe.setCall (h : s.Safe) {call : UserCall} (hcall : ∀ i ∈ call.conn?, i ∈ s.pointers t) :
    (s.setCall t call).Safe where
  alive := h.alive
  calls u i hi := by
    by_cases hu : u = t
    · subst hu
      refine hcall i ?_
      simpa [SharedServer.setCall] using hi
    · refine h.calls u i ?_
      simpa [SharedServer.setCall, Function.update_of_ne hu] using hi
  placed := h.placed
  numbered := h.numbered

theorem Safe.hold (h : s.Safe) (i : ℕ) :
    Safe { s with pointers := Function.update s.pointers t (i :: s.pointers t) } := by
  have hmem : ∀ u j, j ∈ s.pointers u →
      j ∈ Function.update s.pointers t (i :: s.pointers t) u := by
    intro u j hj
    by_cases hu : u = t
    · subst hu
      rw [Function.update_self]
      exact List.mem_cons_of_mem _ hj
    · rwa [Function.update_of_ne hu]
  refine ⟨fun l j hwaits => (h.alive l j hwaits).imp (fun hused => ?_) id, fun u j hj => ?_,
    h.placed, h.numbered⟩
  · obtain ⟨u, hu⟩ := hused
    exact ⟨u, hmem u j hu⟩
  · exact hmem u j (h.calls u j hj)

theorem Safe.test (h : s.Safe) {call : UserCall} (hcall : ∀ j ∈ call.conn?, j ∈ s.pointers t)
    (hs : s.test t i call = .ok s') : s'.Safe := by
  unfold SharedServer.test at hs
  split at hs
  · cases hs
  · obtain rfl := pure_eq_ok.mp hs
    split
    · exact h.setCall hcall
    · exact h

theorem Safe.setState (h : s.Safe) (hs : s.setState t = .ok s') : s'.Safe := by
  unfold SharedServer.setState at hs
  split at hs
  · rename_i i hcall
    simp only [bind_eq_ok, pure_eq_ok] at hs
    obtain ⟨sys, hsys, rfl⟩ := hs
    refine (h.keeps (ServerSystem.Passes.onConn hsys)).setCall fun j hj => ?_
    obtain rfl : i = j := by simpa [UserCall.conn?] using hj
    exact h.calls t i (by rw [hcall]; rfl)
  · obtain rfl := pure_eq_ok.mp hs
    exact h

end Call

variable [DecidableEq L]

theorem start_safe {sys : ServerSystem L} (h : ServerSystem.machine.init sys) :
    (start sys : SharedServer L T).Safe := by
  obtain ⟨_, _, _, _, _, rfl⟩ := h
  refine ⟨?_, ?_, ?_, ?_⟩
  · intro l i hwaits
    obtain ⟨-, f, hf, -⟩ := hwaits
    cases hf
  · intro t i hi
    cases hi
  · intro l f hf
    cases hf
  · intro i hi
    cases hi

section Loop

section Pop
variable {queue : BatchQueue ServerFunctor}

/-- The next functor of loop `l` runs, and exists until its batch ends. -/
def popped (s : SharedServer L T) (l : L) (f : ServerFunctor) (queue : BatchQueue ServerFunctor) :
    SharedServer L T :=
  { s with
    sys := s.sys.setLoop l { s.sys.loops l with queue := queue }
    ran := Function.update s.ran l (f :: s.ran l) }

theorem popped_contents (s : SharedServer L T) (l' : L) : (s.popped l f queue).sys.contents l' =
    if l' = l then queue.contents else s.sys.contents l' := by
  show ServerSystem.contents (s.sys.setLoop l _) l' = _
  rw [ServerSystem.contents_setLoop]
  by_cases hne : l' = l
  · subst hne
    simp
  · simp [hne]

theorem popped_returned (s : SharedServer L T) (l' : L) :
    ((s.popped l f queue).sys.loops l').returned = (s.sys.loops l').returned := by
  show ((s.sys.setLoop l _).loops l').returned = _
  rw [ServerSystem.returned_setLoop]
  split
  · rename_i hne
    rw [hne]
  · rfl

theorem popped_bound (hpop : (s.sys.loops l).queue.pop? = some (f, queue)) {g : ServerFunctor} :
    g ∈ (s.popped l f queue).bound l' ↔ g ∈ s.bound l' := by
  have hl : s.sys.contents l = f :: queue.contents := BatchQueue.contents_pop hpop
  rw [bound, bound, popped_contents]
  show g ∈ Function.update s.ran l (f :: s.ran l) l' ++ _ ↔ _
  by_cases hne : l' = l
  · subst hne
    rw [Function.update_self, if_pos rfl, hl]
    simp only [List.mem_append, List.mem_cons]
    exact or_assoc.trans or_left_comm
  · rw [Function.update_of_ne hne, if_neg hne]

theorem waits_of_popped (hpop : (s.sys.loops l).queue.pop? = some (f, queue))
    (h : (s.popped l f queue).Waits l' i) : s.Waits l' i := by
  have hl : s.sys.contents l = f :: queue.contents := BatchQueue.contents_pop hpop
  obtain ⟨hrunning, g, hg, hi⟩ := h
  refine ⟨(popped_returned s l').symm.trans hrunning, g, ?_, hi⟩
  rw [popped_contents] at hg
  split at hg
  · rename_i hne
    rw [hne, hl]
    exact List.mem_cons_of_mem _ hg
  · exact hg

theorem Carried.popped (hpop : (s.sys.loops l).queue.pop? = some (f, queue)) (h : s.Carried i) :
    (s.popped l f queue).Carried i := by
  obtain ⟨l', hl', g, hg, hi⟩ := h
  refine ⟨l', ?_, g, (popped_bound hpop).mpr hg, hi⟩
  exact hl'.imp (popped_returned s l').trans id

theorem Secure.popped (hpop : (s.sys.loops l).queue.pop? = some (f, queue)) (h : s.Secure i) :
    (s.popped l f queue).Secure i := by
  intro l' hwaits
  exact (h l' (waits_of_popped hpop hwaits)).imp id fun hcarried => hcarried.popped hpop

theorem Safe.popped (h : s.Safe) (hpop : (s.sys.loops l).queue.pop? = some (f, queue)) :
    (s.popped l f queue).Safe where
  alive l' i hwaits :=
    (h.alive l' i (waits_of_popped hpop hwaits)).imp id
      fun hrest => hrest.imp id fun hcarried => hcarried.popped hpop
  calls := h.calls
  placed l' g hg :=
    (h.placed l' g ((popped_bound hpop).mp hg)).mono rfl fun _ c hc => ⟨c.tcp, hc⟩
  numbered := h.numbered

end Pop

theorem Safe.runFunctor (h : s.Safe) {w : WriteResult} {sys : ServerSystem L}
    (hsecure : ∀ g ∈ s.sys.next? l, ∀ i ∈ g.removal?, ∀ c ∈ s.sys.conns i,
      ∀ j ∈ s.sys.server.connections_.lookup c.name_, j ≠ i → s.Secure j)
    (hs : s.sys.step (.runFunctor l w) = .ok sys) :
    Safe { s with sys := sys, ran := s.ranAfter (.runFunctor l w) } := by
  simp only [ServerSystem.step] at hs
  cases hpop : (s.sys.loops l).queue.pop? with
  | none =>
    rw [hpop, pure_eq_ok] at hs
    subst hs
    have hran : s.ranAfter (.runFunctor l w) = s.ran := by
      simp [ranAfter, ServerSystem.next?, hpop]
    rw [hran]
    exact h
  | some p =>
    obtain ⟨f, queue⟩ := p
    rw [hpop] at hs
    have hnext : s.sys.next? l = some f := by simp [ServerSystem.next?, hpop]
    have hran : s.ranAfter (.runFunctor l w) = Function.update s.ran l (f :: s.ran l) := by
      simp [ranAfter, hnext]
    rw [hran]
    refine (h.popped hpop).passes (ServerSystem.call_passes hs) fun j hj => ?_
    obtain ⟨i, rfl, hne, c, hc, hname⟩ := hj
    exact (hsecure _ hnext i rfl c hc j hname hne).popped hpop

/-- The batch of loop `l` has ended. -/
def finished (s : SharedServer L T) (l : L) : SharedServer L T :=
  { s with
    sys := s.sys.setLoop l { s.sys.loops l with
      queue := (s.sys.loops l).queue.finish
      returned := (s.sys.loops l).quit_ }
    ran := Function.update s.ran l [] }

theorem finished_contents (hbatch : (s.sys.loops l).queue.batch = some []) :
    (s.finished l).sys.contents = s.sys.contents := by
  show ServerSystem.contents (s.sys.setLoop l _) = _
  rw [ServerSystem.contents_setLoop, BatchQueue.contents_finish hbatch]
  exact Function.update_eq_self l s.sys.contents

theorem finished_returned (s : SharedServer L T) (l l' : L) :
    ((s.finished l).sys.loops l').returned =
      if l' = l then (s.sys.loops l).quit_ else (s.sys.loops l').returned :=
  ServerSystem.returned_setLoop ..

theorem finished_bound (hbatch : (s.sys.loops l).queue.batch = some []) :
    (s.finished l).bound l' = s.boundAfter l l' := by
  rw [bound, boundAfter, finished_contents hbatch]
  show Function.update s.ran l [] l' ++ _ = _
  by_cases hl : l' = l
  · rw [hl, Function.update_self, if_pos rfl, List.nil_append]
  · rw [Function.update_of_ne hl, if_neg hl]
    rfl

theorem boundAfter_sub (hf : f ∈ s.boundAfter l l') : f ∈ s.bound l' := by
  unfold boundAfter at hf
  split at hf
  · exact List.mem_append_right _ hf
  · exact hf

theorem Safe.finish (h : s.Safe) (hfree : s.sys.Free l)
    (hbatch : (s.sys.loops l).queue.batch = some []) (hsp : s.Spares (.loop (.finish l))) :
    (s.finished l).Safe := by
  have hcontents := finished_contents hbatch
  constructor
  · intro l' i hwaits
    have hquit : l' = l → (s.sys.loops l).quit_ = false := by
      intro hl
      have hrunning := hwaits.1
      rwa [finished_returned, if_pos hl] at hrunning
    have hbefore : s.Waits l' i := by
      obtain ⟨hrunning, g, hg, hi⟩ := hwaits
      rw [hcontents] at hg
      refine ⟨?_, g, hg, hi⟩
      by_cases hl : l' = l
      · rw [hl]
        exact hfree.1
      · rwa [finished_returned, if_neg hl] at hrunning
    -- a pointer that the loop leaves is left in a loop that is there
    have hleft : (∃ l'', s.Stands l'' ∧ ∃ f ∈ s.boundAfter l l'', f.pointer? = some i) →
        (s.finished l).Carried i := by
      rintro ⟨l'', hl'', f, hf, hi⟩
      refine ⟨l'', ?_, f, by rwa [finished_bound hbatch], hi⟩
      unfold Stands
      rw [finished_returned]
      by_cases hl : l'' = l
      · subst hl
        rw [if_pos rfl]
        by_cases hbase : l'' = s.sys.server.loop_
        · exact Or.inr hbase
        · exact Or.inl (hquit (h.home_ne (boundAfter_sub hf) hi hbefore hbase))
      · rw [if_neg hl]
        exact hl''
    rcases h.alive l' i hbefore with hused | hlisted | ⟨l'', hl'', f, hf, hi⟩
    · exact Or.inl hused
    · exact Or.inr (Or.inl hlisted)
    · by_cases hran : l'' = l ∧ f ∈ s.ran l
      · rcases hsp f hran.2 i hi l' hbefore hquit with hused | hlisted | hcarried
        · exact Or.inl hused
        · exact Or.inr (Or.inl hlisted)
        · exact Or.inr (Or.inr (hleft hcarried))
      · refine Or.inr (Or.inr (hleft ⟨l'', hl'', f, ?_, hi⟩))
        unfold boundAfter
        split
        · rename_i hl
          refine (List.mem_append.mp hf).resolve_left fun hmem => hran ⟨hl, ?_⟩
          rwa [hl] at hmem
        · exact hf
  · exact h.calls
  · intro l' f hf
    rw [finished_bound hbatch] at hf
    exact (h.placed l' f (boundAfter_sub hf)).mono rfl fun i c hc => ⟨c.tcp, hc⟩
  · exact h.numbered

end Loop

theorem Safe.loop (h : s.Safe) {a : ServerStep L} (he : s.sys.Enabled a) (hreached : s.Reached a)
    (hsp : s.Spares (.loop a)) {sys : ServerSystem L} (hs : s.sys.step a = .ok sys) :
    Safe { s with sys := sys, ran := s.ranAfter a } := by
  cases a with
  | newConnection => exact h.passes (ServerSystem.newConnection_passes h.numbered hs) hsp
  | handleEvent i revents r w =>
    refine h.passes (ServerSystem.handleEvent_passes hs) fun j hj => ?_
    obtain ⟨c, hc, hbase, hends, hne, c', hc', hname⟩ := hj
    obtain rfl := Option.some.inj (hc.symm.trans hc')
    exact hsp c hc hbase hends j hname hne
  | send i inLoop data w =>
    obtain ⟨rfl, -⟩ := hreached
    exact h.keeps (ServerSystem.send_passes hs)
  | shutdown i inLoop =>
    obtain ⟨rfl, -⟩ := hreached
    exact h.keeps (ServerSystem.shutdown_passes hs)
  | setHighWaterMarkCallback i highWaterMark =>
    simp only [ServerSystem.step] at hs
    exact h.keeps (ServerSystem.Passes.onConn hs)
  | swap l =>
    obtain rfl := pure_eq_ok.mp hs
    have hcontents := BatchQueue.contents_swap he.2
    exact h.keeps (ServerSystem.Passes.setLoop hcontents rfl)
  | runFunctor l w => exact h.runFunctor hsp hs
  | finish l =>
    obtain rfl := pure_eq_ok.mp hs
    exact h.finish he.1 he.2 hsp
  | quit l =>
    obtain rfl := pure_eq_ok.mp hs
    exact h.keeps (ServerSystem.Passes.setLoop rfl rfl)
  | destroy =>
    refine h.passes (ServerSystem.destroy_passes hs) fun j hj => ?_
    obtain ⟨e, he, rfl, hbase⟩ := hj
    exact hsp e he hbase
  | joined =>
    obtain rfl := pure_eq_ok.mp hs
    exact ⟨h.alive, h.calls, h.placed, h.numbered⟩

section User
variable [DecidableEq T]

theorem Safe.release (h : s.Safe) (hidle : s.calls t = .idle) (hsp : s.Spares (.release t i)) :
    Safe { s with pointers := Function.update s.pointers t ((s.pointers t).erase i) } := by
  have hmem : ∀ u j, u ≠ t ∨ j ≠ i → j ∈ s.pointers u →
      j ∈ Function.update s.pointers t ((s.pointers t).erase i) u := by
    intro u j hne hj
    by_cases hu : u = t
    · subst hu
      rw [Function.update_self]
      exact (List.mem_erase_of_ne (hne.resolve_left (by simp))).mpr hj
    · rwa [Function.update_of_ne hu]
  refine ⟨fun l j hwaits => ?_, fun u j hj => ?_, h.placed, h.numbered⟩
  · by_cases hji : j = i
    · subst hji
      rcases hsp l hwaits with hself | ⟨u, hu, hother⟩ | hrest
      · exact Or.inl ⟨t, by simpa using hself⟩
      · exact Or.inl ⟨u, hmem u j (Or.inl hu) hother⟩
      · exact Or.inr hrest
    · refine (h.alive l j hwaits).imp (fun hused => ?_) id
      obtain ⟨u, hu⟩ := hused
      exact ⟨u, hmem u j (Or.inr hji) hu⟩
  · -- the thread is not inside a call
    have hut : u ≠ t := by
      rintro rfl
      rw [hidle] at hj
      cases hj
    exact hmem u j (Or.inl hut) (h.calls u j hj)

/-- The thread that queues the functor has a pointer to the connection. -/
theorem Safe.queue (h : s.Safe) (hs : s.queue t = .ok s') : s'.Safe := by
  unfold SharedServer.queue at hs
  split at hs
  · obtain rfl := pure_eq_ok.mp hs
    exact h
  · rename_i f hf
    obtain ⟨hconn, hthis⟩ := this_of_functor hf
    split at hs
    · cases hs
    · rename_i c hc
      simp only [bind_eq_ok, pure_eq_ok] at hs
      obtain ⟨sys, hsys, rfl⟩ := hs
      obtain ⟨rfl, hl⟩ := ServerSystem.queueInLoop_cases hsys
      have hpushed : Safe { s with sys := s.sys.pushed c.loop_ f } := by
        refine ⟨?_, h.calls, ?_, h.numbered⟩
        · rintro l j ⟨hrunning, g, hg, hj⟩
          rw [ServerSystem.returned_pushed] at hrunning
          rcases ServerSystem.mem_pushed.mp hg with hg | ⟨-, rfl⟩
          · refine (h.alive l j ⟨hrunning, g, hg, hj⟩).imp id fun hrest => hrest.imp id ?_
            rintro ⟨l', hl', g', hg', hj'⟩
            refine ⟨l', ?_, g', ?_, hj'⟩
            · exact hl'.imp (ServerSystem.returned_pushed c.loop_ f l').trans id
            · refine (List.mem_append.mp hg').elim (List.mem_append_left _) fun hmem => ?_
              exact List.mem_append_right _ (ServerSystem.mem_pushed.mpr (Or.inl hmem))
          · obtain rfl : g.conn = j := Option.some.inj (hthis.symm.trans hj)
            exact Or.inl ⟨t, h.calls t _ hconn⟩
        · intro l g hg
          rcases List.mem_append.mp hg with hg | hg
          · exact h.placed l g (List.mem_append_left _ hg)
          · rcases ServerSystem.mem_pushed.mp hg with hg | ⟨rfl, rfl⟩
            · exact h.placed l g (List.mem_append_right _ hg)
            · exact ⟨c, hc, (home_of_this hthis c).symm⟩
      refine hpushed.setCall fun j hj => ?_
      cases hj

end User

variable [DecidableEq T]

theorem step_safe (h : s.Safe) {a : SharedStep L T} (he : s.Enabled a) (hsp : s.Spares a)
    (hs : s.step a = .ok s') : s'.Safe := by
  cases a with
  | loop a =>
    simp only [step, bind_eq_ok, pure_eq_ok] at hs
    obtain ⟨sys, hsys, rfl⟩ := hs
    exact h.loop he.1 he.2 hsp hsys
  | hold t i =>
    obtain rfl := pure_eq_ok.mp hs
    exact h.hold i
  | release t i =>
    obtain rfl := pure_eq_ok.mp hs
    exact h.release he.1 hsp
  | send t i data =>
    refine h.test (fun j hj => ?_) hs
    obtain rfl : i = j := by simpa [UserCall.conn?] using hj
    exact he.2
  | shutdown t i =>
    refine h.test (fun j hj => ?_) hs
    obtain rfl : i = j := by simpa [UserCall.conn?] using hj
    exact he.2
  | setState t => exact h.setState hs
  | queue t => exact h.queue hs

theorem safe_of_reachable
    (h : ((machine : Machine (SharedServer L T) _ _).restrict Spares).Reachable s) : s.Safe := by
  refine h.invariant (I := Safe) ?_ ?_
  · rintro _ ⟨sys, hsys, rfl⟩
    exact start_safe hsys
  · rintro u a u' hu ⟨he, hsp⟩ hs
    exact step_safe hu he hsp hs

/-- As long as no step gives up the last pointer to a connection for which a functor of `send`
or `shutdown` waits, every such functor that a loop runs finds its connection. -/
theorem functor_alive
    (h : ((machine : Machine (SharedServer L T) _ _).restrict Spares).Reachable s)
    {w : WriteResult} (he : s.Enabled (.loop (.runFunctor l w))) (hf : s.sys.next? l = some f)
    (hi : f.this? = some i) : s.Alive i := by
  obtain ⟨⟨hfree, -⟩, -⟩ := he
  obtain ⟨p, hp, rfl⟩ := Option.map_eq_some_iff.mp hf
  have hcontents := BatchQueue.contents_pop hp
  refine (safe_of_reachable h).alive l i ⟨hfree.1, p.1, ?_, hi⟩
  rw [ServerSystem.contents, hcontents]
  exact List.mem_cons_self

section Sample

section Decidable
variable [Fintype L] [Fintype T] (s : SharedServer L T)

instance (i : ℕ) : Decidable (s.Secure i) :=
  inferInstanceAs (Decidable (∀ l, s.Waits l i → s.Used i ∨ s.Carried i))

instance (a : SharedStep L T) : Decidable (s.Spares a) :=
  match a with
  | .release t i => inferInstanceAs (Decidable (∀ l, s.Waits l i →
      i ∈ (s.pointers t).erase i ∨ (∃ u, u ≠ t ∧ i ∈ s.pointers u) ∨ s.Listed i ∨ s.Carried i))
  | .loop (.finish l) => inferInstanceAs (Decidable (∀ f ∈ s.ran l, ∀ i ∈ f.pointer?, ∀ l',
      s.Waits l' i → (l' = l → (s.sys.loops l).quit_ = false) → s.Used i ∨ s.Listed i ∨
        ∃ l', s.Stands l' ∧ ∃ f ∈ s.boundAfter l l', f.pointer? = some i))
  | .loop .destroy => inferInstanceAs (Decidable (∀ e ∈ s.sys.server.connections_.entries,
      (∀ c ∈ s.sys.conns e.2, c.loop_ = s.sys.server.loop_) → s.Secure e.2))
  | .loop .newConnection => inferInstanceAs (Decidable
      (∀ j ∈ s.sys.server.connections_.lookup s.sys.server.connName, s.Secure j))
  | .loop (.handleEvent i revents r _) => inferInstanceAs (Decidable (∀ c ∈ s.sys.conns i,
      c.loop_ = s.sys.server.loop_ → TcpConnection.Ends revents r →
      ∀ j ∈ s.sys.server.connections_.lookup c.name_, j ≠ i → s.Secure j))
  | .loop (.runFunctor l _) => inferInstanceAs (Decidable (∀ f ∈ s.sys.next? l, ∀ i ∈ f.removal?,
      ∀ c ∈ s.sys.conns i, ∀ j ∈ s.sys.server.connections_.lookup c.name_, j ≠ i → s.Secure j))
  | .loop (.send ..) | .loop (.shutdown ..) | .loop (.setHighWaterMarkCallback ..) | .loop (.swap _)
  | .loop (.quit _) | .loop .joined | .hold .. | .send .. | .shutdown .. | .setState _ | .queue _ =>
      instDecidableTrue

instance (a : SharedStep L T) :
    Decidable (((machine : Machine (SharedServer L T) _ _).restrict Spares).enabled s a) :=
  inferInstanceAs (Decidable (s.Enabled a ∧ s.Spares a))

end Decidable

/-- An acceptor in the loop `true`, with a pool that has the loop `false`, and two threads. -/
def shared : SharedServer Bool Bool :=
  start (ServerSystem.start "127.0.0.1:9981".toList "Server".toList true true [false])

/-- A connection is established, and a thread reads `kConnected` in a call of `send`. -/
def callSteps : List (SharedStep Bool Bool) :=
  [.loop .newConnection, .loop (.swap false), .loop (.runFunctor false (.wrote 0)),
    .loop (.finish false), .hold true 1, .send true 1 [104]]

/-- The call ends, and the thread gives up its pointer while the functor waits. -/
theorem functor_alive_sample : ∃ s : SharedServer Bool Bool,
    s.sys.next? false = some (.sendInLoop 1 [104]) ∧ ¬ s.Used 1 ∧ s.Alive 1 := by
  have hrun : (((machine : Machine (SharedServer Bool Bool) _ _).restrict Spares).execute shared
      (callSteps ++ [.queue true, .release true 1, .loop (.swap false)])).map (fun s =>
        (decide (s.Enabled (.loop (.runFunctor false (.wrote 1)))), s.sys.next? false,
          decide (s.Used 1))) = some (true, some (.sendInLoop 1 [104]), false) := by
    decide +kernel
  obtain ⟨s, hs, hview⟩ := Option.map_eq_some_iff.mp hrun
  simp only [Prod.mk.injEq, decide_eq_true_eq, decide_eq_false_iff_not] at hview
  obtain ⟨he, hnext, hused⟩ := hview
  have hreach : ((machine : Machine (SharedServer Bool Bool) _ _).restrict Spares).Reachable s :=
    ⟨shared, _, ⟨_, ⟨_, _, _, _, _, rfl⟩, rfl⟩, run_of_execute _ hs⟩
  exact ⟨s, hnext, hused, functor_alive hreach he hnext rfl⟩

/-- The connection is closed between the state test and the queueing. -/
theorem functor_of_dead_connection : ∃ s : SharedServer Bool Bool, machine.Reachable s ∧
    s.Enabled (.loop (.runFunctor false (.wrote 0))) ∧
    s.sys.next? false = some (.sendInLoop 1 [104]) ∧ ¬ s.Alive 1 := by
  have hrun : ((machine : Machine (SharedServer Bool Bool) _ _).execute shared
      (callSteps ++ [.loop (.handleEvent 1 {.POLLIN} (.bytes []) (.wrote 0)), .loop (.swap true),
        .loop (.runFunctor true (.wrote 0)), .loop (.finish true), .loop (.swap false),
        .loop (.runFunctor false (.wrote 0)), .loop (.finish false), .queue true, .release true 1,
        .loop (.swap false)])).map (fun s =>
        (decide (s.Enabled (.loop (.runFunctor false (.wrote 0)))), s.sys.next? false,
          decide (s.Alive 1))) = some (true, some (.sendInLoop 1 [104]), false) := by
    decide +kernel
  obtain ⟨s, hs, hview⟩ := Option.map_eq_some_iff.mp hrun
  simp only [Prod.mk.injEq, decide_eq_true_eq, decide_eq_false_iff_not] at hview
  have hreach : (machine : Machine (SharedServer Bool Bool) _ _).Reachable s :=
    ⟨shared, _, ⟨_, ⟨_, _, _, _, _, rfl⟩, rfl⟩, run_of_execute _ hs⟩
  exact ⟨s, hreach, hview.1, hview.2.1, hview.2.2⟩

end Sample

end SharedServer

end MuduoServer
