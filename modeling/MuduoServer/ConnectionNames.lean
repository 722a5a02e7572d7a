import MuduoServer.ServerInvariant

/-!
The names of connections. `newConnection` prints the server's address and the number of the
connection into a buffer of 32, so a long number is cut: only its first digits are shown.
Two names are equal exactly when the shown digits are, and as long as every new number
shows digits that no number in the table shows, names tell the connections apart.
-/
namespace MuduoServer

open FaultMachine FaultMachine.Machine

namespace TcpServer
variable {L : Type} {t : TcpServer L} {i j : ℕ}

/-- The name that connection `i` gets. -/
def nameOf (t : TcpServer L) (i : ℕ) : Name :=
  t.name_ ++ (':' :: t.hostport_ ++ '#' :: Nat.toDigits 10 i).take 31

/-- The digits of `i` that fit into the buffer behind `:`, the address and `#`. -/
def shown (t : TcpServer L) (i : ℕ) : List Char :=
  (Nat.toDigits 10 i).take (29 - t.hostport_.length)

theorem connName_eq : t.connName = t.nameOf t.nextConnId_ := rfl

theorem nameOf_eq_iff : t.nameOf i = t.nameOf j ↔ t.shown i = t.shown j := by
  have hcut : ∀ k, (':' :: t.hostport_ ++ '#' :: Nat.toDigits 10 k).take 31 =
      (':' :: t.hostport_ ++ ['#']).take 31 ++ t.shown k := by
    intro k
    have hlen : 31 - (':' :: t.hostport_ ++ ['#']).length = 29 - t.hostport_.length := by
      simp only [List.length_append, List.length_cons, List.length_nil]
      omega
    rw [List.append_cons, List.take_append, hlen]
    rfl
  rw [nameOf, nameOf, hcut, hcut, List.append_cancel_left_eq, List.append_cancel_left_eq]

theorem toDigits_inj (h : Nat.toDigits 10 i = Nat.toDigits 10 j) : i = j := by
  rw [← Nat.ofDigitChars_ten_toDigits (n := i), h, Nat.ofDigitChars_ten_toDigits]

/-- Numbers that are shown whole are told apart. -/
theorem shown_inj (hi : i < 10 ^ (29 - t.hostport_.length))
    (hj : j < 10 ^ (29 - t.hostport_.length)) (h : t.shown i = t.shown j) : i = j := by
  rcases Nat.eq_zero_or_pos (29 - t.hostport_.length) with hzero | hpos
  · rw [hzero, pow_zero] at hi hj
    omega
  have hwhole : ∀ k, k < 10 ^ (29 - t.hostport_.length) → t.shown k = Nat.toDigits 10 k := by
    intro k hk
    exact List.take_of_length_le ((Nat.length_toDigits_le_iff (by decide) hpos).mpr hk)
  rw [hwhole i hi, hwhole j hj] at h
  exact toDigits_inj h

end TcpServer

namespace ServerSystem
variable {L : Type} {s s' t : ServerSystem L} {i j : ℕ} {c : Connection L}

/-- The texts of the server and the names of the connections stay. -/
structure KeepsNames (s s' : ServerSystem L) : Prop where
  hostport : s'.server.hostport_ = s.server.hostport_
  name : s'.server.name_ = s.server.name_
  conns : ∀ i c', s'.conns i = some c' → ∃ c, s.conns i = some c ∧ c'.name_ = c.name_

theorem KeepsNames.refl (s : ServerSystem L) : s.KeepsNames s :=
  ⟨rfl, rfl, fun _ c hc => ⟨c, hc, rfl⟩⟩

theorem KeepsNames.trans (h : s.KeepsNames s') (h' : s'.KeepsNames t) : s.KeepsNames t where
  hostport := h'.hostport.trans h.hostport
  name := h'.name.trans h.name
  conns i c hc := by
    obtain ⟨d, hd, hname⟩ := h'.conns i c hc
    obtain ⟨e, he, hname'⟩ := h.conns i d hd
    exact ⟨e, he, hname.trans hname'⟩

theorem keepsNames_setConn (hc : s.conns i = some c) (tcp : TcpConnection) :
    s.KeepsNames (s.setConn i { c with tcp := tcp }) := by
  refine ⟨rfl, rfl, fun j d hd => ?_⟩
  by_cases hj : j = i
  · subst hj
    simp only [setConn, Function.update_self, Option.some.injEq] at hd
    exact ⟨c, hc, hd ▸ rfl⟩
  · simp only [setConn, Function.update_of_ne hj] at hd
    exact ⟨d, hd, rfl⟩

theorem keepsNames_onConn {g : TcpConnection → Except TcpConnection.Fault TcpConnection}
    (hs : s.onConn i g = .ok s') : s.KeepsNames s' := by
  unfold onConn at hs
  cases hc : s.conns i with
  | none => simp [hc] at hs
  | some c =>
    simp only [hc, bind_eq_ok, mapError_ok_iff, pure_eq_ok] at hs
    obtain ⟨tcp, -, rfl⟩ := hs
    exact keepsNames_setConn hc tcp

variable [DecidableEq L]

theorem keepsNames_queueInLoop {l : L} {f : ServerFunctor} (hs : s.queueInLoop l f = .ok s') :
    s.KeepsNames s' := by
  simp only [queueInLoop, bind_eq_ok, pure_eq_ok] at hs
  obtain ⟨-, -, rfl⟩ := hs
  exact ⟨rfl, rfl, fun _ c hc => ⟨c, hc, rfl⟩⟩

theorem keepsNames_removeConnectionInLoop (hs : s.removeConnectionInLoop i = .ok s') :
    s.KeepsNames s' := by
  simp only [removeConnectionInLoop, bind_eq_ok] at hs
  obtain ⟨-, -, hs⟩ := hs
  cases hc : s.conns i with
  | none => simp [hc] at hs
  | some c =>
    simp only [hc, bind_eq_ok] at hs
    obtain ⟨-, -, hs⟩ := hs
    obtain ⟨hhost, hname, hconns⟩ := keepsNames_queueInLoop hs
    exact ⟨hhost, hname, hconns⟩

theorem keepsNames_call {w : WriteResult} {f : ServerFunctor} (hs : s.call w f = .ok s') :
    s.KeepsNames s' := by
  cases f with
  | connectEstablished | sendInLoop | shutdownInLoop =>
    simp only [call] at hs
    exact keepsNames_onConn hs
  | removeConnectionInLoop => exact keepsNames_removeConnectionInLoop hs
  | connectDestroyed i =>
    simp only [call, bind_eq_ok, pure_eq_ok] at hs
    obtain ⟨m, hm, rfl⟩ := hs
    obtain ⟨hhost, hname, hconns⟩ := keepsNames_onConn hm
    exact ⟨hhost, hname, hconns⟩

theorem keepsNames_runInLoop {thread l : L} {f : ServerFunctor}
    (hs : s.runInLoop thread l f = .ok s') : s.KeepsNames s' := by
  unfold runInLoop at hs
  split at hs
  · exact keepsNames_call hs
  · exact keepsNames_queueInLoop hs

theorem keepsNames_destroyEntries {es : List (Σ _ : Name, ℕ)} (hs : destroyEntries es s = .ok s') :
    s.KeepsNames s' := by
  induction es generalizing s with
  | nil =>
    obtain rfl := Except.ok.inj hs
    exact .refl s
  | cons e es ih =>
    simp only [destroyEntries, bind_eq_ok] at hs
    obtain ⟨m, hm, hs⟩ := hs
    refine KeepsNames.trans ?_ (ih hs)
    unfold destroyEntry at hm
    cases hc : s.conns e.2 with
    | none => simp [hc] at hm
    | some c =>
      simp only [hc] at hm
      obtain ⟨hhost, hname, hconns⟩ := keepsNames_runInLoop hm
      exact ⟨hhost, hname, hconns⟩

theorem keepsNames_step {a : ServerStep L} (ha : a ≠ .newConnection) (hs : s.step a = .ok s') :
    s.KeepsNames s' := by
  cases a with
  | newConnection => exact absurd rfl ha
  | handleEvent i revents r w =>
    simp only [step, handleEvent] at hs
    cases hc : s.conns i with
    | none => simp [hc] at hs
    | some c =>
      simp only [hc, bind_eq_ok, mapError_ok_iff] at hs
      obtain ⟨tcp, -, hs⟩ := hs
      refine (keepsNames_setConn hc tcp).trans ?_
      split at hs
      · simp only [removeConnection, bind_eq_ok] at hs
        obtain ⟨-, -, hs⟩ := hs
        exact keepsNames_runInLoop hs
      · obtain rfl := pure_eq_ok.mp hs
        exact .refl _
  | send i inLoop data w =>
    simp only [step, send] at hs
    cases hc : s.conns i with
    | none => simp [hc] at hs
    | some c =>
      simp only [hc] at hs
      split at hs
      · split at hs
        · exact keepsNames_call hs
        · exact keepsNames_queueInLoop hs
      · obtain rfl := pure_eq_ok.mp hs
        exact .refl _
  | shutdown i inLoop =>
    simp only [step, shutdown] at hs
    cases hc : s.conns i with
    | none => simp [hc] at hs
    | some c =>
      simp only [hc] at hs
      split at hs
      · obtain rfl := pure_eq_ok.mp hs
        exact .refl _
      · rename_i tcp _
        refine (keepsNames_setConn hc tcp).trans ?_
        split at hs
        · exact keepsNames_call hs
        · exact keepsNames_queueInLoop hs
  | setHighWaterMarkCallback =>
    simp only [step] at hs
    exact keepsNames_onConn hs
  | swap | finish | quit | joined =>
    obtain rfl := pure_eq_ok.mp hs
    exact ⟨rfl, rfl, fun _ c hc => ⟨c, hc, rfl⟩⟩
  | runFunctor l w =>
    simp only [step] at hs
    split at hs
    · obtain rfl := pure_eq_ok.mp hs
      exact .refl _
    · obtain ⟨hhost, hname, hconns⟩ := keepsNames_call hs
      exact ⟨hhost, hname, hconns⟩
  | destroy =>
    simp only [step, destroy, bind_eq_ok, pure_eq_ok] at hs
    obtain ⟨m, hm, rfl⟩ := hs
    obtain ⟨hhost, hname, hconns⟩ := keepsNames_destroyEntries hm
    exact ⟨hhost, hname, hconns⟩

/-- Every connection has the name made from its number. -/
def Named (s : ServerSystem L) : Prop :=
  ∀ i c, s.conns i = some c → c.name_ = s.server.nameOf i

omit [DecidableEq L] in
theorem Named.keeps (h : s.Named) (hk : s.KeepsNames s') : s'.Named := by
  intro i c' hc'
  obtain ⟨c, hc, hname⟩ := hk.conns i c' hc'
  rw [hname, h i c hc, TcpServer.nameOf, TcpServer.nameOf, hk.hostport, hk.name]

theorem Named.step {a : ServerStep L} (h : s.Named) (hs : s.step a = .ok s') : s'.Named := by
  cases a with
  | newConnection =>
    simp only [ServerSystem.step, newConnection, bind_eq_ok] at hs
    obtain ⟨-, -, hs⟩ := hs
    refine Named.keeps ?_ (keepsNames_runInLoop hs)
    intro i c hc
    by_cases hi : i = s.server.nextConnId_
    · subst hi
      simp only [setConn, Function.update_self, Option.some.injEq] at hc
      exact hc ▸ rfl
    · simp only [setConn, Function.update_of_ne hi] at hc
      exact h i c hc
  | handleEvent | send | shutdown | setHighWaterMarkCallback | swap | runFunctor | finish | quit
  | destroy | joined => exact h.keeps (keepsNames_step (by simp) hs)

/-- The shown digits of the new number are those of no number in the table. -/
def ShowsApart (s : ServerSystem L) : ServerStep L → Prop
  | .newConnection => ∀ e ∈ s.server.connections_.entries,
      s.server.shown e.2 ≠ s.server.shown s.server.nextConnId_
  | .handleEvent _ _ _ _ | .send _ _ _ _ | .shutdown _ _ | .setHighWaterMarkCallback _ _
  | .swap _ | .runFunctor _ _ | .finish _ | .quit _ | .destroy | .joined => True

omit [DecidableEq L] in
theorem freshName_iff (hgood : s.Good) (hnamed : s.Named) {a : ServerStep L} :
    s.FreshName a ↔ s.ShowsApart a := by
  cases a with
  | newConnection =>
    simp only [FreshName, ShowsApart, TcpServer.connName_eq]
    rw [← not_iff_not, not_not]
    push Not
    constructor
    · intro hmem
      obtain ⟨i, hlook⟩ := Option.isSome_iff_exists.mp (AList.lookup_isSome.mpr hmem)
      obtain ⟨c, hc, hname⟩ := hgood.tracked.entries _ i hlook
      refine ⟨⟨_, i⟩, AList.mem_lookup_iff.mp hlook, ?_⟩
      rw [← TcpServer.nameOf_eq_iff, ← hnamed i c hc, hname]
    · rintro ⟨⟨name, i⟩, hentry, hshown⟩
      have hlook := AList.mem_lookup_iff.mpr hentry
      obtain ⟨c, hc, hname⟩ := hgood.tracked.entries name i hlook
      rw [← TcpServer.nameOf_eq_iff.mpr hshown, ← hnamed i c hc, hname]
      exact AList.lookup_isSome.mp (Option.isSome_iff_exists.mpr ⟨i, hlook⟩)
  | handleEvent | send | shutdown | setHighWaterMarkCallback | swap | runFunctor | finish | quit
  | destroy | joined => exact Iff.rfl

/-- The names tell the connections that are not removed apart; a new connection takes the
entry of another one just when their shown digits agree, and not as long as the numbers
are shown whole; and a removal, which is called for a connection in the table, takes out
its entry and no other. -/
structure NamesApart (s : ServerSystem L) : Prop where
  apart : s.life = .serving → ∀ i j c d, s.conns i = some c → s.conns j = some d →
    i ∉ s.removed → j ∉ s.removed → c.name_ = d.name_ → i = j
  overwrites : s.server.connName ∉ s.server.connections_ ↔ s.ShowsApart .newConnection
  early : s.server.nextConnId_ < 10 ^ (29 - s.server.hostport_.length) →
    s.ShowsApart .newConnection
  waiting : s.life = .serving → ∀ i, .removeConnectionInLoop i ∈ s.contents s.server.loop_ →
    i ∉ s.removed
  removes : ∀ i s', i ∉ s.removed → s.removeConnectionInLoop i = .ok s' → ∀ name j,
    s'.server.connections_.lookup name = some j ↔
      s.server.connections_.lookup name = some j ∧ j ≠ i

omit [DecidableEq L] in
theorem Good.showsApart_of_lt (hgood : s.Good)
    (hlt : s.server.nextConnId_ < 10 ^ (29 - s.server.hostport_.length)) :
    s.ShowsApart .newConnection := by
  rintro ⟨name, i⟩ hentry hshown
  obtain ⟨c, hc, -⟩ := hgood.tracked.entries name i (AList.mem_lookup_iff.mpr hentry)
  have hi : i < s.server.nextConnId_ := hgood.tracked.lt hc
  exact absurd (TcpServer.shown_inj (hi.trans hlt) hlt hshown) (Nat.ne_of_lt hi)

theorem Good.removes (hgood : s.Good) (hi : i ∉ s.removed)
    (hs : s.removeConnectionInLoop i = .ok s') (name : Name) (j : ℕ) :
    s'.server.connections_.lookup name = some j ↔
      s.server.connections_.lookup name = some j ∧ j ≠ i := by
  simp only [removeConnectionInLoop, bind_eq_ok] at hs
  obtain ⟨-, -, hs⟩ := hs
  cases hc : s.conns i with
  | none => simp [hc] at hs
  | some c =>
    simp only [hc, bind_eq_ok, check_eq_ok, queueInLoop, pure_eq_ok] at hs
    obtain ⟨-, hmem, -, -, rfl⟩ := hs
    have hserving : s.life = .serving := by
      by_contra hdown
      rw [hgood.settled.emptied hdown] at hmem
      exact AList.notMem_empty _ hmem
    have hlook := (hgood.settled.serving hserving i c hc).mpr hi
    change (s.server.connections_.erase c.name_).lookup name = some j ↔ _
    by_cases hname : name = c.name_
    · subst hname
      rw [AList.lookup_erase, hlook, Option.some.injEq]
      constructor
      · intro h
        cases h
      · rintro ⟨rfl, hne⟩
        exact absurd rfl hne
    · rw [AList.lookup_erase_ne hname]
      refine ⟨fun h => ⟨h, ?_⟩, fun h => h.1⟩
      rintro rfl
      obtain ⟨d, hd, hdname⟩ := hgood.tracked.entries name j h
      obtain rfl := Option.some.inj (hc.symm.trans hd)
      exact hname hdname.symm

theorem Good.namesApart (hgood : s.Good) (hnamed : s.Named) : s.NamesApart where
  apart hserving i j c d hc hd hi hj hname := by
    have hlook := (hgood.settled.serving hserving i c hc).mpr hi
    have hlook' := (hgood.settled.serving hserving j d hd).mpr hj
    rw [hname] at hlook
    exact Option.some.inj (hlook.symm.trans hlook')
  overwrites := freshName_iff hgood hnamed (a := .newConnection)
  early := hgood.showsApart_of_lt
  waiting _ i hin := by
    obtain ⟨c, hc, -⟩ := hgood.tracked.placed _ _ hin
    have hunrun := (hgood.tracked.tracks i c hc).unrun
      (Nat.pos_iff_ne_zero.mp (List.count_pos_iff.mpr hin))
    simpa [ledger] using hunrun
  removes _ _ := hgood.removes

theorem named_of_reachable
    (h : ((machine : Machine (ServerSystem L) _ _).restrict ShowsApart).Reachable s) :
    s.Good ∧ s.Named := by
  refine h.invariant (I := fun s => s.Good ∧ s.Named) ?_ ?_
  · rintro s₀ ⟨hostport_, name_, writeComplete, baseLoop_, loops_, rfl⟩
    exact ⟨start_good .., fun i c hc => by simp [start] at hc⟩
  · intro s a s' hinv he hs
    obtain ⟨hgood, hnamed⟩ := hinv
    have hfresh := (freshName_iff hgood hnamed).mpr he.2
    exact ⟨((hgood.step he.1 hfresh).of_ok hs).1, hnamed.step hs⟩

/-- In a run in which every new number shows digits that no number in the table shows. -/
theorem connection_names
    (h : ((machine : Machine (ServerSystem L) _ _).restrict ShowsApart).Reachable s) :
    s.NamesApart := by
  obtain ⟨hgood, hnamed⟩ := named_of_reachable h
  exact hgood.namesApart hnamed

section Sample

instance (s : ServerSystem L) (a : ServerStep L) : Decidable (s.ShowsApart a) :=
  match a with
  | .newConnection => inferInstanceAs (Decidable (∀ e ∈ s.server.connections_.entries, _))
  | .handleEvent _ _ _ _ | .send _ _ _ _ | .shutdown _ _ | .setHighWaterMarkCallback _ _
  | .swap _ | .runFunctor _ _ | .finish _ | .quit _ | .destroy | .joined => instDecidableTrue

instance (s : ServerSystem L) (a : ServerStep L) :
    Decidable (((machine : Machine (ServerSystem L) _ _).restrict ShowsApart).enabled s a) :=
  inferInstanceAs (Decidable (s.Enabled a ∧ s.ShowsApart a))

/-- The longest text of an IPv4 address and port. -/
def longestHostport : List Char := "255.255.255.255:65535".toList

def singleLoop : ServerSystem Unit :=
  start longestHostport ['s'] false () []

theorem connection_names_sample :
    ∃ s : ServerSystem Unit, s.server.nextConnId_ = 3 ∧ s.NamesApart := by
  have h : ((machine.restrict ShowsApart).execute singleLoop
      [.newConnection, .newConnection]).map (fun s => s.server.nextConnId_) = some 3 := by
    decide +kernel
  obtain ⟨s, hs, hview⟩ := Option.map_eq_some_iff.mp h
  exact ⟨s, hview, connection_names ⟨_, _, ⟨_, _, _, _, _, rfl⟩, run_of_execute _ hs⟩⟩

/-- The server after `n` connections, none of which was closed. -/
structure Crowd (n : ℕ) (s : ServerSystem Unit) : Prop where
  server : ∃ table, s.server = { singleLoop.server with
    nextConnId_ := n + 1, connections_ := table }
  serving : s.life = .serving
  loops : s.loops = singleLoop.loops
  removed : s.removed = []
  conns : ∀ i, 0 < i → i ≤ n → ∃ c, s.conns i = some c ∧ c.name_ = s.server.nameOf i ∧
    c.tcp.state_ = .kConnected
  table : ∀ i, 0 < i → i ≤ n → s.server.nameOf i ∈ s.server.connections_

theorem crowd_zero : Crowd 0 singleLoop where
  server := ⟨∅, rfl⟩
  serving := rfl
  loops := rfl
  removed := rfl
  conns i hpos hi := absurd hpos (by omega)
  table i hpos hi := absurd hpos (by omega)

theorem Crowd.enabled {n : ℕ} {s : ServerSystem Unit} (h : Crowd n s) :
    s.Enabled .newConnection := by
  refine ⟨h.serving, ⟨?_, fun _ => ?_⟩, ?_⟩
  · rw [h.loops]
    rfl
  · simp [h.serving]
  · rw [h.loops]
    rfl

theorem Crowd.newConnection {n : ℕ} {s : ServerSystem Unit} (h : Crowd n s)
    (hn : n + 2 < 2 ^ 31) : ∃ s', s.step .newConnection = .ok s' ∧ Crowd (n + 1) s' := by
  obtain ⟨table, hserver⟩ := h.server
  obtain ⟨tcp, htcp, hstate⟩ : ∃ tcp, (TcpConnection.new false false
      (64 * 1024 * 1024)).connectEstablished = .ok tcp ∧ tcp.state_ = .kConnected :=
    ⟨_, TcpConnection.connectEstablished_eq_ok.mpr ⟨rfl, rfl⟩, rfl⟩
  have hlimit : n + 1 + 1 < 2 ^ 31 := hn
  refine ⟨{ s with
    server := { s.server with
      nextConnId_ := n + 1 + 1
      connections_ := s.server.connections_.insert (s.server.nameOf (n + 1)) (n + 1) }
    conns := Function.update s.conns (n + 1)
      (some { loop_ := (), name_ := s.server.nameOf (n + 1), tcp := tcp }) }, ?_, ?_⟩
  · simp only [step, ServerSystem.newConnection, check_of hlimit, ok_bind, TcpServer.connName_eq,
      hserver, singleLoop, start]
    simp [runInLoop, call, onConn, setConn, htcp, bind, Except.bind, pure, Except.pure]
    rfl
  · refine ⟨⟨_, by rw [hserver]⟩, h.serving, h.loops, h.removed, fun i hpos hi => ?_,
      fun i hpos hi => ?_⟩
    · by_cases hlast : i = n + 1
      · subst hlast
        exact ⟨_, Function.update_self .., rfl, hstate⟩
      · obtain ⟨c, hc, hname, hconnected⟩ := h.conns i hpos (by omega)
        exact ⟨c, (Function.update_of_ne hlast ..).trans hc, hname, hconnected⟩
    · change s.server.nameOf i ∈ s.server.connections_.insert _ _
      rw [AList.mem_insert]
      by_cases hlast : i = n + 1
      · exact Or.inl (by rw [hlast])
      · exact Or.inr (h.table i hpos (by omega))

theorem exists_crowd (n : ℕ) (hn : n + 1 < 2 ^ 31) :
    ∃ s, (machine : Machine (ServerSystem Unit) _ _).Reachable s ∧ Crowd n s := by
  induction n with
  | zero => exact ⟨singleLoop, ⟨_, [], ⟨_, _, _, _, _, rfl⟩, Run.nil _⟩, crowd_zero⟩
  | succ n ih =>
    obtain ⟨s, hreach, hcrowd⟩ := ih (by omega)
    obtain ⟨s', hs, hcrowd'⟩ := hcrowd.newConnection hn
    have hrun : machine.Run s [.newConnection] s' := Run.cons hcrowd.enabled hs (Run.nil s')
    exact ⟨s', hreach.run hrun, hcrowd'⟩

/-- The connection number 100000000 of a server with the longest address gets the name of
the connection number 10000000, which is still up, and takes its entry. -/
theorem newConnection_takes_entry :
    ∃ s s' : ServerSystem Unit, machine.Reachable s ∧ machine.enabled s .newConnection ∧
      s.server.hostport_ = longestHostport ∧ s.server.connName ∈ s.server.connections_ ∧
      machine.step s .newConnection = .ok s' ∧
      ∃ c d, s'.conns 10000000 = some c ∧ s'.conns 100000000 = some d ∧ s'.removed = [] ∧
        c.tcp.state_ = .kConnected ∧ d.tcp.state_ = .kConnected ∧ c.name_ = d.name_ := by
  obtain ⟨s, hreach, hcrowd⟩ := exists_crowd 99999999 (by decide)
  obtain ⟨s', hs, hcrowd'⟩ := hcrowd.newConnection (by decide)
  obtain ⟨table, hserver⟩ := hcrowd.server
  obtain ⟨table', hserver'⟩ := hcrowd'.server
  have hname : ∀ t : TcpServer Unit, t.hostport_ = longestHostport →
      t.nameOf 10000000 = t.nameOf 100000000 := by
    intro t ht
    rw [TcpServer.nameOf_eq_iff, TcpServer.shown, TcpServer.shown, ht]
    decide +kernel
  obtain ⟨c, hc, hcname, hcstate⟩ := hcrowd'.conns 10000000 (by decide) (by decide)
  obtain ⟨d, hd, hdname, hdstate⟩ := hcrowd'.conns 100000000 (by decide) (by decide)
  refine ⟨s, s', hreach, hcrowd.enabled, by rw [hserver]; rfl, ?_, hs, c, d, hc, hd,
    hcrowd'.removed, hcstate, hdstate, ?_⟩
  · have hnumber : s.server.nextConnId_ = 100000000 := by rw [hserver]
    rw [TcpServer.connName_eq, hnumber, ← hname s.server (by rw [hserver]; rfl)]
    exact hcrowd.table 10000000 (by decide) (by decide)
  · rw [hcname, hdname]
    exact hname s'.server (by rw [hserver']; rfl)

end Sample

end ServerSystem

end MuduoServer
