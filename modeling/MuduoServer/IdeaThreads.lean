import MuduoServer.Block
import MuduoServer.FaultMachine
import MuduoServer.WireFormat

/-!
Calls of `Idea::IdeaCfbDecrypt` in several threads, each with a context of its own. The
variable `bufptr` is `static`, so there is one of it, and a step that goes through it reads
or writes the context it points into. A call that finds `bufptr` always where it has left it
goes on as if it were alone; another one may decrypt with the bytes of another session.
-/
namespace MuduoServer.IdeaThreads

open Block FaultMachine WireFormat

/-- Where the arrays `oldcipher`, `iv` and `key` begin in a context, and where they end. -/
def oldcipherPos : ℕ := 0
def ivPos : ℕ := 8
def keyPos : ℕ := 16
def contextSize : ℕ := 120

/-- `IdeaCfbContext`: the bytes of the three arrays, and `bufleft`. -/
structure Context where
  bytes : Sized UInt8 contextSize
  bufleft : ℕ

def Context.key (ctx : Context) : List UInt8 := slice ctx.bytes.val keyPos contextSize

/-- An access outside the arrays, or behind the end of `src`. -/
inductive Fault
  | outOfBounds
  deriving DecidableEq

/-- The statement that comes next. `rounds` bytes are left of the loop; behind the loop for the
`last` bytes the call returns, behind the others there are further blocks. -/
inductive Pc
  /-- `bufptr = ctx->iv + (8 - bufleft);` -/
  | start
  /-- `bufptr = ctx->iv;` -/
  | point
  /-- `memcpy(ctx->oldcipher, bufptr, 8);` -/
  | copy
  /-- `IdeaCipher(bufptr, bufptr, ctx->key);` -/
  | cipher
  /-- `t = *bufptr;` -/
  | load (rounds : ℕ) (last : Bool)
  /-- `*dest++ = t ^ (*bufptr++ = *src++);` -/
  | store (rounds : ℕ) (last : Bool) (t : UInt8)
  | returned
  deriving DecidableEq

/-- A call: the bytes of `src` that are left, and those of `dest` so far. -/
structure Call where
  pc : Pc
  src : List UInt8
  dest : List UInt8
  deriving DecidableEq

/-- The loop with `rounds` bytes to go. -/
def enter (rounds : ℕ) (last : Bool) : Pc :=
  if rounds = 0 then if last then .returned else .point else .load rounds last

/-- Each thread with its call and its context. `mover` is the thread whose step was the last to
assign or advance `bufptr`. -/
structure State (T : Type) where
  bufptr : T × ℕ
  mover : Option T
  contexts : T → Context
  calls : T → Call

section Steps

variable {T : Type} [DecidableEq T]

def State.setContext (s : State T) (t : T) (ctx : Context) : State T :=
  { s with contexts := Function.update s.contexts t ctx }

def State.setCall (s : State T) (t : T) (call : Call) : State T :=
  { s with calls := Function.update s.calls t call }

def State.movePointer (s : State T) (t owner : T) (i : ℕ) : State T :=
  { s with bufptr := (owner, i), mover := some t }

/-- `n` bytes of a context from index `i` on. -/
def Context.fetch (ctx : Context) (i n : ℕ) : Except Fault (List UInt8) :=
  if i + n ≤ contextSize then .ok (slice ctx.bytes.val i (i + n)) else .error .outOfBounds

/-- The context with `data` written from index `i` on. -/
def Context.put (ctx : Context) (i : ℕ) (data : List UInt8) : Except Fault Context :=
  if h : i + data.length ≤ contextSize then
    .ok { ctx with bytes := ⟨overwrite ctx.bytes.val i data, by
      rw [length_overwrite _ _ _ (by rw [ctx.bytes.property]; exact h), ctx.bytes.property]⟩ }
  else .error .outOfBounds

/-- `n` bytes from `bufptr` on. -/
def State.fetch (s : State T) (n : ℕ) : Except Fault (List UInt8) :=
  (s.contexts s.bufptr.1).fetch s.bufptr.2 n

/-- Write `data` from `bufptr` on. -/
def State.put (s : State T) (data : List UInt8) : Except Fault (State T) := do
  let ctx ← (s.contexts s.bufptr.1).put s.bufptr.2 data
  pure (s.setContext s.bufptr.1 ctx)

variable (IdeaCipher : List UInt8 → List UInt8 → Sized UInt8 8)

/-- The next statement of the call of `t`. -/
def step (s : State T) (t : T) : Except Fault (State T) :=
  let ctx := s.contexts t
  let call := s.calls t
  match call.pc with
  | .start =>
    let s := s.movePointer t t (ivPos + 8 - ctx.bufleft)
    if call.src.length ≤ ctx.bufleft then
      let s := s.setContext t { ctx with bufleft := ctx.bufleft - call.src.length }
      .ok (s.setCall t { call with pc := enter call.src.length true })
    else .ok (s.setCall t { call with pc := enter ctx.bufleft false })
  | .point => .ok ((s.movePointer t t ivPos).setCall t { call with pc := .copy })
  | .copy => do
    let block ← s.fetch 8
    let ctx ← ctx.put oldcipherPos block
    pure ((s.setContext t ctx).setCall t { call with pc := .cipher })
  | .cipher => do
    let block ← s.fetch 8
    let s ← s.put (IdeaCipher block ctx.key).val
    if 8 < call.src.length then pure (s.setCall t { call with pc := enter 8 false })
    else
      let s := s.setContext t { s.contexts t with bufleft := 8 - call.src.length }
      pure (s.setCall t { call with pc := enter call.src.length true })
  | .load rounds last => do
    let bytes ← s.fetch 1
    pure (s.setCall t { call with pc := .store rounds last (bytes.headD 0) })
  | .store rounds last b =>
    match call.src with
    | [] => .error .outOfBounds
    | c :: src => do
      let s ← s.put [c]
      let s := s.movePointer t s.bufptr.1 (s.bufptr.2 + 1)
      pure (s.setCall t
        { pc := enter (rounds - 1) last, src := src, dest := call.dest ++ [b ^^^ c] })
  | .returned => .ok s

/-- Every call is about to begin. -/
def machine : Machine (State T) T Fault where
  init s := s.mover = none ∧ ∀ t, (s.calls t).pc = .start ∧ (s.calls t).dest = []
  enabled s t := (s.calls t).pc ≠ .returned
  step := step IdeaCipher

/-- The statement does not use `bufptr`, or it is where this thread has left it. -/
def Own (s : State T) (t : T) : Prop :=
  (s.calls t).pc = .start ∨ (s.calls t).pc = .point ∨ s.mover = some t

end Steps

section Views

variable {T : Type} {s s' s₁ : State T} {t : T}

/-- The pointer points into the context of the thread that has moved it. -/
def InPlace (s : State T) : Prop := ∀ t, s.mover = some t → s.bufptr.1 = t

/-- `t` cannot tell the states apart. -/
structure Alike (t : T) (s s' : State T) : Prop where
  calls : s'.calls t = s.calls t
  contexts : s'.contexts t = s.contexts t
  bufptr : s.mover = some t → s'.mover = some t ∧ s'.bufptr = s.bufptr

theorem Alike.refl (t : T) (s : State T) : Alike t s s := ⟨rfl, rfl, fun h => ⟨h, rfl⟩⟩

/-- A step leaves the other threads alone, and moves the pointer into its own context, if at all. -/
structure Frame (t : T) (s s₁ : State T) : Prop where
  calls : ∀ u, u ≠ t → s₁.calls u = s.calls u
  contexts : ∀ u, u ≠ t → s₁.contexts u = s.contexts u
  bufptr : s₁.mover = s.mover ∧ s₁.bufptr = s.bufptr ∨ s₁.mover = some t ∧ s₁.bufptr.1 = t

theorem Frame.refl (t : T) (s : State T) : Frame t s s where
  calls _ _ := rfl
  contexts _ _ := rfl
  bufptr := Or.inl ⟨rfl, rfl⟩

theorem Frame.movePointer (h : Frame t s s₁) (i : ℕ) : Frame t s (s₁.movePointer t t i) where
  calls := h.calls
  contexts := h.contexts
  bufptr := Or.inr ⟨rfl, rfl⟩

theorem Alike.movePointer (h : Alike t s s') (owner : T) (i : ℕ) :
    Alike t (s.movePointer t owner i) (s'.movePointer t owner i) where
  calls := h.calls
  contexts := h.contexts
  bufptr _ := ⟨rfl, rfl⟩

/-- A step of another thread is not seen. -/
theorem Alike.of_frame {u : T} (halike : Alike t s s') (hframe : Frame u s s₁) (hu : u ≠ t) :
    Alike t s₁ s' where
  calls := halike.calls.trans (hframe.calls t (Ne.symm hu)).symm
  contexts := halike.contexts.trans (hframe.contexts t (Ne.symm hu)).symm
  bufptr hmover := by
    rcases hframe.bufptr with ⟨hsame, hptr⟩ | ⟨hmoved, -⟩
    · rw [hptr]
      exact halike.bufptr (hsame.symm.trans hmover)
    · rw [hmover, Option.some.injEq] at hmoved
      exact absurd hmoved.symm hu

theorem Frame.inPlace (h : Frame t s s₁) (hplace : InPlace s) : InPlace s₁ := by
  intro u hu
  rcases h.bufptr with ⟨hsame, hptr⟩ | ⟨hmoved, hptr⟩
  · rw [hptr]
    exact hplace u (hsame.symm.trans hu)
  · rw [hu, Option.some.injEq] at hmoved
    exact hptr.trans hmoved.symm

theorem fetch_eq (s : State T) (n : ℕ) (hplace : s.bufptr.1 = t) :
    s.fetch n = (s.contexts t).fetch s.bufptr.2 n := by
  rw [State.fetch, hplace]

variable [DecidableEq T] {IdeaCipher : List UInt8 → List UInt8 → Sized UInt8 8}

theorem Frame.setCall (h : Frame t s s₁) (call : Call) : Frame t s (s₁.setCall t call) where
  calls u hu := (Function.update_of_ne hu _ _).trans (h.calls u hu)
  contexts := h.contexts
  bufptr := h.bufptr

theorem Frame.setContext (h : Frame t s s₁) (ctx : Context) : Frame t s (s₁.setContext t ctx) where
  calls := h.calls
  contexts u hu := (Function.update_of_ne hu _ _).trans (h.contexts u hu)
  bufptr := h.bufptr

theorem Alike.setCall (h : Alike t s s') (call : Call) :
    Alike t (s.setCall t call) (s'.setCall t call) where
  calls := by simp only [State.setCall, Function.update_self]
  contexts := h.contexts
  bufptr := h.bufptr

theorem Alike.setContext (h : Alike t s s') (ctx : Context) :
    Alike t (s.setContext t ctx) (s'.setContext t ctx) where
  calls := h.calls
  contexts := by simp only [State.setContext, Function.update_self]
  bufptr := h.bufptr

theorem put_eq (s : State T) (data : List UInt8) (hplace : s.bufptr.1 = t) :
    s.put data = (s.contexts t).put s.bufptr.2 data >>= fun ctx => .ok (s.setContext t ctx) := by
  rw [State.put, hplace]
  rfl

theorem step_frame (hplace : InPlace s) (hown : Own s t) (hs : step IdeaCipher s t = .ok s₁) :
    Frame t s s₁ := by
  unfold step at hs
  cases hpc : (s.calls t).pc with
  | start =>
    simp only [hpc] at hs
    split at hs
    · obtain rfl := Except.ok.inj hs
      exact (((Frame.refl t s).movePointer _).setContext _).setCall _
    · obtain rfl := Except.ok.inj hs
      exact ((Frame.refl t s).movePointer _).setCall _
  | point =>
    simp only [hpc] at hs
    obtain rfl := Except.ok.inj hs
    exact ((Frame.refl t s).movePointer _).setCall _
  | copy =>
    simp only [hpc] at hs
    obtain ⟨block, -, hs⟩ := bind_eq_ok.mp hs
    obtain ⟨ctx, -, hs⟩ := bind_eq_ok.mp hs
    obtain rfl := pure_eq_ok.mp hs
    exact ((Frame.refl t s).setContext _).setCall _
  | cipher =>
    have hmine := hplace t (by simpa [Own, hpc] using hown)
    simp only [hpc, put_eq s _ hmine] at hs
    obtain ⟨block, -, hs⟩ := bind_eq_ok.mp hs
    obtain ⟨m, hm, hs⟩ := bind_eq_ok.mp hs
    obtain ⟨ctx, -, hm⟩ := bind_eq_ok.mp hm
    obtain rfl := Except.ok.inj hm
    split at hs
    · obtain rfl := pure_eq_ok.mp hs
      exact ((Frame.refl t s).setContext _).setCall _
    · obtain rfl := pure_eq_ok.mp hs
      exact (((Frame.refl t s).setContext _).setContext _).setCall _
  | load rounds last =>
    simp only [hpc] at hs
    obtain ⟨bytes, -, hs⟩ := bind_eq_ok.mp hs
    obtain rfl := pure_eq_ok.mp hs
    exact (Frame.refl t s).setCall _
  | store rounds last b =>
    have hmine := hplace t (by simpa [Own, hpc] using hown)
    simp only [hpc] at hs
    split at hs
    · cases hs
    · rw [put_eq s _ hmine] at hs
      obtain ⟨m, hm, hs⟩ := bind_eq_ok.mp hs
      obtain ⟨ctx, -, hm⟩ := bind_eq_ok.mp hm
      obtain rfl := Except.ok.inj hm
      obtain rfl := pure_eq_ok.mp hs
      have hptr : (s.setContext t ctx).bufptr.1 = t := hmine
      rw [hptr]
      exact (((Frame.refl t s).setContext _).movePointer _).setCall _
  | returned =>
    simp only [hpc] at hs
    obtain rfl := Except.ok.inj hs
    exact Frame.refl t s

/-- What a step does to a thread's own view depends on that view alone. -/
theorem step_alike (halike : Alike t s s') (hplace : InPlace s) (hown : Own s t)
    (hs : step IdeaCipher s t = .ok s₁) :
    ∃ s₁', step IdeaCipher s' t = .ok s₁' ∧ Alike t s₁ s₁' := by
  have hcalls := halike.calls
  have hctx := halike.contexts
  -- a thread that goes on through the pointer sees the same bytes at it
  have hptr : s.mover = some t → s.bufptr.1 = t ∧ s'.bufptr.1 = t ∧ s'.bufptr.2 = s.bufptr.2 := by
    intro hmover
    have hmine := hplace t hmover
    rw [(halike.bufptr hmover).2]
    exact ⟨hmine, hmine, rfl⟩
  unfold step at hs
  cases hpc : (s.calls t).pc with
  | start =>
    simp only [hpc] at hs
    split at hs
    · rename_i hshort
      obtain rfl := Except.ok.inj hs
      refine ⟨_, by simp only [step, hcalls, hctx, hpc, if_pos hshort]; rfl, ?_⟩
      exact ((halike.movePointer t _).setContext _).setCall _
    · rename_i hlong
      obtain rfl := Except.ok.inj hs
      refine ⟨_, by simp only [step, hcalls, hctx, hpc, if_neg hlong]; rfl, ?_⟩
      exact (halike.movePointer t _).setCall _
  | point =>
    simp only [hpc] at hs
    obtain rfl := Except.ok.inj hs
    refine ⟨_, by simp only [step, hcalls, hpc]; rfl, ?_⟩
    exact (halike.movePointer t _).setCall _
  | copy =>
    obtain ⟨hmine, hmine', hindex⟩ := hptr (by simpa [Own, hpc] using hown)
    simp only [hpc, fetch_eq s _ hmine] at hs
    obtain ⟨block, hblock, hs⟩ := bind_eq_ok.mp hs
    obtain ⟨ctx, hput, hs⟩ := bind_eq_ok.mp hs
    obtain rfl := pure_eq_ok.mp hs
    refine ⟨_, ?_, (halike.setContext ctx).setCall _⟩
    simp only [step, hcalls, hctx, hpc, fetch_eq s' _ hmine', hindex, hblock, hput, ok_bind]
    rfl
  | cipher =>
    obtain ⟨hmine, hmine', hindex⟩ := hptr (by simpa [Own, hpc] using hown)
    simp only [hpc, fetch_eq s _ hmine, put_eq s _ hmine] at hs
    obtain ⟨block, hblock, hs⟩ := bind_eq_ok.mp hs
    obtain ⟨m, hm, hs⟩ := bind_eq_ok.mp hs
    obtain ⟨ctx, hput, hm⟩ := bind_eq_ok.mp hm
    obtain rfl := Except.ok.inj hm
    have hnext := halike.setContext ctx
    split at hs
    · rename_i hmany
      obtain rfl := pure_eq_ok.mp hs
      refine ⟨_, ?_, hnext.setCall _⟩
      simp only [step, hcalls, hctx, hpc, fetch_eq s' _ hmine', put_eq s' _ hmine', hindex, hblock,
        hput, ok_bind, if_pos hmany]
      rfl
    · rename_i hfew
      obtain rfl := pure_eq_ok.mp hs
      refine ⟨_, ?_, (hnext.setContext _).setCall _⟩
      simp only [step, hcalls, hctx, hpc, fetch_eq s' _ hmine', put_eq s' _ hmine', hindex, hblock,
        hput, ok_bind, if_neg hfew]
      rw [hnext.contexts]
      rfl
  | load rounds last =>
    obtain ⟨hmine, hmine', hindex⟩ := hptr (by simpa [Own, hpc] using hown)
    simp only [hpc, fetch_eq s _ hmine] at hs
    obtain ⟨bytes, hbytes, hs⟩ := bind_eq_ok.mp hs
    obtain rfl := pure_eq_ok.mp hs
    refine ⟨_, ?_, halike.setCall _⟩
    simp only [step, hcalls, hctx, hpc, fetch_eq s' _ hmine', hindex, hbytes, ok_bind]
    rfl
  | store rounds last b =>
    obtain ⟨hmine, hmine', hindex⟩ := hptr (by simpa [Own, hpc] using hown)
    simp only [hpc] at hs
    split at hs
    · cases hs
    · rename_i c src hsrc
      rw [put_eq s _ hmine] at hs
      obtain ⟨m, hm, hs⟩ := bind_eq_ok.mp hs
      obtain ⟨ctx, hput, hm⟩ := bind_eq_ok.mp hm
      obtain rfl := Except.ok.inj hm
      obtain rfl := pure_eq_ok.mp hs
      refine ⟨_, ?_, ((halike.setContext ctx).movePointer _ _).setCall _⟩
      simp only [step, hcalls, hctx, hpc, hsrc, put_eq s' _ hmine', hindex, hput, ok_bind]
      simp only [State.setContext, hmine, hmine', hindex]
      rfl
  | returned =>
    simp only [hpc] at hs
    obtain rfl := Except.ok.inj hs
    exact ⟨s', by simp only [step, hcalls, hpc], halike⟩

/-- A statement that fails among the others fails alone as well. -/
theorem step_fails (halike : Alike t s s') (hplace : InPlace s) (hown : Own s t) {f : Fault}
    (hs : step IdeaCipher s t = .error f) : ∃ f', step IdeaCipher s' t = .error f' := by
  cases hs' : step IdeaCipher s' t with
  | error f' => exact ⟨f', rfl⟩
  | ok s₁ =>
    by_cases hmover : s.mover = some t
    · obtain ⟨hmover', hptr⟩ := halike.bufptr hmover
      have hback : Alike t s' s :=
        ⟨halike.calls.symm, halike.contexts.symm, fun _ => ⟨hmover, hptr.symm⟩⟩
      have hplace' : InPlace s' := by
        intro u hu
        rw [hmover', Option.some.injEq] at hu
        rw [hptr, hplace t hmover, hu]
      obtain ⟨s₂, hs₂, -⟩ := step_alike hback hplace' (Or.inr (Or.inr hmover')) hs'
      rw [hs] at hs₂
      cases hs₂
    · unfold step at hs
      rcases hown with hpc | hpc | hown
      · simp only [hpc] at hs
        split at hs <;> cases hs
      · simp only [hpc] at hs
        cases hs
      · exact absurd hown hmover

/-- In a run in which every call finds `bufptr` where it has left it, each call is at every time
where its own steps alone have brought it: with the same bytes of `dest` and the same context.
Nor does its next statement fail unless it fails alone. -/
theorem runs_alone (IdeaCipher : List UInt8 → List UInt8 → Sized UInt8 8) {s₀ s : State T}
    {as : List T} (hinit : (machine IdeaCipher).init s₀)
    (hr : ((machine IdeaCipher).restrict Own).Run s₀ as s) (t : T) :
    ∃ s', (machine IdeaCipher).Run s₀ (as.filter fun u => u = t) s' ∧
      s'.calls t = s.calls t ∧ s'.contexts t = s.contexts t ∧
      (Own s t → ∀ f, step IdeaCipher s t = .error f → ∃ f', step IdeaCipher s' t = .error f') := by
  have hstart : InPlace s₀ := by
    intro u hu
    rw [hinit.1] at hu
    cases hu
  obtain ⟨hplace, s', hrun, halike⟩ := Machine.Run.project (I := InPlace) (t := t)
    (fun s u s₁ hplace _ hown hs => (step_frame hplace hown hs).inPlace hplace)
    (fun s u s₁ s' hplace halike hu henabled hown hs => by
      subst hu
      refine ⟨?_, step_alike halike hplace hown hs⟩
      change (s'.calls u).pc ≠ .returned
      rwa [halike.calls])
    (fun s u s₁ s' hplace halike hu _ hown hs => halike.of_frame (step_frame hplace hown hs) hu)
    hr hstart (Alike.refl t s₀)
  exact ⟨s', hrun, halike.calls, halike.contexts, fun hown f hf => step_fails halike hplace hown hf⟩

end Views

/-- Two threads, of which each decrypts one byte with the context of a new `Idea`. -/
def twoCalls : State Bool where
  bufptr := (true, 0)
  mover := none
  contexts _ := { bytes := ⟨List.replicate contextSize 0, by decide⟩, bufleft := 0 }
  calls t := { pc := .start, src := [if t then 1 else 2], dest := [] }

/-- A cipher that adds one to the first byte of the block. -/
def addOne (block _ : List UInt8) : Sized UInt8 8 :=
  ⟨List.ofFn fun i : Fin 8 => if i.val = 0 then block.getD 0 0 + 1 else block.getD i.val 0,
    List.length_ofFn⟩

/-- The one comes to its byte when the other one has set the pointer to its own context. -/
def lostPointer : List Bool := [true, true, true, true, false, false, true, true]

instance (s : State Bool) (t : Bool) : Decidable ((machine addOne).enabled s t) :=
  inferInstanceAs (Decidable ((s.calls t).pc ≠ .returned))

instance (s : State Bool) (t : Bool) : Decidable (Own s t) :=
  inferInstanceAs (Decidable ((s.calls t).pc = .start ∨ (s.calls t).pc = .point ∨
    s.mover = some t))

instance (s : State Bool) (t : Bool) : Decidable (((machine addOne).restrict Own).enabled s t) :=
  inferInstanceAs (Decidable ((machine addOne).enabled s t ∧ Own s t))

/-- Both calls have begun; then the one goes on to its end, and the other one after it. -/
def oneByOne : List Bool := [true, false, true, true, true, true, true, false, false, false, false]

def afterBoth : State Bool :=
  (((machine addOne).restrict Own).execute twoCalls oneByOne).getD twoCalls

theorem runs_alone_sample :
    ∃ s', (machine addOne).Run twoCalls (oneByOne.filter fun u => u = false) s' ∧
      s'.calls false = afterBoth.calls false ∧ s'.contexts false = afterBoth.contexts false ∧
      (Own afterBoth false → ∀ f, step addOne afterBoth false = .error f →
        ∃ f', step addOne s' false = .error f') := by
  refine runs_alone addOne ⟨rfl, fun _ => ⟨rfl, rfl⟩⟩ (Machine.run_of_execute _ ?_) false
  have hsome : (((machine addOne).restrict Own).execute twoCalls oneByOne).isSome = true := by
    decide +kernel
  obtain ⟨s, hs⟩ := Option.isSome_iff_exists.mp hsome
  rw [afterBoth, hs, Option.getD_some]

/-- The plaintext of the first thread after these steps. -/
def plaintext (as : List Bool) : Option (List UInt8) :=
  ((machine addOne).execute twoCalls as).map fun s => (s.calls true).dest

/-- A call yields a plaintext that it does not yield alone. -/
theorem pointer_is_shared : ¬ ∀ (IdeaCipher : List UInt8 → List UInt8 → Sized UInt8 8)
    (s₀ s : State Bool) (as : List Bool), (machine IdeaCipher).init s₀ →
    (machine IdeaCipher).Run s₀ as s → ∀ t, ∃ s',
      (machine IdeaCipher).Run s₀ (as.filter fun u => u = t) s' ∧
      s'.calls t = s.calls t ∧ s'.contexts t = s.contexts t := by
  intro hall
  have hshared : plaintext lostPointer = some [1] := by decide +kernel
  have halone : plaintext (lostPointer.filter fun u => u = true) = some [0] := by decide +kernel
  obtain ⟨s, hs, hdest⟩ := Option.map_eq_some_iff.mp hshared
  have hinit : (machine addOne).init twoCalls := ⟨rfl, fun _ => ⟨rfl, rfl⟩⟩
  obtain ⟨s', hrun, hcalls, -⟩ := hall addOne twoCalls s lostPointer hinit
    (Machine.run_of_execute _ hs) true
  rw [plaintext, Machine.execute_of_run _ hrun, Option.map_some, hcalls, hdest] at halone
  exact absurd halone (by decide)

end MuduoServer.IdeaThreads
