import MuduoServer.Buffer

/-!
A buffer is a queue of bytes. The operations act on a pool of buffers, so that
`swap` and `shrink` move contents between buffers; the abstract pool holds one
byte sequence for each buffer. Every run that keeps the documented
preconditions keeps the index order, fails no assertion and acts on the
readable bytes as the queue operations do.
-/
namespace MuduoServer.BufferQueue

open Endian FaultMachine

inductive Op (ι : Type)
  | append (i : ι) (data : List UInt8)
  | appendInt8 (i : ι) (x : BitVec 8)
  | appendInt16 (i : ι) (x : BitVec 16)
  | appendInt32 (i : ι) (x : BitVec 32)
  | prepend (i : ι) (data : List UInt8)
  | prependInt8 (i : ι) (x : BitVec 8)
  | prependInt16 (i : ι) (x : BitVec 16)
  | prependInt32 (i : ι) (x : BitVec 32)
  | retrieve (i : ι) (len : ℕ)
  /-- `retrieveUntil(peek() + len)` -/
  | retrieveUntil (i : ι) (len : ℕ)
  | retrieveInt8 (i : ι)
  | retrieveInt16 (i : ι)
  | retrieveInt32 (i : ι)
  | retrieveAll (i : ι)
  | retrieveAsString (i : ι) (len : ℕ)
  | retrieveAllAsString (i : ι)
  | ensureWritableBytes (i : ι) (len : ℕ)
  | shrink (i : ι) (reserve : ℕ)
  | swap (i j : ι)
  | readFd (i : ι) (result : Buffer.ReadResult)

/-- Buffers or byte queues by name, and the strings that were returned. -/
structure Pool (ι β : Type) where
  get : ι → β
  strings : List (List UInt8)

namespace Pool
variable {ι β : Type} [DecidableEq ι]

def set (p : Pool ι β) (i : ι) (x : β) : Pool ι β := { p with get := Function.update p.get i x }

def returns (p : Pool ι β) (s : List UInt8) : Pool ι β := { p with strings := p.strings ++ [s] }

def swap (p : Pool ι β) (i j : ι) : Pool ι β := (p.set i (p.get j)).set j (p.get i)

def fill (x : β) : Pool ι β := ⟨fun _ => x, []⟩

end Pool

section Machines
variable {ι : Type} [DecidableEq ι] (order : HostOrder)

/-- Run a member function on buffer `i`. -/
def onBuffer (p : Pool ι Buffer) (i : ι) (f : Buffer → Except Buffer.Fault Buffer) :
    Except Buffer.Fault (Pool ι Buffer) := do
  let b ← f (p.get i)
  pure (p.set i b)

def onBufferString (p : Pool ι Buffer) (i : ι)
    (f : Buffer → Except Buffer.Fault (List UInt8 × Buffer)) :
    Except Buffer.Fault (Pool ι Buffer) := do
  let r ← f (p.get i)
  pure ((p.set i r.2).returns r.1)

def step (p : Pool ι Buffer) : Op ι → Except Buffer.Fault (Pool ι Buffer)
  | .append i data => onBuffer p i (fun b => b.append data)
  | .appendInt8 i x => onBuffer p i (fun b => b.appendInt8 order x)
  | .appendInt16 i x => onBuffer p i (fun b => b.appendInt16 order x)
  | .appendInt32 i x => onBuffer p i (fun b => b.appendInt32 order x)
  | .prepend i data => onBuffer p i (fun b => b.prepend data)
  | .prependInt8 i x => onBuffer p i (fun b => b.prependInt8 order x)
  | .prependInt16 i x => onBuffer p i (fun b => b.prependInt16 order x)
  | .prependInt32 i x => onBuffer p i (fun b => b.prependInt32 order x)
  | .retrieve i len => onBuffer p i (fun b => b.retrieve len)
  | .retrieveUntil i len => onBuffer p i (fun b => b.retrieveUntil (b.readerIndex_ + len))
  | .retrieveInt8 i => onBuffer p i Buffer.retrieveInt8
  | .retrieveInt16 i => onBuffer p i Buffer.retrieveInt16
  | .retrieveInt32 i => onBuffer p i Buffer.retrieveInt32
  | .retrieveAll i => onBuffer p i (fun b => pure b.retrieveAll)
  | .retrieveAsString i len => onBufferString p i (fun b => b.retrieveAsString len)
  | .retrieveAllAsString i => onBufferString p i Buffer.retrieveAllAsString
  | .ensureWritableBytes i len => onBuffer p i (fun b => b.ensureWritableBytes len)
  | .shrink i reserve => onBuffer p i (fun b => b.shrink reserve)
  | .swap i j => pure (p.swap i j)
  | .readFd i result => onBuffer p i (fun b => b.readFd result)

/-- The same operations on byte sequences. -/
def queueStep (p : Pool ι (List UInt8)) : Op ι → Pool ι (List UInt8)
  | .append i data => p.set i (p.get i ++ data)
  | .appendInt8 i x => p.set i (p.get i ++ beBytes 1 x)
  | .appendInt16 i x => p.set i (p.get i ++ beBytes 2 x)
  | .appendInt32 i x => p.set i (p.get i ++ beBytes 4 x)
  | .prepend i data => p.set i (data ++ p.get i)
  | .prependInt8 i x => p.set i (beBytes 1 x ++ p.get i)
  | .prependInt16 i x => p.set i (beBytes 2 x ++ p.get i)
  | .prependInt32 i x => p.set i (beBytes 4 x ++ p.get i)
  | .retrieve i len => p.set i ((p.get i).drop len)
  | .retrieveUntil i len => p.set i ((p.get i).drop len)
  | .retrieveInt8 i => p.set i ((p.get i).drop 1)
  | .retrieveInt16 i => p.set i ((p.get i).drop 2)
  | .retrieveInt32 i => p.set i ((p.get i).drop 4)
  | .retrieveAll i => p.set i []
  | .retrieveAsString i len => (p.set i ((p.get i).drop len)).returns ((p.get i).take len)
  | .retrieveAllAsString i => (p.set i []).returns (p.get i)
  | .ensureWritableBytes _ _ => p
  | .shrink _ _ => p
  | .swap i j => p.swap i j
  | .readFd i (.bytes data) => p.set i (p.get i ++ data)
  | .readFd _ (.failed _) => p

/-- The readable bytes of `b` and `n` more stay below the range of `int`. -/
def Fits (b : Buffer) (n : ℕ) : Prop := b.readableBytes + n < 2 ^ 31

/-- The documented preconditions; the kernel fills at most the two blocks that
`readFd` hands to `readv`. -/
def Pre (p : Pool ι Buffer) : Op ι → Prop
  | .append i data => Fits (p.get i) data.length
  | .appendInt8 i _ => Fits (p.get i) 1
  | .appendInt16 i _ => Fits (p.get i) 2
  | .appendInt32 i _ => Fits (p.get i) 4
  | .prepend i data => data.length ≤ (p.get i).prependableBytes ∧ Fits (p.get i) data.length
  | .prependInt8 i _ => 1 ≤ (p.get i).prependableBytes ∧ Fits (p.get i) 1
  | .prependInt16 i _ => 2 ≤ (p.get i).prependableBytes ∧ Fits (p.get i) 2
  | .prependInt32 i _ => 4 ≤ (p.get i).prependableBytes ∧ Fits (p.get i) 4
  | .retrieve i len => len ≤ (p.get i).readableBytes
  | .retrieveUntil i len => len ≤ (p.get i).readableBytes
  | .retrieveInt8 i => 1 ≤ (p.get i).readableBytes
  | .retrieveInt16 i => 2 ≤ (p.get i).readableBytes
  | .retrieveInt32 i => 4 ≤ (p.get i).readableBytes
  | .retrieveAll _ => True
  | .retrieveAsString i len => len ≤ (p.get i).readableBytes
  | .retrieveAllAsString _ => True
  | .ensureWritableBytes i len => Fits (p.get i) len
  | .shrink i reserve => Fits (p.get i) reserve
  | .swap _ _ => True
  | .readFd i (.bytes data) =>
      data.length ≤ (p.get i).writableBytes + Buffer.extrabufSize ∧ Fits (p.get i) data.length
  | .readFd _ (.failed _) => True

instance (p : Pool ι Buffer) (op : Op ι) : Decidable (Pre p op) := by
  cases op with
  | readFd i result => cases result <;> (simp only [Pre, Fits]; infer_instance)
  | _ => simp only [Pre, Fits]; infer_instance

def machine : Machine (Pool ι Buffer) (Op ι) Buffer.Fault where
  init p := p = Pool.fill Buffer.new
  enabled := Pre
  step := step order

instance (p : Pool ι Buffer) (op : Op ι) : Decidable ((machine order).enabled p op) :=
  inferInstanceAs (Decidable (Pre p op))

def queueMachine : Machine (Pool ι (List UInt8)) (Op ι) Buffer.Fault :=
  Machine.total (fun p => p = Pool.fill []) queueStep

def view (p : Pool ι Buffer) : Pool ι (List UInt8) := ⟨fun i => (p.get i).readable, p.strings⟩

def WellFormed (p : Pool ι Buffer) : Prop := ∀ i, (p.get i).Inv

omit [DecidableEq ι] in
theorem represents_of_wellFormed {p : Pool ι Buffer} (hp : WellFormed p) (i : ι) :
    (p.get i).Represents ((view p).get i) := ⟨hp i, rfl⟩

theorem wellFormed_set {p : Pool ι Buffer} (hp : WellFormed p) {i : ι} {b : Buffer}
    (hb : b.Inv) : WellFormed (p.set i b) := by
  intro j
  by_cases hj : j = i
  · subst hj
    simpa [Pool.set] using hb
  · simpa [Pool.set, hj] using hp j

theorem view_set (p : Pool ι Buffer) (i : ι) {b : Buffer} {q : List UInt8}
    (hb : b.Represents q) : view (p.set i b) = (view p).set i q := by
  simp only [view, Pool.set, Pool.mk.injEq, and_true]
  funext j
  by_cases hj : j = i
  · subst hj
    simpa using hb.readable_eq
  · simp [hj]

theorem view_set_self {p : Pool ι Buffer} (i : ι) :
    (view p).set i ((view p).get i) = view p := by
  simp [Pool.set, view]

/-- A member function that turns representations of the old bytes into
representations of the new ones simulates the update of one queue. -/
theorem onBuffer_simulates {p : Pool ι Buffer} (hp : WellFormed p) (i : ι)
    (f : Buffer → Except Buffer.Fault Buffer) {q : List UInt8}
    (hf : ∃ b, f (p.get i) = .ok b ∧ b.Represents q) :
    ∃ p', onBuffer p i f = .ok p' ∧ WellFormed p' ∧ view p' = (view p).set i q := by
  obtain ⟨b, hb, hq⟩ := hf
  refine ⟨p.set i b, ?_, wellFormed_set hp hq.inv, view_set p i hq⟩
  simp [onBuffer, hb]

theorem onBufferString_simulates {p : Pool ι Buffer} (hp : WellFormed p) (i : ι)
    (f : Buffer → Except Buffer.Fault (List UInt8 × Buffer)) {q s : List UInt8}
    (hf : ∃ b, f (p.get i) = .ok (s, b) ∧ b.Represents q) :
    ∃ p', onBufferString p i f = .ok p' ∧ WellFormed p' ∧
      view p' = ((view p).set i q).returns s := by
  obtain ⟨b, hb, hq⟩ := hf
  refine ⟨(p.set i b).returns s, ?_, wellFormed_set hp hq.inv, ?_⟩
  · simp [onBufferString, hb]
  · rw [← view_set p i hq]
    rfl

theorem view_swap (p : Pool ι Buffer) (i j : ι) : view (p.swap i j) = (view p).swap i j := by
  simp only [Pool.swap, Pool.set, view, Pool.mk.injEq, and_true]
  funext k
  by_cases hj : k = j
  · subst hj
    simp
  · by_cases hi : k = i
    · subst hi
      simp [hj]
    · simp [hi, hj]

/-- One operation under its precondition: no fault, the indexes stay in order,
and the readable bytes change as the queue operation says. -/
theorem step_simulates {p : Pool ι Buffer} (hp : WellFormed p) {op : Op ι} (hpre : Pre p op) :
    ∃ p', step order p op = .ok p' ∧ WellFormed p' ∧ view p' = queueStep (view p) op := by
  have hrep := represents_of_wellFormed hp
  have hlen : ∀ i, (p.get i).readableBytes = ((view p).get i).length :=
    fun i => (hrep i).readableBytes_eq
  cases op with
  | append i data =>
    exact onBuffer_simulates hp i (fun b => b.append data) ((hrep i).append data)
  | appendInt8 i x =>
    have h := (hrep i).append (beBytes 1 x)
    exact onBuffer_simulates hp i (fun b => b.appendInt8 order x)
      (by simpa only [Buffer.appendInt8, memory_one] using h)
  | appendInt16 i x =>
    have h := (hrep i).append (beBytes 2 x)
    exact onBuffer_simulates hp i (fun b => b.appendInt16 order x)
      (by simpa only [Buffer.appendInt16, memory_hostToNetwork] using h)
  | appendInt32 i x =>
    have h := (hrep i).append (beBytes 4 x)
    exact onBuffer_simulates hp i (fun b => b.appendInt32 order x)
      (by simpa only [Buffer.appendInt32, memory_hostToNetwork] using h)
  | prepend i data =>
    exact onBuffer_simulates hp i (fun b => b.prepend data) ((hrep i).prepend data hpre.1)
  | prependInt8 i x =>
    have h := (hrep i).prepend (beBytes 1 x) (by rw [length_beBytes]; exact hpre.1)
    exact onBuffer_simulates hp i (fun b => b.prependInt8 order x)
      (by simpa only [Buffer.prependInt8, memory_one] using h)
  | prependInt16 i x =>
    have h := (hrep i).prepend (beBytes 2 x) (by rw [length_beBytes]; exact hpre.1)
    exact onBuffer_simulates hp i (fun b => b.prependInt16 order x)
      (by simpa only [Buffer.prependInt16, memory_hostToNetwork] using h)
  | prependInt32 i x =>
    have h := (hrep i).prepend (beBytes 4 x) (by rw [length_beBytes]; exact hpre.1)
    exact onBuffer_simulates hp i (fun b => b.prependInt32 order x)
      (by simpa only [Buffer.prependInt32, memory_hostToNetwork] using h)
  | retrieve i len =>
    have hle : len ≤ ((view p).get i).length := by rw [← hlen i]; exact hpre
    exact onBuffer_simulates hp i (fun b => b.retrieve len) ((hrep i).retrieve hle)
  | retrieveUntil i len =>
    have hle : (p.get i).readerIndex_ + len ≤ (p.get i).writerIndex_ := by
      have hsize : len ≤ (p.get i).writerIndex_ - (p.get i).readerIndex_ := hpre
      have hr := (hp i).reader_le
      omega
    have h := (hrep i).retrieveUntil (Nat.le_add_right _ len) hle
    rw [Nat.add_sub_cancel_left] at h
    exact onBuffer_simulates hp i (fun b => b.retrieveUntil (b.readerIndex_ + len)) h
  | retrieveInt8 i =>
    have hle : 1 ≤ ((view p).get i).length := by rw [← hlen i]; exact hpre
    exact onBuffer_simulates hp i Buffer.retrieveInt8 ((hrep i).retrieve hle)
  | retrieveInt16 i =>
    have hle : 2 ≤ ((view p).get i).length := by rw [← hlen i]; exact hpre
    exact onBuffer_simulates hp i Buffer.retrieveInt16 ((hrep i).retrieve hle)
  | retrieveInt32 i =>
    have hle : 4 ≤ ((view p).get i).length := by rw [← hlen i]; exact hpre
    exact onBuffer_simulates hp i Buffer.retrieveInt32 ((hrep i).retrieve hle)
  | retrieveAll i =>
    exact onBuffer_simulates hp i (fun b => pure b.retrieveAll) ⟨_, rfl, (hrep i).retrieveAll⟩
  | retrieveAsString i len =>
    have hle : len ≤ ((view p).get i).length := by rw [← hlen i]; exact hpre
    exact onBufferString_simulates hp i (fun b => b.retrieveAsString len)
      ((hrep i).retrieveAsString hle)
  | retrieveAllAsString i =>
    have h := (hrep i).retrieveAsString (Nat.le_refl _)
    rw [List.take_length, List.drop_length, ← hlen i] at h
    exact onBufferString_simulates hp i Buffer.retrieveAllAsString h
  | ensureWritableBytes i len =>
    obtain ⟨b, hb, hq, -⟩ := (hrep i).ensureWritableBytes len
    obtain ⟨p', hp', hw, hv⟩ :=
      onBuffer_simulates hp i (fun b => b.ensureWritableBytes len) ⟨b, hb, hq⟩
    exact ⟨p', hp', hw, hv.trans (view_set_self i)⟩
  | shrink i reserve =>
    have hint : ((view p).get i).length < 2 ^ 31 := by
      simp only [Pre, Fits, hlen i] at hpre
      omega
    obtain ⟨p', hp', hw, hv⟩ :=
      onBuffer_simulates hp i (fun b => b.shrink reserve) ((hrep i).shrink reserve hint)
    exact ⟨p', hp', hw, hv.trans (view_set_self i)⟩
  | swap i j =>
    refine ⟨p.swap i j, rfl, ?_, view_swap p i j⟩
    exact wellFormed_set (wellFormed_set hp (hp j)) (hp i)
  | readFd i result =>
    cases result with
    | bytes data =>
      exact onBuffer_simulates hp i (fun b => b.readFd (.bytes data)) ((hrep i).readFd data)
    | failed errno =>
      obtain ⟨p', hp', hw, hv⟩ :=
        onBuffer_simulates hp i (fun b => b.readFd (.failed errno)) ⟨p.get i, rfl, hrep i⟩
      exact ⟨p', hp', hw, hv.trans (view_set_self i)⟩

theorem machine_refines :
    (machine order : Machine (Pool ι Buffer) _ _).Refines queueMachine WellFormed view where
  init p hp := by
    subst hp
    refine ⟨fun _ => Buffer.new_represents.inv, ?_⟩
    simp only [queueMachine, Machine.total, view, Pool.fill, Pool.mk.injEq, and_true]
    funext i
    exact Buffer.new_represents.readable_eq
  keeps p op p' hp hpre hs := by
    obtain ⟨p'', hs', hw, -⟩ := step_simulates order hp hpre
    have heq : p'' = p' := Except.ok.inj (hs'.symm.trans hs)
    rwa [heq] at hw
  simulates p op p' hp hpre hs := by
    obtain ⟨p'', hs', -, hv⟩ := step_simulates order hp hpre
    have heq : p'' = p' := Except.ok.inj (hs'.symm.trans hs)
    rw [heq] at hv
    exact ⟨trivial, congrArg Except.ok hv.symm⟩

/-- After every sequence of operations that kept their preconditions the
indexes are in order, the readable bytes are what the queue operations give,
and the next operation fails no assertion when its precondition holds. -/
theorem buffer_refines_byte_queue {ops : List (Op ι)} {p : Pool ι Buffer}
    (h : (machine order).Run (Pool.fill Buffer.new) ops p) :
    (∀ i, (p.get i).readerIndex_ ≤ (p.get i).writerIndex_ ∧
      (p.get i).writerIndex_ ≤ (p.get i).buffer_.length) ∧
    view p = ops.foldl queueStep (Pool.fill []) ∧
    ∀ op, Pre p op → ∃ p', step order p op = .ok p' := by
  have hR := machine_refines (ι := ι) order
  obtain ⟨hI, hinit⟩ := hR.init (Pool.fill Buffer.new) rfl
  have hw : WellFormed p := h.invariant hR.keeps hI
  have hrun := Machine.run_total (hR.run h hI)
  refine ⟨fun i => ⟨(hw i).reader_le, (hw i).writer_le⟩, ?_, ?_⟩
  · rw [← hrun, hinit]
  · intro op hpre
    obtain ⟨p', hs, -⟩ := step_simulates order hw hpre
    exact ⟨p', hs⟩

end Machines

def sampleOps : List (Op Bool) :=
  [.append true [1, 2, 3], .prependInt16 true 0x0405, .retrieve true 1, .swap true false,
    .readFd false (.bytes [6]), .shrink false 4]

theorem buffer_refines_byte_queue_sample :
    ∃ p, (machine .little).Run (Pool.fill Buffer.new) sampleOps p ∧
      (p.get false).readable = [5, 1, 2, 3, 6] := by
  have h : ((machine .little).execute (Pool.fill Buffer.new) sampleOps).isSome := by
    decide +kernel
  obtain ⟨p, hp⟩ := Option.isSome_iff_exists.mp h
  have hrun := Machine.run_of_execute _ hp
  refine ⟨p, hrun, ?_⟩
  have hview := congrArg (fun r => r.get false) (buffer_refines_byte_queue .little hrun).2.1
  exact hview.trans (by decide)

end MuduoServer.BufferQueue
