import MuduoServer.BufferQueue

/-!
The bytes in front of the readable ones. Every unread byte is marked with how it came into
its buffer. The prependable bytes and the prepended ones still unread are together never
fewer than `kCheapPrepend`, through compaction, growth, `shrink`, `swap` and the reset of
the indexes.
-/
namespace MuduoServer

open Endian FaultMachine

namespace Buffer

variable {b b' : Buffer} {len : ℕ}

theorem makeSpace_reader (hs : b.makeSpace len = .ok b') :
    b'.readerIndex_ = b.readerIndex_ ∨ b'.readerIndex_ = kCheapPrepend := by
  unfold makeSpace at hs
  split at hs
  · simp only [pure_eq_ok] at hs
    exact .inl (by rw [← hs])
  · simp only [bind_eq_ok, pure_eq_ok] at hs
    obtain ⟨-, -, -, -, rfl⟩ := hs
    exact .inr rfl

theorem ensureWritableBytes_reader (hs : b.ensureWritableBytes len = .ok b') :
    b'.readerIndex_ = b.readerIndex_ ∨ b'.readerIndex_ = kCheapPrepend := by
  unfold ensureWritableBytes at hs
  split at hs
  · simp only [bind_eq_ok, pure_eq_ok] at hs
    obtain ⟨b₁, hb₁, -, -, rfl⟩ := hs
    exact makeSpace_reader hb₁
  · simp only [bind_eq_ok, pure_eq_ok] at hs
    obtain ⟨b₁, rfl, -, -, rfl⟩ := hs
    exact .inl rfl

theorem append_reader {data : List UInt8} (hs : b.append data = .ok b') :
    b'.readerIndex_ = b.readerIndex_ ∨ b'.readerIndex_ = kCheapPrepend := by
  simp only [append, bind_eq_ok, pure_eq_ok] at hs
  obtain ⟨b₁, hb₁, rfl⟩ := hs
  have hreader := ensureWritableBytes_reader hb₁
  exact hreader

theorem shrink_reader (hs : b.shrink len = .ok b') : b'.readerIndex_ = kCheapPrepend := by
  simp only [shrink, bind_eq_ok] at hs
  obtain ⟨other, ho, piece, -, happend⟩ := hs
  have hother : other.readerIndex_ = kCheapPrepend :=
    (ensureWritableBytes_reader ho).elim id id
  rcases append_reader happend with heq | heq
  · exact heq.trans hother
  · exact heq

theorem readFd_reader {data : List UInt8} (hs : b.readFd (.bytes data) = .ok b') :
    b'.readerIndex_ = b.readerIndex_ ∨ b'.readerIndex_ = kCheapPrepend := by
  simp only [readFd] at hs
  split at hs
  · simp only [pure_eq_ok] at hs
    exact .inl (by rw [← hs]; rfl)
  · exact (append_reader hs :)

end Buffer

namespace BufferHeadroom

open BufferQueue

inductive Call (ι : Type)
  | op (op : Op ι)
  | readInt8 (i : ι)
  | readInt16 (i : ι)
  | readInt32 (i : ι)
  /-- Bytes stored at `beginWrite()`, and `hasWritten` for them. -/
  | hasWritten (i : ι) (data : List UInt8)
  /-- The default assignment of the buffer `j` to `i`. -/
  | assign (i j : ι)

/-- How a byte came into its buffer. -/
inductive Origin
  | appended
  | prepended
  deriving DecidableEq

/-- The buffers, and the origins of their readable bytes. -/
structure Marked (ι : Type) where
  pool : Pool ι Buffer
  origins : ι → List Origin

def prependedUnread (o : List Origin) : ℕ := o.count .prepended

section Machine
variable {ι : Type} [DecidableEq ι] (order : HostOrder)

/-- The origins of `i` with `n` bytes at the end, with `n` bytes in front, and less the
first `n`. -/
def pushed (o : ι → List Origin) (i : ι) (n : ℕ) : ι → List Origin :=
  Function.update o i (o i ++ List.replicate n .appended)

def unshifted (o : ι → List Origin) (i : ι) (n : ℕ) : ι → List Origin :=
  Function.update o i (List.replicate n .prepended ++ o i)

def dropped (o : ι → List Origin) (i : ι) (n : ℕ) : ι → List Origin :=
  Function.update o i ((o i).drop n)

def markOp (o : ι → List Origin) : Op ι → ι → List Origin
  | .append i data => pushed o i data.length
  | .appendInt8 i _ => pushed o i 1
  | .appendInt16 i _ => pushed o i 2
  | .appendInt32 i _ => pushed o i 4
  | .prepend i data => unshifted o i data.length
  | .prependInt8 i _ => unshifted o i 1
  | .prependInt16 i _ => unshifted o i 2
  | .prependInt32 i _ => unshifted o i 4
  | .retrieve i len => dropped o i len
  | .retrieveUntil i len => dropped o i len
  | .retrieveInt8 i => dropped o i 1
  | .retrieveInt16 i => dropped o i 2
  | .retrieveInt32 i => dropped o i 4
  | .retrieveAll i => Function.update o i []
  | .retrieveAsString i len => dropped o i len
  | .retrieveAllAsString i => Function.update o i []
  | .ensureWritableBytes _ _ => o
  | .shrink _ _ => o
  | .swap i j => Function.update (Function.update o i (o j)) j (o i)
  | .readFd i (.bytes data) => pushed o i data.length
  | .readFd _ (.failed _) => o

def mark (o : ι → List Origin) : Call ι → ι → List Origin
  | .op op => markOp o op
  | .readInt8 i => dropped o i 1
  | .readInt16 i => dropped o i 2
  | .readInt32 i => dropped o i 4
  | .hasWritten i data => pushed o i data.length
  | .assign i j => Function.update o i (o j)

def call (p : Pool ι Buffer) : Call ι → Except Buffer.Fault (Pool ι Buffer)
  | .op op => BufferQueue.step order p op
  | .readInt8 i => onBuffer p i fun b => Prod.snd <$> b.readInt8 order
  | .readInt16 i => onBuffer p i fun b => Prod.snd <$> b.readInt16 order
  | .readInt32 i => onBuffer p i fun b => Prod.snd <$> b.readInt32 order
  | .hasWritten i data =>
      onBuffer p i fun b => pure ((b.copyToBeginWrite data).hasWritten data.length)
  | .assign i j => pure (p.set i (p.get j))

/-- What is stored from outside, and how many bytes are writable for it: for `readFd` those of
the two blocks handed to `readv`. -/
def outside (p : Pool ι Buffer) : Call ι → List UInt8 × ℕ
  | .hasWritten i data => (data, (p.get i).writableBytes)
  | .op (.readFd i (.bytes data)) => (data, (p.get i).writableBytes + Buffer.extrabufSize)
  | _ => ([], 0)

def Stored (p : Pool ι Buffer) (a : Call ι) : Prop := (outside p a).1.length ≤ (outside p a).2

instance (p : Pool ι Buffer) (a : Call ι) : Decidable (Stored p a) := Nat.decLe _ _

def step (m : Marked ι) (a : Call ι) : Except Buffer.Fault (Marked ι) := do
  let pool ← call order m.pool a
  pure { pool := pool, origins := mark m.origins a }

def machine : Machine (Marked ι) (Call ι) Buffer.Fault where
  init m := m = { pool := Pool.fill Buffer.new, origins := fun _ => [] }
  enabled m a := Stored m.pool a
  step := step order

instance (m : Marked ι) (a : Call ι) : Decidable ((machine order).enabled m a) :=
  inferInstanceAs (Decidable (Stored m.pool a))

end Machine

/-- Each readable byte of `b` has an origin, and the room in front is kept. -/
structure Marks (b : Buffer) (o : List Origin) : Prop where
  inv : b.Inv
  length_eq : o.length = b.readableBytes
  room : Buffer.kCheapPrepend ≤ b.prependableBytes + prependedUnread o

section Buffers

variable {order : HostOrder} {b b' : Buffer} {o : List Origin} {q data : List UInt8} {len : ℕ}

theorem Marks.represents (h : Marks b o) : b.Represents b.readable := ⟨h.inv, rfl⟩

theorem Marks.length (h : Marks b o) : o.length = b.readable.length := by
  rw [h.length_eq, h.represents.readableBytes_eq]

theorem Marks.of_represents (hq : b.Represents q) (hlen : o.length = q.length)
    (hroom : Buffer.kCheapPrepend ≤ b.prependableBytes + prependedUnread o) : Marks b o :=
  ⟨hq.inv, hlen.trans hq.readableBytes_eq.symm, hroom⟩

/-- The reader index stays or is reset. -/
theorem Marks.room_of_reader (h : Marks b o) {o' : List Origin}
    (hreader : b'.readerIndex_ = b.readerIndex_ ∨ b'.readerIndex_ = Buffer.kCheapPrepend)
    (hcount : prependedUnread o' = prependedUnread o) :
    Buffer.kCheapPrepend ≤ b'.prependableBytes + prependedUnread o' := by
  have hroom := h.room
  unfold Buffer.prependableBytes at hroom ⊢
  rcases hreader with heq | heq <;> omega

theorem prependedUnread_pushed (o : List Origin) (n : ℕ) :
    prependedUnread (o ++ List.replicate n .appended) = prependedUnread o := by
  simp [prependedUnread, List.count_replicate]

theorem prependedUnread_unshifted (o : List Origin) (n : ℕ) :
    prependedUnread (List.replicate n .prepended ++ o) = n + prependedUnread o := by
  simp [prependedUnread]

/-- Of the first `n` bytes at most `n` were prepended. -/
theorem prependedUnread_le_drop (o : List Origin) (n : ℕ) :
    prependedUnread o ≤ n + prependedUnread (o.drop n) := by
  have hsplit : prependedUnread o = prependedUnread (o.take n) + prependedUnread (o.drop n) := by
    rw [prependedUnread, prependedUnread, prependedUnread, ← List.count_append,
      List.take_append_drop]
  have htake : prependedUnread (o.take n) ≤ (o.take n).length := List.count_le_length
  rw [List.length_take] at htake
  omega

theorem new_marks : Marks Buffer.new [] :=
  Marks.of_represents Buffer.new_represents rfl (Nat.le_refl _)

theorem Marks.retrieveAll (h : Marks b o) : Marks b.retrieveAll [] :=
  Marks.of_represents h.represents.retrieveAll rfl (Nat.le_refl _)

theorem Marks.retrieve (h : Marks b o) (hs : b.retrieve len = .ok b') :
    Marks b' (o.drop len) := by
  have hle : len ≤ b.readable.length := by
    rw [← h.represents.readableBytes_eq]
    simp only [Buffer.retrieve, bind_eq_ok, check_eq_ok] at hs
    exact hs.choose_spec.1
  obtain ⟨b₁, hb₁, hq⟩ := h.represents.retrieve hle
  obtain rfl := Except.ok.inj (hb₁.symm.trans hs)
  apply Marks.of_represents hq
  · rw [List.length_drop, List.length_drop, h.length]
  · have hroom := h.room
    have hdrop := prependedUnread_le_drop o len
    simp only [Buffer.retrieve, bind_eq_ok] at hs
    obtain ⟨-, -, hs⟩ := hs
    split at hs
    · simp only [pure_eq_ok] at hs
      subst hs
      unfold Buffer.prependableBytes at hroom ⊢
      dsimp only
      omega
    · simp only [pure_eq_ok] at hs
      subst hs
      exact Nat.le_add_right _ _

theorem Marks.retrieveUntil (h : Marks b o)
    (hs : b.retrieveUntil (b.readerIndex_ + len) = .ok b') : Marks b' (o.drop len) := by
  simp only [Buffer.retrieveUntil, bind_eq_ok] at hs
  obtain ⟨-, -, -, -, hs⟩ := hs
  rw [Nat.add_sub_cancel_left] at hs
  exact h.retrieve hs

theorem Marks.retrieveAsString (h : Marks b o) {result : List UInt8 × Buffer}
    (hs : b.retrieveAsString len = .ok result) : Marks result.2 (o.drop len) := by
  simp only [Buffer.retrieveAsString, bind_eq_ok, pure_eq_ok] at hs
  obtain ⟨-, -, b₁, hb₁, rfl⟩ := hs
  exact h.retrieve hb₁

theorem Marks.retrieveAllAsString (h : Marks b o) {result : List UInt8 × Buffer}
    (hs : b.retrieveAllAsString = .ok result) : Marks result.2 [] := by
  have hmarks := h.retrieveAsString hs
  rwa [← h.length_eq, List.drop_length] at hmarks

theorem Marks.ensureWritableBytes (h : Marks b o) (hs : b.ensureWritableBytes len = .ok b') :
    Marks b' o := by
  obtain ⟨b₁, hb₁, hq, -⟩ := h.represents.ensureWritableBytes len
  obtain rfl := Except.ok.inj (hb₁.symm.trans hs)
  exact Marks.of_represents hq h.length (h.room_of_reader (Buffer.ensureWritableBytes_reader hs) rfl)

theorem Marks.append (h : Marks b o) (hs : b.append data = .ok b') :
    Marks b' (o ++ List.replicate data.length .appended) := by
  obtain ⟨b₁, hb₁, hq⟩ := h.represents.append data
  obtain rfl := Except.ok.inj (hb₁.symm.trans hs)
  apply Marks.of_represents hq
  · rw [List.length_append, List.length_replicate, List.length_append, h.length]
  · exact h.room_of_reader (Buffer.append_reader hs) (prependedUnread_pushed o _)

theorem Marks.append_memory (h : Marks b o) {k : ℕ} {x : BitVec (8 * k)}
    (hs : b.append (memory order k x) = .ok b') :
    Marks b' (o ++ List.replicate k .appended) := by
  simpa only [length_memory] using h.append hs

theorem Marks.hasWritten (h : Marks b o) (hlen : data.length ≤ b.writableBytes) :
    Marks ((b.copyToBeginWrite data).hasWritten data.length)
      (o ++ List.replicate data.length .appended) := by
  apply Marks.of_represents (h.represents.written data hlen)
  · rw [List.length_append, List.length_replicate, List.length_append, h.length]
  · exact h.room_of_reader (.inl rfl) (prependedUnread_pushed o _)

theorem Marks.readFd (h : Marks b o) (hs : b.readFd (.bytes data) = .ok b') :
    Marks b' (o ++ List.replicate data.length .appended) := by
  obtain ⟨b₁, hb₁, hq⟩ := h.represents.readFd data
  obtain rfl := Except.ok.inj (hb₁.symm.trans hs)
  apply Marks.of_represents hq
  · rw [List.length_append, List.length_replicate, List.length_append, h.length]
  · exact h.room_of_reader (Buffer.readFd_reader hs) (prependedUnread_pushed o _)

theorem Marks.shrink (h : Marks b o) (hs : b.shrink len = .ok b') : Marks b' o := by
  have hint : b.readable.length < 2 ^ 31 := by
    rw [← h.represents.readableBytes_eq]
    simp only [Buffer.shrink, Buffer.toStringPiece, bind_eq_ok, check_eq_ok] at hs
    obtain ⟨-, -, -, ⟨-, hlt, -⟩, -⟩ := hs
    exact hlt
  obtain ⟨b₁, hb₁, hq⟩ := h.represents.shrink len hint
  obtain rfl := Except.ok.inj (hb₁.symm.trans hs)
  exact Marks.of_represents hq h.length (h.room_of_reader (.inr (Buffer.shrink_reader hs)) rfl)

/-- What is prepended takes as much room as it leaves unread. -/
theorem Marks.prepend (h : Marks b o) (hs : b.prepend data = .ok b') :
    Marks b' (List.replicate data.length .prepended ++ o) := by
  have hle : data.length ≤ b.prependableBytes := by
    simp only [Buffer.prepend, bind_eq_ok, check_eq_ok] at hs
    exact hs.choose_spec.1
  obtain ⟨b₁, hb₁, hq⟩ := h.represents.prepend data hle
  obtain rfl := Except.ok.inj (hb₁.symm.trans hs)
  apply Marks.of_represents hq
  · rw [List.length_append, List.length_replicate, List.length_append, h.length]
  · have hroom := h.room
    rw [prependedUnread_unshifted]
    simp only [Buffer.prepend, bind_eq_ok, pure_eq_ok] at hs
    obtain ⟨-, -, rfl⟩ := hs
    unfold Buffer.prependableBytes at hroom hle ⊢
    dsimp only
    omega

theorem Marks.prepend_memory (h : Marks b o) {k : ℕ} {x : BitVec (8 * k)}
    (hs : b.prepend (memory order k x) = .ok b') :
    Marks b' (List.replicate k .prepended ++ o) := by
  simpa only [length_memory] using h.prepend hs

theorem Marks.readInt8 (h : Marks b o) (hs : (Prod.snd <$> b.readInt8 order) = .ok b') :
    Marks b' (o.drop 1) := by
  simp only [Buffer.readInt8, map_eq_ok, bind_eq_ok, pure_eq_ok] at hs
  obtain ⟨-, ⟨-, -, b₁, hb₁, rfl⟩, rfl⟩ := hs
  exact h.retrieve hb₁

theorem Marks.readInt16 (h : Marks b o) (hs : (Prod.snd <$> b.readInt16 order) = .ok b') :
    Marks b' (o.drop 2) := by
  simp only [Buffer.readInt16, map_eq_ok, bind_eq_ok, pure_eq_ok] at hs
  obtain ⟨-, ⟨-, -, b₁, hb₁, rfl⟩, rfl⟩ := hs
  exact h.retrieve hb₁

theorem Marks.readInt32 (h : Marks b o) (hs : (Prod.snd <$> b.readInt32 order) = .ok b') :
    Marks b' (o.drop 4) := by
  simp only [Buffer.readInt32, map_eq_ok, bind_eq_ok, pure_eq_ok] at hs
  obtain ⟨-, ⟨-, -, b₁, hb₁, rfl⟩, rfl⟩ := hs
  exact h.retrieve hb₁

end Buffers

section Pools

variable {ι : Type} [DecidableEq ι] {order : HostOrder} {p p' : Pool ι Buffer}
  {o : ι → List Origin}

def PoolMarks (p : Pool ι Buffer) (o : ι → List Origin) : Prop := ∀ i, Marks (p.get i) (o i)

theorem PoolMarks.set (h : PoolMarks p o) {i : ι} {b : Buffer} {l : List Origin}
    (hb : Marks b l) : PoolMarks (p.set i b) (Function.update o i l) := by
  intro j
  by_cases hj : j = i
  · subst hj
    simpa [Pool.set] using hb
  · simpa [Pool.set, hj] using h j

theorem PoolMarks.onBuffer (h : PoolMarks p o) {i : ι}
    {f : Buffer → Except Buffer.Fault Buffer} {l : List Origin}
    (hs : onBuffer p i f = .ok p') (hf : ∀ b, f (p.get i) = .ok b → Marks b l) :
    PoolMarks p' (Function.update o i l) := by
  simp only [BufferQueue.onBuffer, bind_eq_ok, pure_eq_ok] at hs
  obtain ⟨b, hb, rfl⟩ := hs
  exact h.set (hf b hb)

theorem PoolMarks.onBufferString (h : PoolMarks p o) {i : ι}
    {f : Buffer → Except Buffer.Fault (List UInt8 × Buffer)} {l : List Origin}
    (hs : onBufferString p i f = .ok p') (hf : ∀ r, f (p.get i) = .ok r → Marks r.2 l) :
    PoolMarks p' (Function.update o i l) := by
  simp only [BufferQueue.onBufferString, bind_eq_ok, pure_eq_ok] at hs
  obtain ⟨r, hr, rfl⟩ := hs
  exact h.set (hf r hr)

theorem PoolMarks.onBuffer_self (h : PoolMarks p o) {i : ι}
    {f : Buffer → Except Buffer.Fault Buffer}
    (hs : BufferQueue.onBuffer p i f = .ok p') (hf : ∀ b, f (p.get i) = .ok b → Marks b (o i)) :
    PoolMarks p' o := by
  have hset := h.onBuffer hs hf
  rwa [Function.update_eq_self] at hset

theorem PoolMarks.op (h : PoolMarks p o) {op : Op ι} (hs : BufferQueue.step order p op = .ok p') :
    PoolMarks p' (markOp o op) := by
  unfold BufferQueue.step at hs
  cases op with
  | append i data => exact h.onBuffer hs fun _ hb => (h i).append hb
  | appendInt8 i x => exact h.onBuffer hs fun _ hb => (h i).append_memory hb
  | appendInt16 i x => exact h.onBuffer hs fun _ hb => (h i).append_memory hb
  | appendInt32 i x => exact h.onBuffer hs fun _ hb => (h i).append_memory hb
  | prepend i data => exact h.onBuffer hs fun _ hb => (h i).prepend hb
  | prependInt8 i x => exact h.onBuffer hs fun _ hb => (h i).prepend_memory hb
  | prependInt16 i x => exact h.onBuffer hs fun _ hb => (h i).prepend_memory hb
  | prependInt32 i x => exact h.onBuffer hs fun _ hb => (h i).prepend_memory hb
  | retrieve i len => exact h.onBuffer hs fun _ hb => (h i).retrieve hb
  | retrieveUntil i len => exact h.onBuffer hs fun _ hb => (h i).retrieveUntil hb
  | retrieveInt8 i => exact h.onBuffer hs fun _ hb => (h i).retrieve hb
  | retrieveInt16 i => exact h.onBuffer hs fun _ hb => (h i).retrieve hb
  | retrieveInt32 i => exact h.onBuffer hs fun _ hb => (h i).retrieve hb
  | retrieveAll i =>
    apply h.onBuffer hs
    intro b hb
    obtain rfl := pure_eq_ok.mp hb
    exact (h i).retrieveAll
  | retrieveAsString i len => exact h.onBufferString hs fun _ hr => (h i).retrieveAsString hr
  | retrieveAllAsString i => exact h.onBufferString hs fun _ hr => (h i).retrieveAllAsString hr
  | ensureWritableBytes i len => exact h.onBuffer_self hs fun _ hb => (h i).ensureWritableBytes hb
  | shrink i reserve => exact h.onBuffer_self hs fun _ hb => (h i).shrink hb
  | swap i j =>
    obtain rfl := pure_eq_ok.mp hs
    exact (h.set (h j)).set (h i)
  | readFd i result =>
    cases result with
    | bytes data => exact h.onBuffer hs fun _ hb => (h i).readFd hb
    | failed errno =>
      apply h.onBuffer_self hs
      intro b hb
      obtain rfl := pure_eq_ok.mp hb
      exact h i

theorem PoolMarks.call (h : PoolMarks p o) {a : Call ι} (ha : Stored p a)
    (hs : call order p a = .ok p') : PoolMarks p' (mark o a) := by
  unfold BufferHeadroom.call at hs
  cases a with
  | op op => exact h.op hs
  | readInt8 i => exact h.onBuffer hs fun _ hb => (h i).readInt8 hb
  | readInt16 i => exact h.onBuffer hs fun _ hb => (h i).readInt16 hb
  | readInt32 i => exact h.onBuffer hs fun _ hb => (h i).readInt32 hb
  | hasWritten i data =>
    apply h.onBuffer hs
    intro b hb
    obtain rfl := pure_eq_ok.mp hb
    exact (h i).hasWritten ha
  | assign i j =>
    obtain rfl := pure_eq_ok.mp hs
    exact h.set (h j)

theorem marks_of_reachable {m : Marked ι} (h : (machine order).Reachable m) :
    PoolMarks m.pool m.origins := by
  apply h.invariant (I := fun m => PoolMarks m.pool m.origins)
  · intro m hm i
    subst hm
    exact new_marks
  · intro m a m' hmarks ha hs
    obtain ⟨pool, hpool, hm'⟩ := bind_eq_ok.mp hs
    obtain rfl := pure_eq_ok.mp hm'
    exact hmarks.call ha hpool

/-- With nothing prepended unread a header of `kCheapPrepend` bytes has its place. -/
theorem Marks.prepend_legal {b : Buffer} {l : List Origin} (h : Marks b l)
    (hnone : prependedUnread l = 0) {data : List UInt8}
    (hlen : data.length ≤ Buffer.kCheapPrepend) : ∃ b', b.prepend data = .ok b' := by
  have hroom := h.room
  obtain ⟨b', hb', -⟩ := h.represents.prepend data (by omega)
  exact ⟨b', hb'⟩

end Pools

end BufferHeadroom

end MuduoServer
