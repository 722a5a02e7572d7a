import MuduoServer.BankRequests
import MuduoServer.Transducer

/-!
Texts that are encrypted and decrypted in several calls. A call of `IdeaCfbEncrypt` or
`IdeaCfbDecrypt` does with its bytes what one byte after the other would do, where the
cipher is cranked when no byte of the block is left; so neither the cuts of the text nor
those of the cipher text matter. Passwords that are sent with a command come back.
-/
namespace MuduoServer.IdeaChunks

open Block Idea Transducer BankPackets BankWire BankRequests

variable {Key : Type*} (IdeaExpandKey : List UInt8 → Key)
  (IdeaCipher : List UInt8 → Key → List UInt8)

/-- A new block, if no byte of the last one is left. -/
def refill (ctx : IdeaCfbContext Key) : IdeaCfbContext Key :=
  if ctx.bufleft = 0 then { crank IdeaCipher ctx with bufleft := 8 } else ctx

/-- One byte `b`, where `store` says what replaces the byte `t` of the block. -/
def step (store : UInt8 → UInt8 → UInt8) (ctx : IdeaCfbContext Key) (b : UInt8) :
    IdeaCfbContext Key × UInt8 :=
  let ctx := refill IdeaCipher ctx
  let bufptr := 8 - ctx.bufleft
  let t := ctx.iv.getD bufptr 0
  ({ ctx with iv := ctx.iv.set bufptr (store t b), bufleft := ctx.bufleft - 1 }, t ^^^ b)

/-- The loop `bytes` stores at `bufptr` what `store` says, and puts out the sum. -/
structure Stores (store : UInt8 → UInt8 → UInt8)
    (bytes : List UInt8 → ℕ → List UInt8 → List UInt8 × List UInt8) : Prop where
  nil : ∀ iv bufptr, bytes iv bufptr [] = (iv, [])
  cons : ∀ iv bufptr b src, bytes iv bufptr (b :: src) =
    ((bytes (iv.set bufptr (store (iv.getD bufptr 0) b)) (bufptr + 1) src).1,
      (iv.getD bufptr 0 ^^^ b) ::
        (bytes (iv.set bufptr (store (iv.getD bufptr 0) b)) (bufptr + 1) src).2)

theorem stores_encryptBytes : Stores (fun t b => t ^^^ b) encryptBytes :=
  ⟨fun _ _ => rfl, fun _ _ _ _ => rfl⟩

theorem stores_decryptBytes : Stores (fun _ b => b) decryptBytes :=
  ⟨fun _ _ => rfl, fun _ _ _ _ => rfl⟩

section Bytes

variable {store : UInt8 → UInt8 → UInt8}
  {bytes : List UInt8 → ℕ → List UInt8 → List UInt8 × List UInt8}

/-- Bytes that the block has enough for. -/
theorem Stores.run_block (h : Stores store bytes) (ctx : IdeaCfbContext Key) (src : List UInt8)
    (hsrc : src.length ≤ ctx.bufleft) (hctx : ctx.bufleft ≤ 8) :
    run (step IdeaCipher store) ctx src =
      ({ ctx with iv := (bytes ctx.iv (8 - ctx.bufleft) src).1
                  bufleft := ctx.bufleft - src.length },
        (bytes ctx.iv (8 - ctx.bufleft) src).2) := by
  induction src generalizing ctx with
  | nil => rw [h.nil]; rfl
  | cons b src ih =>
    rw [List.length_cons] at hsrc
    have hleft : ctx.bufleft ≠ 0 := by omega
    have hstep : step IdeaCipher store ctx b =
        ({ ctx with
            iv := ctx.iv.set (8 - ctx.bufleft) (store (ctx.iv.getD (8 - ctx.bufleft) 0) b)
            bufleft := ctx.bufleft - 1 }, ctx.iv.getD (8 - ctx.bufleft) 0 ^^^ b) := by
      rw [step, refill, if_neg hleft]
    have hnext : 8 - (ctx.bufleft - 1) = 8 - ctx.bufleft + 1 := by omega
    have hrest : ctx.bufleft - 1 - src.length = ctx.bufleft - (src.length + 1) := by omega
    simp only [run, hstep]
    rw [ih _ (by simp only; omega) (by simp only; omega), h.cons]
    simp only [hnext, hrest, List.length_cons]

/-- The first byte of a block cranks the cipher. -/
theorem run_refill {src : List UInt8} (hsrc : src ≠ []) (ctx : IdeaCfbContext Key) :
    run (step IdeaCipher store) { ctx with bufleft := 0 } src =
      run (step IdeaCipher store) { crank IdeaCipher ctx with bufleft := 8 } src := by
  cases src with
  | nil => exact absurd rfl hsrc
  | cons b src => rfl

theorem Stores.run_blocks (h : Stores store bytes) (ctx : IdeaCfbContext Key) (src : List UInt8)
    (hsrc : src ≠ []) :
    run (step IdeaCipher store) { ctx with bufleft := 0 } src =
      ideaCfbBlocks IdeaCipher bytes ctx src := by
  fun_induction ideaCfbBlocks IdeaCipher bytes ctx src with
  | case1 ctx src ctx' hlong r m ih =>
    have htake : (src.take 8).length = 8 := by
      rw [List.length_take]
      omega
    have hdrop : src.drop 8 ≠ [] := by
      rw [← List.length_pos_iff, List.length_drop]
      omega
    have hblock := h.run_block IdeaCipher { ctx' with bufleft := 8 } (src.take 8) (by
      rw [htake]) le_rfl
    rw [htake] at hblock
    rw [run_refill IdeaCipher hsrc, ← List.take_append_drop 8 src, run_append, hblock]
    exact congrArg (fun m => (m.1, r.2 ++ m.2)) (ih hdrop)
  | case2 ctx src ctx' hshort r =>
    rw [run_refill IdeaCipher hsrc]
    exact h.run_block IdeaCipher { ctx' with bufleft := 8 } src (by simp only; omega) le_rfl

/-- A call is a run of bytes. -/
theorem Stores.ideaCfbRun_eq (h : Stores store bytes) (ctx : IdeaCfbContext Key)
    (src : List UInt8) (hctx : ctx.bufleft ≤ 8) :
    ideaCfbRun IdeaCipher bytes ctx src = run (step IdeaCipher store) ctx src := by
  by_cases hshort : src.length ≤ ctx.bufleft
  · rw [h.run_block IdeaCipher ctx src hshort hctx, ideaCfbRun, if_pos hshort]
  · have htake : (src.take ctx.bufleft).length = ctx.bufleft := by
      rw [List.length_take]
      omega
    have hdrop : src.drop ctx.bufleft ≠ [] := by
      rw [← List.length_pos_iff, List.length_drop]
      omega
    have hblock := h.run_block IdeaCipher ctx (src.take ctx.bufleft) (by rw [htake]) hctx
    rw [htake, Nat.sub_self] at hblock
    conv_rhs => rw [← List.take_append_drop ctx.bufleft src]
    rw [run_append, hblock, ideaCfbRun, if_neg hshort]
    simp only
    rw [← h.run_blocks IdeaCipher _ _ hdrop]

theorem bufleft_step (ctx : IdeaCfbContext Key) (b : UInt8) (hctx : ctx.bufleft ≤ 8) :
    (step IdeaCipher store ctx b).1.bufleft ≤ 8 := by
  have hrefill : (refill IdeaCipher ctx).bufleft ≤ 8 := by
    unfold refill
    split
    · exact le_rfl
    · exact hctx
  exact (Nat.sub_le _ 1).trans hrefill

theorem bufleft_run (ctx : IdeaCfbContext Key) (src : List UInt8) (hctx : ctx.bufleft ≤ 8) :
    (run (step IdeaCipher store) ctx src).1.bufleft ≤ 8 := by
  induction src generalizing ctx with
  | nil => exact hctx
  | cons b src ih => exact ih _ (bufleft_step IdeaCipher ctx b hctx)

/-- Calls are a run of all their bytes. -/
theorem Stores.calls_eq (h : Stores store bytes) {ctx : IdeaCfbContext Key}
    (hctx : ctx.bufleft ≤ 8) (pieces : List (List UInt8)) :
    calls (ideaCfbRun IdeaCipher bytes) ctx pieces =
      ideaCfbRun IdeaCipher bytes ctx pieces.flatten := by
  rw [h.ideaCfbRun_eq IdeaCipher ctx _ hctx]
  refine calls_eq_run (I := fun ctx => ctx.bufleft ≤ 8) ?_ hctx pieces
  intro ctx src hctx
  have hrun := h.ideaCfbRun_eq IdeaCipher ctx src hctx
  refine ⟨hrun, ?_⟩
  rw [hrun]
  exact bufleft_run IdeaCipher ctx src hctx

end Bytes

/-- The contexts that an `Idea` can have once it has been used. -/
inductive InUse : IdeaCfbContext Key → Prop
  | init (ctx : IdeaCfbContext Key) (key : List UInt8) : InUse (ideaCfbInit IdeaExpandKey ctx key)
  | sync {ctx : IdeaCfbContext Key} : InUse ctx → InUse (ideaCfbSync ctx)
  | encrypt {ctx : IdeaCfbContext Key} (src : List UInt8) :
      InUse ctx → InUse (ideaCfbEncrypt IdeaCipher ctx src).1
  | decrypt {ctx : IdeaCfbContext Key} (src : List UInt8) :
      InUse ctx → InUse (ideaCfbDecrypt IdeaCipher ctx src).1

variable {IdeaExpandKey IdeaCipher}

theorem InUse.bufleft_le {ctx : IdeaCfbContext Key} (h : InUse IdeaExpandKey IdeaCipher ctx) :
    ctx.bufleft ≤ 8 := by
  induction h with
  | init ctx key => exact Nat.zero_le 8
  | @sync ctx h ih =>
    unfold ideaCfbSync
    split
    · exact ih
    · exact Nat.zero_le 8
  | encrypt src h ih =>
    rw [ideaCfbEncrypt, stores_encryptBytes.ideaCfbRun_eq IdeaCipher _ src ih]
    exact bufleft_run IdeaCipher _ src ih
  | decrypt src h ih =>
    rw [ideaCfbDecrypt, stores_decryptBytes.ideaCfbRun_eq IdeaCipher _ src ih]
    exact bufleft_run IdeaCipher _ src ih

/-- A text and its cipher text may be cut in any ways. -/
theorem decrypt_calls_encrypt_calls {ctx : IdeaCfbContext Key} (hctx : ctx.bufleft ≤ 8)
    {chunks pieces : List (List UInt8)}
    (hpieces : pieces.flatten = (calls (ideaCfbEncrypt IdeaCipher) ctx chunks).2) :
    calls (ideaCfbDecrypt IdeaCipher) ctx pieces =
      ((calls (ideaCfbEncrypt IdeaCipher) ctx chunks).1, chunks.flatten) := by
  have hencrypt : calls (ideaCfbEncrypt IdeaCipher) ctx chunks =
      ideaCfbEncrypt IdeaCipher ctx chunks.flatten :=
    stores_encryptBytes.calls_eq IdeaCipher hctx chunks
  have hdecrypt : calls (ideaCfbDecrypt IdeaCipher) ctx pieces =
      ideaCfbDecrypt IdeaCipher ctx pieces.flatten :=
    stores_decryptBytes.calls_eq IdeaCipher hctx pieces
  rw [hdecrypt, hpieces, hencrypt, ideaCfbDecrypt_encrypt]

/-- Decryption gives back what has been encrypted, however the two are cut into calls, and the
server reads the password that the client has entered, whatever the contexts of the two objects
were before. -/
theorem passwords_survive (IdeaExpandKey : List UInt8 → Key)
    (IdeaCipher : List UInt8 → Key → List UInt8) :
    (∀ (ctx : IdeaCfbContext Key) (chunks pieces : List (List UInt8)), ctx.bufleft ≤ 8 →
      pieces.flatten = (calls (ideaCfbEncrypt IdeaCipher) ctx chunks).2 →
      calls (ideaCfbDecrypt IdeaCipher) ctx pieces =
        ((calls (ideaCfbEncrypt IdeaCipher) ctx chunks).1, chunks.flatten)) ∧
    ∀ (md5Make : MD5) (cmd : BitVec 16) (cfb cfb' : IdeaCfbContext Key)
      (pass behind : List UInt8), IsPassword pass →
      cstr (crypt IdeaExpandKey IdeaCipher cfb' (ideaKey md5Make cmd)
        (crypt IdeaExpandKey IdeaCipher cfb (ideaKey md5Make cmd)
          ((pass ++ 0 :: behind).take 16) true) false) = pass :=
  ⟨fun _ _ _ hctx hpieces => decrypt_calls_encrypt_calls hctx hpieces,
    fun md5Make cmd cfb cfb' _ behind hpass =>
      cstr_crypt_crypt cfb cfb' (ideaKey md5Make cmd) hpass behind⟩

/-- A context after `ideaCfbInit`, where the cipher adds 1 to every byte. -/
def plainContext : IdeaCfbContext Unit where
  oldcipher := List.replicate 8 0
  iv := List.replicate 8 0
  key := ()
  bufleft := 0

def addOne (block : List UInt8) (_ : Unit) : List UInt8 := block.map (· + 1)

def tenBytes : List (List UInt8) := [[1, 2, 3], [4, 5, 6, 7, 8, 9, 10]]

def onePassword : List UInt8 := [49, 50, 51, 52]

def sevens : MD5 := fun _ => ⟨List.replicate 16 7, List.length_replicate⟩

/-- Bytes that are encrypted as 3 and 7 and decrypted as 5 and 5, and a password. -/
theorem passwords_survive_sample :
    calls (ideaCfbDecrypt addOne) plainContext
        [(calls (ideaCfbEncrypt addOne) plainContext tenBytes).2.take 5,
          (calls (ideaCfbEncrypt addOne) plainContext tenBytes).2.drop 5] =
      ((calls (ideaCfbEncrypt addOne) plainContext tenBytes).1, tenBytes.flatten) ∧
    cstr (crypt (fun _ => ()) addOne plainContext (ideaKey sevens CMD_CHANGE_PASSWORD)
      (crypt (fun _ => ()) addOne plainContext (ideaKey sevens CMD_CHANGE_PASSWORD)
        ((onePassword ++ 0 :: List.replicate 15 9).take 16) true) false) = onePassword :=
  ⟨(passwords_survive (fun _ => ()) addOne).1 plainContext tenBytes _ (Nat.zero_le 8) (by
      rw [List.flatten_cons, List.flatten_cons, List.flatten_nil, List.append_nil,
        List.take_append_drop]),
    (passwords_survive (fun _ => ()) addOne).2 sevens CMD_CHANGE_PASSWORD plainContext
      plainContext onePassword (List.replicate 15 9) ⟨by decide, by decide⟩⟩

end MuduoServer.IdeaChunks
