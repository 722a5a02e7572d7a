import MuduoServer.Block
import Mathlib.Tactic.Common

/-!
`Idea` of `ABCBank/Public`: encryption in cipher feedback mode. What is written
over the feedback block is the cipher text in both directions, so the block of
the one that decrypts is that of the one that has encrypted, and decrypting
gives the text back, for every block cipher and every length.
-/
namespace MuduoServer

open Block

/-- `key` is the expanded key. -/
structure IdeaCfbContext (Key : Type*) where
  oldcipher : List UInt8
  iv : List UInt8
  key : Key
  bufleft : ℕ

namespace Idea

/-- `*dest++ = (*bufptr++ ^= *src++)` for every byte of `src`, from `bufptr` on. -/
def encryptBytes : List UInt8 → ℕ → List UInt8 → List UInt8 × List UInt8
  | iv, _, [] => (iv, [])
  | iv, bufptr, b :: src =>
      let t := iv.getD bufptr 0
      let r := encryptBytes (iv.set bufptr (t ^^^ b)) (bufptr + 1) src
      (r.1, (t ^^^ b) :: r.2)

/-- `t = *bufptr; *dest++ = t ^ (*bufptr++ = *src++)` for every byte of `src`. -/
def decryptBytes : List UInt8 → ℕ → List UInt8 → List UInt8 × List UInt8
  | iv, _, [] => (iv, [])
  | iv, bufptr, b :: src =>
      let t := iv.getD bufptr 0
      let r := decryptBytes (iv.set bufptr b) (bufptr + 1) src
      (r.1, (t ^^^ b) :: r.2)

section Cfb

variable {Key : Type*} (IdeaExpandKey : List UInt8 → Key)
  (IdeaCipher : List UInt8 → Key → List UInt8)

def ideaCfbReinit (ctx : IdeaCfbContext Key) : IdeaCfbContext Key :=
  { ctx with iv := List.replicate 8 0, bufleft := 0 }

/-- The context of a new `Idea`, whose bytes are anything, with its key expanded. -/
def ideaCfbInit (ctx : IdeaCfbContext Key) (key : List UInt8) : IdeaCfbContext Key :=
  ideaCfbReinit { ctx with key := IdeaExpandKey key }

def ideaCfbSync (ctx : IdeaCfbContext Key) : IdeaCfbContext Key :=
  if ctx.bufleft = 0 then ctx
  else
    { ctx with
      iv := slice ctx.oldcipher (8 - ctx.bufleft) 8 ++ ctx.iv.take (8 - ctx.bufleft)
      bufleft := 0 }

/-- The feedback block goes through the cipher. -/
def crank (ctx : IdeaCfbContext Key) : IdeaCfbContext Key :=
  { ctx with oldcipher := ctx.iv, iv := IdeaCipher ctx.iv ctx.key }

/-- The middle blocks and the last 1 to 8 bytes; `bytes` is one of the two loops over bytes. -/
def ideaCfbBlocks (bytes : List UInt8 → ℕ → List UInt8 → List UInt8 × List UInt8)
    (ctx : IdeaCfbContext Key) (src : List UInt8) : IdeaCfbContext Key × List UInt8 :=
  let ctx := crank IdeaCipher ctx
  if 8 < src.length then
    let r := bytes ctx.iv 0 (src.take 8)
    let m := ideaCfbBlocks bytes { ctx with iv := r.1 } (src.drop 8)
    (m.1, r.2 ++ m.2)
  else
    let r := bytes ctx.iv 0 src
    ({ ctx with iv := r.1, bufleft := 8 - src.length }, r.2)
termination_by src.length
decreasing_by
  rw [List.length_drop]
  omega

/-- The bytes that are left of the last block, and then the blocks. -/
def ideaCfbRun (bytes : List UInt8 → ℕ → List UInt8 → List UInt8 × List UInt8)
    (ctx : IdeaCfbContext Key) (src : List UInt8) : IdeaCfbContext Key × List UInt8 :=
  let bufptr := 8 - ctx.bufleft
  if src.length ≤ ctx.bufleft then
    let r := bytes ctx.iv bufptr src
    ({ ctx with iv := r.1, bufleft := ctx.bufleft - src.length }, r.2)
  else
    let r := bytes ctx.iv bufptr (src.take ctx.bufleft)
    let m := ideaCfbBlocks IdeaCipher bytes { ctx with iv := r.1 } (src.drop ctx.bufleft)
    (m.1, r.2 ++ m.2)

def ideaCfbEncrypt (ctx : IdeaCfbContext Key) (src : List UInt8) :
    IdeaCfbContext Key × List UInt8 :=
  ideaCfbRun IdeaCipher encryptBytes ctx src

def ideaCfbDecrypt (ctx : IdeaCfbContext Key) (src : List UInt8) :
    IdeaCfbContext Key × List UInt8 :=
  ideaCfbRun IdeaCipher decryptBytes ctx src

/-- What is written to `dest`. -/
def crypt (cfb : IdeaCfbContext Key) (key src : List UInt8) (encrypt : Bool) : List UInt8 :=
  let cfb := ideaCfbSync (ideaCfbInit IdeaExpandKey cfb key)
  if encrypt then (ideaCfbEncrypt IdeaCipher cfb src).2
  else (ideaCfbDecrypt IdeaCipher cfb src).2

theorem length_encryptBytes (iv : List UInt8) (bufptr : ℕ) (src : List UInt8) :
    (encryptBytes iv bufptr src).2.length = src.length := by
  induction src generalizing iv bufptr with
  | nil => rfl
  | cons b src ih => simp [encryptBytes, ih]

/-- Decrypting leaves the block as encrypting has left it. -/
theorem decryptBytes_encryptBytes (iv : List UInt8) (bufptr : ℕ) (src : List UInt8) :
    decryptBytes iv bufptr (encryptBytes iv bufptr src).2 =
      ((encryptBytes iv bufptr src).1, src) := by
  induction src generalizing iv bufptr with
  | nil => rfl
  | cons b src ih =>
    have hxor : iv.getD bufptr 0 ^^^ (iv.getD bufptr 0 ^^^ b) = b := by
      rw [← UInt8.xor_assoc, UInt8.xor_self, UInt8.zero_xor]
    simp only [encryptBytes, decryptBytes, ih, hxor]

theorem length_ideaCfbBlocks (ctx : IdeaCfbContext Key) (src : List UInt8) :
    (ideaCfbBlocks IdeaCipher encryptBytes ctx src).2.length = src.length := by
  fun_induction ideaCfbBlocks IdeaCipher encryptBytes ctx src with
  | case1 ctx src ctx' hlong r m ih =>
    simp only [r, m, List.length_append, length_encryptBytes, ih, List.length_take,
      List.length_drop]
    omega
  | case2 ctx src ctx' hshort r => exact length_encryptBytes _ _ _

theorem ideaCfbBlocks_decrypt (ctx : IdeaCfbContext Key) (src : List UInt8) :
    ideaCfbBlocks IdeaCipher decryptBytes ctx
        (ideaCfbBlocks IdeaCipher encryptBytes ctx src).2 =
      ((ideaCfbBlocks IdeaCipher encryptBytes ctx src).1, src) := by
  fun_induction ideaCfbBlocks IdeaCipher encryptBytes ctx src with
  | case1 ctx src ctx' hlong r m ih =>
    have hr : r.2.length = 8 := by
      simp only [r, length_encryptBytes, List.length_take]
      omega
    have hm : m.2.length = src.length - 8 := by
      simp only [m, length_ideaCfbBlocks, List.length_drop]
    have hlen : 8 < (r.2 ++ m.2).length := by
      rw [List.length_append]
      omega
    rw [ideaCfbBlocks, if_pos hlen, List.take_left' hr, List.drop_left' hr]
    have hblock := decryptBytes_encryptBytes ctx'.iv 0 (src.take 8)
    simp only [m, r, ctx'] at ih hblock ⊢
    simp only [hblock, ih, List.take_append_drop]
  | case2 ctx src ctx' hshort r =>
    have hlen : ¬ 8 < r.2.length := by
      rw [show r.2.length = src.length from length_encryptBytes _ _ _]
      exact hshort
    have hlast := decryptBytes_encryptBytes ctx'.iv 0 src
    rw [ideaCfbBlocks, if_neg hlen]
    simp only [r, ctx', length_encryptBytes] at hlast ⊢
    rw [hlast]

theorem length_ideaCfbEncrypt (ctx : IdeaCfbContext Key) (src : List UInt8) :
    (ideaCfbEncrypt IdeaCipher ctx src).2.length = src.length := by
  simp only [ideaCfbEncrypt, ideaCfbRun]
  split
  · exact length_encryptBytes _ _ _
  · rename_i hlong
    simp only [List.length_append, length_encryptBytes, length_ideaCfbBlocks, List.length_take,
      List.length_drop]
    omega

/-- A context that decrypts ends as the one that has encrypted, and gives the text back. -/
theorem ideaCfbDecrypt_encrypt (ctx : IdeaCfbContext Key) (src : List UInt8) :
    ideaCfbDecrypt IdeaCipher ctx (ideaCfbEncrypt IdeaCipher ctx src).2 =
      ((ideaCfbEncrypt IdeaCipher ctx src).1, src) := by
  have hlen := length_ideaCfbEncrypt IdeaCipher ctx src
  by_cases hshort : src.length ≤ ctx.bufleft
  · have hshort' : (ideaCfbEncrypt IdeaCipher ctx src).2.length ≤ ctx.bufleft := by
      rw [hlen]
      exact hshort
    rw [ideaCfbDecrypt, ideaCfbRun, if_pos hshort']
    simp only [ideaCfbEncrypt, ideaCfbRun, if_pos hshort, decryptBytes_encryptBytes,
      length_encryptBytes]
  · have hlong : ¬ (ideaCfbEncrypt IdeaCipher ctx src).2.length ≤ ctx.bufleft := by
      rw [hlen]
      exact hshort
    have hfirst : (encryptBytes ctx.iv (8 - ctx.bufleft) (src.take ctx.bufleft)).2.length =
        ctx.bufleft := by
      rw [length_encryptBytes, List.length_take]
      omega
    rw [ideaCfbDecrypt, ideaCfbRun, if_neg hlong]
    simp only [ideaCfbEncrypt, ideaCfbRun, if_neg hshort, List.take_left' hfirst,
      List.drop_left' hfirst, decryptBytes_encryptBytes, ideaCfbBlocks_decrypt,
      List.take_append_drop]

/-- The old cipher text is replaced before it is read. -/
theorem ideaCfbRun_oldcipher
    (bytes : List UInt8 → ℕ → List UInt8 → List UInt8 × List UInt8) (ctx : IdeaCfbContext Key)
    (old src : List UInt8) :
    (ideaCfbRun IdeaCipher bytes { ctx with oldcipher := old } src).2 =
      (ideaCfbRun IdeaCipher bytes ctx src).2 := by
  have hblocks : ∀ iv rest, ideaCfbBlocks IdeaCipher bytes
      { ctx with oldcipher := old, iv := iv } rest =
      ideaCfbBlocks IdeaCipher bytes { ctx with iv := iv } rest := by
    intro iv rest
    rw [ideaCfbBlocks, ideaCfbBlocks]
    rfl
  unfold ideaCfbRun
  simp only
  split
  · rfl
  · rw [hblocks]

/-- Two objects with any contexts before and the same key. -/
theorem crypt_crypt (cfb cfb' : IdeaCfbContext Key) (key src : List UInt8) :
    crypt IdeaExpandKey IdeaCipher cfb' key
      (crypt IdeaExpandKey IdeaCipher cfb key src true) false = src := by
  have hsame : ∀ src, crypt IdeaExpandKey IdeaCipher cfb' key src false =
      crypt IdeaExpandKey IdeaCipher cfb key src false := by
    intro src
    exact ideaCfbRun_oldcipher IdeaCipher decryptBytes
      (ideaCfbSync (ideaCfbInit IdeaExpandKey cfb key)) cfb'.oldcipher src
  have h := ideaCfbDecrypt_encrypt IdeaCipher (ideaCfbSync (ideaCfbInit IdeaExpandKey cfb key)) src
  rw [hsame]
  simp only [crypt, if_true, Bool.false_eq_true, if_false, h]

theorem length_crypt (cfb : IdeaCfbContext Key) (key src : List UInt8) :
    (crypt IdeaExpandKey IdeaCipher cfb key src true).length = src.length :=
  length_ideaCfbEncrypt IdeaCipher _ src

end Cfb

end Idea

end MuduoServer
