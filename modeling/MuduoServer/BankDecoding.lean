import MuduoServer.BankBills
import MuduoServer.FieldExtent

/-!
How far the server of `ABCBank` reads into a packet that it has accepted. Each action
reads its fields without a look at the length of the body, and the stream it reads from
holds the trailer as well. A request whose fields do not lie in the body fails an
assertion of the stream or is put together from bytes of the trailer.
-/
namespace MuduoServer.BankDecoding

open Endian FaultMachine FieldExtent Extent BankPackets BankWire BankRequests JInStream

/-- A string: a length of 16 bits and as many characters. -/
def string : Extent UInt8 := sized 2 fun q => ofLeBytes q.reverse

/-- The fields that the action of a command reads, if there is one. -/
def fields (cmd : BitVec 16) : Option (Extent UInt8) :=
  if cmd = CMD_LOGIN then some (seq string (fixed 16))
  else if cmd = CMD_OPEN_ACCOUNT then
    some (seq string (seq (fixed 16) (seq (fixed 18) string)))
  else if cmd = CMD_DEPOSIT then some (seq (fixed 6) string)
  else if cmd = CMD_WITHDRAW then some (seq (fixed 6) (seq (fixed 16) string))
  else if cmd = CMD_TRANSFER then
    some (seq (fixed 6) (seq (fixed 16) (seq string (fixed 6))))
  else if cmd = CMD_BALANCE_INQUIRY then some (seq (fixed 6) (fixed 16))
  else if cmd = CMD_CHANGE_PASSWORD then some (seq (fixed 6) (seq (fixed 16) (fixed 16)))
  else if cmd = CMD_DAY_BILL then some (seq (fixed 4) (fixed 10))
  else if cmd = CMD_HISTORY_BILL then some (seq (fixed 4) (seq (fixed 10) (fixed 10)))
  else if cmd = CMD_ACCOUNT_HISTORY_BILL then
    some (seq (fixed 4) (seq (fixed 6) (seq (fixed 10) (fixed 10))))
  else if cmd = CMD_CLOSE_ACCOUNT then some (seq (fixed 6) (fixed 16))
  else none

/-- The command has an action, whose fields lie in the body. -/
def WellFormed (cmd : BitVec 16) (body : List UInt8) : Prop :=
  ∃ e ∈ fields cmd, ∃ n, e.size body = some n

variable {A : Algorithms} (host : Host A)

/-- `DoAction` of the `TransactionManager`: what `Execute` sends, `none` if the operation behind
the fields throws, and the index at which the stream is left. `execute` stands for what an action
does with its fields. There is no result for a command without an action. -/
def DoAction (execute : Request → Option (List UInt8)) :
    Session (Option (Option (List UInt8) × ℕ)) := do
  let cmd ← hostField host.order 0
  match Server.actions host cmd with
  | none => pure none
  | some action => do
      let jis ← requestStream host.order
      match action jis with
      | .ok (r, jis) => pure (some (execute r, jis.currIndex_))
      | .error f => throw (.stream f)

/-- The action answers or throws an exception, and it has read nothing behind the body. -/
def Safe (body : List UInt8) :
    Except BankPackets.Fault (Option (Option (List UInt8) × ℕ) × BankSession) → Prop
  | .ok (some (_, index), _) => index ≤ body.length
  | _ => False

section Readers

variable (order : HostOrder)

abbrev Takes {α : Type} (p : Reader α) (e : Extent UInt8) : Prop :=
  FieldExtent.Takes rest JInStream.currIndex_ p e

theorem takes_readBytes (n : ℕ) : Takes (readBytes n) (fixed n) := by
  intro jis
  have hlen := jis.length_rest
  simp only [fixed, fixedSize]
  by_cases h : n ≤ jis.rest.length
  · have hroom : n ≤ jis.readableBytes := by rwa [← hlen]
    rw [if_pos h]
    refine ⟨jis.rest.take n, { jis with currIndex_ := jis.currIndex_ + n }, ?_, ?_, rfl⟩
    · simp only [readBytes, check_of hroom, ok_bind]
      rfl
    · exact List.drop_drop.symm
  · have hfew : ¬ n ≤ jis.readableBytes := by rwa [← hlen]
    rw [if_neg h]
    refine ⟨.readableBytes, ?_⟩
    simp only [readBytes, check, if_neg hfew]
    rfl

theorem takes_readUInt16 : Takes (readUInt16 order) (fixed 2) := (takes_readBytes 2).bind_pure _

theorem takes_readUInt32 : Takes (readUInt32 order) (fixed 4) := (takes_readBytes 4).bind_pure _

/-- A number of 16 bits is the one that its two bytes stand for. -/
theorem readUInt16_toNat {jis jis' : JInStream} {x : BitVec 16}
    (h : readUInt16 order jis = .ok (x, jis')) :
    x.toNat = ofLeBytes (jis.rest.take 2).reverse := by
  have hrun : readUInt16 order jis = readBytes 2 jis >>= fun r =>
      .ok (networkToHost order 2 (load order 2 r.1), r.2) := rfl
  rw [hrun, bind_eq_ok] at h
  obtain ⟨⟨be16, jis₁⟩, hread, hx⟩ := h
  simp only [readBytes, bind_eq_ok, check_eq_ok, pure_eq_ok, Prod.mk.injEq] at hread
  obtain ⟨-, hroom, rfl, rfl⟩ := hread
  obtain ⟨hx, -⟩ := Prod.mk.inj (Except.ok.inj hx)
  have hlen : (jis.rest.take 2).length = 2 := by
    rw [List.length_take, jis.length_rest, Nat.min_eq_left hroom]
  have hlt := ofLeBytes_lt (jis.rest.take 2).reverse
  rw [List.length_reverse, hlen] at hlt
  rw [← hx, networkToHost_load_eq order 2 _ hlen, BitVec.toNat_ofNat, Nat.mod_eq_of_lt hlt]

theorem takes_readString : Takes (readString order) string := by
  refine (takes_readUInt16 order).bind_sized ?_
  intro jis x jis' h
  rw [← readUInt16_toNat order h]
  exact takes_readBytes x.toNat

end Readers

section Actions

variable (cmd : BitVec 16)

theorem takes_UserLogin : Takes (Server.UserLogin host cmd) (seq string (fixed 16)) :=
  (takes_readString host.order).bind fun _ => (takes_readBytes 16).bind_pure _

theorem takes_OpenAccount :
    Takes (Server.OpenAccount host cmd) (seq string (seq (fixed 16) (seq (fixed 18) string))) :=
  (takes_readString host.order).bind fun _ => (takes_readBytes 16).bind fun _ =>
    (takes_readBytes 18).bind fun _ => (takes_readString host.order).bind_pure _

theorem takes_Deposit : Takes (Server.Deposit host) (seq (fixed 6) string) :=
  (takes_readBytes 6).bind fun _ => (takes_readString host.order).bind_pure _

theorem takes_Withdrawal :
    Takes (Server.Withdrawal host cmd) (seq (fixed 6) (seq (fixed 16) string)) :=
  (takes_readBytes 6).bind fun _ => (takes_readBytes 16).bind fun _ =>
    (takes_readString host.order).bind_pure _

theorem takes_Transfer :
    Takes (Server.Transfer host cmd) (seq (fixed 6) (seq (fixed 16) (seq string (fixed 6)))) :=
  (takes_readBytes 6).bind fun _ => (takes_readBytes 16).bind fun _ =>
    (takes_readString host.order).bind fun _ => (takes_readBytes 6).bind_pure _

theorem takes_BalanceInquiry :
    Takes (Server.BalanceInquiry host cmd) (seq (fixed 6) (fixed 16)) :=
  (takes_readBytes 6).bind fun _ => (takes_readBytes 16).bind_pure _

theorem takes_ChangePassword :
    Takes (Server.ChangePassword host cmd) (seq (fixed 6) (seq (fixed 16) (fixed 16))) :=
  (takes_readBytes 6).bind fun _ => (takes_readBytes 16).bind fun _ =>
    (takes_readBytes 16).bind_pure _

theorem takes_QueryDayBill : Takes (Server.QueryDayBill host) (seq (fixed 4) (fixed 10)) :=
  (takes_readUInt32 host.order).bind fun _ => (takes_readBytes 10).bind_pure _

theorem takes_QueryHistoryBill :
    Takes (Server.QueryHistoryBill host) (seq (fixed 4) (seq (fixed 10) (fixed 10))) :=
  (takes_readUInt32 host.order).bind fun _ => (takes_readBytes 10).bind fun _ =>
    (takes_readBytes 10).bind_pure _

theorem takes_QueryAccountHistoryBill :
    Takes (Server.QueryAccountHistoryBill host)
      (seq (fixed 4) (seq (fixed 6) (seq (fixed 10) (fixed 10)))) :=
  (takes_readUInt32 host.order).bind fun _ => (takes_readBytes 6).bind fun _ =>
    (takes_readBytes 10).bind fun _ => (takes_readBytes 10).bind_pure _

theorem takes_CloseAccount : Takes (Server.CloseAccount host cmd) (seq (fixed 6) (fixed 16)) :=
  (takes_readBytes 6).bind fun _ => (takes_readBytes 16).bind_pure _

theorem rel_ite {α β : Type*} {R : α → β → Prop} {p : Prop} [Decidable p] {a : α} {b : β}
    {x : Option α} {y : Option β} (hp : R a b) (hn : Option.Rel R x y) :
    Option.Rel R (if p then some a else x) (if p then some b else y) := by
  by_cases h : p
  · rw [if_pos h, if_pos h]
    exact .some hp
  · rwa [if_neg h, if_neg h]

/-- Every action takes the fields of its command, and no other command has an action. -/
theorem takes_actions : Option.Rel Takes (Server.actions host cmd) (fields cmd) := by
  unfold Server.actions fields
  apply rel_ite (takes_UserLogin host cmd)
  apply rel_ite (takes_OpenAccount host cmd)
  apply rel_ite (takes_Deposit host)
  apply rel_ite (takes_Withdrawal host cmd)
  apply rel_ite (takes_Transfer host cmd)
  apply rel_ite (takes_BalanceInquiry host cmd)
  apply rel_ite (takes_ChangePassword host cmd)
  apply rel_ite (takes_QueryDayBill host)
  apply rel_ite (takes_QueryHistoryBill host)
  apply rel_ite (takes_QueryAccountHistoryBill host)
  apply rel_ite (takes_CloseAccount host cmd)
  exact .none

end Actions

variable {s : BankSession} {cmd : BitVec 16} {body : List UInt8}

/-- An action on an accepted packet has the body and the trailer before it. -/
theorem DoAction_holds (execute : Request → Option (List UInt8))
    (h : Holds host.order A.md5Make s cmd requestHeadSize body) :
    Safe body (DoAction host execute s) ↔ WellFormed cmd body := by
  have hactions := takes_actions host cmd
  rw [DoAction, run_bind, h.cmd_eq, ok_bind, WellFormed]
  generalize Server.actions host cmd = found, fields cmd = asked at hactions ⊢
  cases hactions with
  | none =>
    refine iff_of_false id ?_
    rintro ⟨e, he, -⟩
    exact absurd he (by simp)
  | some htakes =>
    rename_i action e
    let trailer := hash A.md5Make cmd (hashedPart cmd requestHeadSize body)
    have hwithin := htakes.within_iff (rest_setData (body ++ trailer))
    have hstart : (JInStream.setData (body ++ trailer)).currIndex_ = 0 := rfl
    rw [hstart, Nat.zero_add] at hwithin
    have hmem : (∃ e' ∈ some e, ∃ n, e'.size body = some n) ↔ ∃ n, e.size body = some n := by
      simp
    simp only [run_bind, h.requestStream_eq, ok_bind, hmem, ← hwithin]
    cases action (JInStream.setData (body ++ trailer)) with
    | error fault =>
      refine iff_of_false id ?_
      rintro ⟨r, jis, hok, -⟩
      exact absurd hok (by simp)
    | ok r =>
      change r.2.currIndex_ ≤ body.length ↔ _
      constructor
      · exact fun hle => ⟨r.1, r.2, rfl, hle⟩
      · rintro ⟨x, jis, hok, hle⟩
        rwa [Except.ok.inj hok]

/-- A session that the packets of `q` come in to. -/
def arrived (q : List UInt8) : BankSession where
  incoming := q
  broken := false
  buffer_ := ⟨List.replicate bufferSize 0, List.length_replicate⟩

def zeroHash : MD5 := fun _ => ⟨List.replicate 16 0, List.length_replicate⟩

end MuduoServer.BankDecoding
