import MuduoServer.BankRequests
import Mathlib.Data.Nat.Digits.Lemmas
import Mathlib.Data.Int.Notation

/-!
The responses of `ABCBank`. The server reports what a service operation returns as an error
code with a message and, when there is no error, the fields of the account; the client reads
head, message and fields. A date or a number of fixed width arrives as a C string. The three
commands that answer with several packets are in `BankBills`.
-/
namespace MuduoServer.BankResponses

open Endian FaultMachine WireFormat BankPackets BankWire BankRequests JInStream

/-- A text for `error_msg`, in the encoding of the source. -/
abbrev Message := {msg : List UInt8 // msg.length < 30 ∧ 0 ∉ msg}

/-- 用户名或密码错误 -/
def wrongUser : Message :=
  ⟨[211, 195, 187, 167, 195, 251, 187, 242, 195, 220, 194, 235, 180, 237, 206, 243], by decide⟩

/-- 数据库错误 -/
def databaseError : Message := ⟨[202, 253, 190, 221, 191, 226, 180, 237, 206, 243], by decide⟩

/-- 帐户不存在 -/
def noAccount : Message := ⟨[213, 202, 187, 167, 178, 187, 180, 230, 212, 218], by decide⟩

/-- 密码错误 -/
def wrongPassword : Message := ⟨[195, 220, 194, 235, 180, 237, 206, 243], by decide⟩

/-- 余额不足 -/
def noMoney : Message := ⟨[211, 224, 182, 238, 178, 187, 215, 227], by decide⟩

/-- 对方帐号不存在 -/
def noOtherAccount : Message :=
  ⟨[182, 212, 183, 189, 213, 202, 186, 197, 178, 187, 180, 230, 212, 218], by decide⟩

/-- 没有找到数据 -/
def noData : Message := ⟨[195, 187, 211, 208, 213, 210, 181, 189, 202, 253, 190, 221], by decide⟩

/-- The results that a command reports as errors, each under its own number. -/
abbrev Errors := List (ℤ × Message)

/-- `error_code` and `error_msg` for the result `ret`. -/
def report (errors : Errors) (ret : ℤ) : BitVec 16 × Message :=
  match errors.find? (·.1 = ret) with
  | some e => (BitVec.ofInt 16 e.1, e.2)
  | none => (0, ⟨[], by decide⟩)

def UserLogin.errors : Errors := [(1, wrongUser), (-1, databaseError)]
def OpenAccount.errors : Errors := [(1, wrongUser), (-1, databaseError)]
def Deposit.errors : Errors := [(2, noAccount), (-1, databaseError)]
def Withdrawal.errors : Errors :=
  [(2, noAccount), (3, wrongPassword), (4, noMoney), (-1, databaseError)]
def Transfer.errors : Errors :=
  [(2, noAccount), (3, wrongPassword), (4, noMoney), (5, noOtherAccount), (-1, databaseError)]
def BalanceInquiry.errors : Errors := [(2, noAccount), (3, wrongPassword), (-1, databaseError)]
def ChangePassword.errors : Errors := [(2, noAccount), (3, wrongPassword), (-1, databaseError)]
def CloseAccount.errors : Errors := [(2, noAccount), (3, wrongPassword), (-1, databaseError)]

/-- `double` with its text of two decimals, which is read as a number that has the same text. -/
structure DoubleText (D : Type) where
  DoubleToString : D → List UInt8
  StringToDouble : List UInt8 → D
  text_read : ∀ x, DoubleToString (StringToDouble (DoubleToString x)) = DoubleToString x

/-- The fields of `Account` that a response is made of. -/
structure Account (D : Type) where
  account_id : ℤ
  name : List UInt8
  op_date : List UInt8
  balance : D

/-- What `setw(6)` and `setfill('0')` write for an `int`. -/
def idText (account_id : ℤ) : List UInt8 :=
  let digits := ((Nat.digits 10 account_id.natAbs).map fun d => UInt8.ofNat (48 + d)).reverse
  let text := if account_id < 0 then 45 :: digits else digits
  List.replicate (6 - text.length) 48 ++ text

/-- The first 30 bytes of `error_msg`. -/
def Message.array (msg : Message) : List UInt8 := msg.val ++ List.replicate (30 - msg.val.length) 0

variable {A : Algorithms} {D : Type}

namespace Server

variable (host : Host A) (dbl : DoubleText D)

/-- A response with one packet, whose body `fields` writes. -/
def reply (cmd : BitVec 16) (errors : Errors) (ret : ℤ)
    (fields : BitVec 16 → JOutStream → JOutStream) : List UInt8 :=
  let (error_code, error_msg) := report errors ret
  host.response cmd 0 0 error_code error_msg.array (fields error_code)

/-- name+balance+date -/
def accountFields (acc : Account D) (error_code : BitVec 16) (jos : JOutStream) : JOutStream :=
  if error_code = 0 then
    let jos := jos.writeString host.order acc.name
    let jos := jos.writeString host.order (dbl.DoubleToString acc.balance)
    jos.writeBytes (host.c_str 0 acc.op_date 19)
  else jos

def UserLogin (ret : ℤ) : List UInt8 :=
  reply host CMD_LOGIN UserLogin.errors ret fun _ jos => jos

/-- The number and the date are sent with an error as well. -/
def OpenAccount (ret : ℤ) (acc : Account D) : List UInt8 :=
  reply host CMD_OPEN_ACCOUNT OpenAccount.errors ret fun _ jos =>
    let jos := jos.writeBytes ((idText acc.account_id).take 6)
    jos.writeString host.order acc.op_date

def Deposit (ret : ℤ) (acc : Account D) : List UInt8 :=
  reply host CMD_DEPOSIT Deposit.errors ret (accountFields host dbl acc)

def Withdrawal (ret : ℤ) (acc : Account D) : List UInt8 :=
  reply host CMD_WITHDRAW Withdrawal.errors ret (accountFields host dbl acc)

def Transfer (ret : ℤ) (acc : Account D) : List UInt8 :=
  reply host CMD_TRANSFER Transfer.errors ret (accountFields host dbl acc)

def BalanceInquiry (ret : ℤ) (acc : Account D) : List UInt8 :=
  reply host CMD_BALANCE_INQUIRY BalanceInquiry.errors ret (accountFields host dbl acc)

def ChangePassword (ret : ℤ) : List UInt8 :=
  reply host CMD_CHANGE_PASSWORD ChangePassword.errors ret fun _ jos => jos

def CloseAccount (ret : ℤ) (acc : Account D) (interest : D) : List UInt8 :=
  reply host CMD_CLOSE_ACCOUNT CloseAccount.errors ret fun error_code jos =>
    if error_code = 0 then
      let jos := jos.writeString host.order acc.name
      let jos := jos.writeString host.order (dbl.DoubleToString acc.balance)
      let jos := jos.writeString host.order (dbl.DoubleToString interest)
      jos.writeBytes (host.c_str 0 acc.op_date 19)
    else jos

end Server

/-- `TransDetail`, less `trans_id`, which nothing sets or reads. -/
structure TransDetail (D : Type) where
  account_id : List UInt8
  other_account_id : List UInt8
  abstract_name : List UInt8
  money : D
  balance : D
  trans_date : List UInt8
  total : BitVec 32

/-- What a command of the client leaves in its session. -/
structure Reply (D : Type) where
  errorCode_ : BitVec 16
  errorMsg_ : List UInt8
  response_ : List (String × List UInt8)
  details_ : List (TransDetail D)

namespace Client

variable (host : Host A)

/-- The head of a response behind its length. -/
structure Head where
  cnt : BitVec 16
  seq : BitVec 16
  error_code : BitVec 16
  error_msg : List UInt8

/-- The last byte of the array `error_msg` is not set. -/
def readHead : Reader Head := do
  let cnt ← readUInt16 host.order
  let seq ← readUInt16 host.order
  let error_code ← readUInt16 host.order
  let error_msg ← readBytes 30
  pure { cnt, seq, error_code, error_msg := cstr (error_msg ++ (host.behind 0).val) }

/-- Read the packet that has been received. -/
def readResponse {α : Type} (p : Reader α) : Session α := do
  let jis ← responseStream host.order
  parse (do
    skip 4
    p) jis

/-- A response with one packet. -/
def execute (fields : Reader (List (String × List UInt8))) : Session (Reply D) := do
  clientRecv host.order A.md5Make
  readResponse host do
    let head ← readHead host
    let response_ ← if head.error_code = 0 then fields else pure []
    pure { errorCode_ := head.error_code, errorMsg_ := head.error_msg, response_, details_ := [] }

def accountFields : Reader (List (String × List UInt8)) := do
  let name ← readString host.order
  let balance ← readString host.order
  let trans_date ← readBytes 19
  pure [("name", name), ("balance", balance), ("trans_date", cstr trans_date)]

def UserLogin : Session (Reply D) := execute host (pure [])

def OpenAccount : Session (Reply D) := execute host do
  let account_id ← readBytes 6
  let open_date ← readString host.order
  pure [("account_id", cstr account_id), ("open_date", open_date)]

def Deposit : Session (Reply D) := execute host (accountFields host)

def Withdrawal : Session (Reply D) := execute host (accountFields host)

def Transfer : Session (Reply D) := execute host (accountFields host)

def BalanceInquiry : Session (Reply D) := execute host (accountFields host)

def ChangePassword : Session (Reply D) := execute host (pure [])

def CloseAccount : Session (Reply D) := execute host do
  let name ← readString host.order
  let balance ← readString host.order
  let interest ← readString host.order
  let close_date ← readBytes 19
  pure [("name", name), ("balance", balance), ("interest", interest),
    ("close_date", cstr close_date)]

end Client

/-- What the client is to make of a response with one packet. -/
def answer (errors : Errors) (ret : ℤ) (response : List (String × List UInt8)) : Reply D where
  errorCode_ := (report errors ret).1
  errorMsg_ := (report errors ret).2.val
  response_ := if (report errors ret).1 = 0 then response else []
  details_ := []

section Heads

theorem Message.length_array (msg : Message) : (Message.array msg).length = 30 := by
  have hshort := msg.property.1
  rw [Message.array, List.length_append, List.length_replicate]
  omega

/-- A message is shorter than its array, so its end is in it. -/
theorem Message.cstr_array (msg : Message) (junk : List UInt8) :
    cstr (Message.array msg ++ junk) = msg.val := by
  have hshort := msg.property.1
  rw [Message.array, show 30 - msg.val.length = 29 - msg.val.length + 1 by omega,
    List.replicate_succ, List.append_assoc, List.cons_append, cstr_append msg.property.2]

/-- A response begins with its head. -/
theorem responseRest_eq (cnt seq error_code : BitVec 16) (msg : Message) (body : List UInt8) :
    responseRest cnt seq error_code (Message.array msg) body = beBytes 2 cnt ++
      (beBytes 2 seq ++ (beBytes 2 error_code ++ Message.array msg)) ++ body := by
  simp only [responseRest, List.append_assoc]

variable (client server : Host A)

theorem reads_readHead (cnt seq error_code : BitVec 16) (msg : Message) :
    Reads (Client.readHead client)
      (beBytes 2 cnt ++ (beBytes 2 seq ++ (beBytes 2 error_code ++ Message.array msg)))
      { cnt, seq, error_code, error_msg := msg.val } := by
  have harray : Reads (readBytes 30) (Message.array msg) (Message.array msg) :=
    reads_width (Message.length_array msg)
  refine (reads_readUInt16 client.order cnt).bind ((reads_readUInt16 client.order seq).bind
    ((reads_readUInt16 client.order error_code).bind ?_))
  exact harray.bind_pure (by rw [Message.cstr_array])

variable {α : Type} {p : Reader α} {rest q unread : List UInt8} {x : α}

/-- The client reads `q` from the packet in its buffer, behind which the packet may go on. -/
theorem readResponse_eq {s : BankSession} {cmd : BitVec 16} (hp : Reads p q x)
    (hrest : rest = q ++ unread)
    (hholds : Holds client.order A.md5Make s cmd responseHeadSize rest) :
    Client.readResponse client p s = .ok (x, s) := by
  rw [Client.readResponse, run_bind, hholds.responseStream_eq, ok_bind]
  let first := memory client.order 2 cmd ++
    memory client.order 2 (BitVec.ofNat 16 (4 + rest.length + 8 - responseHeadSize))
  let behind := rest ++ hash A.md5Make cmd (hashedPart cmd responseHeadSize rest)
  have hfirst : first.length = 4 := by
    rw [List.length_append, length_memory, length_memory]
  have hbehind : behind ≠ [] := by
    intro hnil
    have hlen := congrArg List.length hnil
    rw [List.length_append, length_hash] at hlen
    exact absurd hlen (by simp)
  obtain ⟨jis, hskip, hleft⟩ := skip_of_rest (rest_setData (first ++ behind)) hbehind
  rw [hfirst] at hskip
  obtain ⟨jis', hread, -⟩ := hp jis
    (unread ++ hash A.md5Make cmd (hashedPart cmd responseHeadSize rest))
    (by rw [hleft, ← List.append_assoc, ← hrest])
  have hrun : (skip 4 >>= fun _ => p) (JInStream.setData (first ++ behind)) = .ok (x, jis') := by
    have hbind : (skip 4 >>= fun _ => p) (JInStream.setData (first ++ behind)) =
        skip 4 (JInStream.setData (first ++ behind)) >>= fun r => p r.2 := rfl
    rw [hbind, hskip, ok_bind, hread]
  have hsame : first ++ rest ++ hash A.md5Make cmd (hashedPart cmd responseHeadSize rest) =
      first ++ behind := List.append_assoc _ _ _
  rw [parse, hsame, hrun]
  rfl

/-- The client receives a packet and reads `q` from it. -/
theorem reads_response (hp : Reads p q x) (hrest : rest = q ++ unread) (cmd : BitVec 16)
    (hhead : responseHeadSize ≤ 4 + rest.length) (hfits : 4 + rest.length + 8 ≤ bufferSize) :
    WireFormat.Reads BankSession.incoming
      (clientRecv client.order A.md5Make >>= fun _ => Client.readResponse client p)
      (packet A.md5Make cmd responseHeadSize rest) x := by
  intro s more hin
  obtain ⟨s', hrecv, hmore, hholds⟩ :=
    clientRecv_packet client.order A.md5Make cmd hhead hfits hin
  refine ⟨s', ?_, hmore⟩
  rw [run_bind, hrecv, ok_bind]
  exact readResponse_eq client hp hrest hholds

/-- A response is taken for what it says, if its fields are read as they are written. -/
theorem execute_reply (cmd : BitVec 16) (errors : Errors) (ret : ℤ)
    {fields : BitVec 16 → JOutStream → JOutStream} {body : List UInt8}
    {reader : Reader (List (String × List UInt8))} {response : List (String × List UInt8)}
    (hf : JOutStream.Writes (fields (report errors ret).1) body)
    (hp : (report errors ret).1 = 0 → Reads reader body response)
    (hfits : responseHeadSize + body.length + 8 ≤ bufferSize) :
    WireFormat.Reads BankSession.incoming (Client.execute (D := D) client reader)
      (Server.reply server cmd errors ret fields) (answer errors ret response) := by
  let code := (report errors ret).1
  let msg := (report errors ret).2
  have hreply : Server.reply server cmd errors ret fields =
      packet A.md5Make cmd responseHeadSize (responseRest 0 0 code (Message.array msg) body) :=
    response_eq server cmd 0 0 code (Message.array msg) hf
  have hlen : (responseRest 0 0 code (Message.array msg) body).length = 36 + body.length := by
    simp only [responseRest, List.length_append, length_beBytes, Message.length_array]
    omega
  rw [responseHeadSize] at hfits
  let head := beBytes 2 (0 : BitVec 16) ++
    (beBytes 2 (0 : BitVec 16) ++ (beBytes 2 code ++ Message.array msg))
  have hsplit : responseRest 0 0 code (Message.array msg) body = head ++ body :=
    responseRest_eq 0 0 code msg body
  have hhead := reads_readHead client 0 0 code msg
  have hlong : responseHeadSize ≤ 4 + (responseRest 0 0 code (Message.array msg) body).length := by
    rw [hlen, responseHeadSize]
    omega
  rw [hreply]
  by_cases hcode : code = 0
  · refine reads_response client (q := head ++ body) ?_ (hsplit.trans (List.append_nil _).symm) cmd
      hlong (by omega)
    refine hhead.bind ?_
    simp only [hcode, if_true]
    refine (hp hcode).bind_pure ?_
    rw [answer, if_pos hcode]
    simp only [← hcode, code, msg]
  · refine reads_response client (q := head ++ []) ?_ (?_ : _ = head ++ [] ++ body) cmd hlong
      (by omega)
    swap
    · rw [List.append_nil, hsplit]
    refine hhead.bind ?_
    simp only [hcode, if_false, answer]
    rw [if_neg hcode]
    exact WireFormat.Reads.pure _

end Heads

/-- A date with the time of day: 19 characters. -/
def IsDate (date : List UInt8) : Prop := date.length = 19 ∧ 0 ∉ date

/-- An account id is written with six digits. -/
def IsId (account_id : ℤ) : Prop := 0 ≤ account_id ∧ account_id < 1000000

theorem length_idText (account_id : ℤ) : 6 ≤ (idText account_id).length := by
  rw [idText, List.length_append, List.length_replicate]
  omega

theorem zero_notMem_idText (account_id : ℤ) : 0 ∉ idText account_id := by
  have hdigits : 0 ∉
      ((Nat.digits 10 account_id.natAbs).map fun d => UInt8.ofNat (48 + d)).reverse := by
    intro hmem
    obtain ⟨d, hd, hzero⟩ := List.mem_map.mp (List.mem_reverse.mp hmem)
    have hbase := Nat.digits_lt_base (by decide) hd
    have hvalue := congrArg UInt8.toNat hzero
    rw [UInt8.toNat_ofNat', Nat.mod_eq_of_lt (by omega)] at hvalue
    have hnone : 48 + d = 0 := hvalue
    omega
  intro hmem
  rcases List.mem_append.mp hmem with hpad | htext
  · exact absurd (List.eq_of_mem_replicate hpad) (by decide)
  · split at htext
    · rcases List.mem_cons.mp htext with hsign | htext
      · exact absurd hsign (by decide)
      · exact hdigits htext
    · exact hdigits htext

theorem length_idText_of_isId {account_id : ℤ} (h : IsId account_id) :
    (idText account_id).length = 6 := by
  obtain ⟨hnonneg, hlt⟩ := h
  have hdigits : (Nat.digits 10 account_id.natAbs).length ≤ 6 :=
    (Nat.digits_length_le_iff (by decide) account_id.natAbs).mpr (by omega)
  rw [idText, if_neg (by omega)]
  simp only [List.length_append, List.length_replicate, List.length_reverse, List.length_map]
  omega

section Accounts

variable (client server : Host A) (dbl : DoubleText D)

theorem c_str_date {date : List UInt8} (h : IsDate date) (host : Host A) (i : ℕ) :
    host.c_str i date 19 = date :=
  c_str_of_length host i h.1

/-- A date as it is written and read. -/
theorem reads_date {date : List UInt8} (h : IsDate date) : Reads (readBytes 19) date date :=
  reads_width h.1

/-- A response without fields. -/
theorem receive_status (cmd : BitVec 16) (errors : Errors) (ret : ℤ) :
    WireFormat.Reads BankSession.incoming (Client.execute (D := D) client (pure []))
      (Server.reply server cmd errors ret fun _ jos => jos) (answer errors ret []) :=
  execute_reply client server cmd errors ret WireFormat.Writes.id
    (fun _ => WireFormat.Reads.pure []) (by decide)

/-- The bytes of the fields of an account. -/
def Account.size (acc : Account D) : ℕ :=
  2 + acc.name.length + (2 + (dbl.DoubleToString acc.balance).length) + 19

theorem receive_account (cmd : BitVec 16) (errors : Errors) (ret : ℤ) (acc : Account D)
    (hdate : (report errors ret).1 = 0 → IsDate acc.op_date)
    (hfits : (report errors ret).1 = 0 → responseHeadSize + acc.size dbl + 8 ≤ bufferSize) :
    WireFormat.Reads BankSession.incoming
      (Client.execute (D := D) client (Client.accountFields client))
      (Server.reply server cmd errors ret (Server.accountFields server dbl acc))
      (answer errors ret [("name", acc.name), ("balance", dbl.DoubleToString acc.balance),
        ("trans_date", acc.op_date)]) := by
  by_cases hcode : (report errors ret).1 = 0
  · have hd := hdate hcode
    have hsize := hfits hcode
    simp only [Account.size, responseHeadSize, bufferSize] at hsize
    have hname : acc.name.length < 2 ^ 16 := by omega
    have hbalance : (dbl.DoubleToString acc.balance).length < 2 ^ 16 := by omega
    have hwrites : JOutStream.Writes (Server.accountFields server dbl acc (report errors ret).1)
        (JOutStream.stringBytes acc.name ++
          (JOutStream.stringBytes (dbl.DoubleToString acc.balance) ++ acc.op_date)) := by
      intro jos hjos
      simp only [Server.accountFields, if_pos hcode, c_str_date hd]
      exact (JOutStream.writes_writeString server.order hname).comp
        ((JOutStream.writes_writeString server.order hbalance).comp
          (JOutStream.writes_writeBytes acc.op_date)) jos hjos
    refine execute_reply client server cmd errors ret hwrites (fun _ => ?_) ?_
    · refine (reads_readString client.order hname).bind
        ((reads_readString client.order hbalance).bind ?_)
      exact (reads_date hd).bind_pure (by rw [cstr_of_notMem hd.2])
    · simp only [JOutStream.stringBytes, List.length_append, length_beBytes, hd.1, responseHeadSize,
        bufferSize]
      omega
  · have hwrites : JOutStream.Writes (Server.accountFields server dbl acc (report errors ret).1)
        [] := by
      intro jos hjos
      simp only [Server.accountFields, if_neg hcode]
      exact WireFormat.Writes.id jos hjos
    exact execute_reply client server cmd errors ret hwrites (absurd · hcode) (by decide)

/-- The client has the first six characters of the number. -/
theorem receive_openAccount_cut (ret : ℤ) (acc : Account D)
    (hfits : responseHeadSize + (6 + (2 + acc.op_date.length)) + 8 ≤ bufferSize) :
    WireFormat.Reads BankSession.incoming (Client.OpenAccount (D := D) client)
      (Server.OpenAccount server ret acc)
      (answer OpenAccount.errors ret
        [("account_id", (idText acc.account_id).take 6), ("open_date", acc.op_date)]) := by
  simp only [responseHeadSize, bufferSize] at hfits
  have hdate : acc.op_date.length < 2 ^ 16 := by omega
  have htake : ((idText acc.account_id).take 6).length = 6 := by
    rw [List.length_take, Nat.min_eq_left (length_idText acc.account_id)]
  have hnul : 0 ∉ (idText acc.account_id).take 6 := fun hmem =>
    zero_notMem_idText acc.account_id (List.mem_of_mem_take hmem)
  have hwrites := (JOutStream.writes_writeBytes ((idText acc.account_id).take 6)).comp
    (JOutStream.writes_writeString server.order hdate)
  refine execute_reply client server CMD_OPEN_ACCOUNT OpenAccount.errors ret hwrites
    (fun hcode => ?_) ?_
  · refine (reads_width htake).bind ?_
    refine (reads_readString client.order hdate).bind_pure ?_
    rw [cstr_of_notMem hnul]
  · simp only [JOutStream.stringBytes, List.length_append, length_beBytes, htake, responseHeadSize,
      bufferSize]
    omega

theorem receive_openAccount (ret : ℤ) (acc : Account D)
    (hid : (report OpenAccount.errors ret).1 = 0 → IsId acc.account_id)
    (hfits : responseHeadSize + (6 + (2 + acc.op_date.length)) + 8 ≤ bufferSize) :
    WireFormat.Reads BankSession.incoming (Client.OpenAccount (D := D) client)
      (Server.OpenAccount server ret acc)
      (answer OpenAccount.errors ret
        [("account_id", idText acc.account_id), ("open_date", acc.op_date)]) := by
  have hcut := receive_openAccount_cut client server ret acc hfits
  by_cases hcode : (report OpenAccount.errors ret).1 = 0
  · rwa [← length_idText_of_isId (hid hcode), List.take_length] at hcut
  · simp only [answer, if_neg hcode] at hcut ⊢
    exact hcut

theorem receive_closeAccount (ret : ℤ) (acc : Account D) (interest : D)
    (hdate : (report CloseAccount.errors ret).1 = 0 → IsDate acc.op_date)
    (hfits : (report CloseAccount.errors ret).1 = 0 → responseHeadSize +
      (acc.size dbl + (2 + (dbl.DoubleToString interest).length)) + 8 ≤ bufferSize) :
    WireFormat.Reads BankSession.incoming (Client.CloseAccount (D := D) client)
      (Server.CloseAccount server dbl ret acc interest)
      (answer CloseAccount.errors ret [("name", acc.name),
        ("balance", dbl.DoubleToString acc.balance), ("interest", dbl.DoubleToString interest),
        ("close_date", acc.op_date)]) := by
  let fields := fun (error_code : BitVec 16) (jos : JOutStream) =>
    if error_code = 0 then
      (((jos.writeString server.order acc.name).writeString server.order
        (dbl.DoubleToString acc.balance)).writeString server.order
          (dbl.DoubleToString interest)).writeBytes (server.c_str 0 acc.op_date 19)
    else jos
  change WireFormat.Reads BankSession.incoming (Client.CloseAccount (D := D) client)
    (Server.reply server CMD_CLOSE_ACCOUNT CloseAccount.errors ret fields) _
  by_cases hcode : (report CloseAccount.errors ret).1 = 0
  · have hd := hdate hcode
    have hsize := hfits hcode
    simp only [Account.size, responseHeadSize, bufferSize] at hsize
    have hname : acc.name.length < 2 ^ 16 := by omega
    have hbalance : (dbl.DoubleToString acc.balance).length < 2 ^ 16 := by omega
    have hinterest : (dbl.DoubleToString interest).length < 2 ^ 16 := by omega
    have hwrites : JOutStream.Writes (fields (report CloseAccount.errors ret).1)
        (JOutStream.stringBytes acc.name ++
          (JOutStream.stringBytes (dbl.DoubleToString acc.balance) ++
            (JOutStream.stringBytes (dbl.DoubleToString interest) ++ acc.op_date))) := by
      intro jos hjos
      simp only [fields, if_pos hcode, c_str_date hd]
      exact (JOutStream.writes_writeString server.order hname).comp
        ((JOutStream.writes_writeString server.order hbalance).comp
          ((JOutStream.writes_writeString server.order hinterest).comp
            (JOutStream.writes_writeBytes acc.op_date))) jos hjos
    refine execute_reply client server CMD_CLOSE_ACCOUNT CloseAccount.errors ret hwrites
      (fun _ => ?_) ?_
    · refine (reads_readString client.order hname).bind
        ((reads_readString client.order hbalance).bind
          ((reads_readString client.order hinterest).bind ?_))
      exact (reads_date hd).bind_pure (by rw [cstr_of_notMem hd.2])
    · simp only [JOutStream.stringBytes, List.length_append, length_beBytes, hd.1, responseHeadSize,
        bufferSize]
      omega
  · have hwrites : JOutStream.Writes (fields (report CloseAccount.errors ret).1) [] := by
      intro jos hjos
      simp only [fields, if_neg hcode]
      exact WireFormat.Writes.id jos hjos
    exact execute_reply client server CMD_CLOSE_ACCOUNT CloseAccount.errors ret hwrites
      (absurd · hcode) (by decide)

end Accounts

end MuduoServer.BankResponses
