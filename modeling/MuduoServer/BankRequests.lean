import MuduoServer.BankWire

/-!
The requests of `ABCBank`: for each of the eleven commands the packet that `Execute` of the
client builds, and what `Execute` of the server reads. A request is its command with the
fields that the protocol gives it. Every pair agrees because the server reads the fields in
the order and with the widths in which the client writes them.
-/
namespace MuduoServer.BankRequests

open Endian FaultMachine WireFormat BankPackets BankWire JInStream

def CMD_LOGIN : BitVec 16 := 0x01
def CMD_OPEN_ACCOUNT : BitVec 16 := 0x02
def CMD_DEPOSIT : BitVec 16 := 0x03
def CMD_WITHDRAW : BitVec 16 := 0x04
def CMD_TRANSFER : BitVec 16 := 0x05
def CMD_BALANCE_INQUIRY : BitVec 16 := 0x06
def CMD_CHANGE_PASSWORD : BitVec 16 := 0x07
def CMD_DAY_BILL : BitVec 16 := 0x08
def CMD_HISTORY_BILL : BitVec 16 := 0x09
def CMD_ACCOUNT_HISTORY_BILL : BitVec 16 := 0x0A
def CMD_CLOSE_ACCOUNT : BitVec 16 := 0x0B

inductive Request
  | login (name pass : List UInt8)
  | openAccount (name pass id money : List UInt8)
  | deposit (account_id money : List UInt8)
  | withdraw (account_id pass money : List UInt8)
  | transfer (account_id pass money other_account_id : List UInt8)
  | balanceInquiry (account_id pass : List UInt8)
  | changePassword (account_id pass newpass : List UInt8)
  | dayBill (page : BitVec 32) (date : List UInt8)
  | historyBill (page : BitVec 32) (begin_date end_date : List UInt8)
  | accountHistoryBill (page : BitVec 32) (account_id begin_date end_date : List UInt8)
  | closeAccount (account_id pass : List UInt8)

/-- A password has a terminating zero within 16 bytes. -/
def IsPassword (pass : List UInt8) : Prop := pass.length ≤ 15 ∧ 0 ∉ pass

/-- The widths that the protocol fixes. -/
def Request.Widths : Request → Prop
  | .login _ pass => IsPassword pass
  | .openAccount _ pass id _ => IsPassword pass ∧ id.length = 18
  | .deposit account_id _ => account_id.length = 6
  | .withdraw account_id pass _ => account_id.length = 6 ∧ IsPassword pass
  | .transfer account_id pass _ other_account_id =>
      account_id.length = 6 ∧ IsPassword pass ∧ other_account_id.length = 6
  | .balanceInquiry account_id pass => account_id.length = 6 ∧ IsPassword pass
  | .changePassword account_id pass newpass =>
      account_id.length = 6 ∧ IsPassword pass ∧ IsPassword newpass
  | .dayBill _ date => date.length = 10
  | .historyBill _ begin_date end_date => begin_date.length = 10 ∧ end_date.length = 10
  | .accountHistoryBill _ account_id begin_date end_date =>
      account_id.length = 6 ∧ begin_date.length = 10 ∧ end_date.length = 10
  | .closeAccount account_id pass => account_id.length = 6 ∧ IsPassword pass

/-- The bytes of the fields, with 2 bytes for the length of a string. -/
def Request.size : Request → ℕ
  | .login name _ => 2 + name.length + 16
  | .openAccount name _ _ money => 2 + name.length + 16 + 18 + (2 + money.length)
  | .deposit _ money => 6 + (2 + money.length)
  | .withdraw _ _ money => 6 + 16 + (2 + money.length)
  | .transfer _ _ money _ => 6 + 16 + (2 + money.length) + 6
  | .balanceInquiry _ _ => 6 + 16
  | .changePassword _ _ _ => 6 + 16 + 16
  | .dayBill _ _ => 4 + 10
  | .historyBill _ _ _ => 4 + 10 + 10
  | .accountHistoryBill _ _ _ _ => 4 + 6 + 10 + 10
  | .closeAccount _ _ => 6 + 16

/-- The whole packet fits into the buffer of the server. -/
def Request.Fits (r : Request) : Prop := requestHeadSize + r.size + 8 ≤ bufferSize

variable {A : Algorithms}

namespace Client

variable (host : Host A)

def UserLogin (name pass : List UInt8) : List UInt8 :=
  host.request CMD_LOGIN fun jos =>
    let jos := jos.writeString host.order name
    jos.writeBytes (host.encrypt 0 CMD_LOGIN pass)

def OpenAccount (name pass id money : List UInt8) : List UInt8 :=
  host.request CMD_OPEN_ACCOUNT fun jos =>
    let jos := jos.writeString host.order name
    let jos := jos.writeBytes (host.encrypt 0 CMD_OPEN_ACCOUNT pass)
    let jos := jos.writeBytes (host.c_str 1 id id.length)
    jos.writeString host.order money

def Deposit (account_id money : List UInt8) : List UInt8 :=
  host.request CMD_DEPOSIT fun jos =>
    let jos := jos.writeBytes (host.c_str 0 account_id 6)
    jos.writeString host.order money

def Withdrawal (account_id pass money : List UInt8) : List UInt8 :=
  host.request CMD_WITHDRAW fun jos =>
    let jos := jos.writeBytes (host.c_str 0 account_id 6)
    let jos := jos.writeBytes (host.encrypt 1 CMD_WITHDRAW pass)
    jos.writeString host.order money

def Transfer (account_id pass money other_account_id : List UInt8) : List UInt8 :=
  host.request CMD_TRANSFER fun jos =>
    let jos := jos.writeBytes (host.c_str 0 account_id 6)
    let jos := jos.writeBytes (host.encrypt 1 CMD_TRANSFER pass)
    let jos := jos.writeString host.order money
    jos.writeBytes (host.c_str 2 other_account_id 6)

def BalanceInquiry (account_id pass : List UInt8) : List UInt8 :=
  host.request CMD_BALANCE_INQUIRY fun jos =>
    let jos := jos.writeBytes (host.c_str 0 account_id 6)
    jos.writeBytes (host.encrypt 1 CMD_BALANCE_INQUIRY pass)

def ChangePassword (account_id pass newpass : List UInt8) : List UInt8 :=
  host.request CMD_CHANGE_PASSWORD fun jos =>
    let jos := jos.writeBytes (host.c_str 0 account_id 6)
    let jos := jos.writeBytes (host.encrypt 1 CMD_CHANGE_PASSWORD pass)
    jos.writeBytes (host.encrypt 2 CMD_CHANGE_PASSWORD newpass)

def QueryDayBill (page : BitVec 32) (date : List UInt8) : List UInt8 :=
  host.request CMD_DAY_BILL fun jos =>
    let jos := jos.writeUInt32 host.order page
    jos.writeBytes (host.c_str 0 date 10)

def QueryHistoryBill (page : BitVec 32) (begin_date end_date : List UInt8) : List UInt8 :=
  host.request CMD_HISTORY_BILL fun jos =>
    let jos := jos.writeUInt32 host.order page
    let jos := jos.writeBytes (host.c_str 0 begin_date 10)
    jos.writeBytes (host.c_str 1 end_date 10)

def QueryAccountHistoryBill (page : BitVec 32) (account_id begin_date end_date : List UInt8) :
    List UInt8 :=
  host.request CMD_ACCOUNT_HISTORY_BILL fun jos =>
    let jos := jos.writeUInt32 host.order page
    let jos := jos.writeBytes (host.c_str 0 account_id 6)
    let jos := jos.writeBytes (host.c_str 1 begin_date 10)
    jos.writeBytes (host.c_str 2 end_date 10)

def CloseAccount (account_id pass : List UInt8) : List UInt8 :=
  host.request CMD_CLOSE_ACCOUNT fun jos =>
    let jos := jos.writeBytes (host.c_str 0 account_id 6)
    jos.writeBytes (host.encrypt 1 CMD_CLOSE_ACCOUNT pass)

/-- The packet that `Execute` of the command sends. -/
def send : Request → List UInt8
  | .login name pass => UserLogin host name pass
  | .openAccount name pass id money => OpenAccount host name pass id money
  | .deposit account_id money => Deposit host account_id money
  | .withdraw account_id pass money => Withdrawal host account_id pass money
  | .transfer account_id pass money other_account_id =>
      Transfer host account_id pass money other_account_id
  | .balanceInquiry account_id pass => BalanceInquiry host account_id pass
  | .changePassword account_id pass newpass => ChangePassword host account_id pass newpass
  | .dayBill page date => QueryDayBill host page date
  | .historyBill page begin_date end_date => QueryHistoryBill host page begin_date end_date
  | .accountHistoryBill page account_id begin_date end_date =>
      QueryAccountHistoryBill host page account_id begin_date end_date
  | .closeAccount account_id pass => CloseAccount host account_id pass

end Client

namespace Server

variable (host : Host A) (cmd : BitVec 16)

def UserLogin : Reader Request := do
  let name ← readString host.order
  let encryptedPass ← readBytes 16
  pure (.login name (host.decrypt cmd encryptedPass))

def OpenAccount : Reader Request := do
  let name ← readString host.order
  let encryptedPass ← readBytes 16
  let id ← readBytes 18
  let money ← readString host.order
  pure (.openAccount name (host.decrypt cmd encryptedPass) id money)

def Deposit : Reader Request := do
  let account_id ← readBytes 6
  let money ← readString host.order
  pure (.deposit account_id money)

def Withdrawal : Reader Request := do
  let account_id ← readBytes 6
  let encryptedPass ← readBytes 16
  let money ← readString host.order
  pure (.withdraw account_id (host.decrypt cmd encryptedPass) money)

def Transfer : Reader Request := do
  let account_id ← readBytes 6
  let encryptedPass ← readBytes 16
  let money ← readString host.order
  let other_account_id ← readBytes 6
  pure (.transfer account_id (host.decrypt cmd encryptedPass) money other_account_id)

def BalanceInquiry : Reader Request := do
  let account_id ← readBytes 6
  let encryptedPass ← readBytes 16
  pure (.balanceInquiry account_id (host.decrypt cmd encryptedPass))

def ChangePassword : Reader Request := do
  let account_id ← readBytes 6
  let encryptedPass ← readBytes 16
  let encryptedNewPass ← readBytes 16
  pure (.changePassword account_id (host.decrypt cmd encryptedPass)
    (host.decrypt cmd encryptedNewPass))

def QueryDayBill : Reader Request := do
  let page ← readUInt32 host.order
  let date ← readBytes 10
  pure (.dayBill page date)

def QueryHistoryBill : Reader Request := do
  let page ← readUInt32 host.order
  let begin_date ← readBytes 10
  let end_date ← readBytes 10
  pure (.historyBill page begin_date end_date)

def QueryAccountHistoryBill : Reader Request := do
  let page ← readUInt32 host.order
  let account_id ← readBytes 6
  let begin_date ← readBytes 10
  let end_date ← readBytes 10
  pure (.accountHistoryBill page account_id begin_date end_date)

def CloseAccount : Reader Request := do
  let account_id ← readBytes 6
  let encryptedPass ← readBytes 16
  pure (.closeAccount account_id (host.decrypt cmd encryptedPass))

/-- `m_actions` of `TransactionManager`. -/
def actions : Option (Reader Request) :=
  if cmd = CMD_LOGIN then some (UserLogin host cmd)
  else if cmd = CMD_OPEN_ACCOUNT then some (OpenAccount host cmd)
  else if cmd = CMD_DEPOSIT then some (Deposit host)
  else if cmd = CMD_WITHDRAW then some (Withdrawal host cmd)
  else if cmd = CMD_TRANSFER then some (Transfer host cmd)
  else if cmd = CMD_BALANCE_INQUIRY then some (BalanceInquiry host cmd)
  else if cmd = CMD_CHANGE_PASSWORD then some (ChangePassword host cmd)
  else if cmd = CMD_DAY_BILL then some (QueryDayBill host)
  else if cmd = CMD_HISTORY_BILL then some (QueryHistoryBill host)
  else if cmd = CMD_ACCOUNT_HISTORY_BILL then some (QueryAccountHistoryBill host)
  else if cmd = CMD_CLOSE_ACCOUNT then some (CloseAccount host cmd)
  else none

/-- `Process` up to the fields of the request; `none` for a command without action. -/
def receive : Session (Option Request) := do
  serverRecv host.order A.md5Make
  let cmd ← hostField host.order 0
  match actions host cmd with
  | none => pure none
  | some action => do
      let jis ← requestStream host.order
      let r ← parse action jis
      pure (some r)

end Server

section Agreement

variable {client server : Host A} {cmd : BitVec 16} {pass str : List UInt8} {i n : ℕ}

theorem c_str_of_length (host : Host A) (i : ℕ) (h : str.length = n) : host.c_str i str n = str := by
  rw [Host.c_str, List.take_left' h]

theorem length_encrypt (h : IsPassword pass) : (client.encrypt i cmd pass).length = 16 := by
  have hpass := h.1
  have hbehind := (client.behind i).property
  rw [Host.encrypt, Idea.length_crypt, Host.c_str, List.length_take, List.length_append,
    List.length_cons, hbehind]
  omega

/-- The 16 bytes from a password on, and the C string that comes back. -/
theorem cstr_crypt_crypt {Key : Type*} {IdeaExpandKey : List UInt8 → Key}
    {IdeaCipher : List UInt8 → Key → List UInt8} (cfb cfb' : IdeaCfbContext Key)
    (key : List UInt8) (h : IsPassword pass) (behind : List UInt8) :
    cstr (Idea.crypt IdeaExpandKey IdeaCipher cfb' key
      (Idea.crypt IdeaExpandKey IdeaCipher cfb key ((pass ++ 0 :: behind).take 16) true) false) =
      pass := by
  have hpass := h.1
  have hterminated : (pass ++ 0 :: behind).take 16 = pass ++ 0 :: behind.take (15 - pass.length) := by
    rw [List.take_append, List.take_of_length_le (by omega),
      show 16 - pass.length = 15 - pass.length + 1 by omega, List.take_succ_cons]
  rw [Idea.crypt_crypt, hterminated, cstr_append h.2]

theorem decrypt_encrypt (h : IsPassword pass) :
    server.decrypt cmd (client.encrypt i cmd pass) = pass :=
  cstr_crypt_crypt client.cfb server.cfb (ideaKey A.md5Make cmd) h (client.behind i).val

/-- A password field, as it is written and read. -/
theorem reads_pass (h : IsPassword pass) :
    Reads (readBytes 16) (client.encrypt i cmd pass) (client.encrypt i cmd pass) :=
  reads_sized ⟨_, length_encrypt h⟩

theorem reads_width (h : str.length = n) : Reads (readBytes n) str str := reads_sized ⟨str, h⟩

/-- Fields that are read as they are written are received as they are sent. -/
theorem receive_request {fields : JOutStream → JOutStream} {body : List UInt8} {p : Reader Request}
    {r : Request} (hf : JOutStream.Writes fields body) (hp : JInStream.Reads p body r)
    (hact : Server.actions server cmd = some p) (hfits : 4 + body.length + 8 ≤ bufferSize) :
    WireFormat.Reads BankSession.incoming (Server.receive server) (client.request cmd fields)
      (some r) := by
  intro s more hin
  rw [request_eq client cmd hf] at hin
  obtain ⟨s', hrecv, hmore, hholds⟩ :=
    serverRecv_packet server.order A.md5Make cmd hfits hin
  refine ⟨s', ?_, hmore⟩
  rw [Server.receive, run_bind, hrecv, ok_bind, run_bind, hholds.cmd_eq, ok_bind, hact]
  change (requestStream server.order >>= fun jis => parse p jis >>= fun r => pure (some r)) s' = _
  rw [run_bind, hholds.requestStream_eq, ok_bind, run_bind, parse_of_reads hp, ok_bind]
  rfl

section Commands

variable (client server : Host A)

theorem receive_login (name : List UInt8) (hp : IsPassword pass)
    (hfits : (Request.login name pass).Fits) :
    WireFormat.Reads BankSession.incoming (Server.receive server)
      (Client.UserLogin client name pass) (some (.login name pass)) := by
  simp only [Request.Fits, Request.size, requestHeadSize, bufferSize] at hfits
  have hname : name.length < 2 ^ 16 := by omega
  have hwrites := (JOutStream.writes_writeString client.order hname).comp
    (JOutStream.writes_writeBytes (client.encrypt 0 CMD_LOGIN pass))
  refine receive_request (p := Server.UserLogin server CMD_LOGIN) hwrites ?_ rfl ?_
  · unfold Server.UserLogin
    refine (reads_readString server.order hname).bind ?_
    exact (reads_pass hp).bind_pure (congrArg (Request.login name) (decrypt_encrypt hp))
  · simp only [JOutStream.stringBytes, List.length_append, length_beBytes, length_encrypt hp,
      bufferSize]
    omega

theorem receive_openAccount (name : List UInt8) {id : List UInt8} (money : List UInt8)
    (hp : IsPassword pass) (hid : id.length = 18)
    (hfits : (Request.openAccount name pass id money).Fits) :
    WireFormat.Reads BankSession.incoming (Server.receive server)
      (Client.OpenAccount client name pass id money)
      (some (.openAccount name pass id money)) := by
  simp only [Request.Fits, Request.size, requestHeadSize, bufferSize] at hfits
  have hname : name.length < 2 ^ 16 := by omega
  have hmoney : money.length < 2 ^ 16 := by omega
  have hwrites := (JOutStream.writes_writeString client.order hname).comp
    ((JOutStream.writes_writeBytes (client.encrypt 0 CMD_OPEN_ACCOUNT pass)).comp
      ((JOutStream.writes_writeBytes (client.c_str 1 id id.length)).comp
        (JOutStream.writes_writeString client.order hmoney)))
  rw [c_str_of_length client 1 rfl] at hwrites
  rw [Client.OpenAccount, c_str_of_length client 1 rfl]
  refine receive_request (p := Server.OpenAccount server CMD_OPEN_ACCOUNT) hwrites ?_ rfl ?_
  · unfold Server.OpenAccount
    refine (reads_readString server.order hname).bind ((reads_pass hp).bind
      ((reads_width hid).bind ?_))
    exact (reads_readString server.order hmoney).bind_pure (by rw [decrypt_encrypt hp])
  · simp only [JOutStream.stringBytes, List.length_append, length_beBytes, length_encrypt hp, hid,
      bufferSize]
    omega

theorem receive_deposit {account_id : List UInt8} (money : List UInt8)
    (hid : account_id.length = 6) (hfits : (Request.deposit account_id money).Fits) :
    WireFormat.Reads BankSession.incoming (Server.receive server)
      (Client.Deposit client account_id money) (some (.deposit account_id money)) := by
  simp only [Request.Fits, Request.size, requestHeadSize, bufferSize] at hfits
  have hmoney : money.length < 2 ^ 16 := by omega
  have hwrites := (JOutStream.writes_writeBytes account_id).comp
    (JOutStream.writes_writeString client.order hmoney)
  rw [Client.Deposit, c_str_of_length client 0 hid]
  refine receive_request (p := Server.Deposit server) hwrites ?_ rfl ?_
  · unfold Server.Deposit
    refine (reads_width hid).bind ?_
    exact (reads_readString server.order hmoney).bind_pure rfl
  · simp only [JOutStream.stringBytes, List.length_append, length_beBytes, hid, bufferSize]
    omega

theorem receive_withdraw {account_id : List UInt8} (money : List UInt8)
    (hid : account_id.length = 6) (hp : IsPassword pass)
    (hfits : (Request.withdraw account_id pass money).Fits) :
    WireFormat.Reads BankSession.incoming (Server.receive server)
      (Client.Withdrawal client account_id pass money)
      (some (.withdraw account_id pass money)) := by
  simp only [Request.Fits, Request.size, requestHeadSize, bufferSize] at hfits
  have hmoney : money.length < 2 ^ 16 := by omega
  have hwrites := (JOutStream.writes_writeBytes account_id).comp
    ((JOutStream.writes_writeBytes (client.encrypt 1 CMD_WITHDRAW pass)).comp
      (JOutStream.writes_writeString client.order hmoney))
  rw [Client.Withdrawal, c_str_of_length client 0 hid]
  refine receive_request (p := Server.Withdrawal server CMD_WITHDRAW) hwrites ?_ rfl ?_
  · unfold Server.Withdrawal
    refine (reads_width hid).bind ((reads_pass hp).bind ?_)
    exact (reads_readString server.order hmoney).bind_pure (by rw [decrypt_encrypt hp])
  · simp only [JOutStream.stringBytes, List.length_append, length_beBytes, length_encrypt hp, hid,
      bufferSize]
    omega

theorem receive_transfer {account_id other_account_id : List UInt8} (money : List UInt8)
    (hid : account_id.length = 6) (hp : IsPassword pass) (hother : other_account_id.length = 6)
    (hfits : (Request.transfer account_id pass money other_account_id).Fits) :
    WireFormat.Reads BankSession.incoming (Server.receive server)
      (Client.Transfer client account_id pass money other_account_id)
      (some (.transfer account_id pass money other_account_id)) := by
  simp only [Request.Fits, Request.size, requestHeadSize, bufferSize] at hfits
  have hmoney : money.length < 2 ^ 16 := by omega
  have hwrites := (JOutStream.writes_writeBytes account_id).comp
    ((JOutStream.writes_writeBytes (client.encrypt 1 CMD_TRANSFER pass)).comp
      ((JOutStream.writes_writeString client.order hmoney).comp
        (JOutStream.writes_writeBytes other_account_id)))
  rw [Client.Transfer, c_str_of_length client 0 hid, c_str_of_length client 2 hother]
  refine receive_request (p := Server.Transfer server CMD_TRANSFER) hwrites ?_ rfl ?_
  · unfold Server.Transfer
    refine (reads_width hid).bind ((reads_pass hp).bind
      ((reads_readString server.order hmoney).bind ?_))
    exact (reads_width hother).bind_pure (by rw [decrypt_encrypt hp])
  · simp only [JOutStream.stringBytes, List.length_append, length_beBytes, length_encrypt hp, hid,
      hother, bufferSize]
    omega

theorem receive_balanceInquiry {account_id : List UInt8} (hid : account_id.length = 6)
    (hp : IsPassword pass) :
    WireFormat.Reads BankSession.incoming (Server.receive server)
      (Client.BalanceInquiry client account_id pass) (some (.balanceInquiry account_id pass)) := by
  have hwrites := (JOutStream.writes_writeBytes account_id).comp
    (JOutStream.writes_writeBytes (client.encrypt 1 CMD_BALANCE_INQUIRY pass))
  rw [Client.BalanceInquiry, c_str_of_length client 0 hid]
  refine receive_request (p := Server.BalanceInquiry server CMD_BALANCE_INQUIRY) hwrites ?_ rfl ?_
  · unfold Server.BalanceInquiry
    refine (reads_width hid).bind ?_
    exact (reads_pass hp).bind_pure (by rw [decrypt_encrypt hp])
  · simp only [List.length_append, length_encrypt hp, hid, bufferSize]
    omega

theorem receive_changePassword {account_id newpass : List UInt8} (hid : account_id.length = 6)
    (hp : IsPassword pass) (hnew : IsPassword newpass) :
    WireFormat.Reads BankSession.incoming (Server.receive server)
      (Client.ChangePassword client account_id pass newpass)
      (some (.changePassword account_id pass newpass)) := by
  have hwrites := (JOutStream.writes_writeBytes account_id).comp
    ((JOutStream.writes_writeBytes (client.encrypt 1 CMD_CHANGE_PASSWORD pass)).comp
      (JOutStream.writes_writeBytes (client.encrypt 2 CMD_CHANGE_PASSWORD newpass)))
  rw [Client.ChangePassword, c_str_of_length client 0 hid]
  refine receive_request (p := Server.ChangePassword server CMD_CHANGE_PASSWORD) hwrites ?_ rfl ?_
  · unfold Server.ChangePassword
    refine (reads_width hid).bind ((reads_pass hp).bind ?_)
    exact (reads_pass hnew).bind_pure (by rw [decrypt_encrypt hp, decrypt_encrypt hnew])
  · simp only [List.length_append, length_encrypt hp, length_encrypt hnew, hid, bufferSize]
    omega

theorem receive_dayBill (page : BitVec 32) {date : List UInt8} (hdate : date.length = 10) :
    WireFormat.Reads BankSession.incoming (Server.receive server)
      (Client.QueryDayBill client page date) (some (.dayBill page date)) := by
  have hwrites := (JOutStream.writes_writeUInt32 client.order page).comp
    (JOutStream.writes_writeBytes date)
  rw [Client.QueryDayBill, c_str_of_length client 0 hdate]
  refine receive_request (p := Server.QueryDayBill server) hwrites ?_ rfl ?_
  · unfold Server.QueryDayBill
    refine (reads_readUInt32 server.order page).bind ?_
    exact (reads_width hdate).bind_pure rfl
  · simp only [List.length_append, length_beBytes, hdate, bufferSize]
    omega

theorem receive_historyBill (page : BitVec 32) {begin_date end_date : List UInt8}
    (hbegin : begin_date.length = 10) (hend : end_date.length = 10) :
    WireFormat.Reads BankSession.incoming (Server.receive server)
      (Client.QueryHistoryBill client page begin_date end_date)
      (some (.historyBill page begin_date end_date)) := by
  have hwrites := (JOutStream.writes_writeUInt32 client.order page).comp
    ((JOutStream.writes_writeBytes begin_date).comp (JOutStream.writes_writeBytes end_date))
  rw [Client.QueryHistoryBill, c_str_of_length client 0 hbegin, c_str_of_length client 1 hend]
  refine receive_request (p := Server.QueryHistoryBill server) hwrites ?_ rfl ?_
  · unfold Server.QueryHistoryBill
    refine (reads_readUInt32 server.order page).bind ((reads_width hbegin).bind ?_)
    exact (reads_width hend).bind_pure rfl
  · simp only [List.length_append, length_beBytes, hbegin, hend, bufferSize]
    omega

theorem receive_accountHistoryBill (page : BitVec 32) {account_id begin_date end_date : List UInt8}
    (hid : account_id.length = 6) (hbegin : begin_date.length = 10)
    (hend : end_date.length = 10) :
    WireFormat.Reads BankSession.incoming (Server.receive server)
      (Client.QueryAccountHistoryBill client page account_id begin_date end_date)
      (some (.accountHistoryBill page account_id begin_date end_date)) := by
  have hwrites := (JOutStream.writes_writeUInt32 client.order page).comp
    ((JOutStream.writes_writeBytes account_id).comp
      ((JOutStream.writes_writeBytes begin_date).comp (JOutStream.writes_writeBytes end_date)))
  rw [Client.QueryAccountHistoryBill, c_str_of_length client 0 hid,
    c_str_of_length client 1 hbegin, c_str_of_length client 2 hend]
  refine receive_request (p := Server.QueryAccountHistoryBill server) hwrites ?_ rfl ?_
  · unfold Server.QueryAccountHistoryBill
    refine (reads_readUInt32 server.order page).bind ((reads_width hid).bind
      ((reads_width hbegin).bind ?_))
    exact (reads_width hend).bind_pure rfl
  · simp only [List.length_append, length_beBytes, hid, hbegin, hend, bufferSize]
    omega

theorem receive_closeAccount {account_id : List UInt8} (hid : account_id.length = 6)
    (hp : IsPassword pass) :
    WireFormat.Reads BankSession.incoming (Server.receive server)
      (Client.CloseAccount client account_id pass) (some (.closeAccount account_id pass)) := by
  have hwrites := (JOutStream.writes_writeBytes account_id).comp
    (JOutStream.writes_writeBytes (client.encrypt 1 CMD_CLOSE_ACCOUNT pass))
  rw [Client.CloseAccount, c_str_of_length client 0 hid]
  refine receive_request (p := Server.CloseAccount server CMD_CLOSE_ACCOUNT) hwrites ?_ rfl ?_
  · unfold Server.CloseAccount
    refine (reads_width hid).bind ?_
    exact (reads_pass hp).bind_pure (by rw [decrypt_encrypt hp])
  · simp only [List.length_append, length_encrypt hp, hid, bufferSize]
    omega

/-- Every request of the right widths is received as it was sent, and nothing behind it is. -/
theorem receive_send (r : Request) (hw : r.Widths) (hfits : r.Fits) :
    WireFormat.Reads BankSession.incoming (Server.receive server) (Client.send client r)
      (some r) := by
  cases r with
  | login name pass => exact receive_login client server name hw hfits
  | openAccount name pass id money =>
    exact receive_openAccount client server name money hw.1 hw.2 hfits
  | deposit account_id money => exact receive_deposit client server money hw hfits
  | withdraw account_id pass money =>
    exact receive_withdraw client server money hw.1 hw.2 hfits
  | transfer account_id pass money other_account_id =>
    exact receive_transfer client server money hw.1 hw.2.1 hw.2.2 hfits
  | balanceInquiry account_id pass => exact receive_balanceInquiry client server hw.1 hw.2
  | changePassword account_id pass newpass =>
    exact receive_changePassword client server hw.1 hw.2.1 hw.2.2
  | dayBill page date => exact receive_dayBill client server page hw
  | historyBill page begin_date end_date =>
    exact receive_historyBill client server page hw.1 hw.2
  | accountHistoryBill page account_id begin_date end_date =>
    exact receive_accountHistoryBill client server page hw.1 hw.2.1 hw.2.2
  | closeAccount account_id pass => exact receive_closeAccount client server hw.1 hw.2

end Commands

end Agreement

end MuduoServer.BankRequests
