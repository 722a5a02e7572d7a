import MuduoServer.BankBills

/-!
The protocol of `ABCBank` as a whole: each of the eleven commands has one request and one
response. The two programs agree on both, whatever their byte orders are, because every
packet is received up to its end and every field is read with the width it is written with.
-/
namespace MuduoServer.BankProtocol

open WireFormat BankPackets BankWire BankRequests BankResponses

/-- What the server has to answer to a request: what the operation of the service returned, and
the data that it has filled in. -/
inductive Response (D : Type)
  | login (ret : ℤ)
  | openAccount (ret : ℤ) (acc : Account D)
  | deposit (ret : ℤ) (acc : Account D)
  | withdraw (ret : ℤ) (acc : Account D)
  | transfer (ret : ℤ) (acc : Account D)
  | balanceInquiry (ret : ℤ) (acc : Account D)
  | changePassword (ret : ℤ)
  | bill (query : BankBills.Query) (ret : ℤ) (details : List (TransDetail D))
  | closeAccount (ret : ℤ) (acc : Account D) (interest : D)

namespace Response

variable {A : Algorithms} {D : Type} (host : Host A) (dbl : DoubleText D)

/-- What `Execute` of the server sends. -/
def send : Response D → List UInt8
  | login ret => Server.UserLogin host ret
  | openAccount ret acc => Server.OpenAccount host ret acc
  | deposit ret acc => Server.Deposit host dbl ret acc
  | withdraw ret acc => Server.Withdrawal host dbl ret acc
  | transfer ret acc => Server.Transfer host dbl ret acc
  | balanceInquiry ret acc => Server.BalanceInquiry host dbl ret acc
  | changePassword ret => Server.ChangePassword host ret
  | bill query ret details => query.send host dbl ret details
  | closeAccount ret acc interest => Server.CloseAccount host dbl ret acc interest

/-- `Execute` of the client for the same command. -/
def receive : Response D → Session (Reply D)
  | login _ => Client.UserLogin host
  | openAccount _ _ => Client.OpenAccount host
  | deposit _ _ => Client.Deposit host
  | withdraw _ _ => Client.Withdrawal host
  | transfer _ _ => Client.Transfer host
  | balanceInquiry _ _ => Client.BalanceInquiry host
  | changePassword _ => Client.ChangePassword host
  | bill query _ _ => query.receive host dbl
  | closeAccount _ _ _ => Client.CloseAccount host

/-- The fields of an account, under the names that the client gives them. -/
def accountFields (acc : Account D) : List (String × List UInt8) :=
  [("name", acc.name), ("balance", dbl.DoubleToString acc.balance), ("trans_date", acc.op_date)]

/-- The error code and the message, and the fields of the result if the code is 0. -/
def reply : Response D → Reply D
  | login ret => answer UserLogin.errors ret []
  | openAccount ret acc => answer OpenAccount.errors ret
      [("account_id", idText acc.account_id), ("open_date", acc.op_date)]
  | deposit ret acc => answer Deposit.errors ret (accountFields dbl acc)
  | withdraw ret acc => answer Withdrawal.errors ret (accountFields dbl acc)
  | transfer ret acc => answer Transfer.errors ret (accountFields dbl acc)
  | balanceInquiry ret acc => answer BalanceInquiry.errors ret (accountFields dbl acc)
  | changePassword ret => answer ChangePassword.errors ret []
  | bill _ ret details => BankBills.billAnswer dbl ret details
  | closeAccount ret acc interest => answer CloseAccount.errors ret
      [("name", acc.name), ("balance", dbl.DoubleToString acc.balance),
        ("interest", dbl.DoubleToString interest), ("close_date", acc.op_date)]

/-- The fields of an account have the widths of the protocol and fit into the packet, if they are
sent. -/
def AccountFits (errors : Errors) (ret : ℤ) (acc : Account D) : Prop :=
  (report errors ret).1 = 0 →
    IsDate acc.op_date ∧ responseHeadSize + acc.size dbl + 8 ≤ bufferSize

/-- The widths that the protocol fixes, and every packet fits into the buffer of the client. -/
def Widths : Response D → Prop
  | login _ => True
  | openAccount ret acc => ((report OpenAccount.errors ret).1 = 0 → IsId acc.account_id) ∧
      responseHeadSize + (6 + (2 + acc.op_date.length)) + 8 ≤ bufferSize
  | deposit ret acc => AccountFits dbl Deposit.errors ret acc
  | withdraw ret acc => AccountFits dbl Withdrawal.errors ret acc
  | transfer ret acc => AccountFits dbl Transfer.errors ret acc
  | balanceInquiry ret acc => AccountFits dbl BalanceInquiry.errors ret acc
  | changePassword _ => True
  | bill _ ret details =>
      (report BankBills.errors ret).1 = 0 → BankBills.Sendable dbl details
  | closeAccount ret acc interest => (report CloseAccount.errors ret).1 = 0 →
      IsDate acc.op_date ∧ responseHeadSize +
        (acc.size dbl + (2 + (dbl.DoubleToString interest).length)) + 8 ≤ bufferSize

/-- Every response is received as it was sent. -/
theorem receive_send (client server : Host A) (r : Response D) (h : r.Widths dbl) :
    WireFormat.Reads BankSession.incoming (r.receive client dbl) (r.send server dbl)
      (r.reply dbl) := by
  cases r with
  | login ret => exact receive_status client server CMD_LOGIN UserLogin.errors ret
  | openAccount ret acc => exact receive_openAccount client server ret acc h.1 h.2
  | deposit ret acc =>
    exact receive_account client server dbl CMD_DEPOSIT Deposit.errors ret acc
      (fun hcode => (h hcode).1) fun hcode => (h hcode).2
  | withdraw ret acc =>
    exact receive_account client server dbl CMD_WITHDRAW Withdrawal.errors ret acc
      (fun hcode => (h hcode).1) fun hcode => (h hcode).2
  | transfer ret acc =>
    exact receive_account client server dbl CMD_TRANSFER Transfer.errors ret acc
      (fun hcode => (h hcode).1) fun hcode => (h hcode).2
  | balanceInquiry ret acc =>
    exact receive_account client server dbl CMD_BALANCE_INQUIRY BalanceInquiry.errors ret acc
      (fun hcode => (h hcode).1) fun hcode => (h hcode).2
  | changePassword ret =>
    exact receive_status client server CMD_CHANGE_PASSWORD ChangePassword.errors ret
  | bill query ret details =>
    exact BankBills.receive_query query client server dbl ret details h
  | closeAccount ret acc interest =>
    exact receive_closeAccount client server dbl ret acc interest (fun hcode => (h hcode).1)
      fun hcode => (h hcode).2

end Response

variable {A : Algorithms} {D : Type}

/-- Requests and responses arrive as they are sent, and nothing behind them is taken. -/
theorem packets_agree (client server : Host A) (dbl : DoubleText D) (request : Request)
    (hrequest : request.Widths ∧ request.Fits) (response : Response D)
    (hresponse : response.Widths dbl) :
    WireFormat.Reads BankSession.incoming (BankRequests.Server.receive server)
        (BankRequests.Client.send client request) (some request) ∧
      WireFormat.Reads BankSession.incoming (response.receive client dbl)
        (response.send server dbl) (response.reply dbl) :=
  ⟨receive_send client server request hrequest.1 hrequest.2,
    response.receive_send dbl client server hresponse⟩

/-- An account after a transfer. -/
def sampleAccount : Account (Fin 10) where
  account_id := 1
  name := [65]
  op_date := [50, 48, 49, 52, 45, 48, 51, 45, 48, 50, 32, 49, 48, 58, 48, 48, 58, 48, 48]
  balance := Fin.last 9

/-- A transfer between two accounts with the password "1234", and the answer to it. -/
theorem packets_agree_sample :
    WireFormat.Reads BankSession.incoming
        (BankRequests.Server.receive (BankBills.plainHost .big))
        (BankRequests.Client.send (BankBills.plainHost .little)
          (.transfer [48, 48, 48, 48, 48, 49] [49, 50, 51, 52] [53] [48, 48, 48, 48, 48, 50]))
        (some (.transfer [48, 48, 48, 48, 48, 49] [49, 50, 51, 52] [53]
          [48, 48, 48, 48, 48, 50])) ∧
      WireFormat.Reads BankSession.incoming
        ((Response.transfer 0 sampleAccount).receive (BankBills.plainHost .little)
          BankBills.wholes)
        ((Response.transfer 0 sampleAccount).send (BankBills.plainHost .big) BankBills.wholes)
        ((Response.transfer 0 sampleAccount).reply BankBills.wholes) :=
  packets_agree (BankBills.plainHost .little) (BankBills.plainHost .big) BankBills.wholes
    (.transfer [48, 48, 48, 48, 48, 49] [49, 50, 51, 52] [53] [48, 48, 48, 48, 48, 50])
    ⟨⟨rfl, ⟨by decide, by decide⟩, rfl⟩, (by decide : 4 + 31 + 8 ≤ 2048)⟩
    (.transfer 0 sampleAccount)
    (fun _ => ⟨⟨by decide, by decide⟩, by decide⟩)

end MuduoServer.BankProtocol
