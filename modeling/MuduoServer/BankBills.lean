import MuduoServer.BankResponses

/-!
The bills of `ABCBank`. The server answers `QueryDayBill`, `QueryHistoryBill` and
`QueryAccountHistoryBill` with one packet for each transaction, numbered from 0 on; the
client receives the first packet, then reads each one in its loop and receives the next at
the bottom. The loop is followed from packet to packet: what is in the buffer is the packet
with the number that the loop has come to, and what is on its way are the packets behind it.
-/
namespace MuduoServer.BankBills

open Endian FaultMachine WireFormat BankPackets BankWire BankRequests BankResponses JInStream

def errors : Errors := [(6, noData), (-1, databaseError)]

variable {A : Algorithms} {D : Type}

namespace Server

variable (host : Host A) (dbl : DoubleText D)

/-- date+account_id+other_account_id+money+abstract_name+balance+total -/
def detailFields (seq : BitVec 16) (td : TransDetail D) (jos : JOutStream) : JOutStream :=
  let jos := jos.writeBytes (host.c_str (3 * seq.toNat) td.trans_date 19)
  let jos := jos.writeBytes (host.c_str (3 * seq.toNat + 1) td.account_id 6)
  let jos := jos.writeBytes (host.c_str (3 * seq.toNat + 2) td.other_account_id 6)
  let jos := jos.writeString host.order (dbl.DoubleToString td.money)
  let jos := jos.writeString host.order td.abstract_name
  let jos := jos.writeString host.order (dbl.DoubleToString td.balance)
  jos.writeUInt32 host.order td.total

/-- The packet of one transaction. -/
def sendDetail (cmd cnt seq error_code : BitVec 16) (error_msg : Message) (td : TransDetail D) :
    List UInt8 :=
  host.response cmd cnt seq error_code error_msg.array (detailFields host dbl seq td)

/-- The loop over the list. -/
def sendDetails (cmd cnt error_code : BitVec 16) (error_msg : Message) :
    BitVec 16 → List (TransDetail D) → List UInt8
  | _, [] => []
  | seq, td :: details =>
    sendDetail host dbl cmd cnt seq error_code error_msg td ++
      sendDetails cmd cnt error_code error_msg (seq + 1) details

/-- `Execute` of the three commands, after the query. -/
def sendBill (cmd : BitVec 16) (ret : ℤ) (details : List (TransDetail D)) : List UInt8 :=
  let (error_code, error_msg) := report errors ret
  if error_code = 0 then
    sendDetails host dbl cmd (BitVec.ofNat 16 details.length) error_code error_msg 0 details
  else host.response cmd 0 0 error_code error_msg.array fun jos => jos

def QueryDayBill (ret : ℤ) (details : List (TransDetail D)) : List UInt8 :=
  sendBill host dbl CMD_DAY_BILL ret details

def QueryHistoryBill (ret : ℤ) (details : List (TransDetail D)) : List UInt8 :=
  sendBill host dbl CMD_HISTORY_BILL ret details

def QueryAccountHistoryBill (ret : ℤ) (details : List (TransDetail D)) : List UInt8 :=
  sendBill host dbl CMD_ACCOUNT_HISTORY_BILL ret details

end Server

namespace Client

variable (host : Host A) (dbl : DoubleText D)

/-- Head and fields of the packet of one transaction. -/
def readDetail : Reader (Client.Head × TransDetail D) := do
  let head ← Client.readHead host
  let trans_date ← readBytes 19
  let account_id ← readBytes 6
  let other_account_id ← readBytes 6
  let money ← readString host.order
  let abstract_name ← readString host.order
  let balance ← readString host.order
  let total ← readUInt32 host.order
  pure (head,
    { trans_date := cstr trans_date
      account_id := cstr account_id
      other_account_id := cstr other_account_id
      abstract_name
      money := dbl.StringToDouble money
      balance := dbl.StringToDouble balance
      total })

/-- The loop, with the number of rounds that `i<cnt` still admits. -/
def addDetails : ℕ → List (TransDetail D) → Session (List (TransDetail D))
  | 0, details => pure details
  | rounds + 1, details => do
    let (head, td) ← Client.readResponse host (readDetail host dbl)
    let details := details ++ [td]
    if (head.seq.toNat : ℤ) = head.cnt.toNat - 1 then pure details
    else do
      clientRecv host.order A.md5Make
      addDetails rounds details

/-- `Execute` of the three commands, after the request. -/
def receiveBill : Session (Reply D) := do
  clientRecv host.order A.md5Make
  let head ← Client.readResponse host (Client.readHead host)
  let details_ ← if head.error_code = 0 then addDetails host dbl head.cnt.toNat [] else pure []
  pure { errorCode_ := head.error_code, errorMsg_ := head.error_msg, response_ := [], details_ }

def QueryDayBill : Session (Reply D) := receiveBill host dbl

def QueryHistoryBill : Session (Reply D) := receiveBill host dbl

def QueryAccountHistoryBill : Session (Reply D) := receiveBill host dbl

end Client

/-- The bytes of the fields of a transaction. -/
def detailSize (dbl : DoubleText D) (td : TransDetail D) : ℕ :=
  19 + 6 + 6 + (2 + (dbl.DoubleToString td.money).length) + (2 + td.abstract_name.length) +
    (2 + (dbl.DoubleToString td.balance).length) + 4

/-- The widths of the fields of a transaction, whose packet fits into the buffer. -/
structure Widths (dbl : DoubleText D) (td : TransDetail D) : Prop where
  trans_date : IsDate td.trans_date
  account_id : td.account_id.length ≤ 6 ∧ 0 ∉ td.account_id
  other_account_id : td.other_account_id.length ≤ 6 ∧ 0 ∉ td.other_account_id
  fits : responseHeadSize + detailSize dbl td + 8 ≤ bufferSize

/-- A transaction as the client has it: the numbers are those of their texts. -/
def received (dbl : DoubleText D) (td : TransDetail D) : TransDetail D :=
  { td with
    money := dbl.StringToDouble (dbl.DoubleToString td.money)
    balance := dbl.StringToDouble (dbl.DoubleToString td.balance) }

/-- What the client is to make of the answer to a query. -/
def billAnswer (dbl : DoubleText D) (ret : ℤ) (details : List (TransDetail D)) : Reply D where
  errorCode_ := (report errors ret).1
  errorMsg_ := (report errors ret).2.val
  response_ := []
  details_ := if (report errors ret).1 = 0 then details.map (received dbl) else []

section Packets

variable (client server : Host A) (dbl : DoubleText D)

/-- A number of an account as it is sent: six bytes, with its end if it is shorter. -/
theorem c_str_id (host : Host A) (i : ℕ) {id : List UInt8} (h : id.length ≤ 6 ∧ 0 ∉ id) :
    (host.c_str i id 6).length = 6 ∧ cstr (host.c_str i id 6) = id := by
  have hbehind := (host.behind i).property
  constructor
  · rw [Host.c_str, List.length_take, List.length_append, List.length_cons, hbehind]
    omega
  · by_cases hsix : id.length = 6
    · rw [c_str_of_length host i hsix, cstr_of_notMem h.2]
    · have hshort : id.length ≤ 5 := by omega
      rw [Host.c_str, List.take_append, List.take_of_length_le (by omega),
        show 6 - id.length = 5 - id.length + 1 by omega, List.take_succ_cons, cstr_append h.2]

/-- The body of a packet. -/
def body (seq : BitVec 16) (td : TransDetail D) : List UInt8 :=
  td.trans_date ++ (server.c_str (3 * seq.toNat + 1) td.account_id 6 ++
    (server.c_str (3 * seq.toNat + 2) td.other_account_id 6 ++
      (JOutStream.stringBytes (dbl.DoubleToString td.money) ++
        (JOutStream.stringBytes td.abstract_name ++
          (JOutStream.stringBytes (dbl.DoubleToString td.balance) ++ beBytes 4 td.total)))))

/-- What stands behind the length of a packet. -/
def rest (cnt seq error_code : BitVec 16) (msg : Message) (td : TransDetail D) : List UInt8 :=
  responseRest cnt seq error_code msg.array (body server dbl seq td)

variable {dbl} {td : TransDetail D}

theorem Widths.length_body (h : Widths dbl td) (seq : BitVec 16) :
    (body server dbl seq td).length = detailSize dbl td := by
  simp only [body, detailSize, JOutStream.stringBytes, List.length_append, length_beBytes,
    h.trans_date.1, (c_str_id server _ h.account_id).1, (c_str_id server _ h.other_account_id).1]
  omega

theorem Widths.strings (h : Widths dbl td) : (dbl.DoubleToString td.money).length < 2 ^ 16 ∧
    td.abstract_name.length < 2 ^ 16 ∧ (dbl.DoubleToString td.balance).length < 2 ^ 16 := by
  have hfits := h.fits
  simp only [detailSize, responseHeadSize, bufferSize] at hfits
  omega

theorem Widths.length_rest (h : Widths dbl td) (cnt seq error_code : BitVec 16) (msg : Message) :
    (rest server dbl cnt seq error_code msg td).length = 36 + detailSize dbl td := by
  simp only [rest, responseRest, List.length_append, length_beBytes, Message.length_array,
    h.length_body]
  omega

theorem Widths.sendDetail_eq (h : Widths dbl td) (cmd cnt seq error_code : BitVec 16)
    (msg : Message) : Server.sendDetail server dbl cmd cnt seq error_code msg td =
      packet A.md5Make cmd responseHeadSize (rest server dbl cnt seq error_code msg td) := by
  obtain ⟨hmoney, hname, hbalance⟩ := h.strings
  have hwrites : JOutStream.Writes (Server.detailFields server dbl seq td)
      (body server dbl seq td) := by
    intro jos hjos
    simp only [Server.detailFields, c_str_date h.trans_date]
    exact (JOutStream.writes_writeBytes td.trans_date).comp
      ((JOutStream.writes_writeBytes _).comp ((JOutStream.writes_writeBytes _).comp
        ((JOutStream.writes_writeString server.order hmoney).comp
          ((JOutStream.writes_writeString server.order hname).comp
            ((JOutStream.writes_writeString server.order hbalance).comp
              (JOutStream.writes_writeUInt32 server.order td.total)))))) jos hjos
  exact response_eq server cmd cnt seq error_code msg.array hwrites

/-- The head of a packet, as the client reads it. -/
abbrev headOf (cnt seq error_code : BitVec 16) (msg : Message) : Client.Head :=
  { cnt, seq, error_code, error_msg := msg.val }

theorem Widths.reads_readDetail (h : Widths dbl td) (cnt seq error_code : BitVec 16)
    (msg : Message) : Reads (Client.readDetail client dbl)
      (rest server dbl cnt seq error_code msg td)
      (headOf cnt seq error_code msg, received dbl td) := by
  obtain ⟨hmoney, hname, hbalance⟩ := h.strings
  obtain ⟨hid, hidtext⟩ := c_str_id server (3 * seq.toNat + 1) h.account_id
  obtain ⟨hother, hothertext⟩ := c_str_id server (3 * seq.toNat + 2) h.other_account_id
  rw [rest, responseRest_eq]
  refine (reads_readHead client cnt seq error_code msg).bind ?_
  refine (reads_date h.trans_date).bind ((reads_width hid).bind ((reads_width hother).bind ?_))
  refine (reads_readString client.order hmoney).bind
    ((reads_readString client.order hname).bind
      ((reads_readString client.order hbalance).bind ?_))
  refine (reads_readUInt32 client.order td.total).bind_pure ?_
  rw [hidtext, hothertext, cstr_of_notMem h.trans_date.2]
  rfl

end Packets

section Loop

variable (client server : Host A) {dbl : DoubleText D} {cmd cnt error_code : BitVec 16}
  {msg : Message} {s : BankSession} {more : List UInt8}

/-- The packet that comes next is in the buffer, and nothing behind it has been taken. -/
theorem recv_detail {td : TransDetail D} (h : Widths dbl td) {seq : BitVec 16}
    (hin : s.incoming = Server.sendDetail server dbl cmd cnt seq error_code msg td ++ more) :
    ∃ s', clientRecv client.order A.md5Make s = .ok ((), s') ∧ s'.incoming = more ∧
      Holds client.order A.md5Make s' cmd responseHeadSize
        (rest server dbl cnt seq error_code msg td) := by
  have hlen := h.length_rest server cnt seq error_code msg
  have hfits := h.fits
  simp only [responseHeadSize] at hfits
  rw [h.sendDetail_eq server] at hin
  exact clientRecv_packet client.order A.md5Make cmd (by rw [hlen, responseHeadSize]; omega)
    (by omega) hin

/-- One round of the loop. -/
theorem addDetails_succ {td : TransDetail D} (h : Widths dbl td) {seq : BitVec 16}
    (hholds : Holds client.order A.md5Make s cmd responseHeadSize
      (rest server dbl cnt seq error_code msg td)) (rounds : ℕ) (added : List (TransDetail D)) :
    Client.addDetails client dbl (rounds + 1) added s =
      (if (seq.toNat : ℤ) = cnt.toNat - 1 then pure (added ++ [received dbl td])
      else clientRecv client.order A.md5Make >>= fun _ =>
        Client.addDetails client dbl rounds (added ++ [received dbl td])) s := by
  have hread := readResponse_eq client
    (h.reads_readDetail client server cnt seq error_code msg) (List.append_nil _).symm hholds
  rw [Client.addDetails, run_bind, hread, ok_bind]

/-- The loop from the packet in the buffer on: the packets behind it are still to come. -/
theorem addDetails_eq (details : List (TransDetail D)) :
    ∀ {td : TransDetail D} {seq : BitVec 16} {rounds : ℕ} {added : List (TransDetail D)}
      {s : BankSession}, (∀ x ∈ td :: details, Widths dbl x) →
      Holds client.order A.md5Make s cmd responseHeadSize
        (rest server dbl cnt seq error_code msg td) →
      s.incoming = Server.sendDetails server dbl cmd cnt error_code msg (seq + 1) details ++ more →
      seq.toNat + (details.length + 1) = cnt.toNat → details.length + 1 ≤ rounds →
      ∃ s', Client.addDetails client dbl rounds added s =
          .ok (added ++ (td :: details).map (received dbl), s') ∧ s'.incoming = more := by
  induction details with
  | nil =>
    intro td seq rounds added s hwidths hholds hin hseq hrounds
    rw [List.length_nil] at hseq hrounds
    obtain ⟨n, rfl⟩ := Nat.exists_eq_add_of_le' hrounds
    have hlast : (seq.toNat : ℤ) = cnt.toNat - 1 := by omega
    refine ⟨s, ?_, hin⟩
    rw [addDetails_succ client server (hwidths td (List.mem_cons_self ..)) hholds, if_pos hlast]
    rfl
  | cons next details ih =>
    intro td seq rounds added s hwidths hholds hin hseq hrounds
    rw [List.length_cons] at hseq hrounds
    obtain ⟨n, rfl⟩ := Nat.exists_eq_add_of_le' (Nat.le_trans (Nat.le_add_left 1 _) hrounds)
    have hbits := cnt.isLt
    have hmore : ¬ (seq.toNat : ℤ) = cnt.toNat - 1 := by omega
    have hnext : (seq + 1).toNat = seq.toNat + 1 := by
      rw [BitVec.toNat_add, Nat.mod_eq_of_lt]
      · rfl
      · change seq.toNat + 1 < 2 ^ 16
        omega
    rw [Server.sendDetails, List.append_assoc] at hin
    obtain ⟨s₁, hrecv, hin₁, hholds₁⟩ := recv_detail client server
      (hwidths next (List.mem_cons_of_mem td (List.mem_cons_self ..))) hin
    obtain ⟨s', hrest, hdone⟩ := ih (fun x hx => hwidths x (List.mem_cons_of_mem td hx)) hholds₁
      hin₁ (by omega) (by omega : details.length + 1 ≤ n)
    refine ⟨s', ?_, hdone⟩
    rw [addDetails_succ client server (hwidths td (List.mem_cons_self ..)) hholds, if_neg hmore,
      run_bind, hrecv, ok_bind, hrest, List.append_assoc]
    rfl

/-- The error packet, behind whose head there is nothing. -/
theorem receive_error {ret : ℤ} (herror : (report errors ret).1 ≠ 0)
    {details : List (TransDetail D)}
    (hin : s.incoming = Server.sendBill server dbl cmd ret details ++ more) :
    ∃ s', Client.receiveBill client dbl s =
        .ok (billAnswer dbl ret details, s') ∧ s'.incoming = more := by
  let code := (report errors ret).1
  let msg := (report errors ret).2
  have hsend : Server.sendBill server dbl cmd ret details =
      packet A.md5Make cmd responseHeadSize (responseRest 0 0 code msg.array []) := by
    have hresponse := response_eq server cmd 0 0 code msg.array WireFormat.Writes.id
    simp only [Server.sendBill, if_neg herror]
    exact hresponse
  have hlen : (responseRest 0 0 code msg.array []).length = 36 := by
    simp only [responseRest, List.length_append, length_beBytes, Message.length_array,
      List.length_nil]
  rw [hsend] at hin
  obtain ⟨s', hrecv, hmore, hholds⟩ := clientRecv_packet client.order A.md5Make cmd
    (by rw [hlen]; decide) (by rw [hlen]; decide) hin
  have hread := readResponse_eq client (reads_readHead client 0 0 code msg)
    (responseRest_eq 0 0 code msg []) hholds
  refine ⟨s', ?_, hmore⟩
  rw [Client.receiveBill, run_bind, hrecv, ok_bind, run_bind, hread, ok_bind, if_neg herror]
  rw [billAnswer, if_neg herror]
  rfl

/-- The packets of a bill, which is not empty. -/
theorem receive_details {ret : ℤ} (hcode : (report errors ret).1 = 0) {td : TransDetail D}
    {details : List (TransDetail D)} (hwidths : ∀ x ∈ td :: details, Widths dbl x)
    (hcount : (td :: details).length ≤ 65535)
    (hin : s.incoming = Server.sendBill server dbl cmd ret (td :: details) ++ more) :
    ∃ s', Client.receiveBill client dbl s = .ok
        (billAnswer dbl ret (td :: details), s') ∧ s'.incoming = more := by
  let msg := (report errors ret).2
  have hcnt : (BitVec.ofNat 16 (td :: details).length).toNat = (td :: details).length := by
    rw [BitVec.toNat_ofNat, Nat.mod_eq_of_lt (by omega)]
  have hsend : Server.sendBill server dbl cmd ret (td :: details) = Server.sendDetails server dbl
      cmd (BitVec.ofNat 16 (td :: details).length) 0 msg 0 (td :: details) := by
    simp only [Server.sendBill, hcode, if_true, msg]
  rw [hsend, Server.sendDetails, List.append_assoc] at hin
  obtain ⟨s₁, hrecv, hin₁, hholds⟩ :=
    recv_detail client server (hwidths td (List.mem_cons_self ..)) hin
  have hread := readResponse_eq client (reads_readHead client _ 0 0 msg)
    (responseRest_eq _ 0 0 msg _) hholds
  obtain ⟨s', hloop, hmore⟩ := addDetails_eq client server details hwidths hholds hin₁
    (by rw [hcnt, List.length_cons]; exact Nat.zero_add _) (Nat.le_of_eq hcnt.symm)
  refine ⟨s', ?_, hmore⟩
  rw [Client.receiveBill, run_bind, hrecv, ok_bind, run_bind, hread, ok_bind, if_pos rfl, run_bind,
    hloop, ok_bind, billAnswer, if_pos hcode, hcode]
  rfl

end Loop

/-- A list that the packets can carry. -/
def Sendable (dbl : DoubleText D) (details : List (TransDetail D)) : Prop :=
  1 ≤ details.length ∧ details.length ≤ 65535 ∧ ∀ td ∈ details, Widths dbl td

theorem receive_bill (client server : Host A) (dbl : DoubleText D) (cmd : BitVec 16) (ret : ℤ)
    (details : List (TransDetail D)) (h : (report errors ret).1 = 0 → Sendable dbl details) :
    WireFormat.Reads BankSession.incoming (Client.receiveBill client dbl)
      (Server.sendBill server dbl cmd ret details) (billAnswer dbl ret details) := by
  intro s more hin
  by_cases hcode : (report errors ret).1 = 0
  · obtain ⟨hsome, hcount, hwidths⟩ := h hcode
    cases details with
    | nil => exact absurd hsome (Nat.not_succ_le_zero 0)
    | cons td details => exact receive_details client server hcode hwidths hcount hin
  · exact receive_error client server hcode hin

/-- The three commands that answer with a bill. -/
inductive Query
  | day
  | history
  | accountHistory

def Query.send (host : Host A) (dbl : DoubleText D) (ret : ℤ) (details : List (TransDetail D)) :
    Query → List UInt8
  | .day => Server.QueryDayBill host dbl ret details
  | .history => Server.QueryHistoryBill host dbl ret details
  | .accountHistory => Server.QueryAccountHistoryBill host dbl ret details

def Query.receive (host : Host A) (dbl : DoubleText D) : Query → Session (Reply D)
  | .day => Client.QueryDayBill host dbl
  | .history => Client.QueryHistoryBill host dbl
  | .accountHistory => Client.QueryAccountHistoryBill host dbl

/-- A transaction with its numbers as texts. -/
def texts (dbl : DoubleText D) (td : TransDetail D) : TransDetail (List UInt8) where
  account_id := td.account_id
  other_account_id := td.other_account_id
  abstract_name := td.abstract_name
  money := dbl.DoubleToString td.money
  balance := dbl.DoubleToString td.balance
  trans_date := td.trans_date
  total := td.total

theorem texts_received (dbl : DoubleText D) (td : TransDetail D) :
    texts dbl (received dbl td) = texts dbl td := by
  simp only [texts, received, dbl.text_read]

theorem receive_query (query : Query) (client server : Host A) (dbl : DoubleText D) (ret : ℤ)
    (details : List (TransDetail D)) (h : (report errors ret).1 = 0 → Sendable dbl details) :
    WireFormat.Reads BankSession.incoming (query.receive client dbl)
      (query.send server dbl ret details) (billAnswer dbl ret details) := by
  cases query with
  | day => exact receive_bill client server dbl CMD_DAY_BILL ret details h
  | history => exact receive_bill client server dbl CMD_HISTORY_BILL ret details h
  | accountHistory => exact receive_bill client server dbl CMD_ACCOUNT_HISTORY_BILL ret details h

/-- The client has the list of the server, in its order, and the answer is read to its end; with
an error it has nothing but the one packet. -/
theorem bill_delivered (query : Query) (client server : Host A) (dbl : DoubleText D) (ret : ℤ)
    (details : List (TransDetail D)) (h : (report errors ret).1 = 0 → Sendable dbl details) :
    ∃ added, WireFormat.Reads BankSession.incoming (query.receive client dbl)
        (query.send server dbl ret details)
        { errorCode_ := (report errors ret).1, errorMsg_ := (report errors ret).2.val,
          response_ := [], details_ := added } ∧
      ((report errors ret).1 = 0 → added.map (texts dbl) = details.map (texts dbl)) ∧
      ((report errors ret).1 ≠ 0 → added = []) := by
  refine ⟨(billAnswer dbl ret details).details_,
    receive_query query client server dbl ret details h, fun hcode => ?_, fun herror => ?_⟩
  · rw [billAnswer, if_pos hcode, List.map_map]
    exact List.map_congr_left fun td _ => texts_received dbl td
  · rw [billAnswer, if_neg herror]

/-- The whole numbers up to 9, with two decimals. -/
def wholes : DoubleText (Fin 10) where
  DoubleToString x := [UInt8.ofNat (48 + x.val), 46, 48, 48]
  StringToDouble text := ⟨((text.getD 0 48).toNat - 48) % 10, Nat.mod_lt _ (by decide)⟩
  text_read := by decide

/-- A program of one byte order whose algorithms do nothing. -/
def plainHost (order : HostOrder) :
    Host { md5Make := fun _ => ⟨List.replicate 16 0, rfl⟩, Key := Unit,
           IdeaExpandKey := fun _ => (), IdeaCipher := fun block _ => block } where
  order := order
  cfb := { oldcipher := [], iv := [], key := (), bufleft := 0 }
  behind _ := ⟨List.replicate 19 0, rfl⟩

/-- A deposit of 5.00 on 2014-03-02, and its repetition. -/
def twoDeposits : List (TransDetail (Fin 10)) :=
  List.replicate 2
    { account_id := [49]
      other_account_id := []
      abstract_name := [180, 230, 191, 238]
      money := 5
      balance := 9
      trans_date := [50, 48, 49, 52, 45, 48, 51, 45, 48, 50, 32, 49, 48, 58, 48, 48, 58, 48, 48]
      total := 2 }

theorem twoDeposits_sendable : Sendable wholes twoDeposits := by
  refine ⟨by decide, by decide, fun td htd => ?_⟩
  rw [List.eq_of_mem_replicate htd]
  exact ⟨⟨by decide, by decide⟩, by decide, by decide, by decide⟩

theorem bill_delivered_sample :
    ∃ added, WireFormat.Reads BankSession.incoming
        (Query.day.receive (plainHost .big) wholes)
        (Query.day.send (plainHost .little) wholes 0 twoDeposits)
        { errorCode_ := (report errors 0).1, errorMsg_ := (report errors 0).2.val,
          response_ := [], details_ := added } ∧
      ((report errors 0).1 = 0 → added.map (texts wholes) = twoDeposits.map (texts wholes)) ∧
      ((report errors 0).1 ≠ 0 → added = []) :=
  bill_delivered .day (plainHost .big) (plainHost .little) wholes 0 twoDeposits fun _ =>
    twoDeposits_sendable

end MuduoServer.BankBills
