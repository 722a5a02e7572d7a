import MuduoServer.LogHeader

/-!
The end of a log record. `finish` puts the source position and the end of the line into the
stream as any other pieces, and each is dropped when it does not fit. Whether the record is
a line depends on how much room the header and the message have left.
-/
namespace MuduoServer.Logger

open FaultMachine WholePieces LogStream

/-- The room that is left for `finish`. -/
def room (contents : Bytes) : ℕ := kSmallBuffer - contents.length

/-- The room behind `" - "`. -/
def roomBehindDash (contents : Bytes) : ℕ :=
  if 3 < room contents then room contents - 3 else room contents

/-- The room behind the name of the file. -/
def roomBehindName (contents basename : Bytes) : ℕ :=
  if basename.length < roomBehindDash contents then roomBehindDash contents - basename.length
  else roomBehindDash contents

/-- The end of the line fits behind a colon, or nothing fits behind a text that ends a line
already: the message, or a file name. -/
def EndsLine (contents basename : Bytes) : Prop :=
  3 ≤ roomBehindName contents basename ∨
    (room contents = 1 ∧ contents.getLast? = some (byte '\n')) ∨
    (roomBehindName contents basename = 1 ∧ basename.length < roomBehindDash contents ∧
      basename.getLast? = some (byte '\n'))

section Pieces

variable {row basename : Bytes} {line : Piece UInt8}

/-- The row behind the file name. -/
def named (row basename : Bytes) : Bytes :=
  put kSmallBuffer (put kSmallBuffer row (.whole (bytes " - "))) (.whole basename)

def colon (row : Bytes) : Bytes := put kSmallBuffer row (.whole [byte ':'])

/-- What `finish` leaves. -/
def finished (row basename : Bytes) (line : Piece UInt8) : Bytes :=
  put kSmallBuffer (put kSmallBuffer (colon (named row basename)) line) (.whole [byte '\n'])

theorem room_named : kSmallBuffer - (named row basename).length = roomBehindName row basename := by
  rw [named, room_put_whole, room_put_whole]
  rfl

theorem roomBehindDash_of_one (h : room row = 1) : roomBehindDash row = 1 := by
  rw [roomBehindDash, h]
  rfl

theorem roomBehindName_of_one (h : room row = 1) : roomBehindName row basename ≤ 1 := by
  rw [roomBehindName, roomBehindDash_of_one h]
  split <;> omega

/-- With three bytes left behind the name the line is ended. -/
theorem getLast?_finished_of_room (hneed : line.need = LogFormat.kMaxNumericSize)
    (hlen : line.text.length ≤ 20) (h : 3 ≤ roomBehindName row basename) :
    (finished row basename line).getLast? = some (byte '\n') := by
  have hroom := room_put_whole kSmallBuffer (named row basename) [byte ':']
  rw [List.length_singleton, room_named, if_pos (by omega)] at hroom
  have hend : Fits kSmallBuffer (put kSmallBuffer (colon (named row basename)) line)
      (.whole [byte '\n']) := by
    rw [fits_whole, List.length_singleton]
    by_cases hfits : Fits kSmallBuffer (colon (named row basename)) line
    · rw [put_of_fits hfits, List.length_append]
      rw [Fits, hneed, LogFormat.kMaxNumericSize] at hfits
      omega
    · rw [put_of_not hfits, colon]
      omega
  rw [finished, put_of_fits hend]
  exact List.getLast?_concat

/-- With fewer nothing fits behind the colon, and behind the name only the colon with two. -/
theorem finished_of_room (hneed : line.need = LogFormat.kMaxNumericSize)
    (h : roomBehindName row basename < 3) :
    finished row basename line = colon (named row basename) := by
  have hroom := room_put_whole kSmallBuffer (named row basename) [byte ':']
  rw [List.length_singleton, room_named] at hroom
  have hle : kSmallBuffer - (colon (named row basename)).length < 2 := by
    rw [colon, hroom]
    split <;> omega
  have hline : ¬ Fits kSmallBuffer (colon (named row basename)) line := by
    rw [Fits, hneed, LogFormat.kMaxNumericSize]
    omega
  have hend : ¬ Fits kSmallBuffer (colon (named row basename)) (.whole [byte '\n']) := by
    rw [fits_whole, List.length_singleton]
    omega
  rw [finished, put_of_not hline, put_of_not hend]

theorem getLast?_colon (h : 1 < roomBehindName row basename) :
    (colon (named row basename)).getLast? = some (byte ':') := by
  have hfits : Fits kSmallBuffer (named row basename) (.whole [byte ':']) := by
    rw [fits_whole, room_named]
    exact h
  rw [colon, put_of_fits hfits]
  exact List.getLast?_concat

theorem colon_of_room (h : roomBehindName row basename ≤ 1) :
    colon (named row basename) = named row basename := by
  apply put_of_not
  rw [fits_whole, room_named, List.length_singleton]
  omega

/-- With one byte behind the dash either nothing was put in or a blank comes last. -/
theorem getLast?_dash_iff (h : roomBehindDash row = 1) :
    (put kSmallBuffer row (.whole (bytes " - "))).getLast? = some (byte '\n') ↔
      room row = 1 ∧ row.getLast? = some (byte '\n') := by
  have hlen : (bytes " - ").length = 3 := rfl
  unfold roomBehindDash at h
  by_cases hfits : Fits kSmallBuffer row (.whole (bytes " - "))
  · have hlt := fits_whole.mp hfits
    rw [hlen] at hlt
    rw [put_of_fits hfits]
    have hlast : (row ++ bytes " - ").getLast? = some (byte ' ') := by
      have hsplit : bytes " - " = bytes " -" ++ [byte ' '] := rfl
      rw [hsplit, ← List.append_assoc]
      exact List.getLast?_concat
    have hblank : byte ' ' ≠ byte '\n' := by decide
    constructor
    · intro hnewline
      exact absurd (Option.some.inj (hlast.symm.trans hnewline)) hblank
    · rintro ⟨hone, -⟩
      unfold room at hone
      omega
  · have hle : ¬ 3 < room row := fun hlt => hfits (fits_whole.mpr hlt)
    rw [if_neg hle] at h
    rw [put_of_not hfits]
    exact ⟨fun hlast => ⟨h, hlast⟩, fun hlast => hlast.2⟩

/-- With one byte behind the name it is the name, or what stands before it, that comes last. -/
theorem getLast?_named_iff (h : roomBehindName row basename = 1) :
    (named row basename).getLast? = some (byte '\n') ↔
      (room row = 1 ∧ row.getLast? = some (byte '\n')) ∨
        (basename.length < roomBehindDash row ∧ basename.getLast? = some (byte '\n')) := by
  have hdash : kSmallBuffer - (put kSmallBuffer row (.whole (bytes " - "))).length =
      roomBehindDash row := room_put_whole kSmallBuffer row (bytes " - ")
  have hfits : Fits kSmallBuffer (put kSmallBuffer row (.whole (bytes " - "))) (.whole basename) ↔
      basename.length < roomBehindDash row := by
    rw [fits_whole, hdash]
  unfold roomBehindName at h
  by_cases hlt : basename.length < roomBehindDash row
  · rw [if_pos hlt] at h
    by_cases hnil : basename = []
    · subst hnil
      rw [named, put_nil, getLast?_dash_iff h]
      simp
    · have hpos := List.length_pos_iff.mpr hnil
      have hone : ¬ room row = 1 := by
        intro hone
        rw [roomBehindDash_of_one hone] at hlt
        omega
      rw [named, put_of_fits (hfits.mpr hlt)]
      change (_ ++ basename).getLast? = _ ↔ _
      rw [List.getLast?_append_of_ne_nil _ hnil]
      simp [hone, hlt]
  · rw [if_neg hlt] at h
    rw [named, put_of_not fun hin => hlt (hfits.mp hin), getLast?_dash_iff h]
    simp [hlt]

/-- The last byte of the record. -/
theorem getLast?_finished_iff (hrow : row.length < kSmallBuffer)
    (hneed : line.need = LogFormat.kMaxNumericSize) (hlen : line.text.length ≤ 20) :
    (finished row basename line).getLast? = some (byte '\n') ↔ EndsLine row basename := by
  unfold EndsLine
  by_cases hthree : 3 ≤ roomBehindName row basename
  · simp only [hthree, true_or, iff_true]
    exact getLast?_finished_of_room hneed hlen hthree
  · rw [finished_of_room hneed (by omega)]
    have hpos : 0 < roomBehindName row basename := by
      unfold roomBehindName roomBehindDash room
      split_ifs <;> omega
    by_cases htwo : 1 < roomBehindName row basename
    · rw [getLast?_colon htwo]
      have hcolon : byte ':' ≠ byte '\n' := by decide
      have hone : ¬ room row = 1 := by
        intro hone
        have hle : roomBehindName row basename ≤ 1 := roomBehindName_of_one hone
        omega
      have hother : ¬ roomBehindName row basename = 1 := by omega
      simp [hthree, hone, hother, hcolon]
    · have hone : roomBehindName row basename = 1 := by omega
      rw [colon_of_room (by omega), getLast?_named_iff hone]
      simp [hone]

end Pieces

section Records

variable {D : Type} {percent12g : D → NumericText} {strerror : ℤ → Bytes} {tid : ℕ}
  {t t' : ThreadLocal} {s s' : LogStream} {impl : LoggerImpl} {row : Bytes}

theorem holds_of_insert (h : ∃ row, s.Holds row) {xs : List (Insertion D)}
    (hs : insert percent12g s xs = .ok s') : ∃ row, s'.Holds row := by
  obtain ⟨row, hrow⟩ := h
  obtain ⟨s₁, hs₁, hholds⟩ := insert_holds percent12g hrow xs
  obtain rfl := Except.ok.inj (hs₁.symm.trans hs)
  exact ⟨_, hholds⟩

theorem holds_of_implNew {now : ℕ} {level : LogLevel} {savedErrno line : CInt} {path : Bytes}
    (h : implNew percent12g strerror tid t now level savedErrno path line = .ok (t', impl)) :
    ∃ row, impl.stream_.Holds row := by
  obtain ⟨⟨t₁, s₁⟩, hs₁, h⟩ := bind_eq_ok.mp h
  obtain ⟨t₂, -, h⟩ := bind_eq_ok.mp h
  obtain ⟨tidString, -, h⟩ := bind_eq_ok.mp h
  obtain ⟨name, -, h⟩ := bind_eq_ok.mp h
  obtain ⟨s₂, hs₂, h⟩ := bind_eq_ok.mp h
  obtain ⟨-, rfl⟩ := Prod.mk.inj (pure_eq_ok.mp h)
  obtain ⟨t₃, -, h⟩ := bind_eq_ok.mp hs₁
  obtain ⟨us, -, h⟩ := bind_eq_ok.mp h
  obtain ⟨-, -, h⟩ := bind_eq_ok.mp h
  obtain ⟨time, -, h⟩ := bind_eq_ok.mp h
  obtain ⟨usText, -, h⟩ := bind_eq_ok.mp h
  obtain ⟨s₃, hs₃, h⟩ := bind_eq_ok.mp h
  obtain ⟨-, rfl⟩ := Prod.mk.inj (pure_eq_ok.mp h)
  exact holds_of_insert (holds_of_insert ⟨[], new_holds⟩ hs₃) hs₂

theorem holds_of_new {now : ℕ} {call : LoggerCall}
    (h : Logger.new percent12g strerror tid t now call = .ok (t', impl)) :
    ∃ row, impl.stream_.Holds row := by
  cases call with
  | info path line => exact holds_of_implNew h
  | withFunc path line level func =>
    obtain ⟨⟨t₁, impl₁⟩, himpl, h⟩ := bind_eq_ok.mp h
    obtain ⟨s₁, hs₁, h⟩ := bind_eq_ok.mp h
    obtain ⟨-, rfl⟩ := Prod.mk.inj (pure_eq_ok.mp h)
    exact holds_of_insert (holds_of_implNew himpl) hs₁
  | withLevel path line level => exact holds_of_implNew h
  | system path line toAbort errno => exact holds_of_implNew h

theorem holds_of_write {st : Statement D}
    (h : write percent12g strerror tid t st = .ok (t', impl)) : ∃ row, impl.stream_.Holds row := by
  obtain ⟨⟨t₁, impl₁⟩, hnew, h⟩ := bind_eq_ok.mp h
  obtain ⟨s₁, hs₁, h⟩ := bind_eq_ok.mp h
  obtain ⟨-, rfl⟩ := Prod.mk.inj (pure_eq_ok.mp h)
  exact holds_of_insert (holds_of_new hnew) hs₁

variable (percent12g)

theorem destroy_finished (h : impl.stream_.Holds row) :
    destroy percent12g impl = .ok (finished row impl.basename_
      ((Insertion.integer .int impl.line_).piece percent12g)) := by
  obtain ⟨s', hs', hholds⟩ := insert_holds percent12g h
    [.charPtr (bytes " - "), .append impl.basename_, .char (byte ':'),
      .integer .int impl.line_, .char (byte '\n')]
  have hdash : cString (bytes " - ") = bytes " - " := rfl
  have hrow : s'.buffer_.asString = finished row impl.basename_
      ((Insertion.integer .int impl.line_).piece percent12g) := by
    rw [hholds.contents]
    simp only [List.map_cons, List.map_nil, putAll, List.foldl_cons, List.foldl_nil,
      Insertion.piece, hdash, finished, colon, named]
  rw [destroy, finish, hs', ← hrow]
  rfl

theorem destroy_endsLine_iff (h : impl.stream_.Holds row) :
    ∃ record, destroy percent12g impl = .ok record ∧
      (record.getLast? = some (byte '\n') ↔ EndsLine row impl.basename_) := by
  refine ⟨_, destroy_finished percent12g h, getLast?_finished_iff ?_ rfl
    (LogFormat.length_decimalInt_lt _)⟩
  have hcur := h.cur_lt
  rwa [h.length_eq]

variable {percent12g}

/-- Whatever was streamed into a `Logger`, its record ends with the end of a line just when the
room that is left allows for it. -/
theorem record_endsLine_iff {st : Statement D}
    (h : write percent12g strerror tid t st = .ok (t', impl)) :
    ∃ record, destroy percent12g impl = .ok record ∧
      (record.getLast? = some (byte '\n') ↔
        EndsLine impl.stream_.buffer_.asString impl.basename_) := by
  obtain ⟨row, hrow⟩ := holds_of_write h
  rw [hrow.contents]
  exact destroy_endsLine_iff percent12g hrow

end Records

section Sample

/-- A statement of `LOG_INFO` with one text as its message. -/
def infoStatement (text : Bytes) : Statement Unit :=
  { call := .info (bytes "src/a.cc") zeroInt
    now := 1325376000000000
    message := [.append text] }

def infoImpl (s : LogStream) : LoggerImpl :=
  { stream_ := s, level_ := .INFO, line_ := zeroInt, basename_ := bytes "a.cc" }

theorem length_header_info :
    (header sample12g sampleStrerror 1234 1325376000000000 .INFO zeroInt).length = 38 := by
  have hlimit : 1325376000000000 < yearTenThousand := by decide
  have htime : (timeText 1325376000000000).length = 26 := by
    rw [timeText, List.length_append, length_gmtimeText hlimit,
      length_microsecondsText (by omega)]
  have htid : (CurrentThread.tidText 1234).length = 6 := length_tidText_iff.mpr (by omega)
  have hname : (LogLevelName .INFO).length = 6 := by decide
  have hlen : [CurrentThread.tidText 1234, LogLevelName .INFO].flatten.length = 12 := by
    rw [List.flatten_cons, List.flatten_cons, List.flatten_nil, List.append_nil,
      List.length_append, htid, hname]
  have hwhole := putAll_whole kSmallBuffer (timeText 1325376000000000)
    [CurrentThread.tidText 1234, LogLevelName .INFO] (by rw [htime, hlen]; decide)
  have hheader : header sample12g sampleStrerror 1234 1325376000000000 .INFO zeroInt =
      timeText 1325376000000000 ++ [CurrentThread.tidText 1234, LogLevelName .INFO].flatten :=
    hwhole
  rw [hheader, List.length_append, htime, hlen]

/-- What stands in the stream behind a text that fits. -/
theorem write_info (text : Bytes) (h : text.length < 3962) :
    ∃ t' impl row, write sample12g sampleStrerror 1234 ThreadLocal.new (infoStatement text) =
        .ok (t', impl) ∧
      impl.stream_.Holds row ∧ row.length = 38 + text.length ∧ impl.basename_ = bytes "a.cc" := by
  have hprepared : Prepared 1234 1325376000000000 ThreadLocal.new :=
    new_prepared (by omega) (by omega)
  obtain ⟨t', s, hs, -, hholds⟩ := hprepared.implNew_eq sample12g
    sampleStrerror (by omega) (by decide) .INFO zeroInt (bytes "src/a.cc") zeroInt
  obtain ⟨s', hs', hholds'⟩ := insert_holds sample12g hholds [.append text]
  refine ⟨t', infoImpl s', _, ?_, hholds', ?_, rfl⟩
  · have hnew : Logger.new sample12g sampleStrerror 1234 ThreadLocal.new
        (infoStatement text).now (infoStatement text).call = .ok (t', infoImpl s) := hs
    rw [write, hnew, ok_bind]
    change (insert sample12g s [.append text] >>= _) = _
    rw [hs']
    rfl
  · have hfits : Fits kSmallBuffer
        (header sample12g sampleStrerror 1234 1325376000000000 .INFO zeroInt) (.whole text) := by
      rw [fits_whole, length_header_info]
      unfold kSmallBuffer
      omega
    change (put kSmallBuffer _ (.whole text)).length = _
    rw [put_of_fits hfits, List.length_append, length_header_info]
    rfl

theorem record_endsLine_iff_sample : ∃ t' impl record,
    write sample12g sampleStrerror 1234 ThreadLocal.new (infoStatement (bytes "start")) =
      .ok (t', impl) ∧
    destroy sample12g impl = .ok record ∧ record.getLast? = some (byte '\n') := by
  obtain ⟨t', impl, row, hwrite, hholds, hlen, hname⟩ := write_info (bytes "start")
    (by decide)
  obtain ⟨record, hrecord, hiff⟩ := record_endsLine_iff hwrite
  refine ⟨t', impl, record, hwrite, hrecord, hiff.mpr (.inl ?_)⟩
  have htext : (bytes "start").length = 5 := rfl
  have hbase : (bytes "a.cc").length = 4 := rfl
  rw [hholds.contents, hname, roomBehindName, roomBehindDash, room, hlen, htext, hbase]
  decide

/-- The message leaves two bytes, which the colon takes one of. -/
theorem full_record_not_ended :
    ¬ ∀ (t t' : ThreadLocal) (st : Statement Unit) (impl : LoggerImpl),
      write sample12g sampleStrerror 1234 t st = .ok (t', impl) →
      ∃ record, destroy sample12g impl = .ok record ∧ record.getLast? = some (byte '\n') := by
  intro hall
  have htext : (List.replicate 3960 (byte 'a')).length = 3960 := List.length_replicate ..
  have hbase : (bytes "a.cc").length = 4 := rfl
  obtain ⟨t', impl, row, hwrite, hholds, hlen, hname⟩ :=
    write_info (List.replicate 3960 (byte 'a')) (by rw [htext]; omega)
  obtain ⟨record, hrecord, hlast⟩ := hall _ _ _ _ hwrite
  obtain ⟨record', hrecord', hiff⟩ := destroy_endsLine_iff sample12g hholds
  obtain rfl := Except.ok.inj (hrecord'.symm.trans hrecord)
  have hends := hiff.mp hlast
  rw [hname, EndsLine, roomBehindName, roomBehindDash, room, hlen, htext, hbase] at hends
  simp [kSmallBuffer] at hends

end Sample

end MuduoServer.Logger
