import MuduoServer.FaultMachine
import MuduoServer.Validators

/-!
`JFC::JEdit`, an edit of one line in the bank's client. Its keys move an index and change
the text there. DEL erases whether or not a character follows the index, and the
validator sees the text and the new character, not the place; so an edit keeps to its
format in the runs whose steps do.
-/
namespace MuduoServer

open EditedText FaultMachine Validators

def KEY_ENTER : ℤ := 13
def KEY_UP : ℤ := 224 * 2 ^ 8 + 72
def KEY_DOWN : ℤ := 224 * 2 ^ 8 + 80
def KEY_LEFT : ℤ := 224 * 2 ^ 8 + 75
def KEY_RIGHT : ℤ := 224 * 2 ^ 8 + 77
def KEY_DEL : ℤ := 224 * 2 ^ 8 + 83
def KEY_BACK : ℤ := 8
def KEY_TAB : ℤ := 9

/-- `isprint` in the C locale. -/
def isprint (key : ℤ) : Bool := decide (32 ≤ key ∧ key ≤ 126)

/-- `(char)key` -/
def charOf (key : ℤ) : UInt8 := UInt8.ofNat (key % 256).toNat

/-- What the keys and the program read of an edit; `width` is `Width()`. -/
structure JEdit where
  text_ : List UInt8
  currIndex_ : ℤ
  width : ℤ
  validator_ : VALIDATOR

namespace JEdit

/-- A position outside the text. -/
inductive Fault
  | erase
  | insert
  deriving DecidableEq

def new (width : ℤ) (text : List UInt8) (validator : VALIDATOR) : JEdit :=
  { text_ := text, currIndex_ := 0, width := width, validator_ := validator }

def setText (e : JEdit) (text : List UInt8) : JEdit :=
  { e with text_ := text, currIndex_ := text.length }

/-- `text_.erase(text_.begin() + pos)`, which asks for a character there. -/
def erase (text : List UInt8) (pos : ℤ) : Except Fault (List UInt8) := do
  check (0 ≤ pos ∧ pos < text.length) .erase
  pure (text.eraseIdx pos.toNat)

/-- `text_.insert(text_.begin() + pos, 1, ch)` -/
def insert (text : List UInt8) (pos : ℤ) (ch : UInt8) : Except Fault (List UInt8) := do
  check (0 ≤ pos ∧ pos ≤ text.length) .insert
  pure (text.insertIdx pos.toNat ch)

/-- The test of the `default` branch. -/
def accepts (e : JEdit) (key : ℤ) : Bool :=
  decide (key > 0 ∧ key < 256) && isprint key && decide ((e.text_.length : ℤ) < e.width - 1) &&
    e.validator_ e.text_ (charOf key)

/-- The edit after the key, and whether the event is done. An event that is not goes on to
the parent. -/
def onKeyEvent (e : JEdit) (key : ℤ) : Except Fault (JEdit × Bool) :=
  if key = KEY_RIGHT then
    if e.currIndex_ < e.text_.length then .ok ({ e with currIndex_ := e.currIndex_ + 1 }, true)
    else .ok (e, false)
  else if key = KEY_LEFT then
    if e.currIndex_ > 0 then .ok ({ e with currIndex_ := e.currIndex_ - 1 }, true)
    else .ok (e, false)
  else if key = KEY_DEL then do
    let text ← erase e.text_ e.currIndex_
    pure ({ e with text_ := text }, true)
  else if key = KEY_BACK then
    if e.currIndex_ > 0 then do
      let text ← erase e.text_ (e.currIndex_ - 1)
      pure ({ e with text_ := text, currIndex_ := e.currIndex_ - 1 }, true)
    else .ok (e, true)
  else if key = KEY_ENTER ∨ key = KEY_DOWN ∨ key = KEY_TAB ∨ key = KEY_UP then .ok (e, false)
  else if e.accepts key then do
    let text ← insert e.text_ e.currIndex_ (charOf key)
    pure ({ e with text_ := text, currIndex_ := e.currIndex_ + 1 }, true)
  else .ok (e, false)

inductive Event
  | key (code : ℤ)
  | setText (text : List UInt8)

def handle (e : JEdit) : Event → Except Fault JEdit
  | .key code => Prod.fst <$> e.onKeyEvent code
  | .setText text => .ok (e.setText text)

/-- An edit with the validator of `F`, from a text of that format on. -/
def editor (F : Format UInt8) : Machine JEdit Event Fault where
  init e := ∃ width text, F.Text text ∧ e = new width text F.admits
  enabled _ _ := True
  step := handle

/-- The index is in the text or at its end, and the text is of the format. -/
structure Kept (F : Format UInt8) (e : JEdit) : Prop where
  nonneg : 0 ≤ e.currIndex_
  le : e.currIndex_ ≤ e.text_.length
  text : F.Text e.text_
  validator : e.validator_ = F.admits

/-- DEL has a character to erase, what is erased and what is inserted keep the format, and a new
text is of the format. -/
def Meets (F : Format UInt8) (e : JEdit) : Event → Prop
  | .key code =>
    (code = KEY_DEL →
      e.currIndex_ < e.text_.length ∧ F.eraseOk e.text_ e.currIndex_.toNat) ∧
    (code = KEY_BACK → e.currIndex_ > 0 → F.eraseOk e.text_ (e.currIndex_ - 1).toNat) ∧
    (e.accepts code → F.insertOk e.text_ e.currIndex_.toNat (charOf code))
  | .setText text => F.Text text

section Steps

variable {F : Format UInt8} {e : JEdit} {key : ℤ}

theorem not_accepts (h : isprint key = false) : e.accepts key = false := by simp [accepts, h]

/-- An edit that is moved only. -/
theorem Kept.move (h : Kept F e) {i : ℤ} (hi : 0 ≤ i) (hle : i ≤ e.text_.length) :
    Kept F { e with currIndex_ := i } := ⟨hi, hle, h.text, h.validator⟩

theorem Kept.setText_iff (h : Kept F e) (text : List UInt8) :
    Kept F (e.setText text) ↔ F.Text text :=
  ⟨fun h => h.text, fun ht => ⟨by simp [setText], le_of_eq rfl, ht, h.validator⟩⟩

/-- The edit with the character before `i` gone. -/
theorem Kept.erase_iff (h : Kept F e) {i : ℤ} (hi : 0 ≤ i) (hlt : i < e.text_.length) :
    Kept F { e with text_ := e.text_.eraseIdx i.toNat, currIndex_ := i } ↔
      F.eraseOk e.text_ i.toNat := by
  rw [← F.text_eraseIdx_iff h.text (by omega)]
  refine ⟨fun h => h.text, fun ht => ⟨hi, ?_, ht, h.validator⟩⟩
  change i ≤ ((e.text_.eraseIdx i.toNat).length : ℤ)
  rw [List.length_eraseIdx_of_lt (by omega)]
  omega

theorem Kept.insert_iff (h : Kept F e) (hadmits : e.validator_ e.text_ (charOf key)) :
    Kept F { e with text_ := e.text_.insertIdx e.currIndex_.toNat (charOf key)
                    currIndex_ := e.currIndex_ + 1 } ↔
      F.insertOk e.text_ e.currIndex_.toNat (charOf key) := by
  have hnonneg := h.nonneg
  have hle := h.le
  rw [h.validator] at hadmits
  rw [← F.text_insertIdx_iff h.text (by omega) hadmits]
  refine ⟨fun h => h.text, fun ht => ⟨by change 0 ≤ e.currIndex_ + 1; omega, ?_, ht, h.validator⟩⟩
  change e.currIndex_ + 1 ≤ ((e.text_.insertIdx e.currIndex_.toNat (charOf key)).length : ℤ)
  rw [List.length_insertIdx_of_le_length (by omega)]
  omega

/-- The event faults in no way and leaves an edit that keeps to the format. -/
def Keeps (F : Format UInt8) (e : JEdit) (event : Event) : Prop :=
  ∃ e', handle e event = .ok e' ∧ Kept F e'

theorem keeps_iff {event : Event} {e' : JEdit} (h : handle e event = .ok e') :
    Keeps F e event ↔ Kept F e' := by
  rw [Keeps, h]
  simp

theorem erase_eq_ok {text t : List UInt8} {pos : ℤ} :
    erase text pos = .ok t ↔ (0 ≤ pos ∧ pos < text.length) ∧ text.eraseIdx pos.toNat = t := by
  simp [erase]

theorem insert_of {text : List UInt8} {pos : ℤ} {ch : UInt8} (hpos : 0 ≤ pos)
    (hle : pos ≤ text.length) : insert text pos ch = .ok (text.insertIdx pos.toNat ch) := by
  simp [insert, check_of (And.intro hpos hle)]

theorem meets_of_not_edit (hdel : key ≠ KEY_DEL) (hback : key ≠ KEY_BACK)
    (haccepts : e.accepts key = false) : Meets F e (.key key) := by
  simp [Meets, hdel, hback, haccepts]

theorem keeps_right (h : Kept F e) : Keeps F e (.key KEY_RIGHT) ↔ Meets F e (.key KEY_RIGHT) := by
  refine iff_of_true ?_ (meets_of_not_edit (by decide) (by decide) (not_accepts (by decide)))
  have hnonneg := h.nonneg
  by_cases hlt : e.currIndex_ < e.text_.length
  · exact ⟨{ e with currIndex_ := e.currIndex_ + 1 }, by simp [handle, onKeyEvent, hlt],
      h.move (by omega) (by omega)⟩
  · exact ⟨e, by simp [handle, onKeyEvent, hlt], h⟩

theorem keeps_left (h : Kept F e) : Keeps F e (.key KEY_LEFT) ↔ Meets F e (.key KEY_LEFT) := by
  refine iff_of_true ?_ (meets_of_not_edit (by decide) (by decide) (not_accepts (by decide)))
  have hle := h.le
  have hkey : KEY_LEFT ≠ KEY_RIGHT := by decide
  by_cases hpos : e.currIndex_ > 0
  · exact ⟨{ e with currIndex_ := e.currIndex_ - 1 }, by simp [handle, onKeyEvent, hkey, hpos],
      h.move (by omega) (by omega)⟩
  · exact ⟨e, by simp [handle, onKeyEvent, hkey, hpos], h⟩

theorem handle_del {e' : JEdit} : handle e (.key KEY_DEL) = .ok e' ↔
    (0 ≤ e.currIndex_ ∧ e.currIndex_ < e.text_.length) ∧
      { e with text_ := e.text_.eraseIdx e.currIndex_.toNat } = e' := by
  have hkeys : KEY_DEL ≠ KEY_RIGHT ∧ KEY_DEL ≠ KEY_LEFT := by decide
  simp only [handle, onKeyEvent, hkeys, if_false, if_true, map_eq_ok, bind_eq_ok, erase_eq_ok,
    pure_eq_ok]
  constructor
  · rintro ⟨r, ⟨text, ⟨hat, rfl⟩, rfl⟩, rfl⟩
    exact ⟨hat, rfl⟩
  · rintro ⟨hat, rfl⟩
    exact ⟨_, ⟨_, ⟨hat, rfl⟩, rfl⟩, rfl⟩

theorem keeps_del (h : Kept F e) : Keeps F e (.key KEY_DEL) ↔ Meets F e (.key KEY_DEL) := by
  have haccepts : e.accepts KEY_DEL = false := not_accepts (by decide)
  have hback : KEY_DEL ≠ KEY_BACK := by decide
  simp only [Meets, hback, haccepts, forall_const, false_imp_iff, Bool.false_eq_true, and_true]
  by_cases hlt : e.currIndex_ < e.text_.length
  · rw [keeps_iff (handle_del.mpr ⟨⟨h.nonneg, hlt⟩, rfl⟩), and_iff_right hlt]
    exact h.erase_iff h.nonneg hlt
  · refine iff_of_false ?_ fun hmeets => hlt hmeets.1
    rintro ⟨e', he', -⟩
    exact hlt (handle_del.mp he').1.2

theorem keeps_back (h : Kept F e) : Keeps F e (.key KEY_BACK) ↔ Meets F e (.key KEY_BACK) := by
  have hle := h.le
  have haccepts : e.accepts KEY_BACK = false := not_accepts (by decide)
  have hdel : KEY_BACK ≠ KEY_DEL := by decide
  have hkeys : KEY_BACK ≠ KEY_RIGHT ∧ KEY_BACK ≠ KEY_LEFT := by decide
  simp only [Meets, hdel, haccepts, forall_const, false_imp_iff, Bool.false_eq_true, and_true,
    true_and]
  by_cases hpos : e.currIndex_ > 0
  · have hat : 0 ≤ e.currIndex_ - 1 ∧ e.currIndex_ - 1 < e.text_.length := by omega
    have hstep : handle e (.key KEY_BACK) = .ok { e with
        text_ := e.text_.eraseIdx (e.currIndex_ - 1).toNat, currIndex_ := e.currIndex_ - 1 } := by
      simp [handle, onKeyEvent, hkeys, hdel, hpos, erase_eq_ok.mpr ⟨hat, rfl⟩]
    rw [keeps_iff hstep]
    simpa [hpos] using h.erase_iff hat.1 hat.2
  · refine iff_of_true ⟨e, ?_, h⟩ fun hpos' => absurd hpos' hpos
    simp [handle, onKeyEvent, hkeys, hdel, hpos]

/-- The keys that the edit itself has no use for, and the characters. -/
theorem keeps_other (h : Kept F e) (hright : key ≠ KEY_RIGHT) (hleft : key ≠ KEY_LEFT)
    (hdel : key ≠ KEY_DEL) (hback : key ≠ KEY_BACK) :
    Keeps F e (.key key) ↔ Meets F e (.key key) := by
  by_cases hpass : key = KEY_ENTER ∨ key = KEY_DOWN ∨ key = KEY_TAB ∨ key = KEY_UP
  · have hprint : isprint key = false := by rcases hpass with rfl | rfl | rfl | rfl <;> decide
    refine iff_of_true ⟨e, ?_, h⟩ (meets_of_not_edit hdel hback (not_accepts hprint))
    simp [handle, onKeyEvent, hright, hleft, hdel, hback, hpass]
  · by_cases haccepts : e.accepts key
    · have hvalid : e.validator_ e.text_ (charOf key) := by
        simp only [accepts, Bool.and_eq_true] at haccepts
        exact haccepts.2
      have hstep : handle e (.key key) = .ok { e with
          text_ := e.text_.insertIdx e.currIndex_.toNat (charOf key)
          currIndex_ := e.currIndex_ + 1 } := by
        simp [handle, onKeyEvent, hright, hleft, hdel, hback, hpass, haccepts,
          insert_of h.nonneg h.le]
      rw [keeps_iff hstep, h.insert_iff hvalid]
      simp [Meets, hdel, hback, haccepts]
    · refine iff_of_true ⟨e, ?_, h⟩ (meets_of_not_edit hdel hback (by simpa using haccepts))
      simp [handle, onKeyEvent, hright, hleft, hdel, hback, hpass, haccepts]

theorem keeps_iff_meets (h : Kept F e) (event : Event) : Keeps F e event ↔ Meets F e event := by
  cases event with
  | setText text =>
    have hstep : handle e (.setText text) = .ok (e.setText text) := rfl
    rw [keeps_iff hstep]
    exact h.setText_iff text
  | key key =>
    by_cases hright : key = KEY_RIGHT
    · exact hright ▸ keeps_right h
    by_cases hleft : key = KEY_LEFT
    · exact hleft ▸ keeps_left h
    by_cases hdel : key = KEY_DEL
    · exact hdel ▸ keeps_del h
    by_cases hback : key = KEY_BACK
    · exact hback ▸ keeps_back h
    exact keeps_other h hright hleft hdel hback

end Steps

/-- What an edit is for. Under `plain` nothing is asked of the text. -/
inductive Use
  | plain (validator : VALIDATOR)
  | name
  | pass
  | id
  | accountId
  | money
  | date

def Use.format : Use → Format UInt8
  | .plain validator => .any validator
  | .name => nameFormat
  | .pass => passFormat
  | .id => idFormat
  | .accountId => accountIdFormat
  | .money => moneyFormat
  | .date => dateFormat

def Use.validator : Use → VALIDATOR
  | .plain validator => validator
  | .name => validateName
  | .pass => validatePass
  | .id => validateId
  | .accountId => validateAccountId
  | .money => validateMoney
  | .date => validateDate

/-- The format of a use comes with the check of its validator. -/
theorem Use.format_admits (use : Use) : use.format.admits = use.validator := by
  cases use with
  | pass =>
    funext str ch
    exact Bool.and_true _
  | _ => rfl

theorem Use.insert_end (use : Use) (text : List UInt8) (ch : UInt8) :
    use.format.insertOk text text.length ch := by
  cases use with
  | id => exact idInsert_end text ch
  | money => exact moneyInsert_end text ch
  | _ => trivial

theorem Use.erase_end (use : Use) {front : List UInt8} {ch : UInt8}
    (h : use.format.Text (front ++ [ch])) : use.format.eraseOk (front ++ [ch]) front.length := by
  cases use with
  | id => exact idErase_end
  | money => exact moneyErase_end h
  | _ => trivial

/-- At the end of the text just DEL does not meet the conditions: what the validators leave open
are the other places. -/
theorem meets_at_end (use : Use) {e : JEdit} {key : ℤ} (h : Kept use.format e)
    (hend : e.currIndex_ = e.text_.length) (hdel : key ≠ KEY_DEL) :
    Meets use.format e (.key key) := by
  refine ⟨fun hkey => absurd hkey hdel, fun _ hpos => ?_, fun _ => ?_⟩
  · rcases List.eq_nil_or_concat' e.text_ with hnil | ⟨front, ch, htext⟩
    · simp [hend, hnil] at hpos
    · have hfront : (e.currIndex_ - 1).toNat = front.length := by simp [hend, htext]
      rw [hfront, htext]
      exact use.erase_end (htext ▸ h.text)
  · rw [hend, Int.toNat_natCast]
    exact use.insert_end e.text_ _

theorem init_kept {F : Format UInt8} {e : JEdit} (h : (editor F).init e) : Kept F e := by
  obtain ⟨width, text, htext, rfl⟩ := h
  exact ⟨le_rfl, Int.natCast_nonneg _, htext, rfl⟩

theorem step_kept {F : Format UInt8} {e e' : JEdit} {event : Event} (h : Kept F e)
    (hmeets : Meets F e event) (hstep : handle e event = .ok e') : Kept F e' :=
  (keeps_iff hstep).mp ((keeps_iff_meets h event).mpr hmeets)

/-- In the runs whose steps meet the conditions the index and the text are always right, and
the next step leaves them so just if it meets them as well. -/
theorem edits_kept (use : Use) {e : JEdit}
    (h : ((editor use.format).restrict (Meets use.format)).Reachable e) :
    Kept use.format e ∧ ∀ event, Keeps use.format e event ↔ Meets use.format e event := by
  have hkept : Kept use.format e := by
    refine Machine.Reachable.invariant ?_ ?_ h
    · exact fun s hs => init_kept hs
    · rintro s a s' hs ⟨-, hmeets⟩ hstep
      exact step_kept hs hmeets hstep
  exact ⟨hkept, keeps_iff_meets hkept⟩

/-- The events of typing a text. -/
def typed (text : String) : List Event := text.toList.map fun c => .key c.toNat

instance (F : Format UInt8) (e : JEdit) (event : Event) : Decidable ((editor F).enabled e event) :=
  inferInstanceAs (Decidable True)

/-- A point behind a digit, typed by a run that meets the conditions. -/
theorem edits_kept_typed :
    ∃ e, Kept moneyFormat e ∧ e.text_ = bytes "7." ∧ ¬ Keeps moneyFormat e (.key KEY_DEL) := by
  let e₀ : JEdit := new 21 [] validateMoney
  let e₁ : JEdit := { e₀ with text_ := bytes "7", currIndex_ := 1 }
  let e₂ : JEdit := { e₀ with text_ := bytes "7.", currIndex_ := 2 }
  have hinit : (editor moneyFormat).init e₀ := ⟨21, [], Or.inl ⟨by simp [AllDigits], by simp⟩, rfl⟩
  have h₁ : Meets moneyFormat e₀ (.key 55) :=
    meets_at_end .money (init_kept hinit) rfl (by decide)
  have h₂ : Meets moneyFormat e₁ (.key 46) :=
    meets_at_end .money (step_kept (init_kept hinit) h₁ rfl) rfl (by decide)
  have hrun : ((editor moneyFormat).restrict (Meets moneyFormat)).Run e₀ [.key 55, .key 46] e₂ :=
    .cons ⟨trivial, h₁⟩ rfl (.cons ⟨trivial, h₂⟩ rfl (.nil e₂))
  obtain ⟨hkept, hnext⟩ := edits_kept .money ⟨e₀, _, hinit, hrun⟩
  refine ⟨e₂, hkept, rfl, fun hkeeps => ?_⟩
  exact absurd (((hnext _).mp hkeeps).1 rfl).1 (by decide)

/-- DEL erases behind the end of an empty text. Nine digits get in front of the point, and an `x`
comes into the seventeenth place. -/
theorem edits_not_kept :
    handle (new 21 [] validateMoney) (.key KEY_DEL) = .error .erase ∧
    (∃ e, (editor moneyFormat).Run (new 21 [] validateMoney)
        (typed "12345678." ++ List.replicate 9 (.key KEY_LEFT) ++ typed "9") e ∧
      e.text_ = bytes "912345678." ∧ ¬ MoneyText e.text_) ∧
    (∃ e, (editor idFormat).Run (new 21 [] validateId)
        (typed "12345678901234567x" ++ [.key KEY_LEFT, .key KEY_BACK]) e ∧
      e.text_ = bytes "1234567890123456x" ∧ ¬ IdText e.text_) := by
  refine ⟨rfl, ?_, ?_⟩
  · refine ⟨{ new 21 (bytes "912345678.") validateMoney with currIndex_ := 1 },
      Machine.run_of_execute _ rfl, rfl, ?_⟩
    rw [show (new 21 (bytes "912345678.") validateMoney).text_ =
      bytes "912345678" ++ dot :: [] from rfl, moneyText_point (by decide)]
    exact fun h => absurd h.2.2.1 (by decide)
  · refine ⟨{ new 21 (bytes "1234567890123456x") validateId with currIndex_ := 16 },
      Machine.run_of_execute _ rfl, rfl, ?_⟩
    rw [show (new 21 (bytes "1234567890123456x") validateId).text_ =
      bytes "1234567890123456" ++ [byte 'x'] from rfl, idText_snoc]
    rintro ⟨-, ⟨hdigit, -⟩ | ⟨-, hlen⟩⟩
    · exact absurd hdigit (by decide)
    · exact absurd hlen (by decide)

end JEdit

end MuduoServer
