import Mathlib.Data.List.DropRight
import Mathlib.Data.List.Induction
import Mathlib.Data.Int.Notation

namespace IDAPlugins.MoreMenu.Toolbar

/-! # The toolbar

`SubWindowProc` draws ten buttons and finds out itself which of them the mouse is on. It
remembers what was pressed last until the action of a click has ended, and the place where the
mouse was seen last. Some of the actions are dialogs, during which messages go on coming in.
-/

def TOOLBARPOS : Int := 0

def TOOLBARNUM : Nat := 10

def getButtonPos (x y : Int) : Int :=
  if x < TOOLBARPOS then
    -1
  else
    let on (i : Nat) : Bool :=
      x < TOOLBARPOS + 0x11 + i * 0x14 && x > TOOLBARPOS + i * 0x14 && y < 0x12 && y > 2
    match (List.range TOOLBARNUM).find? on with
    | some i => i
    | none => -1

inductive Action where
  | openFolder
  | strings
  | asciiTable
  | calculator
  | exportIdc
  | jniEnv
  | initTable
  | applyPatches
  | repairElf
  | closeDatabase
  deriving DecidableEq

/-- The `switch` behind a click. -/
def actionOf (nDownNum : Int) : Action :=
  if nDownNum = 0 then .openFolder
  else if nDownNum = 1 then .strings
  else if nDownNum = 2 then .asciiTable
  else if nDownNum = 3 then .calculator
  else if nDownNum = 4 then .exportIdc
  else if nDownNum = 5 then .jniEnv
  else if nDownNum = 6 then .initTable
  else if nDownNum = 7 then .applyPatches
  else if nDownNum = 8 then .repairElf
  else .closeDatabase

/-- The `switch` of the tips. -/
def tipOf (ntmp : Int) : String :=
  if ntmp = 0 then "打开数据库所在文件夹"
  else if ntmp = 1 then "打开String窗口"
  else if ntmp = 2 then "显示ACSII表"
  else if ntmp = 3 then "打开 计算器"
  else if ntmp = 4 then "将数据导出为IDC"
  else if ntmp = 5 then "打开 JNIEnv函数表"
  else if ntmp = 6 then "打开 中断表"
  else if ntmp = 7 then "将数据库的修改同步到文件上"
  else if ntmp = 8 then "修复ELF文件头"
  else "关闭当前数据库"

/-- The messages of the mouse, `lParam` being a signed number of 32 bits, and the end of the
`switch` behind a click. -/
inductive Message where
  | WM_LBUTTONDOWN (lParam : Int)
  | WM_LBUTTONUP (lParam : Int)
  | WM_MOUSEMOVE (lParam : Int)
  | actionEnds
  | other

def xpos (lParam : Int) : Int := lParam % 65536

def ypos (lParam : Int) : Int := lParam / 65536

def buttonAt (lParam : Int) : Int := getButtonPos (xpos lParam) (ypos lParam)

/-- `tip` is the text in the tooltip. -/
structure State where
  nDownNum : Int
  bDownFlag : Bool
  sxpos : Int
  sypos : Int
  tip : String

def State.start : State where
  nDownNum := 0
  bDownFlag := false
  sxpos := 0
  sypos := 0
  tip := ""

/-- The new state, and what is done. -/
def subWindowProc (state : State) : Message → State × Option Action
  | .WM_LBUTTONDOWN lParam =>
    let nDownNum := buttonAt lParam
    ({ state with nDownNum, bDownFlag := nDownNum ≠ -1 ∨ state.bDownFlag }, none)
  | .WM_LBUTTONUP _ =>
    (state, if state.bDownFlag then some (actionOf state.nDownNum) else none)
  | .WM_MOUSEMOVE lParam =>
    if state.sxpos = xpos lParam ∧ ypos lParam = state.sypos then
      (state, none)
    else
      let tip := if buttonAt lParam ≠ -1 then tipOf (buttonAt lParam) else state.tip
      ({ state with sxpos := xpos lParam, sypos := ypos lParam, tip }, none)
  -- what was pressed during the action is forgotten as well
  | .actionEnds => ({ state with nDownNum := -1, bDownFlag := false }, none)
  | .other => (state, none)

def play (messages : List Message) : State :=
  messages.foldl (fun state message => (subWindowProc state message).1) .start

/-- What a message does behind others. -/
def performed (messages : List Message) (message : Message) : Option Action :=
  (subWindowProc (play messages) message).2

/-- The buttons, or −1, that the mouse button was pressed on. -/
def presses (messages : List Message) : List Int :=
  messages.filterMap fun
    | .WM_LBUTTONDOWN lParam => some (buttonAt lParam)
    | _ => none

def Message.isEnd : Message → Bool
  | .actionEnds => true
  | _ => false

/-- The messages since an action ended. -/
def sinceEnd (messages : List Message) : List Message :=
  messages.rtakeWhile fun message => !message.isEnd

/-- The tip without the test for a place seen before. -/
def plainTip (messages : List Message) : String :=
  messages.foldl
    (fun tip message =>
      match message with
      | .WM_MOUSEMOVE lParam => if buttonAt lParam ≠ -1 then tipOf (buttonAt lParam) else tip
      | _ => tip)
    ""

variable {messages : List Message} {message : Message} {x y : Int}

/-- The buttons lie 20 apart, are 16 wide and 15 high, and do not overlap. -/
theorem getButtonPos_iff (i : Nat) :
    getButtonPos x y = i ↔ i < 10 ∧ 20 * i < x ∧ x < 20 * i + 17 ∧ 2 < y ∧ y < 18 := by
  simp only [getButtonPos]
  have edge : TOOLBARPOS = 0 := rfl
  have buttons : TOOLBARNUM = 10 := rfl
  by_cases left : x < TOOLBARPOS
  · rw [if_pos left]
    exact iff_of_false (by omega) fun right => by omega
  · rw [if_neg left]
    generalize found : List.find? _ _ = place
    cases place with
    | some j =>
      have on := List.find?_some found
      have inside := List.mem_range.mp (List.mem_of_find?_eq_some found)
      simp only [Bool.and_eq_true, decide_eq_true_eq] at on
      constructor
      · intro same
        have : (j : Int) = i := same
        omega
      · intro right
        show (j : Int) = i
        omega
    | none =>
      refine iff_of_false (by simp) fun right => ?_
      have off := List.find?_eq_none.mp found i (List.mem_range.mpr (buttons ▸ right.1))
      simp only [Bool.and_eq_true, decide_eq_true_eq] at off
      omega

theorem getButtonPos_corner : getButtonPos 0 0 = -1 := by decide

theorem play_concat :
    play (messages ++ [message]) = (subWindowProc (play messages) message).1 := by
  simp only [play, List.foldl_append, List.foldl_cons, List.foldl_nil]

theorem sinceEnd_concat :
    sinceEnd (messages ++ [message]) =
      if message.isEnd then [] else sinceEnd messages ++ [message] := by
  simp only [sinceEnd, List.rtakeWhile_concat, Bool.not_eq_true']
  cases message.isEnd <;> rfl

theorem presses_nil : presses [] = [] := rfl

theorem presses_concat :
    presses (messages ++ [message]) =
      match message with
      | .WM_LBUTTONDOWN lParam => presses messages ++ [buttonAt lParam]
      | _ => presses messages := by
  simp only [presses, List.filterMap_append]
  cases message <;> simp

/-- What the state knows of the presses since an action ended. -/
structure Remembers (state : State) (pressed : List Int) : Prop where
  bDownFlag : state.bDownFlag = true ↔ ∃ button ∈ pressed, button ≠ -1
  nDownNum : ∀ button ∈ pressed.getLast?, state.nDownNum = button

/-- A message keeps it, with the presses counted anew once an action ends. -/
theorem Remembers.step {state : State} {pressed : List Int}
    (remembers : Remembers state pressed) (message : Message) :
    Remembers (subWindowProc state message).1
      (match message with
        | .WM_LBUTTONDOWN lParam => pressed ++ [buttonAt lParam]
        | .actionEnds => []
        | _ => pressed) := by
  cases message with
  | WM_LBUTTONDOWN lParam =>
    constructor
    · simp [subWindowProc, remembers.bDownFlag, or_comm, or_and_right, exists_or]
    · simp [subWindowProc]
  | WM_LBUTTONUP lParam => exact remembers
  | WM_MOUSEMOVE lParam =>
    simp only [subWindowProc]
    split
    · exact remembers
    · exact ⟨remembers.bDownFlag, remembers.nDownNum⟩
  | actionEnds => exact ⟨by simp [subWindowProc], fun _ absurd => by simp at absurd⟩
  | other => exact remembers

theorem remembers_play (messages : List Message) :
    Remembers (play messages) (presses (sinceEnd messages)) := by
  induction messages using List.reverseRecOn with
  | nil =>
    refine ⟨?_, fun _ absurd => by simp [sinceEnd, presses] at absurd⟩
    simp [play, State.start, sinceEnd, presses]
  | append_singleton messages message ih =>
    have kept := ih.step message
    rw [play_concat, sinceEnd_concat]
    cases message <;> simpa [Message.isEnd, presses_concat, presses_nil] using kept

/-- Letting the mouse button go, anywhere, does what belongs to the last press since an action
ended, as soon as one of these presses was on a button. The last one may have been beside all
buttons, which closes the database, also while an action is still running. -/
theorem release_performs (messages : List Message) (lParam : Int) :
    performed messages (.WM_LBUTTONUP lParam) =
      if ∃ button ∈ presses (sinceEnd messages), button ≠ -1 then
        (presses (sinceEnd messages)).getLast?.map actionOf
      else none := by
  have remembers := remembers_play messages
  simp only [performed, subWindowProc]
  cases down : (play messages).bDownFlag with
  | false =>
    have none_on : ¬ ∃ button ∈ presses (sinceEnd messages), button ≠ -1 :=
      fun on => by simp [remembers.bDownFlag.mpr on] at down
    rw [if_neg none_on]
    rfl
  | true =>
    have on := remembers.bDownFlag.mp down
    rw [if_pos on]
    obtain ⟨button, pressed, _⟩ := on
    have some_press : presses (sinceEnd messages) ≠ [] := List.ne_nil_of_mem pressed
    have last := List.getLast?_eq_some_getLast some_press
    rw [last, Option.map_some, ← remembers.nDownNum _ (Option.mem_def.mpr last)]
    rfl

theorem plainTip_concat :
    plainTip (messages ++ [message]) =
      match message with
      | .WM_MOUSEMOVE lParam =>
        if buttonAt lParam ≠ -1 then tipOf (buttonAt lParam) else plainTip messages
      | _ => plainTip messages := by
  simp only [plainTip, List.foldl_append, List.foldl_cons, List.foldl_nil]

/-- The tip of the place seen last is up. -/
def State.Shown (state : State) : Prop :=
  getButtonPos state.sxpos state.sypos ≠ -1 →
    state.tip = tipOf (getButtonPos state.sxpos state.sypos)

theorem shown_message {state : State} (shown : state.Shown) (message : Message) :
    (subWindowProc state message).1.Shown := by
  cases message with
  | WM_LBUTTONDOWN lParam => exact shown
  | WM_LBUTTONUP lParam => exact shown
  | WM_MOUSEMOVE lParam =>
    simp only [subWindowProc]
    split
    · exact shown
    · exact fun on => if_pos on
  | actionEnds => exact shown
  | other => exact shown

theorem shown_play (messages : List Message) : (play messages).Shown := by
  induction messages using List.reverseRecOn with
  -- the mouse is taken to start in the corner, which is on no button
  | nil => exact fun on => absurd getButtonPos_corner on
  | append_singleton messages message ih =>
    rw [play_concat]
    exact shown_message ih message

/-- The places the tips pass over, where the mouse was seen last, change no tip. -/
theorem play_tip (messages : List Message) : (play messages).tip = plainTip messages := by
  induction messages using List.reverseRecOn with
  | nil => rfl
  | append_singleton messages message ih =>
    have shown := shown_play messages
    rw [play_concat, plainTip_concat]
    cases message with
    | WM_LBUTTONDOWN lParam => exact ih
    | WM_LBUTTONUP lParam => exact ih
    | WM_MOUSEMOVE lParam =>
      simp only [subWindowProc]
      -- a place seen before is passed over, and its tip is up already
      by_cases same : (play messages).sxpos = xpos lParam ∧ ypos lParam = (play messages).sypos
      · rw [if_pos same]
        rw [State.Shown, same.1, ← same.2] at shown
        by_cases on : buttonAt lParam ≠ -1
        · rw [if_pos on]
          exact shown on
        · rw [if_neg on]
          exact ih
      · rw [if_neg same, ← ih]
    | actionEnds => exact ih
    | other => exact ih

end IDAPlugins.MoreMenu.Toolbar
