import Mathlib.Data.List.Basic
import Mathlib.Algebra.Order.Group.Nat
import Mathlib.Algebra.Group.Nat.Even

namespace IDAPlugins.MoreMenu

/-! # The list with check marks

The list box of the dialog keeps the check mark of a row in its item data. A click selects
a row; on the selected row it turns the check mark, as the space bar does. The right mouse
button turns all of them, where that is enabled.
-/

def FLATCHECKS : Nat := 0x01

def CHECKALL : Nat := 0x02

structure ListBox where
  itemData : List Nat
  curSel : Option Nat
  userData : Nat

/-- What the list box handles before the system does, with what the system then selects. -/
inductive ListMessage where
  | WM_CHAR (ch : Nat)
  /-- The row nearest to the mouse, and whether the mouse is outside the list box. -/
  | WM_LBUTTONDOWN (nIndex : Nat) (fNonClient fDoubleClick : Bool) (selected : Option Nat)
  | WM_RBUTTONDOWN
  /-- The arrow keys and other ways to select a row. -/
  | select (selected : Option Nat)

def ListBox.getCheckState (list : ListBox) (nIndex : Nat) : Nat :=
  list.itemData.getD nIndex 0

def ListBox.setCheckState (list : ListBox) (nIndex fCheck : Nat) : ListBox :=
  { list with itemData := list.itemData.set nIndex fCheck }

def ListBox.invert (list : ListBox) (nIndex : Nat) : ListBox :=
  list.setCheckState nIndex (if list.getCheckState nIndex = 0 then 1 else 0)

def listBoxOnChar (list : ListBox) (ch : Nat) : ListBox :=
  if ch = 0x20 then
    match list.curSel with
    | some nIndex => list.invert nIndex
    | none => list
  else list

def listBoxOnLButtonDown (list : ListBox) (nIndex : Nat) (fNonClient fDoubleClick : Bool) : ListBox :=
  if !fNonClient && (some nIndex == list.curSel || fDoubleClick) then list.invert nIndex else list

def listBoxOnRButtonDown (list : ListBox) : ListBox :=
  if list.userData &&& CHECKALL ≠ 0 then
    let nCheckCount := list.itemData.countP (· ≠ 0)
    let bCheck := if nCheckCount ≠ list.itemData.length then 1 else 0
    { list with itemData := list.itemData.map fun _ => bCheck }
  else list

def listBoxProc (list : ListBox) : ListMessage → ListBox
  | .WM_CHAR ch => listBoxOnChar list ch
  | .WM_LBUTTONDOWN nIndex fNonClient fDoubleClick selected =>
    { listBoxOnLButtonDown list nIndex fNonClient fDoubleClick with curSel := selected }
  | .WM_RBUTTONDOWN => listBoxOnRButtonDown list
  | .select selected => { list with curSel := selected }

/-- `LBCM_FLATCHECKS` -/
def ListBox.setFlatStyleChecks (list : ListBox) (fFlat : Bool) : ListBox :=
  { list with
    userData := if fFlat then list.userData ||| FLATCHECKS else list.userData &&& (4294967295 - FLATCHECKS) }

/-- The row whose check mark a message turns. -/
def ListBox.turned (list : ListBox) : ListMessage → Option Nat
  | .WM_CHAR ch => if ch = 0x20 then list.curSel else none
  | .WM_LBUTTONDOWN nIndex fNonClient fDoubleClick _ =>
    if !fNonClient && (some nIndex == list.curSel || fDoubleClick) then some nIndex else none
  | _ => none

/-- The rows whose check marks messages turn, one after the other. -/
def ListBox.turns (list : ListBox) : List ListMessage → List Nat
  | [] => []
  | message :: rest => (list.turned message).toList ++ (listBoxProc list message).turns rest

variable {list : ListBox} {i : Nat}

theorem invert_length (nIndex : Nat) : (list.invert nIndex).itemData.length = list.itemData.length :=
  List.length_set

theorem listBoxProc_length (message : ListMessage) :
    (listBoxProc list message).itemData.length = list.itemData.length := by
  cases message with
  | WM_CHAR ch =>
    simp only [listBoxProc, listBoxOnChar]
    split
    · cases list.curSel with
      | some nIndex => exact invert_length nIndex
      | none => rfl
    · rfl
  | WM_LBUTTONDOWN nIndex fNonClient fDoubleClick selected =>
    simp only [listBoxProc, listBoxOnLButtonDown]
    split
    · exact invert_length nIndex
    · rfl
  | WM_RBUTTONDOWN =>
    simp only [listBoxProc, listBoxOnRButtonDown]
    split
    · exact List.length_map _
    · rfl
  | select selected => rfl

theorem listBoxProc_userData (message : ListMessage) :
    (listBoxProc list message).userData = list.userData := by
  cases message with
  | WM_CHAR ch =>
    simp only [listBoxProc, listBoxOnChar]
    split
    · cases list.curSel <;> rfl
    · rfl
  | WM_LBUTTONDOWN nIndex fNonClient fDoubleClick selected =>
    simp only [listBoxProc, listBoxOnLButtonDown]
    split <;> rfl
  | WM_RBUTTONDOWN =>
    simp only [listBoxProc, listBoxOnRButtonDown]
    split <;> rfl
  | select selected => rfl

/-- Without `CHECKALL` a message changes the row it turns, if any, and no other. -/
theorem listBoxProc_itemData (single : list.userData &&& CHECKALL = 0) (message : ListMessage) :
    (listBoxProc list message).itemData =
      match list.turned message with
      | some nIndex => (list.invert nIndex).itemData
      | none => list.itemData := by
  cases message with
  | WM_CHAR ch =>
    simp only [listBoxProc, listBoxOnChar, ListBox.turned]
    split
    · cases list.curSel <;> rfl
    · rfl
  | WM_LBUTTONDOWN nIndex fNonClient fDoubleClick selected =>
    simp only [listBoxProc, listBoxOnLButtonDown, ListBox.turned]
    split <;> rfl
  | WM_RBUTTONDOWN =>
    simp only [listBoxProc, listBoxOnRButtonDown, ListBox.turned]
    rw [if_neg (not_not.mpr single)]
  | select selected => rfl

theorem invert_getCheckState (inside : i < list.itemData.length) (nIndex : Nat) :
    (list.invert nIndex).getCheckState i ≠ 0 ↔
      (list.getCheckState i ≠ 0 ↔ nIndex ≠ i) := by
  simp only [ListBox.invert, ListBox.setCheckState, ListBox.getCheckState,
    List.getD_eq_getElem?_getD, List.getElem?_set]
  by_cases same : nIndex = i
  · subst same
    rw [if_pos rfl, if_pos inside, Option.getD_some]
    split <;> simp_all
  · rw [if_neg same]
    simp [same]

/-- Without `CHECKALL` a row is checked behind some messages if it was checked before and was
turned an even number of times, or the other way round. -/
theorem listBox_checked_iff (single : list.userData &&& CHECKALL = 0)
    (inside : i < list.itemData.length) (messages : List ListMessage) :
    (messages.foldl listBoxProc list).getCheckState i ≠ 0 ↔
      (list.getCheckState i ≠ 0 ↔ Even ((list.turns messages).count i)) := by
  induction messages generalizing list with
  | nil => simp [ListBox.turns]
  | cons message rest ih =>
    have single' : (listBoxProc list message).userData &&& CHECKALL = 0 := by
      rwa [listBoxProc_userData]
    have inside' : i < (listBoxProc list message).itemData.length := by
      rwa [listBoxProc_length]
    have data := listBoxProc_itemData single message
    rw [List.foldl_cons, ih single' inside', ListBox.turns, List.count_append]
    have state : (listBoxProc list message).getCheckState i ≠ 0 ↔
        (list.getCheckState i ≠ 0 ↔ Even ((list.turned message).toList.count i)) := by
      rw [ListBox.getCheckState, data]
      cases list.turned message with
      | none => simp [ListBox.getCheckState]
      | some nIndex =>
        have turned := invert_getCheckState inside nIndex
        rw [ListBox.getCheckState] at turned
        rw [turned, Option.toList_some, List.count_singleton]
        by_cases same : nIndex = i <;> simp [same]
    rw [state, Nat.even_add]
    tauto

-- Selected by a click, turned by the space bar and turned back by a double click.
example :
    ([.WM_LBUTTONDOWN 1 false false (some 1), .WM_CHAR 0x20, .WM_RBUTTONDOWN,
        .WM_LBUTTONDOWN 1 false true (some 1)].foldl listBoxProc
          { itemData := [0, 1], curSel := none, userData := FLATCHECKS }).getCheckState 1 = 1 := by
  decide

end IDAPlugins.MoreMenu
