import IDAPlugins.MoreMenu.CalcDlg
import IDAPlugins.Transition
import Mathlib.Tactic.Basic

namespace IDAPlugins.MoreMenu.CalcDlg

/-! # Sessions with the calculator

`CalcDlgProc` has no button that calculates: a panel is calculated again with every
notification of its operand boxes. The radio buttons send none to it, so that a panel
goes on showing the result of the mode in which it was calculated last.
-/

structure Calculator where
  dialog : Dialog
  /-- The modes in which the panels were calculated last. No step reads it. -/
  mode : Panel → Option Bool

inductive CalcEvent where
  | ssMode (dec : Bool)
  | ljMode (dec : Bool)
  /-- A box takes the focus or loses it, for example. -/
  | notify (panel : Panel)
  | input (panel : Panel) (operand : Operand) (number : Int) (typed : List UInt8)

def Dialog.dec (dialog : Dialog) (panel : Panel) : Bool :=
  if panel.arithmetic then dialog.ssDec else dialog.ljDec

def Dialog.inMode (dialog : Dialog) (dec : Bool) : Dialog :=
  { dialog with ssDec := dec, ljDec := dec }

def Dialog.input (dialog : Dialog) (panel : Panel) (operand : Operand) (number : Int)
    (typed : List UInt8) : Dialog :=
  { dialog with
    number := fun other box =>
      if other = panel ∧ box = operand then number else dialog.number other box
    typed := fun other box =>
      if other = panel ∧ box = operand then typed else dialog.typed other box }

def Calculator.calculate (calculator : Calculator) (panel : Panel) : Calculator where
  dialog := panel.run calculator.dialog
  mode other := if other = panel then some (calculator.dialog.dec panel) else calculator.mode other

/-- The panel NOT has no second box. -/
def Calculator.step (calculator : Calculator) : CalcEvent → Option Calculator
  | .ssMode dec =>
    some { calculator with dialog := { calculator.dialog with ssDec := dec } }
  | .ljMode dec =>
    some { calculator with dialog := { calculator.dialog with ljDec := dec } }
  | .notify panel => some (calculator.calculate panel)
  | .input panel operand number typed =>
    if panel = .not ∧ operand = .num2 then none
    else
      let dialog := calculator.dialog.input panel operand number typed
      some ({ calculator with dialog }.calculate panel)

/-- `Dlg_Init` checks both decimal buttons; the boxes are empty. -/
def calcSessions : Transition.System Calculator CalcEvent where
  initial calculator :=
    calculator.dialog = { ssDec := true, ljDec := true, number := fun _ _ => 0
                          typed := fun _ _ => [], shown := fun _ _ => [] } ∧
      calculator.mode = fun _ => none
  step := Calculator.step

def anyCalc (_ : Calculator) (_ : CalcEvent) : Bool :=
  true

variable {dialog other : Dialog} {panel target : Panel} {value : BitVec 32} {dec : Bool}

/-- The two dialogs have the same operands for a panel, and the same mode. -/
structure Dialog.Alike (panel : Panel) (dialog other : Dialog) : Prop where
  dec : dialog.dec panel = other.dec panel
  number : dialog.number panel = other.number panel
  typed : dialog.typed panel = other.typed panel

/-- A number is put into the result boxes of a panel. -/
def Dialog.put (dialog : Dialog) (panel : Panel) (value : BitVec 32) : Dialog :=
  if panel.arithmetic then dialog.reportUnsigned panel value else dialog.report panel value

theorem put_logic (logic : panel.arithmetic = false) :
    dialog.put panel value = dialog.report panel value := by
  rw [Dialog.put, logic]
  rfl

/-- What a panel does with the result boxes: a number is put into those of one panel, or
nothing is. -/
def Dialog.take (dialog : Dialog) : Option (Panel × BitVec 32) → Dialog
  | none => dialog
  | some (target, value) => dialog.put target value

theorem Dialog.Alike.int (alike : Dialog.Alike panel dialog other) (operand : Operand) :
    other.getDlgItemInt panel operand = dialog.getDlgItemInt panel operand := by
  rw [Dialog.getDlgItemInt, Dialog.getDlgItemInt, alike.number]

theorem Dialog.Alike.text (alike : Dialog.Alike panel dialog other) (operand : Operand) :
    other.getDlgItemText panel operand = dialog.getDlgItemText panel operand := by
  rw [Dialog.getDlgItemText, Dialog.getDlgItemText, alike.typed]

theorem Dialog.Alike.ssDec (alike : Dialog.Alike panel dialog other)
    (arithmetic : panel.arithmetic = true) : other.ssDec = dialog.ssDec := by
  simpa only [Dialog.dec, arithmetic, if_true] using alike.dec.symm

theorem Dialog.Alike.ljDec (alike : Dialog.Alike panel dialog other)
    (logic : panel.arithmetic = false) : other.ljDec = dialog.ljDec := by
  simpa only [Dialog.dec, logic, Bool.false_eq_true, if_false] using alike.dec.symm

/-- What a panel does on dialogs that are alike to it. -/
def Settles (panel : Panel) (run : Dialog → Dialog) : Prop :=
  ∀ dialog, ∃ outcome : Option (Panel × BitVec 32),
    (∀ entry ∈ outcome, entry.1 = panel ∨ panel = .shr ∧ entry.1 = .or) ∧
      ∀ other, Dialog.Alike panel dialog other → run other = other.take outcome

theorem settles_own {run : Dialog → Dialog} (number : Dialog → BitVec 32)
    (runs : ∀ dialog other, Dialog.Alike panel dialog other → run other = other.put panel (number dialog)) :
    Settles panel run := by
  intro dialog
  refine ⟨some (panel, number dialog), fun entry same => .inl ?_, runs dialog⟩
  rw [← Option.mem_some.mp same]

theorem ssys_settles {sum : BitVec 64 → BitVec 64 → BitVec 64}
    {hex : BitVec 32 → BitVec 32 → BitVec 32} (arithmetic : panel.arithmetic = true) :
    Settles panel (ssys panel sum hex) := by
  refine settles_own (fun dialog =>
    if dialog.ssDec then
      low (sum (widen (dialog.getDlgItemInt panel .num1)) (widen (dialog.getDlgItemInt panel .num2)))
    else
      hex (hexToDec (hexCharUpper (dialog.getDlgItemText panel .num1)))
        (hexToDec (hexCharUpper (dialog.getDlgItemText panel .num2)))) fun dialog other alike => ?_
  simp only [ssys, alike.ssDec arithmetic, alike.int, alike.text, Dialog.put, arithmetic, if_true]
  cases dialog.ssDec <;> rfl

theorem ssysGuarded_settles {sum : BitVec 64 → BitVec 64 → BitVec 64}
    {hex : BitVec 32 → BitVec 32 → BitVec 32} (arithmetic : panel.arithmetic = true) :
    Settles panel (ssysGuarded panel sum hex) := by
  intro dialog
  let outcome : Option (BitVec 32) :=
    if dialog.ssDec then
      if BitVec.slt 0 (widen (dialog.getDlgItemInt panel .num2)) then
        some (low (sum (widen (dialog.getDlgItemInt panel .num1))
          (widen (dialog.getDlgItemInt panel .num2))))
      else none
    else
      if BitVec.ult 0 (hexToDec (hexCharUpper (dialog.getDlgItemText panel .num2))) then
        some (hex (hexToDec (hexCharUpper (dialog.getDlgItemText panel .num1)))
          (hexToDec (hexCharUpper (dialog.getDlgItemText panel .num2))))
      else none
  refine ⟨outcome.map (panel, ·), fun entry same => .inl ?_, fun other alike => ?_⟩
  · obtain ⟨value, -, rfl⟩ := Option.map_eq_some_iff.mp same
    rfl
  · simp only [ssysGuarded, alike.ssDec arithmetic, alike.int, alike.text, outcome]
    split
    · split
      · simp only [Option.map_some, Dialog.take, Dialog.put, arithmetic, if_true]
      · rfl
    · split
      · simp only [Option.map_some, Dialog.take, Dialog.put, arithmetic, if_true]
      · rfl

theorem ljys_settles {prepare : List UInt8 → List UInt8} {join : BitVec 64 → BitVec 64 → BitVec 64}
    {hex : BitVec 32 → BitVec 32 → BitVec 32} (logic : panel.arithmetic = false) :
    Settles panel (ljys panel prepare join hex) := by
  refine settles_own (fun dialog =>
    if dialog.ljDec then
      low (join (widen (dialog.getDlgItemInt panel .num1)) (widen (dialog.getDlgItemInt panel .num2)))
    else
      hex (hexToDec (prepare (dialog.getDlgItemText panel .num1)))
        (hexToDec (prepare (dialog.getDlgItemText panel .num2)))) fun dialog other alike => ?_
  simp only [ljys, alike.ljDec logic, alike.int, alike.text, put_logic logic]
  cases dialog.ljDec <;> rfl

theorem ljysNot_settles : Settles .not ljysNot := by
  refine settles_own (fun dialog =>
    if dialog.ljDec then low (~~~widen (dialog.getDlgItemInt .not .num1))
    else ~~~hexToDec (hexCharUpper (dialog.getDlgItemText .not .num1))) fun dialog other alike => ?_
  have logic : Panel.not.arithmetic = false := rfl
  simp only [ljysNot, alike.ljDec logic, alike.int, alike.text, put_logic logic]
  cases dialog.ljDec with
  | true => simp only [if_true]
  | false => simp only [Bool.false_eq_true, if_false]

theorem ljysShr_settles : Settles .shr ljysShr := by
  intro dialog
  cases mode : dialog.ljDec with
  | true =>
    refine ⟨some (.or, low ((widen (dialog.getDlgItemInt .shr .num1)).sshiftRight'
      (widen (dialog.getDlgItemInt .shr .num2)))), fun entry same => .inr ⟨rfl, ?_⟩,
      fun other alike => ?_⟩
    · rw [← Option.mem_some.mp same]
    · have logic : Panel.or.arithmetic = false := rfl
      simp only [ljysShr, alike.ljDec rfl, mode, alike.int, if_true, Dialog.take, put_logic logic]
  | false =>
    refine ⟨some (.shr, hexToDec (hexCharUpper (dialog.getDlgItemText .shr .num1)) >>>
      hexToDec (hexCharUpper (dialog.getDlgItemText .shr .num2))), fun entry same => .inl ?_,
      fun other alike => ?_⟩
    · rw [← Option.mem_some.mp same]
    · have logic : Panel.shr.arithmetic = false := rfl
      simp only [ljysShr, alike.ljDec rfl, mode, alike.text, Bool.false_eq_true, if_false,
        Dialog.take, put_logic logic]

theorem run_settles (panel : Panel) : Settles panel panel.run := by
  cases panel with
  | add => exact ssys_settles rfl
  | sub => exact ssys_settles rfl
  | mul => exact ssys_settles rfl
  | div => exact ssysGuarded_settles rfl
  | mod => exact ssysGuarded_settles rfl
  | xor => exact ljys_settles rfl
  | and => exact ljys_settles rfl
  | or => exact ljys_settles rfl
  | not => exact ljysNot_settles
  | shl => exact ljys_settles rfl
  | shr => exact ljysShr_settles

theorem put_frame (panel : Panel) (other : Panel) (apart : other ≠ panel) :
    (dialog.put panel value).shown other = dialog.shown other := by
  funext column
  unfold Dialog.put
  split
  · simp only [Dialog.reportUnsigned, Dialog.report, Dialog.setDlgItemText, apart, false_and, if_false]
  · simp only [Dialog.report, Dialog.setDlgItemText, apart, false_and, if_false]

/-- The boxes that a number is put into depend on it only, and the third one of a panel
without three is left. -/
theorem put_shown (same : dialog.shown panel = other.shown panel) :
    (dialog.put panel value).shown panel = (other.put panel value).shown panel := by
  funext column
  have column := congrFun same column
  unfold Dialog.put
  split
  · simp only [Dialog.reportUnsigned, Dialog.report, Dialog.setDlgItemText, column]
  · simp only [Dialog.report, Dialog.setDlgItemText, column]

theorem put_put : ((dialog.put panel value).put panel value).shown panel =
    (dialog.put panel value).shown panel := by
  funext column
  unfold Dialog.put
  split
  · simp only [Dialog.reportUnsigned, Dialog.report, Dialog.setDlgItemText]
    split_ifs <;> rfl
  · simp only [Dialog.report, Dialog.setDlgItemText]
    split_ifs <;> rfl

theorem put_alike (panel : Panel) : Dialog.Alike panel dialog (dialog.put target value) := by
  unfold Dialog.put
  split
  · exact ⟨rfl, rfl, rfl⟩
  · exact ⟨rfl, rfl, rfl⟩

theorem take_alike (outcome : Option (Panel × BitVec 32)) (panel : Panel) :
    Dialog.Alike panel dialog (dialog.take outcome) := by
  cases outcome with
  | none => exact ⟨rfl, rfl, rfl⟩
  | some entry => exact put_alike panel

theorem take_shown (outcome : Option (Panel × BitVec 32)) (same : dialog.shown panel = other.shown panel) :
    (dialog.take outcome).shown panel = (other.take outcome).shown panel := by
  cases outcome with
  | none => exact same
  | some entry =>
    obtain ⟨target, value⟩ := entry
    by_cases own : panel = target
    · subst own
      exact put_shown same
    · simp only [Dialog.take, put_frame _ _ own, same]

theorem take_take (outcome : Option (Panel × BitVec 32)) (panel : Panel) :
    ((dialog.take outcome).take outcome).shown panel = (dialog.take outcome).shown panel := by
  cases outcome with
  | none => rfl
  | some entry =>
    obtain ⟨target, value⟩ := entry
    by_cases own : panel = target
    · subst own
      exact put_put
    · simp only [Dialog.take, put_frame _ _ own]

/-- A panel leaves the operands and the modes of all panels. -/
theorem run_alike (calculated panel : Panel) :
    Dialog.Alike panel dialog (calculated.run dialog) := by
  obtain ⟨outcome, -, runs⟩ := run_settles calculated dialog
  rw [runs dialog ⟨rfl, rfl, rfl⟩]
  exact take_alike outcome panel

/-- It leaves the boxes of the others, apart from those of OR. -/
theorem run_frame {calculated : Panel} (other : panel ≠ calculated) (exempt : panel ≠ .or) :
    (calculated.run dialog).shown panel = dialog.shown panel := by
  obtain ⟨outcome, targets, runs⟩ := run_settles calculated dialog
  rw [runs dialog ⟨rfl, rfl, rfl⟩]
  cases outcome with
  | none => rfl
  | some entry =>
    have apart : panel ≠ entry.1 := by
      -- a decimal SHR writes to the boxes of OR, every other panel to its own
      rcases targets entry rfl with same | ⟨-, same⟩
      · exact same ▸ other
      · exact same ▸ exempt
    exact put_frame entry.1 panel apart

theorem run_shown (alike : Dialog.Alike panel dialog other) (same : dialog.shown panel = other.shown panel) :
    (panel.run dialog).shown panel = (panel.run other).shown panel := by
  obtain ⟨outcome, -, runs⟩ := run_settles panel dialog
  rw [runs dialog ⟨rfl, rfl, rfl⟩, runs other alike]
  exact take_shown outcome same

theorem run_run (panel : Panel) (dialog : Dialog) :
    (panel.run (panel.run dialog)).shown panel = (panel.run dialog).shown panel := by
  obtain ⟨outcome, -, runs⟩ := run_settles panel dialog
  rw [runs _ (run_alike panel panel), runs dialog ⟨rfl, rfl, rfl⟩]
  exact take_take outcome panel

/-- To calculate the panel again in its mode changes none of its boxes. -/
def UpToDate (calculator : Calculator) (panel : Panel) : Prop :=
  ∀ dec ∈ calculator.mode panel,
    (panel.run (calculator.dialog.inMode dec)).shown panel = calculator.dialog.shown panel

theorem inMode_dec (dialog : Dialog) (dec : Bool) (panel : Panel) :
    (dialog.inMode dec).dec panel = dec := by
  simp only [Dialog.dec, Dialog.inMode, ite_self]

theorem input_number {operand : Operand} {number : Int} {typed : List UInt8} {edited : Panel}
    (other : panel ≠ edited) :
    (dialog.input edited operand number typed).number panel = dialog.number panel ∧
      (dialog.input edited operand number typed).typed panel = dialog.typed panel := by
  constructor
  · funext box
    simp only [Dialog.input, other, false_and, if_false]
  · funext box
    simp only [Dialog.input, other, false_and, if_false]

/-- A panel that is calculated is up to date, and the others stay so, apart from OR. -/
theorem calculate_upToDate {calculator : Calculator} (calculated : Panel) (exempt : panel ≠ .or)
    (kept : panel ≠ calculated → UpToDate calculator panel) :
    UpToDate (calculator.calculate calculated) panel := by
  intro dec known
  by_cases own : panel = calculated
  · subst own
    simp only [Calculator.calculate, if_true, Option.mem_some_iff] at known
    have alike : Dialog.Alike panel ((panel.run calculator.dialog).inMode dec)
        (panel.run calculator.dialog) := by
      refine ⟨?_, rfl, rfl⟩
      rw [inMode_dec, ← (run_alike panel panel).dec, known]
    exact (run_shown alike rfl).trans (run_run panel calculator.dialog)
  -- the other panel has changed neither the operands nor the boxes of this one
  · simp only [Calculator.calculate, own, if_false] at known
    have before := kept own dec known
    have frame : (calculated.run calculator.dialog).shown panel = calculator.dialog.shown panel :=
      run_frame own exempt
    have leaves : Dialog.Alike panel calculator.dialog (calculated.run calculator.dialog) :=
      run_alike calculated panel
    have alike : Dialog.Alike panel ((calculated.run calculator.dialog).inMode dec)
        (calculator.dialog.inMode dec) := by
      refine ⟨?_, leaves.number.symm, leaves.typed.symm⟩
      rw [inMode_dec, inMode_dec]
    exact ((run_shown alike frame).trans before).trans frame.symm

theorem step_upToDate {calculator next : Calculator} {event : CalcEvent} (exempt : panel ≠ .or)
    (upToDate : UpToDate calculator panel) (taken : calculator.step event = some next) :
    UpToDate next panel := by
  cases event with
  | ssMode dec =>
    obtain rfl := Option.some.inj taken
    exact upToDate
  | ljMode dec =>
    obtain rfl := Option.some.inj taken
    exact upToDate
  | notify calculated =>
    obtain rfl := Option.some.inj taken
    exact calculate_upToDate calculated exempt fun _ => upToDate
  | input edited operand number typed =>
    obtain ⟨-, taken⟩ := Option.ite_none_left_eq_some.mp taken
    obtain rfl := Option.some.inj taken
    refine calculate_upToDate edited exempt fun other dec known => ?_
    have alike : Dialog.Alike panel ((calculator.dialog.input edited operand number typed).inMode dec)
        (calculator.dialog.inMode dec) := by
      obtain ⟨sameNumber, sameTyped⟩ := input_number other
      refine ⟨?_, sameNumber, sameTyped⟩
      rw [inMode_dec, inMode_dec]
    exact (run_shown alike rfl).trans (upToDate dec known)

/-- Whatever is typed and whatever modes are chosen, every panel but OR shows what it gives for
the operands in its boxes, in the mode in which it was calculated last. -/
theorem reaches_upToDate {calculator : Calculator}
    (reached : Transition.Reaches calcSessions anyCalc calculator) (exempt : panel ≠ .or) :
    ∀ dec ∈ calculator.mode panel,
      (panel.run (calculator.dialog.inMode dec)).shown panel = calculator.dialog.shown panel := by
  have start : ∀ first, calcSessions.initial first → UpToDate first panel := by
    intro first start dec known
    rw [start.2] at known
    exact absurd known (Option.not_mem_none _)
  have preserved : ∀ before event after, UpToDate before panel → anyCalc before event = true →
      calcSessions.step before event = some after → UpToDate after panel :=
    fun before event after upToDate _ taken => step_upToDate exempt upToDate taken
  exact reached.invariant start preserved

/-- The sum of 10 and nothing goes on showing in decimal behind the other button. -/
theorem reaches_upToDate_add : ∃ calculator : Calculator,
    Transition.Reaches calcSessions anyCalc calculator ∧ calculator.dialog.ssDec = false ∧
      calculator.mode .add = some true ∧
      (Panel.add.run (calculator.dialog.inMode true)).shown .add = calculator.dialog.shown .add := by
  have start : Transition.Reaches calcSessions anyCalc
      { dialog := { ssDec := true, ljDec := true, number := fun _ _ => 0
                    typed := fun _ _ => [], shown := fun _ _ => [] }
        mode := fun _ => none } := .initial ⟨rfl, rfl⟩
  have summed := start.step (e := .input .add .num1 10 [0x31, 0x30]) rfl rfl
  have reached := summed.step (e := .ssMode false) rfl rfl
  exact ⟨_, reached, rfl, rfl, reaches_upToDate reached (by decide) true rfl⟩

end IDAPlugins.MoreMenu.CalcDlg
