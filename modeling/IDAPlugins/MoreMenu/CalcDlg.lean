import Mathlib.Data.BitVec
import IDAPlugins.HexText

namespace IDAPlugins.MoreMenu.CalcDlg

open HexText

/-! # The calculator

Each panel of the dialog has one or two boxes for its operands and boxes for its result. In
decimal mode the operands are taken as `INT64` numbers, in hexadecimal mode they are read
from the text as `unsigned long` numbers; what is shown of a result are its low 32 bits.
-/

inductive Panel where
  | add
  | sub
  | mul
  | div
  | mod
  | xor
  | and
  | or
  | not
  | shl
  | shr
  deriving DecidableEq

inductive Operand where
  | num1
  | num2
  deriving DecidableEq

/-- `RET_DEC` or `RETDEC`, `RET_HEX` or `RETHEX`, and `RET_UDEC`. -/
inductive Column where
  | dec
  | hex
  | udec
  deriving DecidableEq

/-- The radio buttons `IDC_SS_DEC` and `IDC_LJ_DEC`, the signed numbers and the texts typed,
and the texts of the result boxes. -/
structure Dialog where
  ssDec : Bool
  ljDec : Bool
  number : Panel → Operand → Int
  typed : Panel → Operand → List UInt8
  shown : Panel → Column → List UInt8

/-- The panels with a third result box. -/
def Panel.arithmetic : Panel → Bool
  | add => true
  | sub => true
  | mul => true
  | div => true
  | mod => true
  | _ => false

/-- A `char` as an `int`. -/
def charCode (ch : UInt8) : BitVec 32 := ch.toBitVec.signExtend 32

def hexToDec (s : List UInt8) : BitVec 32 :=
  s.foldl
    (fun sum ch =>
      let t := if (charCode ch).sle 0x39 then charCode ch - 0x30 else charCode ch - 0x41 + 10
      sum * 16 + t)
    0

def hexCharUpper (s : List UInt8) : List UInt8 :=
  s.map fun ch => if BitVec.sle 0x61 (charCode ch) then ch - 32 else ch

def decimalText (value : Nat) : List UInt8 :=
  let digits := (Nat.digits 10 value).reverse.map fun digit => UInt8.ofNat (0x30 + digit)
  List.replicate (1 - digits.length) 0x30 ++ digits

/-- `%ld` -/
def wsprintfLd (value : BitVec 32) : List UInt8 :=
  if value.toInt < 0 then 0x2d :: decimalText value.toInt.natAbs else decimalText value.toNat

/-- `%u` -/
def wsprintfU (value : BitVec 32) : List UInt8 := decimalText value.toNat

def lowerChar (digit : Nat) : UInt8 :=
  UInt8.ofNat (if digit < 10 then 0x30 + digit else 0x57 + digit)

/-- `%lx` -/
def wsprintfLx (value : BitVec 32) : List UInt8 :=
  let digits := (Nat.digits 16 value.toNat).reverse.map lowerChar
  List.replicate (1 - digits.length) 0x30 ++ digits

/-- `GetDlgItemInt` with `bSigned` -/
def Dialog.getDlgItemInt (dialog : Dialog) (panel : Panel) (operand : Operand) : BitVec 32 :=
  BitVec.ofInt 32 (dialog.number panel operand)

/-- The buffer has room for 19 characters. -/
def Dialog.getDlgItemText (dialog : Dialog) (panel : Panel) (operand : Operand) : List UInt8 :=
  (dialog.typed panel operand).take 19

def Dialog.setDlgItemText (dialog : Dialog) (panel : Panel) (column : Column)
    (text : List UInt8) : Dialog :=
  { dialog with
    shown := fun other box =>
      if other = panel ∧ box = column then text else dialog.shown other box }

def Dialog.report (dialog : Dialog) (panel : Panel) (value : BitVec 32) : Dialog :=
  (dialog.setDlgItemText panel .dec (wsprintfLd value)).setDlgItemText panel .hex
    (hexCharUpper (wsprintfLx value))

def Dialog.reportUnsigned (dialog : Dialog) (panel : Panel) (value : BitVec 32) : Dialog :=
  (dialog.report panel value).setDlgItemText panel .udec (wsprintfU value)

/-- A `UINT` assigned to an `INT64`. -/
def widen (num : BitVec 32) : BitVec 64 := num.setWidth 64

/-- What `%ld`, `%lx` and `%u` print of an `INT64`. -/
def low (value : BitVec 64) : BitVec 32 := value.setWidth 32

/-- A panel of the arithmetic group. -/
def ssys (panel : Panel) (dec : BitVec 64 → BitVec 64 → BitVec 64)
    (hex : BitVec 32 → BitVec 32 → BitVec 32) (dialog : Dialog) : Dialog :=
  if dialog.ssDec then
    let num1 := widen (dialog.getDlgItemInt panel .num1)
    let num2 := widen (dialog.getDlgItemInt panel .num2)
    dialog.reportUnsigned panel (low (dec num1 num2))
  else
    let num1 := hexToDec (hexCharUpper (dialog.getDlgItemText panel .num1))
    let num2 := hexToDec (hexCharUpper (dialog.getDlgItemText panel .num2))
    dialog.reportUnsigned panel (hex num1 num2)

/-- A panel that shows nothing new unless `num2 > 0`. -/
def ssysGuarded (panel : Panel) (dec : BitVec 64 → BitVec 64 → BitVec 64)
    (hex : BitVec 32 → BitVec 32 → BitVec 32) (dialog : Dialog) : Dialog :=
  if dialog.ssDec then
    let num1 := widen (dialog.getDlgItemInt panel .num1)
    let num2 := widen (dialog.getDlgItemInt panel .num2)
    if BitVec.slt 0 num2 then dialog.reportUnsigned panel (low (dec num1 num2)) else dialog
  else
    let num1 := hexToDec (hexCharUpper (dialog.getDlgItemText panel .num1))
    let num2 := hexToDec (hexCharUpper (dialog.getDlgItemText panel .num2))
    if BitVec.ult 0 num2 then dialog.reportUnsigned panel (hex num1 num2) else dialog

/-- A panel of the logic group with two operands. `prepare` is what the hexadecimal branch
does to a text before it is read. -/
def ljys (panel : Panel) (prepare : List UInt8 → List UInt8)
    (dec : BitVec 64 → BitVec 64 → BitVec 64) (hex : BitVec 32 → BitVec 32 → BitVec 32)
    (dialog : Dialog) : Dialog :=
  if dialog.ljDec then
    let num1 := widen (dialog.getDlgItemInt panel .num1)
    let num2 := widen (dialog.getDlgItemInt panel .num2)
    dialog.report panel (low (dec num1 num2))
  else
    let num1 := hexToDec (prepare (dialog.getDlgItemText panel .num1))
    let num2 := hexToDec (prepare (dialog.getDlgItemText panel .num2))
    dialog.report panel (hex num1 num2)

def ssysAdd : Dialog → Dialog := ssys .add (· + ·) (· + ·)

def ssysSub : Dialog → Dialog := ssys .sub (· - ·) (· - ·)

def ssysMul : Dialog → Dialog := ssys .mul (· * ·) (· * ·)

def ssysDiv : Dialog → Dialog := ssysGuarded .div BitVec.sdiv BitVec.udiv

def ssysMod : Dialog → Dialog := ssysGuarded .mod BitVec.srem BitVec.umod

/-- The hexadecimal branch does not call `HexCharUpper` on the operands. -/
def ljysXor : Dialog → Dialog := ljys .xor id (· ^^^ ·) (· ^^^ ·)

def ljysAnd : Dialog → Dialog := ljys .and hexCharUpper (· &&& ·) (· &&& ·)

/-- The hexadecimal branch does not call `HexCharUpper` on the operands. -/
def ljysOr : Dialog → Dialog := ljys .or id (· ||| ·) (· ||| ·)

def ljysNot (dialog : Dialog) : Dialog :=
  if dialog.ljDec then
    let num1 := widen (dialog.getDlgItemInt .not .num1)
    dialog.report .not (low (~~~num1))
  else
    let num1 := hexToDec (hexCharUpper (dialog.getDlgItemText .not .num1))
    dialog.report .not (~~~num1)

def ljysShl : Dialog → Dialog := ljys .shl hexCharUpper (· <<< ·) (· <<< ·)

/-- The decimal branch writes to the boxes of the panel OR. -/
def ljysShr (dialog : Dialog) : Dialog :=
  if dialog.ljDec then
    let num1 := widen (dialog.getDlgItemInt .shr .num1)
    let num2 := widen (dialog.getDlgItemInt .shr .num2)
    dialog.report .or (low (num1.sshiftRight' num2))
  else
    let num1 := hexToDec (hexCharUpper (dialog.getDlgItemText .shr .num1))
    let num2 := hexToDec (hexCharUpper (dialog.getDlgItemText .shr .num2))
    dialog.report .shr (num1 >>> num2)

def Panel.run : Panel → Dialog → Dialog
  | add => ssysAdd
  | sub => ssysSub
  | mul => ssysMul
  | div => ssysDiv
  | mod => ssysMod
  | xor => ljysXor
  | and => ljysAnd
  | or => ljysOr
  | not => ljysNot
  | shl => ljysShl
  | shr => ljysShr

/-- The result boxes of a panel show a number, in decimal, in hexadecimal and, where there is
a third box, without a sign. -/
structure Dialog.Shows (dialog : Dialog) (panel : Panel) (value : BitVec 32) : Prop where
  dec : dialog.shown panel .dec = wsprintfLd value
  hex : dialog.shown panel .hex = hexText 1 value.toNat
  udec : panel.arithmetic = true → dialog.shown panel .udec = wsprintfU value

variable {dialog : Dialog} {panel : Panel} {value other : BitVec 32}

theorem hexCharUpper_lowerChar {digit : Nat} (small : digit < 16) :
    (if BitVec.sle 0x61 (charCode (lowerChar digit)) then lowerChar digit - 32
      else lowerChar digit) = digitChar digit := by
  have all : ∀ d ∈ List.range 16, (if BitVec.sle 0x61 (charCode (lowerChar d)) then
      lowerChar d - 32 else lowerChar d) = digitChar d := by decide
  exact all digit (List.mem_range.mpr small)

/-- Upper-case letters make the text of `%lx` that of `%lX`. -/
theorem hexCharUpper_wsprintfLx (value : BitVec 32) :
    hexCharUpper (wsprintfLx value) = hexText 1 value.toNat := by
  have digits : ((Nat.digits 16 value.toNat).reverse.map lowerChar).map
      (fun ch => if BitVec.sle 0x61 (charCode ch) then ch - 32 else ch) =
        (Nat.digits 16 value.toNat).reverse.map digitChar := by
    rw [List.map_map]
    apply List.map_congr_left
    intro digit member
    exact hexCharUpper_lowerChar (Nat.digits_lt_base (by decide) (List.mem_reverse.mp member))
  have zeros (count : Nat) : (List.replicate count (0x30 : UInt8)).map
      (fun ch => if BitVec.sle 0x61 (charCode ch) then ch - 32 else ch) =
        List.replicate count 0x30 := by
    rw [List.map_replicate]
    rfl
  simp only [hexCharUpper, wsprintfLx, List.map_append, digits, zeros, hexText, List.length_map]

theorem report_shows (dialog : Dialog) (plain : panel.arithmetic = false) (value : BitVec 32) :
    (dialog.report panel value).Shows panel value where
  dec := by simp [Dialog.report, Dialog.setDlgItemText]
  hex := by simp [Dialog.report, Dialog.setDlgItemText, hexCharUpper_wsprintfLx]
  udec arithmetic := by
    rw [plain] at arithmetic
    cases arithmetic

theorem reportUnsigned_shows (dialog : Dialog) (panel : Panel) (value : BitVec 32) :
    (dialog.reportUnsigned panel value).Shows panel value where
  dec := by simp [Dialog.reportUnsigned, Dialog.report, Dialog.setDlgItemText]
  hex := by
    simp [Dialog.reportUnsigned, Dialog.report, Dialog.setDlgItemText, hexCharUpper_wsprintfLx]
  udec _ := by simp [Dialog.reportUnsigned, Dialog.setDlgItemText]

theorem Dialog.Shows.unique (first : dialog.Shows panel value)
    (second : dialog.Shows panel other) : value = other := by
  apply BitVec.eq_of_toNat_eq
  rw [← readHex_hexText 1 value.toNat, ← first.hex, second.hex, readHex_hexText]

theorem Dialog.Shows.iff (shows : dialog.Shows panel value) :
    dialog.Shows panel other ↔ value = other := by
  constructor
  · intro also
    exact shows.unique also
  · intro same
    exact same ▸ shows

end IDAPlugins.MoreMenu.CalcDlg
