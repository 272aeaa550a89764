import IDAPlugins.MoreMenu.CalcDlg
import IDAPlugins.SignedDivision

namespace IDAPlugins.MoreMenu.CalcDlg

open SignedDivision

/-! # The calculator in decimal mode

`GetDlgItemInt` returns a signed number as a `UINT`, and the assignment to an `INT64` fills
it up with zeros. The low 32 bits of a sum, a product or a bitwise result do not depend on
what is above them, while a quotient, a remainder and a number shifted to the right do.
-/

def signedResult (panel : Panel) (a b : Int) : BitVec 32 :=
  match panel with
  | .add => BitVec.ofInt 32 (a + b)
  | .sub => BitVec.ofInt 32 (a - b)
  | .mul => BitVec.ofInt 32 (a * b)
  | .div => BitVec.ofInt 32 (a.tdiv b)
  | .mod => BitVec.ofInt 32 (a.tmod b)
  | .xor => BitVec.ofInt 32 a ^^^ BitVec.ofInt 32 b
  | .and => BitVec.ofInt 32 a &&& BitVec.ofInt 32 b
  | .or => BitVec.ofInt 32 a ||| BitVec.ofInt 32 b
  | .not => ~~~BitVec.ofInt 32 a
  | .shl => BitVec.ofInt 32 a <<< b.toNat
  | .shr => (BitVec.ofInt 32 a).sshiftRight b.toNat

def SignedDomain (panel : Panel) (a b : Int) : Prop :=
  match panel with
  | .div => b ≠ 0 ∧ ¬ (a = -2147483648 ∧ b = -1)
  | .mod => b ≠ 0 ∧ ¬ (a = -2147483648 ∧ b = -1)
  | .shl => 0 ≤ b ∧ b ≤ 31
  | .shr => 0 ≤ b ∧ b ≤ 31
  | _ => True

/-- Where the panel shows the result: a quotient or a remainder that the unsigned operands
have as well, and a shift to the right whose result stands in the boxes already. -/
def DecimalAgrees (dialog : Dialog) (panel : Panel) (a b : Int) : Prop :=
  match panel with
  | .div => QuotientKept a b
  | .mod => RemainderKept a b
  | .shr => dialog.Shows .shr (signedResult .shr a b)
  | _ => True

variable {dialog : Dialog} {panel : Panel} {x y : BitVec 32} {a b : Int}

theorem low_widen (x : BitVec 32) : low (widen x) = x := by
  rw [low, widen, BitVec.setWidth_setWidth_of_le _ (by decide), BitVec.setWidth_eq]

theorem low_add (num1 num2 : BitVec 64) : low (num1 + num2) = low num1 + low num2 :=
  BitVec.setWidth_add _ _ (by decide)

theorem low_sub (num1 num2 : BitVec 64) : low (num1 - num2) = low num1 - low num2 := by
  rw [BitVec.sub_eq_add_neg, low_add, BitVec.sub_eq_add_neg]
  exact congrArg _ (BitVec.setWidth_neg_of_le (by decide))

theorem low_mul (num1 num2 : BitVec 64) : low (num1 * num2) = low num1 * low num2 :=
  BitVec.setWidth_mul _ _ (by decide)

theorem toNat_widen (x : BitVec 32) : (widen x).toNat = x.toNat := by
  have := x.isLt
  rw [widen, BitVec.toNat_setWidth]
  omega

theorem msb_widen (x : BitVec 32) : (widen x).msb = false := by
  have := x.isLt
  rw [BitVec.msb_eq_decide, toNat_widen, decide_eq_false_iff_not]
  omega

theorem low_shl (x y : BitVec 32) : low (widen x <<< widen y) = x <<< y := by
  apply BitVec.eq_of_getLsbD_eq
  intro i bound
  rw [BitVec.shiftLeft_eq', BitVec.shiftLeft_eq', toNat_widen]
  simp [low, widen]

/-- No sign is left to the quotient of two widened numbers. -/
theorem low_sdiv (x y : BitVec 32) : low ((widen x).sdiv (widen y)) = x.udiv y := by
  have small : x.toNat / y.toNat ≤ x.toNat := Nat.div_le_self _ _
  have range := x.isLt
  have quotient : (widen x).sdiv (widen y) = (widen x).udiv (widen y) := by
    rw [BitVec.sdiv_eq, msb_widen, msb_widen]
  apply BitVec.eq_of_toNat_eq
  simp only [low, quotient, BitVec.toNat_setWidth, BitVec.udiv_eq, BitVec.toNat_udiv, toNat_widen]
  exact Nat.mod_eq_of_lt (Nat.lt_of_le_of_lt small range)

theorem low_srem (x y : BitVec 32) : low ((widen x).srem (widen y)) = x.umod y := by
  have small : x.toNat % y.toNat ≤ x.toNat := Nat.mod_le _ _
  have range := x.isLt
  have remainder : (widen x).srem (widen y) = (widen x).umod (widen y) := by
    rw [BitVec.srem_eq, msb_widen, msb_widen, BitVec.umod_eq]
  apply BitVec.eq_of_toNat_eq
  simp only [low, remainder, BitVec.toNat_setWidth, BitVec.umod_eq, BitVec.toNat_umod, toNat_widen]
  exact Nat.mod_eq_of_lt (Nat.lt_of_le_of_lt small range)

theorem widen_pos (y : BitVec 32) : BitVec.slt 0 (widen y) = decide (y ≠ 0) := by
  have positive : (0 : Int) < y.toNat ↔ y ≠ 0 := by
    rw [← BitVec.toNat_inj.ne]
    simp
    omega
  rw [BitVec.slt, BitVec.toInt_eq_toNat_of_msb (msb_widen y), toNat_widen]
  exact decide_eq_decide.mpr positive

theorem ofInt_eq_iff : BitVec.ofInt 32 a = BitVec.ofInt 32 b ↔ a % 4294967296 = b % 4294967296 := by
  rw [← BitVec.toNat_inj, BitVec.toNat_ofInt, BitVec.toNat_ofInt]
  omega

theorem toNat_ofInt_unsigned (a : Int) : ((BitVec.ofInt 32 a).toNat : Int) = unsigned a := by
  rw [BitVec.toNat_ofInt, unsigned]
  omega

theorem ofInt_toNat (x : BitVec 32) : BitVec.ofInt 32 x.toNat = x := by
  simp

theorem udiv_ofInt (a b : Int) :
    (BitVec.ofInt 32 a).udiv (BitVec.ofInt 32 b) = BitVec.ofInt 32 (unsigned a / unsigned b) := by
  rw [← ofInt_toNat (BitVec.udiv _ _), BitVec.udiv_eq, BitVec.toNat_udiv, Int.natCast_ediv,
    toNat_ofInt_unsigned, toNat_ofInt_unsigned]

theorem umod_ofInt (a b : Int) :
    (BitVec.ofInt 32 a).umod (BitVec.ofInt 32 b) = BitVec.ofInt 32 (unsigned a % unsigned b) := by
  rw [← ofInt_toNat (BitVec.umod _ _), BitVec.umod_eq, BitVec.toNat_umod, Int.natCast_emod,
    toNat_ofInt_unsigned, toNat_ofInt_unsigned]

theorem ofInt_ne_zero (range : Signed b) (divisor : b ≠ 0) : BitVec.ofInt 32 b ≠ 0 := by
  intro zero
  have same : BitVec.ofInt 32 b = BitVec.ofInt 32 0 := zero
  rw [ofInt_eq_iff] at same
  obtain ⟨lower, upper⟩ := range
  omega

theorem ssys_decimal (mode : dialog.ssDec = true) (dec : BitVec 64 → BitVec 64 → BitVec 64)
    (hex : BitVec 32 → BitVec 32 → BitVec 32) :
    (ssys panel dec hex dialog).Shows panel
      (low (dec (widen (BitVec.ofInt 32 (dialog.number panel .num1)))
        (widen (BitVec.ofInt 32 (dialog.number panel .num2))))) := by
  rw [ssys, if_pos mode]
  exact reportUnsigned_shows dialog panel _

theorem ssysGuarded_decimal (mode : dialog.ssDec = true)
    (dec : BitVec 64 → BitVec 64 → BitVec 64) (hex : BitVec 32 → BitVec 32 → BitVec 32)
    (divisor : BitVec.ofInt 32 (dialog.number panel .num2) ≠ 0) :
    (ssysGuarded panel dec hex dialog).Shows panel
      (low (dec (widen (BitVec.ofInt 32 (dialog.number panel .num1)))
        (widen (BitVec.ofInt 32 (dialog.number panel .num2))))) := by
  have guard : BitVec.slt 0 (widen (dialog.getDlgItemInt panel .num2)) = true := by
    rw [widen_pos]
    exact decide_eq_true divisor
  rw [ssysGuarded, if_pos mode]
  simp only [guard, if_true]
  exact reportUnsigned_shows dialog panel _

theorem ljys_decimal (mode : dialog.ljDec = true) (plain : panel.arithmetic = false)
    (prepare : List UInt8 → List UInt8) (dec : BitVec 64 → BitVec 64 → BitVec 64)
    (hex : BitVec 32 → BitVec 32 → BitVec 32) :
    (ljys panel prepare dec hex dialog).Shows panel
      (low (dec (widen (BitVec.ofInt 32 (dialog.number panel .num1)))
        (widen (BitVec.ofInt 32 (dialog.number panel .num2))))) := by
  rw [ljys, if_pos mode]
  exact report_shows dialog plain _

theorem ljysNot_decimal (mode : dialog.ljDec = true) :
    (ljysNot dialog).Shows .not
      (low (~~~widen (BitVec.ofInt 32 (dialog.number .not .num1)))) := by
  rw [ljysNot, if_pos mode]
  exact report_shows dialog rfl _

/-- The boxes of the panel SHR stay as they are. -/
theorem ljysShr_decimal (mode : dialog.ljDec = true) (value : BitVec 32) :
    (ljysShr dialog).Shows .shr value ↔ dialog.Shows .shr value := by
  have boxes (column : Column) : (ljysShr dialog).shown .shr column = dialog.shown .shr column := by
    rw [ljysShr, if_pos mode]
    simp [Dialog.report, Dialog.setDlgItemText]
  constructor
  · intro shows
    exact ⟨boxes .dec ▸ shows.dec, boxes .hex ▸ shows.hex, by simp [Panel.arithmetic]⟩
  · intro shows
    exact ⟨boxes .dec ▸ shows.dec, boxes .hex ▸ shows.hex, by simp [Panel.arithmetic]⟩

/-- In decimal mode a panel shows the result for signed operands in its own boxes exactly
where the unsigned operands have the same quotient or remainder; the panel SHR shows nothing
new. -/
theorem decimal_shows_iff (panel : Panel) (dialog : Dialog)
    (mode : dialog.ssDec = true ∧ dialog.ljDec = true)
    (first : Signed (dialog.number panel .num1)) (second : Signed (dialog.number panel .num2))
    (domain : SignedDomain panel (dialog.number panel .num1) (dialog.number panel .num2)) :
    (panel.run dialog).Shows panel
        (signedResult panel (dialog.number panel .num1) (dialog.number panel .num2)) ↔
      DecimalAgrees dialog panel (dialog.number panel .num1) (dialog.number panel .num2) := by
  obtain ⟨ssMode, ljMode⟩ := mode
  cases panel with
  | add =>
    rw [Panel.run, ssysAdd, (ssys_decimal ssMode _ _).iff, low_add, low_widen, low_widen]
    simp [signedResult, DecimalAgrees, BitVec.ofInt_add]
  | sub =>
    rw [Panel.run, ssysSub, (ssys_decimal ssMode _ _).iff, low_sub, low_widen, low_widen]
    simp [signedResult, DecimalAgrees, Int.sub_eq_add_neg, BitVec.ofInt_add, BitVec.ofInt_neg,
      BitVec.sub_eq_add_neg]
  | mul =>
    rw [Panel.run, ssysMul, (ssys_decimal ssMode _ _).iff, low_mul, low_widen, low_widen]
    simp [signedResult, DecimalAgrees, BitVec.ofInt_mul]
  | div =>
    have divisor := ofInt_ne_zero second domain.1
    rw [Panel.run, ssysDiv, (ssysGuarded_decimal ssMode _ _ divisor).iff, low_sdiv, udiv_ofInt,
      signedResult, ofInt_eq_iff, quotient_iff first second domain.1, DecimalAgrees]
  | mod =>
    have divisor := ofInt_ne_zero second domain.1
    rw [Panel.run, ssysMod, (ssysGuarded_decimal ssMode _ _ divisor).iff, low_srem, umod_ofInt,
      signedResult, ofInt_eq_iff, remainder_iff first second domain.1, DecimalAgrees]
  | xor =>
    rw [Panel.run, ljysXor, (ljys_decimal ljMode rfl _ _ _).iff]
    simp [signedResult, DecimalAgrees, low, widen]
  | and =>
    rw [Panel.run, ljysAnd, (ljys_decimal ljMode rfl _ _ _).iff]
    simp [signedResult, DecimalAgrees, low, widen]
  | or =>
    rw [Panel.run, ljysOr, (ljys_decimal ljMode rfl _ _ _).iff]
    simp [signedResult, DecimalAgrees, low, widen]
  | not =>
    rw [Panel.run, (ljysNot_decimal ljMode).iff]
    simp [signedResult, DecimalAgrees, low, widen]
  | shl =>
    have amount : (BitVec.ofInt 32 (dialog.number .shl .num2)).toNat =
        (dialog.number .shl .num2).toNat := by
      obtain ⟨lower, upper⟩ := domain
      rw [BitVec.toNat_ofInt]
      omega
    rw [Panel.run, ljysShl, (ljys_decimal ljMode rfl _ _ _).iff, low_shl, BitVec.shiftLeft_eq',
      amount]
    simp [signedResult, DecimalAgrees]
  | shr =>
    rw [Panel.run, ljysShr_decimal ljMode, DecimalAgrees]

/-- Both groups are in decimal mode, and all panels have the same operands. -/
def decimalDialog (a b : Int) : Dialog where
  ssDec := true
  ljDec := true
  number _ operand :=
    match operand with
    | .num1 => a
    | .num2 => b
  typed _ _ := []
  shown _ _ := []

theorem decimal_shows_seven :
    (Panel.div.run (decimalDialog 7 2)).Shows .div 3 :=
  (decimal_shows_iff .div (decimalDialog 7 2) ⟨rfl, rfl⟩ ⟨by decide, by decide⟩
    ⟨by decide, by decide⟩ ⟨by decide, by decide⟩).mpr (Or.inl ⟨by decide, by decide⟩)

/-- -7 / 2 is shown as 2147483644. -/
theorem decimal_minus_seven : Signed (-7) ∧ Signed 2 ∧ SignedDomain .div (-7) 2 ∧
    (Panel.div.run (decimalDialog (-7) 2)).Shows .div 2147483644 ∧
    ¬ (Panel.div.run (decimalDialog (-7) 2)).Shows .div (signedResult .div (-7) 2) := by
  have value : low ((widen (BitVec.ofInt 32 (-7))).sdiv (widen (BitVec.ofInt 32 2))) =
      2147483644 := by decide
  have shows : (Panel.div.run (decimalDialog (-7) 2)).Shows .div 2147483644 := by
    rw [← value]
    exact @ssysGuarded_decimal (decimalDialog (-7) 2) .div rfl BitVec.sdiv BitVec.udiv (by decide)
  refine ⟨⟨by decide, by decide⟩, ⟨by decide, by decide⟩, ⟨by decide, by decide⟩, shows, ?_⟩
  intro right
  exact absurd (shows.unique right) (by decide)

end IDAPlugins.MoreMenu.CalcDlg
