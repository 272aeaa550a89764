import Mathlib.Tactic.Ring
import IDAPlugins.Machine
import IDAPlugins.MoreMenu.CalcDlg

namespace IDAPlugins.MoreMenu.CalcDlg

open HexText Machine

/-! # The calculator in hexadecimal mode

`HexToDec` reads upper-case digits. A lower-case digit counts 32 too much in its place, and
the panels XOR and OR leave the letters as they are typed.
-/

structure HexInput (text : List UInt8) : Prop where
  digits : ∀ ch ∈ text, IsHexDigit ch
  length_le : text.length ≤ 19

def denoted (text : List UInt8) : BitVec 32 := BitVec.ofNat 32 (hexNumber text)

def unsignedResult (panel : Panel) (a b : BitVec 32) : BitVec 32 :=
  match panel with
  | .add => a + b
  | .sub => a - b
  | .mul => a * b
  | .div => a.udiv b
  | .mod => a.umod b
  | .xor => a ^^^ b
  | .and => a &&& b
  | .or => a ||| b
  | .not => ~~~a
  | .shl => a <<< b
  | .shr => a >>> b

def UnsignedDomain (panel : Panel) (b : BitVec 32) : Prop :=
  match panel with
  | .div => b ≠ 0
  | .mod => b ≠ 0
  | .shl => b.toNat ≤ 31
  | .shr => b.toNat ≤ 31
  | _ => True

/-- The same dialog with every letter typed in upper case. -/
def Dialog.upper (dialog : Dialog) : Dialog :=
  { dialog with typed := fun panel operand => hexCharUpper (dialog.typed panel operand) }

/-- A panel shows the result for the numbers typed, and it shows what it shows for
upper-case letters. -/
structure HexRight (dialog : Dialog) (panel : Panel) : Prop where
  result : (panel.run dialog).Shows panel
    (unsignedResult panel (denoted (dialog.typed panel .num1)) (denoted (dialog.typed panel .num2)))
  letterCase : ∀ value,
    (panel.run dialog).Shows panel value ↔ (panel.run dialog.upper).Shows panel value

/-- 32 in the place of every lower-case letter. -/
def excess (text : List UInt8) : BitVec 32 :=
  text.foldl (fun sum ch => sum * 16 + if 0x61 ≤ ch then 32 else 0) 0

/-- The bits of the number that lower-case letters change. -/
def changed (text : List UInt8) : BitVec 32 :=
  denoted text ^^^ (denoted text + excess text)

/-- A bit changed in one operand only is set in the other one, and one changed in both is
set in just one of them. -/
def OrKept (x y p q : BitVec 32) : Prop :=
  ∀ i < 32, (p.getLsbD i = true → q.getLsbD i = false → y.getLsbD i = true) ∧
    (q.getLsbD i = true → p.getLsbD i = false → x.getLsbD i = true) ∧
    (p.getLsbD i = true → q.getLsbD i = true → x.getLsbD i ≠ y.getLsbD i)

/-- Where the panel shows the result: always, apart from the two panels that read the letters
as they are typed. -/
def HexAgrees (panel : Panel) (first second : List UInt8) : Prop :=
  match panel with
  | .xor => changed first = changed second
  | .or => OrKept (denoted first) (denoted second) (changed first) (changed second)
  | _ => True

variable {dialog : Dialog} {panel : Panel} {text first second : List UInt8}

/-- `t` -/
def digitRead (ch : UInt8) : BitVec 32 :=
  if (charCode ch).sle 0x39 then charCode ch - 0x30 else charCode ch - 0x41 + 10

def upperChar (ch : UInt8) : UInt8 := if BitVec.sle 0x61 (charCode ch) then ch - 32 else ch

theorem digitRead_eq : ∀ ch : UInt8, IsHexDigit ch →
    digitRead ch = BitVec.ofNat 32 (hexValue ch) + if 0x61 ≤ ch then 32 else 0 :=
  forall_byte (by decide +kernel)

theorem upperChar_digit : ∀ ch : UInt8, IsHexDigit ch →
    IsHexDigit (upperChar ch) ∧ hexValue (upperChar ch) = hexValue ch ∧ ¬ 0x61 ≤ upperChar ch :=
  forall_byte (by decide +kernel)

theorem foldl_digitRead (digits : ∀ ch ∈ text, IsHexDigit ch) (value : Nat) (sum : BitVec 32) :
    text.foldl (fun sum ch => sum * 16 + digitRead ch) (BitVec.ofNat 32 value + sum) =
      BitVec.ofNat 32 (text.foldl (fun value ch => value * 16 + hexValue ch) value) +
        text.foldl (fun sum ch => sum * 16 + if 0x61 ≤ ch then 32 else 0) sum := by
  induction text generalizing value sum with
  | nil => rfl
  | cons ch rest ih =>
    rw [List.forall_mem_cons] at digits
    have sixteen : BitVec.ofNat 32 16 = 16 := rfl
    have next : (BitVec.ofNat 32 value + sum) * 16 + digitRead ch =
        BitVec.ofNat 32 (value * 16 + hexValue ch) +
          (sum * 16 + if 0x61 ≤ ch then 32 else 0) := by
      rw [digitRead_eq ch digits.1, BitVec.ofNat_add, BitVec.ofNat_mul, sixteen]
      ring
    rw [List.foldl_cons, List.foldl_cons, List.foldl_cons, next]
    exact ih digits.2 _ _

/-- Every lower-case letter counts 32 too much. -/
theorem hexToDec_eq (digits : ∀ ch ∈ text, IsHexDigit ch) :
    hexToDec text = denoted text + excess text :=
  foldl_digitRead digits 0 0

theorem hexCharUpper_digits (digits : ∀ ch ∈ text, IsHexDigit ch) :
    ∀ ch ∈ hexCharUpper text, IsHexDigit ch := by
  intro ch member
  obtain ⟨old, typed, rfl⟩ := List.mem_map.mp member
  exact (upperChar_digit old (digits old typed)).1

theorem denoted_hexCharUpper (digits : ∀ ch ∈ text, IsHexDigit ch) :
    denoted (hexCharUpper text) = denoted text := by
  have step (value : Nat) : (hexCharUpper text).foldl (fun value ch => value * 16 + hexValue ch) value =
      text.foldl (fun value ch => value * 16 + hexValue ch) value := by
    rw [hexCharUpper, List.foldl_map]
    apply List.foldl_ext
    intro value ch member
    rw [← (upperChar_digit ch (digits ch member)).2.1]
    rfl
  rw [denoted, hexNumber, step, denoted, hexNumber]

theorem excess_eq_zero (upper : ∀ ch ∈ text, ¬ 0x61 ≤ ch) : excess text = 0 := by
  rw [excess]
  induction text with
  | nil => rfl
  | cons ch rest ih =>
    rw [List.forall_mem_cons] at upper
    rw [List.foldl_cons, if_neg upper.1]
    exact ih upper.2

/-- Upper-case letters are read as the number they stand for. -/
theorem hexToDec_hexCharUpper (digits : ∀ ch ∈ text, IsHexDigit ch) :
    hexToDec (hexCharUpper text) = denoted text := by
  have upper : ∀ ch ∈ hexCharUpper text, ¬ 0x61 ≤ ch := by
    intro ch member
    obtain ⟨old, typed, rfl⟩ := List.mem_map.mp member
    exact (upperChar_digit old (digits old typed)).2.2
  rw [hexToDec_eq (hexCharUpper_digits digits), denoted_hexCharUpper digits, excess_eq_zero upper]
  exact BitVec.add_zero _

theorem hexToDec_changed (digits : ∀ ch ∈ text, IsHexDigit ch) :
    hexToDec text = denoted text ^^^ changed text := by
  rw [hexToDec_eq digits, changed, ← BitVec.xor_assoc, BitVec.xor_self, BitVec.zero_xor]

theorem xor_kept_iff (x y p q : BitVec 32) :
    (x ^^^ p) ^^^ (y ^^^ q) = x ^^^ y ↔ p = q := by
  constructor
  · intro same
    apply BitVec.eq_of_getLsbD_eq
    intro i bound
    have bit := congrArg (·.getLsbD i) same
    simp only [BitVec.getLsbD_xor] at bit
    revert bit
    cases x.getLsbD i <;> cases y.getLsbD i <;> cases p.getLsbD i <;> cases q.getLsbD i <;> simp
  · intro same
    subst same
    apply BitVec.eq_of_getLsbD_eq
    intro i bound
    simp only [BitVec.getLsbD_xor]
    cases x.getLsbD i <;> cases y.getLsbD i <;> cases p.getLsbD i <;> rfl

theorem or_kept_iff (x y p q : BitVec 32) :
    (x ^^^ p) ||| (y ^^^ q) = x ||| y ↔ OrKept x y p q := by
  have bits (i : Nat) : ((x ^^^ p) ||| (y ^^^ q)).getLsbD i = (x ||| y).getLsbD i ↔
      (p.getLsbD i = true → q.getLsbD i = false → y.getLsbD i = true) ∧
        (q.getLsbD i = true → p.getLsbD i = false → x.getLsbD i = true) ∧
        (p.getLsbD i = true → q.getLsbD i = true → x.getLsbD i ≠ y.getLsbD i) := by
    simp only [BitVec.getLsbD_or, BitVec.getLsbD_xor]
    cases x.getLsbD i <;> cases y.getLsbD i <;> cases p.getLsbD i <;> cases q.getLsbD i <;> simp
  constructor
  · intro same i bound
    exact (bits i).mp (congrArg (·.getLsbD i) same)
  · intro kept
    apply BitVec.eq_of_getLsbD_eq
    intro i bound
    exact (bits i).mpr (kept i bound)

/-- What a panel does to a text before it is read. -/
def Panel.prepare : Panel → List UInt8 → List UInt8
  | xor => id
  | or => id
  | _ => hexCharUpper

theorem ssys_hex (mode : dialog.ssDec = false) (dec : BitVec 64 → BitVec 64 → BitVec 64)
    (hex : BitVec 32 → BitVec 32 → BitVec 32) :
    (ssys panel dec hex dialog).Shows panel
      (hex (hexToDec (hexCharUpper (dialog.getDlgItemText panel .num1)))
        (hexToDec (hexCharUpper (dialog.getDlgItemText panel .num2)))) := by
  rw [ssys, mode]
  exact reportUnsigned_shows dialog panel _

theorem ssysGuarded_hex (mode : dialog.ssDec = false) (dec : BitVec 64 → BitVec 64 → BitVec 64)
    (hex : BitVec 32 → BitVec 32 → BitVec 32)
    (divisor : hexToDec (hexCharUpper (dialog.getDlgItemText panel .num2)) ≠ 0) :
    (ssysGuarded panel dec hex dialog).Shows panel
      (hex (hexToDec (hexCharUpper (dialog.getDlgItemText panel .num1)))
        (hexToDec (hexCharUpper (dialog.getDlgItemText panel .num2)))) := by
  have guard : BitVec.ult 0 (hexToDec (hexCharUpper (dialog.getDlgItemText panel .num2))) = true := by
    apply decide_eq_true
    apply Nat.pos_of_ne_zero
    intro zero
    exact divisor (BitVec.eq_of_toNat_eq zero)
  rw [ssysGuarded, mode]
  simp only [guard, if_true]
  exact reportUnsigned_shows dialog panel _

theorem ljys_hex (mode : dialog.ljDec = false) (plain : panel.arithmetic = false)
    (prepare : List UInt8 → List UInt8) (dec : BitVec 64 → BitVec 64 → BitVec 64)
    (hex : BitVec 32 → BitVec 32 → BitVec 32) :
    (ljys panel prepare dec hex dialog).Shows panel
      (hex (hexToDec (prepare (dialog.getDlgItemText panel .num1)))
        (hexToDec (prepare (dialog.getDlgItemText panel .num2)))) := by
  rw [ljys, mode]
  exact report_shows dialog plain _

theorem hex_shows (panel : Panel) (mode : dialog.ssDec = false ∧ dialog.ljDec = false)
    (divisor : panel = .div ∨ panel = .mod →
      hexToDec (panel.prepare (dialog.getDlgItemText panel .num2)) ≠ 0) :
    (panel.run dialog).Shows panel
      (unsignedResult panel (hexToDec (panel.prepare (dialog.getDlgItemText panel .num1)))
        (hexToDec (panel.prepare (dialog.getDlgItemText panel .num2)))) := by
  obtain ⟨ssMode, ljMode⟩ := mode
  cases panel with
  | add => exact ssys_hex ssMode _ _
  | sub => exact ssys_hex ssMode _ _
  | mul => exact ssys_hex ssMode _ _
  | div => exact ssysGuarded_hex ssMode _ _ (divisor (Or.inl rfl))
  | mod => exact ssysGuarded_hex ssMode _ _ (divisor (Or.inr rfl))
  | xor => exact ljys_hex ljMode rfl _ _ _
  | and => exact ljys_hex ljMode rfl _ _ _
  | or => exact ljys_hex ljMode rfl _ _ _
  | not =>
    rw [Panel.run, ljysNot, ljMode]
    exact report_shows dialog rfl _
  | shl => exact ljys_hex ljMode rfl _ _ _
  | shr =>
    rw [Panel.run, ljysShr, ljMode]
    exact report_shows dialog rfl _

theorem prepare_upper (panel : Panel) (input : HexInput text) :
    hexToDec (panel.prepare (hexCharUpper text)) = denoted text := by
  have once := hexToDec_hexCharUpper input.digits
  have twice : hexToDec (hexCharUpper (hexCharUpper text)) = denoted text := by
    rw [hexToDec_hexCharUpper (hexCharUpper_digits input.digits),
      denoted_hexCharUpper input.digits]
  cases panel with
  | xor => exact once
  | or => exact once
  | _ => exact twice

/-- The texts are read well enough for the result exactly under the condition. -/
theorem unsignedResult_iff (panel : Panel) (one : HexInput first) (two : HexInput second) :
    unsignedResult panel (hexToDec (panel.prepare first)) (hexToDec (panel.prepare second)) =
        unsignedResult panel (denoted first) (denoted second) ↔
      HexAgrees panel first second := by
  cases panel with
  | xor =>
    simp only [unsignedResult, Panel.prepare, id_eq, hexToDec_changed one.digits,
      hexToDec_changed two.digits]
    exact xor_kept_iff _ _ _ _
  | or =>
    simp only [unsignedResult, Panel.prepare, id_eq, hexToDec_changed one.digits,
      hexToDec_changed two.digits]
    exact or_kept_iff _ _ _ _
  | _ =>
    simp only [Panel.prepare, hexToDec_hexCharUpper one.digits, hexToDec_hexCharUpper two.digits,
      HexAgrees]

theorem HexInput.take_eq (input : HexInput text) : text.take 19 = text :=
  List.take_of_length_le input.length_le

theorem HexInput.upper (input : HexInput text) : HexInput (hexCharUpper text) where
  digits := hexCharUpper_digits input.digits
  length_le := by
    rw [hexCharUpper, List.length_map]
    exact input.length_le

/-- In hexadecimal mode a panel shows the result, whatever the case of the letters, exactly
where the digits are read as they are meant or the lower-case letters of the panels XOR and
OR change no bit of the result. -/
theorem hex_right_iff (panel : Panel) (dialog : Dialog)
    (mode : dialog.ssDec = false ∧ dialog.ljDec = false)
    (one : HexInput (dialog.typed panel .num1)) (two : HexInput (dialog.typed panel .num2))
    (domain : UnsignedDomain panel (denoted (dialog.typed panel .num2))) :
    HexRight dialog panel ↔ HexAgrees panel (dialog.typed panel .num1) (dialog.typed panel .num2) := by
  have divisor : ∀ text, hexToDec (hexCharUpper text) = denoted (dialog.typed panel .num2) →
      panel = .div ∨ panel = .mod → hexToDec (panel.prepare text) ≠ 0 := by
    intro text read divides
    rcases divides with rfl | rfl
    · exact read ▸ domain
    · exact read ▸ domain
  have typed (operand : Operand) (input : HexInput (dialog.typed panel operand)) :
      dialog.getDlgItemText panel operand = dialog.typed panel operand := input.take_eq
  have upper (operand : Operand) (input : HexInput (dialog.typed panel operand)) :
      dialog.upper.getDlgItemText panel operand = hexCharUpper (dialog.typed panel operand) :=
    input.upper.take_eq
  have shows := hex_shows panel mode (by
    rw [typed .num2 two]
    exact divisor _ (hexToDec_hexCharUpper two.digits))
  have upperShows := @hex_shows dialog.upper panel mode (by
    rw [upper .num2 two]
    exact divisor _ (prepare_upper .add two))
  rw [typed .num1 one, typed .num2 two] at shows
  rw [upper .num1 one, upper .num2 two, prepare_upper panel one, prepare_upper panel two]
    at upperShows
  rw [← unsignedResult_iff panel one two]
  constructor
  · intro right
    exact shows.unique right.result
  · intro same
    rw [same] at shows
    refine ⟨shows, ?_⟩
    intro value
    rw [shows.iff, upperShows.iff]

/-- Both groups are in hexadecimal mode, and all panels have the same operands. -/
def hexDialog (first second : List UInt8) : Dialog where
  ssDec := false
  ljDec := false
  number _ _ := 0
  typed _ operand :=
    match operand with
    | .num1 => first
    | .num2 => second
  shown _ _ := []

theorem hexInput_letter : HexInput [0x61] where
  digits := by decide +kernel
  length_le := by decide

theorem hexInput_digit : HexInput [0x31] where
  digits := by decide +kernel
  length_le := by decide

theorem hex_right_sum : HexRight (hexDialog [0x61] [0x31]) .add :=
  (hex_right_iff .add (hexDialog [0x61] [0x31]) ⟨rfl, rfl⟩ hexInput_letter hexInput_digit trivial).mpr
    trivial

/-- `a` XOR `1` is shown as 2B. -/
theorem hex_letter_xor : HexInput [0x61] ∧ HexInput [0x31] ∧
    (Panel.xor.run (hexDialog [0x61] [0x31])).Shows .xor 0x2b ∧
    ¬ HexRight (hexDialog [0x61] [0x31]) .xor := by
  have shows : (Panel.xor.run (hexDialog [0x61] [0x31])).Shows .xor 0x2b :=
    @ljys_hex (hexDialog [0x61] [0x31]) .xor rfl rfl id (· ^^^ ·) (· ^^^ ·)
  refine ⟨hexInput_letter, hexInput_digit, shows, ?_⟩
  intro right
  exact absurd (shows.unique right.result) (by decide)

end IDAPlugins.MoreMenu.CalcDlg
