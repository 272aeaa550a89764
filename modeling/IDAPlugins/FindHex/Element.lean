import Mathlib.Tactic.Basic
import Mathlib.Data.Int.Notation

namespace IDAPlugins.FindHex

/-! # Elements of a hexadecimal pattern

Two characters of the pattern make one element. The search stores it as an
`int`: a mask of ignored bits in the top byte and the wanted bits in the low one.
-/

abbrev Code := BitVec 32

/-- `isxdigit`, with the value `sscanf` reads. -/
def hexDigit? (ch : UInt8) : Option Nat :=
  if 0x30 ≤ ch ∧ ch ≤ 0x39 then some (ch.toNat - 0x30)
  else if 0x41 ≤ ch ∧ ch ≤ 0x46 then some (ch.toNat - 0x37)
  else if 0x61 ≤ ch ∧ ch ≤ 0x66 then some (ch.toNat - 0x57)
  else none

def szTable : List UInt8 :=
  [0x30, 0x31, 0x32, 0x33, 0x34, 0x35, 0x36, 0x37, 0x38, 0x39, 0x41, 0x42, 0x43, 0x44, 0x45, 0x46]

def charToHex (ch : UInt8) : Int :=
  match szTable.idxOf? ch with
  | some i => i
  | none => -1

/-- `sscanf(pattern, "%02X", lpSub)` into a zeroed `int`, on the characters that
pass the input check: a non-digit ends the number. -/
def sscanf02X (high low : UInt8) : Code :=
  match hexDigit? high, hexDigit? low with
  | some x, some y => BitVec.ofNat 32 (16 * x + y)
  | some x, none => BitVec.ofNat 32 x
  | none, _ => 0

def encodeElement (high low : UInt8) : Code :=
  if high = 0x3F ∧ low = 0x3F then
    -1
  else if high = 0x3F then
    0xF0000000#32 + BitVec.ofInt 32 (charToHex low)
  else if low = 0x3F then
    0x0F000000#32 + BitVec.ofInt 32 (charToHex high) * 0x10
  else
    sscanf02X high low

def kmpcmp (byte : UInt8) (sub : Code) : Bool :=
  (byte.toBitVec.setWidth 32 &&& ~~~(sub.sshiftRight 24)) == (sub &&& 0xFF)

/-- The test `sub[j] == -1 || kmpcmp(main[i], sub[j])` of the scan. -/
def accepts (byte : UInt8) (sub : Code) : Bool :=
  sub == -1 || kmpcmp byte sub

def nibbleAgrees (digit : UInt8) (nibble : Nat) : Bool :=
  digit == 0x3F || hexDigit? digit == some nibble

/-- The byte has the two nibbles the element names, `?` naming any. -/
def elementAgrees (high low byte : UInt8) : Bool :=
  nibbleAgrees high (byte.toNat / 16) && nibbleAgrees low (byte.toNat % 16)

theorem hexDigit?_lt {ch : UInt8} {value : Nat} (read : hexDigit? ch = some value) : value < 16 := by
  unfold hexDigit? at read
  simp only [UInt8.le_iff_toNat_le, UInt8.reduceToNat] at read
  split at read
  · simp only [Option.some.injEq] at read
    omega
  · split at read
    · simp only [Option.some.injEq] at read
      omega
    · split at read
      · simp only [Option.some.injEq] at read
        omega
      · contradiction

theorem hexDigit?_question : hexDigit? 0x3F = none := by decide

theorem charToHex_of_mem {ch : UInt8} (member : ch ∈ szTable) :
    ∃ value : Nat, hexDigit? ch = some value ∧ charToHex ch = value := by
  revert ch
  decide +kernel

theorem kmpcmp_eq {byte : UInt8} {sub mask value : Code} (shifted : ~~~(sub.sshiftRight 24) = mask)
    (masked : sub &&& 0xFF = value) :
    kmpcmp byte sub = ((byte.toNat &&& mask.toNat) == value.toNat) := by
  have below := byte.toNat_lt
  rw [Bool.eq_iff_iff]
  simp only [kmpcmp, shifted, masked, beq_iff_eq, BitVec.toNat_eq, BitVec.toNat_and,
    BitVec.toNat_setWidth, UInt8.toNat_toBitVec]
  rw [Nat.mod_eq_of_lt (by omega)]

private theorem low_code_fields : ∀ value < 16,
    0xF0000000#32 + BitVec.ofNat 32 value ≠ -1 ∧
    ~~~((0xF0000000#32 + BitVec.ofNat 32 value).sshiftRight 24) = 15#32 ∧
    (0xF0000000#32 + BitVec.ofNat 32 value) &&& 0xFF = BitVec.ofNat 32 value := by
  decide +kernel

private theorem high_code_fields : ∀ value < 16,
    0x0F000000#32 + BitVec.ofNat 32 value * 0x10 ≠ -1 ∧
    ~~~((0x0F000000#32 + BitVec.ofNat 32 value * 0x10).sshiftRight 24) = 0xFFFFFFF0#32 ∧
    (0x0F000000#32 + BitVec.ofNat 32 value * 0x10) &&& 0xFF = BitVec.ofNat 32 (16 * value) := by
  decide +kernel

private theorem byte_code_fields : ∀ value < 256,
    BitVec.ofNat 32 value ≠ -1 ∧
    ~~~((BitVec.ofNat 32 value).sshiftRight 24) = BitVec.allOnes 32 ∧
    BitVec.ofNat 32 value &&& 0xFF = BitVec.ofNat 32 value := by
  decide +kernel

private theorem and_high_nibble : ∀ byte < 256, byte &&& 0xFFFFFFF0 = 16 * (byte / 16) := by
  decide +kernel

theorem accepts_low_code (byte : UInt8) {value : Nat} (small : value < 16) :
    accepts byte (0xF0000000#32 + BitVec.ofNat 32 value) = (byte.toNat % 16 == value) := by
  obtain ⟨notAny, shifted, masked⟩ := low_code_fields value small
  have low : byte.toNat &&& 15 = byte.toNat % 16 := Nat.and_two_pow_sub_one_eq_mod _ 4
  rw [accepts, beq_eq_false_iff_ne.mpr notAny, Bool.false_or, kmpcmp_eq shifted masked]
  simp only [BitVec.toNat_ofNat, Nat.reducePow, Nat.reduceMod, low]
  rw [Nat.mod_eq_of_lt (show value < 4294967296 by omega)]

theorem accepts_high_code (byte : UInt8) {value : Nat} (small : value < 16) :
    accepts byte (0x0F000000#32 + BitVec.ofNat 32 value * 0x10) = (byte.toNat / 16 == value) := by
  obtain ⟨notAny, shifted, masked⟩ := high_code_fields value small
  rw [accepts, beq_eq_false_iff_ne.mpr notAny, Bool.false_or, kmpcmp_eq shifted masked]
  simp only [BitVec.toNat_ofNat, Nat.reducePow, Nat.reduceMod, and_high_nibble _ byte.toNat_lt]
  rw [Bool.eq_iff_iff, beq_iff_eq, beq_iff_eq]
  omega

theorem accepts_byte_code (byte : UInt8) {value : Nat} (small : value < 256) :
    accepts byte (BitVec.ofNat 32 value) = (byte.toNat == value) := by
  obtain ⟨notAny, shifted, masked⟩ := byte_code_fields value small
  have below := byte.toNat_lt
  rw [accepts, beq_eq_false_iff_ne.mpr notAny, Bool.false_or, kmpcmp_eq shifted masked,
    BitVec.toNat_allOnes, Nat.and_two_pow_sub_one_eq_mod, BitVec.toNat_ofNat,
    Nat.mod_eq_of_lt (by omega), Nat.mod_eq_of_lt (by omega)]

theorem accepts_digits {high low : UInt8} {x y : Nat} (first : hexDigit? high = some x)
    (second : hexDigit? low = some y) (byte : UInt8) :
    accepts byte (encodeElement high low) = elementAgrees high low byte := by
  have highNot : high ≠ 0x3F := by rintro rfl; simp [hexDigit?_question] at first
  have lowNot : low ≠ 0x3F := by rintro rfl; simp [hexDigit?_question] at second
  have highBound := hexDigit?_lt first
  have lowBound := hexDigit?_lt second
  simp only [encodeElement, highNot, lowNot, false_and, if_false, sscanf02X, first, second]
  rw [accepts_byte_code byte (by omega), Bool.eq_iff_iff]
  simp only [elementAgrees, nibbleAgrees, beq_eq_false_iff_ne.mpr highNot,
    beq_eq_false_iff_ne.mpr lowNot, Bool.false_or, first, second, Bool.and_eq_true, beq_iff_eq,
    Option.some.injEq]
  omega

def UpperElement (ch : UInt8) : Prop :=
  ch = 0x3F ∨ ch ∈ szTable

instance (ch : UInt8) : Decidable (UpperElement ch) :=
  inferInstanceAs (Decidable (_ ∨ _))

/-- An element of upper-case digits and `?` accepts exactly the bytes it names. -/
theorem accepts_encodeElement {high low : UInt8} (first : UpperElement high)
    (second : UpperElement low) (byte : UInt8) :
    accepts byte (encodeElement high low) = elementAgrees high low byte := by
  rcases first with rfl | highDigit
  · rcases second with rfl | lowDigit
    · simp [encodeElement, accepts, elementAgrees, nibbleAgrees]
    · obtain ⟨y, read, table⟩ := charToHex_of_mem lowDigit
      have lowNot : low ≠ 0x3F := by rintro rfl; simp [hexDigit?_question] at read
      simp only [encodeElement, lowNot, and_false, if_false, if_true, table, BitVec.ofInt_natCast]
      rw [accepts_low_code byte (hexDigit?_lt read), Bool.eq_iff_iff]
      simp only [elementAgrees, nibbleAgrees, BEq.rfl, Bool.true_or, Bool.true_and, read,
        beq_eq_false_iff_ne.mpr lowNot, Bool.false_or, beq_iff_eq, Option.some.injEq]
      exact eq_comm
  · obtain ⟨x, read, table⟩ := charToHex_of_mem highDigit
    have highNot : high ≠ 0x3F := by rintro rfl; simp [hexDigit?_question] at read
    rcases second with rfl | lowDigit
    · simp only [encodeElement, highNot, false_and, if_false, if_true, table, BitVec.ofInt_natCast]
      rw [accepts_high_code byte (hexDigit?_lt read), Bool.eq_iff_iff]
      simp only [elementAgrees, nibbleAgrees, BEq.rfl, Bool.true_or, Bool.and_true, read,
        beq_eq_false_iff_ne.mpr highNot, Bool.false_or, beq_iff_eq, Option.some.injEq]
      exact eq_comm
    · obtain ⟨y, readLow, -⟩ := charToHex_of_mem lowDigit
      exact accepts_digits read readLow byte

theorem upperElement_read {ch : UInt8} (upper : UpperElement ch) :
    ch = 0x3F ∨ ∃ value < 16, hexDigit? ch = some value := by
  rcases upper with question | digit
  · exact .inl question
  · obtain ⟨value, read, -⟩ := charToHex_of_mem digit
    exact .inr ⟨value, hexDigit?_lt read, read⟩

theorem nibbleAgrees_exists {ch : UInt8} (upper : UpperElement ch) :
    ∃ nibble < 16, nibbleAgrees ch nibble = true := by
  rcases upperElement_read upper with rfl | ⟨value, small, read⟩
  · exact ⟨0, by decide, rfl⟩
  · exact ⟨value, small, by simp [nibbleAgrees, read]⟩

theorem question_of_nibbleAgrees {ch : UInt8} (all : ∀ nibble < 16, nibbleAgrees ch nibble = true) :
    ch = 0x3F := by
  have zero := all 0 (by decide)
  have one := all 1 (by decide)
  simp only [nibbleAgrees, Bool.or_eq_true, beq_iff_eq] at zero one
  rcases zero with question | zero
  · exact question
  · rcases one with question | one
    · exact question
    · rw [zero] at one
      simp at one

theorem nibbleAgrees_ext {first second : UInt8} (left : UpperElement first)
    (right : UpperElement second)
    (same : ∀ nibble < 16, nibbleAgrees first nibble = nibbleAgrees second nibble) :
    first = second := by
  have distinct : ∀ a ∈ szTable, ∀ b ∈ szTable, hexDigit? a = hexDigit? b → a = b := by
    decide +kernel
  rcases left with rfl | leftDigit
  · exact (question_of_nibbleAgrees fun nibble small => (same nibble small).symm.trans rfl).symm
  · rcases right with rfl | rightDigit
    · exact question_of_nibbleAgrees fun nibble small => (same nibble small).trans rfl
    · obtain ⟨value, read, -⟩ := charToHex_of_mem leftDigit
      obtain ⟨other, readOther, -⟩ := charToHex_of_mem rightDigit
      have secondNot : second ≠ 0x3F := by rintro rfl; simp [hexDigit?_question] at readOther
      have agreed := same value (hexDigit?_lt read)
      have accepted : nibbleAgrees first value = true := by simp [nibbleAgrees, read]
      rw [accepted, nibbleAgrees, beq_eq_false_iff_ne.mpr secondNot, Bool.false_or, eq_comm,
        beq_iff_eq] at agreed
      exact distinct _ leftDigit _ rightDigit (read.trans agreed.symm)

theorem elementAgrees_join {high low : UInt8} {x y : Nat} (highSmall : x < 16) (lowSmall : y < 16) :
    elementAgrees high low (UInt8.ofNat (16 * x + y)) =
      (nibbleAgrees high x && nibbleAgrees low y) := by
  have value : (UInt8.ofNat (16 * x + y)).toNat = 16 * x + y := by
    rw [UInt8.toNat_ofNat']
    omega
  rw [elementAgrees, value, show (16 * x + y) / 16 = x by omega,
    show (16 * x + y) % 16 = y by omega]

/-- Elements that name the same bytes are written alike. -/
theorem elementAgrees_ext {high low high' low' : UInt8} (first : UpperElement high)
    (second : UpperElement low) (third : UpperElement high') (fourth : UpperElement low')
    (same : ∀ byte, elementAgrees high low byte = elementAgrees high' low' byte) :
    high = high' ∧ low = low' := by
  have joined : ∀ x < 16, ∀ y < 16,
      (nibbleAgrees high x && nibbleAgrees low y) = (nibbleAgrees high' x && nibbleAgrees low' y) := by
    intro x highSmall y lowSmall
    rw [← elementAgrees_join highSmall lowSmall, ← elementAgrees_join highSmall lowSmall]
    exact same _
  obtain ⟨x, highSmall, highAgrees⟩ := nibbleAgrees_exists first
  obtain ⟨y, lowSmall, lowAgrees⟩ := nibbleAgrees_exists second
  have both := joined x highSmall y lowSmall
  rw [highAgrees, lowAgrees, Bool.and_self, eq_comm, Bool.and_eq_true] at both
  refine ⟨nibbleAgrees_ext first third fun nibble small => ?_,
    nibbleAgrees_ext second fourth fun nibble small => ?_⟩
  · simpa only [lowAgrees, both.2, Bool.and_true] using joined nibble small y lowSmall
  · simpa only [highAgrees, both.1, Bool.true_and] using joined x highSmall nibble small

end IDAPlugins.FindHex
