import Mathlib.Data.Nat.Digits.Defs
import Mathlib.Tactic.Basic

namespace IDAPlugins.HexText

/-! # Numbers written in hexadecimal

The digits of `%X`, filled with zeros up to a width, and the number they are read as;
and the number that digits with letters of both cases stand for.
-/

def digitChar (digit : Nat) : UInt8 :=
  UInt8.ofNat (if digit < 10 then 0x30 + digit else 0x37 + digit)

def digitValue (ch : UInt8) : Nat :=
  if ch ≤ 0x39 then ch.toNat - 0x30 else ch.toNat - 0x37

def hexText (width value : Nat) : List UInt8 :=
  let digits := (Nat.digits 16 value).reverse.map digitChar
  List.replicate (width - digits.length) 0x30 ++ digits

def readHex (text : List UInt8) : Nat :=
  text.foldl (fun value ch => digitValue ch + 16 * value) 0

/-- A digit with a letter of either case. -/
def IsHexDigit (ch : UInt8) : Prop :=
  0x30 ≤ ch ∧ ch ≤ 0x39 ∨ 0x41 ≤ ch ∧ ch ≤ 0x46 ∨ 0x61 ≤ ch ∧ ch ≤ 0x66

instance (ch : UInt8) : Decidable (IsHexDigit ch) :=
  inferInstanceAs (Decidable (_ ∨ _))

def hexValue (ch : UInt8) : Nat :=
  if ch ≤ 0x39 then ch.toNat - 0x30
  else if ch ≤ 0x46 then ch.toNat - 0x37
  else ch.toNat - 0x57

/-- The number that digits of either case stand for. -/
def hexNumber (text : List UInt8) : Nat :=
  text.foldl (fun value ch => value * 16 + hexValue ch) 0

theorem digitValue_digitChar {digit : Nat} (small : digit < 16) :
    digitValue (digitChar digit) = digit := by
  have all : ∀ d ∈ List.range 16, digitValue (digitChar d) = d := by decide
  exact all digit (List.mem_range.mpr small)

/-- Only digits are written, and at least as many as the width. -/
theorem mem_hexText {width value : Nat} {ch : UInt8} (member : ch ∈ hexText width value) :
    ∃ digit < 16, ch = digitChar digit := by
  rcases List.mem_append.mp member with zero | digit
  · exact ⟨0, by decide, List.eq_of_mem_replicate zero⟩
  · obtain ⟨d, inside, rfl⟩ := List.mem_map.mp digit
    exact ⟨d, Nat.digits_lt_base (by decide) (List.mem_reverse.mp inside), rfl⟩

theorem hexText_length (width value : Nat) :
    (hexText width value).length = max width (Nat.digits 16 value).length := by
  rw [hexText, List.length_append, List.length_replicate, List.length_map, List.length_reverse]
  omega

/-- The text is read back as the number it was written for. -/
theorem readHex_hexText (width value : Nat) : readHex (hexText width value) = value := by
  have zeros (count : Nat) : readHex (List.replicate count 0x30) = 0 := by
    induction count with
    | zero => rfl
    | succ count ih => exact ih
  have digits (text : List Nat) (small : ∀ d ∈ text, d < 16) :
      (text.reverse.map digitChar).foldl (fun value ch => digitValue ch + 16 * value) 0 =
        Nat.ofDigits 16 text := by
    induction text with
    | nil => rfl
    | cons d text ih =>
      obtain ⟨first, small⟩ := List.forall_mem_cons.mp small
      rw [List.reverse_cons, List.map_append, List.foldl_append, ih small, List.map_singleton,
        List.foldl_cons, List.foldl_nil, digitValue_digitChar first, Nat.ofDigits_cons]
  have small : ∀ d ∈ Nat.digits 16 value, d < 16 := fun d member => Nat.digits_lt_base (by decide) member
  have filled := zeros (width - ((Nat.digits 16 value).reverse.map digitChar).length)
  rw [readHex] at filled
  rw [readHex, hexText, List.foldl_append, filled, digits _ small, Nat.ofDigits_digits]

end IDAPlugins.HexText
