import Mathlib.Data.Int.Notation
import Mathlib.Tactic.Basic

namespace IDAPlugins.Machine

/-! Fixed-width arithmetic where the sources rely on it: `int` and `unsigned int`
are 32 bits wide in both builds. -/

def int32 (value : Int) : Int :=
  if value % 4294967296 < 2147483648 then value % 4294967296 else value % 4294967296 - 4294967296

theorem int32_of_range {value : Int} (lower : -2147483648 ≤ value) (upper : value < 2147483648) :
    int32 value = value := by
  unfold int32
  split <;> omega

/-- An unsigned difference read as an `int` is negative or the difference itself. -/
theorem int32_of_unsigned {value : Int} (lower : 0 ≤ value) (upper : value < 4294967296) :
    int32 value < 0 ∨ int32 value = value := by
  unfold int32
  split <;> omega

/-- A statement about a byte is settled by the 256 values. -/
theorem forall_byte {holds : UInt8 → Prop} (values : ∀ value < 256, holds (UInt8.ofNat value))
    (byte : UInt8) : holds byte := by
  have value := values byte.toNat byte.toNat_lt
  rw [UInt8.ofNat_toNat] at value
  exact value

end IDAPlugins.Machine
