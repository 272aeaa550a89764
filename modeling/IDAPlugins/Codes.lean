import Mathlib.Data.List.Basic

namespace IDAPlugins.Codes

/-! # Codes one behind another

A row of units is written as the codes of its units. Where the code of unit `k`
starts is the length of the codes before it.
-/

variable {α β : Type}

def encode (code : α → List β) (units : List α) : List β :=
  units.flatMap code

def place (code : α → List β) (units : List α) (k : Nat) : Nat :=
  (encode code (units.take k)).length

variable {code : α → List β} {units : List α} {k : Nat}

@[simp] theorem encode_nil : encode code ([] : List α) = [] := rfl

@[simp] theorem encode_cons (unit : α) (rest : List α) :
    encode code (unit :: rest) = code unit ++ encode code rest := rfl

theorem encode_append (first second : List α) :
    encode code (first ++ second) = encode code first ++ encode code second :=
  List.flatMap_append

@[simp] theorem place_zero : place code units 0 = 0 := rfl

theorem place_length : place code units units.length = (encode code units).length := by
  rw [place, List.take_length]

theorem encode_take_succ (bound : k < units.length) :
    encode code (units.take (k + 1)) = encode code (units.take k) ++ code units[k] := by
  rw [← List.take_append_getElem bound, encode_append, encode_cons, encode_nil, List.append_nil]

theorem place_succ (bound : k < units.length) :
    place code units (k + 1) = place code units k + (code units[k]).length := by
  rw [place, encode_take_succ bound, List.length_append, ← place]

theorem encode_split (k : Nat) :
    encode code units = encode code (units.take k) ++ encode code (units.drop k) := by
  rw [← encode_append, List.take_append_drop]

theorem place_le (code : α → List β) (units : List α) (k : Nat) :
    place code units k ≤ (encode code units).length := by
  rw [encode_split k, List.length_append, ← place]
  exact Nat.le_add_right _ _

theorem place_succ_le (code : α → List β) (bound : k < units.length) :
    place code units k + (code units[k]).length ≤ (encode code units).length := by
  rw [← place_succ bound]
  exact place_le code units (k + 1)

/-- What follows the place of a unit starts with its code. -/
theorem drop_place (bound : k < units.length) :
    (encode code units).drop (place code units k) =
      code units[k] ++ encode code (units.drop (k + 1)) := by
  rw [encode_split k, place, List.drop_left, List.drop_eq_getElem_cons bound, encode_cons]

theorem drop_place_append (bound : k < units.length) (after : List β) :
    (encode code units ++ after).drop (place code units k) =
      code units[k] ++ (encode code (units.drop (k + 1)) ++ after) := by
  rw [List.drop_append_of_le_length (place_le code units k), drop_place bound, List.append_assoc]

end IDAPlugins.Codes
