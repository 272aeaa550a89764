import Mathlib.Tactic.Basic
import Mathlib.Logic.Function.Basic

namespace IDAPlugins.Cyclic

/-! # Runs in a memory whose addresses wrap

A run of values lies at the addresses behind one another, counted modulo the size of the
memory. Only writable cells take a value. A run no longer than the memory meets no cell
twice, so what was read before it was written puts the memory back.
-/

variable {α : Type}

def readFrom (size : Nat) (memory : Nat → α) (start count : Nat) : List α :=
  (List.range count).map fun i => memory ((start + i) % size)

def store (writable : Nat → Bool) (memory : Nat → α) (address : Nat) (value : α) : Nat → α :=
  if writable address then Function.update memory address value else memory

def writeFrom (size : Nat) (writable : Nat → Bool) : Nat → List α → (Nat → α) → Nat → α
  | _, [], memory => memory
  | start, value :: rest, memory =>
    writeFrom size writable (start + 1) rest (store writable memory (start % size) value)

/-- How far an address lies behind a start. -/
def distance (size start address : Nat) : Nat :=
  if start % size ≤ address then address - start % size else address + size - start % size

/-- The cells that a run of some length changes. -/
def Touches (size : Nat) (writable : Nat → Bool) (start count address : Nat) : Prop :=
  writable address = true ∧ address < size ∧ distance size start address < count

variable {size start count address : Nat} {writable : Nat → Bool} {memory : Nat → α} {values : List α}

theorem readFrom_length : (readFrom size memory start count).length = count := by
  rw [readFrom, List.length_map, List.length_range]

theorem readFrom_getElem? {i : Nat} (inside : i < count) :
    (readFrom size memory start count)[i]? = some (memory ((start + i) % size)) := by
  rw [readFrom, List.getElem?_map, List.getElem?_range inside, Option.map_some]

theorem readFrom_succ :
    readFrom size memory start (count + 1) =
      memory (start % size) :: readFrom size memory (start + 1) count := by
  rw [readFrom, List.range_succ_eq_map, List.map_cons, List.map_map, readFrom, Nat.add_zero]
  congr 1
  refine List.map_congr_left fun i _ => ?_
  rw [Function.comp_apply, Nat.succ_eq_add_one, Nat.add_assoc start 1, Nat.add_comm 1]

theorem mod_succ (positive : 0 < size) :
    (start + 1) % size = if start % size + 1 = size then 0 else start % size + 1 := by
  have small := Nat.mod_lt start positive
  rw [← Nat.mod_add_mod]
  split
  · rename_i last
    rw [last, Nat.mod_self]
  · exact Nat.mod_eq_of_lt (by omega)

theorem distance_start : distance size start (start % size) = 0 := by
  rw [distance, if_pos (Nat.le_refl _), Nat.sub_self]

theorem distance_succ (inside : address < size) (other : address ≠ start % size) :
    distance size start address = distance size (start + 1) address + 1 := by
  have small := Nat.mod_lt start (Nat.zero_lt_of_lt inside)
  have next := @mod_succ size start (Nat.zero_lt_of_lt inside)
  unfold distance
  split at next <;> split <;> split <;> omega

theorem distance_last (positive : 0 < size) :
    distance size (start + 1) (start % size) = size - 1 := by
  have small := Nat.mod_lt start positive
  have next := @mod_succ size start positive
  unfold distance
  split at next <;> split <;> omega

theorem add_distance (inside : address < size) :
    (start + distance size start address) % size = address := by
  have small := Nat.mod_lt start (Nat.zero_lt_of_lt inside)
  rw [← Nat.mod_add_mod, distance]
  split
  · rw [Nat.add_sub_cancel' (by assumption), Nat.mod_eq_of_lt inside]
  · rw [show start % size + (address + size - start % size) = address + size by omega,
      Nat.add_mod_right, Nat.mod_eq_of_lt inside]

theorem distance_add {i : Nat} (bound : i < size) : distance size start ((start + i) % size) = i := by
  have small := Nat.mod_lt start (Nat.zero_lt_of_lt bound)
  rw [← Nat.mod_add_mod]
  by_cases inside : start % size + i < size
  · rw [Nat.mod_eq_of_lt inside, distance, if_pos (Nat.le_add_right _ _), Nat.add_sub_cancel_left]
  · rw [Nat.mod_eq_sub_mod (Nat.le_of_not_lt inside), Nat.mod_eq_of_lt (by omega), distance,
      if_neg (by omega)]
    omega

theorem store_self (value : α) (writes : writable address = true) :
    store writable memory address value address = value := by
  rw [store, if_pos writes, Function.update_self]

theorem store_other {other : Nat} (value : α) (outside : address ≠ other ∨ writable address = false) :
    store writable memory other value address = memory address := by
  rw [store]
  split
  · rename_i writes
    refine Function.update_of_ne ?_ value memory
    rintro rfl
    rcases outside with differs | unwritable
    · exact differs rfl
    · rw [writes] at unwritable
      cases unwritable
  · rfl

/-- A run does not meet the cell in front of it. -/
theorem readFrom_store {value : α} (bounded : count < size) :
    readFrom size (store writable memory (start % size) value) (start + 1) count =
      readFrom size memory (start + 1) count := by
  refine List.map_congr_left fun i member => store_other value (Or.inl fun same => ?_)
  have bound := List.mem_range.mp member
  have near := @distance_add size start (i + 1) (by omega)
  rw [Nat.add_assoc, Nat.add_comm 1] at same
  rw [same, distance_start] at near
  omega

theorem touches_succ (bounded : count < size) :
    Touches size writable start (count + 1) address ↔
      address = start % size ∧ writable address = true ∨
        Touches size writable (start + 1) count address := by
  have positive : 0 < size := Nat.zero_lt_of_lt bounded
  by_cases here : address = start % size
  · subst here
    have last := @distance_last size start positive
    simp only [Touches, distance_start, Nat.mod_lt start positive, Nat.succ_pos, last, true_and,
      and_true]
    constructor
    · exact Or.inl
    · rintro (writes | ⟨writes, -⟩) <;> exact writes
  · simp only [Touches, here, false_and, false_or]
    refine and_congr_right fun _ => and_congr_right fun inside => ?_
    rw [distance_succ inside here]
    omega

/-- A run changes the writable cells that it covers, and no others. -/
theorem writeFrom_apply (bounded : values.length ≤ size) (address : Nat) :
    (¬ Touches size writable start values.length address →
        writeFrom size writable start values memory address = memory address) ∧
      (Touches size writable start values.length address →
        values[distance size start address]? =
          some (writeFrom size writable start values memory address)) := by
  induction values generalizing start memory with
  | nil =>
    refine ⟨fun _ => rfl, fun touches => ?_⟩
    exact absurd touches.2.2 (Nat.not_lt_zero _)
  | cons value rest ih =>
    rw [List.length_cons] at bounded ⊢
    obtain ⟨outside, inside⟩ :=
      @ih (start + 1) (store writable memory (start % size) value) (Nat.le_of_succ_le bounded)
    rw [touches_succ bounded, writeFrom]
    constructor
    · intro free
      obtain ⟨other, free⟩ := not_or.mp free
      rw [outside free]
      refine store_other value ?_
      by_cases here : address = start % size
      · exact Or.inr (Bool.eq_false_iff.mpr fun writes => other ⟨here, writes⟩)
      · exact Or.inl here
    · intro touches
      by_cases here : address = start % size
      · have free : ¬ Touches size writable (start + 1) rest.length address := by
          rintro ⟨-, inMemory, near⟩
          rw [here, distance_last (Nat.zero_lt_of_lt inMemory)] at near
          omega
        have writes : writable address = true := touches.elim And.right And.left
        rw [outside free, here, distance_start, ← here, store_self value writes]
        rfl
      · have later := touches.resolve_left fun first => here first.1
        rw [← inside later, distance_succ later.2.1 here, List.getElem?_cons_succ]

/-- The values that were read from the cells of a run put the memory back. -/
theorem writeFrom_restores (bounded : values.length ≤ size) :
    writeFrom size writable start (readFrom size memory start values.length)
      (writeFrom size writable start values memory) = memory := by
  funext address
  have length : (readFrom size memory start values.length).length = values.length := readFrom_length
  obtain ⟨outside, inside⟩ := @writeFrom_apply α size start writable
    (writeFrom size writable start values memory) _ (length ▸ bounded) address
  rw [length] at outside inside
  by_cases touches : Touches size writable start values.length address
  · have read := inside touches
    rw [readFrom_getElem? touches.2.2, add_distance touches.2.1, Option.some.injEq] at read
    exact read.symm
  · rw [outside touches]
    exact (writeFrom_apply bounded address).1 touches

end IDAPlugins.Cyclic
