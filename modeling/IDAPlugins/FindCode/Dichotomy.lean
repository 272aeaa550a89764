import IDAPlugins.FindCode.Snapshot
import Mathlib.Data.List.Nodup

namespace IDAPlugins.FindCode

/-! # Looking an offset up

`DichotomySearch` bisects the array of line offsets in `unsigned int` arithmetic,
between a start index and the last index of the array.
-/

structure Bisection where
  low : Nat
  high : Nat

def dichotomyPass (sSource : List Nat) (key : Nat) (state : Bisection) :
    Option (Loop.Pass Bisection Nat) :=
  if state.low ≤ state.high then do
    let mid := (state.low + state.high) % 4294967296 / 2
    let value ← sSource[mid]?
    if value = key then
      some (.leave mid)
    else if value > key then
      some (.again { state with high := (mid + 4294967295) % 4294967296 })
    else
      some (.again { state with low := (mid + 1) % 4294967296 })
  else
    some (.leave 4294967295)

def dichotomySearch (sSource : List Nat) (array_size key startindex : Nat) : Option Nat :=
  Loop.run (dichotomyPass sSource key) (array_size + 1)
    { low := startindex, high := (array_size + 4294967295) % 4294967296 }

/-- What the search is to return: the index of the key, or `0xFFFFFFFF` without one. -/
def Looked (sSource : List Nat) (key startindex index : Nat) : Prop :=
  (startindex ≤ index ∧ sSource[index]? = some key) ∨
    (index = 4294967295 ∧ ∀ k, startindex ≤ k → sSource[k]? ≠ some key)

/-- No index before the start, or the key is not below the first element. -/
def Reachable (sSource : List Nat) (key startindex : Nat) : Prop :=
  0 < startindex ∨ ∃ first, sSource.head? = some first ∧ first ≤ key

variable {sSource : List Nat} {key startindex : Nat}

/-- What lies outside the interval is smaller or larger than the key. -/
structure Bracket (sSource : List Nat) (key startindex : Nat) (state : Bisection) : Prop where
  start : startindex ≤ state.low
  width : state.low ≤ state.high + 1
  inside : state.high < sSource.length
  below : ∀ k (bound : k < sSource.length), startindex ≤ k → k < state.low → sSource[k] < key
  above : ∀ k (bound : k < sSource.length), state.high < k → key < sSource[k]

theorem Bracket.left {state : Bisection} (bracket : Bracket sSource key startindex state)
    (increasing : sSource.Pairwise (· < ·)) {mid : Nat} (middle : mid < sSource.length)
    (lower : state.low ≤ mid) (positive : 0 < mid)
    (larger : key < sSource[mid]) :
    Bracket sSource key startindex { state with high := mid - 1 } where
  start := bracket.start
  width := by
    simp only
    omega
  inside := by
    simp only
    omega
  below := bracket.below
  above := by
    intro k bound beyond
    have beyond : mid - 1 < k := beyond
    rcases Nat.lt_or_eq_of_le (show mid ≤ k by omega) with further | rfl
    · exact Nat.lt_trans larger (List.pairwise_iff_getElem.mp increasing _ _ middle bound further)
    · exact larger

theorem Bracket.right {state : Bisection} (bracket : Bracket sSource key startindex state)
    (increasing : sSource.Pairwise (· < ·)) {mid : Nat} (middle : mid < sSource.length)
    (lower : state.low ≤ mid) (upper : mid ≤ state.high) (smaller : sSource[mid] < key) :
    Bracket sSource key startindex { state with low := mid + 1 } where
  start := Nat.le_trans bracket.start (Nat.le_succ_of_le lower)
  width := Nat.succ_le_succ upper
  inside := bracket.inside
  below := by
    intro k bound after before
    rcases Nat.lt_or_eq_of_le (Nat.le_of_lt_succ before) with earlier | rfl
    · exact Nat.lt_trans (List.pairwise_iff_getElem.mp increasing _ _ bound middle earlier) smaller
    · exact smaller
  above := bracket.above

theorem Bracket.missing {state : Bisection} (bracket : Bracket sSource key startindex state)
    (empty : state.high < state.low) : Looked sSource key startindex 4294967295 := by
  refine .inr ⟨rfl, fun k after found => ?_⟩
  obtain ⟨bound, same⟩ := List.getElem?_eq_some_iff.mp found
  by_cases before : k < state.low
  · have smaller := bracket.below k bound after before
    omega
  · have larger := bracket.above k bound (by omega)
    omega

theorem dichotomyPass_sound (increasing : sSource.Pairwise (· < ·))
    (small : sSource.length < 2147483648) (reachable : Reachable sSource key startindex) :
    Loop.Sound (dichotomyPass sSource key) (Bracket sSource key startindex)
      (fun state => state.high + 1 - state.low) (Looked sSource key startindex) := by
  rintro ⟨low, high⟩ bracket
  have width := bracket.width
  have inside := bracket.inside
  simp only at width inside
  by_cases more : low ≤ high
  · have mid : (low + high) % 4294967296 / 2 = (low + high) / 2 := by omega
    have middle : (low + high) / 2 < sSource.length := by omega
    simp only [dichotomyPass, if_pos more, mid, List.getElem?_eq_getElem middle,
      Option.bind_eq_bind, Option.bind_some]
    rcases Nat.lt_trichotomy sSource[(low + high) / 2] key with smaller | same | larger
    · have next := bracket.right increasing middle (by simp only; omega) (by simp only; omega) smaller
      rw [if_neg (by omega), if_neg (by omega), Nat.mod_eq_of_lt (by omega)]
      refine .inl ⟨_, rfl, next, ?_⟩
      simp only
      omega
    · refine .inr ⟨_, if_pos same, .inl ⟨?_, ?_⟩⟩
      · exact Nat.le_trans bracket.start (by simp only; omega)
      · rw [List.getElem?_eq_getElem middle, same]
    · -- An element at index 0 above the key would have to be the first one.
      have positive : 0 < (low + high) / 2 := by
        rcases reachable with later | ⟨first, head, least⟩
        · have := bracket.start
          simp only at this
          omega
        · by_contra zero
          have first' : sSource[(low + high) / 2] = first := by
            rw [List.head?_eq_getElem?, List.getElem?_eq_some_iff] at head
            obtain ⟨-, rfl⟩ := head
            congr
            omega
          omega
      have next := bracket.left increasing middle (by simp only; omega) positive larger
      have high : ((low + high) / 2 + 4294967295) % 4294967296 = (low + high) / 2 - 1 := by omega
      rw [if_neg (by omega), if_pos larger, high]
      refine .inl ⟨_, rfl, next, ?_⟩
      simp only
      omega
  · exact .inr ⟨_, if_neg more, bracket.missing (by simp only; omega)⟩

theorem dichotomySearch_looks (increasing : sSource.Pairwise (· < ·))
    (small : sSource.length < 2147483648) (inside : startindex ≤ sSource.length)
    (reachable : Reachable sSource key startindex) :
    ∃ index, dichotomySearch sSource sSource.length key startindex = some index ∧
      Looked sSource key startindex index := by
  have filled : 0 < sSource.length := by
    rcases reachable with later | ⟨first, head, -⟩
    · omega
    · exact List.length_pos_iff.mpr fun empty => by rw [empty] at head; cases head
  have high : (sSource.length + 4294967295) % 4294967296 = sSource.length - 1 := by omega
  rw [dichotomySearch, high]
  refine Loop.run_total (dichotomyPass_sound increasing small reachable)
    ⟨Nat.le_refl _, ?_, ?_, ?_, ?_⟩ ?_
  · simp only
    omega
  · simp only
    omega
  · intro k bound after before
    exact absurd before (Nat.not_lt_of_le after)
  · intro k bound beyond
    simp only at beyond
    omega
  · simp only
    omega

/-- In an increasing array, a key at or behind the start index is found. -/
theorem dichotomySearch_finds (increasing : sSource.Pairwise (· < ·))
    (small : sSource.length < 2147483648) {index startindex : Nat} (bound : index < sSource.length)
    (after : startindex ≤ index) :
    dichotomySearch sSource sSource.length sSource[index] startindex = some index := by
  have positive : 0 < sSource.length := by omega
  have least : sSource[0] ≤ sSource[index] := by
    rcases Nat.eq_zero_or_pos index with rfl | later
    · exact Nat.le_refl _
    · exact Nat.le_of_lt (List.pairwise_iff_getElem.mp increasing _ _ positive bound later)
  have reachable : Reachable sSource sSource[index] startindex :=
    .inr ⟨_, List.head?_eq_getElem?.trans (List.getElem?_eq_getElem positive), least⟩
  obtain ⟨found, searched, ⟨-, same⟩ | ⟨-, missing⟩⟩ :=
    dichotomySearch_looks increasing small (by omega) reachable
  · obtain ⟨inside, same⟩ := List.getElem?_eq_some_iff.mp same
    have distinct : sSource.Nodup := increasing.imp Nat.ne_of_lt
    rw [searched, (List.Nodup.getElem_inj_iff distinct).mp same]
  · exact absurd (List.getElem?_eq_getElem bound) (missing index after)

/-- With `low` at 0 the upper bound goes down to 0 and then wraps to `0xFFFFFFFF`, whose
half is behind the array. -/
def Sinks (sSource : List Nat) (state : Bisection) : Prop :=
  state.low = 0 ∧ (state.high < sSource.length ∨ state.high = 4294967295)

theorem dichotomyPass_sinks (increasing : sSource.Pairwise (· < ·))
    (small : sSource.length < 2147483648) (first : ∀ value ∈ sSource.head?, key < value)
    (state : Bisection) (sinks : Sinks sSource state) :
    dichotomyPass sSource key state = none ∨
      ∃ next, dichotomyPass sSource key state = some (.again next) ∧ Sinks sSource next := by
  obtain ⟨low, high⟩ := state
  obtain ⟨zero, upper⟩ := sinks
  simp only at zero upper
  subst zero
  have mid : (0 + high) % 4294967296 / 2 = high / 2 := by omega
  simp only [dichotomyPass, if_pos (Nat.zero_le high), mid, Option.bind_eq_bind]
  rcases upper with inside | rfl
  · have middle : high / 2 < sSource.length := by omega
    have positive : 0 < sSource.length := by omega
    have least := first sSource[0] (List.head?_eq_getElem?.trans (List.getElem?_eq_getElem positive))
    have larger : key < sSource[high / 2] := by
      rcases Nat.eq_zero_or_pos (high / 2) with same | later
      · simpa only [same] using least
      · exact Nat.lt_trans least
          (List.pairwise_iff_getElem.mp increasing _ _ positive middle later)
    rw [List.getElem?_eq_getElem middle, Option.bind_some, if_neg (by omega), if_pos larger]
    refine .inr ⟨_, rfl, rfl, ?_⟩
    simp only
    omega
  · rw [List.getElem?_eq_none (by omega)]
    exact .inl rfl

/-- No number of passes brings a result. -/
theorem dichotomySearch_never (increasing : sSource.Pairwise (· < ·))
    (small : sSource.length < 2147483648) (first : ∀ value ∈ sSource.head?, key < value)
    (fuel : Nat) :
    Loop.run (dichotomyPass sSource key) fuel
      { low := 0, high := (sSource.length + 4294967295) % 4294967296 } = none := by
  refine Loop.run_stuck (dichotomyPass_sinks increasing small first) fuel ⟨rfl, ?_⟩
  simp only
  omega

/-- In an increasing array the search ends, reads nothing outside and looks the key up, exactly
if it starts behind the first element or the key is not below that element. -/
theorem dichotomySearch_looks_iff (sSource : List Nat) (key startindex : Nat)
    (increasing : sSource.Pairwise (· < ·)) (small : sSource.length < 2147483648)
    (inside : startindex ≤ sSource.length) :
    (∃ index, dichotomySearch sSource sSource.length key startindex = some index ∧
      Looked sSource key startindex index) ↔ Reachable sSource key startindex := by
  refine ⟨fun ⟨index, searched, _⟩ => ?_, dichotomySearch_looks increasing small inside⟩
  by_contra unreachable
  rw [Reachable, not_or] at unreachable
  obtain ⟨start, below⟩ := unreachable
  obtain rfl : startindex = 0 := by omega
  have first : ∀ value ∈ sSource.head?, key < value := by
    intro value head
    exact Nat.lt_of_not_le fun least => below ⟨value, head, least⟩
  cases (dichotomySearch_never increasing small first _).symm.trans searched

theorem dichotomySearch_looks_three :
    ∃ index, dichotomySearch [1, 5, 9] 3 7 0 = some index ∧ Looked [1, 5, 9] 7 0 index :=
  (dichotomySearch_looks_iff [1, 5, 9] 7 0 (by decide) (by decide) (by decide)).mpr
    (.inr ⟨1, rfl, by decide⟩)

/-- In the empty array the middle of `0` and `0xFFFFFFFF` is read. -/
theorem dichotomySearch_reads_outside :
    dichotomyPass [] 7 { low := 0, high := 4294967295 } = none ∧
      ¬ ∃ index, dichotomySearch [] 0 7 0 = some index ∧ Looked [] 7 0 index := by
  refine ⟨rfl, ?_⟩
  rintro ⟨index, searched, -⟩
  cases searched

theorem Snapshot.asmoffset_length (snapshot : Snapshot) :
    snapshot.asmoffset.length = snapshot.lines.length := by
  rw [asmoffset, List.length_map, List.length_range]

theorem Snapshot.asmoffset_getElem (snapshot : Snapshot) {k : Nat}
    (bound : k < snapshot.asmoffset.length) :
    snapshot.asmoffset[k] = lineOffset snapshot.lines k := by
  simp only [asmoffset, List.getElem_map, List.getElem_range]

theorem Snapshot.asmoffset_increasing (snapshot : Snapshot) :
    snapshot.asmoffset.Pairwise (· < ·) := by
  rw [List.pairwise_iff_getElem]
  intro i j first second before
  rw [asmoffset_getElem, asmoffset_getElem]
  rw [asmoffset_length] at second
  have := lineOffset_le (Nat.le_of_lt before) (Nat.le_of_lt second)
  omega

theorem Snapshot.dichotomySearch_line (snapshot : Snapshot) {k startindex : Nat}
    (bound : k < snapshot.lines.length) (after : startindex ≤ k) :
    dichotomySearch snapshot.asmoffset snapshot.asmoffset.length (lineOffset snapshot.lines k)
      startindex = some k := by
  have inside : k < snapshot.asmoffset.length := by rwa [asmoffset_length]
  have room := lineOffset_le (Nat.zero_le snapshot.lines.length) (Nat.le_refl _)
  have small := snapshot.small
  have length : lineOffset snapshot.lines snapshot.lines.length =
      1 + (putLines snapshot.lines).length := by rw [lineOffset, List.take_length]
  rw [← snapshot.asmoffset_getElem inside]
  exact dichotomySearch_finds snapshot.asmoffset_increasing (by rw [asmoffset_length]; omega) inside
    after

end IDAPlugins.FindCode
