import IDAPlugins.Loop
import IDAPlugins.Search.Pattern
import Mathlib.Logic.Function.Basic
import Mathlib.Data.Int.Notation

namespace IDAPlugins.Search

/-! # Building a failure table

The loop that fills `next`, with the two comparisons left open: `follows i j`
lets position `i` extend the border that ends at `j`, and `skips i j` makes
entry `i` inherit the entry of `j` instead of pointing at `j`.
-/

structure Building where
  i : Nat
  j : Int
  next : Nat → Int

variable {follows skips : Nat → Nat → Bool} {length : Nat}

def Building.advance (follows skips : Nat → Nat → Bool) (state : Building) : Building :=
  if state.j = -1 ∨ follows state.i state.j.toNat = true then
    let i := state.i + 1
    let j := state.j + 1
    { i, j, next := Function.update state.next i (if skips i j.toNat then state.next j.toNat else j) }
  else
    { state with j := state.next state.j.toNat }

def buildPass (follows skips : Nat → Nat → Bool) (length : Nat) (state : Building) :
    Option (Loop.Pass Building (Nat → Int)) :=
  if state.i + 1 < length then
    some (.again (state.advance follows skips))
  else
    some (.leave state.next)

def Building.start : Building where
  i := 0
  j := -1
  next := Function.update (fun _ => 0) 0 (-1)

def failureTable (follows skips : Nat → Nat → Bool) (length : Nat) : Option (Nat → Int) :=
  Loop.run (buildPass follows skips length) (2 * length + 1) Building.start

def Building.work (length : Nat) (state : Building) : Nat :=
  2 * (length - 1 - state.i) + (state.j + 1).toNat

/-- A finished entry points strictly below its position, at a border. -/
structure Entry (related : Nat → Nat → Prop) (position : Nat) (value : Int) : Prop where
  lower : -1 ≤ value
  below : value < position
  border : ∀ k : Nat, value = k → Border related position k

structure BuildInvariant (related : Nat → Nat → Prop) (length : Nat) (state : Building) : Prop where
  bound : state.i < length
  current : Entry related state.i state.j
  finished : ∀ position ≤ state.i, Entry related position (state.next position)

theorem Building.start_invariant {related : Nat → Nat → Prop} (nonempty : 0 < length) :
    BuildInvariant related length Building.start where
  bound := nonempty
  current := ⟨by decide, by decide, fun k same => absurd same (by simp only [start]; omega)⟩
  finished := by
    intro position below
    have zero : position = 0 := Nat.le_zero.mp below
    subst zero
    exact ⟨by simp [start], by simp [start], fun k same => absurd same (by simp [start])⟩

/-- When the comparison succeeds, the pass moves both indices and closes an
entry; `matched` records what that entry is. -/
theorem Building.advance_matched {state : Building}
    (matched : state.j = -1 ∨ follows state.i state.j.toNat = true) :
    state.advance follows skips =
      { i := state.i + 1, j := state.j + 1,
        next := Function.update state.next (state.i + 1)
          (if skips (state.i + 1) (state.j + 1).toNat then state.next (state.j + 1).toNat
           else state.j + 1) } := by
  simp only [Building.advance, if_pos matched]

theorem Building.advance_fallen {state : Building}
    (fallen : ¬ (state.j = -1 ∨ follows state.i state.j.toNat = true)) :
    state.advance follows skips = { state with j := state.next state.j.toNat } := by
  simp only [Building.advance, if_neg fallen]

variable {related : Nat → Nat → Prop}

theorem Entry.trans {i : Nat} {j value : Int}
    (transitive : ∀ a b c, related a b → related b c → related a c)
    (outer : Entry related i j) (nonnegative : 0 ≤ j) (inner : Entry related j.toNat value) :
    Entry related i value where
  lower := inner.lower
  below := by
    have := inner.below
    have := outer.below
    omega
  border := by
    intro k same
    have inside : k ≤ j.toNat := by
      have := inner.below
      omega
    have middle := outer.border j.toNat (Int.toNat_of_nonneg nonnegative).symm
    exact middle.trans transitive inside (by have := outer.below; omega) (inner.border k same)

theorem BuildInvariant.advance (follows skips : Nat → Nat → Bool) {state : Building}
    (transitive : ∀ a b c, related a b → related b c → related a c)
    (included : ∀ i j, follows i j = true → related i j)
    (invariant : BuildInvariant related length state) (more : state.i + 1 < length) :
    BuildInvariant related length (state.advance follows skips) := by
  have lower := invariant.current.lower
  have below := invariant.current.below
  by_cases matched : state.j = -1 ∨ follows state.i state.j.toNat = true
  · have grown : Entry related (state.i + 1) (state.j + 1) := by
      refine ⟨by omega, by push_cast; omega, ?_⟩
      intro k same
      rcases Nat.eq_zero_or_pos k with rfl | positive
      · exact .zero
      · obtain ⟨k, rfl⟩ := Nat.exists_eq_succ_of_ne_zero (Nat.pos_iff_ne_zero.mp positive)
        have index : state.j = k := by push_cast at same; omega
        have followed : follows state.i k = true := by
          simpa [index] using matched.resolve_left (by omega)
        exact (invariant.current.border k index).extend (by omega) (included _ _ followed)
    rw [Building.advance_matched matched]
    refine ⟨more, by exact_mod_cast grown, ?_⟩
    intro position inside
    rcases Nat.lt_or_eq_of_le inside with earlier | rfl
    · have kept : position ≠ state.i + 1 := Nat.ne_of_lt earlier
      simpa only [Function.update_of_ne kept] using
        invariant.finished position (Nat.lt_succ_iff.mp earlier)
    · simp only [Function.update_self]
      split
      · exact grown.trans transitive (by omega)
          (invariant.finished _ (by omega))
      · exact_mod_cast grown
  · rw [Building.advance_fallen matched]
    have nonnegative : 0 ≤ state.j := by
      have := not_or.mp matched
      omega
    exact ⟨invariant.bound,
      invariant.current.trans transitive nonnegative (invariant.finished _ (by omega)),
      invariant.finished⟩

theorem BuildInvariant.advance_work {state : Building}
    (invariant : BuildInvariant related length state) (more : state.i + 1 < length) :
    (state.advance follows skips).work length < state.work length := by
  have lower := invariant.current.lower
  have below := invariant.current.below
  by_cases matched : state.j = -1 ∨ follows state.i state.j.toNat = true
  · rw [Building.advance_matched matched]
    simp only [Building.work]
    omega
  · have entry := invariant.finished state.j.toNat (by omega)
    have entryLower := entry.lower
    have entryBelow := entry.below
    have nonnegative : 0 ≤ state.j := by
      have := not_or.mp matched
      omega
    rw [Building.advance_fallen matched]
    simp only [Building.work]
    omega

/-- The table loop keeps any further invariant that its passes keep. -/
theorem failureTable_built (follows skips : Nat → Nat → Bool) (Extra : Building → Prop)
    (transitive : ∀ a b c, related a b → related b c → related a c)
    (included : ∀ i j, follows i j = true → related i j) (nonempty : 0 < length)
    (initial : Extra Building.start)
    (kept : ∀ state, BuildInvariant related length state → state.i + 1 < length →
      Extra state → Extra (state.advance follows skips)) :
    ∃ next, failureTable follows skips length = some next ∧
      ∃ final : Building, final.next = next ∧ length = final.i + 1 ∧
        BuildInvariant related length final ∧ Extra final := by
  have sound : Loop.Sound (buildPass follows skips length)
      (fun state => BuildInvariant related length state ∧ Extra state) (Building.work length)
      (fun next => ∃ final : Building, final.next = next ∧ length = final.i + 1 ∧
        BuildInvariant related length final ∧ Extra final) := by
    rintro state ⟨invariant, extra⟩
    by_cases more : state.i + 1 < length
    · exact .inl ⟨_, if_pos more,
        ⟨invariant.advance follows skips transitive included more, kept state invariant more extra⟩,
        invariant.advance_work more⟩
    · exact .inr ⟨_, if_neg more, state, rfl, by have := invariant.bound; omega, invariant, extra⟩
  exact Loop.run_total sound ⟨Building.start_invariant nonempty, initial⟩
    (by simp only [Building.work, Building.start]; omega)

/-- What a scan needs to know of any table: it ends at `-1` and falls strictly,
always to a border. -/
def Borders (related : Nat → Nat → Prop) (length : Nat) (next : Nat → Int) : Prop :=
  ∀ position < length, Entry related position (next position)

theorem failureTable_borders (follows skips : Nat → Nat → Bool)
    (transitive : ∀ a b c, related a b → related b c → related a c)
    (included : ∀ i j, follows i j = true → related i j) (nonempty : 0 < length) :
    ∃ next, failureTable follows skips length = some next ∧ Borders related length next := by
  obtain ⟨next, built, final, rfl, last, invariant, -⟩ :=
    failureTable_built follows skips (fun _ => True) transitive included nonempty
      trivial (fun _ _ _ _ => trivial)
  exact ⟨_, built, fun position below => invariant.finished position (by omega)⟩

theorem Borders.mono {stronger weaker : Nat → Nat → Prop} {next : Nat → Int}
    (borders : Borders stronger length next) (implies : ∀ i j, stronger i j → weaker i j) :
    Borders weaker length next := by
  intro position below
  have entry := borders position below
  exact ⟨entry.lower, entry.below, fun k same t inside => implies _ _ (entry.border k same t inside)⟩

end IDAPlugins.Search
