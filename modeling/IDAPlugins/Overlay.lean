import Mathlib.Data.List.Basic

namespace IDAPlugins.Overlay

/-! # Runs written over each other

Values are written into a list cell by cell, run after run. Where runs overlap the
last one stays; a write outside the list, or at an index from `limit` on, fails.
-/

variable {α : Type}

def put (limit : Nat) : List α → Nat → List α → Option (List α)
  | cells, _, [] => some cells
  | cells, index, value :: rest =>
    if index < cells.length ∧ index < limit then
      put limit (cells.set index value) (index + 1) rest
    else none

structure Run (α : Type) where
  offset : Nat
  values : List α

def Run.Covers (run : Run α) (index : Nat) : Prop :=
  run.offset ≤ index ∧ index < run.offset + run.values.length

/-- What a run writes at an index. -/
def Run.value? (run : Run α) (index : Nat) : Option α :=
  if run.offset ≤ index then run.values[index - run.offset]? else none

def putAll (limit : Nat) : List α → List (Run α) → Option (List α)
  | cells, [] => some cells
  | cells, run :: rest =>
    (put limit cells run.offset run.values).bind fun cells => putAll limit cells rest

variable {limit index : Nat} {cells after values : List α} {runs : List (Run α)}

theorem put_isSome_iff :
    (put limit cells index values).isSome ↔
      ∀ k, index ≤ k → k < index + values.length → k < cells.length ∧ k < limit := by
  induction values generalizing cells index with
  | nil =>
    refine iff_of_true rfl fun k lower upper => ?_
    exact absurd upper (Nat.not_lt_of_le lower)
  | cons value rest ih =>
    unfold put
    split
    · rename_i room
      rw [ih, List.length_set, List.length_cons]
      constructor
      · intro inside k lower upper
        rcases Nat.eq_or_lt_of_le lower with rfl | later
        · exact room
        · exact inside k later (by omega)
      · intro inside k lower upper
        exact inside k (by omega) (by omega)
    · rename_i outside
      refine iff_of_false (by simp) fun inside => outside (inside index (Nat.le_refl _) ?_)
      rw [List.length_cons]
      omega

theorem put_length (written : put limit cells index values = some after) :
    after.length = cells.length := by
  induction values generalizing cells index with
  | nil => cases written; rfl
  | cons value rest ih =>
    unfold put at written
    split at written
    · rw [ih written, List.length_set]
    · cases written

theorem put_outside {k : Nat} (written : put limit cells index values = some after)
    (outside : ¬ (index ≤ k ∧ k < index + values.length)) : after[k]? = cells[k]? := by
  induction values generalizing cells index with
  | nil => cases written; rfl
  | cons value rest ih =>
    rw [List.length_cons] at outside
    unfold put at written
    split at written
    · rw [ih written (by omega), List.getElem?_set_ne (by omega)]
    · cases written

theorem put_inside {k : Nat} (written : put limit cells index values = some after)
    (bound : k < values.length) : after[index + k]? = values[k]? := by
  induction values generalizing cells index k with
  | nil => exact absurd bound (Nat.not_lt_zero k)
  | cons value rest ih =>
    unfold put at written
    split at written
    · rename_i room
      cases k with
      | zero =>
        rw [Nat.add_zero, put_outside written (by omega), List.getElem?_set_self room.1]
        rfl
      | succ k =>
        have later := ih written (Nat.lt_of_succ_lt_succ bound)
        rw [show index + (k + 1) = index + 1 + k by omega, later, List.getElem?_cons_succ]
    · cases written

theorem put_room (written : put limit cells index values = some after) :
    values = [] ∨ index + values.length ≤ cells.length := by
  cases values with
  | nil => exact Or.inl rfl
  | cons value values =>
    have inside := put_isSome_iff.mp (Option.isSome_of_eq_some written) (index + values.length)
      (Nat.le_add_right _ _) (by rw [List.length_cons]; omega)
    exact Or.inr inside.1

/-- A run written over as many cells takes their place. -/
theorem put_replaces {before old rest : List α} (same : values.length = old.length)
    (room : before.length + old.length ≤ limit) :
    put limit (before ++ (old ++ rest)) before.length values = some (before ++ (values ++ rest)) := by
  induction values generalizing before old with
  | nil =>
    rw [List.eq_nil_of_length_eq_zero same.symm]
    rfl
  | cons value values ih =>
    cases old with
    | nil => cases same
    | cons first old =>
      rw [List.length_cons] at room
      rw [put, if_pos (by rw [List.length_append, List.cons_append, List.length_cons]; omega),
        List.cons_append, List.set_append_right _ _ (Nat.le_refl _), Nat.sub_self, List.set_cons_zero]
      have further : (before ++ [value]).length + old.length ≤ limit := by
        rw [List.length_append, List.length_singleton]
        omega
      have next := ih (Nat.succ.inj same) further
      rwa [List.length_append, List.length_singleton, List.append_assoc, List.append_assoc] at next

theorem put_within {before old rest : List α} (same : values.length = old.length) :
    put (before ++ (old ++ rest)).length (before ++ (old ++ rest)) before.length values =
      some (before ++ (values ++ rest)) := by
  refine put_replaces same ?_
  rw [List.length_append, List.length_append]
  omega

/-- A run over the first of some cells leaves the rest of them. -/
theorem put_over {before old rest : List α} (shorter : values.length ≤ old.length)
    (written : put limit (before ++ (old ++ rest)) before.length values = some after) :
    after = before ++ (values ++ old.drop values.length ++ rest) := by
  have split : old = old.take values.length ++ old.drop values.length :=
    (List.take_append_drop _ old).symm
  have same : values.length = (old.take values.length).length := by
    rw [List.length_take, Nat.min_eq_left shorter]
  cases values with
  | nil =>
    rw [← Option.some.inj written]
    rfl
  | cons value values =>
    have inside := put_isSome_iff.mp (Option.isSome_of_eq_some written)
      (before.length + values.length) (Nat.le_add_right _ _) (by rw [List.length_cons]; omega)
    have room : before.length + (old.take (value :: values).length).length ≤ limit := by
      rw [← same, List.length_cons]
      omega
    have replaced := @put_replaces α limit (value :: values) before _
      (old.drop (value :: values).length ++ rest) same room
    rw [split, List.append_assoc, replaced, Option.some.injEq] at written
    rw [← written, List.append_assoc]

theorem putAll_append (first second : List (Run α)) :
    putAll limit cells (first ++ second) =
      (putAll limit cells first).bind fun cells => putAll limit cells second := by
  induction first generalizing cells with
  | nil => rfl
  | cons run rest ih =>
    rw [List.cons_append, putAll, putAll, Option.bind_assoc]
    exact congrArg _ (funext fun cells => ih)

theorem putAll_length (written : putAll limit cells runs = some after) :
    after.length = cells.length := by
  induction runs generalizing cells with
  | nil => cases written; rfl
  | cons run rest ih =>
    obtain ⟨next, first, written⟩ := Option.bind_eq_some_iff.mp written
    rw [ih written, put_length first]

theorem putAll_isSome_iff :
    (putAll limit cells runs).isSome ↔
      ∀ run ∈ runs, ∀ k, run.Covers k → k < cells.length ∧ k < limit := by
  induction runs generalizing cells with
  | nil => simp [putAll]
  | cons run rest ih =>
    rw [List.forall_mem_cons, putAll]
    cases first : put limit cells run.offset run.values with
    | none =>
      have failed := put_isSome_iff.not.mp (by rw [first]; exact Bool.false_ne_true)
      exact iff_of_false Bool.false_ne_true fun both => failed fun k lower upper =>
        both.1 k ⟨lower, upper⟩
    | some next =>
      have room := put_isSome_iff.mp (Option.isSome_of_eq_some first)
      rw [Option.bind_some, ih, put_length first]
      exact ⟨fun others => ⟨fun k covers => room k covers.1 covers.2, others⟩, fun both => both.2⟩

/-- A cell that no run covers keeps its value. -/
theorem putAll_untouched (written : putAll limit cells runs = some after)
    (free : ∀ run ∈ runs, ¬ run.Covers index) : after[index]? = cells[index]? := by
  induction runs generalizing cells with
  | nil => cases written; rfl
  | cons run rest ih =>
    obtain ⟨next, first, written⟩ := Option.bind_eq_some_iff.mp written
    obtain ⟨outside, others⟩ := List.forall_mem_cons.mp free
    rw [ih written others, put_outside first outside]

/-- A covered cell has its value from the last run that covers it. -/
theorem putAll_last {earlier later : List (Run α)} {run : Run α}
    (written : putAll limit cells (earlier ++ run :: later) = some after) {k : Nat}
    (bound : k < run.values.length) (last : ∀ other ∈ later, ¬ other.Covers (run.offset + k)) :
    after[run.offset + k]? = run.values[k]? := by
  rw [putAll_append, Option.bind_eq_some_iff] at written
  obtain ⟨middle, -, written⟩ := written
  obtain ⟨next, first, written⟩ := Option.bind_eq_some_iff.mp written
  rw [putAll_untouched written last, put_inside first bound]

/-- Cells further behind stay as they are. -/
theorem put_append {wider : Nat} (written : put limit cells index values = some after)
    (wide : limit ≤ wider) (tail : List α) :
    put wider (cells ++ tail) index values = some (after ++ tail) := by
  induction values generalizing cells index with
  | nil =>
    cases written
    rfl
  | cons value rest ih =>
    rw [put] at written ⊢
    obtain ⟨room, written⟩ := Option.ite_none_right_eq_some.mp written
    rw [if_pos ⟨by rw [List.length_append]; omega, by omega⟩, List.set_append_left _ _ room.1]
    exact ih written

theorem put_value {k : Nat} (written : put limit cells index values = some after) :
    after[k]? = (({ offset := index, values } : Run α).value? k).or cells[k]? := by
  rw [Run.value?]
  by_cases behind : index ≤ k
  · rw [if_pos behind]
    by_cases bound : k - index < values.length
    · have inside := put_inside written bound
      rw [Nat.add_sub_cancel' behind] at inside
      rw [inside, List.getElem?_eq_getElem bound, Option.some_or]
    · rw [List.getElem?_eq_none (Nat.le_of_not_lt bound), Option.none_or]
      exact put_outside written (by omega)
  · rw [if_neg behind, Option.none_or]
    exact put_outside written (by omega)

/-- A cell has its value from the last run that writes there, or from the start. -/
theorem putAll_value {k : Nat} (written : putAll limit cells runs = some after) :
    after[k]? = (runs.reverse.findSome? fun run => run.value? k).or cells[k]? := by
  induction runs generalizing cells with
  | nil =>
    cases written
    rfl
  | cons run rest ih =>
    obtain ⟨next, first, written⟩ := Option.bind_eq_some_iff.mp written
    rw [ih written, put_value first, List.reverse_cons, List.findSome?_append,
      List.findSome?_singleton, Option.or_assoc]

/-- Of the elements with a property one is the last. -/
theorem exists_last {holds : α → Prop} {elements : List α} (exist : ∃ x ∈ elements, holds x) :
    ∃ earlier x later, elements = earlier ++ x :: later ∧ holds x ∧ ∀ y ∈ later, ¬ holds y := by
  induction elements with
  | nil =>
    obtain ⟨x, member, -⟩ := exist
    exact absurd member List.not_mem_nil
  | cons head rest ih =>
    by_cases further : ∃ x ∈ rest, holds x
    · obtain ⟨earlier, x, later, rfl, found, last⟩ := ih further
      exact ⟨head :: earlier, x, later, rfl, found, last⟩
    · obtain ⟨x, member, found⟩ := exist
      rcases List.mem_cons.mp member with rfl | inside
      · exact ⟨[], x, rest, rfl, found, fun y below other => further ⟨y, below, other⟩⟩
      · exact absurd ⟨x, inside, found⟩ further

end IDAPlugins.Overlay
