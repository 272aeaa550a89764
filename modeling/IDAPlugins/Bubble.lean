import Mathlib.Data.List.Perm.Basic
import Mathlib.Order.Lattice

namespace IDAPlugins.Bubble

/-! # Exchanging neighbours

Rows with a key are put in order by exchanging neighbours: a sweep over the first rows
leaves a greatest one of them last, and sweeps over one row less each time leave all in
order. `none` is an exchange with a row outside the list.
-/

variable {α κ : Type} [LinearOrder κ]

def exchange (key : α → κ) (rows : List α) (i : Nat) : Option (List α) := do
  let row ← rows[i]?
  let next ← rows[i + 1]?
  some (if key next < key row then (rows.set i next).set (i + 1) row else rows)

def sweep (key : α → κ) (count : Nat) (rows : List α) : Option (List α) :=
  (List.range count).foldlM (exchange key) rows

def sort (key : α → κ) (rows : List α) : Option (List α) :=
  (List.range (rows.length - 1)).foldlM
    (fun swept j => sweep key (rows.length - 1 - j) swept) rows

variable {key : α → κ}

/-- Of two neighbours the lower one comes first. -/
theorem exchange_at (key : α → κ) (front : List α) (row next : α) (rest : List α) :
    exchange key (front ++ row :: next :: rest) front.length =
      some (if key next < key row then front ++ next :: row :: rest
        else front ++ row :: next :: rest) := by
  have first : (front ++ row :: next :: rest)[front.length]? = some row := by
    rw [List.getElem?_append_right (Nat.le_refl _), Nat.sub_self, List.getElem?_cons_zero]
  have second : (front ++ row :: next :: rest)[front.length + 1]? = some next := by
    rw [List.getElem?_append_right (Nat.le_add_right _ 1), Nat.add_sub_cancel_left,
      List.getElem?_cons_succ, List.getElem?_cons_zero]
  have changed : ((front ++ row :: next :: rest).set front.length next).set (front.length + 1) row =
      front ++ next :: row :: rest := by
    rw [List.set_append_right _ _ (Nat.le_refl _), Nat.sub_self, List.set_cons_zero,
      List.set_append_right _ _ (Nat.le_add_right _ 1), Nat.add_sub_cancel_left, List.set_cons_succ,
      List.set_cons_zero]
  simp only [exchange, first, second, changed, Option.bind_eq_bind, Option.bind_some]

theorem sweep_succ (count : Nat) (rows : List α) :
    sweep key (count + 1) rows = (sweep key count rows).bind fun swept => exchange key swept count := by
  rw [sweep, List.range_succ, List.foldlM_append, ← sweep]
  exact congrArg _ (funext fun swept => bind_pure _)

/-- The sweep reorders the rows it goes over, a greatest one of them last, and leaves the
others. -/
theorem sweep_spec (key : α → κ) (front rest : List α) (count : Nat)
    (length : front.length = count + 1) :
    ∃ before top, sweep key count (front ++ rest) = some (before ++ top :: rest) ∧
      before.length = count ∧ (before ++ [top]).Perm front ∧ ∀ row ∈ before, key row ≤ key top := by
  induction count generalizing front rest with
  | zero =>
    obtain ⟨top, rfl⟩ := List.length_eq_one_iff.mp length
    exact ⟨[], top, rfl, rfl, List.Perm.refl _, fun row member => absurd member List.not_mem_nil⟩
  | succ count ih =>
    obtain ⟨earlier, last, rfl⟩ := (List.eq_nil_or_concat' front).resolve_left
      (List.ne_nil_of_length_eq_add_one length)
    rw [List.length_append, List.length_singleton, Nat.add_right_cancel_iff] at length
    obtain ⟨before, top, swept, places, same, below⟩ := ih earlier (last :: rest) length
    have step := exchange_at key before top last rest
    rw [List.append_assoc, List.singleton_append, sweep_succ, swept, Option.bind_some, ← places, step]
    by_cases lower : key last < key top
    · rw [if_pos lower]
      refine ⟨before ++ [last], top, by simp, by simp, ?_, ?_⟩
      · have moved : (before ++ [last, top]).Perm (before ++ [top, last]) :=
          (List.Perm.swap top last []).append_left before
        have joined := same.append_right [last]
        simp only [List.append_assoc, List.cons_append, List.nil_append] at joined ⊢
        exact moved.trans joined
      · intro row member
        rcases List.mem_append.mp member with member | member
        · exact below row member
        · rw [List.mem_singleton.mp member]
          exact le_of_lt lower
    · rw [if_neg lower]
      refine ⟨before ++ [top], last, by simp, by simp, same.append_right [last], ?_⟩
      intro row member
      rcases List.mem_append.mp member with member | member
      · exact le_trans (below row member) (not_lt.mp lower)
      · rw [List.mem_singleton.mp member]
        exact not_lt.mp lower

/-- Where the sweeps stand: the rows behind the first `ahead` are in order, and above those. -/
structure Settled (key : α → κ) (rows : List α) (ahead : Nat) (swept : List α) : Prop where
  same : swept.Perm rows
  ordered : ((swept.drop ahead).map key).Pairwise (· ≤ ·)
  above : ∀ low ∈ swept.take ahead, ∀ high ∈ swept.drop ahead, key low ≤ key high

theorem settled_sweep {rows swept : List α} {count : Nat} (bound : count < rows.length)
    (settled : Settled key rows (count + 1) swept) :
    ∃ next, sweep key count swept = some next ∧ Settled key rows count next := by
  have length := settled.same.length_eq
  obtain ⟨before, top, moved, places, same, below⟩ := sweep_spec key
    (swept.take (count + 1)) (swept.drop (count + 1)) count
    (by rw [List.length_take]; omega)
  rw [List.take_append_drop] at moved
  have first : (before ++ top :: swept.drop (count + 1)).take count = before := by
    rw [← places, List.take_left]
  have second : (before ++ top :: swept.drop (count + 1)).drop count = top :: swept.drop (count + 1) := by
    rw [← places, List.drop_left]
  refine ⟨_, moved, ?_, ?_, ?_⟩
  · have joined := same.append_right (swept.drop (count + 1))
    rw [List.take_append_drop, List.append_assoc, List.singleton_append] at joined
    exact joined.trans settled.same
  · rw [second, List.map_cons, List.pairwise_cons]
    refine ⟨?_, settled.ordered⟩
    intro value member
    obtain ⟨high, inside, rfl⟩ := List.mem_map.mp member
    exact settled.above top (same.mem_iff.mp (by simp)) high inside
  · rw [first, second]
    intro low inside high member
    rcases List.mem_cons.mp member with rfl | member
    · exact below low inside
    · exact settled.above low (same.mem_iff.mp (by simp [inside])) high member

theorem settled_sweeps (key : α → κ) (rows : List α) {sweeps : Nat} (few : sweeps ≤ rows.length - 1) :
    ∃ swept, (List.range sweeps).foldlM
        (fun swept j => sweep key (rows.length - 1 - j) swept) rows = some swept ∧
      Settled key rows (rows.length - sweeps) swept := by
  induction sweeps with
  | zero =>
    refine ⟨rows, rfl, List.Perm.refl _, ?_, ?_⟩
    · rw [Nat.sub_zero, List.drop_length]
      exact List.Pairwise.nil
    · rw [Nat.sub_zero, List.drop_length]
      exact fun low _ high member => absurd member List.not_mem_nil
  | succ sweeps ih =>
    obtain ⟨swept, run, settled⟩ := ih (by omega)
    rw [show rows.length - sweeps = rows.length - (sweeps + 1) + 1 by omega] at settled
    obtain ⟨next, moved, further⟩ := settled_sweep (by omega) settled
    refine ⟨next, ?_, further⟩
    rw [List.range_succ, List.foldlM_append, run, Option.bind_eq_bind, Option.bind_some,
      List.foldlM_cons, show rows.length - 1 - sweeps = rows.length - (sweeps + 1) by omega, moved]
    rfl

theorem sort_spec (key : α → κ) (rows : List α) :
    ∃ swept, sort key rows = some swept ∧ swept.Perm rows ∧ (swept.map key).Pairwise (· ≤ ·) := by
  obtain ⟨swept, run, settled⟩ := settled_sweeps key rows (Nat.le_refl (rows.length - 1))
  refine ⟨swept, run, settled.same, ?_⟩
  have ordered := settled.ordered
  have above := settled.above
  cases swept with
  | nil => exact List.Pairwise.nil
  | cons row rest =>
    have length := settled.same.length_eq
    rw [List.length_cons] at length
    rw [show rows.length - (rows.length - 1) = 1 by omega] at ordered above
    rw [List.map_cons, List.pairwise_cons]
    refine ⟨?_, ordered⟩
    intro value member
    obtain ⟨high, inside, rfl⟩ := List.mem_map.mp member
    exact above row (by simp) high inside

/-- Rows with keys of their own end in strictly increasing order. -/
theorem sort_distinct (key : α → κ) {rows : List α} (distinct : (rows.map key).Nodup) :
    ∃ swept, sort key rows = some swept ∧ swept.Perm rows ∧ (swept.map key).Pairwise (· < ·) := by
  obtain ⟨swept, run, same, ordered⟩ := sort_spec key rows
  refine ⟨swept, run, same, ?_⟩
  have apart : (swept.map key).Nodup := (same.map key).nodup_iff.mpr distinct
  exact (ordered.and apart).imp fun both => lt_of_le_of_ne both.1 both.2

end IDAPlugins.Bubble
