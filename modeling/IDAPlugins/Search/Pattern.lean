import Mathlib.Data.List.GetD
import Mathlib.Data.Nat.Notation
import Mathlib.Order.Bounds.Basic
import Mathlib.Tactic.Basic

namespace IDAPlugins.Search

/-! # Patterns with wildcards

A pattern is a finite row of codes; a code says which text elements it accepts,
and one code, `wild`, may accept them all. Nothing here knows what the text is
made of: bytes against masked codes and characters against `?` are instances.
-/

structure Pattern (α β : Type) where
  length : Nat
  code : Nat → β
  wild : β
  agrees : α → β → Bool

variable {α β : Type}

/-- What a sensible choice of codes promises: the wildcard accepts everything,
every code of the pattern accepts something, and only the wildcard accepts
everything. -/
structure Pattern.Legible (pattern : Pattern α β) : Prop where
  wildAgrees : ∀ element, pattern.agrees element pattern.wild = true
  inhabited : ∀ j < pattern.length, ∃ element, pattern.agrees element (pattern.code j) = true
  onlyWild : ∀ j < pattern.length,
    (∀ element, pattern.agrees element (pattern.code j) = true) → pattern.code j = pattern.wild

def Pattern.OccursAt (pattern : Pattern α β) (text : Nat → α) (position : Nat) : Prop :=
  ∀ t < pattern.length, pattern.agrees (text (position + t)) (pattern.code t) = true

/-- Every text element code `j` accepts is accepted by code `k`. -/
def Pattern.Entails (pattern : Pattern α β) (j k : Nat) : Prop :=
  ∀ element, pattern.agrees element (pattern.code j) = true →
    pattern.agrees element (pattern.code k) = true

def Pattern.Compatible (pattern : Pattern α β) (j k : Nat) : Prop :=
  ∃ element, pattern.agrees element (pattern.code j) = true ∧
    pattern.agrees element (pattern.code k) = true

theorem Pattern.Entails.trans {pattern : Pattern α β} {i j k : Nat}
    (first : pattern.Entails i j) (second : pattern.Entails j k) : pattern.Entails i k :=
  fun element accepted => second element (first element accepted)

theorem Pattern.Legible.compatible_of_entails {pattern : Pattern α β} {i j k : Nat}
    (legible : pattern.Legible) (bound : i < pattern.length)
    (first : pattern.Entails i j) (second : pattern.Entails i k) : pattern.Compatible j k := by
  obtain ⟨element, accepted⟩ := legible.inhabited i bound
  exact ⟨element, first element accepted, second element accepted⟩

theorem Pattern.Compatible.mono {pattern : Pattern α β} {i j k : Nat}
    (compatible : pattern.Compatible i k) (entails : pattern.Entails i j) :
    pattern.Compatible j k := by
  obtain ⟨element, first, second⟩ := compatible
  exact ⟨element, entails element first, second⟩

/-- The first `k` codes, laid under the `k` codes before position `j`, stand in
`related` pair by pair. -/
def Border (related : Nat → Nat → Prop) (j k : Nat) : Prop :=
  ∀ t < k, related (j - k + t) t

theorem Border.trans {related : Nat → Nat → Prop}
    (transitive : ∀ a b c, related a b → related b c → related a c) {i j k : Nat}
    (inner : k ≤ j) (outer : j ≤ i) (first : Border related i j) (second : Border related j k) :
    Border related i k := by
  intro t below
  have upper := first (j - k + t) (by omega)
  rw [show i - j + (j - k + t) = i - k + t by omega] at upper
  exact transitive _ _ _ upper (second t below)

theorem Border.extend {related : Nat → Nat → Prop} {j k : Nat} (within : k ≤ j)
    (border : Border related j k) (last : related j k) : Border related (j + 1) (k + 1) := by
  intro t below
  rcases Nat.lt_succ_iff_lt_or_eq.mp below with inside | rfl
  · simpa only [Nat.add_sub_add_right] using border t inside
  · rwa [Nat.add_sub_add_right, Nat.sub_add_cancel within]

theorem Border.zero {related : Nat → Nat → Prop} {j : Nat} : Border related j 0 :=
  fun _ below => absurd below (Nat.not_lt_zero _)

/-- A row lies in a text at a position when it fits and agrees there index by index. -/
theorem prefix_drop_iff {row text : List α} {position : Nat} (nonempty : row ≠ []) (default : α) :
    row <+: text.drop position ↔ position + row.length ≤ text.length ∧
      ∀ t < row.length, text.getD (position + t) default = row.getD t default := by
  have positive := List.length_pos_iff.mpr nonempty
  rw [List.prefix_iff_getElem?]
  constructor
  · intro same
    have last := same (row.length - 1) (by omega)
    have inside := (List.getElem?_eq_some_iff.mp last).1
    rw [List.length_drop] at inside
    refine ⟨by omega, fun t bound => ?_⟩
    have here := same t bound
    rw [List.getElem?_drop] at here
    rw [List.getD_eq_getElem?_getD, here, Option.getD_some, List.getD_eq_getElem _ _ bound]
  · rintro ⟨fits, same⟩ t bound
    have here := same t bound
    rw [List.getD_eq_getElem _ _ (by omega), List.getD_eq_getElem _ _ bound] at here
    rw [List.getElem?_drop, List.getElem?_eq_getElem (by omega), here]

/-- `hits` are the greedy, leftmost, non-overlapping occurrences from `start` on,
each occurrence being `width` wide. -/
inductive Leftmost (occurs : Nat → Prop) (width : Nat) : Nat → List Nat → Prop where
  | finished {start : Nat} (none : ∀ position, start ≤ position → ¬ occurs position) :
      Leftmost occurs width start []
  | hit {start position : Nat} {rest : List Nat}
      (least : IsLeast {candidate | start ≤ candidate ∧ occurs candidate} position)
      (tail : Leftmost occurs width (position + width) rest) :
      Leftmost occurs width start (position :: rest)

theorem Leftmost.unique {occurs : Nat → Prop} {width start : Nat} {first second : List Nat}
    (left : Leftmost occurs width start first) (right : Leftmost occurs width start second) :
    first = second := by
  induction left generalizing second with
  | finished none =>
    cases right with
    | finished => rfl
    | hit least => exact absurd least.1.2 (none _ least.1.1)
  | hit least tail ih =>
    cases right with
    | finished none => exact absurd least.1.2 (none _ least.1.1)
    | hit other rest =>
      have same := least.unique other
      subst same
      rw [ih rest]

end IDAPlugins.Search
