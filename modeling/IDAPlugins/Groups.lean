import Mathlib.Data.List.Basic
import Mathlib.Tactic.Basic

namespace IDAPlugins.Groups

/-! # Groups of equal size

The first groups of a list, each turned round. A group that the list does not fill is
filled from what stands behind the list.
-/

variable {α : Type} {size : Nat}

def reverseGroups (size : Nat) : Nat → List α → List α
  | 0, items => items
  | count + 1, items => (items.take size).reverse ++ reverseGroups size count (items.drop size)

/-- Every group that is complete. -/
def grouped (size : Nat) (items : List α) : List α :=
  reverseGroups size (items.length / size) items

theorem reverseGroups_length (count : Nat) (items : List α) :
    (reverseGroups size count items).length = items.length := by
  induction count generalizing items with
  | zero => rfl
  | succ count ih =>
    rw [reverseGroups, List.length_append, List.length_reverse, ih, ← List.length_append,
      List.take_append_drop]

theorem reverseGroups_perm (size count : Nat) (items : List α) :
    (reverseGroups size count items).Perm items := by
  induction count generalizing items with
  | zero => exact .refl _
  | succ count ih =>
    have parts : ((items.take size).reverse ++ reverseGroups size count (items.drop size)).Perm
        (items.take size ++ items.drop size) :=
      (List.reverse_perm _).append (ih _)
    rw [List.take_append_drop] at parts
    exact parts

/-- Reversing the groups changes nothing exactly when each reads the same from both ends. -/
theorem reverseGroups_eq_self_iff {count : Nat} {items : List α} :
    reverseGroups size count items = items ↔ ∀ j < count,
      ((items.drop (j * size)).take size).reverse = (items.drop (j * size)).take size := by
  induction count generalizing items with
  | zero => simp [reverseGroups]
  | succ count ih =>
    have split : reverseGroups size (count + 1) items = items ↔
        (items.take size).reverse = items.take size ∧
          reverseGroups size count (items.drop size) = items.drop size := by
      conv_lhs =>
        rhs
        rw [← List.take_append_drop size items]
      constructor
      · exact fun same => List.append_inj same (List.length_reverse)
      · intro both
        rw [reverseGroups, both.1, both.2]
    have further : ∀ j, (items.drop size).drop (j * size) = items.drop ((j + 1) * size) := by
      intro j
      rw [List.drop_drop, Nat.succ_mul, Nat.add_comm]
    rw [split, ih, Nat.forall_lt_succ_left]
    simp only [further, Nat.zero_mul, List.drop_zero]

/-- What stands behind the items is equal blanks: the items stay if and only if all stays. -/
theorem take_reverseGroups_same_iff {count : Nat} (items : List α) (blank : α) (blanks : Nat) :
    (reverseGroups size count (items ++ List.replicate blanks blank)).take items.length = items ↔
      reverseGroups size count (items ++ List.replicate blanks blank) =
        items ++ List.replicate blanks blank := by
  constructor
  · intro same
    have perm := reverseGroups_perm size count (items ++ List.replicate blanks blank)
    generalize reverseGroups size count (items ++ List.replicate blanks blank) = cells at same perm ⊢
    rw [← List.take_append_drop items.length cells, same] at perm ⊢
    rw [List.perm_replicate.mp ((List.perm_append_left_iff items).mp perm)]
  · intro same
    rw [same, List.take_left]

/-- Groups in front and groups behind are reversed apart. -/
theorem reverseGroups_append {count : Nat} {first : List α} (whole : first.length = count * size)
    (more : Nat) (second : List α) :
    reverseGroups size (count + more) (first ++ second) =
      reverseGroups size count first ++ reverseGroups size more second := by
  induction count generalizing first with
  | zero =>
    rw [Nat.zero_mul] at whole
    rw [List.length_eq_zero_iff.mp whole, Nat.zero_add]
    rfl
  | succ count ih =>
    rw [Nat.succ_mul] at whole
    have front : size ≤ first.length := by omega
    have rest : (first.drop size).length = count * size := by
      rw [List.length_drop]
      omega
    rw [Nat.succ_add, reverseGroups, reverseGroups, List.take_append_of_le_length front,
      List.drop_append_of_le_length front, ih rest, List.append_assoc]

/-- One more group. -/
theorem reverseGroups_succ {count : Nat} {before group : List α} (rest : List α)
    (whole : before.length = count * size) (one : group.length = size) :
    reverseGroups size count (before ++ (group ++ rest)) =
        reverseGroups size count before ++ (group ++ rest) ∧
      reverseGroups size (count + 1) (before ++ (group ++ rest)) =
        reverseGroups size count before ++ (group.reverse ++ rest) := by
  constructor
  · exact reverseGroups_append whole 0 _
  · rw [reverseGroups_append whole 1, reverseGroups, reverseGroups, ← one, List.take_left,
      List.drop_left]

/-- Turned round twice, complete groups are as they were. -/
theorem reverseGroups_reverseGroups {count : Nat} {items : List α}
    (whole : count * size ≤ items.length) :
    reverseGroups size count (reverseGroups size count items) = items := by
  induction count generalizing items with
  | zero => rfl
  | succ count ih =>
    rw [Nat.succ_mul] at whole
    have group : (items.take size).reverse.length = size := by
      rw [List.length_reverse, List.length_take]
      omega
    have rest : count * size ≤ (items.drop size).length := by
      rw [List.length_drop]
      omega
    rw [reverseGroups, reverseGroups, List.take_left' group, List.drop_left' group, ih rest,
      List.reverse_reverse, List.take_append_drop]

theorem grouped_length (items : List α) : (grouped size items).length = items.length :=
  reverseGroups_length _ _

theorem grouped_grouped (items : List α) : grouped size (grouped size items) = items := by
  rw [grouped, grouped_length]
  exact reverseGroups_reverseGroups (Nat.div_mul_le_self _ _)

/-- A group that reaches behind the list keeps the list's part of it in place exactly when
it reads the same from both ends. -/
theorem take_reverse_iff {part : List α} {blank : α} (short : part.length ≤ size) :
    let group := part ++ List.replicate (size - part.length) blank
    group.reverse.take part.length = part ↔ group.reverse = group := by
  intro group
  have length : group.length = size := by
    rw [List.length_append, List.length_replicate, Nat.add_sub_cancel' short]
  constructor
  · intro same
    apply List.ext_getElem?
    intro k
    by_cases front : k < part.length
    · have value := congrArg (·[k]?) same
      simp only [List.getElem?_take, if_pos front] at value
      rw [value, List.getElem?_append_left front]
    · by_cases inside : k < size
      · -- the mirrored place is in the part, or both places are blank
        have mirror : group.reverse[k]? = group[size - 1 - k]? := by
          rw [List.getElem?_reverse (length ▸ inside), length]
        rw [mirror]
        by_cases opposite : size - 1 - k < part.length
        · have value := congrArg (·[size - 1 - k]?) same
          have back : size - 1 - (size - 1 - k) = k := by omega
          simp only [List.getElem?_take, if_pos opposite] at value
          rw [List.getElem?_reverse (by rw [length]; omega), length, back] at value
          rw [value, List.getElem?_append_left opposite]
        · rw [List.getElem?_append_right (by omega), List.getElem?_append_right (by omega),
            List.getElem?_replicate_of_lt (by omega), List.getElem?_replicate_of_lt (by omega)]
      · rw [List.getElem?_eq_none (by rw [List.length_reverse, length]; omega),
          List.getElem?_eq_none (by rw [length]; omega)]
  · intro same
    rw [same]
    exact List.take_left

/-- Behind complete groups only what is left of the list counts. -/
theorem take_reverseGroups_append {front : List α} {groups : Nat}
    (whole : front.length = groups * size) (more : Nat) (part behind : List α) :
    (reverseGroups size (groups + more) (front ++ part ++ behind)).take (front ++ part).length =
      reverseGroups size groups front ++
        (reverseGroups size more (part ++ behind)).take part.length := by
  have length : (front ++ part).length = (reverseGroups size groups front).length + part.length := by
    rw [reverseGroups_length, List.length_append]
  rw [length, List.append_assoc, reverseGroups_append whole more, List.take_length_add_append]

/-- One group over the part and the blanks behind it. -/
theorem take_reverseGroups_part {part : List α} {blank : α} {blanks : Nat}
    (short : part.length ≤ size) (enough : size ≤ part.length + blanks) (more : Nat) :
    (reverseGroups size (more + 1) (part ++ List.replicate blanks blank)).take part.length = part ↔
      (part ++ List.replicate (size - part.length) blank).reverse =
        part ++ List.replicate (size - part.length) blank := by
  have filled : (part ++ List.replicate blanks blank).take size =
      part ++ List.replicate (size - part.length) blank := by
    rw [List.take_append, List.take_of_length_le short, List.take_replicate,
      Nat.min_eq_left (by omega)]
  have long : part.length ≤
      ((part ++ List.replicate (size - part.length) blank).reverse).length := by
    rw [List.length_reverse, List.length_append]
    omega
  rw [reverseGroups, filled, List.take_append_of_le_length long]
  exact take_reverse_iff short

/-- Where at least the complete groups are reversed, the list keeps its other items
exactly when it has none, no further group is reversed, or its last group, filled with
blanks, reads the same from both ends. -/
theorem take_reverseGroups_iff (positive : 0 < size) (items : List α) (blank : α)
    {count blanks : Nat} (least : items.length / size ≤ count)
    (room : count * size ≤ items.length + blanks) :
    (reverseGroups size count (items ++ List.replicate blanks blank)).take items.length =
        grouped size items ↔
      items.length % size = 0 ∨ count = items.length / size ∨
        let last := items.drop (items.length / size * size) ++
          List.replicate (size - items.length % size) blank
        last.reverse = last := by
  obtain ⟨more, rfl⟩ := Nat.exists_eq_add_of_le least
  have divided := Nat.div_add_mod' items.length size
  have remainder := Nat.mod_lt items.length positive
  have whole : (items.take (items.length / size * size)).length = items.length / size * size := by
    rw [List.length_take]
    omega
  have rest : (items.drop (items.length / size * size)).length = items.length % size := by
    rw [List.length_drop]
    omega
  have split := List.take_append_drop (items.length / size * size) items
  generalize items.take (items.length / size * size) = front at whole split
  generalize items.drop (items.length / size * size) = part at rest split
  generalize items.length / size = groups at *
  have complete : grouped size items = reverseGroups size groups front ++ part := by
    have division : items.length / size = groups := by
      rw [← divided, Nat.mul_comm, Nat.mul_add_div positive, Nat.div_eq_of_lt remainder,
        Nat.add_zero]
    rw [grouped, division, ← split]
    exact reverseGroups_append whole 0 part
  have reversed := take_reverseGroups_append whole more part (List.replicate blanks blank)
  rw [split] at reversed
  rw [reversed, complete, List.append_cancel_left_eq]
  cases more with
  | zero => simp [reverseGroups]
  | succ more =>
    have unequal : groups + (more + 1) ≠ groups := by omega
    simp only [unequal, false_or]
    by_cases none : items.length % size = 0
    · rw [none] at rest
      simp [none, List.length_eq_zero_iff.mp rest]
    · rw [← rest] at none ⊢
      simp only [none, false_or]
      have enough : size ≤ part.length + blanks := by
        rw [Nat.add_mul, Nat.succ_mul] at room
        omega
      exact take_reverseGroups_part (by omega) enough more

end IDAPlugins.Groups
