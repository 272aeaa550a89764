import IDAPlugins.Search.Overlap
import Mathlib.Tactic.Choose

namespace IDAPlugins.Search

/-! # From the table to the scan

A covering table makes the scan find every first occurrence; an entry that falls
short of a realisable overlap makes it lose one, on a text built for the purpose.
-/

variable {α β : Type} {pattern : Pattern α β} {text : Nat → α} {next : Nat → Int}
variable {hits : Nat → Nat → Bool} {room start size : Nat}

theorem neverSkips_of_covers (borders : Borders pattern.Entails pattern.length next)
    (covers : pattern.Covers room next) (fits : size ≤ room + pattern.length) :
    NeverSkips pattern text next start size := by
  intro position j _ bound agreed mismatch later after before inside occurs
  have lower := (borders j bound).lower
  obtain ⟨shift, rfl⟩ := Nat.exists_eq_add_of_lt after
  have within : shift + 1 ≤ j := by omega
  have overlaps : pattern.Overlaps j (j - (shift + 1)) := by
    refine ⟨?_, ?_⟩
    · intro t below
      refine ⟨text (position + (shift + 1 + t)), ?_, ?_⟩
      · rw [show j - (j - (shift + 1)) + t = shift + 1 + t by omega]
        exact agreed _ (by omega)
      · rw [show position + (shift + 1 + t) = position + shift + 1 + t by omega]
        exact occurs t (by omega)
    · intro entails
      refine mismatch (entails _ ?_)
      rw [show position + j = position + shift + 1 + (j - (shift + 1)) by omega]
      exact occurs _ (by omega)
  have reach := covers j (j - (shift + 1)) (by omega) bound (by omega) overlaps
  omega

/-- Codes that are compatible only where the table sees it hide no overlap. -/
theorem noHiddenOverlap_of_exact
    (exact' : ∀ i < pattern.length, ∀ j < pattern.length, pattern.Compatible i j →
      pattern.Follows i j) : pattern.NoHiddenOverlap room := by
  intro j k below bound _ overlaps t inside
  exact exact' _ (by omega) _ (by omega) (overlaps.1 t inside)

/-- Hidden overlaps do not depend on how the codes are written down. -/
theorem Pattern.NoHiddenOverlap.recode {γ : Type} {other : Pattern α γ}
    (visible : pattern.NoHiddenOverlap room) (length : other.length = pattern.length)
    (agrees : ∀ element, ∀ j < pattern.length,
      other.agrees element (other.code j) = pattern.agrees element (pattern.code j))
    (follows : ∀ i < pattern.length, ∀ j < pattern.length,
      pattern.Follows i j → other.Follows i j) : other.NoHiddenOverlap room := by
  intro j k below bound near overlaps t inside
  rw [length] at bound
  refine follows _ (by omega) _ (by omega) (visible j k below bound near ⟨?_, ?_⟩ t inside)
  · intro t inside
    obtain ⟨element, first, second⟩ := overlaps.1 t inside
    rw [agrees element _ (by omega)] at first second
    exact ⟨element, first, second⟩
  · intro entails
    refine overlaps.2 fun element accepted => ?_
    rw [agrees element _ (by omega)] at accepted ⊢
    exact entails element accepted

/-- A text on which the pattern first fails at `j` and occurs `j - k` later. -/
theorem Pattern.Overlaps.realised {j k : Nat} (legible : pattern.Legible)
    (overlaps : pattern.Overlaps j k) (below : k < j) (bound : j < pattern.length) :
    ∃ text : Nat → α, (∀ t < j, pattern.agrees (text t) (pattern.code t) = true) ∧
      ¬ pattern.agrees (text j) (pattern.code j) = true ∧ pattern.OccursAt text (j - k) := by
  have wanted : ∀ u : Nat, ∃ element : α,
      (u < j → pattern.agrees element (pattern.code u) = true) ∧
      (u = j → ¬ pattern.agrees element (pattern.code j) = true) ∧
      (j - k ≤ u → u - (j - k) < pattern.length →
        pattern.agrees element (pattern.code (u - (j - k))) = true) := by
    intro u
    rcases lt_trichotomy u j with before | rfl | after
    · by_cases shared : j - k ≤ u
      · obtain ⟨element, first, second⟩ := overlaps.1 (u - (j - k)) (by omega)
        rw [show j - k + (u - (j - k)) = u by omega] at first
        exact ⟨element, fun _ => first, fun same => absurd same (by omega), fun _ _ => second⟩
      · obtain ⟨element, accepted⟩ := legible.inhabited u (by omega)
        exact ⟨element, fun _ => accepted, fun same => absurd same (by omega),
          fun reached => absurd reached shared⟩
    · have separates := overlaps.2
      simp only [Pattern.Entails, not_forall] at separates
      obtain ⟨element, accepted, rejected⟩ := separates
      refine ⟨element, fun absurdly => absurd absurdly (Nat.lt_irrefl _), fun _ => rejected, ?_⟩
      intro _ _
      rwa [show u - (u - k) = k by omega]
    · by_cases needed : u - (j - k) < pattern.length
      · obtain ⟨element, accepted⟩ := legible.inhabited _ needed
        exact ⟨element, fun early => absurd early (by omega), fun same => absurd same (by omega),
          fun _ _ => accepted⟩
      · obtain ⟨element, -⟩ := legible.inhabited j bound
        exact ⟨element, fun early => absurd early (by omega), fun same => absurd same (by omega),
          fun _ inside => absurd inside needed⟩
  choose text early here late using wanted
  refine ⟨text, early, here j rfl, ?_⟩
  intro t inside
  have reached := late (j - k + t) (by omega) (by omega)
  rwa [show j - k + t - (j - k) = t by omega] at reached

def Evades (j shift : Nat) (cursor : Cursor) : Prop :=
  ((cursor.i : Int) = cursor.j ∧ cursor.j ≤ j) ∨ (shift : Int) < cursor.alignment

theorem Evades.step {j k : Nat} {cursor : Cursor} (compares : Compares pattern text hits)
    (borders : Borders pattern.Entails pattern.length next)
    (invariant : ScanInvariant pattern text 0 cursor) (bound : j < pattern.length)
    (agreed : ∀ t < j, pattern.agrees (text t) (pattern.code t) = true)
    (mismatch : ¬ pattern.agrees (text j) (pattern.code j) = true)
    (below : k < j) (falls : next j < k) (evades : Evades j (j - k) cursor) :
    Evades j (j - k) (cursor.step hits next) := by
  have lower := invariant.lower
  rcases evades with ⟨level, reach⟩ | past
  · have index : cursor.i = cursor.j.toNat := by omega
    have compared := compares cursor.i cursor.j.toNat (by omega)
    rcases Int.lt_or_eq_of_le reach with before | here
    · have hit : cursor.j = -1 ∨ hits cursor.i cursor.j.toNat = true := by
        right
        rw [compared, ← index]
        exact agreed _ (by omega)
      rw [Cursor.step_matched hit]
      exact .inl ⟨by push_cast; omega, by simp only; omega⟩
    · have miss : ¬ (cursor.j = -1 ∨ hits cursor.i cursor.j.toNat = true) := by
        rintro (fell | hit)
        · omega
        · rw [compared, ← index] at hit
          exact mismatch (by rwa [show cursor.i = j by omega] at hit)
      rw [Cursor.step_fallen miss]
      right
      simp only [Cursor.alignment]
      rw [show cursor.j.toNat = j by omega]
      omega
  · exact .inr (Int.lt_of_lt_of_le past (invariant.step_alignment borders))

/-- An evading scan ends at no occurrence up to the shift. -/
theorem Evades.passes {j shift position : Nat} {cursor : Cursor} (evades : Evades j shift cursor)
    (bound : j < pattern.length) (mismatch : ¬ pattern.agrees (text j) (pattern.code j) = true)
    (aligned : cursor.alignment = position) (occurs : pattern.OccursAt text position) :
    shift < position := by
  rw [Cursor.alignment] at aligned
  rcases evades with ⟨level, -⟩ | past
  · have zero : position = 0 := by omega
    have here := occurs j bound
    rw [zero, Nat.zero_add] at here
    exact absurd here mismatch
  · rw [Cursor.alignment] at past
    omega

end IDAPlugins.Search
