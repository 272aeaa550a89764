import IDAPlugins.Search.FailureTable

namespace IDAPlugins.Search

/-! # Scanning a text with a failure table

The scan keeps a text index `i` and a pattern index `j`; the pattern is then
laid out at alignment `i - j`. One step compares at most one text element, and
the loops of the sources differ only in where they test for the end.
-/

structure Cursor where
  i : Nat
  j : Int

variable {α β : Type}

def Cursor.step (hits : Nat → Nat → Bool) (next : Nat → Int) (cursor : Cursor) : Cursor :=
  if cursor.j = -1 ∨ hits cursor.i cursor.j.toNat = true then
    { i := cursor.i + 1, j := cursor.j + 1 }
  else
    { cursor with j := next cursor.j.toNat }

def Cursor.alignment (cursor : Cursor) : Int :=
  cursor.i - cursor.j

def Cursor.work (size : Nat) (cursor : Cursor) : Nat :=
  2 * (size - cursor.i) + (cursor.j + 1).toNat

variable {pattern : Pattern α β} {text : Nat → α} {hits : Nat → Nat → Bool}
variable {next : Nat → Int} {start size : Nat}

/-- The comparison of the source is the pattern's notion of agreement. -/
def Compares (pattern : Pattern α β) (text : Nat → α) (hits : Nat → Nat → Bool) : Prop :=
  ∀ i, ∀ j < pattern.length, hits i j = pattern.agrees (text i) (pattern.code j)

/-- The part of the pattern before `j` agrees with the text at the alignment,
and no occurrence before the alignment has been passed over. -/
structure ScanInvariant (pattern : Pattern α β) (text : Nat → α) (start : Nat)
    (cursor : Cursor) : Prop where
  lower : -1 ≤ cursor.j
  upper : cursor.j < pattern.length
  started : start ≤ cursor.alignment
  agreed : ∀ t : Nat, (t : Int) < cursor.j →
    pattern.agrees (text (cursor.alignment.toNat + t)) (pattern.code t) = true

/-- Moves of the table that cannot jump over an occurrence ending before `size`. -/
def NeverSkips (pattern : Pattern α β) (text : Nat → α) (next : Nat → Int) (start size : Nat) :
    Prop :=
  ∀ position j, start ≤ position → j < pattern.length →
    (∀ t < j, pattern.agrees (text (position + t)) (pattern.code t) = true) →
    ¬ pattern.agrees (text (position + j)) (pattern.code j) = true →
    ∀ later, position < later → (later : Int) < position + (j - next j) →
      later + pattern.length ≤ size → ¬ pattern.OccursAt text later

def Passed (pattern : Pattern α β) (text : Nat → α) (start size : Nat) (cursor : Cursor) : Prop :=
  ∀ position, start ≤ position → (position : Int) < cursor.alignment →
    position + pattern.length ≤ size → ¬ pattern.OccursAt text position

theorem Cursor.step_matched {cursor : Cursor}
    (matched : cursor.j = -1 ∨ hits cursor.i cursor.j.toNat = true) :
    cursor.step hits next = { i := cursor.i + 1, j := cursor.j + 1 } := by
  simp only [Cursor.step, if_pos matched]

theorem Cursor.step_fallen {cursor : Cursor}
    (fallen : ¬ (cursor.j = -1 ∨ hits cursor.i cursor.j.toNat = true)) :
    cursor.step hits next = { cursor with j := next cursor.j.toNat } := by
  simp only [Cursor.step, if_neg fallen]

theorem Cursor.step_i_le (hits : Nat → Nat → Bool) (next : Nat → Int) (cursor : Cursor) :
    (cursor.step hits next).i ≤ cursor.i + 1 := by
  unfold Cursor.step
  split <;> simp

theorem ScanInvariant.initial (nonempty : 0 < pattern.length) :
    ScanInvariant pattern text start { i := start, j := 0 } where
  lower := by simp only; omega
  upper := by simp only; omega
  started := by simp only [Cursor.alignment]; omega
  agreed := by
    intro t below
    simp only at below
    omega

/-- One step keeps the agreement, unless it completes the pattern. -/
theorem ScanInvariant.step {cursor : Cursor}
    (compares : Compares pattern text hits)
    (borders : Borders pattern.Entails pattern.length next)
    (invariant : ScanInvariant pattern text start cursor) :
    ((cursor.step hits next).j < pattern.length ∧
        ScanInvariant pattern text start (cursor.step hits next)) ∨
      ((cursor.step hits next).j = pattern.length ∧
        ∃ position, start ≤ position ∧ (cursor.step hits next).alignment = position ∧
          (cursor.step hits next).i = position + pattern.length ∧
          pattern.OccursAt text position) := by
  obtain ⟨lower, upper, started, agreed⟩ := invariant
  by_cases matched : cursor.j = -1 ∨ hits cursor.i cursor.j.toNat = true
  · rw [Cursor.step_matched matched]
    have aligned : Cursor.alignment { i := cursor.i + 1, j := cursor.j + 1 } = cursor.alignment := by
      simp only [Cursor.alignment]
      omega
    have grown : ∀ t : Nat, (t : Int) < cursor.j + 1 →
        pattern.agrees (text (cursor.alignment.toNat + t)) (pattern.code t) = true := by
      intro t below
      by_cases earlier : (t : Int) < cursor.j
      · exact agreed t earlier
      · have index : cursor.j = t := by omega
        have hit := matched.resolve_left (by omega)
        rw [index, Int.toNat_natCast, compares _ _ (by omega)] at hit
        rwa [show cursor.i = cursor.alignment.toNat + t by
          simp only [Cursor.alignment] at started ⊢; omega] at hit
    rcases Int.lt_or_eq_of_le (Int.add_one_le_iff.mpr upper) with inside | complete
    · exact .inl ⟨inside, ⟨by simp only; omega, inside, by rw [aligned]; exact started,
        by rw [aligned]; exact grown⟩⟩
    · refine .inr ⟨complete, cursor.alignment.toNat, by omega, by rw [aligned]; omega, ?_, ?_⟩
      · simp only [Cursor.alignment] at started ⊢
        omega
      · intro t below
        exact grown t (by omega)
  · rw [Cursor.step_fallen matched]
    have nonnegative : 0 ≤ cursor.j := by
      have := not_or.mp matched
      omega
    have entry := borders cursor.j.toNat (by omega)
    have entryLower := entry.lower
    have entryBelow := entry.below
    refine .inl ⟨by simp only; omega, ⟨entryLower, by simp only; omega, ?_, ?_⟩⟩
    · simp only [Cursor.alignment] at started ⊢
      omega
    · intro t below
      have below : (t : Int) < next cursor.j.toNat := below
      obtain ⟨k, value⟩ := Int.eq_ofNat_of_zero_le (show 0 ≤ next cursor.j.toNat by omega)
      have border := entry.border k value t (by omega)
      have shifted := agreed (cursor.j.toNat - k + t) (by omega)
      have place : (Cursor.alignment { cursor with j := next cursor.j.toNat }).toNat + t =
          cursor.alignment.toNat + (cursor.j.toNat - k + t) := by
        simp only [Cursor.alignment] at started ⊢
        omega
      rw [place]
      exact border _ shifted

theorem ScanInvariant.step_work {cursor : Cursor}
    (borders : Borders pattern.Entails pattern.length next)
    (invariant : ScanInvariant pattern text start cursor) (more : cursor.i < size) :
    (cursor.step hits next).work size < cursor.work size := by
  obtain ⟨lower, upper, -, -⟩ := invariant
  by_cases matched : cursor.j = -1 ∨ hits cursor.i cursor.j.toNat = true
  · rw [Cursor.step_matched matched]
    simp only [Cursor.work]
    omega
  · have nonnegative : 0 ≤ cursor.j := by
      have := not_or.mp matched
      omega
    have entry := borders cursor.j.toNat (by omega)
    have entryLower := entry.lower
    have entryBelow := entry.below
    rw [Cursor.step_fallen matched]
    simp only [Cursor.work]
    omega

theorem ScanInvariant.step_alignment {cursor : Cursor}
    (borders : Borders pattern.Entails pattern.length next)
    (invariant : ScanInvariant pattern text start cursor) :
    cursor.alignment ≤ (cursor.step hits next).alignment := by
  obtain ⟨lower, upper, -, -⟩ := invariant
  by_cases matched : cursor.j = -1 ∨ hits cursor.i cursor.j.toNat = true
  · rw [Cursor.step_matched matched]
    simp only [Cursor.alignment]
    omega
  · have nonnegative : 0 ≤ cursor.j := by
      have := not_or.mp matched
      omega
    have below := (borders cursor.j.toNat (by omega)).below
    rw [Cursor.step_fallen matched]
    simp only [Cursor.alignment]
    omega

theorem Passed.initial : Passed pattern text start size { i := start, j := 0 } := by
  intro position after before
  simp only [Cursor.alignment] at before
  omega

/-- With a table that never skips, one step passes over no occurrence. -/
theorem Passed.step {cursor : Cursor} (compares : Compares pattern text hits)
    (never : NeverSkips pattern text next start size)
    (invariant : ScanInvariant pattern text start cursor)
    (passed : Passed pattern text start size cursor) :
    Passed pattern text start size (cursor.step hits next) := by
  obtain ⟨lower, upper, started, agreed⟩ := invariant
  by_cases matched : cursor.j = -1 ∨ hits cursor.i cursor.j.toNat = true
  · rw [Cursor.step_matched matched]
    intro position after before
    refine passed position after ?_
    simp only [Cursor.alignment] at before ⊢
    omega
  · rw [Cursor.step_fallen matched]
    have nonnegative : 0 ≤ cursor.j := by
      have := not_or.mp matched
      omega
    have mismatch := (not_or.mp matched).2
    rw [compares _ _ (by omega)] at mismatch
    intro position after before room occurs
    rcases lt_trichotomy (position : Int) cursor.alignment with earlier | here | later
    · exact passed position after earlier room occurs
    · apply mismatch
      have index : cursor.i = position + cursor.j.toNat := by
        simp only [Cursor.alignment] at here
        omega
      rw [index]
      exact occurs cursor.j.toNat (by omega)
    · have index : cursor.i = cursor.alignment.toNat + cursor.j.toNat := by
        simp only [Cursor.alignment] at started ⊢
        omega
      refine never cursor.alignment.toNat cursor.j.toNat (by omega) (by omega) ?_ ?_
        position (by omega) ?_ room occurs
      · intro t below
        exact agreed t (by omega)
      · rwa [← index]
      · simp only [Cursor.alignment] at before started ⊢
        omega

end IDAPlugins.Search
