import IDAPlugins.Search.Scan
import Mathlib.Tactic.Ring
import Mathlib.Tactic.Push

namespace IDAPlugins.Search

/-! # Which patterns a failure table searches completely

The table compares codes with codes, the scan compares text with codes. The two
agree about a shift when every code of the overlap either equals the code above
it or is the wildcard. `NoHiddenOverlap` says that all the shifts a text could
realise are of that kind; it is exactly what makes every table entry reach the
longest shift that may still succeed.
-/

variable {α β : Type} {pattern : Pattern α β}

def Pattern.Follows (pattern : Pattern α β) (i j : Nat) : Prop :=
  pattern.code i = pattern.code j ∨ pattern.code j = pattern.wild

/-- After a mismatch at position `j`, the pattern shifted by `j - k` may still
fit the text read so far, mismatched element included. -/
def Pattern.Overlaps (pattern : Pattern α β) (j k : Nat) : Prop :=
  Border pattern.Compatible j k ∧ ¬ pattern.Entails k j

/-- Every overlap a text can realise, for shifts up to `room`, is one the table
can see. -/
def Pattern.NoHiddenOverlap (pattern : Pattern α β) (room : Nat) : Prop :=
  ∀ j k, k < j → j < pattern.length → j - k ≤ room → pattern.Overlaps j k →
    Border pattern.Follows j k

/-- Three elements shifted by one have only the first below another. -/
theorem Pattern.noHiddenOverlap_three (short : pattern.length ≤ 3)
    (wild : pattern.code 0 = pattern.wild) : pattern.NoHiddenOverlap 1 := by
  intro j k below bound near _ t inside
  have first : t = 0 := by omega
  exact .inr (first ▸ wild)

/-- Every table entry reaches the longest overlap a text can realise. -/
def Pattern.Covers (pattern : Pattern α β) (room : Nat) (next : Nat → Int) : Prop :=
  ∀ j k, k < j → j < pattern.length → j - k ≤ room → pattern.Overlaps j k → (k : Int) ≤ next j

theorem Pattern.Follows.trans (i j k : Nat) (first : pattern.Follows i j)
    (second : pattern.Follows j k) : pattern.Follows i k := by
  rcases second with same | wild
  · rcases first with equal | free
    · exact .inl (equal.trans same)
    · exact .inr (same ▸ free)
  · exact .inr wild

theorem Pattern.Follows.entails {i j : Nat} (legible : pattern.Legible)
    (follows : pattern.Follows i j) : pattern.Entails i j := by
  intro element accepted
  rcases follows with same | free
  · exact same ▸ accepted
  · exact free ▸ legible.wildAgrees element

theorem Pattern.Legible.wild_of_entails {i j : Nat} (legible : pattern.Legible)
    (bound : j < pattern.length) (free : pattern.code i = pattern.wild)
    (entails : pattern.Entails i j) : pattern.code j = pattern.wild :=
  legible.onlyWild j bound fun element => entails element (free ▸ legible.wildAgrees element)

theorem Pattern.Legible.compatible_refl {i j : Nat} (legible : pattern.Legible)
    (bound : i < pattern.length) (entails : pattern.Entails i j) : pattern.Compatible i j :=
  legible.compatible_of_entails bound (fun _ accepted => accepted) entails

/-- An overlap that the table can see at one pair of positions and not at an
earlier one forces the codes after it to entail each other. -/
theorem Pattern.NoHiddenOverlap.entails_after {room j k t : Nat} (legible : pattern.Legible)
    (visible : pattern.NoHiddenOverlap room) (below : k < j) (near : j - k ≤ room)
    (border : Border pattern.Compatible j k) (inside : t < k)
    (unseen : ¬ pattern.Follows (j - k + t) t) :
    ∀ u, j + u < pattern.length → pattern.Entails (k + u) (j + u) := by
  intro u
  induction u using Nat.strong_induction_on with
  | h u ih =>
    intro bound
    have shift : j + u - (k + u) = j - k := by omega
    have overlap : Border pattern.Compatible (j + u) (k + u) := by
      intro v under
      rw [shift]
      by_cases early : v < k
      · exact border v early
      · have entails := ih (v - k) (by omega) (by omega)
        rw [show k + (v - k) = v by omega, show j + (v - k) = j - k + v by omega] at entails
        exact legible.compatible_of_entails (by omega) entails (fun _ accepted => accepted)
    by_contra separates
    have follows := visible (j + u) (k + u) (by omega) bound (by omega) ⟨overlap, separates⟩
      t (by omega)
    rw [shift] at follows
    exact unseen follows

section Covering

variable {follows skips : Nat → Nat → Bool} {room : Nat}

/-- Progress of the table loop: borders longer than the current one cannot be
continued to a realisable overlap, and finished entries cover theirs. -/
structure CoverInvariant (pattern : Pattern α β) (room : Nat) (state : Building) : Prop where
  longer : ∀ k : Nat, state.j < k → k < state.i → state.i - k ≤ room →
    ∀ l, state.i < l → l < pattern.length → ¬ pattern.Overlaps l (k + (l - state.i))
  finished : ∀ l ≤ state.i, ∀ k < l, l - k ≤ room → pattern.Overlaps l k → (k : Int) ≤ state.next l

theorem CoverInvariant.start : CoverInvariant pattern room Building.start where
  longer := by
    intro k _ below
    exact absurd below (Nat.not_lt_zero _)
  finished := by
    intro l inside k below
    exact absurd (Nat.lt_of_lt_of_le below inside) (Nat.not_lt_zero _)

/-- A border of the current position that the failed comparison gives up has no
realisable continuation. -/
theorem CoverInvariant.abandoned {state : Building} {j k l : Nat} (legible : pattern.Legible)
    (visible : pattern.NoHiddenOverlap room)
    (invariant : BuildInvariant pattern.Follows pattern.length state)
    (cover : CoverInvariant pattern room state) (current : state.j = j)
    (failed : ¬ pattern.Follows state.i j) (jump : state.next j < k) (shorter : k ≤ j)
    (near : state.i - k ≤ room) (later : state.i < l) (bound : l < pattern.length) :
    ¬ pattern.Overlaps l (k + (l - state.i)) := by
  intro overlaps
  have below : j < state.i := by have := invariant.current.below; omega
  have border := invariant.current.border j current
  have shift : l - (k + (l - state.i)) = state.i - k := by omega
  have seen := visible l _ (by omega) bound (by omega) overlaps
  have borne : ∀ t < k + (l - state.i), pattern.Follows (state.i - k + t) t := by
    intro t under
    simpa only [shift] using seen t under
  rcases Nat.lt_or_eq_of_le shorter with inside | rfl
  · have head : pattern.Follows state.i k := by
      simpa only [show state.i - k + k = state.i by omega] using borne k (by omega)
    -- Both borders lie under the same stretch of the pattern, so they agree with each other.
    have inner : Border pattern.Compatible j k := by
      intro t under
      have long := (border (j - k + t) (by omega)).entails legible
      rw [show state.i - j + (j - k + t) = state.i - k + t by omega] at long
      exact legible.compatible_of_entails (by have := invariant.bound; omega) long
        ((borne t (by omega)).entails legible)
    by_cases separates : pattern.Entails k j
    · have notWild : pattern.code k ≠ pattern.wild := fun free =>
        failed (.inr (legible.wild_of_entails (by have := invariant.bound; omega) free separates))
      have same : pattern.code state.i = pattern.code k := head.resolve_right notWild
      -- `k` is hidden under `j`, and `j` under the current position: entailment chains past `l`.
      have hidden : ¬ pattern.Follows (j + 1 - (k + 1) + k) k := by
        rw [show j + 1 - (k + 1) + k = j by omega]
        rintro (equal | free)
        · exact failed (.inl (same.trans equal.symm))
        · exact notWild free
      have up : pattern.Entails state.i j := by
        intro element accepted
        exact separates element (same ▸ accepted)
      have first := visible.entails_after legible (j := j + 1) (k := k + 1) (t := k) (by omega)
        (by omega) (inner.extend (by omega) (legible.compatible_of_entails
          (by have := invariant.bound; omega) separates (fun _ accepted => accepted)))
        (by omega) hidden (l - state.i - 1) (by omega)
      have second := visible.entails_after legible (j := state.i + 1) (k := j + 1) (t := j)
        (by omega) (by omega)
        (Border.extend (by omega)
          (fun t under => legible.compatible_refl (by have := invariant.bound; omega)
            ((border t under).entails legible))
          (legible.compatible_refl invariant.bound up))
        (by omega) (by rwa [show state.i + 1 - (j + 1) + j = state.i by omega])
        (l - state.i - 1) (by omega)
      refine overlaps.2 ?_
      rw [show k + (l - state.i) = k + 1 + (l - state.i - 1) by omega]
      have chained := first.trans second
      rwa [show state.i + 1 + (l - state.i - 1) = l by omega] at chained
    · have covered := cover.finished j (by omega) k inside (by omega) ⟨inner, separates⟩
      omega
  · exact failed (by
      simpa only [show state.i - k + k = state.i by omega] using borne k (by omega))

/-- The entry closed by a successful comparison covers its overlaps, also when
it inherits the entry of an equal code. -/
theorem CoverInvariant.closed {state : Building} {j k : Nat} (legible : pattern.Legible)
    (visible : pattern.NoHiddenOverlap room)
    (invariant : BuildInvariant pattern.Follows pattern.length state)
    (cover : CoverInvariant pattern room state)
    (skipped : ∀ i j, skips i j = true → pattern.code i = pattern.code j)
    (current : state.j + 1 = j) (border : Border pattern.Follows (state.i + 1) j)
    (more : state.i + 1 < pattern.length)
    (below : k < state.i + 1) (near : state.i + 1 - k ≤ room)
    (overlaps : pattern.Overlaps (state.i + 1) k) :
    (k : Int) ≤ if skips (state.i + 1) j then state.next j else j := by
  have inside : j ≤ state.i := by have := invariant.current.below; omega
  have reach : k ≤ j := by
    by_contra beyond
    refine cover.longer (k - 1) (by omega) (by omega) (by omega) (state.i + 1) (by omega) more ?_
    rwa [show k - 1 + (state.i + 1 - state.i) = k by omega]
  split
  · rename_i skip
    have same := skipped _ _ skip
    rcases Nat.lt_or_eq_of_le reach with shorter | rfl
    · refine cover.finished j inside k shorter (by omega) ⟨?_, ?_⟩
      · have seen := visible _ k below more near overlaps
        intro t under
        have long := (border (j - k + t) (by omega)).entails legible
        rw [show state.i + 1 - j + (j - k + t) = state.i + 1 - k + t by omega] at long
        exact legible.compatible_of_entails (by omega) long ((seen t under).entails legible)
      · intro entails
        exact overlaps.2 fun element accepted => same ▸ entails element accepted
    · exact absurd (fun element accepted => same ▸ accepted) overlaps.2
  · omega

theorem CoverInvariant.advance {state : Building} (legible : pattern.Legible)
    (visible : pattern.NoHiddenOverlap room)
    (compares : ∀ i j, follows i j = true ↔ pattern.Follows i j)
    (skipped : ∀ i j, skips i j = true → pattern.code i = pattern.code j)
    (invariant : BuildInvariant pattern.Follows pattern.length state)
    (more : state.i + 1 < pattern.length) (cover : CoverInvariant pattern room state) :
    CoverInvariant pattern room (state.advance follows skips) := by
  have lower := invariant.current.lower
  by_cases matched : state.j = -1 ∨ follows state.i state.j.toNat = true
  · have grown := (invariant.advance follows skips
      Pattern.Follows.trans (fun i j => (compares i j).mp) more).current
    rw [Building.advance_matched matched] at grown ⊢
    refine ⟨?_, ?_⟩
    · intro k above below near l later bound
      have above : state.j + 1 < k := above
      have below : k < state.i + 1 := below
      have near : state.i + 1 - k ≤ room := near
      have later : state.i + 1 < l := later
      have previous := cover.longer (k - 1) (by omega) (by omega) (by omega) l (by omega) bound
      rwa [show k - 1 + (l - state.i) = k + (l - (state.i + 1)) by omega] at previous
    · intro l inside k below near overlaps
      rcases Nat.lt_or_eq_of_le inside with earlier | rfl
      · have kept : l ≠ state.i + 1 := Nat.ne_of_lt earlier
        simpa only [Function.update_of_ne kept] using
          cover.finished l (Nat.lt_succ_iff.mp earlier) k below near overlaps
      · have index : state.j + 1 = (state.j + 1).toNat := by omega
        have closed := cover.closed legible visible invariant skipped index
          (grown.border _ index) more below near overlaps
        simpa only [Function.update_self, ← index] using closed
  · rw [Building.advance_fallen matched]
    have nonnegative : 0 ≤ state.j := by
      have := not_or.mp matched
      omega
    have current : state.j = state.j.toNat := by omega
    have failed : ¬ pattern.Follows state.i state.j.toNat := fun follows =>
      (not_or.mp matched).2 ((compares _ _).mpr follows)
    refine ⟨?_, cover.finished⟩
    intro k above below near l later bound
    by_cases shorter : k ≤ state.j.toNat
    · have above : state.next state.j.toNat < k := above
      have near : state.i - k ≤ room := near
      have later : state.i < l := later
      have hopeless :=
        cover.abandoned legible visible invariant current failed above shorter near later bound
      exact hopeless
    · exact cover.longer k (by omega) below near l later bound

theorem covers_of_noHiddenOverlap {next : Nat → Int} (legible : pattern.Legible)
    (nonempty : 0 < pattern.length) (visible : pattern.NoHiddenOverlap room)
    (compares : ∀ i j, follows i j = true ↔ pattern.Follows i j)
    (skipped : ∀ i j, skips i j = true → pattern.code i = pattern.code j)
    (built : failureTable follows skips pattern.length = some next) :
    pattern.Covers room next := by
  obtain ⟨found, result, final, rfl, last, -, cover⟩ :=
    failureTable_built follows skips (CoverInvariant pattern room)
      Pattern.Follows.trans (fun i j => (compares i j).mp) nonempty CoverInvariant.start
      (fun state invariant more cover =>
        cover.advance legible visible compares skipped invariant more)
  have same : final.next = next := Option.some.inj (result.symm.trans built)
  intro j k below bound near overlaps
  rw [← same]
  exact cover.finished j (by omega) k below near overlaps

end Covering

/-- Stepping `s` round a circle of `d + s` places from place `0` comes back to
`0` through place `d`, so a property kept by every step except the one from `d`
holds at `d`. -/
theorem reaches_around {d s : Nat} {P : Nat → Prop} (positive : 0 < s) (first : P 0)
    (up : ∀ x < d, P x → P (x + s)) (down : ∀ x, d < x → x < d + s → P x → P (x - d)) : P d := by
  rcases Nat.eq_zero_or_pos d with rfl | between
  · exact first
  by_contra missing
  have orbit : ∀ m, P (m * s % (d + s)) := by
    intro m
    induction m with
    | zero => simpa using first
    | succ m ih =>
      have place := Nat.mod_lt (m * s) (show 0 < d + s by omega)
      have step : (m + 1) * s % (d + s) = (m * s % (d + s) + s) % (d + s) := by
        rw [Nat.add_mul, Nat.one_mul, Nat.add_mod, Nat.mod_eq_of_lt (show s < d + s by omega)]
      rw [step]
      rcases lt_trichotomy (m * s % (d + s)) d with below | here | above
      · rw [Nat.mod_eq_of_lt (by omega)]
        exact up _ below ih
      · exact absurd (here ▸ ih) missing
      · have moved := down _ above place ih
        rwa [Nat.mod_eq_sub_mod (by omega), Nat.mod_eq_of_lt (by omega),
          show m * s % (d + s) + s - (d + s) = m * s % (d + s) - d by omega]
  have last := orbit (d + s - 1)
  have back : (d + s - 1) * s % (d + s) = d := by
    have whole : (d + s - 1) * s = d + (s - 1) * (d + s) := by
      obtain ⟨s, rfl⟩ := Nat.exists_eq_succ_of_ne_zero (Nat.pos_iff_ne_zero.mp positive)
      simp only [Nat.succ_eq_add_one, Nat.add_sub_cancel, ← Nat.add_assoc]
      ring
    rw [whole, Nat.add_mul_mod_self_right, Nat.mod_eq_of_lt (by omega)]
  exact missing (back ▸ last)

/-- If some realisable overlap were hidden, the shortest one would chain the
wildcard from position `k` round to position `j`, which then rejects nothing. -/
theorem noHiddenOverlap_of_covers {room : Nat} {next : Nat → Int} (legible : pattern.Legible)
    (borders : Borders pattern.Follows pattern.length next) (covers : pattern.Covers room next) :
    pattern.NoHiddenOverlap room := by
  suffices shorter : ∀ shift, ∀ j k, k < j → j < pattern.length → j - k = shift → shift ≤ room →
      pattern.Overlaps j k → Border pattern.Follows j k by
    intro j k below bound near overlaps
    exact shorter (j - k) j k below bound rfl near overlaps
  intro shift
  induction shift using Nat.strong_induction_on with
  | h shift ih =>
    rintro j k below bound rfl near ⟨compatible, separates⟩
    have entry := borders j bound
    have reach := covers j k below bound near ⟨compatible, separates⟩
    have entryBelow := entry.below
    obtain ⟨q, value⟩ := Int.eq_ofNat_of_zero_le (show 0 ≤ next j by omega)
    have border := entry.border q value
    rcases Nat.lt_or_eq_of_le (show k ≤ q by omega) with longer | rfl
    · by_contra hidden
      have unseen : ∃ t < k, ¬ pattern.Follows (q - k + t) t := by
        by_contra all
        push Not at all
        exact hidden (border.trans Pattern.Follows.trans (by omega) (by omega) all)
      obtain ⟨t, inside, unseen⟩ := unseen
      have inner : Border pattern.Compatible q k := by
        intro v under
        have long := (border (q - k + v) (by omega)).entails legible
        rw [show j - q + (q - k + v) = j - k + v by omega] at long
        exact (compatible v under).mono long
      have smaller : pattern.NoHiddenOverlap (q - k) := by
        intro l m under within close overlaps
        exact ih (l - m) (by omega) l m under within rfl (by omega) overlaps
      have entails := smaller.entails_after legible longer (Nat.le_refl _) inner inside unseen
      have after : ∀ x, k ≤ x → x + (q - k) < pattern.length → pattern.Entails x (x + (q - k)) := by
        intro x above within
        have chained := entails (x - k) (by omega)
        rwa [show k + (x - k) = x by omega, show q + (x - k) = x + (q - k) by omega] at chained
      have before : ∀ x, x < q → pattern.Follows (x + (j - q)) x := by
        intro x under
        simpa only [Nat.add_comm] using border x under
      -- Unless `k` is the wildcard, it equals the code `j - q` later, which entails `j`.
      have last := after (k + (j - q)) (by omega) (by omega)
      rw [show k + (j - q) + (q - k) = j by omega] at last
      rcases before k longer with same | wild
      · exact separates fun element accepted => last element (same ▸ accepted)
      · have round := reaches_around (d := j - q) (s := q - k)
          (P := fun x => pattern.code (k + x) = pattern.wild) (by omega) (by simpa using wild)
          (by
            intro x under free
            have step := after (k + x) (by omega) (by omega)
            rw [Nat.add_assoc] at step
            exact legible.wild_of_entails (by omega) free step)
          (by
            intro x above under free
            have step := before (k + (x - (j - q))) (by omega)
            rw [show k + (x - (j - q)) + (j - q) = k + x by omega] at step
            exact step.elim (fun same => same ▸ free) id)
        exact separates fun element _ =>
          (legible.wild_of_entails bound round last) ▸ legible.wildAgrees element
    · exact border

end IDAPlugins.Search
