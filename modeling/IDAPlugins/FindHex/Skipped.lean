import IDAPlugins.FindHex.Wildcards

namespace IDAPlugins.FindHex

open Machine Search

/-! # Which wildcard patterns lose hits

A pattern loses a hit on some buffer exactly when it has a hidden overlap with
room in that buffer, or when the buffer is too large for the scan's `int` size.
-/

/-- Every match at or after a start offset is answered by a hit no later. -/
def SkipsNoHit (text matcher : List UInt8) : Prop :=
  ∀ start p : Nat, start ≤ matcher.length → start < 2147483648 → start ≤ p →
    Matches text matcher p →
    ∃ r, kmp matcher matcher.length text text.length start = some r ∧ (start : Int) ≤ r ∧ r ≤ p

def bufferOf (text : Nat → UInt8) (size : Nat) : List UInt8 :=
  (List.range size).map text

theorem bufferOf_length (text : Nat → UInt8) (size : Nat) : (bufferOf text size).length = size := by
  simp [bufferOf]

theorem behind_bufferOf (text : Nat → UInt8) {size i : Nat} (bound : i < size) :
    behind (bufferOf text size) 0 i = text i := by
  rw [behind, show ((0 : Int) + i).toNat = i by omega,
    List.getD_eq_getElem _ _ (by rwa [bufferOf_length])]
  simp [bufferOf]

theorem occursAt_bufferOf {pattern : Pattern UInt8 Code} {text : Nat → UInt8} {size position : Nat}
    (fits : position + pattern.length ≤ size) :
    pattern.OccursAt (behind (bufferOf text size) 0) position ↔ pattern.OccursAt text position := by
  have same (t : Nat) (bound : t < pattern.length) :
      behind (bufferOf text size) 0 (position + t) = text (position + t) :=
    behind_bufferOf text (by omega)
  exact ⟨fun occurs t bound => same t bound ▸ occurs t bound,
    fun occurs t bound => (same t bound).symm ▸ occurs t bound⟩

theorem Matches.of_occursAt {pattern : ElementText UpperElement} {text : Nat → UInt8}
    {size position : Nat} (fits : position + pattern.text.length / 2 ≤ size)
    (occurs : (searched (lpSub pattern.text (pattern.text.length / 2))
      (pattern.text.length / 2)).OccursAt text position) :
    Matches pattern.text (bufferOf text size) position := by
  refine ⟨by rwa [bufferOf_length], ?_⟩
  rw [← Nat.zero_add position]
  exact pattern.reads.occursAt_iff.mp ((occursAt_bufferOf fits).mpr occurs)

/-- A table entry that falls short of a realisable overlap loses a hit. -/
theorem ElementText.noHiddenOverlap_of_skipsNoHit (pattern : ElementText UpperElement) {mlen : Nat}
    (fits : pattern.text.length / 2 ≤ mlen) (size : mlen < 2147483648)
    (finds : ∀ matcher : List UInt8, matcher.length = mlen → SkipsNoHit pattern.text matcher) :
    (elements pattern.text).NoHiddenOverlap (mlen - pattern.text.length / 2) := by
  obtain ⟨next, built, borders⟩ :=
    getnextBin_borders (lpSub pattern.text (pattern.text.length / 2)) pattern.count_pos
  rw [← pattern.searched_noHiddenOverlap]
  refine noHiddenOverlap_of_covers pattern.searched_legible borders ?_
  intro j k below bound near overlaps
  have bound' : j < pattern.text.length / 2 := bound
  by_contra falls
  obtain ⟨text, agreed, mismatch, occurs⟩ :=
    overlaps.realised pattern.searched_legible below bound
  have matched : Matches pattern.text (bufferOf text mlen) (j - k) :=
    .of_occursAt (by omega) occurs
  obtain ⟨r, reported, after, before⟩ := finds _ (bufferOf_length text mlen) 0 (j - k)
    (Nat.zero_le _) (by decide) (Nat.zero_le _) matched
  have same (t : Nat) (inside : t ≤ j) : behind (bufferOf text mlen) 0 t = text t :=
    behind_bufferOf text (by omega)
  have failing : ¬ accepts (behind (bufferOf text mlen) 0 j)
      (lpSub pattern.text (pattern.text.length / 2) j) = true := by
    rw [same j (Nat.le_refl _)]
    exact mismatch
  have evading : ∀ cursor, ScanInvariant (searched (lpSub pattern.text (pattern.text.length / 2))
        (pattern.text.length / 2)) (behind (bufferOf text mlen) 0) 0 cursor →
      Evades j (j - k) cursor →
      Evades j (j - k) (cursor.step (fun i j => accepts (behind (bufferOf text mlen) 0 i)
        (lpSub pattern.text (pattern.text.length / 2) j)) next) := by
    intro cursor invariant evades
    refine evades.step (compares_accepts _) (borders.mono entails_of_follows) invariant bound ?_
      failing below (by omega)
    intro t inside
    rw [same t (Nat.le_of_lt inside)]
    exact agreed t inside
  obtain ⟨result, scanned, cursor, evades, ended⟩ :=
    kmpBin_ends (behind (bufferOf text mlen) 0) (int32 (((bufferOf text mlen).length : Nat) - 0))
      (Evades j (j - k)) pattern.count_pos (borders.mono entails_of_follows)
      (.inl ⟨rfl, by simp only; omega⟩) evading
  have answer := kmp_eq built scanned
  rw [show ((0 : Nat) : Int) = 0 from rfl, answer, Option.some.injEq] at reported
  rcases ended with ⟨missed, -, -⟩ | ⟨position, hit, aligned, room, whole⟩
  · rw [if_pos (by omega)] at reported
    omega
  · rw [bufferOf_length, Int.sub_zero, int32_of_range (by omega) (by omega)] at room
    rw [if_neg (by omega), Int.add_zero, hit, int32_of_range (by omega) (by omega)] at reported
    have beyond := evades.passes bound failing aligned whole
    omega

theorem ElementText.matches_somewhere (pattern : ElementText UpperElement) {mlen : Nat}
    (fits : pattern.text.length / 2 ≤ mlen) :
    ∃ matcher : List UInt8, matcher.length = mlen ∧ Matches pattern.text matcher 0 := by
  have named : ∀ i : Nat, ∃ byte : UInt8, i < pattern.text.length / 2 →
      accepts byte (lpSub pattern.text (pattern.text.length / 2) i) = true := by
    intro i
    by_cases bound : i < pattern.text.length / 2
    · obtain ⟨byte, accepted⟩ := pattern.searched_legible.inhabited i bound
      exact ⟨byte, fun _ => accepted⟩
    · exact ⟨0, fun inside => absurd inside bound⟩
  choose text accepted using named
  refine ⟨bufferOf text mlen, bufferOf_length text mlen, .of_occursAt (by omega) ?_⟩
  intro t bound
  rw [Nat.zero_add]
  exact accepted t bound

/-- Over all buffers of a size, the search answers every match with a hit no later if and only
if the pattern is longer than the buffer, or the size fits an `int` and no hidden overlap of
the pattern has room. -/
theorem kmp_skips_no_hit_iff (pattern : ElementText UpperElement) (mlen : Nat)
    (size : mlen < 4294967296) :
    (∀ matcher : List UInt8, matcher.length = mlen → SkipsNoHit pattern.text matcher) ↔
      mlen < pattern.text.length / 2 ∨ (mlen < 2147483648 ∧
        (elements pattern.text).NoHiddenOverlap (mlen - pattern.text.length / 2)) := by
  constructor
  · intro finds
    by_cases short : mlen < pattern.text.length / 2
    · exact .inl short
    · have small : mlen < 2147483648 := by
        by_contra large
        obtain ⟨matcher, rfl, matched⟩ :=
          pattern.matches_somewhere (Nat.le_of_not_lt short)
        obtain ⟨r, reported, after, -⟩ := finds matcher rfl 0 0 (Nat.zero_le _) (by decide)
          (Nat.le_refl _) matched
        obtain ⟨next, built, borders⟩ :=
          getnextBin_borders (lpSub pattern.text (pattern.text.length / 2)) pattern.count_pos
        have negative : int32 ((matcher.length : Int) - (0 : Nat)) < 0 := by
          unfold int32
          split <;> omega
        have scanned : kmpBin (behind matcher (0 : Nat)) (int32 (matcher.length - (0 : Nat)))
            (lpSub pattern.text (pattern.text.length / 2)) (pattern.text.length / 2) next =
              some (-1) := by
          refine Loop.run_leave ?_ _
          rw [kmpBinPass, if_neg (by simp only; omega)]
        rw [kmp_eq built scanned, if_pos (by decide), Option.some.injEq] at reported
        omega
      exact .inr ⟨small, pattern.noHiddenOverlap_of_skipsNoHit (by omega) small finds⟩
  · rintro (short | ⟨small, visible⟩) matcher rfl start p inside int after matched
    · exact absurd matched.1 (by omega)
    · obtain ⟨r, reported, ⟨-, absent⟩ | ⟨hit, rfl, later, -, least⟩⟩ :=
        pattern.reads.kmp_first pattern.count_pos pattern.searched_legible matcher start small inside
          (pattern.searched_noHiddenOverlap.mpr visible)
      · exact absurd matched (absent p after)
      · refine ⟨hit, reported, by omega, ?_⟩
        by_contra beyond
        exact least p after (by omega) matched

/-- `??4142` -/
def wildFirst : ElementText UpperElement where
  text := [0x3F, 0x3F, 0x34, 0x31, 0x34, 0x32]
  pairs := rfl
  nonempty := List.cons_ne_nil _ _
  digits := by decide +kernel

theorem kmp_skips_no_hit_wildFirst : SkipsNoHit wildFirst.text [0x41, 0x41, 0x41, 0x42] := by
  have visible : (elements wildFirst.text).NoHiddenOverlap (4 - wildFirst.text.length / 2) :=
    (elements wildFirst.text).noHiddenOverlap_three (Nat.le_refl 3) rfl
  exact (kmp_skips_no_hit_iff wildFirst 4 (by decide)).mpr (.inr ⟨by decide, visible⟩) _ rfl

/-- In `41 41 41 42`, `41??42` lies over offset `1`; after the mismatch at `3` the
scan goes on at offset `2`. -/
theorem kmp_skips_gapped :
    ¬ ∀ (pattern : ElementText UpperElement) (matcher : List UInt8),
      SkipsNoHit pattern.text matcher := by
  intro finds
  obtain ⟨r, reported, after, -⟩ := finds gapped [0x41, 0x41, 0x41, 0x42] 0 1 (by decide)
    (by decide) (by decide) (by decide)
  have missed : kmp [0x41, 0x41, 0x41, 0x42] 4 gapped.text gapped.text.length 0 = some (-1) := by
    decide
  cases missed.symm.trans reported
  omega

end IDAPlugins.FindHex
