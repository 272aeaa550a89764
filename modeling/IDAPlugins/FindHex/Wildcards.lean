import IDAPlugins.FindHex.Kmp
import Mathlib.Data.List.GetD

namespace IDAPlugins.FindHex

open Machine Search

/-! # Searching with `?`

A hit is always a true match. Whether every match is hit depends on the pattern:
the failure table compares codes for equality or against `-1`, so it does not see
that, say, `4?` and `41` may lie over the same byte.
-/

/-- The text of a pattern: pairs of allowed characters, at least one pair. -/
structure ElementText (allowed : UInt8 → Prop) where
  text : List UInt8
  pairs : text.length % 2 = 0
  nonempty : text ≠ []
  digits : ∀ ch ∈ text, allowed ch

def elements (text : List UInt8) : Pattern UInt8 (UInt8 × UInt8) where
  length := text.length / 2
  code i := (text.getD (i * 2) 0, text.getD (i * 2 + 1) 0)
  wild := (0x3F, 0x3F)
  agrees byte element := elementAgrees element.1 element.2 byte

def Matches (text matcher : List UInt8) (offset : Nat) : Prop :=
  offset + text.length / 2 ≤ matcher.length ∧
    (elements text).OccursAt (fun i => matcher.getD i 0) offset

instance (text matcher : List UInt8) (offset : Nat) : Decidable (Matches text matcher offset) :=
  inferInstanceAs (Decidable (_ ∧ ∀ t < text.length / 2, _ = true))

variable {allowed : UInt8 → Prop}

theorem ElementText.count_pos (pattern : ElementText allowed) : 0 < pattern.text.length / 2 := by
  have := List.length_pos_iff.mpr pattern.nonempty
  have := pattern.pairs
  omega

theorem ElementText.allowed_get (pattern : ElementText allowed) {i : Nat}
    (bound : i < pattern.text.length) : allowed (pattern.text.getD i 0) := by
  rw [List.getD_eq_getElem _ _ bound]
  exact pattern.digits _ (List.getElem_mem bound)

/-- What the codes of `kmp` have to do with the text they were read from. -/
structure Reads (text : List UInt8) : Prop where
  agrees : ∀ byte, ∀ i < text.length / 2,
    accepts byte (lpSub text (text.length / 2) i) =
      (elements text).agrees byte ((elements text).code i)

theorem ElementText.reads (pattern : ElementText UpperElement) : Reads pattern.text where
  agrees := by
    intro byte i bound
    rw [lpSub, if_pos bound]
    exact accepts_encodeElement (pattern.allowed_get (by omega)) (pattern.allowed_get (by omega)) byte

theorem Reads.occursAt_iff {text matcher : List UInt8} (reads : Reads text) {start position : Nat} :
    (searched (lpSub text (text.length / 2)) (text.length / 2)).OccursAt
        (behind matcher start) position ↔
      (elements text).OccursAt (fun i => matcher.getD i 0) (start + position) := by
  have place (t : Nat) :
      behind matcher start (position + t) = matcher.getD (start + position + t) 0 := by
    rw [behind, show ((start : Int) + (position + t : Nat)).toNat = start + position + t by omega]
  constructor
  · intro occurs t bound
    have hit := occurs t bound
    rw [place] at hit
    exact (reads.agrees _ t bound).symm.trans hit
  · intro occurs t bound
    rw [place]
    exact (reads.agrees _ t bound).trans (occurs t bound)

theorem mainSize_eq {mlen start : Nat} (size : mlen < 4294967296) (inside : start ≤ mlen)
    (positive : 0 ≤ int32 (mlen - start)) : int32 (mlen - start) = mlen - start := by
  rcases int32_of_unsigned (show 0 ≤ (mlen : Int) - start by omega) (by omega) with
    negative | same
  · omega
  · exact same

/-- `kmp` returns, and an offset it reports is a match at or after the start, inside the
buffer. -/
theorem kmp_reports_matches (pattern : ElementText UpperElement) (matcher : List UInt8) (start : Nat)
    (size : matcher.length < 4294967296) (inside : start ≤ matcher.length)
    (int : start < 2147483648) :
    ∃ r, kmp matcher matcher.length pattern.text pattern.text.length start = some r ∧
      (0 ≤ r → start ≤ r ∧ Matches pattern.text matcher r.toNat) := by
  obtain ⟨next, built, borders⟩ :=
    getnextBin_borders (lpSub pattern.text (pattern.text.length / 2)) pattern.count_pos
  obtain ⟨r, scanned, cursor, -, ⟨missed, -, -⟩ | ⟨position, found, -, fits, occurs⟩⟩ :=
    kmpBin_ends (behind matcher start) (int32 (matcher.length - start)) (fun _ => True)
      pattern.count_pos (borders.mono entails_of_follows) trivial (fun _ _ _ => trivial)
  · refine ⟨r, ?_, fun absurdly => absurd absurdly (by omega)⟩
    rw [kmp_eq built scanned, if_pos (by omega)]
  · have room := mainSize_eq size inside (by omega)
    refine ⟨int32 (position + start), ?_, ?_⟩
    · rw [kmp_eq built scanned, if_neg (by omega), found]
    · intro hit
      rcases int32_of_unsigned (show 0 ≤ (position : Int) + start by omega) (by omega) with
        negative | same
      · omega
      · rw [same]
        refine ⟨by omega, by omega, ?_⟩
        rw [show ((position : Int) + start).toNat = start + position by omega]
        exact pattern.reads.occursAt_iff.mp occurs

def gapped : ElementText UpperElement where
  text := [0x34, 0x31, 0x3F, 0x3F, 0x34, 0x32]
  pairs := rfl
  nonempty := List.cons_ne_nil _ _
  digits := by decide +kernel

theorem kmp_reports_gapped :
    ∃ r, kmp [0x00, 0x41, 0x07, 0x42] 4 gapped.text gapped.text.length (0 : Nat) = some r ∧
      (0 ≤ r → ((0 : Nat) : Int) ≤ r ∧ Matches gapped.text [0x00, 0x41, 0x07, 0x42] r.toNat) :=
  kmp_reports_matches gapped [0x00, 0x41, 0x07, 0x42] 0 (by decide) (by decide) (by decide)

theorem elements_wild_agrees (text : List UInt8) (byte : UInt8) :
    (elements text).agrees byte (elements text).wild = true := by
  simp [elements, elementAgrees, nibbleAgrees]

/-- Elements over upper-case digits and `?` are told apart by the bytes they name. -/
theorem ElementText.legible (pattern : ElementText UpperElement) :
    (elements pattern.text).Legible where
  wildAgrees := elements_wild_agrees pattern.text
  inhabited := by
    intro i bound
    have bound : i < pattern.text.length / 2 := bound
    obtain ⟨x, highSmall, high⟩ :=
      nibbleAgrees_exists (pattern.allowed_get (show i * 2 < pattern.text.length by omega))
    obtain ⟨y, lowSmall, low⟩ :=
      nibbleAgrees_exists (pattern.allowed_get (show i * 2 + 1 < pattern.text.length by omega))
    refine ⟨UInt8.ofNat (16 * x + y), ?_⟩
    simp only [elements, elementAgrees_join highSmall lowSmall, high, low, Bool.and_self]
  onlyWild := by
    intro i _ all
    have join (x y : Nat) (highSmall : x < 16) (lowSmall : y < 16) :
        (nibbleAgrees (pattern.text.getD (i * 2) 0) x &&
          nibbleAgrees (pattern.text.getD (i * 2 + 1) 0) y) = true := by
      rw [← elementAgrees_join highSmall lowSmall]
      exact all _
    refine Prod.ext ?_ ?_
    · exact question_of_nibbleAgrees fun x small =>
        (Bool.and_eq_true _ _ ▸ join x 0 small (by decide)).1
    · exact question_of_nibbleAgrees fun y small =>
        (Bool.and_eq_true _ _ ▸ join 0 y (by decide) small).2

theorem searched_wildAgrees (sub : Nat → Code) (subSize : Nat) (byte : UInt8) :
    (searched sub subSize).agrees byte (searched sub subSize).wild = true := by
  simp [searched, accepts]

theorem ElementText.searched_legible (pattern : ElementText UpperElement) :
    (searched (lpSub pattern.text (pattern.text.length / 2)) (pattern.text.length / 2)).Legible where
  wildAgrees := searched_wildAgrees _ _
  inhabited := by
    intro i bound
    obtain ⟨byte, agrees⟩ := pattern.legible.inhabited i bound
    exact ⟨byte, (pattern.reads.agrees byte i bound).trans agrees⟩
  onlyWild := by
    intro i bound all
    have bound : i < pattern.text.length / 2 := bound
    have wild := pattern.legible.onlyWild i bound fun byte =>
      (pattern.reads.agrees byte i bound).symm.trans (all byte)
    obtain ⟨high, low⟩ := Prod.ext_iff.mp wild
    have high : pattern.text.getD (i * 2) 0 = 0x3F := high
    have low : pattern.text.getD (i * 2 + 1) 0 = 0x3F := low
    simp only [searched, lpSub, if_pos bound, high, low]
    rfl

theorem ElementText.follows_iff (pattern : ElementText UpperElement) {i j : Nat}
    (first : i < pattern.text.length / 2) (second : j < pattern.text.length / 2) :
    (searched (lpSub pattern.text (pattern.text.length / 2)) (pattern.text.length / 2)).Follows i j ↔
      (elements pattern.text).Follows i j := by
  constructor
  · rintro (same | wild)
    · have same : lpSub pattern.text (pattern.text.length / 2) i =
          lpSub pattern.text (pattern.text.length / 2) j := same
      obtain ⟨high, low⟩ := elementAgrees_ext
        (pattern.allowed_get (show i * 2 < pattern.text.length by omega))
        (pattern.allowed_get (show i * 2 + 1 < pattern.text.length by omega))
        (pattern.allowed_get (show j * 2 < pattern.text.length by omega))
        (pattern.allowed_get (show j * 2 + 1 < pattern.text.length by omega))
        (fun byte => (pattern.reads.agrees byte i first).symm.trans
          ((congrArg (accepts byte) same).trans (pattern.reads.agrees byte j second)))
      exact .inl (Prod.ext high low)
    · refine .inr (pattern.legible.onlyWild j second fun byte => ?_)
      have wild : lpSub pattern.text (pattern.text.length / 2) j = -1 := wild
      rw [← pattern.reads.agrees byte j second, wild]
      simp [accepts]
  · rintro (same | wild)
    · obtain ⟨high, low⟩ := Prod.ext_iff.mp same
      have high : pattern.text.getD (i * 2) 0 = pattern.text.getD (j * 2) 0 := high
      have low : pattern.text.getD (i * 2 + 1) 0 = pattern.text.getD (j * 2 + 1) 0 := low
      exact .inl (by simp only [searched, lpSub, if_pos first, if_pos second, high, low])
    · refine .inr (pattern.searched_legible.onlyWild j second fun byte => ?_)
      exact (pattern.reads.agrees byte j second).trans
        (wild ▸ elements_wild_agrees pattern.text byte)

theorem ElementText.searched_noHiddenOverlap (pattern : ElementText UpperElement) {room : Nat} :
    (searched (lpSub pattern.text (pattern.text.length / 2))
        (pattern.text.length / 2)).NoHiddenOverlap room ↔
      (elements pattern.text).NoHiddenOverlap room := by
  constructor
  · intro visible
    exact visible.recode rfl (fun byte i bound => (pattern.reads.agrees byte i bound).symm)
      (fun i first j second => (pattern.follows_iff first second).mp)
  · intro visible
    exact visible.recode rfl (fun byte i bound => pattern.reads.agrees byte i bound)
      (fun i first j second => (pattern.follows_iff first second).mpr)

/-- Without hidden overlaps, `kmp` returns the first match at or after the start. -/
theorem Reads.kmp_first {text : List UInt8} (reads : Reads text) (nonempty : 0 < text.length / 2)
    (legible : (searched (lpSub text (text.length / 2)) (text.length / 2)).Legible)
    (matcher : List UInt8) (start : Nat) (size : matcher.length < 2147483648)
    (inside : start ≤ matcher.length)
    (visible : (searched (lpSub text (text.length / 2)) (text.length / 2)).NoHiddenOverlap
      (matcher.length - text.length / 2)) :
    ∃ r, kmp matcher matcher.length text text.length start = some r ∧
      ((r = -1 ∧ ∀ p, start ≤ p → ¬ Matches text matcher p) ∨
        ∃ p : Nat, r = p ∧ start ≤ p ∧ Matches text matcher p ∧
          ∀ q, start ≤ q → q < p → ¬ Matches text matcher q) := by
  obtain ⟨next, built, borders⟩ := getnextBin_borders (lpSub text (text.length / 2)) nonempty
  have covers := covers_of_noHiddenOverlap legible nonempty visible FindHex.follows_iff
    (fun i j skip => eq_of_beq skip) built
  have room : int32 (matcher.length - start) = matcher.length - start :=
    int32_of_range (by omega) (by omega)
  have never : NeverSkips (searched (lpSub text (text.length / 2)) (text.length / 2))
      (behind matcher start) next 0 (int32 (matcher.length - start)).toNat := by
    have length : (searched (lpSub text (text.length / 2)) (text.length / 2)).length =
      text.length / 2 := rfl
    exact neverSkips_of_covers (borders.mono entails_of_follows) covers (by omega)
  obtain ⟨r, scanned, ⟨missed, absent⟩ | ⟨position, found, fits, occurs, least⟩⟩ :=
    kmpBin_first nonempty (borders.mono entails_of_follows) never
  · refine ⟨r, by rw [kmp_eq built scanned, if_pos (by omega)], .inl ⟨missed, ?_⟩⟩
    rintro p after ⟨fits, occurs⟩
    obtain ⟨position, rfl⟩ := Nat.exists_eq_add_of_le after
    exact absent position (by omega) (reads.occursAt_iff.mpr occurs)
  · have value : int32 (r + start) = (start + position : Nat) := by
      rw [int32_of_range (by omega) (by omega)]
      omega
    refine ⟨int32 (r + start), by rw [kmp_eq built scanned, if_neg (by omega)],
      .inr ⟨start + position, value, by omega, ⟨by omega, reads.occursAt_iff.mp occurs⟩, ?_⟩⟩
    rintro q after before ⟨-, matched⟩
    obtain ⟨earlier, rfl⟩ := Nat.exists_eq_add_of_le after
    exact least earlier (by omega) (reads.occursAt_iff.mpr matched)

end IDAPlugins.FindHex
