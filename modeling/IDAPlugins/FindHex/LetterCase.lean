import IDAPlugins.FindHex.Enumerate
import IDAPlugins.FindHex.Skipped

namespace IDAPlugins.FindHex

open Machine Search

/-! # Patterns in lower case

The input check takes letters of either case, and so does `sscanf` for a whole byte. The
table for half a byte knows upper case only: of a lower-case letter it makes `-1`.
-/

/-- What the input check lets through. -/
def Accepted (ch : UInt8) : Prop :=
  ch = 0x3F ∨ HexDigit ch

instance (ch : UInt8) : Decidable (Accepted ch) :=
  inferInstanceAs (Decidable (_ ∨ _))

def isLower (ch : UInt8) : Bool :=
  0x61 ≤ ch && ch ≤ 0x66

def toUpper (ch : UInt8) : UInt8 :=
  if isLower ch then ch - 0x20 else ch

/-- One half of the element is free, the other a letter in lower case. -/
def LowerHalf (high low : UInt8) : Prop :=
  high = 0x3F ∧ isLower low = true ∨ low = 0x3F ∧ isLower high = true

instance (high low : UInt8) : Decidable (LowerHalf high low) :=
  inferInstanceAs (Decidable (_ ∨ _))

def characters : List UInt8 :=
  [0x3F, 0x30, 0x31, 0x32, 0x33, 0x34, 0x35, 0x36, 0x37, 0x38, 0x39, 0x41, 0x42, 0x43, 0x44, 0x45, 0x46,
    0x61, 0x62, 0x63, 0x64, 0x65, 0x66]

theorem Accepted.listed {ch : UInt8} (accepted : Accepted ch) : ch ∈ characters := by
  have listed : ∀ ch, Accepted ch → ch ∈ characters := forall_byte (by decide +kernel)
  exact listed ch accepted

theorem Accepted.upper {ch : UInt8} (accepted : Accepted ch) : UpperElement (toUpper ch) := by
  have each : ∀ ch ∈ characters, UpperElement (toUpper ch) := by decide +kernel
  exact each ch accepted.listed

/-- The pattern with its letters in upper case. -/
def ElementText.upper (pattern : ElementText Accepted) : ElementText UpperElement where
  text := pattern.text.map toUpper
  pairs := by rw [List.length_map]; exact pattern.pairs
  nonempty := mt List.map_eq_nil_iff.mp pattern.nonempty
  digits := by
    intro ch member
    obtain ⟨letter, there, same⟩ := List.mem_map.mp member
    exact same ▸ (pattern.digits letter there).upper

/-- Only the code of such an element depends on the case. -/
theorem encodeElement_upper {high low : UInt8} (first : Accepted high) (second : Accepted low)
    (whole : ¬LowerHalf high low) :
    encodeElement (toUpper high) (toUpper low) = encodeElement high low := by
  have each : ∀ high ∈ characters, ∀ low ∈ characters, ¬LowerHalf high low →
      encodeElement (toUpper high) (toUpper low) = encodeElement high low := by decide +kernel
  exact each high first.listed low second.listed whole

/-- There the two codes differ on a byte. -/
theorem encodeElement_differs {high low : UInt8} (first : Accepted high) (second : Accepted low)
    (half : LowerHalf high low) :
    ∃ byte, accepts byte (encodeElement (toUpper high) (toUpper low)) = true ∧
      accepts byte (encodeElement high low) = false := by
  have each : ∀ high ∈ characters, ∀ low ∈ characters, LowerHalf high low →
      ∃ code < 256, accepts (UInt8.ofNat code) (encodeElement (toUpper high) (toUpper low)) = true ∧
        accepts (UInt8.ofNat code) (encodeElement high low) = false := by decide +kernel
  obtain ⟨code, -, differs⟩ := each high first.listed low second.listed half
  exact ⟨UInt8.ofNat code, differs⟩

variable (pattern : ElementText Accepted)

theorem ElementText.upper_length : pattern.upper.text.length = pattern.text.length :=
  List.length_map _

theorem ElementText.upper_getD {i : Nat} (bound : i < pattern.text.length) :
    pattern.upper.text.getD i 0 = toUpper (pattern.text.getD i 0) := by
  rw [List.getD_eq_getElem _ _ bound, List.getD_eq_getElem _ _ (pattern.upper_length ▸ bound)]
  exact List.getElem_map _

/-- Patterns without such an element are stored alike. -/
theorem ElementText.upper_lpSub
    (whole : ∀ i < pattern.text.length / 2,
      ¬LowerHalf (pattern.text.getD (i * 2) 0) (pattern.text.getD (i * 2 + 1) 0)) :
    lpSub pattern.upper.text (pattern.text.length / 2) =
      lpSub pattern.text (pattern.text.length / 2) := by
  funext i
  rw [lpSub, lpSub]
  by_cases bound : i < pattern.text.length / 2
  · rw [if_pos bound, if_pos bound, pattern.upper_getD (by omega), pattern.upper_getD (by omega)]
    exact encodeElement_upper (pattern.allowed_get (by omega)) (pattern.allowed_get (by omega))
      (whole i bound)
  · rw [if_neg bound, if_neg bound]

/-- A buffer of the size of the pattern that matches it in upper case, and that the
stored codes of an element do not accept. -/
theorem ElementText.exists_matched {i : Nat} (bound : i < pattern.text.length / 2)
    (half : LowerHalf (pattern.text.getD (i * 2) 0) (pattern.text.getD (i * 2 + 1) 0)) :
    ∃ text : Nat → UInt8,
      (searched (lpSub pattern.upper.text (pattern.upper.text.length / 2))
        (pattern.upper.text.length / 2)).OccursAt text 0 ∧
      accepts (text i) (lpSub pattern.text (pattern.text.length / 2) i) = false := by
  obtain ⟨byte, agrees, misses⟩ := encodeElement_differs
    (pattern.allowed_get (show i * 2 < pattern.text.length by omega))
    (pattern.allowed_get (show i * 2 + 1 < pattern.text.length by omega)) half
  have length := pattern.upper_length
  have named : ∀ k : Nat, ∃ byte : UInt8, k < pattern.text.length / 2 →
      accepts byte (lpSub pattern.upper.text (pattern.text.length / 2) k) = true := by
    intro k
    by_cases inside : k < pattern.text.length / 2
    · obtain ⟨byte, accepted⟩ := pattern.upper.searched_legible.inhabited k (length ▸ inside)
      rw [length] at accepted
      exact ⟨byte, fun _ => accepted⟩
    · exact ⟨0, fun further => absurd further inside⟩
  choose text accepted using named
  refine ⟨Function.update text i byte, ?_, ?_⟩
  · rw [length]
    intro k inside
    have inside : k < pattern.text.length / 2 := inside
    rw [Nat.zero_add]
    by_cases here : k = i
    · rw [here, Function.update_self]
      change accepts byte (lpSub pattern.upper.text (pattern.text.length / 2) i) = true
      rw [lpSub, if_pos bound, pattern.upper_getD (by omega), pattern.upper_getD (by omega)]
      exact agrees
    · rw [Function.update_of_ne here]
      exact accepted k inside
  · rw [Function.update_self, lpSub, if_pos bound]
    exact misses

/-- A hit in a buffer of the size of the pattern means that every code accepts its byte. -/
theorem kmp_whole {text : List UInt8} {matcher : Nat → UInt8} (positive : 0 < text.length / 2)
    (small : text.length / 2 < 2147483648)
    (hit : kmp (bufferOf matcher (text.length / 2)) (text.length / 2) text text.length 0 = some 0)
    {i : Nat} (bound : i < text.length / 2) :
    accepts (matcher i) (lpSub text (text.length / 2) i) = true := by
  obtain ⟨next, built, borders⟩ := getnextBin_borders (lpSub text (text.length / 2)) positive
  have room : int32 ((text.length / 2 : Nat) - 0) = (text.length / 2 : Nat) := by
    rw [Int.sub_zero, int32_of_range (by omega) (by omega)]
  obtain ⟨r, scanned, cursor, -, ends⟩ :=
    kmpBin_ends (behind (bufferOf matcher (text.length / 2)) 0) (text.length / 2 : Nat)
      (fun _ => True) positive (borders.mono entails_of_follows) trivial fun _ _ _ => trivial
  rw [kmp_eq built (room.symm ▸ scanned), Option.some.injEq] at hit
  rcases ends with ⟨missed, -, -⟩ | ⟨position, found, -, fits, occurs⟩
  · rw [if_pos (by omega)] at hit
    omega
  · have start : position = 0 := by omega
    have accepted := occurs i bound
    rw [start, Nat.zero_add, behind_bufferOf matcher bound] at accepted
    exact accepted

/-- `kmp` makes no difference between a pattern and the same in upper case, in any buffer from
any start, exactly if no element is half free and half a letter in lower case. -/
theorem kmp_upper_iff (pattern : ElementText Accepted) (counted : pattern.text.length < 4294967296) :
    (∀ (matcher : List UInt8) (start : Int),
      kmp matcher matcher.length pattern.text pattern.text.length start =
        kmp matcher matcher.length pattern.upper.text pattern.upper.text.length start) ↔
      ∀ i < pattern.text.length / 2,
        ¬LowerHalf (pattern.text.getD (i * 2) 0) (pattern.text.getD (i * 2 + 1) 0) := by
  have length := pattern.upper_length
  constructor
  · intro same i bound half
    obtain ⟨text, occurs, missed⟩ := pattern.exists_matched bound half
    have matched : Matches pattern.upper.text (bufferOf text (pattern.text.length / 2)) 0 :=
      .of_occursAt (by omega) occurs
    have answers := (kmp_skips_no_hit_iff pattern.upper (pattern.text.length / 2) (by omega)).mpr
      (.inr ⟨by omega, fun j k below bound near => by omega⟩)
    obtain ⟨r, searched, after, before⟩ := answers _ (bufferOf_length text _) 0 0 (Nat.zero_le _)
      (by decide) (Nat.le_refl _) matched
    have start : r = 0 := by omega
    have hit := (same (bufferOf text (pattern.text.length / 2)) 0).trans searched
    rw [start, bufferOf_length] at hit
    have accepted := kmp_whole pattern.count_pos (by omega) hit bound
    rw [missed] at accepted
    cases accepted
  · intro whole matcher start
    rw [kmp, kmp, length, pattern.upper_lpSub whole]

/-- `4a ??` -/
def wholeByte : ElementText Accepted where
  text := [0x34, 0x61, 0x3F, 0x3F]
  pairs := rfl
  nonempty := List.cons_ne_nil _ _
  digits := by decide +kernel

theorem kmp_upper_whole :
    kmp [0x4A, 0x00] 2 wholeByte.text 4 0 = kmp [0x4A, 0x00] 2 wholeByte.upper.text 4 0 :=
  (kmp_upper_iff wholeByte (by decide)).mpr (by decide) [0x4A, 0x00] 0

/-- `a?` -/
def lowerHalf : ElementText Accepted where
  text := [0x61, 0x3F]
  pairs := rfl
  nonempty := List.cons_ne_nil _ _
  digits := by decide +kernel

/-- `A?` lies over the byte `A5`; `a?` does not. -/
theorem kmp_upper_lost :
    kmp [0xA5] 1 lowerHalf.text 2 0 = some (-1) ∧ kmp [0xA5] 1 lowerHalf.upper.text 2 0 = some 0 := by
  decide

end IDAPlugins.FindHex
