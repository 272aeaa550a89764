import IDAPlugins.FindCode.Matching
import Mathlib.Data.List.TakeWhile

namespace IDAPlugins.FindCode

open Search

/-! # The text searched for before matching

`OnButtonFind` takes a piece of a token that has to occur literally in every
line the token matches, and looks for that piece in the whole snapshot first.
-/

/-- The copy into `pszSearch`: the first run of characters that are not `*`. -/
def copySearch (p : List UInt8) : List UInt8 :=
  if 0x2A ∈ p then (p.dropWhile (· == 0x2A)).takeWhile (· != 0x2A) else p

theorem copySearch_eq (p : List UInt8) :
    copySearch p = (p.dropWhile (· == 0x2A)).takeWhile (· != 0x2A) := by
  unfold copySearch
  split
  · rfl
  · rename_i absent
    have other (ch : UInt8) (member : ch ∈ p) : ch ≠ 0x2A := fun star => absent (star ▸ member)
    have whole : p.dropWhile (· == 0x2A) = p := by
      cases p with
      | nil => rfl
      | cons ch rest =>
        exact List.dropWhile_cons_of_neg (by simpa using other ch (List.mem_cons_self ..))
    rw [whole, List.takeWhile_eq_self_iff.mpr fun ch member => by simpa using other ch member]

variable {szSource szMatcher : List UInt8}

theorem matchingPass_literal {length : Nat}
    (literal : ∀ t < length, charAt szMatcher t ≠ 0 ∧ charAt szMatcher t ≠ 0x2A ∧
      charAt szMatcher t ≠ 0x3F) (fuel start : Nat)
    (matched : Loop.run (matchingPass szSource szMatcher) fuel
      { nMatchOffset := start, nSourOffset := start } = some true) :
    ∀ t, start ≤ t → t < length → charAt szSource t = charAt szMatcher t := by
  induction fuel generalizing start with
  | zero => exact absurd matched (by simp [Loop.run])
  | succ fuel ih =>
    intro t after bound
    obtain ⟨terminated, star, question⟩ := literal start (by omega)
    have passed : matchingPass szSource szMatcher
          { nMatchOffset := start, nSourOffset := start } =
        if charAt szSource start ≠ charAt szMatcher start then some (.leave false)
        else if charAt szMatcher (start + 1) = 0 ∧ charAt szSource (start + 1) ≠ 0 then
          some (.leave false)
        else some (.again { nMatchOffset := start + 1, nSourOffset := start + 1 }) := by
      simp only [matchingPass, if_neg terminated, if_neg star, if_neg question]
    by_cases differs : charAt szSource start ≠ charAt szMatcher start
    · rw [if_pos differs] at passed
      rw [Loop.run_leave passed] at matched
      exact absurd matched (by simp)
    · rw [if_neg differs] at passed
      have same : charAt szSource start = charAt szMatcher start := not_not.mp differs
      split at passed
      · rw [Loop.run_leave passed] at matched
        exact absurd matched (by simp)
      · rw [Loop.run_again passed] at matched
        rcases Nat.eq_or_lt_of_le after with rfl | later
        · exact same
        · exact ih (start + 1) matched t later bound

variable {segment tail : List UInt8}

theorem segmentEnd_segment (ch : UInt8)
    (literal : ∀ ch ∈ segment, ch ≠ 0 ∧ ch ≠ 0x2A ∧ ch ≠ 0x3F)
    (ends : charAt tail 0 = 0 ∨ charAt tail 0 = 0x2A) :
    segmentEnd (ch :: (segment ++ tail)) 1 = 1 + segment.length := by
  obtain ⟨length, reached, inside, stop⟩ := segmentEnd_spec (ch :: (segment ++ tail)) 1
  have place (t : Nat) : charAt (ch :: (segment ++ tail)) (1 + t) = charAt (segment ++ tail) t := by
    rw [Nat.add_comm, charAt_cons_succ]
  simp only [place] at inside stop
  rcases Nat.lt_trichotomy length segment.length with short | same | long
  · rw [charAt_append_left short] at stop
    obtain ⟨terminated, star, -⟩ := literal _ (charAt_mem short)
    exact absurd stop (not_or.mpr ⟨terminated, star⟩)
  · rw [reached, same]
  · have last := inside segment.length long
    rw [← Nat.add_zero segment.length, charAt_append_right] at last
    exact absurd ends (not_or.mpr last)

/-- A token that starts with `*` has its first segment somewhere in the line. -/
theorem matchingPass_segment (nonempty : segment ≠ [])
    (literal : ∀ ch ∈ segment, ch ≠ 0 ∧ ch ≠ 0x2A ∧ ch ≠ 0x3F)
    (ends : charAt tail 0 = 0 ∨ charAt tail 0 = 0x2A) {fuel : Nat}
    (matched : Loop.run (matchingPass szSource (0x2A :: (segment ++ tail))) (fuel + 1)
      { nMatchOffset := 0, nSourOffset := 0 } = some true) :
    ∃ position, segment <+: szSource.drop position := by
  have positive := List.length_pos_iff.mpr nonempty
  have place (t : Nat) (bound : t < segment.length) :
      charAt (0x2A :: (segment ++ tail)) (1 + t) = charAt segment t := by
    rw [Nat.add_comm, charAt_cons_succ, charAt_append_left bound]
  have plain : 0x3F ∉ segment := fun question => (literal _ question).2.2 rfl
  have first : charAt (0x2A :: (segment ++ tail)) (0 + 1) ≠ 0 := by
    rw [Nat.zero_add, ← Nat.add_zero 1, place 0 positive]
    exact (literal _ (charAt_mem positive)).1
  have starred : charAt (0x2A :: (segment ++ tail)) 0 = 0x2A := rfl
  have passed := matchingPass_star szSource starred first (segmentEnd_segment 0x2A literal ends) 0
  by_cases short : szSource.length - 0 < segment.length
  · rw [if_pos short] at passed
    rw [Loop.run_leave passed] at matched
    exact absurd matched (by simp)
  rw [if_neg short] at passed
  by_cases last : charAt (0x2A :: (segment ++ tail)) (0 + 1 + segment.length) = 0
  · obtain ⟨agreed, compared, all⟩ := tailMatches_spec szSource starred segment.length
      (szSource.length - segment.length)
      (fun t bound => by rw [Nat.zero_add, place t bound]; exact (literal _ (charAt_mem bound)).2.1)
    rw [show szSource.length - segment.length + segment.length = szSource.length by omega] at compared
    rw [if_pos last, compared, Option.bind_some] at passed
    rw [Loop.run_leave passed, Option.some.injEq] at matched
    refine ⟨szSource.length - segment.length,
      (prefix_drop_iff nonempty 0).mpr ⟨by omega, fun t bound => ?_⟩⟩
    have same := all.mp matched t bound
    rw [Nat.zero_add, place t bound] at same
    exact (same.resolve_left (literal _ (charAt_mem bound)).2.2).symm
  · have finder : ((0x2A :: (segment ++ tail)).drop (0 + 1)).take segment.length = segment :=
      List.take_left
    obtain ⟨nPos, found, least⟩ := findingString_first (szSource.drop 0) 0 nonempty plain
    rw [Nat.cast_zero] at found
    rw [if_neg last, finder, found, Option.bind_some] at passed
    rcases least with ⟨missed, -⟩ | ⟨position, -, least⟩
    · rw [if_neg (not_not.mpr missed)] at passed
      rw [Loop.run_leave passed] at matched
      exact absurd matched (by simp)
    · exact ⟨position, least.1.2⟩

/-- Text as it stands in a normalised snapshot: no terminator, no line break and
no lower-case letter. -/
def UpperText (text : List UInt8) : Prop :=
  ∀ ch ∈ text, ch ≠ 0 ∧ ch ≠ 0x0A ∧ ¬ (0x61 ≤ ch ∧ ch ≤ 0x7A)

instance (text : List UInt8) : Decidable (UpperText text) :=
  inferInstanceAs (Decidable (∀ ch ∈ text, ch ≠ 0 ∧ ch ≠ 0x0A ∧ ¬ (0x61 ≤ ch ∧ ch ≤ 0x7A)))

theorem toLower_injective {first second : UInt8} (left : ¬ (0x61 ≤ first ∧ first ≤ 0x7A))
    (right : ¬ (0x61 ≤ second ∧ second ≤ 0x7A)) (same : toLower first = toLower second) :
    first = second := by
  simp only [UInt8.le_iff_toNat_le, UInt8.reduceToNat] at left right
  rw [← UInt8.toNat_inj, toNat_toLower, toNat_toLower] at same
  rw [← UInt8.toNat_inj]
  split at same <;> split at same <;> omega

theorem prefix_of_folded {row line : List UInt8} (upperRow : UpperText row)
    (upperLine : UpperText line) (nonempty : row ≠ []) {position : Nat}
    (found : row.map (foldCase false) <+: (line.map (foldCase false)).drop position) :
    row <+: line.drop position := by
  obtain ⟨fits, same⟩ := (prefix_drop_iff (by simpa using nonempty) 0).mp found
  rw [List.length_map, List.length_map] at fits
  refine (prefix_drop_iff nonempty 0).mpr ⟨fits, fun t bound => ?_⟩
  have folded : foldCase false (charAt line (position + t)) = foldCase false (charAt row t) := by
    rw [← charAt_map (foldCase false) bound, ← charAt_map (foldCase false) (by omega)]
    exact same t (by rwa [List.length_map])
  exact toLower_injective (upperLine _ (charAt_mem (by omega))).2.2
    (upperRow _ (charAt_mem bound)).2.2 folded

theorem copySearch_sublist (token : List UInt8) : (copySearch token).Sublist token := by
  rw [copySearch_eq]
  exact (List.takeWhile_sublist _).trans (List.dropWhile_sublist _)

theorem copySearch_literal {token : List UInt8} (upper : UpperText token) (plain : 0x3F ∉ token) :
    ∀ ch ∈ (copySearch token).map (foldCase false), ch ≠ 0 ∧ ch ≠ 0x2A ∧ ch ≠ 0x3F := by
  intro folded member
  obtain ⟨ch, inside, rfl⟩ := List.mem_map.mp member
  have original := (copySearch_sublist token).subset inside
  have star : ch ≠ 0x2A := by
    rw [copySearch_eq] at inside
    simpa using List.mem_takeWhile_imp inside
  have question : ch ≠ 0x3F := fun question => plain (question ▸ original)
  exact ⟨foldCase_ne (upper ch original).1 (.inl (by decide)) false,
    foldCase_ne star (.inl (by decide)) false,
    foldCase_ne question (.inl (by decide)) false⟩

theorem mergeStars_stop (bMatchCase : Bool) (token : List UInt8) :
    charAt (mergeStars bMatchCase false (token.dropWhile (· != 0x2A))) 0 = 0 ∨
      charAt (mergeStars bMatchCase false (token.dropWhile (· != 0x2A))) 0 = 0x2A := by
  cases rest : token.dropWhile (· != 0x2A) with
  | nil => exact .inl rfl
  | cons ch rest' =>
    have star : ch = 0x2A := by
      have head := List.head?_dropWhile_not (· != (0x2A : UInt8)) token
      rw [rest] at head
      simpa using head
    subst star
    exact .inr rfl

/-- A line that a token without `?` matches holds the piece of the token that is searched for.
-/
theorem copySearch_occurs {line token : List UInt8} (upperLine : UpperText line)
    (upperToken : UpperText token) (plain : 0x3F ∉ token) (nonempty : copySearch token ≠ [])
    (matched : matchingString line token false = some true) :
    ∃ position, copySearch token <+: line.drop position := by
  have upperPiece : UpperText (copySearch token) :=
    fun ch member => upperToken ch ((copySearch_sublist token).subset member)
  have literal := copySearch_literal upperToken plain
  have folded : (copySearch token).map (foldCase false) ≠ [] := by simpa using nonempty
  suffices found : ∃ position, (copySearch token).map (foldCase false) <+:
      (line.map (foldCase false)).drop position by
    obtain ⟨position, found⟩ := found
    exact ⟨position, prefix_of_folded upperPiece upperLine nonempty found⟩
  cases token with
  | nil => exact absurd rfl nonempty
  | cons ch rest =>
    have terminated : charAt (ch :: rest) 0 ≠ 0 := (upperToken ch (List.mem_cons_self ..)).1
    rw [matchingString, if_neg terminated] at matched
    by_cases star : ch = 0x2A
    · have piece : copySearch (ch :: rest) = (rest.dropWhile (· == 0x2A)).takeWhile (· != 0x2A) := by
        rw [copySearch_eq, List.dropWhile_cons_of_pos (by simpa using star)]
      have merged : mergeStars false false (ch :: rest) =
          0x2A :: ((copySearch (ch :: rest)).map (foldCase false) ++ mergeStars false false
            ((rest.dropWhile (· == 0x2A)).dropWhile (· != 0x2A))) := by
        rw [mergeStars, if_pos star, if_neg Bool.false_ne_true, mergeStars_skipping,
          mergeStars_literal, piece]
      rw [merged] at matched
      exact matchingPass_segment folded literal (mergeStars_stop false _) matched
    · have piece : copySearch (ch :: rest) = (ch :: rest).takeWhile (· != 0x2A) := by
        rw [copySearch_eq, List.dropWhile_cons_of_neg (by simpa using star)]
      have read (t : Nat) (bound : t < ((copySearch (ch :: rest)).map (foldCase false)).length) :
          charAt (mergeStars false false (ch :: rest)) t =
            charAt ((copySearch (ch :: rest)).map (foldCase false)) t := by
        rw [mergeStars_literal, ← piece, charAt_append_left bound]
      have agreed := matchingPass_literal
        (fun t bound => by rw [read t bound]; exact literal _ (charAt_mem bound)) _ 0 matched
      have same (t : Nat) (bound : t < ((copySearch (ch :: rest)).map (foldCase false)).length) :
          charAt (line.map (foldCase false)) t =
            charAt ((copySearch (ch :: rest)).map (foldCase false)) t :=
        (agreed t (Nat.zero_le t) bound).trans (read t bound)
      have positive := List.length_pos_iff.mpr folded
      have last : ((copySearch (ch :: rest)).map (foldCase false)).length - 1 <
          (line.map (foldCase false)).length := by
        refine lt_of_charAt_ne_zero ?_
        rw [same _ (by omega)]
        exact (literal _ (charAt_mem (by omega))).1
      refine ⟨0, (prefix_drop_iff folded 0).mpr ⟨by omega, fun t bound => ?_⟩⟩
      rw [Nat.zero_add]
      exact same t bound

end IDAPlugins.FindCode
