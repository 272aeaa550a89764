import IDAPlugins.FindCode.Matching
import IDAPlugins.Search.Glob

namespace IDAPlugins.FindCode

open Search Search.Glob

/-! # Tokens as globs

A token is a glob: `*` stands for any text and `?` for any one character. Every pass of
`MatchingString` takes the question from the rest of the line and the rest of the token
to a shorter one.
-/

def symbol (ch : UInt8) : Symbol UInt8 :=
  if ch = 0x2A then .star else if ch = 0x3F then .question else .literal ch

/-- `lpszMatch` as a glob takes all of `lpszSour`. -/
def Globs (bMatchCase : Bool) (lpszSour lpszMatch : List UInt8) : Prop :=
  Matches (fun first second => foldCase bMatchCase first = foldCase bMatchCase second) lpszSour
    (lpszMatch.map symbol)

/-- No `?` stands somewhere between two `*`. -/
def Plain (lpszMatch : List UInt8) : Prop :=
  ¬ List.Sublist [0x2A, 0x3F, 0x2A] lpszMatch

instance (lpszMatch : List UInt8) : Decidable (Plain lpszMatch) :=
  inferInstanceAs (Decidable (¬ _))

variable {szSource szMatcher segment : List UInt8} {ch : UInt8}

theorem symbol_star_iff : symbol ch = .star ↔ ch = 0x2A := by
  unfold symbol
  split
  · exact iff_of_true rfl ‹_›
  · split <;> exact iff_of_false (by simp) ‹_›

theorem takes_symbol (notStar : ch ≠ 0x2A) (a : UInt8) :
    (symbol ch).Takes (· = ·) a ↔ ch = 0x3F ∨ a = ch := by
  rw [symbol, if_neg notStar]
  split
  · exact iff_of_true trivial (.inl ‹_›)
  · exact (or_iff_right ‹_›).symm

theorem noStar_map (noStar : 0x2A ∉ segment) : Symbol.star ∉ segment.map symbol := by
  intro member
  obtain ⟨ch, inside, star⟩ := List.mem_map.mp member
  exact noStar (symbol_star_iff.mp star ▸ inside)

/-- Folding keeps a character before the letters, and makes no other character one. -/
theorem foldCase_eq_iff {special : UInt8} (fixed : special.toNat < 65) (bMatchCase : Bool) :
    foldCase bMatchCase ch = special ↔ ch = special := by
  rw [← UInt8.toNat_inj, ← UInt8.toNat_inj]
  unfold foldCase
  split
  · exact Iff.rfl
  · rw [toNat_toLower]
    split <;> omega

theorem foldCase_star_iff (bMatchCase : Bool) : foldCase bMatchCase ch = 0x2A ↔ ch = 0x2A :=
  foldCase_eq_iff (by decide) bMatchCase

theorem foldCase_question_iff (bMatchCase : Bool) : foldCase bMatchCase ch = 0x3F ↔ ch = 0x3F :=
  foldCase_eq_iff (by decide) bMatchCase

theorem symbol_foldCase (bMatchCase : Bool) (ch : UInt8) :
    symbol (foldCase bMatchCase ch) = (symbol ch).map (foldCase bMatchCase) := by
  simp only [symbol, foldCase_star_iff, foldCase_question_iff]
  split
  · rfl
  · split <;> rfl

/-- Merging neighbouring stars does not change the glob. -/
theorem matches_mergeStars (bMatchCase : Bool) (lpszMatch text : List UInt8) :
    (Matches (· = ·) text ((mergeStars bMatchCase false lpszMatch).map symbol) ↔
        Matches (· = ·) text ((lpszMatch.map (foldCase bMatchCase)).map symbol)) ∧
      (Matches (· = ·) text (.star :: (mergeStars bMatchCase true lpszMatch).map symbol) ↔
        Matches (· = ·) text (.star :: (lpszMatch.map (foldCase bMatchCase)).map symbol)) := by
  induction lpszMatch generalizing text with
  | nil => exact ⟨Iff.rfl, Iff.rfl⟩
  | cons ch rest ih =>
    by_cases star : ch = 0x2A
    · have folded : symbol (foldCase bMatchCase ch) = .star :=
        symbol_star_iff.mpr ((foldCase_star_iff bMatchCase).mpr star)
      rw [mergeStars, mergeStars, if_pos star, if_pos star, if_pos rfl, List.map_cons, List.map_cons,
        folded, matches_star_star]
      exact ⟨(ih text).2, (ih text).2⟩
    · have folded : symbol (foldCase bMatchCase ch) ≠ .star := fun same =>
        star ((foldCase_star_iff bMatchCase).mp (symbol_star_iff.mp same))
      have first (text : List UInt8) :
          Matches (· = ·) text ((foldCase bMatchCase ch :: mergeStars bMatchCase false rest).map symbol) ↔
            Matches (· = ·) text (((ch :: rest).map (foldCase bMatchCase)).map symbol) := by
        rw [List.map_cons, List.map_cons, List.map_cons, matches_take_iff folded, matches_take_iff folded]
        exact exists_congr fun a => exists_congr fun remaining => by rw [(ih remaining).1]
      rw [mergeStars, mergeStars, if_neg star, if_neg star]
      refine ⟨first text, ?_⟩
      rw [matches_star_iff, matches_star_iff]
      exact exists_congr fun k => first (text.drop k)

theorem globs_iff (bMatchCase : Bool) (lpszSour lpszMatch : List UInt8) :
    Globs bMatchCase lpszSour lpszMatch ↔ Matches (· = ·) (lpszSour.map (foldCase bMatchCase))
      ((mergeStars bMatchCase false lpszMatch).map symbol) := by
  have folded : (lpszMatch.map (foldCase bMatchCase)).map symbol =
      (lpszMatch.map symbol).map (Symbol.map (foldCase bMatchCase)) := by
    simp only [List.map_map, Function.comp_def, symbol_foldCase]
  rw [(matches_mergeStars bMatchCase lpszMatch _).1, folded, matches_map_iff]
  exact Iff.rfl

theorem mergeStars_sublist (bMatchCase skipping : Bool) (lpszMatch : List UInt8) :
    List.Sublist (mergeStars bMatchCase skipping lpszMatch) (lpszMatch.map (foldCase bMatchCase)) := by
  induction lpszMatch generalizing skipping with
  | nil => exact List.nil_sublist _
  | cons ch rest ih =>
    rw [mergeStars]
    split
    · split
      · exact (ih true).cons _
      · rename_i star _
        rw [List.map_cons, (foldCase_star_iff bMatchCase).mpr star]
        exact (ih true).cons_cons _
    · exact (ih false).cons_cons _

theorem Plain.mergeStars {lpszMatch : List UInt8} (plain : Plain lpszMatch) (bMatchCase : Bool) :
    Plain (mergeStars bMatchCase false lpszMatch) := by
  intro between
  obtain ⟨marks, inside, folded⟩ :=
    List.sublist_map_iff.mp (between.trans (mergeStars_sublist bMatchCase false lpszMatch))
  obtain ⟨first, rest, rfl, one, folded⟩ := List.map_eq_cons_iff.mp folded.symm
  obtain ⟨second, rest, rfl, two, folded⟩ := List.map_eq_cons_iff.mp folded
  obtain ⟨third, rest, rfl, three, folded⟩ := List.map_eq_cons_iff.mp folded
  obtain rfl := List.map_eq_nil_iff.mp folded
  rw [foldCase_star_iff] at one three
  rw [foldCase_question_iff] at two
  subst one two three
  exact plain inside

def Remains (szSource szMatcher : List UInt8) (state : Matching) : Prop :=
  Matches (· = ·) (szSource.drop state.nSourOffset) ((szMatcher.drop state.nMatchOffset).map symbol)

/-- The end of the token is reached only at the end of the line. -/
structure Within (szSource szMatcher : List UInt8) (state : Matching) : Prop where
  inside : state.nMatchOffset ≤ szMatcher.length
  ended : state.nMatchOffset = szMatcher.length → szSource.length ≤ state.nSourOffset

/-- A match of what remains afterwards is one of what remained before, and an answer
`true` is right. For a plain token nothing is lost either. -/
def Answers (szSource szMatcher : List UInt8) (state : Matching) : Loop.Pass Matching Bool → Prop
  | .again next => Within szSource szMatcher next ∧ state.nMatchOffset < next.nMatchOffset ∧
      (Remains szSource szMatcher next → Remains szSource szMatcher state) ∧
      (Plain szMatcher → Remains szSource szMatcher state → Remains szSource szMatcher next)
  | .leave bIsMatched => (bIsMatched = true → Remains szSource szMatcher state) ∧
      (Plain szMatcher → Remains szSource szMatcher state → bIsMatched = true)

theorem answers_false {state : Matching}
    (lost : Plain szMatcher → ¬ Remains szSource szMatcher state) :
    Answers szSource szMatcher state (.leave false) :=
  ⟨fun answered => absurd answered Bool.false_ne_true, fun plain holds => absurd holds (lost plain)⟩

variable {nMatchOffset nSourOffset place : Nat}

theorem sought_agrees_iff {a code : UInt8} :
    (sought segment).agrees a code = true ↔ code = 0x3F ∨ a = code := by
  simp only [sought, Bool.or_eq_true, beq_iff_eq]

theorem fits_iff_occursAt (noStar : 0x2A ∉ segment) (nonempty : segment ≠ []) :
    Fits (· = ·) (segment.map symbol) (szSource.drop place) ↔
      place + segment.length ≤ szSource.length ∧
        (sought segment).OccursAt (charAt szSource) place := by
  have positive := List.length_pos_iff.mpr nonempty
  have agree (t : Nat) (left : t < segment.length) (right : place + t < szSource.length) :
      (symbol segment[t]).Takes (· = ·) szSource[place + t] ↔
        (sought segment).agrees (charAt szSource (place + t)) ((sought segment).code t) = true := by
    rw [takes_symbol fun star => noStar (star ▸ List.getElem_mem left), sought_agrees_iff]
    simp only [sought, charAt, List.getD_eq_getElem _ _ left, List.getD_eq_getElem _ _ right]
  have width : ((szSource.drop place).take (segment.map symbol).length).length =
      min segment.length (szSource.length - place) := by
    rw [List.length_take, List.length_drop, List.length_map]
  rw [Fits, List.forall₂_iff_get]
  constructor
  · rintro ⟨room, all⟩
    rw [width, List.length_map] at room
    refine ⟨by omega, fun t bound => ?_⟩
    have bound : t < segment.length := bound
    have takes := all t (by rwa [List.length_map]) (by rw [width]; omega)
    simp only [List.get_eq_getElem, List.getElem_map, List.getElem_take, List.getElem_drop] at takes
    exact (agree t bound (by omega)).mp takes
  · rintro ⟨room, occurs⟩
    refine ⟨by rw [width, List.length_map]; omega, fun t left right => ?_⟩
    rw [List.length_map] at left
    simp only [List.get_eq_getElem, List.getElem_map, List.getElem_take, List.getElem_drop]
    exact (agree t left (by omega)).mpr (occurs t left)

theorem matchingPass_single (unfinished : charAt szMatcher nMatchOffset ≠ 0)
    (notStar : charAt szMatcher nMatchOffset ≠ 0x2A) :
    matchingPass szSource szMatcher { nMatchOffset, nSourOffset } =
      if charAt szSource nSourOffset = 0 ∨ ¬ (charAt szMatcher nMatchOffset = 0x3F ∨
          charAt szSource nSourOffset = charAt szMatcher nMatchOffset) then
        some (.leave false)
      else if charAt szMatcher (nMatchOffset + 1) = 0 ∧ charAt szSource (nSourOffset + 1) ≠ 0 then
        some (.leave false)
      else
        some (.again { nMatchOffset := nMatchOffset + 1, nSourOffset := nSourOffset + 1 }) := by
  simp only [matchingPass, if_neg unfinished, if_neg notStar]
  by_cases question : charAt szMatcher nMatchOffset = 0x3F
  · rw [if_pos question]
    simp only [question, true_or, not_true, or_false]
  · rw [if_neg question]
    simp only [question, false_or]
    by_cases same : charAt szSource nSourOffset = charAt szMatcher nMatchOffset
    · have present : ¬ (charAt szSource nSourOffset = 0 ∨
          ¬ charAt szSource nSourOffset = charAt szMatcher nMatchOffset) := by
        rw [not_or, not_not, same]
        exact ⟨unfinished, rfl⟩
      rw [if_neg (not_not_intro same), if_neg present]
    · rw [if_pos same, if_pos (.inr same)]

/-- A symbol that is no star stands for the character at its place. -/
theorem remains_single (szSource : List UInt8) (nSourOffset : Nat)
    (more : nMatchOffset < szMatcher.length) (notStar : charAt szMatcher nMatchOffset ≠ 0x2A) :
    Remains szSource szMatcher { nMatchOffset, nSourOffset } ↔
      nSourOffset < szSource.length ∧ (charAt szMatcher nMatchOffset = 0x3F ∨
        charAt szSource nSourOffset = charAt szMatcher nMatchOffset) ∧
      Remains szSource szMatcher { nMatchOffset := nMatchOffset + 1, nSourOffset := nSourOffset + 1 } := by
  simp only [Remains, drop_charAt more, List.map_cons]
  rw [matches_take_iff fun star => notStar (symbol_star_iff.mp star)]
  by_cases present : nSourOffset < szSource.length
  · simp only [drop_charAt present, List.cons.injEq, takes_symbol notStar]
    constructor
    · rintro ⟨a, remaining, ⟨rfl, rfl⟩, takes, holds⟩
      exact ⟨present, takes, holds⟩
    · rintro ⟨-, takes, holds⟩
      exact ⟨_, _, ⟨rfl, rfl⟩, takes, holds⟩
  · rw [List.drop_eq_nil_of_le (Nat.le_of_not_lt present)]
    constructor
    · rintro ⟨a, remaining, shape, -⟩
      cases shape
    · exact fun holds => absurd holds.1 present

theorem matchingPass_single_answers (sourTerminated : 0 ∉ szSource) (matchTerminated : 0 ∉ szMatcher)
    (more : nMatchOffset < szMatcher.length) (notStar : charAt szMatcher nMatchOffset ≠ 0x2A) :
    ∃ pass, matchingPass szSource szMatcher { nMatchOffset, nSourOffset } = some pass ∧
      Answers szSource szMatcher { nMatchOffset, nSourOffset } pass := by
  have unfinished : charAt szMatcher nMatchOffset ≠ 0 := by
    rw [ne_eq, charAt_zero_iff matchTerminated]
    omega
  have remains := remains_single szSource nSourOffset more notStar
  rw [matchingPass_single unfinished notStar]
  split
  · rename_i stops
    refine ⟨_, rfl, answers_false fun _ holds => ?_⟩
    obtain ⟨present, takes, -⟩ := remains.mp holds
    rcases stops with zero | differs
    · exact absurd ((charAt_zero_iff sourTerminated).mp zero) (Nat.not_le_of_lt present)
    · exact absurd takes differs
  rename_i consumes
  rw [not_or, not_not, charAt_zero_iff sourTerminated] at consumes
  split
  · rename_i longer
    rw [charAt_zero_iff matchTerminated, ne_eq, charAt_zero_iff sourTerminated] at longer
    refine ⟨_, rfl, answers_false fun _ holds => ?_⟩
    obtain ⟨-, -, left⟩ := remains.mp holds
    rw [Remains, List.drop_eq_nil_of_le longer.1, List.map_nil, matches_nil_iff,
      List.drop_eq_nil_iff] at left
    exact absurd left longer.2
  · rename_i fits
    rw [charAt_zero_iff matchTerminated, ne_eq, charAt_zero_iff sourTerminated] at fits
    refine ⟨_, rfl, ⟨more, fun ended => ?_⟩, Nat.lt_succ_self _, fun holds => ?_,
      fun _ holds => (remains.mp holds).2.2⟩
    · by_contra longer
      exact fits ⟨Nat.le_of_eq ended.symm, longer⟩
    · exact remains.mpr ⟨Nat.lt_of_not_le consumes.1, consumes.2, holds⟩

/-- The segment behind a star, with what `segmentEnd` finds at its end. -/
theorem star_split (starred : charAt szMatcher nMatchOffset = 0x2A)
    (more : charAt szMatcher (nMatchOffset + 1) ≠ 0)
    (separated : charAt szMatcher (nMatchOffset + 1) ≠ 0x2A) :
    ∃ segment tail, segment ≠ [] ∧ 0x2A ∉ segment ∧
      szMatcher.drop nMatchOffset = 0x2A :: (segment ++ tail) ∧
      szMatcher.drop (nMatchOffset + 1 + segment.length) = tail ∧
      segmentEnd szMatcher (nMatchOffset + 1) = nMatchOffset + 1 + segment.length ∧
      (charAt szMatcher (nMatchOffset + 1 + segment.length) = 0 ∨
        charAt szMatcher (nMatchOffset + 1 + segment.length) = 0x2A) := by
  have inside : nMatchOffset < szMatcher.length := by
    refine lt_of_charAt_ne_zero ?_
    rw [starred]
    decide
  obtain ⟨length, ends, literal, stop⟩ := segmentEnd_spec szMatcher (nMatchOffset + 1)
  have positive := segmentEnd_pos more separated
  have size : ((szMatcher.drop (nMatchOffset + 1)).take length).length = length := by
    rw [List.length_take, List.length_drop]
    have last := lt_of_charAt_ne_zero (literal (length - 1) (by omega)).1
    omega
  refine ⟨(szMatcher.drop (nMatchOffset + 1)).take length, szMatcher.drop (nMatchOffset + 1 + length),
    ?_, ?_, ?_, ?_, ?_, ?_⟩
  · rw [← List.length_pos_iff, size]
    omega
  · intro member
    obtain ⟨t, bound, same⟩ := List.getElem_of_mem member
    rw [size] at bound
    refine (literal t bound).2 ?_
    rw [← charAt_drop, ← same, List.getElem_take, charAt, List.getD_eq_getElem]
  · rw [drop_charAt inside, starred, ← List.drop_drop (i := length), List.take_append_drop]
  · rw [size]
  · rw [size, ends]
  · rwa [size]

theorem Plain.noQuestion {tail : List UInt8} (plain : Plain szMatcher)
    (split : szMatcher.drop nMatchOffset = 0x2A :: (segment ++ 0x2A :: tail)) : 0x3F ∉ segment := by
  intro question
  have inside : List.Sublist ([0x3F] ++ 0x2A :: []) (segment ++ 0x2A :: tail) :=
    (List.singleton_sublist.mpr question).append ((List.nil_sublist tail).cons_cons 0x2A)
  refine plain (List.Sublist.trans ?_ (List.drop_sublist nMatchOffset szMatcher))
  rw [split]
  exact inside.cons_cons 0x2A

/-- The comparison from the end decides the last segment. -/
theorem tailMatches_answers (starred : charAt szMatcher nMatchOffset = 0x2A)
    (nonempty : segment ≠ []) (noStar : 0x2A ∉ segment)
    (split : szMatcher.drop nMatchOffset = 0x2A :: segment)
    (room : ¬ szSource.length - nSourOffset < segment.length) :
    ∃ bIsMatched, tailMatches szMatcher szSource (nMatchOffset + 1 + segment.length) szSource.length =
        some bIsMatched ∧
      (bIsMatched = true ↔ Remains szSource szMatcher { nMatchOffset, nSourOffset }) := by
  have place (t : Nat) : charAt szMatcher (nMatchOffset + 1 + t) = charAt segment t := by
    rw [Nat.add_assoc, ← charAt_drop, split, Nat.add_comm, charAt_cons_succ]
  obtain ⟨matched, compared, all⟩ := tailMatches_spec szSource starred segment.length
    (szSource.length - segment.length) fun t bound star => noStar <| by
      rw [place] at star
      exact star ▸ charAt_mem bound
  rw [show szSource.length - segment.length + segment.length = szSource.length by omega] at compared
  refine ⟨matched, compared, all.trans ?_⟩
  have positive := List.length_pos_iff.mpr nonempty
  have offset : nSourOffset + (szSource.length - nSourOffset - segment.length) =
      szSource.length - segment.length := by omega
  simp only [Remains, split, List.map_cons, symbol_star_iff.mpr rfl]
  rw [matches_star_end (noStar_map noStar), List.length_map, List.length_drop, List.drop_drop, offset,
    fits_iff_occursAt noStar nonempty]
  constructor
  · intro agree
    refine ⟨by omega, by omega, fun t bound => sought_agrees_iff.mpr ?_⟩
    have same := agree t bound
    rw [place] at same
    exact same.imp_right Eq.symm
  · rintro ⟨-, -, occurs⟩ t bound
    rw [place]
    exact (sought_agrees_iff.mp (occurs t bound)).imp_right Eq.symm

/-- At the last character of an inner segment that is laid where it occurs, what is to
come is what stands behind it. -/
theorem remains_last {tail : List UInt8} {position : Nat} (nonempty : segment ≠ [])
    (noStar : 0x2A ∉ segment)
    (split : szMatcher.drop nMatchOffset = 0x2A :: (segment ++ tail))
    (room : nSourOffset + (position + segment.length) ≤ szSource.length)
    (occurs : (sought segment).OccursAt (charAt (szSource.drop nSourOffset)) position) :
    Remains szSource szMatcher
        { nMatchOffset := nMatchOffset + segment.length
          nSourOffset := nSourOffset + (position + segment.length - 1) } ↔
      Matches (· = ·) (szSource.drop (nSourOffset + (position + segment.length))) (tail.map symbol) := by
  obtain ⟨k, size⟩ := Nat.exists_eq_succ_of_ne_zero (mt List.length_eq_zero_iff.mp nonempty)
  have last : k < segment.length := by omega
  have pattern : szMatcher.drop (nMatchOffset + segment.length) = charAt segment k :: tail := by
    rw [← List.drop_drop, split, size, Nat.succ_eq_add_one, List.drop_succ_cons,
      List.drop_append_of_le_length (Nat.le_of_lt last), drop_charAt last,
      List.drop_eq_nil_of_le (Nat.le_of_eq size)]
    rfl
  have text : szSource.drop (nSourOffset + (position + segment.length - 1)) =
      charAt szSource (nSourOffset + (position + k)) ::
        szSource.drop (nSourOffset + (position + segment.length)) := by
    rw [show nSourOffset + (position + segment.length - 1) = nSourOffset + (position + k) by omega,
      drop_charAt (by omega), size]
    rfl
  have agrees := occurs k last
  rw [charAt_drop] at agrees
  have takes : (symbol (charAt segment k)).Takes (· = ·) (charAt szSource (nSourOffset + (position + k))) :=
    (takes_symbol (fun star => noStar (star ▸ charAt_mem last)) _).mpr (sought_agrees_iff.mp agrees)
  simp only [Remains, pattern, text, List.map_cons]
  exact matches_cons_iff takes

/-- A segment between two stars: where it is found there is something to continue with. -/
theorem findingString_answers {tail : List UInt8} (nonempty : segment ≠ []) (noStar : 0x2A ∉ segment)
    (split : szMatcher.drop nMatchOffset = 0x2A :: (segment ++ 0x2A :: tail))
    (room : ¬ szSource.length - nSourOffset < segment.length) :
    ∃ nPos, findingString (szSource.drop nSourOffset) segment 0 = some nPos ∧
      (nPos = -1 ∧ (Plain szMatcher → ¬ Remains szSource szMatcher { nMatchOffset, nSourOffset }) ∨
        ∃ position : Nat, nPos = position ∧
          nSourOffset + (position + segment.length) ≤ szSource.length ∧
          (sought segment).OccursAt (charAt (szSource.drop nSourOffset)) position ∧
          (Plain szMatcher → Remains szSource szMatcher { nMatchOffset, nSourOffset } →
            Matches (· = ·) (szSource.drop (nSourOffset + (position + segment.length)))
              ((0x2A :: tail).map symbol))) := by
  have positive := List.length_pos_iff.mpr nonempty
  have remains : Remains szSource szMatcher { nMatchOffset, nSourOffset } ↔
      Matches (· = ·) (szSource.drop nSourOffset)
        (.star :: (segment.map symbol ++ .star :: tail.map symbol)) := by
    simp only [Remains, split, List.map_cons, List.map_append, symbol_star_iff.mpr rfl]
  have fits (plain : 0x3F ∉ segment) (k : Nat) : segment <+: (szSource.drop nSourOffset).drop k ↔
      Fits (· = ·) (segment.map symbol) ((szSource.drop nSourOffset).drop k) := by
    rw [fits_iff_occursAt noStar nonempty, sought_occursAt_iff plain nonempty]
  obtain ⟨nPos, found, ends⟩ := findingString_ends (szSource.drop nSourOffset) 0 nonempty
  have first (plain : Plain szMatcher) := findingString_first (szSource.drop nSourOffset) 0 nonempty
    (plain.noQuestion split)
  rw [Nat.cast_zero] at found first
  simp only [found, Option.some.injEq] at first
  refine ⟨nPos, found, ?_⟩
  rcases ends with missed | ⟨position, place, -, within, occurs⟩
  · refine .inl ⟨missed, fun plain holds => ?_⟩
    obtain ⟨r, rfl, ⟨-, nowhere⟩ | ⟨position, place, -⟩⟩ := first plain
    · refine not_matches_of_nowhere (noStar_map noStar) (fun k inside => ?_) (remains.mp holds)
      exact nowhere k (Nat.zero_le k) ((fits (plain.noQuestion split) k).mpr inside)
    · omega
  · rw [List.length_drop] at within
    refine .inr ⟨position, place, by omega, occurs, fun plain holds => ?_⟩
    obtain ⟨r, rfl, ⟨missed, -⟩ | ⟨other, same, least⟩⟩ := first plain
    · omega
    · obtain rfl : position = other := by omega
      have least : IsLeast {k | Fits (· = ·) (segment.map symbol) ((szSource.drop nSourOffset).drop k)}
          position := by
        simpa only [Nat.zero_le, true_and, fits (plain.noQuestion split)] using least
      have left := (matches_star_first (noStar_map noStar) least).mp (remains.mp holds)
      rw [List.length_map, List.drop_drop] at left
      rwa [List.map_cons, symbol_star_iff.mpr rfl]

/-- The search for an inner segment continues at its last character, so that the next
pass takes that one alone. -/
theorem matchingPass_inner_answers {tail : List UInt8} (nonempty : segment ≠ [])
    (noStar : 0x2A ∉ segment) (split : szMatcher.drop nMatchOffset = 0x2A :: (segment ++ 0x2A :: tail))
    (room : ¬ szSource.length - nSourOffset < segment.length) :
    ∃ pass, (do
        let nPos ← findingString (szSource.drop nSourOffset)
          ((szMatcher.drop (nMatchOffset + 1)).take segment.length) 0
        if nPos ≠ -1 then
          some (.again { nMatchOffset := nMatchOffset + segment.length
                         nSourOffset := nSourOffset + (nPos.toNat + segment.length - 1) })
        else
          some (.leave false)) = some pass ∧
      Answers szSource szMatcher { nMatchOffset, nSourOffset } pass := by
  have positive := List.length_pos_iff.mpr nonempty
  have length := congrArg List.length split
  rw [List.length_drop, List.length_cons, List.length_append, List.length_cons] at length
  have finder : (szMatcher.drop (nMatchOffset + 1)).take segment.length = segment := by
    rw [← List.drop_drop, split, List.drop_succ_cons, List.drop_zero, List.take_left]
  obtain ⟨nPos, found, ⟨rfl, nowhere⟩ | ⟨position, rfl, within, occurs, leftmost⟩⟩ :=
    findingString_answers nonempty noStar split room
  · rw [finder, found]
    exact ⟨.leave false, rfl, answers_false nowhere⟩
  · rw [finder, found]
    have next := remains_last nonempty noStar split within occurs
    refine ⟨_, rfl, ⟨?_, ?_⟩, ?_, fun holds => ?_, fun plain holds => next.mpr (leftmost plain holds)⟩
    · simp only
      omega
    · simp only
      omega
    · simp only
      omega
    · have fits : Fits (· = ·) (segment.map symbol) ((szSource.drop nSourOffset).drop position) :=
        (fits_iff_occursAt noStar nonempty).mpr ⟨by rw [List.length_drop]; omega, occurs⟩
      simp only [Remains, split, List.map_cons, List.map_append, symbol_star_iff.mpr rfl]
      refine matches_star_segment (noStar_map noStar) fits ?_
      rw [List.length_map, List.drop_drop, ← symbol_star_iff.mpr rfl, ← List.map_cons]
      exact next.mp holds

theorem matchingPass_star_answers (matchTerminated : 0 ∉ szMatcher)
    (starred : charAt szMatcher nMatchOffset = 0x2A)
    (separated : charAt szMatcher (nMatchOffset + 1) ≠ 0x2A) :
    ∃ pass, matchingPass szSource szMatcher { nMatchOffset, nSourOffset } = some pass ∧
      Answers szSource szMatcher { nMatchOffset, nSourOffset } pass := by
  have unfinished : charAt szMatcher nMatchOffset ≠ 0 := by
    rw [starred]
    decide
  by_cases last : charAt szMatcher (nMatchOffset + 1) = 0
  · refine ⟨.leave true, ?_, fun _ => ?_, fun _ _ => rfl⟩
    · simp only [matchingPass, if_neg unfinished, if_pos starred, if_pos last]
    · simp only [Remains, drop_charAt (lt_of_charAt_ne_zero unfinished), starred,
        List.drop_eq_nil_of_le ((charAt_zero_iff matchTerminated).mp last)]
      exact matches_star _
  obtain ⟨segment, tail, nonempty, noStar, split, behind, ends, stop⟩ := star_split starred last separated
  have positive := List.length_pos_iff.mpr nonempty
  rw [matchingPass_star szSource starred last ends]
  split
  · rename_i short
    refine ⟨_, rfl, answers_false fun _ holds => ?_⟩
    simp only [Remains, split, List.map_cons, List.map_append, symbol_star_iff.mpr rfl] at holds
    have room := segment_room (noStar_map noStar) holds
    rw [List.length_map, List.length_drop] at room
    exact absurd short (Nat.not_lt_of_le room)
  rename_i room
  split
  · rename_i finished
    rw [List.drop_eq_nil_of_le ((charAt_zero_iff matchTerminated).mp finished)] at behind
    rw [← behind, List.append_nil] at split
    obtain ⟨bIsMatched, compared, right⟩ := tailMatches_answers starred nonempty noStar split room
    rw [compared]
    exact ⟨.leave bIsMatched, rfl, right.mp, fun _ => right.mpr⟩
  rename_i unended
  rw [drop_charAt (lt_of_charAt_ne_zero unended), stop.resolve_left unended] at behind
  subst behind
  exact matchingPass_inner_answers nonempty noStar split room

/-- Every pass answers, or asks a shorter question with the same answer. -/
theorem matchingPass_answers (sourTerminated : 0 ∉ szSource) (matchTerminated : 0 ∉ szMatcher)
    (separated : ∀ i, charAt szMatcher i = 0x2A → charAt szMatcher (i + 1) ≠ 0x2A)
    (state : Matching) (within : Within szSource szMatcher state) :
    ∃ pass, matchingPass szSource szMatcher state = some pass ∧ Answers szSource szMatcher state pass := by
  obtain ⟨nMatchOffset, nSourOffset⟩ := state
  by_cases finished : charAt szMatcher nMatchOffset = 0
  · refine ⟨.leave true, if_pos finished, fun _ => ?_, fun _ _ => rfl⟩
    have ended : nMatchOffset = szMatcher.length :=
      Nat.le_antisymm within.inside ((charAt_zero_iff matchTerminated).mp finished)
    simp only [Remains, ended, List.drop_length, List.map_nil, List.drop_eq_nil_of_le (within.ended ended)]
    exact .nil
  · by_cases starred : charAt szMatcher nMatchOffset = 0x2A
    · exact matchingPass_star_answers matchTerminated starred (separated _ starred)
    · exact matchingPass_single_answers sourTerminated matchTerminated
        (lt_of_charAt_ne_zero finished) starred

theorem matching_run_answers (sourTerminated : 0 ∉ szSource) (matchTerminated : 0 ∉ szMatcher)
    (nonempty : szMatcher ≠ [])
    (separated : ∀ i, charAt szMatcher i = 0x2A → charAt szMatcher (i + 1) ≠ 0x2A) :
    ∃ bIsMatched, Loop.run (matchingPass szSource szMatcher) (szMatcher.length + 1)
        { nMatchOffset := 0, nSourOffset := 0 } = some bIsMatched ∧
      (bIsMatched = true → Matches (· = ·) szSource (szMatcher.map symbol)) ∧
      (Plain szMatcher → Matches (· = ·) szSource (szMatcher.map symbol) → bIsMatched = true) := by
  have sound : Loop.Sound (matchingPass szSource szMatcher)
      (fun state => Within szSource szMatcher state ∧
        (Remains szSource szMatcher state → Matches (· = ·) szSource (szMatcher.map symbol)) ∧
        (Plain szMatcher → Matches (· = ·) szSource (szMatcher.map symbol) →
          Remains szSource szMatcher state))
      (fun state => szMatcher.length - state.nMatchOffset)
      (fun bIsMatched => (bIsMatched = true → Matches (· = ·) szSource (szMatcher.map symbol)) ∧
        (Plain szMatcher → Matches (· = ·) szSource (szMatcher.map symbol) → bIsMatched = true)) := by
    rintro state ⟨within, right, complete⟩
    obtain ⟨pass, passed, answers⟩ :=
      matchingPass_answers sourTerminated matchTerminated separated state within
    cases pass with
    | again next =>
      obtain ⟨kept, further, back, forth⟩ := answers
      refine .inl ⟨next, passed, ⟨kept, fun holds => right (back holds),
        fun plain holds => forth plain (complete plain holds)⟩, ?_⟩
      exact Nat.sub_lt_sub_left (Nat.lt_of_lt_of_le further kept.inside) further
    | leave bIsMatched =>
      exact .inr ⟨bIsMatched, passed, fun matched => right (answers.1 matched),
        fun plain holds => answers.2 plain (complete plain holds)⟩
  refine Loop.run_total sound ⟨⟨Nat.zero_le _, fun empty => ?_⟩, id, fun _ => id⟩ (Nat.lt_succ_self _)
  exact absurd (List.length_eq_zero_iff.mp empty.symm) nonempty

theorem mergeStars_ne_nil (bMatchCase : Bool) {lpszMatch : List UInt8} (nonempty : lpszMatch ≠ []) :
    mergeStars bMatchCase false lpszMatch ≠ [] := by
  obtain ⟨ch, rest, rfl⟩ := List.exists_cons_of_ne_nil nonempty
  rw [mergeStars]
  split
  · simp
  · simp

/-- What `MatchingString` answers is right; for a plain token it finds every match. -/
theorem matchingString_answers (bMatchCase : Bool) {lpszSour lpszMatch : List UInt8}
    (sourTerminated : 0 ∉ lpszSour) (matchTerminated : 0 ∉ lpszMatch) :
    ∃ bIsMatched, matchingString lpszSour lpszMatch bMatchCase = some bIsMatched ∧
      (bIsMatched = true → Globs bMatchCase lpszSour lpszMatch) ∧
      (Plain lpszMatch → Globs bMatchCase lpszSour lpszMatch → bIsMatched = true) := by
  have folded {text : List UInt8} (terminated : 0 ∉ text) : 0 ∉ text.map (foldCase bMatchCase) := by
    intro member
    obtain ⟨ch, inside, zero⟩ := List.mem_map.mp member
    exact terminated ((foldCase_eq_iff (by decide) bMatchCase).mp zero ▸ inside)
  rw [matchingString]
  by_cases empty : lpszMatch = []
  · subst empty
    have both : Globs bMatchCase lpszSour [] ↔ (charAt lpszSour 0 == 0) = true := by
      rw [Globs, List.map_nil, matches_nil_iff, beq_iff_eq, charAt_zero_iff sourTerminated,
        Nat.le_zero, List.length_eq_zero_iff]
    exact ⟨_, if_pos rfl, both.mpr, fun _ => both.mp⟩
  · obtain ⟨ch, rest, rfl⟩ := List.exists_cons_of_ne_nil empty
    have begins : charAt (ch :: rest) 0 ≠ 0 := by
      rw [ne_eq, charAt_zero_iff matchTerminated]
      simp
    rw [if_neg begins]
    have mergedTerminated : 0 ∉ mergeStars bMatchCase false (ch :: rest) := fun member =>
      folded matchTerminated ((mergeStars_sublist bMatchCase false _).subset member)
    obtain ⟨bIsMatched, ran, right, complete⟩ := matching_run_answers (folded sourTerminated)
      mergedTerminated (mergeStars_ne_nil bMatchCase empty)
      fun i => (mergeStars_separated bMatchCase (ch :: rest) false i).2
    rw [← globs_iff] at right complete
    exact ⟨bIsMatched, ran, right, fun plain => complete (plain.mergeStars bMatchCase)⟩

/-- A token that is found to match is a glob for the line. -/
theorem matchingString_sound (lpszSour lpszMatch : List UInt8) (sourTerminated : 0 ∉ lpszSour)
    (matchTerminated : 0 ∉ lpszMatch) :
    ∃ bIsMatched, matchingString lpszSour lpszMatch false = some bIsMatched ∧
      (bIsMatched = true → Globs false lpszSour lpszMatch) := by
  obtain ⟨bIsMatched, ran, right, -⟩ := matchingString_answers false sourTerminated matchTerminated
  exact ⟨bIsMatched, ran, right⟩

theorem matchingString_sound_mov :
    Globs false [0x6D, 0x6F, 0x76, 0x20, 0x72, 0x30] [0x2A, 0x4F, 0x3F, 0x2A, 0x30] := by
  obtain ⟨bIsMatched, ran, right⟩ := matchingString_sound [0x6D, 0x6F, 0x76, 0x20, 0x72, 0x30]
    [0x2A, 0x4F, 0x3F, 0x2A, 0x30] (by decide) (by decide)
  have matched : matchingString [0x6D, 0x6F, 0x76, 0x20, 0x72, 0x30] [0x2A, 0x4F, 0x3F, 0x2A, 0x30]
      false = some true := by decide
  rw [matched, Option.some.injEq] at ran
  exact right ran.symm

/-- A token without a `?` between two `*` matches exactly the lines that it is a glob for. -/
theorem matchingString_iff_globs (lpszSour lpszMatch : List UInt8) (sourTerminated : 0 ∉ lpszSour)
    (matchTerminated : 0 ∉ lpszMatch) (plain : Plain lpszMatch) :
    matchingString lpszSour lpszMatch false = some true ↔ Globs false lpszSour lpszMatch := by
  obtain ⟨bIsMatched, ran, right, complete⟩ :=
    matchingString_answers false sourTerminated matchTerminated
  rw [ran, Option.some.injEq]
  exact ⟨right, complete plain⟩

theorem matchingString_iff_globs_ldr :
    matchingString [0x6C, 0x64, 0x72] [0x3F, 0x2A, 0x44, 0x2A, 0x3F] false = some true ↔
      Globs false [0x6C, 0x64, 0x72] [0x3F, 0x2A, 0x44, 0x2A, 0x3F] :=
  matchingString_iff_globs [0x6C, 0x64, 0x72] [0x3F, 0x2A, 0x44, 0x2A, 0x3F] (by decide) (by decide)
    (by decide)

end IDAPlugins.FindCode
