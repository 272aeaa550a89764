import IDAPlugins.FindCode.Finding

namespace IDAPlugins.FindCode

open Search

/-! # Matching a line with a token

`MatchingString` folds both strings to lower case, merges neighbouring `*` and
walks over the token: a literal or `?` consumes one character, `*` takes the text
between it and the next `*` wherever it is found first, or at the end of the line.
-/

def toLower (ch : UInt8) : UInt8 :=
  if 0x41 ≤ ch ∧ ch ≤ 0x5A then ch - 0x41 + 0x61 else ch

def foldCase (bMatchCase : Bool) (ch : UInt8) : UInt8 :=
  if bMatchCase then ch else toLower ch

/-- `szMatcher`; `skipping` is set behind a `*`. -/
def mergeStars (bMatchCase : Bool) : Bool → List UInt8 → List UInt8
  | _, [] => []
  | skipping, ch :: rest =>
    if ch = 0x2A then
      if skipping then mergeStars bMatchCase true rest
      else 0x2A :: mergeStars bMatchCase true rest
    else
      foldCase bMatchCase ch :: mergeStars bMatchCase false rest

def segmentEnd (szMatcher : List UInt8) (nSubOffset : Nat) : Nat :=
  nSubOffset + ((szMatcher.drop nSubOffset).takeWhile (fun ch => ch != 0 && ch != 0x2A)).length

/-- The comparison from the ends of both strings back to the last `*`; both
offsets are one past the characters compared next. -/
def tailMatches (szMatcher szSource : List UInt8) : Nat → Nat → Option Bool
  | 0, _ => none
  | nSubOffset + 1, nTempSourOffset =>
    if charAt szMatcher nSubOffset = 0x2A then
      some true
    else
      match nTempSourOffset with
      | 0 => none
      | nTempSourOffset + 1 =>
        if charAt szMatcher nSubOffset = 0x3F ∨
            charAt szMatcher nSubOffset = charAt szSource nTempSourOffset then
          tailMatches szMatcher szSource nSubOffset nTempSourOffset
        else
          some false

structure Matching where
  nMatchOffset : Nat
  nSourOffset : Nat

def matchingPass (szSource szMatcher : List UInt8) (state : Matching) :
    Option (Loop.Pass Matching Bool) :=
  let ⟨nMatchOffset, nSourOffset⟩ := state
  if charAt szMatcher nMatchOffset = 0 then
    some (.leave true)
  else if charAt szMatcher nMatchOffset = 0x2A then
    if charAt szMatcher (nMatchOffset + 1) = 0 then
      some (.leave true)
    else
      let nSubOffset := segmentEnd szMatcher (nMatchOffset + 1)
      if szSource.length - nSourOffset < nSubOffset - nMatchOffset - 1 then
        some (.leave false)
      else if charAt szMatcher nSubOffset = 0 then do
        let bIsMatched ← tailMatches szMatcher szSource nSubOffset szSource.length
        some (.leave bIsMatched)
      else do
        let length := nSubOffset - nMatchOffset - 1
        let szTempFinder := (szMatcher.drop (nMatchOffset + 1)).take length
        let nPos ← findingString (szSource.drop nSourOffset) szTempFinder 0
        if nPos ≠ -1 then
          some (.again { nMatchOffset := nMatchOffset + length
                         nSourOffset := nSourOffset + (nPos.toNat + length - 1) })
        else
          some (.leave false)
  else if charAt szMatcher nMatchOffset = 0x3F then
    if charAt szSource nSourOffset = 0 then
      some (.leave false)
    else if charAt szMatcher (nMatchOffset + 1) = 0 ∧ charAt szSource (nSourOffset + 1) ≠ 0 then
      some (.leave false)
    else
      some (.again { nMatchOffset := nMatchOffset + 1, nSourOffset := nSourOffset + 1 })
  else
    if charAt szSource nSourOffset ≠ charAt szMatcher nMatchOffset then
      some (.leave false)
    else if charAt szMatcher (nMatchOffset + 1) = 0 ∧ charAt szSource (nSourOffset + 1) ≠ 0 then
      some (.leave false)
    else
      some (.again { nMatchOffset := nMatchOffset + 1, nSourOffset := nSourOffset + 1 })

def matchingString (lpszSour lpszMatch : List UInt8) (bMatchCase : Bool) : Option Bool :=
  if charAt lpszMatch 0 = 0 then
    some (charAt lpszSour 0 == 0)
  else
    let szSource := lpszSour.map (foldCase bMatchCase)
    let szMatcher := mergeStars bMatchCase false lpszMatch
    Loop.run (matchingPass szSource szMatcher) (szMatcher.length + 1)
      { nMatchOffset := 0, nSourOffset := 0 }

theorem toNat_toLower (ch : UInt8) :
    (toLower ch).toNat = if 65 ≤ ch.toNat ∧ ch.toNat ≤ 90 then ch.toNat + 32 else ch.toNat := by
  have below := ch.toNat_lt
  unfold toLower
  simp only [UInt8.le_iff_toNat_le, UInt8.reduceToNat]
  split
  · rw [UInt8.toNat_add, UInt8.toNat_sub]
    simp only [UInt8.reduceToNat]
    omega
  · rfl

theorem charAt_of_length_le {lpsz : List UInt8} {i : Nat} (beyond : lpsz.length ≤ i) :
    charAt lpsz i = 0 :=
  List.getD_eq_default _ _ beyond

theorem lt_of_charAt_ne_zero {lpsz : List UInt8} {i : Nat} (read : charAt lpsz i ≠ 0) :
    i < lpsz.length := by
  by_contra beyond
  exact read (charAt_of_length_le (Nat.le_of_not_lt beyond))

theorem charAt_mem {lpsz : List UInt8} {i : Nat} (bound : i < lpsz.length) :
    charAt lpsz i ∈ lpsz := by
  rw [charAt, List.getD_eq_getElem _ _ bound]
  exact List.getElem_mem bound

theorem charAt_drop (lpsz : List UInt8) (start i : Nat) :
    charAt (lpsz.drop start) i = charAt lpsz (start + i) := by
  simp only [charAt, List.getD_eq_getElem?_getD, List.getElem?_drop]

theorem charAt_map {lpsz : List UInt8} (f : UInt8 → UInt8) {i : Nat} (bound : i < lpsz.length) :
    charAt (lpsz.map f) i = f (charAt lpsz i) := by
  rw [charAt, charAt, List.getD_eq_getElem _ _ (by rwa [List.length_map]),
    List.getD_eq_getElem _ _ bound, List.getElem_map]

theorem charAt_append_left {first second : List UInt8} {i : Nat} (bound : i < first.length) :
    charAt (first ++ second) i = charAt first i := by
  simp only [charAt, List.getD_eq_getElem?_getD, List.getElem?_append_left bound]

theorem charAt_append_right (first second : List UInt8) (i : Nat) :
    charAt (first ++ second) (first.length + i) = charAt second i := by
  simp [charAt, List.getD_eq_getElem?_getD, List.getElem?_append_right]

theorem charAt_cons_succ (ch : UInt8) (rest : List UInt8) (i : Nat) :
    charAt (ch :: rest) (i + 1) = charAt rest i := rfl

theorem drop_charAt {lpsz : List UInt8} {i : Nat} (bound : i < lpsz.length) :
    lpsz.drop i = charAt lpsz i :: lpsz.drop (i + 1) := by
  rw [List.drop_eq_getElem_cons bound, charAt, List.getD_eq_getElem _ _ bound]

theorem charAt_zero_iff {lpsz : List UInt8} (terminated : 0 ∉ lpsz) {i : Nat} :
    charAt lpsz i = 0 ↔ lpsz.length ≤ i := by
  constructor
  · intro zero
    by_contra bound
    exact terminated (zero ▸ charAt_mem (Nat.lt_of_not_le bound))
  · exact charAt_of_length_le

@[simp] theorem mergeStars_nil (bMatchCase skipping : Bool) :
    mergeStars bMatchCase skipping [] = [] := rfl

theorem mergeStars_skipping (bMatchCase : Bool) (token : List UInt8) :
    mergeStars bMatchCase true token =
      mergeStars bMatchCase false (token.dropWhile (· == 0x2A)) := by
  induction token with
  | nil => rfl
  | cons ch rest ih =>
    by_cases star : ch = 0x2A
    · rw [List.dropWhile_cons_of_pos (by simpa using star), ← ih]
      simp only [mergeStars, star, if_true]
    · rw [List.dropWhile_cons_of_neg (by simpa using star)]
      simp only [mergeStars, star, if_false]

theorem mergeStars_literal (bMatchCase : Bool) (token : List UInt8) :
    mergeStars bMatchCase false token =
      (token.takeWhile (· != 0x2A)).map (foldCase bMatchCase) ++
        mergeStars bMatchCase false (token.dropWhile (· != 0x2A)) := by
  induction token with
  | nil => rfl
  | cons ch rest ih =>
    by_cases star : ch = 0x2A
    · rw [List.takeWhile_cons_of_neg (by simpa using star),
        List.dropWhile_cons_of_neg (by simpa using star)]
      rfl
    · rw [List.takeWhile_cons_of_pos (by simpa using star),
        List.dropWhile_cons_of_pos (by simpa using star), List.map_cons, List.cons_append, ← ih]
      simp only [mergeStars, star, if_false]

theorem foldCase_ne {ch special : UInt8} (other : ch ≠ special)
    (fixed : special.toNat < 97 ∨ 122 < special.toNat) (bMatchCase : Bool) :
    foldCase bMatchCase ch ≠ special := by
  rw [ne_eq, ← UInt8.toNat_inj] at other ⊢
  unfold foldCase
  split
  · exact other
  · rw [toNat_toLower]
    split <;> omega

/-- No two neighbouring `*` are left. -/
theorem mergeStars_separated (bMatchCase : Bool) (token : List UInt8) (skipping : Bool) (i : Nat) :
    (skipping = true → charAt (mergeStars bMatchCase skipping token) 0 ≠ 0x2A) ∧
      (charAt (mergeStars bMatchCase skipping token) i = 0x2A →
        charAt (mergeStars bMatchCase skipping token) (i + 1) ≠ 0x2A) := by
  induction token generalizing skipping i with
  | nil => simp [charAt]
  | cons ch rest ih =>
    by_cases star : ch = 0x2A
    · cases skipping with
      | true => simpa only [mergeStars, star, if_true] using ih true i
      | false =>
        simp only [mergeStars, star, if_true, Bool.false_eq_true, if_false, false_imp_iff, true_and]
        cases i with
        | zero => exact fun _ => (ih true 0).1 rfl
        | succ i => exact (ih true i).2
    · have folded := foldCase_ne star (.inl (by decide)) bMatchCase
      simp only [mergeStars, star, if_false]
      refine ⟨fun _ => folded, ?_⟩
      cases i with
      | zero => exact fun first => absurd first folded
      | succ i => exact (ih false i).2

theorem charAt_takeWhile (keep : UInt8 → Bool) (lpsz : List UInt8) :
    (∀ t < (lpsz.takeWhile keep).length, keep (charAt lpsz t) = true) ∧
      ((lpsz.takeWhile keep).length < lpsz.length →
        keep (charAt lpsz (lpsz.takeWhile keep).length) = false) := by
  induction lpsz with
  | nil => simp
  | cons ch rest ih =>
    by_cases kept : keep ch = true
    · rw [List.takeWhile_cons_of_pos kept]
      refine ⟨fun t bound => ?_, fun more => ih.2 (by simpa using more)⟩
      cases t with
      | zero => exact kept
      | succ t => exact ih.1 t (by simpa using bound)
    · rw [List.takeWhile_cons_of_neg kept]
      exact ⟨fun t bound => absurd bound (Nat.not_lt_zero t), fun _ => Bool.eq_false_iff.mpr kept⟩

/-- A segment has neither the terminator nor a `*`, and one of them ends it. -/
theorem segmentEnd_spec (szMatcher : List UInt8) (start : Nat) :
    ∃ length, segmentEnd szMatcher start = start + length ∧
      (∀ t < length, charAt szMatcher (start + t) ≠ 0 ∧ charAt szMatcher (start + t) ≠ 0x2A) ∧
      (charAt szMatcher (start + length) = 0 ∨ charAt szMatcher (start + length) = 0x2A) := by
  obtain ⟨inside, ended⟩ :=
    charAt_takeWhile (fun ch => ch != 0 && ch != 0x2A) (szMatcher.drop start)
  refine ⟨_, rfl, fun t bound => ?_, ?_⟩
  · simpa only [charAt_drop, Bool.and_eq_true, bne_iff_ne] using inside t bound
  · rw [← charAt_drop]
    by_cases more : ((szMatcher.drop start).takeWhile (fun ch => ch != 0 && ch != 0x2A)).length <
        (szMatcher.drop start).length
    · have stop := ended more
      rwa [Bool.and_eq_false_iff, bne_eq_false_iff_eq, bne_eq_false_iff_eq] at stop
    · exact .inl (charAt_of_length_le (Nat.le_of_not_lt more))

theorem segmentEnd_pos {szMatcher : List UInt8} {start : Nat}
    (terminated : charAt szMatcher start ≠ 0) (star : charAt szMatcher start ≠ 0x2A) :
    start < segmentEnd szMatcher start := by
  obtain ⟨length, ends, -, stop⟩ := segmentEnd_spec szMatcher start
  rcases Nat.eq_zero_or_pos length with rfl | positive
  · exact absurd stop (not_or.mpr ⟨terminated, star⟩)
  · omega

theorem tailMatches_spec {szMatcher : List UInt8} (szSource : List UInt8) {star : Nat}
    (starred : charAt szMatcher star = 0x2A) (length extra : Nat)
    (literal : ∀ t < length, charAt szMatcher (star + 1 + t) ≠ 0x2A) :
    ∃ matched, tailMatches szMatcher szSource (star + 1 + length) (extra + length) = some matched ∧
      (matched = true ↔ ∀ t < length, charAt szMatcher (star + 1 + t) = 0x3F ∨
        charAt szMatcher (star + 1 + t) = charAt szSource (extra + t)) := by
  induction length with
  | zero =>
    exact ⟨true, if_pos starred, fun _ t bound => absurd bound (Nat.not_lt_zero t), fun _ => rfl⟩
  | succ length ih =>
    rw [show star + 1 + (length + 1) = star + 1 + length + 1 by omega,
      show extra + (length + 1) = extra + length + 1 by omega, tailMatches,
      if_neg (literal length (Nat.lt_succ_self _))]
    by_cases agrees : charAt szMatcher (star + 1 + length) = 0x3F ∨
        charAt szMatcher (star + 1 + length) = charAt szSource (extra + length)
    · obtain ⟨matched, compared, all⟩ := ih fun t bound => literal t (by omega)
      refine ⟨matched, by rw [← compared]; exact if_pos agrees, all.trans ⟨fun holds t bound => ?_, fun holds t bound => ?_⟩⟩
      · rcases Nat.lt_succ_iff_lt_or_eq.mp bound with before | rfl
        · exact holds t before
        · exact agrees
      · exact holds t (Nat.lt_succ_of_lt bound)
    · exact ⟨false, if_neg agrees, fun holds => absurd holds Bool.false_ne_true,
        fun holds => absurd (holds length (Nat.lt_succ_self _)) agrees⟩

theorem matchingPass_star (szSource : List UInt8) {szMatcher : List UInt8}
    {nMatchOffset length : Nat}
    (starred : charAt szMatcher nMatchOffset = 0x2A)
    (more : charAt szMatcher (nMatchOffset + 1) ≠ 0)
    (ends : segmentEnd szMatcher (nMatchOffset + 1) = nMatchOffset + 1 + length) (nSourOffset : Nat) :
    matchingPass szSource szMatcher { nMatchOffset, nSourOffset } =
      if szSource.length - nSourOffset < length then
        some (.leave false)
      else if charAt szMatcher (nMatchOffset + 1 + length) = 0 then
        (tailMatches szMatcher szSource (nMatchOffset + 1 + length) szSource.length).bind
          fun bIsMatched => some (.leave bIsMatched)
      else
        (findingString (szSource.drop nSourOffset)
            ((szMatcher.drop (nMatchOffset + 1)).take length) 0).bind
          fun nPos => if nPos ≠ -1 then
            some (.again { nMatchOffset := nMatchOffset + length
                           nSourOffset := nSourOffset + (nPos.toNat + length - 1) })
          else
            some (.leave false) := by
  have terminated : charAt szMatcher nMatchOffset ≠ 0 := by
    rw [starred]
    decide
  simp only [matchingPass, if_neg terminated, if_pos starred, if_neg more, ends,
    show nMatchOffset + 1 + length - nMatchOffset - 1 = length by omega]
  rfl

theorem matchingPass_sound (szSource szMatcher : List UInt8)
    (separated : ∀ i, charAt szMatcher i = 0x2A → charAt szMatcher (i + 1) ≠ 0x2A) :
    Loop.Sound (matchingPass szSource szMatcher) (fun _ => True)
      (fun state => szMatcher.length - state.nMatchOffset) (fun _ => True) := by
  rintro ⟨nMatchOffset, nSourOffset⟩ -
  by_cases finished : charAt szMatcher nMatchOffset = 0
  · exact .inr ⟨true, if_pos finished, trivial⟩
  have inside := lt_of_charAt_ne_zero finished
  have advances (length : Nat) (offset : Nat) (positive : 0 < length) :
      ∃ next : Matching,
        some (Loop.Pass.again (ρ := Bool) (Matching.mk (nMatchOffset + length) offset)) =
          some (.again next) ∧ True ∧
        szMatcher.length - next.nMatchOffset < szMatcher.length - nMatchOffset :=
    ⟨_, rfl, trivial, by simp only; omega⟩
  by_cases starred : charAt szMatcher nMatchOffset = 0x2A
  · by_cases last : charAt szMatcher (nMatchOffset + 1) = 0
    · refine .inr ⟨true, ?_, trivial⟩
      simp only [matchingPass, if_neg finished, if_pos starred, if_pos last]
    have positive := segmentEnd_pos last (separated _ starred)
    obtain ⟨length, ends, literal, -⟩ := segmentEnd_spec szMatcher (nMatchOffset + 1)
    rw [matchingPass_star szSource starred last ends]
    by_cases short : szSource.length - nSourOffset < length
    · exact .inr ⟨false, if_pos short, trivial⟩
    rw [if_neg short]
    by_cases tail : charAt szMatcher (nMatchOffset + 1 + length) = 0
    · obtain ⟨matched, compared, -⟩ := tailMatches_spec szSource starred length
        (szSource.length - length) (fun t bound => (literal t bound).2)
      rw [show szSource.length - length + length = szSource.length by omega] at compared
      exact .inr ⟨matched, by rw [if_pos tail, compared, Option.bind_some], trivial⟩
    · have more := lt_of_charAt_ne_zero last
      have nonempty : (szMatcher.drop (nMatchOffset + 1)).take length ≠ [] := by
        rw [← List.length_pos_iff, List.length_take, List.length_drop]
        omega
      obtain ⟨nPos, found, -⟩ := findingString_ends (szSource.drop nSourOffset) 0 nonempty
      rw [Nat.cast_zero] at found
      rw [if_neg tail, found, Option.bind_some]
      split
      · exact .inl (advances _ _ (by omega))
      · exact .inr ⟨false, rfl, trivial⟩
  · simp only [matchingPass, if_neg finished, if_neg starred]
    split
    · split
      · exact .inr ⟨false, rfl, trivial⟩
      · split
        · exact .inr ⟨false, rfl, trivial⟩
        · exact .inl (advances _ _ Nat.one_pos)
    · split
      · exact .inr ⟨false, rfl, trivial⟩
      · split
        · exact .inr ⟨false, rfl, trivial⟩
        · exact .inl (advances _ _ Nat.one_pos)

/-- Matching always comes to an answer. -/
theorem matchingString_total (lpszSour lpszMatch : List UInt8) (bMatchCase : Bool) :
    ∃ bIsMatched, matchingString lpszSour lpszMatch bMatchCase = some bIsMatched := by
  unfold matchingString
  split
  · exact ⟨_, rfl⟩
  · obtain ⟨bIsMatched, ran, -⟩ := Loop.run_total
      (matchingPass_sound (lpszSour.map (foldCase bMatchCase)) (mergeStars bMatchCase false lpszMatch)
        (fun i => (mergeStars_separated bMatchCase lpszMatch false i).2))
      trivial (Nat.lt_succ_of_le (Nat.sub_le _ _))
    exact ⟨bIsMatched, ran⟩

end IDAPlugins.FindCode
