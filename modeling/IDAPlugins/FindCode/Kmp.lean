import IDAPlugins.FindCode.Finding

namespace IDAPlugins.FindCode.Kmp

open Search

/-! # The exact search

`KMP` searches a C string for another one. It counts the place of the pattern along with
the two positions, as an `unsigned int`.
-/

/-- A C string without its terminator. Its positions are numbers of type `int`. -/
structure CString where
  chars : List UInt8
  terminated : 0 ∉ chars
  small : chars.length < 2147483648

structure Kmping where
  index : Int
  i : Nat
  j : Nat

def getNextval (T : CString) : Option (Nat → Int) :=
  failureTable (fun j k => charAt T.chars j == charAt T.chars k)
    (fun j k => charAt T.chars j == charAt T.chars k) (T.chars.length + 1)

/-- A pass of the loop, and what is returned behind it. -/
def kmpPass (Text Pattern : CString) (startIndex : Nat) (next : Nat → Int) (state : Kmping) :
    Option (Loop.Pass Kmping Int) :=
  if charAt Text.chars state.i ≠ 0 ∧ charAt Pattern.chars state.j ≠ 0 then
    if charAt Text.chars state.i == charAt Pattern.chars state.j then
      some (.again { state with i := state.i + 1, j := state.j + 1 })
    else
      let index := (state.index + (state.j - next state.j)) % 4294967296
      if next state.j ≠ -1 then
        some (.again { state with index, j := (next state.j).toNat })
      else
        some (.again { index, i := state.i + 1, j := 0 })
  else if charAt Pattern.chars state.j = 0 then
    some (.leave ((state.index + startIndex) % 4294967296))
  else
    some (.leave 4294967295)

def kmp (Text Pattern : CString) (startIndex : Nat) : Option Int :=
  if Pattern.chars = [] ∨ Text.chars = [] then
    some 4294967295
  else do
    let next ← getNextval Pattern
    Loop.run (kmpPass Text Pattern startIndex next) (2 * Text.chars.length + 2)
      { index := startIndex % 4294967296, i := 0, j := 0 }

variable {text word : CString} {next : Nat → Int} {startIndex : Nat}

/-- The first characters of a string as a pattern without a wildcard. -/
def exactly (T : CString) (length : Nat) : Pattern UInt8 (Option UInt8) where
  length
  code t := some (charAt T.chars t)
  wild := none
  agrees ch code := code.all (ch == ·)

theorem exactly_agrees (T : CString) (length t : Nat) (ch : UInt8) :
    (exactly T length).agrees ch ((exactly T length).code t) = true ↔ ch = charAt T.chars t := by
  simp [exactly]

theorem exactly_legible (T : CString) (length : Nat) : (exactly T length).Legible where
  wildAgrees _ := rfl
  inhabited t _ := ⟨_, (exactly_agrees T length t _).mpr rfl⟩
  onlyWild t _ all := by
    have zero := (exactly_agrees T length t 0).mp (all 0)
    have one := (exactly_agrees T length t 1).mp (all 1)
    exact absurd (zero.trans one.symm) (by decide)

theorem exactly_follows_iff (T : CString) (length i j : Nat) :
    (charAt T.chars i == charAt T.chars j) = true ↔ (exactly T length).Follows i j := by
  simp [Pattern.Follows, exactly]

/-- The table is right for a word: it falls to borders, and to the longest that can help. -/
theorem getNextval_table (word : CString) :
    ∃ next, getNextval word = some next ∧
      Borders (exactly word word.chars.length).Entails word.chars.length next ∧
      ∀ room, (exactly word word.chars.length).Covers room next := by
  have legible := exactly_legible word (word.chars.length + 1)
  have compares := exactly_follows_iff word (word.chars.length + 1)
  obtain ⟨next, built, borders⟩ := failureTable_borders
    (fun j k => charAt word.chars j == charAt word.chars k)
    (fun j k => charAt word.chars j == charAt word.chars k) Pattern.Follows.trans
    (fun i j => (compares i j).mp) (Nat.succ_pos word.chars.length)
  refine ⟨next, built, fun position below => ?_, fun room => ?_⟩
  · exact borders.mono (fun i j follows => follows.entails legible) position (Nat.lt_succ_of_lt below)
  · have visible : (exactly word (word.chars.length + 1)).NoHiddenOverlap room := by
      refine noHiddenOverlap_of_exact fun i _ j _ ⟨ch, left, right⟩ => .inl ?_
      have same := ((exactly_agrees word _ i ch).mp left).symm.trans
        ((exactly_agrees word _ j ch).mp right)
      exact congrArg some same
    have covers := covers_of_noHiddenOverlap legible (Nat.succ_pos _) visible compares
      (fun i j skip => congrArg some (eq_of_beq skip)) built
    exact fun j k below bound near overlaps => covers j k below (Nat.lt_succ_of_lt bound) near overlaps

def Kmping.cursor (state : Kmping) : Cursor where
  i := state.i
  j := state.j

def hits (text word : CString) (i j : Nat) : Bool :=
  charAt text.chars i == charAt word.chars j

theorem hits_compares (text word : CString) :
    Compares (exactly word word.chars.length) (charAt text.chars) (hits text word) := by
  intro i j _
  rw [Bool.eq_iff_iff, exactly_agrees, hits, beq_iff_eq]

theorem charAt_ne_zero_iff (word : CString) (j : Nat) :
    charAt word.chars j ≠ 0 ↔ j < word.chars.length := by
  constructor
  · intro character
    by_contra outside
    rw [charAt, List.getD_eq_default _ _ (Nat.le_of_not_lt outside)] at character
    exact character rfl
  · intro inside zero
    rw [charAt, List.getD_eq_getElem _ _ inside] at zero
    exact word.terminated (zero ▸ List.getElem_mem inside)

theorem exactly_occursAt_iff (filled : word.chars ≠ []) {position : Nat} :
    word.chars <+: text.chars.drop position ↔ position + word.chars.length ≤ text.chars.length ∧
      (exactly word word.chars.length).OccursAt (charAt text.chars) position := by
  rw [prefix_drop_iff filled 0]
  exact and_congr_right fun _ => forall₂_congr fun t _ => (exactly_agrees word _ t _).symm

/-- The scan is on its way, or has just found the word. -/
def Stage (text word : CString) (cursor : Cursor) : Prop :=
  ScanInvariant (exactly word word.chars.length) (charAt text.chars) 0 cursor ∨
    cursor.j = word.chars.length ∧ ∃ position : Nat, cursor.alignment = position ∧
      word.chars <+: text.chars.drop position

/-- What holds in front of a pass: the place is counted along. -/
structure Scanning (text word : CString) (startIndex : Nat) (state : Kmping) : Prop where
  index : state.index = (startIndex + state.cursor.alignment) % 4294967296
  passed : Passed (exactly word word.chars.length) (charAt text.chars) 0 text.chars.length state.cursor
  stage : Stage text word state.cursor

/-- Twice the start is in the result: the place is counted from it, and it is added again. -/
def Found (text word : CString) (startIndex : Nat) (result : Int) : Prop :=
  (∃ position : Nat, IsLeast {p | word.chars <+: text.chars.drop p} position ∧
      result = (position + 2 * startIndex : Nat) % 4294967296) ∨
    (∀ position, ¬ word.chars <+: text.chars.drop position) ∧ result = 4294967295

variable {cursor : Cursor} {state : Kmping}

theorem stage_step (borders : Borders (exactly word word.chars.length).Entails word.chars.length next)
    (invariant : ScanInvariant (exactly word word.chars.length) (charAt text.chars) 0 cursor)
    (more : cursor.i < text.chars.length) (filled : word.chars ≠ []) :
    Stage text word (cursor.step (hits text word) next) := by
  have moved := cursor.step_i_le (hits text word) next
  rcases invariant.step (hits_compares text word) borders with
    ⟨-, kept⟩ | ⟨complete, position, -, aligned, reached, occurs⟩
  · exact .inl kept
  · have size : (exactly word word.chars.length).length = word.chars.length := rfl
    exact .inr ⟨complete, position, aligned, (exactly_occursAt_iff filled).mpr ⟨by omega, occurs⟩⟩

/-- A pass is a step of the scan, and a second one when the table gives −1. -/
theorem Scanning.step (scanning : Scanning text word startIndex state)
    (borders : Borders (exactly word word.chars.length).Entails word.chars.length next)
    (covers : ∀ room, (exactly word word.chars.length).Covers room next)
    (invariant : ScanInvariant (exactly word word.chars.length) (charAt text.chars) 0 state.cursor)
    (more : state.i < text.chars.length) (filled : word.chars ≠ []) :
    ∃ after, kmpPass text word startIndex next state = some (.again after) ∧
      Scanning text word startIndex after ∧
      after.cursor.work text.chars.length < state.cursor.work text.chars.length := by
  have upper : state.j < word.chars.length := by
    have below : (state.j : Int) < word.chars.length := invariant.upper
    exact_mod_cast below
  have inside : charAt text.chars state.i ≠ 0 ∧ charAt word.chars state.j ≠ 0 :=
    ⟨(charAt_ne_zero_iff text _).mpr more, (charAt_ne_zero_iff word _).mpr upper⟩
  have never : NeverSkips (exactly word word.chars.length) (charAt text.chars) next 0 text.chars.length :=
    neverSkips_of_covers borders (covers text.chars.length) (Nat.le_add_right _ _)
  have stage := stage_step borders invariant more filled
  have passed := scanning.passed.step (hits_compares text word) never invariant
  have work := @ScanInvariant.step_work _ _ _ _ (hits text word) next 0 text.chars.length _ borders
    invariant more
  have index := scanning.index
  simp only [Cursor.alignment, Kmping.cursor] at index
  rw [kmpPass, if_pos inside]
  -- the characters agree, or the table has a place to go on at, or it gives −1
  by_cases hit : hits text word state.i state.j = true
  · have step : state.cursor.step (hits text word) next = { i := state.i + 1, j := state.j + 1 } :=
      Cursor.step_matched (.inr hit)
    rw [step] at stage passed work
    have same : (charAt text.chars state.i == charAt word.chars state.j) = true := hit
    rw [if_pos same]
    refine ⟨_, rfl, ⟨?_, passed, stage⟩, work⟩
    simp only [Cursor.alignment, Kmping.cursor, index]
    push_cast
    omega
  · have fallen : ¬ (state.cursor.j = -1 ∨ hits text word state.cursor.i state.cursor.j.toNat = true) := by
      rintro (minus | also)
      · have nonnegative : (0 : Int) ≤ state.cursor.j := Int.natCast_nonneg state.j
        omega
      · exact hit also
    have step : state.cursor.step (hits text word) next = { i := state.i, j := next state.j } :=
      Cursor.step_fallen fallen
    rw [step] at stage passed work
    have lower := (borders state.j upper).lower
    have other : ¬ (charAt text.chars state.i == charAt word.chars state.j) = true := hit
    simp only [if_neg other]
    by_cases fits : next state.j ≠ -1
    · obtain ⟨k, value⟩ := Int.eq_ofNat_of_zero_le (show 0 ≤ next state.j by omega)
      have kept : Kmping.cursor
          { state with
            index := (state.index + (state.j - next state.j)) % 4294967296
            j := (next state.j).toNat } = { i := state.i, j := next state.j } := by
        rw [Kmping.cursor, value, Int.toNat_natCast]
      rw [if_pos fits]
      refine ⟨_, rfl, ⟨?_, ?_, ?_⟩, ?_⟩
      · rw [kept]
        simp only [Cursor.alignment, index]
        omega
      · rw [kept]
        exact passed
      · rw [kept]
        exact stage
      · rw [kept]
        exact work
    · have minus : next state.j = -1 := not_not.mp fits
      rw [minus] at stage passed work
      have again : ScanInvariant (exactly word word.chars.length) (charAt text.chars) 0
          { i := state.i, j := -1 } := by
        refine stage.resolve_right fun complete => ?_
        have positive : (-1 : Int) = word.chars.length := complete.1
        omega
      -- at −1 the pass goes on to the next character, which takes the scan a second step
      have next_step : Cursor.step (hits text word) next { i := state.i, j := -1 } =
          { i := state.i + 1, j := 0 } := Cursor.step_matched (.inl rfl)
      have stage := stage_step borders again more filled
      have passed := passed.step (hits_compares text word) never again
      have further := @ScanInvariant.step_work _ _ _ _ (hits text word) next 0 text.chars.length _ borders
        again more
      rw [next_step] at stage passed further
      rw [if_neg fits]
      refine ⟨_, rfl, ⟨?_, passed, stage⟩, Nat.lt_trans further work⟩
      simp only [Cursor.alignment, Kmping.cursor, index, minus]
      push_cast
      omega

/-- What is returned when the loop ends. -/
theorem Scanning.leaves (scanning : Scanning text word startIndex state) (filled : word.chars ≠ [])
    (ends : state.j = word.chars.length ∨
      text.chars.length ≤ state.i ∧
        ScanInvariant (exactly word word.chars.length) (charAt text.chars) 0 state.cursor) :
    ∃ result, kmpPass text word startIndex next state = some (.leave result) ∧
      Found text word startIndex result := by
  have index := scanning.index
  have never (p : Nat) (before : (p : Int) < state.cursor.alignment) :
      ¬ word.chars <+: text.chars.drop p := by
    intro found
    obtain ⟨room, occurs⟩ := (exactly_occursAt_iff filled).mp found
    exact scanning.passed p (Nat.zero_le p) before room occurs
  rcases ends with complete | ⟨done, invariant⟩
  · have last : charAt word.chars state.j = 0 := by
      by_contra character
      have inside := (charAt_ne_zero_iff word _).mp character
      omega
    obtain ⟨position, aligned, found⟩ :
        ∃ position : Nat, state.cursor.alignment = position ∧ word.chars <+: text.chars.drop position := by
      rcases scanning.stage with invariant | ⟨-, found⟩
      · have below : (state.j : Int) < word.chars.length := invariant.upper
        omega
      · exact found
    refine ⟨(state.index + startIndex) % 4294967296, ?_, .inl ⟨position, ⟨found, fun p also => ?_⟩, ?_⟩⟩
    · rw [kmpPass, if_neg fun both => both.2 last, if_pos last]
    · by_contra before
      exact never p (by omega) also
    · rw [index, aligned]
      push_cast
      omega
  · have below : (state.j : Int) < word.chars.length := invariant.upper
    have inside : charAt word.chars state.j ≠ 0 := (charAt_ne_zero_iff word _).mpr (by omega)
    have ended : ¬ charAt text.chars state.i ≠ 0 := by
      rw [charAt_ne_zero_iff]
      omega
    refine ⟨4294967295, ?_, .inr ⟨fun p found => ?_, rfl⟩⟩
    · rw [kmpPass, if_neg fun both => ended both.1, if_neg inside]
    · have room := ((exactly_occursAt_iff filled).mp found).1
      refine never p ?_ found
      simp only [Cursor.alignment, Kmping.cursor]
      omega

/-- The first place of a word in a text is found, and twice the start is added to it; −1 says
that there is none. The start is nowhere skipped to. -/
theorem kmp_finds (text word : CString) (startIndex : Nat) (filled : word.chars ≠ []) :
    ∃ result, kmp text word startIndex = some result ∧ Found text word startIndex result := by
  by_cases empty : text.chars = []
  · refine ⟨4294967295, if_pos (.inr empty), .inr ⟨fun position found => ?_, rfl⟩⟩
    rw [empty, List.drop_nil] at found
    exact filled (List.prefix_nil.mp found)
  · obtain ⟨next, built, borders, covers⟩ := getNextval_table word
    have sound : Loop.Sound (kmpPass text word startIndex next) (Scanning text word startIndex)
        (fun state => state.cursor.work text.chars.length) (Found text word startIndex) := by
      intro state scanning
      rcases scanning.stage with invariant | ⟨complete, -⟩
      · by_cases more : state.i < text.chars.length
        · exact .inl (scanning.step borders covers invariant more filled)
        · exact .inr (scanning.leaves filled (.inr ⟨Nat.le_of_not_lt more, invariant⟩))
      · exact .inr (scanning.leaves filled (.inl (Int.ofNat_inj.mp complete)))
    have start : Scanning text word startIndex { index := startIndex % 4294967296, i := 0, j := 0 } := by
      refine ⟨?_, .initial, .inl (.initial (List.length_pos_iff.mpr filled))⟩
      simp [Cursor.alignment, Kmping.cursor]
    obtain ⟨result, ran, found⟩ := Loop.run_total sound start
      (show _ < 2 * text.chars.length + 2 by simp only [Cursor.work, Kmping.cursor]; omega)
    refine ⟨result, ?_, found⟩
    rw [kmp, if_neg (not_or.mpr ⟨filled, empty⟩), built]
    exact ran

def abab : CString where
  chars := [0x62, 0x61, 0x62, 0x61, 0x62]
  terminated := by decide
  small := by decide

def ab : CString where
  chars := [0x61, 0x62]
  terminated := by decide
  small := by decide

theorem kmp_finds_ab : ∃ result, kmp abab ab 7 = some result ∧ Found abab ab 7 result :=
  kmp_finds abab ab 7 (by decide)

end IDAPlugins.FindCode.Kmp
