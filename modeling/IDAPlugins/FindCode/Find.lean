import IDAPlugins.FindCode.Dichotomy

namespace IDAPlugins.FindCode

open Machine Search

/-! # Finding code

`OnButtonFind` searches the snapshot for a piece of the first telling token,
matches the lines from there on one by one, and reports the address of the first.
-/

/-- The loop that chooses `pszSearch`, with the index it stops at. -/
def pickSearch : List (List UInt8) → Nat → List UInt8 → Nat × List UInt8
  | [], i, pszSearch => (i, pszSearch)
  | p :: vSearchCodes, i, pszSearch =>
    if charAt pszSearch 0 ≠ 0 then
      (i, pszSearch)
    else if p = [0x2A] then
      pickSearch vSearchCodes (i + 1) pszSearch
    else
      pickSearch vSearchCodes (i + 1) (copySearch p)

/-- The loop over the tokens from one line on; `true` when all of them matched. -/
def matchLines (buf : List UInt8) (findoffset : Nat) :
    List (List UInt8) → Nat → List UInt8 → Option Bool
  | [], _, _ => some true
  | code :: vSearchCodes, nj, szOutBuf => do
    if ← matchingString szOutBuf code false then
      let nj := nj + (szOutBuf.length + 1)
      if charAt buf (findoffset + nj) ≠ 0 then
        let (offset, szOutBuf) ← getLineBuf buf (findoffset + nj)
        matchLines buf findoffset vSearchCodes (nj + offset).toNat szOutBuf
      else
        some vSearchCodes.isEmpty
    else
      some false

/-- The loop that moves behind the lines of a hit. -/
def skipLines (buf : List UInt8) : List (List UInt8) → Nat → Option Nat
  | [], dwasmbufOffset => some dwasmbufOffset
  | _ :: vSearchCodes, dwasmbufOffset => do
    let (offset, szOutBuf) ← getLineBuf buf dwasmbufOffset
    skipLines buf vSearchCodes ((dwasmbufOffset + offset).toNat + (szOutBuf.length + 1))

structure Finding where
  dwasmbufOffset : Nat
  nOffsetIndex : Nat
  reported : List Nat

/-- The buffers and lengths the search reads, as the snapshot thread leaves them. -/
structure Buffers where
  asmbuf : List UInt8
  asmoffset : List Nat
  asmaddr : List Nat
  noffsetlen : Nat

def findPass (g : Buffers) (startaddr : Nat) (pszSearch : List UInt8)
    (vSearchCodes : List (List UInt8)) (state : Finding) :
    Option (Loop.Pass Finding (List Nat)) := do
  let found ← findingString g.asmbuf pszSearch (int32 state.dwasmbufOffset)
  if found = -1 then
    some (.leave state.reported)
  else
    let (offset, szOutBuf) ← getLineBuf g.asmbuf found.toNat
    let findoffset := (found + offset).toNat
    let next := { state with dwasmbufOffset := found.toNat + 1 }
    if ← matchLines g.asmbuf findoffset vSearchCodes 0 szOutBuf then
      let nOffsetIndex ← dichotomySearch g.asmoffset g.noffsetlen findoffset state.nOffsetIndex
      if nOffsetIndex ≠ 4294967295 then
        let address ← g.asmaddr[nOffsetIndex]?
        let dwasmbufOffset ← skipLines g.asmbuf vSearchCodes findoffset
        some (.again { dwasmbufOffset, nOffsetIndex
                       reported := state.reported ++ [(address + startaddr) % 4294967296] })
      else
        some (.again { next with nOffsetIndex })
    else
      some (.again next)

/-- The search loop, with the addresses it reports. -/
def onButtonFind (g : Buffers) (startaddr : Nat) (vSearchCodes : List (List UInt8)) :
    Option (List Nat) :=
  let (i, pszSearch) := pickSearch vSearchCodes 0 []
  if charAt pszSearch 0 = 0 then
    some []
  else
    Loop.run (findPass g startaddr pszSearch (vSearchCodes.drop (i - 1))) (g.asmbuf.length + 2)
      { dwasmbufOffset := 0, nOffsetIndex := 0, reported := [] }

def Snapshot.buffers (snapshot : Snapshot) : Buffers where
  asmbuf := snapshot.asmbuf
  asmoffset := snapshot.asmoffset
  asmaddr := snapshot.asmaddr
  noffsetlen := snapshot.asmoffset.length

/-- Consecutive lines from `k` on match the tokens one by one. -/
def Snapshot.RunAt (snapshot : Snapshot) (vSearchCodes : List (List UInt8)) (k : Nat) : Prop :=
  k + vSearchCodes.length ≤ snapshot.lines.length ∧
    ∀ m < vSearchCodes.length,
      matchingString (snapshot.line (k + m)) (vSearchCodes.getD m []) false = some true

variable {snapshot : Snapshot} {code : List UInt8} {vSearchCodes : List (List UInt8)} {k : Nat}

theorem Snapshot.runAt_nil (bound : k ≤ snapshot.lines.length) : snapshot.RunAt [] k :=
  ⟨bound, fun m below => absurd below (Nat.not_lt_zero m)⟩

theorem Snapshot.runAt_cons : snapshot.RunAt (code :: vSearchCodes) k ↔
    k < snapshot.lines.length ∧ matchingString (snapshot.line k) code false = some true ∧
      snapshot.RunAt vSearchCodes (k + 1) := by
  constructor
  · rintro ⟨fits, all⟩
    rw [List.length_cons] at fits
    refine ⟨by omega, all 0 (Nat.succ_pos _), by omega, fun m below => ?_⟩
    have hit := all (m + 1) (Nat.succ_lt_succ below)
    rwa [← Nat.add_assoc, Nat.add_right_comm] at hit
  · rintro ⟨bound, first, fits, all⟩
    refine ⟨by rw [List.length_cons]; omega, fun m below => ?_⟩
    cases m with
    | zero => exact first
    | succ m =>
      rw [← Nat.add_assoc, Nat.add_right_comm]
      exact all m (Nat.lt_of_succ_lt_succ below)

theorem Snapshot.line_length_pos (bound : k < snapshot.lines.length) :
    0 < (snapshot.line k).length :=
  List.length_pos_iff.mpr (snapshot.nonempty _ (line_mem bound))

theorem Snapshot.getLineBuf_start (bound : k < snapshot.lines.length) :
    getLineBuf snapshot.asmbuf (lineOffset snapshot.lines k) = some (0, snapshot.line k) :=
  getLineBuf_line bound (line_length_pos bound)

theorem Snapshot.matchLines_run (vSearchCodes : List (List UInt8)) {findoffset nj : Nat}
    (bound : k < snapshot.lines.length)
    (place : findoffset + nj = lineOffset snapshot.lines k) :
    ∃ all, matchLines snapshot.asmbuf findoffset vSearchCodes nj (snapshot.line k) = some all ∧
      (all = true ↔ snapshot.RunAt vSearchCodes k) := by
  induction vSearchCodes generalizing nj k with
  | nil => exact ⟨true, rfl, fun _ => runAt_nil (Nat.le_of_lt bound), fun _ => rfl⟩
  | cons code rest ih =>
    obtain ⟨matched, answer⟩ := matchingString_total (snapshot.line k) code false
    have next : findoffset + (nj + ((snapshot.line k).length + 1)) =
        lineOffset snapshot.lines (k + 1) := by
      have := lineOffset_succ bound
      omega
    simp only [matchLines, answer, Option.bind_eq_bind, Option.bind_some, next]
    cases matched with
    | false =>
      refine ⟨false, rfl, fun absurdly => absurd absurdly Bool.false_ne_true, fun run => ?_⟩
      have first := (runAt_cons.mp run).2.1
      rw [answer] at first
      exact absurd first (by decide)
    | true =>
      simp only [if_true]
      by_cases more : k + 1 < snapshot.lines.length
      · have character := (line_character more (line_length_pos more)).1
        rw [← charAt_line more (line_length_pos more), Nat.add_zero] at character
        obtain ⟨all, ran, run⟩ := ih more next
        have kept : (((nj + ((snapshot.line k).length + 1) : Nat) : Int) + 0).toNat =
          nj + ((snapshot.line k).length + 1) := by omega
        refine ⟨all, ?_, ?_⟩
        · rw [if_pos character, getLineBuf_start more, Option.bind_some, kept]
          exact ran
        · rw [run, runAt_cons]
          exact ⟨fun rest => ⟨bound, answer, rest⟩, fun run => run.2.2⟩
      · have last : k + 1 = snapshot.lines.length := by omega
        refine ⟨rest.isEmpty, ?_, ?_⟩
        · rw [if_neg (not_not.mpr (last ▸ charAt_end))]
        · rw [List.isEmpty_iff, runAt_cons]
          constructor
          · rintro rfl
            exact ⟨bound, answer, runAt_nil (Nat.le_of_eq last)⟩
          · rintro ⟨-, -, fits, -⟩
            exact List.length_eq_zero_iff.mp (by omega)

theorem Snapshot.skipLines_run (fits : k + vSearchCodes.length ≤ snapshot.lines.length) :
    skipLines snapshot.asmbuf vSearchCodes (lineOffset snapshot.lines k) =
      some (lineOffset snapshot.lines (k + vSearchCodes.length)) := by
  induction vSearchCodes generalizing k with
  | nil => rfl
  | cons code rest ih =>
    rw [List.length_cons] at fits ⊢
    have bound : k < snapshot.lines.length := by omega
    have next : ((lineOffset snapshot.lines k : Int) + 0).toNat +
        ((snapshot.line k).length + 1) = lineOffset snapshot.lines (k + 1) := by
      have := lineOffset_succ bound
      omega
    simp only [skipLines, getLineBuf_start bound, Option.bind_eq_bind, Option.bind_some, next]
    rw [ih (by omega), Nat.add_right_comm, Nat.add_assoc]

/-- A run has the piece in its first line. -/
theorem Snapshot.piece_in_run (upper : UpperText code) (plain : 0x3F ∉ code)
    (nonempty : copySearch code ≠ []) (run : snapshot.RunAt (code :: vSearchCodes) k) :
    ∃ t < (snapshot.line k).length,
      copySearch code <+: snapshot.asmbuf.drop (lineOffset snapshot.lines k + t) := by
  obtain ⟨bound, matched, -⟩ := runAt_cons.mp run
  obtain ⟨position, found⟩ :=
    copySearch_occurs (snapshot.upper _ (line_mem bound)) upper plain nonempty matched
  have room := ((prefix_drop_iff nonempty 0).mp found).1
  have positive := List.length_pos_iff.mpr nonempty
  refine ⟨position, by omega, ?_⟩
  rw [← List.drop_drop, drop_line bound, List.drop_append_of_le_length (by omega)]
  exact found.trans (List.prefix_append _ _)

theorem Snapshot.line_of_piece {piece : List UInt8} {q : Nat} (upper : UpperText piece)
    (nonempty : piece ≠ []) (found : piece <+: snapshot.asmbuf.drop q) :
    ∃ k < snapshot.lines.length, ∃ t < (snapshot.line k).length,
      q = lineOffset snapshot.lines k + t := by
  obtain ⟨room, same⟩ := (prefix_drop_iff nonempty 0).mp found
  have positive := List.length_pos_iff.mpr nonempty
  refine locate (by omega) ?_
  have first : charAt snapshot.asmbuf q = charAt piece 0 := same 0 positive
  rw [first]
  exact (upper _ (charAt_mem positive)).2.1

/-- What the loop has reported completes to all hits, and every run still to be
reported has the piece ahead of the offset. -/
structure FindInvariant (snapshot : Snapshot) (startaddr : Nat) (code : List UInt8)
    (vSearchCodes : List (List UInt8)) (state : Finding) (start : Nat) : Prop where
  inside : state.dwasmbufOffset ≤ snapshot.asmbuf.length
  lines : start ≤ snapshot.lines.length
  passed : start = 0 ∨ lineOffset snapshot.lines start ≤ state.dwasmbufOffset
  ahead : ∀ k, start ≤ k → snapshot.RunAt (code :: vSearchCodes) k →
    ∃ t < (snapshot.line k).length, state.dwasmbufOffset ≤ lineOffset snapshot.lines k + t ∧
      copySearch code <+: snapshot.asmbuf.drop (lineOffset snapshot.lines k + t)
  index : state.nOffsetIndex ≤ start
  reported : ∃ before : List Nat,
    state.reported = before.map (fun k => (snapshot.asmaddr.getD k 0 + startaddr) % 4294967296) ∧
      ∀ rest, Leftmost (snapshot.RunAt (code :: vSearchCodes)) (vSearchCodes.length + 1) start rest →
        Leftmost (snapshot.RunAt (code :: vSearchCodes)) (vSearchCodes.length + 1) 0 (before ++ rest)

variable {startaddr start o l t : Nat} {state : Finding}

theorem FindInvariant.initial (upper : UpperText code) (plain : 0x3F ∉ code)
    (nonempty : copySearch code ≠ []) :
    FindInvariant snapshot startaddr code vSearchCodes
      { dwasmbufOffset := 0, nOffsetIndex := 0, reported := [] } 0 where
  inside := Nat.zero_le _
  lines := Nat.zero_le _
  passed := .inl rfl
  ahead := by
    intro k _ run
    obtain ⟨t, inside, found⟩ := Snapshot.piece_in_run upper plain nonempty run
    exact ⟨t, inside, Nat.zero_le _, found⟩
  index := Nat.le_refl 0
  reported := ⟨[], rfl, fun _ remaining => remaining⟩

theorem FindInvariant.finished
    (invariant : FindInvariant snapshot startaddr code vSearchCodes state start)
    (absent : ∀ position, state.dwasmbufOffset ≤ position →
      ¬ copySearch code <+: snapshot.asmbuf.drop position) :
    ∃ hits : List Nat, state.reported = hits.map
        (fun k => (snapshot.asmaddr.getD k 0 + startaddr) % 4294967296) ∧
      Leftmost (snapshot.RunAt (code :: vSearchCodes)) (vSearchCodes.length + 1) 0 hits := by
  obtain ⟨before, reported, completes⟩ := invariant.reported
  refine ⟨before, reported, ?_⟩
  rw [← List.append_nil before]
  refine completes [] (.finished fun k after run => ?_)
  obtain ⟨t, -, ahead, found⟩ := invariant.ahead k after run
  exact absent _ ahead found

/-- The piece found next lies in no line before the ones still searched. -/
theorem FindInvariant.line_after
    (invariant : FindInvariant snapshot startaddr code vSearchCodes state start)
    (bound : l < snapshot.lines.length) (inside : t < (snapshot.line l).length)
    (after : state.dwasmbufOffset ≤ lineOffset snapshot.lines l + t) : start ≤ l := by
  rcases invariant.passed with rfl | passed
  · exact Nat.zero_le l
  · exact Snapshot.line_le invariant.lines bound inside (passed.trans after)

theorem FindInvariant.missed
    (invariant : FindInvariant snapshot startaddr code vSearchCodes state start)
    (bound : l < snapshot.lines.length) (inside : t < (snapshot.line l).length)
    (least : IsLeast {p | state.dwasmbufOffset ≤ p ∧ copySearch code <+: snapshot.asmbuf.drop p}
      (lineOffset snapshot.lines l + t))
    (fails : ¬ snapshot.RunAt (code :: vSearchCodes) l) :
    FindInvariant snapshot startaddr code vSearchCodes
      { state with dwasmbufOffset := lineOffset snapshot.lines l + t + 1 } start where
  inside := by
    have := Snapshot.lineOffset_succ bound
    have := Snapshot.lineOffset_le (show l + 1 ≤ snapshot.lines.length by omega) (Nat.le_refl _)
    rw [snapshot.asmbuf_length]
    simp only
    omega
  lines := invariant.lines
  passed := invariant.passed.imp_right fun passed => by
    have := least.1.1
    simp only
    omega
  ahead := by
    intro k after run
    obtain ⟨t', inside', ahead, found⟩ := invariant.ahead k after run
    refine ⟨t', inside', ?_, found⟩
    have later := least.2 ⟨ahead, found⟩
    have bound' := (Snapshot.runAt_cons.mp run).1
    rcases Nat.eq_or_lt_of_le later with same | beyond
    · have before := Snapshot.line_le (Nat.le_of_lt bound) bound' inside' (by omega)
      have behind := Snapshot.line_le (Nat.le_of_lt bound') bound inside (by omega)
      exact absurd (Nat.le_antisymm before behind ▸ run) fails
    · exact beyond
  index := invariant.index
  reported := invariant.reported

theorem FindInvariant.hit
    (invariant : FindInvariant snapshot startaddr code vSearchCodes state start)
    (upper : UpperText code) (plain : 0x3F ∉ code) (nonempty : copySearch code ≠ [])
    (bound : l < snapshot.lines.length) (inside : t < (snapshot.line l).length)
    (least : IsLeast {p | state.dwasmbufOffset ≤ p ∧ copySearch code <+: snapshot.asmbuf.drop p}
      (lineOffset snapshot.lines l + t))
    (run : snapshot.RunAt (code :: vSearchCodes) l) :
    FindInvariant snapshot startaddr code vSearchCodes
      { dwasmbufOffset := lineOffset snapshot.lines (l + (code :: vSearchCodes).length)
        nOffsetIndex := l
        reported := state.reported ++
          [(snapshot.asmaddr.getD l 0 + startaddr) % 4294967296] }
      (l + (code :: vSearchCodes).length) where
  inside := by
    have := Snapshot.lineOffset_le run.1 (Nat.le_refl _)
    rw [snapshot.asmbuf_length]
    simp only
    omega
  lines := run.1
  passed := .inr (Nat.le_refl _)
  ahead := by
    intro k after run'
    obtain ⟨t', inside', found⟩ := Snapshot.piece_in_run upper plain nonempty run'
    refine ⟨t', inside', ?_, found⟩
    have := Snapshot.lineOffset_le after (Nat.le_of_lt (Snapshot.runAt_cons.mp run').1)
    simp only
    omega
  index := Nat.le_add_right _ _
  reported := by
    obtain ⟨before, reported, completes⟩ := invariant.reported
    refine ⟨before ++ [l], by simp [reported], fun rest remaining => ?_⟩
    rw [List.append_assoc]
    refine completes _ (.hit ⟨⟨invariant.line_after bound inside least.1.1, run⟩, ?_⟩ remaining)
    rintro k ⟨after, run'⟩
    obtain ⟨t', inside', ahead, found⟩ := invariant.ahead k after run'
    exact Snapshot.line_le (Nat.le_of_lt bound) (Snapshot.runAt_cons.mp run').1 inside'
      ((Nat.le_add_right _ _).trans (least.2 ⟨ahead, found⟩))

/-- A pass that finds the piece in line `l` reports the line if a run begins there, and
goes on behind the run or behind the place. -/
theorem findPass_found (startaddr : Nat) {pszSearch : List UInt8} {tokens : List (List UInt8)}
    (bound : l < snapshot.lines.length) (within : t < (snapshot.line l).length)
    (index : state.nOffsetIndex ≤ l)
    (searched : findingString snapshot.asmbuf pszSearch (int32 state.dwasmbufOffset) =
      some ((lineOffset snapshot.lines l + t : Nat) : Int)) :
    ∃ all, (all = true ↔ snapshot.RunAt tokens l) ∧
      findPass snapshot.buffers startaddr pszSearch tokens state =
        if all = true then
          some (.again
            { dwasmbufOffset := lineOffset snapshot.lines (l + tokens.length)
              nOffsetIndex := l
              reported := state.reported ++
                [(snapshot.asmaddr.getD l 0 + startaddr) % 4294967296] })
        else
          some (.again { state with dwasmbufOffset := lineOffset snapshot.lines l + t + 1 }) := by
  have moved : ((lineOffset snapshot.lines l + t : Nat) + -(t : Int)).toNat =
      lineOffset snapshot.lines l := by omega
  have somewhere : ((lineOffset snapshot.lines l + t : Nat) : Int) ≠ -1 := by omega
  obtain ⟨all, matched, run⟩ :=
    Snapshot.matchLines_run tokens bound (Nat.add_zero (lineOffset snapshot.lines l))
  refine ⟨all, run, ?_⟩
  simp only [findPass, Snapshot.buffers, searched, Option.bind_eq_bind, Option.bind_some,
    if_neg somewhere, Int.toNat_natCast, Snapshot.getLineBuf_line bound within, moved, matched]
  cases all with
  | false => rfl
  | true =>
    have address : l < snapshot.asmaddr.length := by rwa [snapshot.addressed]
    have known : l ≠ 4294967295 := by
      have small := snapshot.small
      have := Snapshot.lineOffset_le (Nat.zero_le l) (Nat.le_of_lt bound)
      have := Snapshot.lineOffset_le (Nat.le_of_lt bound) (Nat.le_refl _)
      have := snapshot.asmbuf_length
      rw [Snapshot.asmbuf, List.length_cons] at this
      omega
    simp only [if_true, snapshot.dichotomySearch_line bound index, Option.bind_some, if_pos known,
      List.getElem?_eq_getElem address, Snapshot.skipLines_run (run.mp rfl).1,
      List.getD_eq_getElem _ _ address]

theorem findPass_sound (startaddr : Nat) (upper : UpperText code) (plain : 0x3F ∉ code)
    (nonempty : copySearch code ≠ []) :
    Loop.Sound (findPass snapshot.buffers startaddr (copySearch code) (code :: vSearchCodes))
      (fun state => ∃ start, FindInvariant snapshot startaddr code vSearchCodes state start)
      (fun state => snapshot.asmbuf.length + 1 - state.dwasmbufOffset)
      (fun reported => ∃ hits : List Nat,
        reported = hits.map (fun k => (snapshot.asmaddr.getD k 0 + startaddr) % 4294967296) ∧
        Leftmost (snapshot.RunAt (code :: vSearchCodes)) (vSearchCodes.length + 1) 0 hits) := by
  rintro state ⟨start, invariant⟩
  have inside := invariant.inside
  have small : snapshot.asmbuf.length < 2147483648 := by
    have := snapshot.small
    rw [Snapshot.asmbuf, List.length_cons]
    omega
  have upperPiece : UpperText (copySearch code) :=
    fun ch member => upper ch ((copySearch_sublist code).subset member)
  have offset : int32 state.dwasmbufOffset = state.dwasmbufOffset :=
    int32_of_range (by omega) (by omega)
  obtain ⟨r, searched, ⟨missed, absent⟩ | ⟨o, found, least⟩⟩ :=
    findingString_first snapshot.asmbuf state.dwasmbufOffset nonempty
      (fun question => plain ((copySearch_sublist code).subset question))
  · refine .inr ⟨state.reported, ?_, invariant.finished absent⟩
    simp only [findPass, Snapshot.buffers, offset, searched, Option.bind_eq_bind, Option.bind_some,
      if_pos missed]
  · obtain ⟨l, bound, t, within, place⟩ := Snapshot.line_of_piece upperPiece nonempty least.1.2
    subst place found
    rw [← offset] at searched
    obtain ⟨all, run, pass⟩ := findPass_found startaddr bound within
      (invariant.index.trans (invariant.line_after bound within least.1.1)) searched
    cases all with
    | false =>
      have fails : ¬ snapshot.RunAt (code :: vSearchCodes) l :=
        fun holds => absurd (run.mpr holds) Bool.false_ne_true
      refine .inl ⟨_, pass, ⟨_, invariant.missed bound within least fails⟩, ?_⟩
      have := least.1.1
      simp only
      omega
    | true =>
      refine .inl ⟨_, pass,
        ⟨_, invariant.hit upper plain nonempty bound within least (run.mp rfl)⟩, ?_⟩
      have := least.1.1
      have := Snapshot.lineOffset_succ bound
      have := Snapshot.lineOffset_le (show l + 1 ≤ l + (code :: vSearchCodes).length by
        rw [List.length_cons]; omega) (run.mp rfl).1
      simp only
      omega

theorem copySearch_stars {token : List UInt8} (stars : ∀ ch ∈ token, ch = 0x2A) :
    copySearch token = [] := by
  have dropped : token.dropWhile (· == 0x2A) = [] :=
    List.dropWhile_eq_nil_iff.mpr fun ch member => by simpa using stars ch member
  rw [copySearch_eq, dropped, List.takeWhile_nil]

theorem copySearch_ne_nil {token : List UInt8} (literal : ∃ ch ∈ token, ch ≠ 0x2A) :
    copySearch token ≠ [] := by
  rw [copySearch_eq]
  cases rest : token.dropWhile (· == 0x2A) with
  | nil =>
    obtain ⟨ch, member, other⟩ := literal
    exact absurd (List.dropWhile_eq_nil_iff.mp rest ch member) (by simpa using other)
  | cons ch rest' =>
    have head := List.head?_dropWhile_not (· == (0x2A : UInt8)) token
    rw [rest] at head
    rw [List.takeWhile_cons_of_pos (by simpa using head)]
    exact List.cons_ne_nil _ _

/-- Tokens of stars are passed over; the first other one gives `pszSearch`. -/
theorem pickSearch_first {leading : List (List UInt8)} (stars : ∀ p ∈ leading, ∀ ch ∈ p, ch = 0x2A)
    (found : charAt (copySearch code) 0 ≠ 0) (i : Nat) :
    pickSearch (leading ++ code :: vSearchCodes) i [] =
      (i + leading.length + 1, copySearch code) := by
  induction leading generalizing i with
  | nil =>
    have other : code ≠ [0x2A] := by
      rintro rfl
      exact found rfl
    rw [List.nil_append, pickSearch, if_neg (by decide), if_neg other]
    cases vSearchCodes with
    | nil => rfl
    | cons => rw [pickSearch, if_pos found, List.length_nil, Nat.add_zero]
  | cons p leading ih =>
    have next := ih (fun p member => stars p (List.mem_cons_of_mem _ member)) (i + 1)
    have empty := copySearch_stars (stars p (List.mem_cons_self ..))
    rw [List.cons_append, pickSearch, if_neg (by decide), empty, ite_self, next, List.length_cons,
      Nat.add_right_comm i, Nat.add_assoc i]

/-- The search loop ends, and what it reports are the low halves, as `%08X` prints them, of
the addresses of the first lines of the leftmost, greedy runs. -/
theorem onButtonFind_reports_runs (snapshot : Snapshot) (startaddr : Nat)
    (leading : List (List UInt8)) (code : List UInt8) (vSearchCodes : List (List UInt8))
    (stars : ∀ p ∈ leading, ∀ ch ∈ p, ch = 0x2A) (upper : UpperText code)
    (literal : ∃ ch ∈ code, ch ≠ 0x2A) (plain : 0x3F ∉ code) :
    ∃ hits : List Nat,
      onButtonFind snapshot.buffers startaddr (leading ++ code :: vSearchCodes) =
        some (hits.map fun k => (snapshot.asmaddr.getD k 0 + startaddr) % 4294967296) ∧
      Leftmost (snapshot.RunAt (code :: vSearchCodes)) (code :: vSearchCodes).length 0 hits := by
  have nonempty := copySearch_ne_nil literal
  have first : charAt (copySearch code) 0 ≠ 0 :=
    (upper _ ((copySearch_sublist code).subset
      (charAt_mem (List.length_pos_iff.mpr nonempty)))).1
  obtain ⟨reported, ran, hits, listed, leftmost⟩ :=
    show ∃ reported, Loop.run
        (findPass snapshot.buffers startaddr (copySearch code) (code :: vSearchCodes))
        (snapshot.asmbuf.length + 2) { dwasmbufOffset := 0, nOffsetIndex := 0, reported := [] } =
          some reported ∧ _ from
      Loop.run_total (findPass_sound startaddr upper plain nonempty)
        ⟨0, .initial upper plain nonempty⟩ (by simp only; omega)
  refine ⟨hits, ?_, leftmost⟩
  have tokens : (leading ++ code :: vSearchCodes).drop (0 + leading.length + 1 - 1) =
      code :: vSearchCodes := by
    rw [Nat.zero_add, Nat.add_sub_cancel, List.drop_left]
  simp only [onButtonFind, pickSearch_first stars first, if_neg first, tokens]
  rw [← listed]
  exact ran

/-- The loop ends and reports the addresses of the first lines of the leftmost, greedy runs
of lines that match the tokens from `code` on. -/
def ReportsRuns (snapshot : Snapshot) (startaddr : Nat) (leading : List (List UInt8))
    (code : List UInt8) (vSearchCodes : List (List UInt8)) : Prop :=
  ∃ hits : List Nat,
    Leftmost (snapshot.RunAt (code :: vSearchCodes)) (code :: vSearchCodes).length 0 hits ∧
    onButtonFind snapshot.buffers startaddr (leading ++ code :: vSearchCodes) =
      some (hits.map fun k => snapshot.asmaddr.getD k 0 + startaddr)

/-- A list and its remainders are the same exactly when every member is its own remainder. -/
theorem map_mod_eq_iff (hits : List Nat) (address : Nat → Nat) {n : Nat} (positive : 0 < n) :
    hits.map (fun k => address k % n) = hits.map address ↔ ∀ k ∈ hits, address k < n := by
  rw [List.map_inj_left]
  exact forall₂_congr fun k _ =>
    ⟨fun same => same ▸ Nat.mod_lt _ positive, Nat.mod_eq_of_lt⟩

/-- The search loop reports the addresses of the leftmost, greedy runs exactly when none of
these runs begins at or above `2 ^ 32`: an `ea_t` of 64 bits is printed with `%08X`. -/
theorem onButtonFind_reports_iff (snapshot : Snapshot) (startaddr : Nat)
    (leading : List (List UInt8)) (code : List UInt8) (vSearchCodes : List (List UInt8))
    (stars : ∀ p ∈ leading, ∀ ch ∈ p, ch = 0x2A) (upper : UpperText code)
    (literal : ∃ ch ∈ code, ch ≠ 0x2A) (plain : 0x3F ∉ code) :
    ReportsRuns snapshot startaddr leading code vSearchCodes ↔
      ∀ hits : List Nat,
        Leftmost (snapshot.RunAt (code :: vSearchCodes)) (code :: vSearchCodes).length 0 hits →
          ∀ k ∈ hits, snapshot.asmaddr.getD k 0 + startaddr < 4294967296 := by
  obtain ⟨found, ran, leftmost⟩ :=
    onButtonFind_reports_runs snapshot startaddr leading code vSearchCodes stars upper literal plain
  have printed := map_mod_eq_iff found (fun k => snapshot.asmaddr.getD k 0 + startaddr)
    (show 0 < 4294967296 by decide)
  constructor
  · rintro ⟨reported, same, listed⟩ hits leftmost'
    obtain rfl := same.unique leftmost'
    obtain rfl := leftmost.unique same
    exact printed.mp (Option.some.inj (ran.symm.trans listed))
  · intro below
    exact ⟨found, leftmost, ran.trans (congrArg some (printed.mpr (below found leftmost)))⟩

def twice : Snapshot where
  lines := [[0x4C, 0x44, 0x52], [0x43, 0x4D, 0x50], [0x4C, 0x44, 0x52], [0x43, 0x4D, 0x50]]
  asmaddr := [0, 4, 8, 12]
  upper := by decide +kernel
  nonempty := by decide
  short := by decide
  addressed := rfl
  small := by decide

/-- Searching it for `*`, `*D*` and `C?P`. -/
theorem onButtonFind_reports_twice :
    ReportsRuns twice 0x1000 [[0x2A]] [0x2A, 0x44, 0x2A] [[0x43, 0x3F, 0x50]] := by
  refine (onButtonFind_reports_iff twice 0x1000 [[0x2A]] [0x2A, 0x44, 0x2A] [[0x43, 0x3F, 0x50]]
    (by decide +kernel) (by decide +kernel) ⟨0x44, by decide, by decide⟩ (by decide)).mpr ?_
  intro hits leftmost k _
  have address : ∀ k, twice.asmaddr.getD k 0 ≤ 12
    | 0 | 1 | 2 | 3 => by decide
    | _ + 4 => Nat.zero_le 12
  have := address k
  omega

/-- With the first line at `0x100000000` the search for `LDR` reports 0 and 8. -/
theorem onButtonFind_reports_high : ¬ ReportsRuns twice 0x100000000 [] [0x4C, 0x44, 0x52] [] := by
  rintro ⟨hits, -, listed⟩
  have ran : onButtonFind twice.buffers 0x100000000 ([] ++ [[0x4C, 0x44, 0x52]]) = some [0, 8] := by
    decide +kernel
  rw [ran, Option.some.injEq] at listed
  cases hits with
  | nil => cases listed
  | cons k hits =>
    rw [List.map_cons, List.cons.injEq] at listed
    omega

end IDAPlugins.FindCode
