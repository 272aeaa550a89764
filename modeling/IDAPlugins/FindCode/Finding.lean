import IDAPlugins.Search.Completeness

namespace IDAPlugins.FindCode

open Search

/-! # Finding a string in a string

`FindingString` searches a C string for another in which `?` stands for any
character. A C string is the list of its characters before the terminator.
-/

def charAt (lpsz : List UInt8) (i : Nat) : UInt8 :=
  lpsz.getD i 0

def findingPass (lpszSour lpszFind : List UInt8) (next : Nat → Int) (cursor : Cursor) :
    Option (Loop.Pass Cursor Int) :=
  let m := lpszSour.length
  let n := lpszFind.length
  if cursor.i < m ∧ cursor.j < n then
    if cursor.j = -1 ∨ (charAt lpszFind cursor.j.toNat == 0x3F ||
        charAt lpszSour cursor.i == charAt lpszFind cursor.j.toNat) = true then
      some (.again { i := cursor.i + 1, j := cursor.j + 1 })
    else
      some (.again { cursor with j := next cursor.j.toNat })
  else if n ≤ cursor.j then
    some (.leave (cursor.i - n))
  else
    some (.leave (-1))

def findingString (lpszSour lpszFind : List UInt8) (nStart : Int) : Option Int :=
  let m := lpszSour.length
  let n := lpszFind.length
  if nStart < 0 then
    some (-1)
  else if nStart + n > m then
    some (-1)
  else if n = 0 then
    some nStart
  else do
    let next ← failureTable
      (fun j k => charAt lpszFind k == 0x3F || charAt lpszFind j == charAt lpszFind k)
      (fun _ _ => false) n
    Loop.run (findingPass lpszSour lpszFind next) (2 * m + 2) { i := nStart.toNat, j := 0 }

def sought (lpszFind : List UInt8) : Pattern UInt8 UInt8 where
  length := lpszFind.length
  code := charAt lpszFind
  wild := 0x3F
  agrees ch code := code == 0x3F || ch == code

variable {lpszSour lpszFind : List UInt8} {next : Nat → Int} {nStart : Nat}

theorem sought_legible (lpszFind : List UInt8) : (sought lpszFind).Legible where
  wildAgrees := fun _ => rfl
  inhabited := fun j _ => ⟨charAt lpszFind j, by simp [sought]⟩
  onlyWild := by
    intro j _ all
    have zero := all 0
    have one := all 1
    simp only [sought, Bool.or_eq_true, beq_iff_eq] at zero one ⊢
    rcases zero with wild | zero
    · exact wild
    · exact one.resolve_right fun one => absurd (zero.trans one.symm) (by decide)

theorem sought_follows_iff (i j : Nat) :
    (charAt lpszFind j == 0x3F || charAt lpszFind i == charAt lpszFind j) = true ↔
      (sought lpszFind).Follows i j := by
  simp only [Bool.or_eq_true, beq_iff_eq, Pattern.Follows, sought]
  exact or_comm

theorem sought_compares (lpszSour lpszFind : List UInt8) :
    Compares (sought lpszFind) (charAt lpszSour)
      (fun i j => charAt lpszFind j == 0x3F || charAt lpszSour i == charAt lpszFind j) :=
  fun _ _ _ => rfl

theorem charAt_ne_question (plain : 0x3F ∉ lpszFind) {t : Nat} (bound : t < lpszFind.length) :
    charAt lpszFind t ≠ 0x3F := by
  rw [charAt, List.getD_eq_getElem _ _ bound]
  exact fun question => plain (question ▸ List.getElem_mem bound)

theorem sought_noHiddenOverlap (plain : 0x3F ∉ lpszFind) (room : Nat) :
    (sought lpszFind).NoHiddenOverlap room := by
  refine noHiddenOverlap_of_exact fun i first j second ⟨ch, left, right⟩ => .inl ?_
  simp only [sought, Bool.or_eq_true, beq_iff_eq] at left right
  exact (left.resolve_left (charAt_ne_question plain first)).symm.trans
    (right.resolve_left (charAt_ne_question plain second))

theorem sought_occursAt_iff (plain : 0x3F ∉ lpszFind) (nonempty : lpszFind ≠ []) {position : Nat} :
    lpszFind <+: lpszSour.drop position ↔ position + lpszFind.length ≤ lpszSour.length ∧
      (sought lpszFind).OccursAt (charAt lpszSour) position := by
  rw [prefix_drop_iff nonempty 0]
  refine and_congr_right fun _ => forall₂_congr fun t bound => ?_
  simp only [sought, Bool.or_eq_true, beq_iff_eq, charAt_ne_question plain bound, false_or]
  rfl

theorem findingPass_more {cursor : Cursor} (more : cursor.i < lpszSour.length)
    (upper : cursor.j < lpszFind.length) :
    findingPass lpszSour lpszFind next cursor = some (.again (cursor.step
      (fun i j => charAt lpszFind j == 0x3F || charAt lpszSour i == charAt lpszFind j) next)) := by
  rw [findingPass, if_pos ⟨more, upper⟩]
  unfold Cursor.step
  split <;> rfl

/-- The scan ends, with `-1` or at an occurrence; any further fact that its steps
keep holds of the cursor it ends with. -/
theorem findingPass_ends (Extra : Cursor → Prop) (nonempty : lpszFind ≠ [])
    (inside : nStart ≤ lpszSour.length)
    (borders : Borders (sought lpszFind).Entails lpszFind.length next)
    (initial : Extra { i := nStart, j := 0 })
    (kept : ∀ cursor, ScanInvariant (sought lpszFind) (charAt lpszSour) nStart cursor →
      Extra cursor → Extra (cursor.step
        (fun i j => charAt lpszFind j == 0x3F || charAt lpszSour i == charAt lpszFind j) next)) :
    ∃ r, Loop.run (findingPass lpszSour lpszFind next) (2 * lpszSour.length + 2)
        { i := nStart, j := 0 } = some r ∧ ∃ cursor, Extra cursor ∧
      ((r = -1 ∧ lpszSour.length ≤ cursor.i ∧
          ScanInvariant (sought lpszFind) (charAt lpszSour) nStart cursor) ∨
        ∃ position : Nat, r = position ∧ nStart ≤ position ∧ cursor.alignment = position ∧
          position + lpszFind.length ≤ lpszSour.length ∧
          (sought lpszFind).OccursAt (charAt lpszSour) position) := by
  have positive := List.length_pos_iff.mpr nonempty
  have sound : Loop.Sound (findingPass lpszSour lpszFind next)
      (fun cursor => Extra cursor ∧
        (ScanInvariant (sought lpszFind) (charAt lpszSour) nStart cursor ∨
          cursor.j = lpszFind.length ∧ ∃ position : Nat, nStart ≤ position ∧
            cursor.alignment = position ∧ position + lpszFind.length ≤ lpszSour.length ∧
            (sought lpszFind).OccursAt (charAt lpszSour) position))
      (Cursor.work lpszSour.length)
      (fun r => ∃ cursor, Extra cursor ∧
        ((r = -1 ∧ lpszSour.length ≤ cursor.i ∧
            ScanInvariant (sought lpszFind) (charAt lpszSour) nStart cursor) ∨
          ∃ position : Nat, r = position ∧ nStart ≤ position ∧ cursor.alignment = position ∧
            position + lpszFind.length ≤ lpszSour.length ∧
            (sought lpszFind).OccursAt (charAt lpszSour) position)) := by
    rintro cursor ⟨extra, invariant | ⟨complete, position, after, aligned, fits, occurs⟩⟩
    · have upper : cursor.j < lpszFind.length := invariant.upper
      by_cases more : cursor.i < lpszSour.length
      · refine .inl ⟨_, findingPass_more more upper, ⟨kept cursor invariant extra, ?_⟩,
          invariant.step_work borders more⟩
        rcases invariant.step (sought_compares lpszSour lpszFind) borders with
          ⟨-, next⟩ | ⟨complete, position, after, aligned, reached, occurs⟩
        · exact .inl next
        · have moved := cursor.step_i_le (fun i j =>
            charAt lpszFind j == 0x3F || charAt lpszSour i == charAt lpszFind j) next
          rw [reached] at moved
          have size : (sought lpszFind).length = lpszFind.length := rfl
          exact .inr ⟨complete, position, after, aligned, by omega, occurs⟩
      · refine .inr ⟨-1, ?_, cursor, extra, .inl ⟨rfl, by omega, invariant⟩⟩
        rw [findingPass, if_neg (by omega), if_neg (by omega)]
    · refine .inr ⟨cursor.i - lpszFind.length, ?_, cursor, extra,
        .inr ⟨position, ?_, after, aligned, fits, occurs⟩⟩
      · rw [findingPass, if_neg (by omega), if_pos (by omega)]
      · simp only [Cursor.alignment, complete] at aligned
        exact aligned
  exact Loop.run_total sound ⟨initial, .inl (.initial positive)⟩ (by simp only [Cursor.work]; omega)

theorem findingString_eq (nonempty : lpszFind ≠ [])
    (fits : nStart + lpszFind.length ≤ lpszSour.length)
    (built : failureTable
      (fun j k => charAt lpszFind k == 0x3F || charAt lpszFind j == charAt lpszFind k)
      (fun _ _ => false) lpszFind.length = some next) :
    findingString lpszSour lpszFind nStart =
      Loop.run (findingPass lpszSour lpszFind next) (2 * lpszSour.length + 2)
        { i := nStart, j := 0 } := by
  have positive := List.length_pos_iff.mpr nonempty
  rw [findingString, if_neg (by omega), if_neg (by omega), if_neg (by omega), built]
  rfl

theorem sought_table (nonempty : lpszFind ≠ []) :
    ∃ next, failureTable
        (fun j k => charAt lpszFind k == 0x3F || charAt lpszFind j == charAt lpszFind k)
        (fun _ _ => false) lpszFind.length = some next ∧
      Borders (sought lpszFind).Follows lpszFind.length next :=
  failureTable_borders _ (fun _ _ => false) Pattern.Follows.trans
    (fun i j => (sought_follows_iff i j).mp) (List.length_pos_iff.mpr nonempty)

theorem sought_entails {next : Nat → Int} {length : Nat}
    (borders : Borders (sought lpszFind).Follows length next) :
    Borders (sought lpszFind).Entails length next :=
  borders.mono fun _ _ follows => follows.entails (sought_legible lpszFind)

theorem findingString_short (short : ¬ nStart + lpszFind.length ≤ lpszSour.length) :
    findingString lpszSour lpszFind nStart = some (-1) := by
  rw [findingString, if_neg (by omega), if_pos (by omega)]

/-- `FindingString` ends, and what it returns is `-1` or a place where the string fits. -/
theorem findingString_ends (lpszSour : List UInt8) (nStart : Nat) (nonempty : lpszFind ≠ []) :
    ∃ r, findingString lpszSour lpszFind nStart = some r ∧
      (r = -1 ∨ ∃ position : Nat, r = position ∧ nStart ≤ position ∧
        position + lpszFind.length ≤ lpszSour.length ∧
        (sought lpszFind).OccursAt (charAt lpszSour) position) := by
  by_cases fits : nStart + lpszFind.length ≤ lpszSour.length
  · obtain ⟨next, built, borders⟩ := sought_table nonempty
    obtain ⟨r, scanned, cursor, -, ⟨missed, -, -⟩ | ⟨position, found, after, -, room, occurs⟩⟩ :=
      findingPass_ends (fun _ => True) nonempty (by omega : nStart ≤ lpszSour.length)
        (sought_entails borders) trivial (fun _ _ _ => trivial)
    · exact ⟨r, (findingString_eq nonempty fits built).trans scanned, .inl missed⟩
    · exact ⟨r, (findingString_eq nonempty fits built).trans scanned,
        .inr ⟨position, found, after, room, occurs⟩⟩
  · exact ⟨-1, findingString_short fits, .inl rfl⟩

/-- The string, `?` standing for any character, lies in the other one at a place. -/
def LiesAt (lpszSour lpszFind : List UInt8) (position : Nat) : Prop :=
  position + lpszFind.length ≤ lpszSour.length ∧
    (sought lpszFind).OccursAt (charAt lpszSour) position

instance (lpszSour lpszFind : List UInt8) (position : Nat) :
    Decidable (LiesAt lpszSour lpszFind position) :=
  inferInstanceAs (Decidable (_ ∧ ∀ t < lpszFind.length, _ = true))

/-- What `FindingString` is to return: the first place from `nStart` on, or `-1`. -/
def FindsFirst (lpszSour lpszFind : List UInt8) (nStart : Nat) : Prop :=
  ∃ r, findingString lpszSour lpszFind nStart = some r ∧
    ((r = -1 ∧ ∀ position, nStart ≤ position → ¬ LiesAt lpszSour lpszFind position) ∨
      ∃ position : Nat, r = position ∧
        IsLeast {p | nStart ≤ p ∧ LiesAt lpszSour lpszFind p} position)

/-- Where no overlap is hidden, a string is found at its first occurrence. -/
theorem findsFirst_of_noHiddenOverlap (nonempty : lpszFind ≠ [])
    (visible : (sought lpszFind).NoHiddenOverlap (lpszSour.length - lpszFind.length)) :
    FindsFirst lpszSour lpszFind nStart := by
  have positive := List.length_pos_iff.mpr nonempty
  by_cases fits : nStart + lpszFind.length ≤ lpszSour.length
  · obtain ⟨next, built, borders⟩ := sought_table nonempty
    have covers := covers_of_noHiddenOverlap (sought_legible lpszFind) positive visible
      sought_follows_iff (fun i j skip => absurd skip Bool.false_ne_true) built
    have size : (sought lpszFind).length = lpszFind.length := rfl
    have never : NeverSkips (sought lpszFind) (charAt lpszSour) next nStart lpszSour.length :=
      neverSkips_of_covers (sought_entails borders) covers (by omega)
    obtain ⟨r, scanned, cursor, passed, ⟨missed, finished, invariant⟩ |
        ⟨position, found, after, aligned, room, occurs⟩⟩ :=
      findingPass_ends (Passed (sought lpszFind) (charAt lpszSour) nStart lpszSour.length) nonempty
        (by omega : nStart ≤ lpszSour.length) (sought_entails borders) .initial
        (fun cursor invariant passed => passed.step (sought_compares _ _) never invariant)
    · refine ⟨r, (findingString_eq nonempty fits built).trans scanned, .inl ⟨missed, ?_⟩⟩
      intro position after lies
      have room := lies.1
      have upper : cursor.j < lpszFind.length := invariant.upper
      refine passed position after ?_ room lies.2
      simp only [Cursor.alignment]
      omega
    · refine ⟨r, (findingString_eq nonempty fits built).trans scanned,
        .inr ⟨position, found, ⟨after, room, occurs⟩, ?_⟩⟩
      rintro earlier ⟨later, lies⟩
      by_contra before
      exact passed earlier later (by omega) lies.1 lies.2
  · refine ⟨-1, findingString_short fits, .inl ⟨rfl, fun position after lies => ?_⟩⟩
    have room := lies.1
    omega

/-- A string without `?` is found at its first occurrence from `nStart` on. -/
theorem findingString_first (lpszSour : List UInt8) (nStart : Nat) (nonempty : lpszFind ≠ [])
    (plain : 0x3F ∉ lpszFind) :
    ∃ r, findingString lpszSour lpszFind nStart = some r ∧
      ((r = -1 ∧ ∀ position, nStart ≤ position → ¬ lpszFind <+: lpszSour.drop position) ∨
        ∃ position : Nat, r = position ∧
          IsLeast {p | nStart ≤ p ∧ lpszFind <+: lpszSour.drop p} position) := by
  have finds : FindsFirst lpszSour lpszFind nStart :=
    findsFirst_of_noHiddenOverlap nonempty (sought_noHiddenOverlap plain _)
  simpa only [FindsFirst, LiesAt, ← sought_occursAt_iff plain nonempty] using finds

end IDAPlugins.FindCode
