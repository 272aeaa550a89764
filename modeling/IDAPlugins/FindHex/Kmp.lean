import IDAPlugins.FindHex.Element
import IDAPlugins.Machine
import IDAPlugins.Search.Completeness

namespace IDAPlugins.FindHex

open Machine Search

/-! # The masked search of one pattern

`kmp` encodes the pattern, builds the failure table over the codes and scans the
buffer from the start offset. Buffer and pattern are byte arrays; the table and
the codes are the two `int` arrays `kmp` allocates.
-/

def getnextBin (sub : Nat → Code) (subSize : Nat) : Option (Nat → Int) :=
  failureTable (fun i j => sub i == sub j || sub j == -1) (fun i j => sub i == sub j) subSize

def kmpBinPass (main : Nat → UInt8) (mainSize : Int) (sub : Nat → Code) (subSize : Nat)
    (next : Nat → Int) (cursor : Cursor) : Option (Loop.Pass Cursor Int) :=
  if (cursor.i : Int) < mainSize then
    if cursor.j = -1 ∨ accepts (main cursor.i) (sub cursor.j.toNat) = true then
      let i := cursor.i + 1
      let j := cursor.j + 1
      if j = subSize then
        some (.leave (i - j))
      else
        some (.again { i, j })
    else
      some (.again { cursor with j := next cursor.j.toNat })
  else
    some (.leave (-1))

def kmpBin (main : Nat → UInt8) (mainSize : Int) (sub : Nat → Code) (subSize : Nat)
    (next : Nat → Int) : Option Int :=
  Loop.run (kmpBinPass main mainSize sub subSize next) (2 * mainSize.toNat + 2) { i := 0, j := 0 }

/-- `lpSub`, zero past the elements of the pattern. -/
def lpSub (pattern : List UInt8) (nLen i : Nat) : Code :=
  if i < nLen then encodeElement (pattern.getD (i * 2) 0) (pattern.getD (i * 2 + 1) 0) else 0

def behind (matcher : List UInt8) (nStartPost : Int) (i : Nat) : UInt8 :=
  matcher.getD (nStartPost + i).toNat 0

def kmp (matcher : List UInt8) (mlen : Nat) (pattern : List UInt8) (plen : Nat)
    (nStartPost : Int) : Option Int := do
  let nLen := plen / 2
  let lpNext ← getnextBin (lpSub pattern nLen) nLen
  let iRet ← kmpBin (behind matcher nStartPost) (int32 (mlen - nStartPost)) (lpSub pattern nLen)
    nLen lpNext
  if iRet < 0 then
    some iRet
  else
    some (int32 (iRet + nStartPost))

theorem kmp_eq {matcher pattern : List UInt8} {mlen plen : Nat} {start r : Int} {next : Nat → Int}
    (built : getnextBin (lpSub pattern (plen / 2)) (plen / 2) = some next)
    (scanned : kmpBin (behind matcher start) (int32 (mlen - start)) (lpSub pattern (plen / 2))
      (plen / 2) next = some r) :
    kmp matcher mlen pattern plen start = some (if r < 0 then r else int32 (r + start)) := by
  simp only [kmp, built, scanned, Option.bind_eq_bind, Option.bind_some]
  split <;> rfl

def searched (sub : Nat → Code) (subSize : Nat) : Pattern UInt8 Code where
  length := subSize
  code := sub
  wild := -1
  agrees := accepts

variable {sub : Nat → Code} {subSize : Nat} {main : Nat → UInt8} {mainSize : Int}
variable {next : Nat → Int}

theorem follows_iff (i j : Nat) :
    (sub i == sub j || sub j == -1) = true ↔ (searched sub subSize).Follows i j := by
  simp only [Bool.or_eq_true, beq_iff_eq, Pattern.Follows, searched]

/-- A code equal to the other, or compared with `-1`, accepts at least as much. -/
theorem entails_of_follows (i j : Nat) (follows : (searched sub subSize).Follows i j) :
    (searched sub subSize).Entails i j := by
  intro byte accepted
  rcases follows with same | free
  · exact same ▸ accepted
  · rw [free]
    simp [searched, accepts]

theorem getnextBin_borders (sub : Nat → Code) (nonempty : 0 < subSize) :
    ∃ next, getnextBin sub subSize = some next ∧
      Borders (searched sub subSize).Follows subSize next :=
  failureTable_borders _ _ Pattern.Follows.trans (fun i j => (follows_iff i j).mp) nonempty

theorem kmpBinPass_more {cursor : Cursor} (more : (cursor.i : Int) < mainSize)
    (falls : next cursor.j.toNat ≠ subSize) :
    kmpBinPass main mainSize sub subSize next cursor =
      if (cursor.step (fun i j => accepts (main i) (sub j)) next).j = subSize then
        some (.leave (cursor.step (fun i j => accepts (main i) (sub j)) next).alignment)
      else
        some (.again (cursor.step (fun i j => accepts (main i) (sub j)) next)) := by
  rw [kmpBinPass, if_pos more]
  by_cases matched : cursor.j = -1 ∨ accepts (main cursor.i) (sub cursor.j.toNat) = true
  · rw [if_pos matched, Cursor.step_matched matched]
    rfl
  · rw [if_neg matched, Cursor.step_fallen matched, if_neg falls]

theorem compares_accepts (main : Nat → UInt8) :
    Compares (searched sub subSize) main (fun i j => accepts (main i) (sub j)) :=
  fun _ _ _ => rfl

/-- The scan ends, with `-1` after the whole buffer or at an occurrence; any
further fact that its steps keep holds of the cursor it ends with. -/
theorem kmpBin_ends (main : Nat → UInt8) (mainSize : Int) (Extra : Cursor → Prop)
    (nonempty : 0 < subSize)
    (borders : Borders (searched sub subSize).Entails subSize next)
    (initial : Extra { i := 0, j := 0 })
    (kept : ∀ cursor, ScanInvariant (searched sub subSize) main 0 cursor → Extra cursor →
      Extra (cursor.step (fun i j => accepts (main i) (sub j)) next)) :
    ∃ r, kmpBin main mainSize sub subSize next = some r ∧ ∃ cursor, Extra cursor ∧
      ((r = -1 ∧ mainSize ≤ cursor.i ∧ ScanInvariant (searched sub subSize) main 0 cursor) ∨
        ∃ position : Nat, r = position ∧ cursor.alignment = position ∧
          position + subSize ≤ mainSize ∧ (searched sub subSize).OccursAt main position) := by
  have sound : Loop.Sound (kmpBinPass main mainSize sub subSize next)
      (fun cursor => ScanInvariant (searched sub subSize) main 0 cursor ∧ Extra cursor)
      (Cursor.work mainSize.toNat)
      (fun r => ∃ cursor, Extra cursor ∧
        ((r = -1 ∧ mainSize ≤ cursor.i ∧ ScanInvariant (searched sub subSize) main 0 cursor) ∨
          ∃ position : Nat, r = position ∧ cursor.alignment = position ∧
            position + subSize ≤ mainSize ∧ (searched sub subSize).OccursAt main position)) := by
    rintro cursor ⟨invariant, extra⟩
    by_cases more : (cursor.i : Int) < mainSize
    · have upper : cursor.j < subSize := invariant.upper
      have entry := (borders cursor.j.toNat (by omega)).below
      have advanced := kept cursor invariant extra
      rw [kmpBinPass_more more (by omega)]
      rcases invariant.step (compares_accepts main) borders with
        ⟨inside, next⟩ | ⟨complete, position, -, aligned, reached, occurs⟩
      · exact .inl ⟨_, if_neg (Int.ne_of_lt inside), ⟨next, advanced⟩,
          invariant.step_work borders (by omega)⟩
      · have size : (searched sub subSize).length = subSize := rfl
        refine .inr ⟨_, if_pos complete, _, advanced, .inr ⟨position, aligned, aligned, ?_, occurs⟩⟩
        have index := congrArg (Int.ofNat) reached
        simp only [Cursor.alignment, complete, size] at aligned
        have moved := cursor.step_i_le (fun i j => accepts (main i) (sub j)) next
        omega
    · refine .inr ⟨-1, if_neg more, cursor, extra, .inl ⟨rfl, by omega, invariant⟩⟩
  exact Loop.run_total sound ⟨.initial nonempty, initial⟩ (by simp only [Cursor.work]; omega)

theorem kmpBin_first (nonempty : 0 < subSize)
    (borders : Borders (searched sub subSize).Entails subSize next)
    (never : NeverSkips (searched sub subSize) main next 0 mainSize.toNat) :
    ∃ r, kmpBin main mainSize sub subSize next = some r ∧
      ((r = -1 ∧ ∀ position : Nat, position + subSize ≤ mainSize →
          ¬ (searched sub subSize).OccursAt main position) ∨
        ∃ position : Nat, r = position ∧ position + subSize ≤ mainSize ∧
          (searched sub subSize).OccursAt main position ∧
          ∀ earlier < position, ¬ (searched sub subSize).OccursAt main earlier) := by
  have size : (searched sub subSize).length = subSize := rfl
  obtain ⟨r, result, cursor, passed, ⟨missed, finished, invariant⟩ |
      ⟨position, found, aligned, fits, occurs⟩⟩ :=
    kmpBin_ends main mainSize (Passed (searched sub subSize) main 0 mainSize.toNat) nonempty borders
      .initial
      (fun cursor invariant passed => passed.step (compares_accepts main) never invariant)
  · refine ⟨r, result, .inl ⟨missed, ?_⟩⟩
    intro position fits
    have upper : cursor.j < subSize := invariant.upper
    refine passed position (Nat.zero_le _) ?_ (by omega)
    simp only [Cursor.alignment]
    omega
  · refine ⟨r, result, .inr ⟨position, found, fits, occurs, ?_⟩⟩
    intro earlier before
    exact passed earlier (Nat.zero_le _) (by omega) (by omega)

end IDAPlugins.FindHex
