import IDAPlugins.PatchArm.AnalyzerStr

namespace IDAPlugins.PatchArm

open Machine

/-! # Where the branches go

The offsets of the branch table count the units of the lines before; what they mean
is the size of the text before. `drift` is what a line puts between the two.
-/

def Token.EndsInColon (p : Token) : Prop :=
  p.line.getLast? = some 0x3A

instance (p : Token) : Decidable p.EndsInColon :=
  inferInstanceAs (Decidable (_ = _))

def thumbBL (build : Build) (p : Token) : Bool :=
  (p.line.head? == some 0x42 || p.line.head? == some 0x62) && pairs build p

/-- What a line takes up in the assembled code, in units. -/
def units (build : Build) (p : Token) : Nat :=
  if p.line = [] ∨ p.EndsInColon then 0 else if thumbBL build p then 2 else 1

/-- The size of the code for a text, when `assembled` is the size for a line. -/
def textSize (assembled : List UInt8 → Nat) (text : List UInt8) : Nat :=
  ((text.splitOn 0x0A).map assembled).sum

/-- Blank lines, labels ending in `:`, and instructions of one unit, or two for a
Thumb `BL`. -/
structure UnitLines (build : Build) (lines : List Token) (assembled : List UInt8 → Nat) :
    Prop where
  empty : assembled [] = 0
  placeholder : assembled nop = build.unit
  known : ∀ p ∈ lines, assembled p.line = build.unit * units build p

/-- How far a line moves `sum` ahead of the code. A line of blanks counts as one. An
instruction with a `:` inside is taken for a label, and a Thumb `BL` that is copied
counts once. -/
def drift (build : Build) (env : Environment) (p : Token) : Int :=
  if p.line = [] then 1
  else if 0x3A ∈ p.line ∧ ¬ p.EndsInColon then -units build p
  else if lineKind build env p = some .copied ∧ thumbBL build p then -1
  else 0

def drifts (build : Build) (env : Environment) (lines : List Token) : Int :=
  (lines.map (drift build env)).sum

def offsetAfter (build : Build) (lines : List Token) : Nat :=
  build.unit * (lines.map (units build)).sum

/-- Every branch is recorded with the size of the text before its placeholder, and
every label bound to the address behind that text. -/
def Booked (build : Build) (env : Environment) (g_lvInfos : List LocalVarilInfo)
    (dwCurrentAddr : Nat) (assembled : List UInt8 → Nat) (lines : List Token)
    (final : Analysis) : Prop :=
  ∀ before p after, lines = before ++ p :: after →
    ∃ state, analyzeLines build env dwCurrentAddr (initial g_lvInfos) before = some state ∧
      (lineKind build env p = some .branch →
        ∃ entry, final.lpBLCountBuf[state.lpBLCountBuf.length]? = some entry ∧
          entry.nARMOffset = textSize assembled state.lpOutBuf ∧
          entry.dwSrc = dwCurrentAddr + textSize assembled state.lpOutBuf) ∧
      (p.EndsInColon →
        ∃ lviTmp, final.vlviTmp[state.vlviTmp.length]? = some lviTmp ∧
          lviTmp.szName = p.line.takeWhile (· != 0x3A) ∧
          lviTmp.dwAddr = dwCurrentAddr + textSize assembled state.lpOutBuf)

variable {build : Build} {env : Environment} {dwCurrentAddr : Nat} {assembled : List UInt8 → Nat}

theorem EndsInColon_mem {p : Token} (colon : p.EndsInColon) : 0x3A ∈ p.line :=
  List.mem_of_getLast? colon

theorem lineKind_blank {p : Token} (known : lineKind build env p = some .blank) : p.line = [] := by
  by_contra full
  rw [lineKind, if_neg full] at known
  split at known
  · cases known
  · split at known
    · rw [Option.map_eq_some_iff] at known
      obtain ⟨filtered, -, kind⟩ := known
      cases filtered <;> cases kind
    · cases known

theorem lineKind_label_iff {p : Token} : lineKind build env p = some .label ↔ 0x3A ∈ p.line := by
  by_cases empty : p.line = []
  · simp [lineKind, empty]
  · by_cases colon : 0x3A ∈ p.line
    · simp [lineKind, empty, colon]
    · refine iff_of_false (fun known => ?_) colon
      rw [lineKind, if_neg empty, if_neg colon] at known
      split at known
      · rw [Option.map_eq_some_iff] at known
        obtain ⟨filtered, -, kind⟩ := known
        cases filtered <;> cases kind
      · cases known

theorem lineKind_branch {p : Token} (known : lineKind build env p = some .branch) :
    p.line.head? = some 0x42 ∨ p.line.head? = some 0x62 := by
  unfold lineKind at known
  split at known
  · cases known
  · split at known
    · cases known
    · split at known
      · assumption
      · cases known

theorem thumbBL_branch {p : Token} (known : lineKind build env p = some .branch) :
    thumbBL build p = pairs build p := by
  rcases lineKind_branch known with head | head <;> rw [thumbBL, head] <;> rfl

theorem line_ne_nil {p : Token} {kind : LineKind} (known : lineKind build env p = some kind)
    (other : kind ≠ .blank) : p.line ≠ [] := by
  intro empty
  rw [lineKind, if_pos empty, Option.some.injEq] at known
  exact other known.symm

theorem colon_free {p : Token} {kind : LineKind} (known : lineKind build env p = some kind)
    (other : kind ≠ .label) : 0x3A ∉ p.line := by
  intro colon
  rw [lineKind_label_iff.mpr colon, Option.some.injEq] at known
  exact other known.symm

/-- What a line adds to `sum` is its units and its drift. -/
theorem counted_eq {p : Token} {kind : LineKind} (known : lineKind build env p = some kind) :
    counted build p kind = units build p + drift build env p := by
  cases kind with
  | blank =>
    have empty := lineKind_blank known
    simp [counted, units, drift, empty]
  | label =>
    have full := line_ne_nil known (by decide)
    have colon := lineKind_label_iff.mp known
    by_cases ends : p.EndsInColon
    · simp [counted, units, drift, full, known, ends]
    · simp [counted, drift, full, colon, ends]
  | copied =>
    have full := line_ne_nil known (by decide)
    have plain := colon_free known (by decide)
    have ends : ¬ p.EndsInColon := fun ends => plain (EndsInColon_mem ends)
    by_cases pair : thumbBL build p <;> simp [counted, units, drift, full, plain, ends, known, pair]
  | branch =>
    have full := line_ne_nil known (by decide)
    have plain := colon_free known (by decide)
    have ends : ¬ p.EndsInColon := fun ends => plain (EndsInColon_mem ends)
    have same := thumbBL_branch known
    by_cases pair : pairs build p <;>
      simp [counted, units, drift, full, plain, ends, known, same, pair]

theorem emitted_size {p : Token} {kind : LineKind} {lines : List Token}
    (premise : UnitLines build lines assembled) (member : p ∈ lines)
    (known : lineKind build env p = some kind) :
    ((emitted build p kind).map assembled).sum = build.unit * units build p := by
  cases kind with
  | blank =>
    have empty := lineKind_blank known
    simp [emitted, units, empty]
  | label | copied => simp [emitted, premise.known p member]
  | branch =>
    have full := line_ne_nil known (by decide)
    have ends : ¬ p.EndsInColon := fun ends =>
      colon_free known (by decide) (EndsInColon_mem ends)
    have same := thumbBL_branch known
    by_cases pair : pairs build p
    · simp [emitted, units, full, ends, same, pair, premise.placeholder, Nat.mul_two]
    · simp [emitted, units, full, ends, same, pair, premise.placeholder]

theorem emitted_plain {p : Token} (whole : ∀ ch ∈ p.text, isBreak ch = false) (kind : LineKind) :
    ∀ line ∈ emitted build p kind, 0x0A ∉ line := by
  have plain := line_break whole
  have filler : 0x0A ∉ nop := by decide
  cases kind with
  | blank => simp [emitted]
  | label | copied => simpa [emitted] using plain
  | branch =>
    simp only [emitted]
    split <;> simpa using filler

theorem textSize_unlines (lines : List (List UInt8)) (plain : ∀ line ∈ lines, 0x0A ∉ line) :
    textSize assembled (unlines lines) = (lines.map assembled).sum + assembled [] := by
  induction lines with
  | nil => simp [textSize, unlines]
  | cons line rest ih =>
    obtain ⟨first, others⟩ := List.forall_mem_cons.mp plain
    have tail := ih others
    unfold textSize unlines at tail ⊢
    rw [List.flatMap_cons, List.append_assoc, List.singleton_append,
      List.splitOn_append_cons_self_of_not_mem first, List.map_cons, List.sum_cons, tail,
      List.map_cons, List.sum_cons, Nat.add_assoc]

theorem unlines_append (first second : List (List UInt8)) :
    unlines (first ++ second) = unlines first ++ unlines second :=
  List.flatMap_append

/-- What the loop has written and counted behind some lines. -/
theorem analyzeLines_spec {lines before : List Token} {state final : Analysis}
    (premise : UnitLines build lines assembled)
    (whole : ∀ p ∈ lines, ∀ ch ∈ p.text, isBreak ch = false) (inside : ∀ p ∈ before, p ∈ lines)
    (ran : analyzeLines build env dwCurrentAddr state before = some final) :
    ∃ written, final.lpOutBuf = state.lpOutBuf ++ unlines written ∧
      (∀ line ∈ written, 0x0A ∉ line) ∧ (written.map assembled).sum = offsetAfter build before ∧
      final.sum = state.sum + (before.map (units build)).sum + drifts build env before := by
  induction before generalizing state with
  | nil =>
    rw [analyzeLines, Option.some.injEq] at ran
    refine ⟨[], ?_, ?_, ?_, ?_⟩ <;> simp [ran, unlines, offsetAfter, drifts]
  | cons p rest ih =>
    obtain ⟨first, others⟩ := List.forall_mem_cons.mp inside
    rw [analyzeLines_cons, Option.bind_eq_some_iff] at ran
    obtain ⟨kind, known, ran⟩ := ran
    obtain ⟨written, text, plain, size, sum⟩ := ih others ran
    refine ⟨emitted build p kind ++ written, ?_, ?_, ?_, ?_⟩
    · rw [text, afterLine, unlines_append, List.append_assoc]
    · intro line member
      rcases List.mem_append.mp member with head | tail
      · exact emitted_plain (whole p first) kind line head
      · exact plain line tail
    · rw [List.map_append, List.sum_append, emitted_size premise first known, size, offsetAfter,
        offsetAfter, List.map_cons, List.sum_cons, Nat.mul_add]
    · rw [sum, afterLine, counted_eq known]
      simp only [drifts, List.map_cons, List.sum_cons]
      omega

theorem analyzeLines_initial {lines before : List Token} {g_lvInfos : List LocalVarilInfo}
    {state : Analysis} (premise : UnitLines build lines assembled)
    (whole : ∀ p ∈ lines, ∀ ch ∈ p.text, isBreak ch = false) (inside : ∀ p ∈ before, p ∈ lines)
    (ran : analyzeLines build env dwCurrentAddr (initial g_lvInfos) before = some state) :
    textSize assembled state.lpOutBuf = offsetAfter build before ∧
      state.sum * build.unit = offsetAfter build before + build.unit * drifts build env before := by
  obtain ⟨written, text, plain, size, sum⟩ := analyzeLines_spec premise whole inside ran
  refine ⟨?_, ?_⟩
  · rw [text, initial, List.nil_append, textSize_unlines written plain, size, premise.empty,
      Nat.add_zero]
  · rw [sum, initial, offsetAfter, Int.zero_add, Int.add_mul, Int.natCast_mul,
      Int.mul_comm _ (build.unit : Int), Int.mul_comm _ (build.unit : Int)]

theorem analyzeLines_adds {before after : List Token} {p : Token}
    {g_lvInfos : List LocalVarilInfo} {final : Analysis}
    (ran : analyzeLines build env dwCurrentAddr (initial g_lvInfos) (before ++ p :: after) =
      some final) :
    ∃ state kind, analyzeLines build env dwCurrentAddr (initial g_lvInfos) before = some state ∧
      lineKind build env p = some kind ∧
      state.vlviTmp ++ labelOf build dwCurrentAddr state.sum p kind <+: final.vlviTmp ∧
      state.lpBLCountBuf ++ entryOf build dwCurrentAddr state.sum p kind <+:
        final.lpBLCountBuf := by
  rw [analyzeLines_append, Option.bind_eq_some_iff] at ran
  obtain ⟨state, first, ran⟩ := ran
  rw [analyzeLines_cons, Option.bind_eq_some_iff] at ran
  obtain ⟨kind, known, ran⟩ := ran
  obtain ⟨labels, entries⟩ := analyzeLines_extends after ran
  exact ⟨state, kind, first, known, labels, entries⟩

theorem getElem_behind {α : Type} {first whole : List α} {value : α}
    (start : first ++ [value] <+: whole) : whole[first.length]? = some value := by
  obtain ⟨rest, rfl⟩ := start
  rw [List.append_assoc, List.getElem?_append_right (Nat.le_refl _), Nat.sub_self]
  rfl

/-- The entry made by a branch line stays at its index. -/
theorem recorded_entry {before after : List Token} {p : Token} {g_lvInfos : List LocalVarilInfo}
    {earlier final : Analysis}
    (ran : analyzeLines build env dwCurrentAddr (initial g_lvInfos) (before ++ p :: after) =
      some final)
    (first : analyzeLines build env dwCurrentAddr (initial g_lvInfos) before = some earlier)
    (known : lineKind build env p = some .branch) :
    final.lpBLCountBuf[earlier.lpBLCountBuf.length]? =
      some { nARMOffset := armOffset build earlier.sum
             dwSrc := ((armOffset build earlier.sum + dwCurrentAddr) % 4294967296).toNat
             dwDes := 0
             lpRod := p.line } := by
  obtain ⟨state, kind, first', same, -, added⟩ := analyzeLines_adds ran
  rw [first, Option.some.injEq] at first'
  rw [known, Option.some.injEq] at same
  subst first' same
  exact getElem_behind added

/-- The label bound by a label line likewise. -/
theorem bound_label {before after : List Token} {p : Token} {g_lvInfos : List LocalVarilInfo}
    {earlier final : Analysis}
    (ran : analyzeLines build env dwCurrentAddr (initial g_lvInfos) (before ++ p :: after) =
      some final)
    (first : analyzeLines build env dwCurrentAddr (initial g_lvInfos) before = some earlier)
    (ends : p.EndsInColon) :
    final.vlviTmp[earlier.vlviTmp.length]? =
      some { szName := p.line.takeWhile (· != 0x3A)
             dwAddr := ((armOffset build earlier.sum + dwCurrentAddr) % build.addresses).toNat } := by
  obtain ⟨state, kind, first', same, added, -⟩ := analyzeLines_adds ran
  rw [first, Option.some.injEq] at first'
  rw [lineKind_label_iff.mpr (EndsInColon_mem ends), Option.some.injEq] at same
  subst first' same
  exact getElem_behind added

theorem units_le (build : Build) (p : Token) : build.unit * units build p ≤ 4 := by
  unfold units
  split
  · exact Nat.zero_le 4
  · cases build with
    | ea64 => simp [thumbBL, pairs, Build.unit]
    | ea32 g_nType =>
      cases g_nType with
      | arm => simp [thumbBL, pairs, Build.unit, unit]
      | thumb => split <;> simp [Build.unit, unit]

theorem unit_le (build : Build) : 0 < build.unit ∧ build.unit ≤ 4 := by
  rcases build with _ | _ | _ <;> decide

theorem drift_bounds (build : Build) (env : Environment) (p : Token) :
    -4 ≤ build.unit * drift build env p ∧ build.unit * drift build env p ≤ 4 := by
  have size := units_le build p
  have ⟨_, small⟩ := unit_le build
  unfold drift
  split
  · omega
  · split
    · rw [Int.mul_neg, ← Int.natCast_mul]
      omega
    · split <;> omega

theorem offsetAfter_le (build : Build) (lines : List Token) :
    offsetAfter build lines ≤ 4 * lines.length := by
  induction lines with
  | nil => simp [offsetAfter]
  | cons p rest ih =>
    have size := units_le build p
    simp only [offsetAfter, List.map_cons, List.sum_cons, Nat.mul_add, List.length_cons] at ih ⊢
    omega

theorem drifts_bounds (build : Build) (env : Environment) (lines : List Token) :
    -(4 * lines.length : Int) ≤ build.unit * drifts build env lines ∧
      build.unit * drifts build env lines ≤ 4 * lines.length := by
  induction lines with
  | nil => simp [drifts]
  | cons p rest ih =>
    have bounds := drift_bounds build env p
    simp only [drifts, List.map_cons, List.sum_cons, Int.mul_add, List.length_cons] at ih ⊢
    omega

/-- What is recorded for a branch is right when nothing lags and the address fits a
`DWORD`. -/
theorem branch_exact_iff {offset : Nat} {lag : Int} (lower : -4294967296 < lag)
    (upper : lag < 4294967296) :
    int32 (offset + lag) = offset ∧
        ((int32 (offset + lag) + dwCurrentAddr) % 4294967296).toNat = dwCurrentAddr + offset ↔
      lag = 0 ∧ offset < 2147483648 ∧ dwCurrentAddr + offset < 4294967296 := by
  unfold int32
  split <;> omega

/-- The address of a label is right when nothing lags and it fits an `ea_t`. -/
theorem label_exact_iff {offset : Nat} {lag : Int} (lower : -4294967296 < lag)
    (upper : lag < 4294967296) (small : offset < 4294967296)
    (address : dwCurrentAddr < build.addresses) :
    ((int32 (offset + lag) + dwCurrentAddr) % build.addresses).toNat = dwCurrentAddr + offset ↔
      lag = 0 ∧ (build = .ea64 → offset < 2147483648) ∧
        dwCurrentAddr + offset < build.addresses := by
  cases build with
  | ea64 =>
    simp only [Build.addresses, true_implies] at address ⊢
    unfold int32
    split <;> omega
  | ea32 g_nType =>
    simp only [Build.addresses, reduceCtorEq, false_implies, true_and] at address ⊢
    unfold int32
    split <;> omega

theorem mapM_isSome_iff {α β : Type} (f : α → Option β) (values : List α) :
    (values.mapM f).isSome ↔ ∀ value ∈ values, (f value).isSome := by
  induction values with
  | nil => simp
  | cons value rest ih =>
    rw [List.mapM_cons, List.forall_mem_cons, ← ih]
    cases f value with
    | none => simp
    | some result => cases rest.mapM f <;> simp

theorem resolve_keeps {vlviTmp : List LocalVarilInfo} {entries resolved : List BLArray}
    (ran : entries.mapM (resolve env vlviTmp) = some resolved) :
    resolved.map (fun entry => (entry.nARMOffset, entry.dwSrc)) =
      entries.map fun entry => (entry.nARMOffset, entry.dwSrc) := by
  induction entries generalizing resolved with
  | nil =>
    rw [List.mapM_nil] at ran
    cases ran
    rfl
  | cons entry rest ih =>
    rw [List.mapM_cons] at ran
    obtain ⟨first, head, ran⟩ := Option.bind_eq_some_iff.mp ran
    obtain ⟨others, tail, ran⟩ := Option.bind_eq_some_iff.mp ran
    cases ran
    obtain ⟨space, -, rfl⟩ := Option.map_eq_some_iff.mp head
    rw [List.map_cons, List.map_cons, ih tail]

theorem resolve_isSome {vlviTmp : List LocalVarilInfo} {entry : BLArray} :
    (resolve env vlviTmp entry).isSome ↔ 0x20 ∈ entry.lpRod := by
  rw [resolve, Option.isSome_map, List.isSome_idxOf?]

/-- The texts whose branches and labels come out right. No line makes a null pointer;
at every branch and every label the drifts of the lines before add up to zero, and the
address fits its field. -/
structure Level (build : Build) (env : Environment) (dwCurrentAddr : Nat) (lines : List Token) :
    Prop where
  reads : ∀ p ∈ lines, (lineKind build env p).isSome ∧
    (lineKind build env p = some .branch → 0x20 ∈ p.line)
  branch : ∀ before p after, lines = before ++ p :: after → lineKind build env p = some .branch →
    drifts build env before = 0 ∧ offsetAfter build before < 2147483648 ∧
      dwCurrentAddr + offsetAfter build before < 4294967296
  label : ∀ before p after, lines = before ++ p :: after → p.EndsInColon →
    drifts build env before = 0 ∧ (build = .ea64 → offsetAfter build before < 2147483648) ∧
      dwCurrentAddr + offsetAfter build before < build.addresses

section

variable {g_lvInfos : List LocalVarilInfo} {lines : List Token}

theorem lag_bounds (build : Build) (env : Environment) {before after : List Token} {p : Token}
    (small : 2 * lines.length ≤ 2147483648) (split : lines = before ++ p :: after) :
    -4294967296 < build.unit * drifts build env before ∧
      build.unit * drifts build env before < 4294967296 ∧
      offsetAfter build before < 4294967296 := by
  have count := congrArg List.length split
  rw [List.length_append, List.length_cons] at count
  have drift := drifts_bounds build env before
  have offset := offsetAfter_le build before
  omega

theorem lag_eq_zero {before : List Token} :
    build.unit * drifts build env before = 0 ↔ drifts build env before = 0 := by
  have ⟨positive, _⟩ := unit_le build
  rw [Int.mul_eq_zero]
  exact or_iff_right (by omega)

/-- The offset and address recorded for a branch line, against the text before it. -/
theorem branch_books_iff {before after : List Token} {p : Token} {state : Analysis}
    (small : 2 * lines.length ≤ 2147483648) (split : lines = before ++ p :: after)
    (premise : UnitLines build lines assembled)
    (whole : ∀ p ∈ lines, ∀ ch ∈ p.text, isBreak ch = false)
    (ran : analyzeLines build env dwCurrentAddr (initial g_lvInfos) before = some state) :
    armOffset build state.sum = textSize assembled state.lpOutBuf ∧
        ((armOffset build state.sum + dwCurrentAddr) % 4294967296).toNat =
          dwCurrentAddr + textSize assembled state.lpOutBuf ↔
      drifts build env before = 0 ∧ offsetAfter build before < 2147483648 ∧
        dwCurrentAddr + offsetAfter build before < 4294967296 := by
  have ⟨lower, upper, _⟩ := lag_bounds build env small split
  have ⟨size, sum⟩ := analyzeLines_initial premise whole
    (fun q member => split ▸ List.mem_append_left _ member) ran
  rw [armOffset, sum, size, branch_exact_iff lower upper, lag_eq_zero]

theorem label_books_iff {before after : List Token} {p : Token} {state : Analysis}
    (small : 2 * lines.length ≤ 2147483648) (split : lines = before ++ p :: after)
    (address : dwCurrentAddr < build.addresses) (premise : UnitLines build lines assembled)
    (whole : ∀ p ∈ lines, ∀ ch ∈ p.text, isBreak ch = false)
    (ran : analyzeLines build env dwCurrentAddr (initial g_lvInfos) before = some state) :
    ((armOffset build state.sum + dwCurrentAddr) % build.addresses).toNat =
        dwCurrentAddr + textSize assembled state.lpOutBuf ↔
      drifts build env before = 0 ∧ (build = .ea64 → offsetAfter build before < 2147483648) ∧
        dwCurrentAddr + offsetAfter build before < build.addresses := by
  have ⟨lower, upper, offset⟩ := lag_bounds build env small split
  have ⟨size, sum⟩ := analyzeLines_initial premise whole
    (fun q member => split ▸ List.mem_append_left _ member) ran
  rw [armOffset, sum, size, label_exact_iff lower upper offset address, lag_eq_zero]

theorem loops_isSome :
    (∃ state resolved,
        analyzeLines build env dwCurrentAddr (initial g_lvInfos) lines = some state ∧
          state.lpBLCountBuf.mapM (resolve env state.vlviTmp) = some resolved) ↔
      ∀ p ∈ lines, (lineKind build env p).isSome ∧
        (lineKind build env p = some .branch → 0x20 ∈ p.line) := by
  constructor
  · rintro ⟨state, resolved, ran, settled⟩ p member
    refine ⟨(analyzeLines_isSome lines).mp (Option.isSome_of_eq_some ran) p member, fun known => ?_⟩
    obtain ⟨before, after, rfl⟩ := List.append_of_mem member
    obtain ⟨earlier, kind, first, -⟩ := analyzeLines_adds ran
    have spaced := (mapM_isSome_iff _ _).mp (Option.isSome_of_eq_some settled) _
      (List.mem_of_getElem? (recorded_entry ran first known))
    exact resolve_isSome.mp spaced
  · intro reads
    have loop : (analyzeLines build env dwCurrentAddr (initial g_lvInfos) lines).isSome :=
      (analyzeLines_isSome lines).mpr fun p member => (reads p member).1
    obtain ⟨state, ran⟩ := Option.isSome_iff_exists.mp loop
    have spaced : (state.lpBLCountBuf.mapM (resolve env state.vlviTmp)).isSome := by
      refine (mapM_isSome_iff _ _).mpr fun entry member => resolve_isSome.mpr ?_
      obtain ⟨k, found⟩ := List.mem_iff_getElem?.mp member
      obtain ⟨before, p, after, earlier, rfl, known, first, rfl⟩ := analyzeLines_recorded lines ran
        (Nat.zero_le k) (List.getElem?_eq_some_iff.mp found).1
      rw [recorded_entry ran first known, Option.some.injEq] at found
      rw [← found]
      exact (reads p (List.mem_append_right _ List.mem_cons_self)).2 known
    obtain ⟨resolved, settled⟩ := Option.isSome_iff_exists.mp spaced
    exact ⟨state, resolved, ran, settled⟩

theorem resolved_entry {vlviTmp : List LocalVarilInfo} {entries resolved : List BLArray}
    (ran : entries.mapM (resolve env vlviTmp) = some resolved) {index : Nat} {entry : BLArray}
    (recorded : entries[index]? = some entry) :
    ∃ final, resolved[index]? = some final ∧ final.nARMOffset = entry.nARMOffset ∧
      final.dwSrc = entry.dwSrc := by
  have same := congrArg (·[index]?) (resolve_keeps ran)
  simp only [List.getElem?_map, recorded, Option.map_some, Option.map_eq_some_iff,
    Prod.mk.injEq] at same
  obtain ⟨final, found, offset, source⟩ := same
  exact ⟨final, found, offset, source⟩

theorem Level.of_booked {state : Analysis} {resolved : List BLArray}
    (small : 2 * lines.length ≤ 2147483648) (address : dwCurrentAddr < build.addresses)
    (premise : UnitLines build lines assembled)
    (whole : ∀ p ∈ lines, ∀ ch ∈ p.text, isBreak ch = false)
    (loop : analyzeLines build env dwCurrentAddr (initial g_lvInfos) lines = some state)
    (settled : state.lpBLCountBuf.mapM (resolve env state.vlviTmp) = some resolved)
    (booked : Booked build env g_lvInfos dwCurrentAddr assembled lines
      { state with lpBLCountBuf := resolved }) :
    Level build env dwCurrentAddr lines := by
  refine ⟨loops_isSome.mp ⟨state, resolved, loop, settled⟩, ?_, ?_⟩
  · intro before p after split known
    obtain ⟨earlier, first, entries, -⟩ := booked before p after split
    obtain ⟨entry, found, offset, source⟩ := entries known
    refine (branch_books_iff small split premise whole first).mp ?_
    obtain ⟨_, found', offset', source'⟩ := resolved_entry settled
      (recorded_entry (split ▸ loop) first known)
    rw [found, Option.some.injEq] at found'
    subst found'
    rw [← offset, ← source, offset', source']
    exact ⟨rfl, rfl⟩
  · intro before p after split ends
    obtain ⟨earlier, first, -, labels⟩ := booked before p after split
    obtain ⟨lviTmp, found, -, bound⟩ := labels ends
    refine (label_books_iff small split address premise whole first).mp ?_
    have recorded := bound_label (split ▸ loop) first ends
    have same := Option.some.inj (found.symm.trans recorded)
    rw [← bound, same]

theorem Level.booked {state : Analysis} {resolved : List BLArray}
    (level : Level build env dwCurrentAddr lines) (small : 2 * lines.length ≤ 2147483648)
    (address : dwCurrentAddr < build.addresses) (premise : UnitLines build lines assembled)
    (whole : ∀ p ∈ lines, ∀ ch ∈ p.text, isBreak ch = false)
    (loop : analyzeLines build env dwCurrentAddr (initial g_lvInfos) lines = some state)
    (settled : state.lpBLCountBuf.mapM (resolve env state.vlviTmp) = some resolved) :
    Booked build env g_lvInfos dwCurrentAddr assembled lines
      { state with lpBLCountBuf := resolved } := by
  intro before p after split
  obtain ⟨earlier, kind, first, -⟩ := analyzeLines_adds (split ▸ loop)
  refine ⟨earlier, first, fun known => ?_, fun ends => ?_⟩
  · obtain ⟨entry, found, offset, source⟩ := resolved_entry settled
      (recorded_entry (split ▸ loop) first known)
    have exact := (branch_books_iff small split premise whole first).mpr
      (level.branch before p after split known)
    exact ⟨entry, found, offset.trans exact.1, source.trans exact.2⟩
  · have exact := (label_books_iff small split address premise whole first).mpr
      (level.label before p after split ends)
    have recorded := bound_label (split ▸ loop) first ends
    exact ⟨_, recorded, rfl, exact⟩

end

/-- The offsets and addresses that `AnalyzerStr` keeps are those of the emitted text exactly
for the level texts. -/
theorem analyzerStr_books_iff {g_lvInfos : List LocalVarilInfo} {lpInData : List UInt8}
    (small : lpInData.length < 2147483648) (address : dwCurrentAddr < build.addresses)
    (premise : UnitLines build (strtok env.memory [] lpInData) assembled) :
    (∃ final, analyzerStr build env g_lvInfos lpInData dwCurrentAddr = some final ∧
        Booked build env g_lvInfos dwCurrentAddr assembled (strtok env.memory [] lpInData) final) ↔
      Level build env dwCurrentAddr (strtok env.memory [] lpInData) := by
  have count : 2 * (strtok env.memory [] lpInData).length ≤ 2147483648 := by
    have := strtok_length env.memory lpInData []
    simp only [if_true] at this
    omega
  have whole := strtok_break env.memory lpInData [] (by simp)
  constructor
  · rintro ⟨final, ran, booked⟩
    obtain ⟨state, loop, ran⟩ := Option.bind_eq_some_iff.mp ran
    obtain ⟨resolved, settled, ran⟩ := Option.bind_eq_some_iff.mp ran
    cases ran
    exact Level.of_booked count address premise whole loop settled booked
  · intro level
    obtain ⟨state, resolved, loop, settled⟩ := loops_isSome.mpr level.reads
    refine ⟨{ state with lpBLCountBuf := resolved }, ?_,
      level.booked count address premise whole loop settled⟩
    exact Option.bind_eq_some_iff.mpr
      ⟨state, loop, Option.bind_eq_some_iff.mpr ⟨resolved, settled, rfl⟩⟩

theorem forall_split {lines : List Token} {holds : List Token → Token → Prop}
    (each : ∀ i (bound : i < lines.length), holds (lines.take i) lines[i]) :
    ∀ before p after, lines = before ++ p :: after → holds before p := by
  rintro before p after rfl
  have here := each before.length (by simp)
  rwa [List.take_left' rfl, List.getElem_append_right (Nat.le_refl _), getElem_congr_idx
    (Nat.sub_self _), List.getElem_cons_zero] at here

def bareEnvironment : Environment :=
  { memory := fun _ => 0, rows := fun _ => [], get_name_ea := fun _ => 0 }

/-- An assembler for ARM code, with 4 bytes for every instruction. -/
def armSize (line : List UInt8) : Nat :=
  if line = [] ∨ line.getLast? = some 0x3A then 0 else 4

theorem analyzerStr_books_loop :
    ∃ final, analyzerStr (.ea32 .arm) bareEnvironment []
        [0x4C, 0x3A, 0x0D, 0x0A, 0x6D, 0x6F, 0x76, 0x0D, 0x0A, 0x62, 0x20, 0x4C] 0x8000 =
          some final ∧
      Booked (.ea32 .arm) bareEnvironment [] 0x8000 armSize
        (strtok (fun _ => 0) []
          [0x4C, 0x3A, 0x0D, 0x0A, 0x6D, 0x6F, 0x76, 0x0D, 0x0A, 0x62, 0x20, 0x4C]) final := by
  refine (analyzerStr_books_iff (by decide) (by decide) ⟨rfl, rfl, by decide⟩).mpr
    ⟨by decide, ?_, ?_⟩
  · exact forall_split (by decide)
  · exact forall_split (by decide)

/-- A line of one blank before `b L`. -/
theorem analyzerStr_books_fails : ¬ ∀ (build : Build) (env : Environment)
    (g_lvInfos : List LocalVarilInfo) (lpInData : List UInt8) (dwCurrentAddr : Nat)
    (assembled : List UInt8 → Nat), lpInData.length < 2147483648 →
      dwCurrentAddr < build.addresses →
      UnitLines build (strtok env.memory [] lpInData) assembled →
        ∃ final, analyzerStr build env g_lvInfos lpInData dwCurrentAddr = some final ∧
          Booked build env g_lvInfos dwCurrentAddr assembled
            (strtok env.memory [] lpInData) final := by
  intro right
  obtain ⟨final, ran, booked⟩ := right (.ea32 .arm) bareEnvironment []
    [0x20, 0x0A, 0x62, 0x20, 0x4C] 0x8000 armSize (by decide) (by decide)
    ⟨rfl, rfl, by decide⟩
  obtain ⟨state, first, entries, -⟩ := booked [_] _ [] rfl
  obtain ⟨entry, found, offset, -⟩ := entries (by decide)
  cases ran
  cases first
  cases found
  exact absurd offset (by decide)

end IDAPlugins.PatchArm
