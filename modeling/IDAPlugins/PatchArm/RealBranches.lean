import IDAPlugins.PatchArm.Buffers

namespace IDAPlugins.PatchArm

/-! # Which lines are branches

`AnalyzerStr` takes every line that begins with a `b` for a branch unless its register
test says otherwise. The test looks for an `r` in the mnemonic (64-bit build) or counts
the letters of the operand (32-bit build).
-/

/-- What stands behind the labels at the start of a text, each a word up to its colon.
`word` is what has been read of the next one. -/
def behindLabels : List UInt8 → List UInt8 → List UInt8
  | word, [] => word
  | word, ch :: rest =>
    if ch = 0x3A then behindLabels [] rest
    else if isBlank ch = true ∧ word = [] then behindLabels [] rest
    else if isBlank ch then word ++ ch :: rest
    else behindLabels (word ++ [ch]) rest

/-- The instruction of a line, where there is one. -/
def Token.statement (p : Token) : List UInt8 :=
  behindLabels [] p.line

/-- What an assembler reads: a mnemonic up to the first blank, and an operand. -/
def word (line : List UInt8) : List UInt8 :=
  line.takeWhile (!isBlank ·)

def lower (ch : UInt8) : UInt8 :=
  if isUpper ch then ch + 0x20 else ch

def operandName (line : List UInt8) : List UInt8 :=
  ((line.dropWhile (!isBlank ·)).filter (!isBlank ·)).map lower

/-- `b`, `bl` and `blx` -/
def stems : List (List UInt8) :=
  [[0x62], [0x62, 0x6C], [0x62, 0x6C, 0x78]]

/-- `eq`, `ne`, `cs`, `hs`, `cc`, `lo`, `mi`, `pl`, `vs`, `vc`, `hi`, `ls`, `ge`, `lt`, `gt`,
`le` and `al` -/
def conditions : List (List UInt8) :=
  [[0x65, 0x71], [0x6E, 0x65], [0x63, 0x73], [0x68, 0x73], [0x63, 0x63], [0x6C, 0x6F],
    [0x6D, 0x69], [0x70, 0x6C], [0x76, 0x73], [0x76, 0x63], [0x68, 0x69], [0x6C, 0x73],
    [0x67, 0x65], [0x6C, 0x74], [0x67, 0x74], [0x6C, 0x65], [0x61, 0x6C]]

/-- A stem, with a condition behind it or behind a dot where there is one. -/
def branchMnemonic (mnemonic : List UInt8) : Bool :=
  stems.any fun stem =>
    mnemonic == stem ||
      conditions.any fun code => mnemonic == stem ++ code || mnemonic == stem ++ 0x2E :: code

/-- A branch relative to the program counter. `register` tells the names of registers. -/
def RealBranch (register : List UInt8 → Bool) (statement : List UInt8) : Prop :=
  branchMnemonic ((word statement).map lower) = true ∧ register (operandName statement) = false

instance (register : List UInt8 → Bool) (statement : List UInt8) :
    Decidable (RealBranch register statement) :=
  inferInstanceAs (Decidable (_ ∧ _))

/-- Placeholders are written for the line, and it is recorded. -/
def Replaced (state next : Analysis) (p : Token) : Prop :=
  (∃ count, 0 < count ∧ next.lpOutBuf = state.lpOutBuf ++ unlines (List.replicate count nop)) ∧
    ∃ entry, entry.lpRod = p.line ∧ next.lpBLCountBuf = state.lpBLCountBuf ++ [entry]

def Copied (state next : Analysis) (p : Token) : Prop :=
  next.lpOutBuf = state.lpOutBuf ++ unlines [p.line] ∧ next.lpBLCountBuf = state.lpBLCountBuf

/-- The run returns, and of its instruction lines exactly the branches are replaced, also
behind a label or with a colon in what follows. -/
def RewritesBranches (build : Build) (env : Environment) (register : List UInt8 → Bool)
    (g_lvInfos : List LocalVarilInfo) (lpInData : List UInt8) (dwCurrentAddr : Nat) : Prop :=
  (analyzerStr build env g_lvInfos lpInData dwCurrentAddr).isSome ∧
    ∀ before p after, strtok env.memory [] lpInData = before ++ p :: after → p.statement ≠ [] →
      ∃ state next, analyzeLines build env dwCurrentAddr (initial g_lvInfos) before = some state ∧
        analyzeLines build env dwCurrentAddr (initial g_lvInfos) (before ++ [p]) = some next ∧
        if RealBranch register p.statement then Replaced state next p else Copied state next p

/-- The test finds an `r` or `R` for the letter at an index of the mnemonic. It takes the
letter further behind by the indentation, and its case from the letter itself. -/
def TestsR (p : Token) (k : Nat) : Prop :=
  k < (word p.line).length ∧
    p.read (p.indent + (p.indent + k)) = if isUpper (p.line.getD k 0) then 0x52 else 0x72

/-- Two or three letters stand behind the first space, and a line indented by 15 or more
is not taken out by what lies behind the table of registers. -/
def FewLetters (env : Environment) (p : Token) : Prop :=
  let letters := ((p.line.dropWhile (· != 0x20)).filter (!isBlank ·)).length
  (letters = 2 ∨ letters = 3) ∧ (p.indent < 15 ∨ registerOperand env p = some true)

/-- What the register test asks of a line that begins with a `b`. -/
def Recognised (build : Build) (env : Environment) (real : Prop) (p : Token) : Prop :=
  match build with
  | .ea64 => (real → 0x20 ∈ p.line ∧ ¬TestsR p 1 ∧ ¬TestsR p 2) ∧ (¬real → TestsR p 1 ∨ TestsR p 2)
  | .ea32 _ => 0x20 ∈ p.line ∧ (real ↔ ¬FewLetters env p)

/-- A line with a colon is taken for a label, whatever it holds; of the others a line that
begins with a `b` is told by the register test. -/
def Recognises (build : Build) (env : Environment) (register : List UInt8 → Bool) (p : Token) :
    Prop :=
  if 0x3A ∈ p.line then ¬RealBranch register p.statement
  else p.line.head? = some 0x42 ∨ p.line.head? = some 0x62 →
    Recognised build env (RealBranch register p.statement) p

variable {build : Build} {env : Environment} {dwCurrentAddr : Nat} {p : Token}

theorem add_eq_r (ch : UInt8) : ch + 0x20 = 0x72 ↔ ch = 0x52 := by
  constructor
  · intro same
    have back := congrArg (· - (0x20 : UInt8)) same
    rw [UInt8.add_sub_cancel] at back
    exact back
  · rintro rfl
    rfl

theorem registerMnemonic_iff (p : Token) :
    registerMnemonic p = true ↔ TestsR p 1 ∨ TestsR p 2 := by
  have letter (k : Nat) (positive : 0 < k) :
      (((List.range (word p.line).length).map fun ii =>
          if isUpper (p.line.getD ii 0) then p.read (p.indent + (p.indent + ii)) + 0x20
          else p.read (p.indent + (p.indent + ii))).getD k 0 == 0x72) = true ↔ TestsR p k := by
    rw [beq_iff_eq, List.getD_eq_getElem?_getD, List.getElem?_map, TestsR]
    by_cases inside : k < (word p.line).length
    · rw [List.getElem?_range inside, Option.map_some, Option.getD_some]
      simp only [inside, true_and]
      split
      · exact add_eq_r _
      · rfl
    · rw [List.getElem?_eq_none (by rw [List.length_range]; exact Nat.le_of_not_lt inside)]
      simp [inside]
  rw [registerMnemonic]
  simp only [Bool.or_eq_true]
  exact or_congr (letter 1 (by decide)) (letter 2 (by decide))

/-- The first two letters of a register are never one letter in two cases. -/
theorem registers_mixed : ∀ row ∈ szFilterRegTables,
    2 ≤ row.length ∧ row.getD 0 0 ≠ row.getD 1 0 ∧ row.getD 0 0 + 0x20 ≠ row.getD 1 0 ∧
      row.getD 0 0 ≠ row.getD 1 0 + 0x20 :=
  List.forall_iff_forall_mem.mp (by decide)

/-- A text of one letter in both cases is no register. -/
theorem row_ne {szBuf : List UInt8} {ch : UInt8}
    (letters : ∀ letter ∈ szBuf, letter = ch ∨ letter = ch + 0x20) {row : List UInt8}
    (listed : row ∈ szFilterRegTables) : szBuf.takeWhile (· != 0) ≠ row := by
  intro same
  obtain ⟨two, apart, up, down⟩ := registers_mixed row listed
  have inside (k : Nat) (bound : k < row.length) : row.getD k 0 ∈ szBuf := by
    rw [List.getD_eq_getElem _ _ bound]
    apply (List.takeWhile_prefix (· != 0)).subset
    rw [same]
    exact List.getElem_mem bound
  rcases letters _ (inside 0 (by omega)) with first | first <;>
    rcases letters _ (inside 1 (by omega)) with second | second <;>
    rw [first, second] at apart up down
  · exact apart rfl
  · exact up rfl
  · exact down rfl
  · exact apart rfl

theorem registerOperand_iff (env : Environment) (p : Token) :
    registerOperand env p = some true ↔ 0x20 ∈ p.line ∧ FewLetters env p := by
  cases found : p.line.idxOf? 0x20 with
  | none =>
    have absent : 0x20 ∉ p.line := List.idxOf?_eq_none_iff.mp found
    have crashes : registerOperand env p = none := by rw [registerOperand, found, Option.map_none]
    rw [crashes]
    exact iff_of_false (Option.some_ne_none true).symm fun both => absent both.1
  | some space =>
    have spaced : 0x20 ∈ p.line := List.isSome_idxOf?.mp (Option.isSome_of_eq_some found)
    obtain ⟨inside, there, -⟩ := List.idxOf?_eq_some_iff.mp found
    have count : ((p.line.dropWhile (· != 0x20)).filter (!isBlank ·)).length =
        ((p.line.drop (space + 1)).filter (!isBlank ·)).length := by
      rw [← drop_idxOf? found, List.drop_eq_getElem_cons inside, there,
        List.filter_cons_of_neg (by decide)]
    rw [FewLetters, count]
    simp only [spaced, true_and]
    constructor
    · intro keeps
      refine ⟨?_, Or.inr keeps⟩
      rw [registerOperand, found, Option.map_some, Option.some.injEq, Bool.and_eq_true,
        decide_eq_true_eq, List.length_map] at keeps
      omega
    · intro letters
      obtain ⟨few, shallow | keeps⟩ := letters
      · rw [registerOperand, found, Option.map_some, Option.some.injEq, Bool.and_eq_true,
          decide_eq_true_eq, List.length_map, bne_iff_ne]
        refine ⟨by omega, ?_⟩
        have row : szFilterRegTables.getD p.indent (env.rows (p.indent - szFilterRegTables.length)) ∈
            szFilterRegTables := by
          rw [List.getD_eq_getElem _ _ shallow]
          exact List.getElem_mem shallow
        apply @row_ne _ (p.read (p.indent + (space + 1) + p.indent)) _ _ row
        intro letter member
        obtain ⟨original, -, rfl⟩ := List.mem_map.mp member
        split
        · exact Or.inr rfl
        · exact Or.inl rfl
      · exact keeps

theorem full_of_head (head : p.line.head? = some 0x42 ∨ p.line.head? = some 0x62) :
    p.line ≠ [] := by
  intro empty
  simp [empty] at head

theorem lower_eq_b {ch : UInt8} (same : lower ch = 0x62) : ch = 0x42 ∨ ch = 0x62 := by
  rw [lower] at same
  split at same
  · left
    have back := congrArg (· - (0x20 : UInt8)) same
    rw [UInt8.add_sub_cancel] at back
    exact back
  · exact Or.inr same

/-- Every mnemonic of a branch begins with a `b`. -/
theorem branchMnemonic_head {mnemonic : List UInt8} (branch : branchMnemonic mnemonic = true) :
    mnemonic.head? = some 0x62 := by
  have heads : ∀ stem ∈ stems, stem.head? = some 0x62 :=
    List.forall_iff_forall_mem.mp (by decide)
  have append (stem rest : List UInt8) (member : stem ∈ stems) :
      (stem ++ rest).head? = some 0x62 := by
    rw [List.head?_append, heads stem member]
    rfl
  obtain ⟨stem, member, alone⟩ := List.any_eq_true.mp branch
  rw [Bool.or_eq_true] at alone
  rcases alone with plain | coded
  · rw [eq_of_beq plain]
    exact heads stem member
  · obtain ⟨code, -, either⟩ := List.any_eq_true.mp coded
    rw [Bool.or_eq_true] at either
    rcases either with joined | dotted
    · rw [eq_of_beq joined]
      exact append stem code member
    · rw [eq_of_beq dotted]
      exact append stem _ member

theorem behindLabels_plain {text : List UInt8} (plain : 0x3A ∉ text) {read : List UInt8}
    (begun : read ≠ []) : behindLabels read text = read ++ text := by
  induction text generalizing read with
  | nil => rw [behindLabels, List.append_nil]
  | cons ch rest ih =>
    obtain ⟨other, plain⟩ := not_or.mp (mt List.mem_cons.mpr plain)
    rw [behindLabels, if_neg (Ne.symm other), if_neg fun both => begun both.2]
    split
    · rfl
    · rw [ih plain (List.append_ne_nil_of_right_ne_nil _ (List.cons_ne_nil ch [])),
        List.append_assoc, List.singleton_append]

/-- A line without a colon is an instruction as a whole. -/
theorem statement_plain (plain : 0x3A ∉ p.line) : p.statement = p.line := by
  rw [Token.statement]
  cases line : p.line with
  | nil => rfl
  | cons ch rest =>
    have letter : isBlank ch = false := by
      have head := List.head?_dropWhile_not isBlank p.text
      rw [← Token.line, line] at head
      simpa using head
    rw [line] at plain
    obtain ⟨other, plain⟩ := not_or.mp (mt List.mem_cons.mpr plain)
    rw [behindLabels, if_neg (Ne.symm other), if_neg (by simp [letter]), if_neg (by simp [letter]),
      List.nil_append, behindLabels_plain plain (List.cons_ne_nil ch []), List.singleton_append]

theorem line_of_statement (instruction : p.statement ≠ []) : p.line ≠ [] := by
  intro empty
  rw [Token.statement, empty] at instruction
  exact instruction rfl

theorem statement_of_real {register : List UInt8 → Bool} {statement : List UInt8}
    (real : RealBranch register statement) : statement ≠ [] := by
  rintro rfl
  exact absurd real.1 (by decide)

theorem RealBranch.head {register : List UInt8 → Bool} (plain : 0x3A ∉ p.line)
    (real : RealBranch register p.statement) :
    p.line.head? = some 0x42 ∨ p.line.head? = some 0x62 := by
  rw [statement_plain plain] at real
  have first := branchMnemonic_head real.1
  rw [List.head?_map, Option.map_eq_some_iff] at first
  obtain ⟨ch, start, same⟩ := first
  have head : p.line.head? = some ch := by
    rw [word] at start
    cases line : p.line with
    | nil => rw [line] at start; exact nomatch start
    | cons letter rest =>
      rw [line, List.takeWhile_cons] at start
      split at start
      · exact start
      · exact nomatch start
  rw [head]
  rcases lower_eq_b same with rfl | rfl
  · exact Or.inl rfl
  · exact Or.inr rfl

/-- What becomes of an instruction line is told by its kind. -/
theorem fate_iff {register : List UInt8 → Bool} {state : Analysis} {kind : LineKind}
    (known : lineKind build env p = some kind) (full : p.line ≠ []) :
    (if RealBranch register p.statement then
        Replaced state (afterLine build dwCurrentAddr state p kind) p
      else Copied state (afterLine build dwCurrentAddr state p kind) p) ↔
        (kind = .branch ↔ RealBranch register p.statement) := by
  have copy : ¬(afterLine build dwCurrentAddr state p .branch).lpBLCountBuf = state.lpBLCountBuf := by
    intro same
    have length := congrArg List.length same
    rw [afterLine, List.length_append] at length
    exact absurd length (by simp [entryOf])
  have kept (other : kind = .label ∨ kind = .copied) :
      (if RealBranch register p.statement then
          Replaced state (afterLine build dwCurrentAddr state p kind) p
        else Copied state (afterLine build dwCurrentAddr state p kind) p) ↔
          (kind = .branch ↔ RealBranch register p.statement) := by
    have table : (afterLine build dwCurrentAddr state p kind).lpBLCountBuf = state.lpBLCountBuf := by
      rcases other with rfl | rfl <;> exact List.append_nil _
    have text : emitted build p kind = [p.line] := by
      rcases other with rfl | rfl <;> rfl
    have plain : kind ≠ .branch := by
      rcases other with rfl | rfl <;> decide
    by_cases real : RealBranch register p.statement
    · rw [if_pos real]
      refine iff_of_false (fun replaced => ?_) fun same => plain (same.mpr real)
      obtain ⟨entry, -, added⟩ := replaced.2
      have length := congrArg List.length (table.symm.trans added)
      rw [List.length_append] at length
      exact absurd length (by simp)
    · rw [if_neg real]
      exact iff_of_true ⟨by rw [afterLine, text], table⟩ (iff_of_false plain real)
  cases kind with
  | blank => exact absurd (lineKind_blank known) full
  | label => exact kept (.inl rfl)
  | copied => exact kept (.inr rfl)
  | branch =>
    by_cases real : RealBranch register p.statement
    · rw [if_pos real]
      refine iff_of_true ⟨?_, ⟨_, rfl, rfl⟩⟩ (iff_of_true rfl real)
      by_cases pair : pairs build p
      · exact ⟨2, by decide, by simp [afterLine, emitted, pair]⟩
      · exact ⟨1, by decide, by simp [afterLine, emitted, pair]⟩
    · rw [if_neg real]
      exact iff_of_false (fun copied => copy copied.2) fun same => real (same.mp rfl)

/-- A line that begins with a `b` gets through with the kind it should have exactly when
the register test asks nothing else of it. -/
theorem recognised_iff (real : Prop) (plain : 0x3A ∉ p.line)
    (head : p.line.head? = some 0x42 ∨ p.line.head? = some 0x62) :
    Recognised build env real p ↔
      ∃ kind, lineKind build env p = some kind ∧ (kind = .branch → 0x20 ∈ p.line) ∧
        (kind = .branch ↔ real) := by
  have full := full_of_head head
  have kinds : lineKind build env p =
      (registerBranch build env p).map fun filtered => if filtered then .copied else .branch := by
    rw [lineKind, if_neg full, if_neg plain, if_pos head]
  rw [kinds]
  cases build with
  | ea64 =>
    have test := registerMnemonic_iff p
    rw [Recognised, registerBranch, Option.map_some]
    simp only [Option.some.injEq, exists_eq_left', ← not_or, ← test]
    by_cases keeps : registerMnemonic p = true
    · simp only [keeps, if_true, reduceCtorEq, false_iff, not_true_eq_false, and_false, imp_false,
        imp_true_iff, and_true, true_and, false_imp_iff]
    · simp only [keeps, Bool.false_eq_true, if_false, true_iff, not_false_eq_true, and_true,
        imp_false, not_not, true_imp_iff]
      exact ⟨fun both => ⟨both.1 both.2, both.2⟩, fun both => ⟨fun _ => both.1, both.2⟩⟩
  | ea32 g_nType =>
    have test := registerOperand_iff env p
    rw [Recognised, registerBranch]
    cases found : registerOperand env p with
    | none =>
      have absent : 0x20 ∉ p.line := by
        rw [registerOperand, Option.map_eq_none_iff, List.idxOf?_eq_none_iff] at found
        exact found
      refine iff_of_false (fun both => absent both.1) fun passes => ?_
      obtain ⟨kind, known, -⟩ := passes
      cases known
    | some keeps =>
      have spaced : 0x20 ∈ p.line := by
        have tested := Option.isSome_of_eq_some found
        rw [registerOperand, Option.isSome_map, List.isSome_idxOf?] at tested
        exact tested
      rw [found] at test
      simp only [spaced, true_and, Option.some.injEq] at test
      simp only [spaced, true_and, imp_true_iff, Option.map_some, Option.some.injEq,
        exists_eq_left', ← test]
      cases keeps with
      | true => simp
      | false => simp

/-- A line that begins with another letter is neither recorded nor a branch. -/
theorem recognises_iff {register : List UInt8 → Bool} (full : p.line ≠ []) :
    Recognises build env register p ↔
      ∃ kind, lineKind build env p = some kind ∧ (kind = .branch → 0x20 ∈ p.line) ∧
        (kind = .branch ↔ RealBranch register p.statement) := by
  rw [Recognises]
  by_cases colon : 0x3A ∈ p.line
  · rw [if_pos colon, lineKind_label_iff.mpr colon]
    simp
  · rw [if_neg colon]
    by_cases head : p.line.head? = some 0x42 ∨ p.line.head? = some 0x62
    · exact (imp_iff_right head).trans (recognised_iff _ colon head)
    · refine iff_of_true (fun start => absurd start head) ⟨.copied, ?_, ?_, ?_⟩
      · rw [lineKind, if_neg full, if_neg colon, if_neg head]
      · exact fun branch => absurd branch (by decide)
      · exact iff_of_false (by decide) fun real => head (real.head colon)

theorem recognises_blank {register : List UInt8 → Bool} (empty : p.line = []) :
    Recognises build env register p := by
  rw [Recognises, empty, if_neg List.not_mem_nil]
  rintro (head | head) <;> cases head

theorem reads_of_recognises {register : List UInt8 → Bool}
    (recognises : Recognises build env register p) :
    (lineKind build env p).isSome ∧ (lineKind build env p = some .branch → 0x20 ∈ p.line) := by
  by_cases full : p.line = []
  · rw [lineKind, if_pos full]
    exact ⟨rfl, fun branch => absurd branch (by decide)⟩
  · obtain ⟨kind, known, spaced, -⟩ := (recognises_iff full).mp recognises
    rw [known]
    exact ⟨rfl, fun branch => spaced (Option.some.inj branch)⟩

/-- Exactly the branches of a text are replaced when no line with a colon holds one and the
register test recognises every other line that begins with a `b`. -/
theorem analyzerStr_rewrites_iff (build : Build) (env : Environment)
    (register : List UInt8 → Bool) (g_lvInfos : List LocalVarilInfo) (lpInData : List UInt8)
    (dwCurrentAddr : Nat) :
    RewritesBranches build env register g_lvInfos lpInData dwCurrentAddr ↔
      ∀ p ∈ strtok env.memory [] lpInData, Recognises build env register p := by
  rw [RewritesBranches, analyzerStr_isSome_iff]
  constructor
  · intro rewrites p member
    obtain ⟨reads, fates⟩ := rewrites
    by_cases full : p.line = []
    · exact recognises_blank full
    rw [recognises_iff full]
    obtain ⟨through, spaced⟩ := reads p member
    obtain ⟨kind, known⟩ := Option.isSome_iff_exists.mp through
    refine ⟨kind, known, fun branch => spaced (branch ▸ known), ?_⟩
    by_cases instruction : p.statement = []
    · have colon : 0x3A ∈ p.line := by
        by_contra plain
        exact full (statement_plain plain ▸ instruction)
      rw [lineKind_label_iff.mpr colon, Option.some.injEq] at known
      exact iff_of_false (fun branch => nomatch known.trans branch)
        fun real => statement_of_real real instruction
    · obtain ⟨before, after, split⟩ := List.append_of_mem member
      obtain ⟨state, next, first, ran, fate⟩ := fates before p after split instruction
      rw [analyzeLines_append, first, Option.bind_some, analyzeLines_cons, known, Option.bind_some,
        analyzeLines, Option.some.injEq] at ran
      rwa [← ran, fate_iff known full] at fate
  · intro recognises
    have reads (p : Token) (member : p ∈ strtok env.memory [] lpInData) :=
      reads_of_recognises (recognises p member)
    refine ⟨reads, fun before p after split instruction => ?_⟩
    have member : p ∈ strtok env.memory [] lpInData :=
      split ▸ List.mem_append_right _ List.mem_cons_self
    have full := line_of_statement instruction
    obtain ⟨kind, known, -, right⟩ := (recognises_iff full).mp (recognises p member)
    obtain ⟨state, first⟩ := @analyzeLines_ran build env dwCurrentAddr before
      (fun q inside => (reads q (split ▸ List.mem_append_left _ inside)).1) (initial g_lvInfos)
    refine ⟨state, afterLine build dwCurrentAddr state p kind, first, ?_, ?_⟩
    · rw [analyzeLines_append, first, Option.bind_some, analyzeLines_cons, known, Option.bind_some,
        analyzeLines]
    · exact (fate_iff known full).mpr right

/-- `bic r0, r1` -/
def clearBits : List UInt8 :=
  [0x62, 0x69, 0x63, 0x20, 0x72, 0x30, 0x2C, 0x20, 0x72, 0x31]

/-- Both builds replace and record an instruction that is no branch. -/
theorem analyzerStr_clearBits :
    (¬RewritesBranches .ea64 bareEnvironment szFilterRegTables.contains [] clearBits 0x8000 ∧
      ∃ final, analyzerStr .ea64 bareEnvironment [] clearBits 0x8000 = some final ∧
        final.lpOutBuf = nop ++ [0x0A] ∧
        final.lpBLCountBuf.map (·.lpRod) = [[0x62, 0x69, 0x63]]) ∧
    ¬RewritesBranches (.ea32 .arm) bareEnvironment szFilterRegTables.contains [] clearBits 0x8000 ∧
      ∃ final, analyzerStr (.ea32 .arm) bareEnvironment [] clearBits 0x8000 = some final ∧
        final.lpOutBuf = nop ++ [0x0A] ∧
        final.lpBLCountBuf.map (·.lpRod) = [[0x62, 0x69, 0x63]] := by
  let p : Token := ⟨clearBits, bareEnvironment.memory⟩
  have alone : strtok bareEnvironment.memory [] clearBits = [] ++ p :: [] := by rfl
  have other : ¬RealBranch szFilterRegTables.contains p.statement := by decide
  have copied (build : Build)
      (rewrites : RewritesBranches build bareEnvironment szFilterRegTables.contains []
        clearBits 0x8000) :
      ∃ next, analyzeLines build bareEnvironment 0x8000 (initial []) [p] = some next ∧
        next.lpBLCountBuf = [] := by
    obtain ⟨state, next, first, ran, fate⟩ := rewrites.2 [] p [] alone (by decide)
    cases first
    rw [if_neg other] at fate
    exact ⟨next, ran, fate.2⟩
  constructor
  · refine ⟨fun rewrites => ?_, _, rfl, rfl, rfl⟩
    obtain ⟨next, ran, none⟩ := copied _ rewrites
    cases ran
    cases none
  · refine ⟨fun rewrites => ?_, _, rfl, rfl, rfl⟩
    obtain ⟨next, ran, none⟩ := copied _ rewrites
    cases ran
    cases none

end IDAPlugins.PatchArm
