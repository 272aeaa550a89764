import IDAPlugins.PatchArm.Buffers
import Mathlib.Data.List.Forall2

namespace IDAPlugins.PatchArm

open Machine

/-! # Indentation

In the 64-bit build the analysis depends on the blanks in front of a line in two ways:
the register test reads the mnemonic further behind, and an empty line that is given
blanks counts as an instruction for what stands behind it.
-/

/-- A text with blanks put in front of its lines. The flag tells that a line starts. -/
inductive Indented : Bool → List UInt8 → List UInt8 → Prop where
  | done (start : Bool) : Indented start [] []
  | blank {text indented : List UInt8} (ch : UInt8) (blank : isBlank ch = true)
      (rest : Indented true text indented) : Indented true text (ch :: indented)
  | lineBreak {start : Bool} {text indented : List UInt8} (ch : UInt8) (ends : isBreak ch = true)
      (rest : Indented true text indented) : Indented start (ch :: text) (ch :: indented)
  | char {start : Bool} {text indented : List UInt8} (ch : UInt8) (plain : isBreak ch = false)
      (rest : Indented false text indented) : Indented start (ch :: text) (ch :: indented)

/-- The kind of a line in the 64-bit build. -/
def lineKind64 (p : Token) : LineKind :=
  if p.line = [] then .blank
  else if 0x3A ∈ p.line then .label
  else if p.line.head? = some 0x42 ∨ p.line.head? = some 0x62 then
    if registerMnemonic p then .copied else .branch
  else .copied

/-- The lines that have something on them, each with the number of blank lines before. -/
def placed : Nat → List Token → List (Token × Nat)
  | _, [] => []
  | blanks, p :: rest =>
    if p.line = [] then placed (blanks + 1) rest else (p, blanks) :: placed blanks rest

/-- The placed lines of a text. -/
def placedText (memory : Nat → UInt8) (text : List UInt8) : List (Token × Nat) :=
  placed 0 (strtok memory [] text)

def emitted64 (lines : List (Token × Nat)) : List (List UInt8) :=
  lines.map fun entry => if lineKind64 entry.1 = .branch then nop else entry.1.line

/-- How a line counts, apart from the blank ones. -/
def counted64 (p : Token) : Int :=
  if lineKind64 p = .label then 0 else 1

def labels64 (dwCurrentAddr : Nat) : Int → List (Token × Nat) → List LocalVarilInfo
  | _, [] => []
  | count, (p, blanks) :: rest =>
    labelOf .ea64 dwCurrentAddr (count + blanks) p (lineKind64 p) ++
      labels64 dwCurrentAddr (count + counted64 p) rest

def entries64 (dwCurrentAddr : Nat) : Int → List (Token × Nat) → List BLArray
  | _, [] => []
  | count, (p, blanks) :: rest =>
    entryOf .ea64 dwCurrentAddr (count + blanks) p (lineKind64 p) ++
      entries64 dwCurrentAddr (count + counted64 p) rest

/-- The emitted text and the branch table. -/
def results (analysis : Analysis) : List UInt8 × List BLArray :=
  (analysis.lpOutBuf, analysis.lpBLCountBuf)

/-- The numbers of blank lines in front differ by a multiple of 2^30, with which an offset
in bytes comes back to the same `int`. -/
def SameUnits (pair : (Token × Nat) × Token × Nat) : Prop :=
  ((pair.1.2 : Int) - pair.2.2) % 1073741824 = 0

/-- The line binds a label with this name. -/
def binds (L : List UInt8) (pair : (Token × Nat) × Token × Nat) : Bool :=
  decide (0x3A ∈ pair.1.1.line) && pair.1.1.line.takeWhile (· != 0x3A) == L

/-- A branch with no space in it is recorded. -/
def NullPointer (lines : List (Token × Nat)) : Prop :=
  ∃ entry ∈ lines, lineKind64 entry.1 = .branch ∧ 0x20 ∉ entry.1.line

/-- What the blanks leave as it is: the kinds of the lines, the places of the branches,
and those of the labels that branches go to. -/
structure Unmoved (g_lvInfos : List LocalVarilInfo) (lines others : List (Token × Nat)) :
    Prop where
  spaced : ¬NullPointer lines
  kinds : ∀ pair ∈ lines.zip others, lineKind64 pair.1.1 = lineKind64 pair.2.1
  branches : ∀ pair ∈ lines.zip others, lineKind64 pair.1.1 = .branch → SameUnits pair
  labels : ∀ pair ∈ lines.zip others, lineKind64 pair.1.1 = .branch →
    spelledHex (operand pair.1.1) = false →
    (∀ lviTmp ∈ g_lvInfos, lviTmp.szName ≠ operand pair.1.1) →
    ∀ target ∈ (lines.zip others).find? (binds (operand pair.1.1)), SameUnits target

variable {env : Environment} {dwCurrentAddr : Nat}

theorem lineKind_ea64 (p : Token) : lineKind .ea64 env p = some (lineKind64 p) := by
  rw [lineKind, lineKind64]
  split
  · rfl
  · split
    · rfl
    · split
      · rw [registerBranch, Option.map_some]
      · rfl

theorem emitted_ea64 {p : Token} (full : p.line ≠ []) :
    emitted .ea64 p (lineKind64 p) = [if lineKind64 p = .branch then nop else p.line] := by
  have pair : pairs .ea64 p = false := rfl
  cases kind : lineKind64 p with
  | blank =>
    rw [lineKind64, if_neg full] at kind
    split at kind
    · exact nomatch kind
    · split at kind
      · split at kind <;> exact nomatch kind
      · exact nomatch kind
  | label | copied => rfl
  | branch => rw [emitted, pair]; rfl

theorem counted_ea64 (p : Token) : counted .ea64 p (lineKind64 p) = counted64 p := by
  have pair : pairs .ea64 p = false := rfl
  rw [counted64]
  cases lineKind64 p with
  | branch => simp [counted, pair]
  | blank | label | copied => simp [counted]

theorem analyzeLines_placed (lines : List Token) {state : Analysis} {count : Int} {blanks : Nat}
    (sum : state.sum = count + blanks) :
    ∃ final, analyzeLines .ea64 env dwCurrentAddr state lines = some final ∧
      final.lpOutBuf = state.lpOutBuf ++ unlines (emitted64 (placed blanks lines)) ∧
      final.vlviTmp = state.vlviTmp ++ labels64 dwCurrentAddr count (placed blanks lines) ∧
      final.lpBLCountBuf = state.lpBLCountBuf ++
        entries64 dwCurrentAddr count (placed blanks lines) := by
  induction lines generalizing state count blanks with
  | nil =>
    refine ⟨state, rfl, ?_, ?_, ?_⟩
    all_goals exact (List.append_nil _).symm
  | cons p rest ih =>
    rw [analyzeLines_cons, lineKind_ea64, Option.bind_some]
    by_cases empty : p.line = []
    · have blank : lineKind64 p = .blank := by rw [lineKind64, if_pos empty]
      have next : (afterLine .ea64 dwCurrentAddr state p .blank).sum = count + (blanks + 1 : Nat) := by
        change state.sum + 1 = _
        omega
      obtain ⟨final, ran, text, names, table⟩ := ih next
      rw [blank, placed, if_pos empty]
      refine ⟨final, ran, ?_, ?_, ?_⟩
      · simpa [afterLine, emitted, unlines] using text
      · simpa [afterLine, labelOf] using names
      · simpa [afterLine, entryOf] using table
    · have next : (afterLine .ea64 dwCurrentAddr state p (lineKind64 p)).sum =
          count + counted64 p + blanks := by
        change state.sum + counted .ea64 p (lineKind64 p) = _
        rw [sum, counted_ea64]
        omega
      obtain ⟨final, ran, text, names, table⟩ := ih next
      rw [placed, if_neg empty]
      refine ⟨final, ran, ?_, ?_, ?_⟩
      · rw [text, afterLine, emitted_ea64 empty, List.append_assoc, ← unlines_append]
        rfl
      · rw [names, afterLine, sum, List.append_assoc]
        rfl
      · rw [table, afterLine, sum, List.append_assoc]
        rfl

/-- The analysis is a function of the placed lines. -/
theorem analyzerStr_placed (g_lvInfos : List LocalVarilInfo) (lpInData : List UInt8) :
    (analyzerStr .ea64 env g_lvInfos lpInData dwCurrentAddr).map results =
      ((entries64 dwCurrentAddr 0 (placedText env.memory lpInData)).mapM
        (resolve env (g_lvInfos ++
          labels64 dwCurrentAddr 0 (placedText env.memory lpInData)))).map fun table =>
            (unlines (emitted64 (placedText env.memory lpInData)), table) := by
  obtain ⟨final, ran, text, names, table⟩ := @analyzeLines_placed env dwCurrentAddr
    (strtok env.memory [] lpInData) (initial g_lvInfos) 0 0 rfl
  simp only [initial, List.nil_append] at text names table
  rw [analyzerStr, ran, Option.bind_eq_bind, Option.bind_some, placedText, names, table]
  cases (entries64 dwCurrentAddr 0 (placed 0 (strtok env.memory [] lpInData))).mapM
      (resolve env (g_lvInfos ++ labels64 dwCurrentAddr 0 (placed 0 (strtok env.memory [] lpInData))))
    with
  | none => rfl
  | some resolved =>
    rw [Option.bind_eq_bind, Option.bind_some, Option.map_some, Option.map_some, results, text]

def SameLine (first second : Token × Nat) : Prop :=
  first.1.line = second.1.line

theorem line_indent {indent word : List UInt8} (blank : ∀ ch ∈ indent, isBlank ch = true)
    (behind behind' : Nat → UInt8) :
    Token.line { text := indent ++ word, behind := behind' } =
      Token.line { text := word, behind } :=
  List.dropWhile_append_of_pos blank

theorem placed_cons_aligned {p q : Token} {lines others : List Token} (same : p.line = q.line)
    (rest : ∀ blanks blanks',
      List.Forall₂ SameLine (placed blanks lines) (placed blanks' others))
    (blanks blanks' : Nat) :
    List.Forall₂ SameLine (placed blanks (p :: lines)) (placed blanks' (q :: others)) := by
  rw [placed, placed, ← same]
  split
  · exact rest _ _
  · exact .cons same (rest _ _)

/-- A token of blanks only is not placed. -/
theorem placed_blank {p : Token} (empty : p.line = []) (blanks : Nat) (lines : List Token) :
    placed blanks (p :: lines) = placed (blanks + 1) lines := by
  rw [placed, if_pos empty]

theorem line_blank {indent : List UInt8} (blank : ∀ ch ∈ indent, isBlank ch = true)
    (behind : Nat → UInt8) : Token.line { text := indent, behind } = [] := by
  rw [Token.line, List.dropWhile_eq_nil_iff]
  exact blank

theorem not_isBreak {ch : UInt8} (blank : isBlank ch = true) : isBreak ch = false := by
  rw [isBlank, Bool.or_eq_true] at blank
  rcases blank with space | tab
  · rw [eq_of_beq space]
    decide
  · rw [eq_of_beq tab]
    decide

/-- The first token is the word read so far, in the indented text behind its blanks. -/
theorem strtok_aligned {start : Bool} {text indented : List UInt8}
    (added : Indented start text indented) (memory memory' : Nat → UInt8)
    {word indent : List UInt8} (blank : ∀ ch ∈ indent, isBlank ch = true)
    (fresh : start = true → word = []) (blanks blanks' : Nat) :
    List.Forall₂ SameLine (placed blanks (strtok memory word text))
      (placed blanks' (strtok memory' (indent ++ word) indented)) := by
  induction added generalizing word indent blanks blanks' with
  | done start =>
    unfold strtok
    by_cases empty : word = []
    · rw [if_pos empty, empty, List.append_nil]
      split
      · exact .nil
      · rw [placed_blank (line_blank blank memory')]
        exact .nil
    · rw [if_neg empty, if_neg (fun both => empty (List.append_eq_nil_iff.mp both).2)]
      exact placed_cons_aligned (line_indent blank memory memory').symm (fun _ _ => .nil) _ _
  | @blank text indented ch space rest ih =>
    have none := fresh rfl
    have more : ∀ letter ∈ indent ++ [ch], isBlank letter = true := by
      intro letter member
      rcases List.mem_append.mp member with old | new
      · exact blank letter old
      · rw [List.mem_singleton.mp new]
        exact space
    have step : strtok memory' (indent ++ word) (ch :: indented) =
        strtok memory' (indent ++ [ch] ++ word) indented := by
      rw [strtok, if_neg (by rw [not_isBreak space]; decide), none, List.append_nil, List.append_nil]
    rw [step]
    exact ih more fresh blanks blanks'
  | @lineBreak start text indented ch ends rest ih =>
    have next := fun blanks blanks' => @ih [] [] (List.forall_mem_nil _) (fun _ => rfl) blanks blanks'
    rw [List.append_nil] at next
    rw [strtok, strtok, if_pos ends, if_pos ends]
    by_cases empty : word = []
    · rw [if_pos empty, empty, List.append_nil]
      split
      · exact next blanks blanks'
      · rw [placed_blank (line_blank blank _)]
        exact next blanks (blanks' + 1)
    · rw [if_neg empty, if_neg (fun both => empty (List.append_eq_nil_iff.mp both).2)]
      exact placed_cons_aligned (line_indent blank _ _).symm next blanks blanks'
  | @char start text indented ch plain rest ih =>
    have go : ¬isBreak ch = true := by
      rw [plain]
      decide
    rw [strtok, strtok, if_neg go, if_neg go, List.append_assoc]
    exact ih blank (fun off => nomatch off) blanks blanks'

/-- The placed lines of both texts correspond. -/
theorem placedText_aligned {text indented : List UInt8} (added : Indented true text indented)
    (memory memory' : Nat → UInt8) :
    List.Forall₂ SameLine (placedText memory text) (placedText memory' indented) :=
  @strtok_aligned true text indented added memory memory' [] [] (List.forall_mem_nil _)
    (fun _ => rfl) 0 0

theorem splitOn_unlines {lines : List (List UInt8)} (plain : ∀ line ∈ lines, 0x0A ∉ line) :
    (unlines lines).splitOn 0x0A = lines ++ [[]] := by
  induction lines with
  | nil => simp [unlines]
  | cons line rest ih =>
    obtain ⟨first, others⟩ := List.forall_mem_cons.mp plain
    have tail := ih others
    unfold unlines at tail ⊢
    rw [List.flatMap_cons, List.append_assoc, List.singleton_append,
      List.splitOn_append_cons_self_of_not_mem first, tail, List.cons_append]

theorem unlines_inj {first second : List (List UInt8)} (plain : ∀ line ∈ first, 0x0A ∉ line)
    (whole : ∀ line ∈ second, 0x0A ∉ line) (same : unlines first = unlines second) :
    first = second := by
  have split := congrArg (List.splitOn 0x0A) same
  rw [splitOn_unlines plain, splitOn_unlines whole] at split
  exact List.append_cancel_right split

theorem placed_mem {lines : List Token} {blanks : Nat} {entry : Token × Nat}
    (member : entry ∈ placed blanks lines) : entry.1 ∈ lines ∧ entry.1.line ≠ [] := by
  induction lines generalizing blanks with
  | nil => exact absurd member List.not_mem_nil
  | cons p rest ih =>
    rw [placed] at member
    split at member
    · exact ⟨List.mem_cons_of_mem _ (ih member).1, (ih member).2⟩
    · rename_i full
      rcases List.mem_cons.mp member with rfl | later
      · exact ⟨List.mem_cons_self, full⟩
      · exact ⟨List.mem_cons_of_mem _ (ih later).1, (ih later).2⟩

theorem emitted64_plain (memory : Nat → UInt8) (text : List UInt8) :
    ∀ line ∈ emitted64 (placedText memory text), 0x0A ∉ line := by
  intro line member
  obtain ⟨entry, inside, rfl⟩ := List.mem_map.mp member
  have whole := strtok_break memory text [] (List.forall_mem_nil _) entry.1 (placed_mem inside).1
  split
  · decide
  · exact line_break whole

/-- A line of two texts that is emitted alike is of one kind. -/
theorem lineKind64_eq {p q : Token} (same : p.line = q.line)
    (emits : (if lineKind64 p = .branch then nop else p.line) =
      if lineKind64 q = .branch then nop else q.line) : lineKind64 p = lineKind64 q := by
  by_cases plain : p.line = [] ∨ 0x3A ∈ p.line ∨
      ¬(p.line.head? = some 0x42 ∨ p.line.head? = some 0x62)
  · rw [lineKind64, lineKind64, ← same]
    rcases plain with empty | colon | other
    · rw [if_pos empty, if_pos empty]
    · simp only [colon, if_true]
    · simp only [if_neg other]
  · push Not at plain
    obtain ⟨full, colon, head⟩ := plain
    have kind (r : Token) (line : r.line = p.line) :
        lineKind64 r = if registerMnemonic r then .copied else .branch := by
      rw [lineKind64, line, if_neg full, if_neg colon, if_pos head]
    have other : nop ≠ p.line := by
      intro replaced
      rw [← replaced] at head
      exact absurd head (by decide)
    rw [kind p rfl, kind q same.symm] at emits ⊢
    cases first : registerMnemonic p <;> cases second : registerMnemonic q <;>
      simp only [first, second, if_true, Bool.false_eq_true, if_false, reduceCtorEq] at emits ⊢
    · exact other (emits.trans same.symm)
    · exact other emits.symm

/-- An entry with its destination. -/
def settle (env : Environment) (locations : List LocalVarilInfo) (entry : BLArray) : BLArray :=
  { entry with
    dwDes := getDesAddr env (entry.lpRod.dropWhile (· != 0x20)) locations
    lpRod := entry.lpRod.takeWhile (· != 0x20) }

theorem take_idxOf? {line : List UInt8} {space : Nat} (found : line.idxOf? 0x20 = some space) :
    line.take space = line.takeWhile (· != 0x20) := by
  have rest := drop_idxOf? found
  have both : line.take space ++ line.drop space =
      line.takeWhile (· != 0x20) ++ line.dropWhile (· != 0x20) := by
    rw [List.take_append_drop, List.takeWhile_append_dropWhile]
  rw [rest] at both
  exact List.append_cancel_right both

theorem resolve_eq {locations : List LocalVarilInfo} {entry : BLArray} (spaced : 0x20 ∈ entry.lpRod) :
    resolve env locations entry = some (settle env locations entry) := by
  obtain ⟨space, found⟩ := Option.isSome_iff_exists.mp (List.isSome_idxOf?.mpr spaced)
  rw [resolve, found, Option.map_some, settle, drop_idxOf? found, take_idxOf? found]

theorem mapM_settle {locations : List LocalVarilInfo} {entries : List BLArray}
    (spaced : ∀ entry ∈ entries, 0x20 ∈ entry.lpRod) :
    entries.mapM (resolve env locations) = some (entries.map (settle env locations)) := by
  induction entries with
  | nil => rfl
  | cons entry rest ih =>
    obtain ⟨first, others⟩ := List.forall_mem_cons.mp spaced
    rw [List.mapM_cons, resolve_eq first, Option.bind_eq_bind, Option.bind_some, ih others]
    rfl

theorem entries64_rods (lines : List (Token × Nat)) (count : Int) :
    (entries64 dwCurrentAddr count lines).map (·.lpRod) =
      (lines.filter fun entry => lineKind64 entry.1 = .branch).map (·.1.line) := by
  induction lines generalizing count with
  | nil => rfl
  | cons entry rest ih =>
    obtain ⟨p, blanks⟩ := entry
    rw [entries64, List.map_append, ih]
    cases kind : lineKind64 p with
    | branch => simp [kind, entryOf]
    | blank | label | copied => simp [kind, entryOf]

theorem entries64_iff (lines : List (Token × Nat)) (count : Int) (lpRod : List UInt8) :
    (∃ entry ∈ entries64 dwCurrentAddr count lines, entry.lpRod = lpRod) ↔
      ∃ line ∈ lines, lineKind64 line.1 = .branch ∧ line.1.line = lpRod := by
  rw [← List.mem_map, entries64_rods, List.mem_map]
  simp only [List.mem_filter, decide_eq_true_eq, and_assoc]

/-- The second loop gets through without a null pointer. -/
theorem mapM_resolve (lines : List (Token × Nat)) (locations : List LocalVarilInfo) :
    (NullPointer lines ∧
        (entries64 dwCurrentAddr 0 lines).mapM (resolve env locations) = none) ∨
      ¬NullPointer lines ∧ (entries64 dwCurrentAddr 0 lines).mapM (resolve env locations) =
        some ((entries64 dwCurrentAddr 0 lines).map (settle env locations)) := by
  by_cases null : NullPointer lines
  · refine Or.inl ⟨null, ?_⟩
    obtain ⟨line, member, branch, plain⟩ := null
    rw [← Option.not_isSome_iff_eq_none, mapM_isSome_iff]
    intro resolves
    obtain ⟨entry, there, same⟩ :=
      (entries64_iff lines 0 line.1.line).mpr ⟨line, member, branch, rfl⟩
    have spaced := resolve_isSome.mp (resolves entry there)
    rw [same] at spaced
    exact plain spaced
  · refine Or.inr ⟨null, mapM_settle fun entry member => ?_⟩
    obtain ⟨line, inside, branch, same⟩ :=
      (entries64_iff lines 0 entry.lpRod).mp ⟨entry, member, rfl⟩
    by_contra plain
    rw [← same] at plain
    exact null ⟨line, inside, branch, plain⟩

/-- Offsets in bytes agree when the units differ by a multiple of 2^30. -/
theorem armOffset_eq_iff (count : Int) (pair : (Token × Nat) × Token × Nat) :
    armOffset .ea64 (count + pair.1.2) = armOffset .ea64 (count + pair.2.2) ↔ SameUnits pair := by
  have unit : ((Build.unit .ea64 : Nat) : Int) = 4 := rfl
  rw [armOffset, armOffset, unit, SameUnits]
  unfold int32
  split <;> split <;> omega

theorem label_eq_iff (count : Int) (dwCurrentAddr : Nat) (pair : (Token × Nat) × Token × Nat) :
    ((armOffset .ea64 (count + pair.1.2) + dwCurrentAddr) % (Build.addresses .ea64 : Nat)).toNat %
          4294967296 =
        ((armOffset .ea64 (count + pair.2.2) + dwCurrentAddr) % (Build.addresses .ea64 : Nat)).toNat %
          4294967296 ↔
      SameUnits pair := by
  have unit : ((Build.unit .ea64 : Nat) : Int) = 4 := rfl
  have space : ((Build.addresses .ea64 : Nat) : Int) = 18446744073709551616 := rfl
  rw [armOffset, armOffset, unit, space, SameUnits]
  unfold int32
  split <;> split <;> omega

theorem lineKind64_label_iff (p : Token) : lineKind64 p = .label ↔ 0x3A ∈ p.line := by
  rw [← @lineKind_label_iff .ea64 ⟨fun _ => 0, fun _ => [], fun _ => 0⟩ p, lineKind_ea64,
    Option.some.injEq]

/-- The first lines are of one kind and count alike, and so on for those behind them. -/
theorem kinds_cons {p q : Token} {blanks blanks' : Nat} {lines others : List (Token × Nat)}
    (kinds : ∀ pair ∈ ((p, blanks) :: lines).zip ((q, blanks') :: others),
      lineKind64 pair.1.1 = lineKind64 pair.2.1) :
    lineKind64 p = lineKind64 q ∧ counted64 p = counted64 q ∧
      ∀ pair ∈ lines.zip others, lineKind64 pair.1.1 = lineKind64 pair.2.1 := by
  rw [List.zip_cons_cons, List.forall_mem_cons] at kinds
  obtain ⟨kind, later⟩ := kinds
  change lineKind64 p = lineKind64 q at kind
  exact ⟨kind, by rw [counted64, counted64, kind], later⟩

/-- Both tables agree when the places and the destinations of their branches do. -/
theorem settled_eq_iff {env' : Environment} {locations locations' : List LocalVarilInfo}
    {lines others : List (Token × Nat)} (aligned : List.Forall₂ SameLine lines others)
    (kinds : ∀ pair ∈ lines.zip others, lineKind64 pair.1.1 = lineKind64 pair.2.1) (count : Int) :
    (entries64 dwCurrentAddr count lines).map (settle env locations) =
        (entries64 dwCurrentAddr count others).map (settle env' locations') ↔
      ∀ pair ∈ lines.zip others, lineKind64 pair.1.1 = .branch → SameUnits pair ∧
        getDesAddr env (pair.1.1.line.dropWhile (· != 0x20)) locations =
          getDesAddr env' (pair.1.1.line.dropWhile (· != 0x20)) locations' := by
  induction aligned generalizing count with
  | nil => simp [entries64]
  | @cons first second lines others same rest ih =>
    obtain ⟨p, blanks⟩ := first
    obtain ⟨q, blanks'⟩ := second
    obtain ⟨kind, counted, later⟩ := kinds_cons kinds
    change p.line = q.line at same
    have tail := ih later (count + counted64 p)
    rw [List.zip_cons_cons, List.forall_mem_cons, ← tail, entries64, entries64, ← kind, ← counted,
      List.map_append, List.map_append]
    by_cases branch : lineKind64 p = .branch
    · have units := armOffset_eq_iff count ((p, blanks), q, blanks')
      rw [branch]
      simp only [entryOf, List.map_cons, List.map_nil, List.cons_append, List.nil_append,
        List.cons.injEq, settle, BLArray.mk.injEq, ← same, true_and, true_imp_iff]
      rw [← units]
      constructor
      · intro equal
        obtain ⟨⟨-, destination, offset⟩, table⟩ := equal
        exact ⟨⟨offset, destination⟩, table⟩
      · intro equal
        obtain ⟨⟨offset, destination⟩, table⟩ := equal
        exact ⟨⟨by rw [offset], destination, offset⟩, table⟩
    · have none (token : Token) (sum : Int) :
          entryOf .ea64 dwCurrentAddr sum token (lineKind64 p) = [] := by
        rw [entryOf]
        exact branch
      rw [none, none]
      simp only [List.map_nil, List.nil_append, branch, false_imp_iff, true_and]

/-- A label is found at the same place in both lists. -/
theorem labels_find {lines others : List (Token × Nat)} (aligned : List.Forall₂ SameLine lines others)
    (kinds : ∀ pair ∈ lines.zip others, lineKind64 pair.1.1 = lineKind64 pair.2.1)
    (L : List UInt8) (count : Int) :
    ((lines.zip others).find? (binds L) = none ∧
        (labels64 dwCurrentAddr count lines).find? (·.szName == L) = none ∧
        (labels64 dwCurrentAddr count others).find? (·.szName == L) = none) ∨
      ∃ pair label label', (lines.zip others).find? (binds L) = some pair ∧
        (labels64 dwCurrentAddr count lines).find? (·.szName == L) = some label ∧
        (labels64 dwCurrentAddr count others).find? (·.szName == L) = some label' ∧
        (label.dwAddr % 4294967296 = label'.dwAddr % 4294967296 ↔ SameUnits pair) := by
  induction aligned generalizing count with
  | nil => exact Or.inl ⟨rfl, rfl, rfl⟩
  | @cons first second lines others same rest ih =>
    obtain ⟨p, blanks⟩ := first
    obtain ⟨q, blanks'⟩ := second
    obtain ⟨kind, counted, later⟩ := kinds_cons kinds
    change p.line = q.line at same
    have tail := ih later (count + counted64 p)
    rw [List.zip_cons_cons, labels64, labels64, ← kind, ← counted]
    by_cases colon : 0x3A ∈ p.line
    · rw [(lineKind64_label_iff p).mpr colon]
      simp only [labelOf, List.cons_append, List.nil_append, ← same]
      by_cases name : p.line.takeWhile (· != 0x3A) = L
      · right
        have bound : binds L ((p, blanks), q, blanks') = true := by
          simp [binds, colon, name]
        have hit (address : Nat) (rest : List LocalVarilInfo) :
            ((⟨p.line.takeWhile (· != 0x3A), address⟩ : LocalVarilInfo) :: rest).find?
              (·.szName == L) = some ⟨p.line.takeWhile (· != 0x3A), address⟩ :=
          List.find?_cons_of_pos (beq_iff_eq.mpr name)
        rw [List.find?_cons_of_pos bound, hit, hit]
        exact ⟨_, _, _, rfl, rfl, rfl, label_eq_iff count dwCurrentAddr ((p, blanks), q, blanks')⟩
      · have free : ¬binds L ((p, blanks), q, blanks') = true := by
          simp [binds, colon, name]
        have miss (address : Nat) (rest : List LocalVarilInfo) :
            ((⟨p.line.takeWhile (· != 0x3A), address⟩ : LocalVarilInfo) :: rest).find?
              (·.szName == L) = rest.find? (·.szName == L) :=
          List.find?_cons_of_neg (mt beq_iff_eq.mp name)
        rw [List.find?_cons_of_neg free, miss, miss]
        exact tail
    · have none (token : Token) (sum : Int) :
          labelOf .ea64 dwCurrentAddr sum token (lineKind64 p) = [] := by
        rw [labelOf]
        exact fun label => colon ((lineKind64_label_iff p).mp label)
      have free : ¬binds L ((p, blanks), q, blanks') = true := by
        simp [binds, colon]
      rw [none, none, List.find?_cons_of_neg free]
      exact tail

/-- The destinations agree unless a label of the input that decides them has moved. -/
theorem getDesAddr_eq_iff {env' : Environment} (names : env'.get_name_ea = env.get_name_ea)
    {g_lvInfos : List LocalVarilInfo} {lines others : List (Token × Nat)}
    (aligned : List.Forall₂ SameLine lines others)
    (kinds : ∀ pair ∈ lines.zip others, lineKind64 pair.1.1 = lineKind64 pair.2.1)
    {lpInBuf L : List UInt8} (name : lpInBuf.filter (!isBlank ·) = L) :
    getDesAddr env lpInBuf (g_lvInfos ++ labels64 dwCurrentAddr 0 lines) =
        getDesAddr env' lpInBuf (g_lvInfos ++ labels64 dwCurrentAddr 0 others) ↔
      (spelledHex L = false → (∀ lviTmp ∈ g_lvInfos, lviTmp.szName ≠ L) →
        ∀ target ∈ (lines.zip others).find? (binds L), SameUnits target) := by
  rw [getDesAddr_eq name, getDesAddr_eq name, names]
  by_cases spelled : spelledHex L = true
  · rw [if_pos spelled, if_pos spelled]
    simp [spelled]
  · rw [if_neg spelled, if_neg spelled, List.find?_append, List.find?_append]
    cases outer : g_lvInfos.find? (·.szName == L) with
    | some lviTmp =>
      have there := List.find?_some outer
      refine iff_of_true rfl fun _ absent => ?_
      exact absurd (beq_iff_eq.mp there) (absent lviTmp (List.mem_of_find?_eq_some outer))
    | none =>
      have absent : ∀ lviTmp ∈ g_lvInfos, lviTmp.szName ≠ L := fun lviTmp member same =>
        List.find?_eq_none.mp outer lviTmp member (beq_iff_eq.mpr same)
      simp only [Option.none_or, spelled, true_imp_iff]
      rcases @labels_find dwCurrentAddr lines others aligned kinds L 0 with
        ⟨free, left, right⟩ | ⟨pair, label, label', found, left, right, units⟩
      · rw [left, right, free]
        exact iff_of_true rfl fun _ target found => absurd found (Option.not_mem_none target)
      · rw [left, right, found]
        simp only [Option.mem_def, Option.some.injEq, forall_eq', Option.map_some, Option.getD_some]
        exact ⟨fun same _ => units.mp same, fun moved => units.mpr (moved absent)⟩

theorem emitted64_eq_iff {lines others : List (Token × Nat)}
    (aligned : List.Forall₂ SameLine lines others) :
    emitted64 lines = emitted64 others ↔
      ∀ pair ∈ lines.zip others, lineKind64 pair.1.1 = lineKind64 pair.2.1 := by
  induction aligned with
  | nil => simp [emitted64]
  | @cons first second lines others same rest ih =>
    rw [List.zip_cons_cons, List.forall_mem_cons, ← ih, emitted64, emitted64, List.map_cons,
      List.map_cons, List.cons.injEq]
    refine and_congr_left fun _ => ⟨lineKind64_eq same, fun kind => ?_⟩
    rw [SameLine] at same
    rw [kind, same]

theorem nullPointer_iff {lines others : List (Token × Nat)}
    (aligned : List.Forall₂ SameLine lines others)
    (kinds : ∀ pair ∈ lines.zip others, lineKind64 pair.1.1 = lineKind64 pair.2.1) :
    NullPointer lines ↔ NullPointer others := by
  induction aligned with
  | nil => rfl
  | @cons first second lines others same rest ih =>
    obtain ⟨kind, -, later⟩ := kinds_cons kinds
    have tail := ih later
    rw [SameLine] at same
    rw [NullPointer, NullPointer] at tail ⊢
    rw [List.exists_mem_cons_iff, List.exists_mem_cons_iff, kind, same, tail]

/-- Both tables agree when the branches and the labels that they go to have not moved. -/
theorem tables_eq_iff {env' : Environment} (names : env'.get_name_ea = env.get_name_ea)
    {g_lvInfos : List LocalVarilInfo} {lines others : List (Token × Nat)}
    (aligned : List.Forall₂ SameLine lines others)
    (kinds : ∀ pair ∈ lines.zip others, lineKind64 pair.1.1 = lineKind64 pair.2.1) :
    (entries64 dwCurrentAddr 0 lines).map
          (settle env (g_lvInfos ++ labels64 dwCurrentAddr 0 lines)) =
        (entries64 dwCurrentAddr 0 others).map
          (settle env' (g_lvInfos ++ labels64 dwCurrentAddr 0 others)) ↔
      (∀ pair ∈ lines.zip others, lineKind64 pair.1.1 = .branch → SameUnits pair) ∧
        ∀ pair ∈ lines.zip others, lineKind64 pair.1.1 = .branch →
          spelledHex (operand pair.1.1) = false →
          (∀ lviTmp ∈ g_lvInfos, lviTmp.szName ≠ operand pair.1.1) →
          ∀ target ∈ (lines.zip others).find? (binds (operand pair.1.1)), SameUnits target := by
  have destination (p : Token) := @getDesAddr_eq_iff env dwCurrentAddr env' names g_lvInfos
    lines others aligned kinds (p.line.dropWhile (· != 0x20)) (operand p) rfl
  rw [settled_eq_iff aligned kinds]
  simp only [destination]
  constructor
  · intro settled
    exact ⟨fun pair member branch => (settled pair member branch).1,
      fun pair member branch => (settled pair member branch).2⟩
  · intro unmoved pair member branch
    exact ⟨unmoved.1 pair member branch, unmoved.2 pair member branch⟩

/-- Blanks in front of the lines leave the emitted text and the branch table as they are
exactly when no line changes its kind, and no recorded branch, nor a label that decides
where one goes, moves; or when both runs meet a null pointer. -/
theorem analyzerStr_indented_iff (env : Environment) (memory : Nat → UInt8)
    (g_lvInfos : List LocalVarilInfo) (dwCurrentAddr : Nat) (text indented : List UInt8)
    (added : Indented true text indented) :
    (analyzerStr .ea64 env g_lvInfos text dwCurrentAddr).map results =
        (analyzerStr .ea64 { env with memory } g_lvInfos indented dwCurrentAddr).map results ↔
      (NullPointer (placedText env.memory text) ∧ NullPointer (placedText memory indented)) ∨
        Unmoved g_lvInfos (placedText env.memory text) (placedText memory indented) := by
  have aligned := placedText_aligned added env.memory memory
  have plain := emitted64_plain env.memory text
  have whole := emitted64_plain memory indented
  rw [analyzerStr_placed, analyzerStr_placed]
  change Option.map _ (List.mapM (resolve env (g_lvInfos ++
      labels64 dwCurrentAddr 0 (placedText env.memory text))) _) =
    Option.map (fun table => (unlines (emitted64 (placedText memory indented)), table))
      (List.mapM (resolve { env with memory } (g_lvInfos ++
        labels64 dwCurrentAddr 0 (placedText memory indented)))
        (entries64 dwCurrentAddr 0 (placedText memory indented))) ↔ _
  generalize placedText env.memory text = lines at *
  generalize placedText memory indented = others at *
  rcases @mapM_resolve env dwCurrentAddr lines
      (g_lvInfos ++ labels64 dwCurrentAddr 0 lines) with ⟨null, failed⟩ | ⟨spaced, ran⟩ <;>
    rcases @mapM_resolve { env with memory } dwCurrentAddr others
      (g_lvInfos ++ labels64 dwCurrentAddr 0 others) with ⟨null', failed'⟩ | ⟨spaced', ran'⟩
  · rw [failed, failed']
    exact iff_of_true rfl (Or.inl ⟨null, null'⟩)
  · rw [failed, ran']
    refine iff_of_false (fun same => nomatch same) fun either => ?_
    rcases either with both | unmoved
    · exact spaced' both.2
    · exact unmoved.spaced null
  · rw [ran, failed']
    refine iff_of_false (fun same => nomatch same) fun either => ?_
    rcases either with both | unmoved
    · exact spaced both.1
    · exact spaced ((nullPointer_iff aligned unmoved.kinds).mpr null')
  · rw [ran, ran', Option.map_some, Option.map_some, Option.some.injEq, Prod.mk.injEq]
    constructor
    · intro same
      obtain ⟨output, table⟩ := same
      have kinds := (emitted64_eq_iff aligned).mp (unlines_inj plain whole output)
      obtain ⟨branches, labels⟩ := (tables_eq_iff rfl aligned kinds).mp table
      exact Or.inr ⟨spaced, kinds, branches, labels⟩
    · intro either
      rcases either with both | unmoved
      · exact absurd both.1 spaced
      · have text := (emitted64_eq_iff aligned).mpr unmoved.kinds
        exact ⟨congrArg unlines text,
          (tables_eq_iff rfl aligned unmoved.kinds).mpr ⟨unmoved.branches, unmoved.labels⟩⟩

/-- The label `L` and `b L` -/
def labelLoop : List UInt8 :=
  [0x4C, 0x3A, 0x0A, 0x62, 0x20, 0x4C]

/-- The same, behind two spaces and a tab. -/
def indentedLoop : List UInt8 :=
  [0x20, 0x20, 0x4C, 0x3A, 0x0A, 0x09, 0x62, 0x20, 0x4C]

theorem labelLoop_indented : Indented true labelLoop indentedLoop :=
  .blank 0x20 rfl <| .blank 0x20 rfl <| .char 0x4C rfl <| .char 0x3A rfl <| .lineBreak 0x0A rfl <|
    .blank 0x09 rfl <| .char 0x62 rfl <| .char 0x20 rfl <| .char 0x4C rfl <| .done false

theorem analyzerStr_indented_loop :
    (analyzerStr .ea64 bareEnvironment [] indentedLoop 0x8000).map results =
      some ([0x4C, 0x3A, 0x0A] ++ nop ++ [0x0A],
        [{ dwSrc := 0x8000, dwDes := 0x8000, lpRod := [0x62], nARMOffset := 0 }]) := by
  have units : ∀ pair ∈ (placedText bareEnvironment.memory labelLoop).zip
      (placedText (fun _ => 0) indentedLoop), SameUnits pair :=
    List.forall_iff_forall_mem.mp ⟨rfl, rfl⟩
  have kinds : ∀ pair ∈ (placedText bareEnvironment.memory labelLoop).zip
      (placedText (fun _ => 0) indentedLoop), lineKind64 pair.1.1 = lineKind64 pair.2.1 :=
    List.forall_iff_forall_mem.mp ⟨by decide, by decide⟩
  have spaces : ∀ entry ∈ placedText bareEnvironment.memory labelLoop,
      lineKind64 entry.1 = .branch → 0x20 ∈ entry.1.line :=
    List.forall_iff_forall_mem.mp ⟨by decide, by decide⟩
  have unmoved : Unmoved [] (placedText bareEnvironment.memory labelLoop)
      (placedText (fun _ => 0) indentedLoop) :=
    { spaced := fun ⟨entry, member, branch, plain⟩ => plain (spaces entry member branch)
      kinds
      branches := fun pair member _ => units pair member
      labels := fun _ _ _ _ _ target found => units target (List.mem_of_find?_eq_some found) }
  exact ((analyzerStr_indented_iff bareEnvironment (fun _ => 0) [] 0x8000 labelLoop indentedLoop
    labelLoop_indented).mpr (Or.inr unmoved)).symm.trans rfl

/-- `blr x0` -/
def branchRegister : List UInt8 :=
  [0x62, 0x6C, 0x72, 0x20, 0x78, 0x30]

/-- A line that is not indented may be. -/
theorem Indented.space {ch : UInt8} {text : List UInt8} (plain : ∀ letter ∈ ch :: text, isBreak letter = false)
    (count : Nat) : Indented true (ch :: text) (List.replicate count 0x20 ++ ch :: text) := by
  have rest (letters : List UInt8) (whole : ∀ letter ∈ letters, isBreak letter = false) :
      Indented false letters letters := by
    induction letters with
    | nil => exact .done false
    | cons letter letters ih =>
      obtain ⟨first, others⟩ := List.forall_mem_cons.mp whole
      exact .char letter first (ih others)
  obtain ⟨first, others⟩ := List.forall_mem_cons.mp plain
  induction count with
  | zero => exact .char ch first (rest text others)
  | succ count ih => exact .blank 0x20 (by decide) ih

theorem branchRegister_plain : ∀ letter ∈ branchRegister, isBreak letter = false :=
  List.forall_iff_forall_mem.mp (by decide)

/-- Behind two spaces the branch to a register is recorded as one to a number. -/
theorem analyzerStr_indented_twice :
    Indented true branchRegister ([0x20, 0x20] ++ branchRegister) ∧
      (analyzerStr .ea64 bareEnvironment [] branchRegister 0x8000).map results =
        some (branchRegister ++ [0x0A], []) ∧
      (analyzerStr .ea64 bareEnvironment [] ([0x20, 0x20] ++ branchRegister) 0x8000).map results =
        some (nop ++ [0x0A],
          [{ dwSrc := 0x8000, dwDes := 0, lpRod := [0x62, 0x6C, 0x72], nARMOffset := 0 }]) :=
  ⟨.space branchRegister_plain 2, rfl, rfl⟩

end IDAPlugins.PatchArm
