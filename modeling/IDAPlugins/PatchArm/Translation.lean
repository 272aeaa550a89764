import IDAPlugins.Cyclic
import IDAPlugins.PatchArm.Branches
import IDAPlugins.PatchArm.Indentation
import IDAPlugins.PatchArm.OnButtonCalc

namespace IDAPlugins.PatchArm

/-! # What a patch puts into the database

A line of the input stands for the bytes that the assembler makes of it; a branch for those
that lead from its address to that of its operand, in front of what is left of the
placeholder that was assembled in its place. The patch puts these bytes at the address of
the dialog, line behind line.
-/

/-- The lines that `AnalyzerStr` writes for a line. -/
def emittedOf (build : Build) (env : Environment) (p : Token) : List (List UInt8) :=
  match lineKind build env p with
  | none => []
  | some kind => emitted build p kind

/-- The code of lines, where the code of a line may depend on its place. -/
def layOut (code : Nat → List UInt8 → List UInt8) : Nat → List (List UInt8) → List UInt8
  | _, [] => []
  | place, line :: rest => code place line ++ layOut code (place + (code place line).length) rest

/-- The entry of a branch line at its place. -/
def entryAt (env : Environment) (locations : List LocalVarilInfo) (g_Current place : Nat) (p : Token) :
    BLArray :=
  settle env locations
    { nARMOffset := place
      dwSrc := ((place + g_Current : Int) % 4294967296).toNat
      dwDes := 0
      lpRod := p.line }

/-- The bytes that `ClacBL` gives for an entry. -/
def branchCode (build : Build) (outside : Outside) (entry : BLArray) : List UInt8 :=
  ((clac build outside entry).map fun found => found.2.take found.1).getD []

/-- What is known of the lines beside the program: the operands that are registers, the
addresses that branches are meant to lead to, and the code of all other lines. -/
structure Meaning where
  register : List UInt8 → Bool
  target : Token → Nat
  code : Nat → List UInt8 → List UInt8

def mnemonicOf (p : Token) : List UInt8 :=
  p.line.takeWhile (· != 0x20)

/-- The branch from one address to another: as the instruction set has it, or, in the 64-bit
build, as the assembler has it over this distance. -/
def trueBranch (build : Build) (outside : Outside) (source target : Nat) (p : Token) :
    List UInt8 :=
  match outside.mnemonic (mnemonicOf p) with
  | none => []
  | some ord =>
    match build with
    | .ea32 g_nType => branchBytes g_nType ord source target
    | .ea64 =>
      let displacement := (target : Int) - source
      let found := encode64 outside.assembler (decide (displacement ≤ 0)) displacement.natAbs ord
      found.2.take found.1

def lineBytes (build : Build) (outside : Outside) (meaning : Meaning) (g_Current place : Nat)
    (p : Token) : List UInt8 :=
  let assembled := layOut meaning.code place (emittedOf build outside.env p)
  if RealBranch meaning.register p.statement then
    let branch := trueBranch build outside (g_Current + place) (meaning.target p) p
    branch ++ assembled.drop branch.length
  else assembled

/-- The bytes of all lines, the first of them at a place. -/
def translation (build : Build) (outside : Outside) (meaning : Meaning) (g_Current : Nat) :
    Nat → List Token → List UInt8
  | _, [] => []
  | place, p :: rest =>
    lineBytes build outside meaning g_Current place p ++
      translation build outside meaning g_Current (place + build.unit * units build p) rest

/-- The object file for a text: the code of its lines behind a header and in front of the
marker, which does not occur in it. -/
structure Object (build : Build) (outside : Outside) (code : Nat → List UInt8 → List UInt8)
    (text : List UInt8) : Prop where
  absent : ¬ maic <:+: layOut code 0 (text.splitOn 0x0A)
  layout : ∃ file header rest, (outside.assemble (srcText build text)).2 = some file ∧
    header.length = codeOffset build ∧
    file.bytes = header ++ (layOut code 0 (text.splitOn 0x0A) ++ (maic ++ rest))

/-- The address of an operand: that of a label or a local name, else a number, else an
address of the database. -/
def Means (env : Environment) (locations : List LocalVarilInfo) (szName : List UInt8)
    (target : Nat) : Prop :=
  (∃ lviTmp ∈ locations, lviTmp.szName = szName ∧ lviTmp.dwAddr = target) ∨
    (∀ lviTmp ∈ locations, lviTmp.szName ≠ szName) ∧
      (HexNumber szName target ∨
        (∀ value, ¬HexNumber szName value) ∧ env.get_name_ea szName = target)

/-- `ClacBL` can encode the branch: the assembler of the 32-bit build does what the
instruction set says, source and target are in range of each other, the correction is right
for their distance and the code not longer than its placeholder; in the 64-bit build no
multiple of 4 GB lies between the two. -/
def Encodable (build : Build) (outside : Outside) (source target : Nat) (p : Token) : Prop :=
  match build with
  | .ea32 g_nType =>
    Encodes outside.assembler ∧ source < 4294967296 ∧ target < 4294967296 ∧
      ∃ ord, outside.mnemonic (mnemonicOf p) = some ord ∧ InRange g_nType ord source target ∧
        Correctable g_nType ord source target ∧
        branchSize g_nType ord ≤ unit g_nType * units build p
  | .ea64 => SameBlock source target

/-- What has to be right about a branch: the number of its line, what `GetDesAddr` makes of
its operand, and what `ClacBL` makes of both. -/
structure BranchRight (build : Build) (outside : Outside) (locations : List LocalVarilInfo)
    (g_Current : Nat) (before : List Token) (p : Token) (target : Nat) : Prop where
  steady : drifts build outside.env before = 0
  means : Means outside.env locations (operand p) target
  found : getDesAddr outside.env (p.line.dropWhile (· != 0x20)) locations = target % 4294967296
  encodable : Encodable build outside (g_Current + offsetAfter build before) target p

/-- The lines that assemble to whole units, of which `AnalyzerStr` takes exactly the branches
for branches, and each of these comes out right. -/
structure Translates (build : Build) (outside : Outside) (meaning : Meaning)
    (assembled : List UInt8 → Nat) (locations : List LocalVarilInfo) (g_Current : Nat)
    (lines : List Token) : Prop where
  sized : ∀ place line, (meaning.code place line).length = assembled line
  units : UnitLines build lines assembled
  object : Object build outside meaning.code
    (unlines (lines.flatMap (emittedOf build outside.env)))
  kinds : ∀ p ∈ lines, lineKind build outside.env p = some .branch ↔
    RealBranch meaning.register p.statement
  branches : ∀ before p after, lines = before ++ p :: after →
    RealBranch meaning.register p.statement →
      BranchRight build outside locations g_Current before p (meaning.target p)

/-- The lines of the input, and the names that a branch can lead to. -/
def Controls.lines (controls : Controls) (outside : Outside) : List Token :=
  strtok outside.env.memory [] controls.editCode

def Controls.locations (controls : Controls) (build : Build) (outside : Outside)
    (g_lvInfos : List LocalVarilInfo) (g_Current : Nat) : List LocalVarilInfo :=
  g_lvInfos ++ boundLabels build outside.env g_Current 0 (controls.lines outside)

variable {build : Build} {env : Environment} {outside : Outside}
  {code : Nat → List UInt8 → List UInt8} {meaning : Meaning} {assembled : List UInt8 → Nat}
  {locations : List LocalVarilInfo} {g_Current : Nat} {lines before after : List Token}

/-- The branches that the lines record, with `sum` in front of them. -/
def recorded (build : Build) (env : Environment) (g_Current : Nat) : Int → List Token → List BLArray
  | _, [] => []
  | sum, p :: rest =>
    match lineKind build env p with
    | none => []
    | some kind =>
      entryOf build g_Current sum p kind ++
        recorded build env g_Current (sum + counted build p kind) rest

theorem analyzeLines_writes {state final : Analysis}
    (ran : analyzeLines build env g_Current state lines = some final) :
    final.lpOutBuf = state.lpOutBuf ++ unlines (lines.flatMap (emittedOf build env)) ∧
      final.lpBLCountBuf = state.lpBLCountBuf ++ recorded build env g_Current state.sum lines := by
  induction lines generalizing state with
  | nil =>
    rw [← Option.some.inj ran, recorded, List.append_nil]
    exact ⟨(List.append_nil _).symm, rfl⟩
  | cons p rest ih =>
    rw [analyzeLines_cons] at ran
    obtain ⟨kind, known, ran⟩ := Option.bind_eq_some_iff.mp ran
    obtain ⟨text, entries⟩ := ih ran
    rw [text, entries, recorded, known, List.flatMap_cons, unlines_append, emittedOf, known]
    exact ⟨List.append_assoc _ _ _, List.append_assoc _ _ _⟩

theorem layOut_append (first second : List (List UInt8)) (place : Nat) :
    layOut code place (first ++ second) =
      layOut code place first ++ layOut code (place + (layOut code place first).length) second := by
  induction first generalizing place with
  | nil => rfl
  | cons line first ih =>
    rw [List.cons_append, layOut, layOut, ih, List.append_assoc, List.length_append, Nat.add_assoc]

theorem layOut_length (sized : ∀ place line, (code place line).length = assembled line)
    (place : Nat) (text : List (List UInt8)) :
    (layOut code place text).length = (text.map assembled).sum := by
  induction text generalizing place with
  | nil => rfl
  | cons line text ih =>
    rw [layOut, List.length_append, ih, sized, List.map_cons, List.sum_cons]

/-- The code of a line is as long as its units say. -/
theorem layOut_emittedOf (sized : ∀ place line, (code place line).length = assembled line)
    (premise : UnitLines build lines assembled) {p : Token} (member : p ∈ lines)
    (through : (lineKind build env p).isSome = true) (place : Nat) :
    (layOut code place (emittedOf build env p)).length = build.unit * units build p := by
  obtain ⟨kind, known⟩ := Option.isSome_iff_exists.mp through
  rw [layOut_length sized, emittedOf, known]
  exact emitted_size premise member known

theorem offsetAfter_append (first second : List Token) :
    offsetAfter build (first ++ second) = offsetAfter build first + offsetAfter build second := by
  rw [offsetAfter, offsetAfter, offsetAfter, List.map_append, List.sum_append, Nat.mul_add]

theorem drifts_append (first second : List Token) :
    drifts build env (first ++ second) = drifts build env first + drifts build env second := by
  rw [drifts, drifts, drifts, List.map_append, List.sum_append]

theorem offsetAfter_singleton (p : Token) : offsetAfter build [p] = build.unit * units build p := by
  simp [offsetAfter]

theorem drifts_singleton (p : Token) : drifts build env [p] = drift build env p := by
  simp [drifts]

/-- The entry that the loop has recorded for a branch line. -/
theorem settle_recorded {sum : Int} {p : Token}
    (counts : sum * build.unit = offsetAfter build before + build.unit * drifts build env before)
    (steady : drifts build env before = 0) (small : offsetAfter build before < 2147483648) :
    (entryOf build g_Current sum p .branch).map (settle env locations) =
      [entryAt env locations g_Current (offsetAfter build before) p] := by
  have offset : armOffset build sum = offsetAfter build before := by
    rw [armOffset, counts, steady, Int.mul_zero, Int.add_zero]
    exact Machine.int32_of_range (by omega) (by omega)
  rw [entryOf, List.map_singleton, entryAt, offset]

/-- A branch is given at least one unit. -/
theorem unit_le_of_branch {p : Token} (known : lineKind build env p = some .branch) :
    build.unit ≤ build.unit * units build p := by
  have full := line_ne_nil known (by decide)
  have ends : ¬p.EndsInColon := fun ends => colon_free known (by decide) (EndsInColon_mem ends)
  rw [units, if_neg (not_or.mpr ⟨full, ends⟩)]
  split <;> omega

theorem encode64_length (assembler : Assembler) (backward : Bool) (dwRange : Nat) (ord : Mnemonic) :
    (encode64 assembler backward dwRange ord).1 ≤ 4 := by
  rw [encode64]
  split
  · exact Nat.zero_le 4
  · split
    · exact Nat.zero_le 4
    · split <;> exact Nat.le_refl 4

/-- Also after an error, which leaves no code. -/
theorem branchCode_eq {entry : BLArray} {ord : Mnemonic}
    (known : outside.mnemonic entry.lpRod = some ord) {found : Nat × List UInt8}
    (clacs : found = match build with
      | .ea64 => clacBL64 outside.assembler entry.dwSrc entry.dwDes ord
      | .ea32 g_nType => clacBL outside.assembler g_nType entry.dwSrc entry.dwDes ord) :
    branchCode build outside entry = found.2.take found.1 := by
  have taken (found : Nat × List UInt8) :
      ((if found.1 = 0 ∧ 256 ≤ found.2.length then none else some (found.1, found.2)).map
        fun found => found.2.take found.1).getD [] = found.2.take found.1 := by
    split
    · rename_i failed
      rw [failed.1]
      rfl
    · rfl
  rw [branchCode, clac, known, clacs]
  cases build with
  | ea64 => exact taken _
  | ea32 g_nType => exact taken _

/-- The code of `ClacBL` for the entry of a branch that comes out right. -/
theorem BranchRight.branchCode {p : Token} {target : Nat}
    (right : BranchRight build outside locations g_Current before p target)
    (isBranch : lineKind build outside.env p = some .branch) :
    branchCode build outside (entryAt outside.env locations g_Current (offsetAfter build before) p) =
        trueBranch build outside (g_Current + offsetAfter build before) target p ∧
      (trueBranch build outside (g_Current + offsetAfter build before) target p).length ≤
        build.unit * PatchArm.units build p := by
  generalize there : entryAt outside.env locations g_Current (offsetAfter build before) p = entry
  have name : entry.lpRod = mnemonicOf p := by rw [← there]; rfl
  have dwDes : entry.dwDes = target % 4294967296 := by rw [← there]; exact right.found
  have dwSrc : entry.dwSrc =
      (((g_Current + offsetAfter build before : Nat) : Int) % 4294967296).toNat := by
    rw [← there, Int.natCast_add, Int.add_comm]
    rfl
  have encodable := right.encodable
  generalize g_Current + offsetAfter build before = source at dwSrc encodable ⊢
  cases build with
  | ea32 g_nType =>
    obtain ⟨encodes, low, lowTarget, ord, known, inRange, correctable, short⟩ := encodable
    have same : entry.dwSrc = source ∧ entry.dwDes = target := by omega
    have length := branchBytes_length g_nType ord source target
    have found : (branchSize g_nType ord, branchBytes g_nType ord source target) =
        clacBL outside.assembler g_nType entry.dwSrc entry.dwDes ord := by
      rw [same.1, same.2, clacBL_correctable encodes inRange correctable]
    have coded := @branchCode_eq (.ea32 g_nType) outside entry ord (name ▸ known) _ found
    simp only [trueBranch, known]
    exact ⟨coded.trans (List.take_of_length_le (Nat.le_of_eq length)), length ▸ short⟩
  | ea64 =>
    have agrees : Agrees source target entry :=
      (agrees_iff dwSrc (dwDes ▸ Nat.mod_lt _ (by decide))).mpr ⟨encodable, dwDes⟩
    cases known : outside.mnemonic (mnemonicOf p) with
    | none =>
      simp only [trueBranch, known]
      refine ⟨?_, Nat.zero_le _⟩
      rw [PatchArm.branchCode, clac, name, known]
      simp only
      split <;> rfl
    | some ord =>
      have found := (agrees.clacBL64 outside.assembler ord).symm
      have coded := @branchCode_eq .ea64 outside entry ord (name ▸ known) _ found
      have four := encode64_length outside.assembler (decide ((target : Int) - source ≤ 0))
        ((target : Int) - source).natAbs ord
      simp only [trueBranch, known]
      exact ⟨coded, (List.length_take_le _ _).trans (four.trans (unit_le_of_branch isBranch))⟩

theorem branchLoop_put {nRetBufLen : Nat} {lpRetBuf result : List UInt8} {entry : BLArray}
    {entries : List BLArray} {place : Nat} (offset : entry.nARMOffset = place)
    (ran : branchLoop build outside nRetBufLen lpRetBuf (entry :: entries) = some (.ok result)) :
    ∃ next, Overlay.put nRetBufLen lpRetBuf place (branchCode build outside entry) = some next ∧
      branchLoop build outside nRetBufLen next entries = some (.ok result) := by
  rcases branchLoop_cons ran with ⟨szOrdBuf, failed⟩ | ⟨found, next, known, put, ran⟩
  · cases failed
  · rw [offset, Int.toNat_natCast] at put
    refine ⟨next, ?_, ran⟩
    rw [branchCode, known]
    exact put

/-- The loop turns the code of the lines into their translation. -/
theorem branchLoop_translates
    (translates : Translates build outside meaning assembled locations g_Current lines)
    (through : ∀ p ∈ lines, (lineKind build outside.env p).isSome = true)
    (small : 4 * lines.length ≤ 2147483648) {nRetBufLen : Nat} {front tail result : List UInt8}
    {sum : Int} (split : lines = before ++ after) (length : front.length = offsetAfter build before)
    (counts : sum * build.unit =
      offsetAfter build before + build.unit * drifts build outside.env before)
    (ran : branchLoop build outside nRetBufLen
      (front ++ (layOut meaning.code front.length (after.flatMap (emittedOf build outside.env)) ++ tail))
      ((recorded build outside.env g_Current sum after).map (settle outside.env locations)) =
        some (.ok result)) :
    result = front ++
      (translation build outside meaning g_Current front.length after ++ tail) := by
  induction after generalizing before front sum with
  | nil =>
    rw [recorded, List.map_nil, branchLoop, Option.some.injEq, Except.ok.injEq] at ran
    exact ran.symm
  | cons p rest ih =>
    have member : p ∈ lines := split ▸ List.mem_append_right _ List.mem_cons_self
    obtain ⟨kind, known⟩ := Option.isSome_iff_exists.mp (through p member)
    have size := layOut_emittedOf translates.sized translates.units member (through p member) front.length
    have next : lines = (before ++ [p]) ++ rest := by
      rw [split, List.append_assoc, List.singleton_append]
    have further : (sum + counted build p kind) * build.unit =
        offsetAfter build (before ++ [p]) + build.unit * drifts build outside.env (before ++ [p]) := by
      rw [Int.add_mul, counts, counted_eq known, offsetAfter_append, drifts_append,
        offsetAfter_singleton, drifts_singleton]
      push_cast
      ring
    have place : offsetAfter build before < 2147483648 := by
      have bound := offsetAfter_le build before
      have count := congrArg List.length split
      rw [List.length_append, List.length_cons] at count
      omega
    rw [List.flatMap_cons, layOut_append, size, recorded, known, List.append_assoc, List.map_append] at ran
    have isReal := translates.kinds p member
    rw [known] at isReal
    rw [translation, lineBytes]
    -- whatever the line becomes, as long as its length stays, the rest lies where it did
    have goesOn (bytes : List UInt8) (same : bytes.length = build.unit * units build p)
        (ran : branchLoop build outside nRetBufLen
          (front ++ (bytes ++ (layOut meaning.code (front.length + build.unit * units build p)
            (rest.flatMap (emittedOf build outside.env)) ++ tail)))
          ((recorded build outside.env g_Current (sum + counted build p kind) rest).map
            (settle outside.env locations)) = some (.ok result)) :
        result = front ++ (bytes ++ translation build outside meaning g_Current
          (front.length + build.unit * units build p) rest ++ tail) := by
      have longer : (front ++ bytes).length = front.length + build.unit * units build p := by
        rw [List.length_append, same]
      have whole := @ih (before ++ [p]) (front ++ bytes) (sum + counted build p kind) next
        (by rw [longer, length, offsetAfter_append, offsetAfter_singleton]) further
        (by rw [longer, List.append_assoc]; exact ran)
      rw [whole, longer, List.append_assoc, List.append_assoc]
    cases kind with
    | branch =>
      have real := isReal.mp rfl
      have right := translates.branches before p rest split real
      obtain ⟨bytes, short⟩ := right.branchCode known
      rw [← length] at bytes short
      rw [settle_recorded counts right.steady place, ← length] at ran
      obtain ⟨filled, put, ran⟩ := @branchLoop_put _ _ _ _ _ _ _ front.length rfl ran
      rw [bytes] at put
      -- the branch covers the front of its placeholder
      rw [Overlay.put_over (by rw [size]; exact short) put] at ran
      rw [if_pos real]
      refine goesOn _ ?_ ran
      rw [List.length_append, List.length_drop, size]
      omega
    | blank | label | copied =>
      rw [if_neg (isReal.not.mp (by decide))]
      exact goesOn _ size ran

/-- `MapFile` takes the code of the lines out of their object file. -/
theorem readObject_code {text lpCode : List UInt8} {nCodeLen : Nat}
    (object : Object build outside code text)
    (read : readObject build outside (outside.assemble (srcText build text)).2 =
      some (nCodeLen, lpCode)) :
    lpCode = layOut code 0 (text.splitOn 0x0A) ∧ nCodeLen = lpCode.length := by
  obtain ⟨file, header, rest, there, offset, layout⟩ := object.layout
  have sound := sentinelPass_sound outside.behind object.absent offset layout
  have enough : (layOut code 0 (text.splitOn 0x0A)).length - 0 < nFileSize build file + 1 := by
    rw [nFileSize_eq offset layout, List.length_append]
    omega
  obtain ⟨dwCodeLen, done, exactly⟩ := Loop.run_total sound (Nat.zero_le _) enough
  rw [there, readObject, mapFile, done, exactly, Option.map_some, ← offset,
    file.memory_middle outside.behind layout, Option.some.injEq, Prod.mk.injEq] at read
  exact ⟨read.2.symm, by rw [← read.1, ← read.2]⟩

theorem emittedOf_plain (whole : ∀ p ∈ lines, ∀ ch ∈ p.text, isBreak ch = false) :
    ∀ line ∈ lines.flatMap (emittedOf build env), 0x0A ∉ line := by
  intro line member
  obtain ⟨p, inside, emits⟩ := List.mem_flatMap.mp member
  rw [emittedOf] at emits
  split at emits
  · cases emits
  · exact emitted_plain (whole p inside) _ line emits

theorem strtok_count {memory : Nat → UInt8} {lpInData : List UInt8}
    (small : lpInData.length < 1073741824) : 4 * (strtok memory [] lpInData).length ≤ 2147483648 := by
  have count := strtok_length memory lpInData []
  rw [if_pos rfl] at count
  omega

/-- What `AnalyzerStr` gives for a text. -/
theorem analyzerStr_gives {g_lvInfos : List LocalVarilInfo} {lpInData : List UInt8} {final : Analysis}
    (ran : analyzerStr build env g_lvInfos lpInData g_Current = some final) :
    (∀ p ∈ strtok env.memory [] lpInData, (lineKind build env p).isSome = true) ∧
      final.lpOutBuf = unlines ((strtok env.memory [] lpInData).flatMap (emittedOf build env)) ∧
      final.lpBLCountBuf = (recorded build env g_Current 0 (strtok env.memory [] lpInData)).map
        (settle env (g_lvInfos ++
          boundLabels build env g_Current 0 (strtok env.memory [] lpInData))) := by
  obtain ⟨state, loop, ran⟩ := Option.bind_eq_some_iff.mp ran
  obtain ⟨resolved, settled, ran⟩ := Option.bind_eq_some_iff.mp ran
  cases ran
  obtain ⟨text, entries⟩ := analyzeLines_writes loop
  have labels := analyzeLines_vlviTmp loop
  have spaced := (mapM_isSome_iff _ _).mp (Option.isSome_of_eq_some settled)
  rw [mapM_settle fun entry member => resolve_isSome.mp (spaced entry member), entries, labels,
    Option.some.injEq] at settled
  exact ⟨(analyzeLines_isSome _).mp (Option.isSome_of_eq_some loop), text, settled.symm⟩

section

variable {controls : Controls} {globals final : Globals} {g_lvInfos : List LocalVarilInfo}

/-- The buffer holds the translation of the lines, and nothing behind it belongs to the code. -/
theorem Assembled.translates {nCodeLen : Nat} {lpRetBuf lpCode : List UInt8} {analysis : Analysis}
    (done : Assembled build outside controls g_lvInfos g_Current nCodeLen lpRetBuf analysis lpCode)
    (small : controls.editCode.length < 1073741824)
    (translates : Translates build outside meaning assembled
      (controls.locations build outside g_lvInfos g_Current) g_Current (controls.lines outside)) :
    lpRetBuf.take nCodeLen =
      translation build outside meaning g_Current 0 (controls.lines outside) := by
  have isAnalyzed := done.analyzed
  rw [PatchArm.analyzed, Option.ite_none_right_eq_some] at isAnalyzed
  obtain ⟨through, text, entries⟩ := analyzerStr_gives isAnalyzed.2
  change ∀ p ∈ controls.lines outside, _ at through
  have plain := @emittedOf_plain build outside.env (controls.lines outside)
    (strtok_break outside.env.memory controls.editCode [] (List.forall_mem_nil _))
  have count : 4 * (controls.lines outside).length ≤ 2147483648 := strtok_count small
  obtain ⟨codeText, length⟩ := readObject_code translates.object (text ▸ done.object)
  obtain ⟨buffer, put, ran⟩ := done.branches
  -- behind the last line feed stands an empty line, which has no code
  have empty (place : Nat) : meaning.code place [] = [] :=
    List.eq_nil_of_length_eq_zero ((translates.sized place []).trans translates.units.empty)
  rw [splitOn_unlines plain, layOut_append, layOut, layOut, empty, List.append_nil,
    List.append_nil] at codeText
  have fits : lpCode.length ≤ (List.replicate controls.nRetBufLen (0 : UInt8)).length := by
    rcases Overlay.put_room put with rfl | room
    · exact Nat.zero_le _
    · omega
  have filled : buffer = lpCode ++ (List.replicate controls.nRetBufLen 0).drop lpCode.length := by
    have laid := @Overlay.put_over UInt8 controls.nRetBufLen buffer lpCode [] _ [] fits
      (by rw [List.append_nil]; exact put)
    rw [laid, List.append_nil, List.nil_append]
  have looped := ran
  rw [filled, entries] at looped
  nth_rewrite 1 [codeText] at looped
  have whole := @branchLoop_translates build outside meaning assembled _ g_Current _ [] _ translates
    through count _ [] _ _ 0 rfl rfl (by simp [offsetAfter, drifts]) looped
  have same := branchLoop_length ran
  rw [whole, filled, List.nil_append, List.length_append, List.length_append] at same
  rw [whole, List.nil_append, List.take_left' (by rw [length]; omega)]
  rfl

end

/-- `nop` and `b 8000`, to be put to 0x8000 -/
def loopControls : Controls where
  arm := true
  editAddr := ascii "00008000"
  editCode := nop ++ [0x0D, 0x0A, 0x62, 0x20, 0x38, 0x30, 0x30, 0x30]

def loopFile : MappedFile where
  bytes := List.replicate 0x34 0 ++ (nopBytes .arm ++ nopBytes .arm ++ (maic ++ []))
  fits := by decide

def loopOutside : Outside where
  env := bareEnvironment
  isLoaded _ := true
  isEnabled _ := true
  assemble _ := ([], some loopFile)
  behind _ := 0
  mnemonic lpRod := if lpRod = [0x62] then some ⟨false, ⟨14, by decide⟩⟩ else none
  complaint _ := errorText
  assembler := plainAssembler

def emptyGlobals : Globals where
  g_nType := .arm
  g_Current := 0
  g_nCodeLen := 0
  g_lvInfos := []
  memory _ := 0

def loopBranch : BLArray where
  dwSrc := 0x8004
  dwDes := 0x8000
  lpRod := [0x62]
  nARMOffset := 4

def loopFinal : Analysis where
  lpOutBuf := nop ++ [0x0A] ++ nop ++ [0x0A]
  vlviTmp := []
  lpBLCountBuf := [loopBranch]
  sum := 2

-- `EAFFFFFD`
def loopBytes : List UInt8 := [0xFD, 0xFF, 0xFF, 0xEA]

theorem clac_loop : clac (.ea32 .arm) loopOutside loopBranch = some (4, loopBytes) := by
  decide +kernel

theorem loop_assembled : Assembled (.ea32 .arm) loopOutside loopControls [] 0x8000 8
    (nopBytes .arm ++ loopBytes ++ List.replicate 4088 0) loopFinal
    (nopBytes .arm ++ nopBytes .arm) := by
  have fits : Fits loopControls.editCode.length
      (runStores (.ea32 .arm) bareEnvironment [] loopControls.editCode 0x8000) := by decide
  have read : mapFile (.ea32 .arm) loopFile (fun _ => 0) = some (8, nopBytes .arm ++ nopBytes .arm) := by
    decide +kernel
  have zeros : List.replicate 4096 (0 : UInt8) = List.replicate 8 0 ++ List.replicate 4088 0 := by
    rw [List.replicate_append_replicate]
  refine ⟨(if_pos fits).trans rfl, read, nopBytes .arm ++ (nopBytes .arm ++ List.replicate 4088 0), ?_, ?_⟩
  · have put := @Overlay.put_replaces UInt8 4096 (nopBytes .arm ++ nopBytes .arm) []
      (List.replicate 8 0) (List.replicate 4088 0) rfl (by decide)
    change Overlay.put 4096 (List.replicate 4096 0) 0 _ = _
    rw [zeros]
    exact put
  · have put := @Overlay.put_replaces UInt8 4096 loopBytes (nopBytes .arm) (nopBytes .arm)
      (List.replicate 4088 0) rfl (by decide)
    exact branchLoop_next clac_loop (by decide) rfl put []

theorem loop_accepted : loopControls.Accepted false loopOutside :=
  ⟨by decide, by decide, by decide, rfl⟩

theorem loop_ran (globals : Globals) (names : globals.g_lvInfos = []) :
    onButtonCalc false loopOutside loopControls globals =
      some (patchCode (.ea32 .arm) loopOutside (globals.addressed false loopControls) 8
        (nopBytes .arm ++ loopBytes ++ List.replicate 4088 0)) := by
  have silent : (myWinExec 4096 []).bind (strFindStr · errorText) = some (-1) := by decide +kernel
  refine loop_accepted.onButtonCalc_eq ?_
  rw [names]
  exact loop_assembled.assembleCode_eq (by decide) (by decide +kernel) silent (by decide)

end IDAPlugins.PatchArm
