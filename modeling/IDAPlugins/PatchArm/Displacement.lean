import IDAPlugins.PatchArm.Bookkeeping
import IDAPlugins.PatchArm.ClacBL

namespace IDAPlugins.PatchArm

/-! # Displacements in the 64-bit build

The branch table keeps 32 bits of an address. `ClacBL` of the 64-bit build takes the
direction of a branch and its distance from two such entries. A target that is written
as a number goes through `strtoul`, which stops at 32 bits.
-/

def forwardLines64 (dwRange : Nat) (ord : Mnemonic) : List AsmLine :=
  [.org 0x10, .branch ord .asmgen, .org (dwRange + 0x10), .label .asmgen]

def offsetToArm64 : Nat := 0x50

/-- What the assembler makes of a branch over a distance. -/
def encode64 (assembler : Assembler) (backward : Bool) (dwRange : Nat) (szOrdBuf : Mnemonic) :
    Nat × List UInt8 :=
  match assembler (if backward then backwardLines dwRange szOrdBuf
    else forwardLines64 dwRange szOrdBuf) with
  | none => (0, [])
  | some (console, file) =>
    if errorText <:+: console then (0, console)
    else if backward then (4, bytesAt file (offsetToArm64 + dwRange) 4)
    else (4, bytesAt file offsetToArm64 4)

def dwRange64 (dwSrc dwDes : Nat) : Nat :=
  if dwSrc ≥ dwDes then dwSrc - dwDes else dwDes - dwSrc

/-- `ClacBL` of the 64-bit build. -/
def clacBL64 (assembler : Assembler) (dwSrc dwDes : Nat) (szOrdBuf : Mnemonic) : Nat × List UInt8 :=
  encode64 assembler (decide (dwSrc ≥ dwDes)) (dwRange64 dwSrc dwDes) szOrdBuf

/-- Direction and distance of an entry are those of the addresses themselves. -/
structure Agrees (source : Int) (target : Nat) (entry : BLArray) : Prop where
  direction : entry.dwSrc ≥ entry.dwDes ↔ (target : Int) - source ≤ 0
  distance : dwRange64 entry.dwSrc entry.dwDes = ((target : Int) - source).natAbs

def SameBlock (source : Int) (target : Nat) : Prop :=
  source / 4294967296 = (target : Int) / 4294967296

instance (source : Int) (target : Nat) : Decidable (SameBlock source target) :=
  inferInstanceAs (Decidable (_ = _))

/-- The argument of `GetDesAddr` for a line, without its blanks. -/
def operand (p : Token) : List UInt8 :=
  (p.line.dropWhile (· != 0x20)).filter (!isBlank ·)

/-- The operand is a number in hexadecimal, with or without `0x`. -/
structure HexNumber (text : List UInt8) (value : Nat) : Prop where
  written : ∃ digits, ((lowerCase text 0).1 = digits ∨ (lowerCase text 0).1 = 0x30 :: 0x78 :: digits) ∧
    (∀ ch ∈ digits, (hexDigit ch).isSome = true) ∧ hexValue 0 digits = value

/-- The labels that the lines bind, with `sum` in front of them. -/
def boundLabels (build : Build) (env : Environment) (dwCurrentAddr : Nat) :
    Int → List Token → List LocalVarilInfo
  | _, [] => []
  | sum, p :: rest =>
    match lineKind build env p with
    | none => []
    | some kind =>
      labelOf build dwCurrentAddr sum p kind ++
        boundLabels build env dwCurrentAddr (sum + counted build p kind) rest

/-- `GetDesAddr` takes the text for a number. -/
def spelledHex (szBuf : List UInt8) : Bool :=
  (lowerCase szBuf 0).1.all (szTable.contains ·)

/-- The name leads to the low 32 bits of the target: as a number where it is spelled
like one, else through the first location with that name. -/
def LeadsTo (locations : List LocalVarilInfo) (szName : List UInt8) (target : Nat) : Prop :=
  if spelledHex szName then
    strtoul (lowerCase szName 0).1 = target % 4294967296
  else
    (locations.find? (·.szName == szName)).map (·.dwAddr % 4294967296) =
      some (target % 4294967296)

variable {env : Environment} {dwCurrentAddr : Nat} {build : Build}

/-- An entry with the low 32 bits of its source agrees exactly if its other address
has those of the target, and no multiple of 4 GB lies between the two. -/
theorem agrees_iff {source : Int} {target : Nat} {entry : BLArray}
    (dwSrc : entry.dwSrc = (source % 4294967296).toNat) (dwDes : entry.dwDes < 4294967296) :
    Agrees source target entry ↔
      SameBlock source target ∧ entry.dwDes = target % 4294967296 := by
  constructor
  · intro ⟨direction, distance⟩
    rw [SameBlock]
    unfold dwRange64 at distance
    split at distance <;> omega
  · intro ⟨block, same⟩
    rw [SameBlock] at block
    constructor
    · omega
    · unfold dwRange64
      split <;> omega

/-- An entry that agrees has `ClacBL` encode the branch over the true displacement. -/
theorem Agrees.clacBL64 {source : Int} {target : Nat} {entry : BLArray}
    (agrees : Agrees source target entry) (assembler : Assembler) (szOrdBuf : Mnemonic) :
    clacBL64 assembler entry.dwSrc entry.dwDes szOrdBuf =
      encode64 assembler (decide ((target : Int) - source ≤ 0)) ((target : Int) - source).natAbs
        szOrdBuf := by
  rw [PatchArm.clacBL64, agrees.distance, decide_eq_decide.mpr agrees.direction]

theorem saturates_iff (value : Nat) :
    min value 4294967295 = value % 4294967296 ↔
      value < 4294967296 ∨ value % 4294967296 = 4294967295 := by
  omega

theorem modify_length {α : Type} (front rest : List α) (ch : α) (f : α → α) :
    (front ++ ch :: rest).modify front.length f = front ++ f ch :: rest := by
  induction front with
  | nil => rfl
  | cons first front ih =>
    rw [List.cons_append, List.length_cons, List.modify_succ_cons, ih, List.cons_append]

/-- The capital letters come back where they stood. -/
theorem restoreCase_lowerCase (front text : List UInt8) :
    restoreCase (front ++ (lowerCase text front.length).1) (lowerCase text front.length).2 =
      front ++ text := by
  induction text generalizing front with
  | nil => rfl
  | cons ch text ih =>
    have rest (letter : UInt8) := ih (front ++ [letter])
    simp only [List.length_append, List.length_singleton, List.append_assoc,
      List.singleton_append] at rest
    rw [lowerCase]
    by_cases upper : isUpper ch = true
    · have restored : (front ++ (ch + 0x20) :: (lowerCase text (front.length + 1)).1).modify
          front.length (· - 0x20) = front ++ ch :: (lowerCase text (front.length + 1)).1 := by
        rw [modify_length, UInt8.add_sub_cancel]
      simp only [upper, if_true]
      rw [restoreCase, List.foldl_cons, restored]
      exact rest ch
    · simp only [upper, if_false, Bool.false_eq_true]
      exact rest ch

/-- `GetDesAddr` reads a number, or looks for the text as it was written. -/
theorem getDesAddr_eq {lpInBuf szName : List UInt8}
    (named : lpInBuf.filter (!isBlank ·) = szName) (locations : List LocalVarilInfo) :
    getDesAddr env lpInBuf locations =
      if spelledHex szName then strtoul (lowerCase szName 0).1
      else
        ((locations.find? (·.szName == szName)).map (·.dwAddr)).getD (env.get_name_ea szName) %
          4294967296 := by
  have restored : restoreCase (lowerCase szName 0).1 (lowerCase szName 0).2 = szName :=
    restoreCase_lowerCase [] szName
  rw [getDesAddr, named, spelledHex]
  simp only [restored]
  cases locations.find? (·.szName == szName) <;> rfl

/-- What `GetDesAddr` makes of a name that is among the locations. -/
theorem getDesAddr_leadsTo_iff {lpInBuf szName : List UInt8} {locations : List LocalVarilInfo}
    (named : lpInBuf.filter (!isBlank ·) = szName) {lviTmp : LocalVarilInfo}
    (member : lviTmp ∈ locations) (name : lviTmp.szName = szName) (target : Nat) :
    getDesAddr env lpInBuf locations = target % 4294967296 ↔ LeadsTo locations szName target := by
  rw [getDesAddr_eq named, LeadsTo]
  by_cases hex : spelledHex szName = true
  · rw [if_pos hex, if_pos hex]
  · rw [if_neg hex, if_neg hex]
    cases found : locations.find? (·.szName == szName) with
    | none =>
      have absent := List.find?_eq_none.mp found lviTmp member
      exact absurd (beq_iff_eq.mpr name) absent
    | some first =>
      rw [Option.map_some, Option.map_some, Option.getD_some, Option.some.injEq]

theorem spelledHex_of_number {text : List UInt8} {value : Nat} (number : HexNumber text value) :
    spelledHex text = true := by
  obtain ⟨digits, shape, hex, -⟩ := number.written
  have table : ∀ ch, (hexDigit ch).isSome = true → szTable.contains ch = true :=
    Machine.forall_byte (by decide +kernel)
  rw [spelledHex, List.all_eq_true]
  rcases shape with plain | marked
  · rw [plain]
    exact fun ch member => table ch (hex ch member)
  · rw [marked]
    intro ch member
    rcases List.mem_cons.mp member with zero | rest
    · rw [zero]
      decide
    · rcases List.mem_cons.mp rest with mark | rest
      · rw [mark]
        decide
      · exact table ch (hex ch rest)

theorem strtoul_number {text : List UInt8} {value : Nat} (number : HexNumber text value) :
    strtoul (lowerCase text 0).1 = min value 4294967295 := by
  obtain ⟨digits, shape, hex, same⟩ := number.written
  rcases shape with plain | marked
  · rw [plain, ← same]
    unfold strtoul
    split
    · have mark := hex 0x78 (by simp)
      exact absurd mark (by decide)
    · rfl
  · rw [marked, ← same]
    rfl

/-- A number is cut off at 32 bits. -/
theorem getDesAddr_number {lpInBuf : List UInt8} {value : Nat}
    (number : HexNumber (lpInBuf.filter (!isBlank ·)) value) (locations : List LocalVarilInfo) :
    getDesAddr env lpInBuf locations = min value 4294967295 := by
  rw [getDesAddr_eq rfl, if_pos (spelledHex_of_number number), strtoul_number number]

theorem analyzeLines_vlviTmp {lines : List Token} {state final : Analysis}
    (ran : analyzeLines build env dwCurrentAddr state lines = some final) :
    final.vlviTmp = state.vlviTmp ++ boundLabels build env dwCurrentAddr state.sum lines := by
  induction lines generalizing state with
  | nil =>
    rw [← Option.some.inj ran, boundLabels, List.append_nil]
  | cons p rest ih =>
    rw [analyzeLines_cons] at ran
    obtain ⟨kind, known, ran⟩ := Option.bind_eq_some_iff.mp ran
    rw [ih ran, boundLabels, known]
    exact List.append_assoc _ _ _

theorem mapM_getElem? {α β : Type} {f : α → Option β} {values : List α} {results : List β}
    (ran : values.mapM f = some results) {index : Nat} {value : α}
    (there : values[index]? = some value) :
    ∃ result, f value = some result ∧ results[index]? = some result := by
  induction values generalizing results index with
  | nil => cases there
  | cons head rest ih =>
    rw [List.mapM_cons] at ran
    obtain ⟨first, mapped, ran⟩ := Option.bind_eq_some_iff.mp ran
    obtain ⟨others, tail, ran⟩ := Option.bind_eq_some_iff.mp ran
    cases ran
    cases index with
    | zero =>
      rw [List.getElem?_cons_zero] at there
      exact ⟨first, Option.some.inj there ▸ mapped, rfl⟩
    | succ index => exact ih tail there

theorem drop_idxOf? {line : List UInt8} {space : Nat} (found : line.idxOf? 0x20 = some space) :
    line.drop space = line.dropWhile (· != 0x20) := by
  induction line generalizing space with
  | nil => cases found
  | cons ch line ih =>
    rw [List.idxOf?_cons] at found
    cases blank : ch == 0x20 with
    | true =>
      rw [blank, if_pos rfl] at found
      rw [← Option.some.inj found, List.drop_zero, List.dropWhile_cons_of_neg (by simp [bne, blank])]
    | false =>
      rw [blank, if_neg Bool.false_ne_true] at found
      obtain ⟨index, further, rfl⟩ := Option.map_eq_some_iff.mp found
      rw [List.drop_succ_cons, List.dropWhile_cons_of_pos (by simp [bne, blank]), ih further]

/-- The entry of a branch line when `AnalyzerStr` returns. -/
theorem analyzerStr_entry {g_lvInfos : List LocalVarilInfo} {lpInData : List UInt8}
    {final earlier : Analysis} {before after : List Token} {p : Token}
    (ran : analyzerStr build env g_lvInfos lpInData dwCurrentAddr = some final)
    (split : strtok env.memory [] lpInData = before ++ p :: after)
    (branch : lineKind build env p = some .branch)
    (first : analyzeLines build env dwCurrentAddr (initial g_lvInfos) before = some earlier) :
    ∃ entry, final.lpBLCountBuf[earlier.lpBLCountBuf.length]? = some entry ∧
      entry.dwSrc = ((entry.nARMOffset + dwCurrentAddr) % 4294967296).toNat ∧
      ∃ lpInBuf, lpInBuf.filter (!isBlank ·) = operand p ∧
        entry.dwDes = getDesAddr env lpInBuf
          (g_lvInfos ++ boundLabels build env dwCurrentAddr 0 (strtok env.memory [] lpInData)) := by
  obtain ⟨state, loop, ran⟩ := Option.bind_eq_some_iff.mp ran
  obtain ⟨resolved, settled, ran⟩ := Option.bind_eq_some_iff.mp ran
  cases ran
  have recorded := recorded_entry (split ▸ loop) first branch
  obtain ⟨entry, resolves, there⟩ := mapM_getElem? settled recorded
  obtain ⟨space, found, same⟩ := Option.map_eq_some_iff.mp resolves
  refine ⟨entry, there, ?_, p.line.drop space, ?_, ?_⟩
  · rw [← same]
  · rw [operand, drop_idxOf? found]
  · rw [← same, analyzeLines_vlviTmp loop]
    rfl

theorem getDesAddr_lt (lpInBuf : List UInt8) (locations : List LocalVarilInfo) :
    getDesAddr env lpInBuf locations < 4294967296 := by
  rw [getDesAddr_eq rfl]
  split
  · exact Nat.lt_succ_of_le (Nat.min_le_right _ _)
  · exact Nat.mod_lt _ (by decide)

/-- In the 64-bit build an entry gives the true direction and distance of a branch to a number
exactly if the number has at most 32 bits, or only ones in its low 32, and of a branch to a
label exactly if the name leads to it; and both times only within one block of 4 GB. -/
theorem displacement_agrees_iff {g_lvInfos : List LocalVarilInfo} {lpInData : List UInt8}
    {final earlier : Analysis} {before after : List Token} {p : Token}
    (ran : analyzerStr .ea64 env g_lvInfos lpInData dwCurrentAddr = some final)
    (split : strtok env.memory [] lpInData = before ++ p :: after)
    (branch : lineKind .ea64 env p = some .branch)
    (first : analyzeLines .ea64 env dwCurrentAddr (initial g_lvInfos) before = some earlier) :
    ∃ entry, final.lpBLCountBuf[earlier.lpBLCountBuf.length]? = some entry ∧
      (∀ target, HexNumber (operand p) target →
        (Agrees (dwCurrentAddr + entry.nARMOffset) target entry ↔
          SameBlock (dwCurrentAddr + entry.nARMOffset) target ∧
            (target < 4294967296 ∨ target % 4294967296 = 4294967295))) ∧
      ∀ label ∈ boundLabels .ea64 env dwCurrentAddr 0 (strtok env.memory [] lpInData),
        label.szName = operand p →
          (Agrees (dwCurrentAddr + entry.nARMOffset) label.dwAddr entry ↔
            SameBlock (dwCurrentAddr + entry.nARMOffset) label.dwAddr ∧
              LeadsTo
                (g_lvInfos ++ boundLabels .ea64 env dwCurrentAddr 0 (strtok env.memory [] lpInData))
                (operand p) label.dwAddr) := by
  obtain ⟨entry, there, source, lpInBuf, text, destination⟩ := analyzerStr_entry ran split branch first
  have dwSrc : entry.dwSrc = ((dwCurrentAddr + entry.nARMOffset : Int) % 4294967296).toNat := by
    rw [source, Int.add_comm]
  have dwDes : entry.dwDes < 4294967296 := destination ▸ getDesAddr_lt lpInBuf _
  refine ⟨entry, there, ?_, ?_⟩
  · intro target number
    rw [agrees_iff dwSrc dwDes, destination, getDesAddr_number (text ▸ number), saturates_iff]
  · intro label member name
    rw [agrees_iff dwSrc dwDes, destination,
      getDesAddr_leadsTo_iff text (List.mem_append_right g_lvInfos member) name]

/-- The label `L`, `BL 8100` and `b L`, line by line. -/
def lowText : List UInt8 :=
  [0x4C, 0x3A, 0x0A, 0x42, 0x4C, 0x20, 0x38, 0x31, 0x30, 0x30, 0x0A, 0x62, 0x20, 0x4C]

def numberEntry : BLArray where
  dwSrc := 0x8000
  dwDes := 0x8100
  lpRod := [0x42, 0x4C]
  nARMOffset := 0

def labelEntry : BLArray where
  dwSrc := 0x8004
  dwDes := 0x8000
  lpRod := [0x62]
  nARMOffset := 4

theorem displacement_agrees_low :
    ∃ final, analyzerStr .ea64 bareEnvironment [] lowText 0x8000 = some final ∧
      final.lpBLCountBuf = [numberEntry, labelEntry] ∧
      Agrees 0x8000 0x8100 numberEntry ∧ Agrees 0x8004 0x8000 labelEntry := by
  obtain ⟨final, ran⟩ : ∃ final,
      analyzerStr .ea64 bareEnvironment [] lowText 0x8000 = some final := ⟨_, rfl⟩
  have recorded : final.lpBLCountBuf = [numberEntry, labelEntry] := by
    cases ran
    rfl
  refine ⟨final, ran, recorded, ?_, ?_⟩
  · have split : strtok bareEnvironment.memory [] lowText = [_] ++ _ :: [_] := rfl
    obtain ⟨entry, there, number, -⟩ := displacement_agrees_iff ran split (by decide) rfl
    rw [recorded] at there
    have same : numberEntry = entry := Option.some.inj there
    have written : HexNumber [0x38, 0x31, 0x30, 0x30] 0x8100 :=
      ⟨[0x38, 0x31, 0x30, 0x30], Or.inl (by decide),
        List.forall_iff_forall_mem.mp (by decide), by decide⟩
    rw [← same] at number
    exact (number 0x8100 written).mpr ⟨by decide, Or.inl (by decide)⟩
  · have split : strtok bareEnvironment.memory [] lowText = [_, _] ++ _ :: [] := rfl
    obtain ⟨entry, there, -, label⟩ := displacement_agrees_iff ran split (by decide) rfl
    rw [recorded] at there
    have same : labelEntry = entry := Option.some.inj there
    have leads : LeadsTo [{ szName := [0x4C], dwAddr := 0x8000 }] [0x4C] 0x8000 := by
      rw [LeadsTo, if_neg (by decide)]
      rfl
    rw [← same] at label
    exact (label { szName := [0x4C], dwAddr := 0x8000 } (List.mem_singleton.mpr rfl) rfl).mpr
      ⟨by decide, leads⟩

/-- `BL 100000100` -/
def branchHigh : List UInt8 :=
  [0x42, 0x4C, 0x20, 0x31, 0x30, 0x30, 0x30, 0x30, 0x30, 0x31, 0x30, 0x30]

/-- From 4 GB on, a target of 33 bits is recorded as `0xFFFFFFFF`. -/
theorem displacement_saturates :
    ∃ final entry, analyzerStr .ea64 bareEnvironment [] branchHigh 0x100000000 = some final ∧
      final.lpBLCountBuf[0]? = some entry ∧ entry.nARMOffset = 0 ∧ entry.dwSrc = 0 ∧
      entry.dwDes = 0xFFFFFFFF ∧ ¬Agrees (0x100000000 + entry.nARMOffset) 0x100000100 entry := by
  refine ⟨_, { dwSrc := 0, dwDes := 0xFFFFFFFF, lpRod := [0x42, 0x4C], nARMOffset := 0 }, rfl, rfl,
    rfl, rfl, rfl, fun agrees => ?_⟩
  exact absurd agrees.distance (by decide)

end IDAPlugins.PatchArm
