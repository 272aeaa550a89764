import IDAPlugins.PatchArm.Assembler

namespace IDAPlugins.PatchArm

/-! # Encoding one branch

`ClacBL` of the 32-bit build has the assembler encode a branch over a distance
rounded to 16 bytes and corrects the result by the rest of the distance.
-/

def prologue (g_nType : Mode) : List AsmLine :=
  [.globl .start, .align 2, .label .start, .code .arm] ++
    match g_nType with
    | .arm => []
    | .thumb => [.adrR0 .thumb 1, .bxR0, .label .thumb, .code .thumb]

def backwardLines (dwRange : Nat) (ord : Mnemonic) : List AsmLine :=
  [.org 0x10, .label .asmgen, .org (dwRange + 0x10), .branch ord .asmgen, .nop, .nop]

def forwardLines (dwRange : Nat) (ord : Mnemonic) : List AsmLine :=
  [.org 0x10, .branch ord .asmgen, .nop, .nop, .org (dwRange + 0x10 + 12), .label .asmgen]

def offsetToArm : Nat := 0x44

def bytesAt (file : List UInt8) (offset size : Nat) : List UInt8 :=
  (file.drop offset).take size

def addByte (byte : UInt8) (n : Int) : UInt8 :=
  UInt8.ofNat ((byte.toNat + n) % 256).toNat

/-- Whether the two halfwords behind the first one are `nop`: then it was a whole branch. -/
def ordLength (g_nType : Mode) (file : List UInt8) (offset : Nat) : Nat :=
  if g_nType = .thumb ∧ bytesAt file (offset + 2) 4 = le32 0x46C046C0 then 2 else 4

/-- The addition over the first three bytes, copied into a `DWORD` and back. -/
def addThree (szRetBuf : List UInt8) (n : Int) : List UInt8 :=
  let dwTmp := (szRetBuf.getD 0 0).toNat + 256 * (szRetBuf.getD 1 0).toNat +
    65536 * (szRetBuf.getD 2 0).toNat
  let dwTmp := ((dwTmp + n) % 4294967296).toNat
  (le32 dwTmp).take 3 ++ szRetBuf.drop 3

def rounded (distance : Nat) : Nat :=
  distance / 0x10 * 0x10

def remainder (g_nType : Mode) (distance : Nat) : Nat :=
  match g_nType with
  | .arm => distance % 0x10 / 2 / 2
  | .thumb => distance % 0x10 / 2

/-- Returns `nOrdLen` and `lpOutBuf`; the length is `0` after an error. -/
def clacBL (assembler : Assembler) (g_nType : Mode) (dwSrc dwDes : Nat) (szOrdBuf : Mnemonic) :
    Nat × List UInt8 :=
  let distance := if dwSrc ≥ dwDes then dwSrc - dwDes else dwDes - dwSrc
  let dwRange := rounded distance
  let dwRem := remainder g_nType distance
  let szTmpBuf := if dwSrc ≥ dwDes then backwardLines dwRange szOrdBuf
    else forwardLines dwRange szOrdBuf
  match assembler (prologue g_nType ++ szTmpBuf) with
  | none => (0, [])
  | some (console, file) =>
    if errorText <:+: console then
      (0, console)
    else if dwSrc ≥ dwDes then
      let nOrdLen := ordLength g_nType file (offsetToArm + dwRange)
      let szRetBuf := bytesAt file (offsetToArm + dwRange) nOrdLen
      match g_nType with
      | .thumb => (nOrdLen, szRetBuf.modify (nOrdLen - 2) (addByte · (-dwRem)))
      | .arm => (nOrdLen, szRetBuf.modify 0 (addByte · (-dwRem)))
    else
      let dwRem := (dwRem : Int) - 3
      let nOrdLen := ordLength g_nType file offsetToArm
      let szRetBuf := bytesAt file offsetToArm nOrdLen
      match g_nType with
      -- The 3 units are taken off a second time: a Thumb unit is two bytes.
      | .thumb => (nOrdLen, szRetBuf.modify (nOrdLen - 2) (addByte · (dwRem - 3)))
      | .arm => (nOrdLen, addThree szRetBuf dwRem)

theorem branchBytes_length (mode : Mode) (ord : Mnemonic) (address target : Nat) :
    (branchBytes mode ord address target).length = branchSize mode ord := by
  cases mode with
  | arm => rfl
  | thumb =>
    simp only [branchBytes, thumbBranch, branchSize]
    split
    · rfl
    · split <;> rfl

theorem branchSize_pos (mode : Mode) (ord : Mnemonic) : 0 < branchSize mode ord := by
  cases mode with
  | arm => exact Nat.succ_pos 3
  | thumb =>
    unfold branchSize
    simp only
    split <;> exact Nat.succ_pos _

/-- What stands before the branch: the prologue, and zeros up to its address. -/
def front (mode : Mode) (fill : Nat) : List UInt8 :=
  (match mode with
    | .arm => List.replicate 16 0
    | .thumb => le32 0xE28F0001 ++ (le32 0xE12FFF10 ++ List.replicate 8 0)) ++
    List.replicate fill 0

theorem front_length (mode : Mode) (fill : Nat) : (front mode fill).length = fill + 16 := by
  cases mode <;> simp [front, le32]

/-- Where the prologue ends, and the bytes before. -/
def prologueEnd : Mode → Nat
  | .arm => 0
  | .thumb => 8

def prologueBytes : Mode → List UInt8
  | .arm => []
  | .thumb => le32 0xE28F0001 ++ le32 0xE12FFF10

theorem assemble_prologue (mode : Mode) (rest : List AsmLine) :
    assemble (prologue mode ++ rest) =
      (assembleFrom (fun label => findLabel label { mode := .arm, address := 0 }
        (prologue mode ++ rest)) { mode, address := prologueEnd mode } rest).map
          (prologueBytes mode ++ ·) := by
  cases mode with
  | arm => simp [assemble, prologue, prologueEnd, prologueBytes, assembleFrom, AsmLine.advance,
      AsmLine.encode]
  | thumb => simp [assemble, prologue, prologueEnd, prologueBytes, assembleFrom, AsmLine.advance,
      AsmLine.encode, findLabel, Option.map_eq_bind, Option.bind_assoc]

theorem findLabel_prologue (mode : Mode) (rest : List AsmLine) :
    findLabel .asmgen { mode := .arm, address := 0 } (prologue mode ++ rest) =
      findLabel .asmgen { mode, address := prologueEnd mode } rest := by
  cases mode <;> rfl

/-- The file for a backward branch holds it at its own address, before two `nop`s. -/
theorem assemble_backward (mode : Mode) (ord : Mnemonic) (dwRange : Nat) :
    assemble (prologue mode ++ backwardLines dwRange ord) =
      if InRange mode ord (dwRange + 16) 16 then
        some (front mode dwRange ++ (branchBytes mode ord (dwRange + 16) 16 ++
          (nopBytes mode ++ (nopBytes mode ++ []))))
      else none := by
  have room : prologueEnd mode ≤ 16 := by cases mode <;> decide
  rw [assemble_prologue]
  simp only [backwardLines, assembleFrom, AsmLine.advance, AsmLine.encode, findLabel_prologue,
    findLabel, if_pos room, Option.bind_eq_bind, Option.bind_some, if_true, Nat.le_add_left]
  split
  · cases mode <;> rfl
  · rfl

/-- The file for a forward branch holds it at 16, before two `nop`s. -/
theorem assemble_forward (mode : Mode) (ord : Mnemonic) (dwRange : Nat) :
    ∃ fill, assemble (prologue mode ++ forwardLines dwRange ord) =
      if InRange mode ord 16 (dwRange + 28) then
        some (front mode 0 ++ (branchBytes mode ord 16 (dwRange + 28) ++
          (nopBytes mode ++ (nopBytes mode ++ List.replicate fill 0))))
      else none := by
  have room : prologueEnd mode ≤ 16 := by cases mode <;> decide
  have space : 16 + branchSize mode ord + unit mode + unit mode ≤ dwRange + 28 := by
    have size : branchSize mode ord + 2 * unit mode ≤ 12 := by
      obtain ⟨link, condition⟩ := ord
      cases mode <;> cases link <;> simp [branchSize, unit]
    omega
  refine ⟨dwRange + 28 - (16 + branchSize mode ord + unit mode + unit mode), ?_⟩
  rw [assemble_prologue]
  simp only [forwardLines, assembleFrom, AsmLine.advance, AsmLine.encode, findLabel_prologue,
    findLabel, if_pos room, Nat.add_assoc dwRange, Nat.reduceAdd, if_pos space, Option.bind_eq_bind,
    Option.bind_some, List.append_nil, if_true]
  split
  · cases mode <;> rfl
  · rfl

theorem bytesAt_code {header : List UInt8} (mode : Mode) (code trailer : List UInt8)
    (fill i size : Nat) (headed : header.length = 0x34) :
    bytesAt (header ++ (front mode fill ++ code ++ trailer)) (offsetToArm + fill + i) size =
      ((code ++ trailer).drop i).take size := by
  have before : (header ++ front mode fill).length = offsetToArm + fill := by
    rw [List.length_append, headed, front_length, offsetToArm]
    omega
  rw [bytesAt, List.append_assoc, ← List.append_assoc, ← before, List.drop_length_add_append]

/-- A Thumb branch is told from a pair by the two `nop`s behind it. -/
theorem ordLength_eq (mode : Mode) (ord : Mnemonic) (address target fill : Nat)
    {header rest trailer : List UInt8} (headed : header.length = 0x34) :
    ordLength mode (header ++ (front mode fill ++
        (branchBytes mode ord address target ++ (nopBytes mode ++ (nopBytes mode ++ rest))) ++
          trailer)) (offsetToArm + fill) = branchSize mode ord := by
  obtain ⟨link, condition⟩ := ord
  rw [ordLength, bytesAt_code mode _ _ fill 2 4 headed]
  cases mode with
  | arm => rfl
  | thumb =>
    cases link with
    | false =>
      by_cases plain : condition = 14 <;>
        simp [branchBytes, thumbBranch, plain, branchSize, le16, le32, nopBytes]
    | true =>
      refine if_neg ?_
      rintro ⟨-, same⟩
      simp only [branchBytes, thumbBranch, if_true, le16, le32, List.cons_append, List.nil_append,
        List.drop_succ_cons, List.drop_zero, List.take_succ_cons, List.cons.injEq] at same
      have top := congrArg UInt8.toNat same.2.1
      rw [UInt8.toNat_ofNat', UInt8.toNat_ofNat'] at top
      omega

def correctedBack (mode : Mode) (ord : Mnemonic) (bytes : List UInt8) (dwRem : Nat) :
    List UInt8 :=
  match mode with
  | .thumb => bytes.modify (branchSize mode ord - 2) (addByte · (-dwRem))
  | .arm => bytes.modify 0 (addByte · (-dwRem))

def correctedAhead (mode : Mode) (ord : Mnemonic) (bytes : List UInt8) (dwRem : Int) :
    List UInt8 :=
  match mode with
  | .thumb => bytes.modify (branchSize mode ord - 2) (addByte · (dwRem - 3))
  | .arm => addThree bytes dwRem

variable {assembler : Assembler} {mode : Mode} {ord : Mnemonic} {dwSrc dwDes : Nat}

theorem read_branch (encodes : Encodes assembler) {program : List AsmLine} {rest : List UInt8}
    {address target fill : Nat}
    (assembled : assemble program = some (front mode fill ++
      (branchBytes mode ord address target ++ (nopBytes mode ++ (nopBytes mode ++ rest))))) :
    ∃ console file, ¬ errorText <:+: console ∧ assembler program = some (console, file) ∧
      ordLength mode file (offsetToArm + fill) = branchSize mode ord ∧
      bytesAt file (offsetToArm + fill) (branchSize mode ord) =
        branchBytes mode ord address target := by
  have encoded := encodes program
  rw [assembled] at encoded
  obtain ⟨console, header, trailer, silent, headed, ran⟩ := encoded
  refine ⟨console, _, silent, ran, ordLength_eq mode ord address target fill headed, ?_⟩
  have read := bytesAt_code mode (branchBytes mode ord address target ++
    (nopBytes mode ++ (nopBytes mode ++ rest))) trailer fill 0 (branchSize mode ord) headed
  rw [Nat.add_zero, List.drop_zero, List.append_assoc (branchBytes mode ord address target),
    List.take_left' (branchBytes_length mode ord address target)] at read
  exact read

/-- A backward branch comes back as the branch over the rounded distance, corrected. -/
theorem clacBL_backward (encodes : Encodes assembler) (order : dwDes ≤ dwSrc)
    (inRange : InRange mode ord (rounded (dwSrc - dwDes) + 16) 16) :
    clacBL assembler mode dwSrc dwDes ord =
      (branchSize mode ord, correctedBack mode ord
        (branchBytes mode ord (rounded (dwSrc - dwDes) + 16) 16)
        (remainder mode (dwSrc - dwDes))) := by
  have assembled := assemble_backward mode ord (rounded (dwSrc - dwDes))
  rw [if_pos inRange] at assembled
  obtain ⟨console, file, silent, ran, length, read⟩ := read_branch encodes assembled
  cases mode <;>
    simp only [clacBL, ge_iff_le, if_pos order, ran, if_neg silent, length, read, correctedBack]

/-- A forward branch likewise, 12 bytes further than the rounded distance. -/
theorem clacBL_forward (encodes : Encodes assembler) (order : dwSrc < dwDes)
    (inRange : InRange mode ord 16 (rounded (dwDes - dwSrc) + 28)) :
    clacBL assembler mode dwSrc dwDes ord =
      (branchSize mode ord, correctedAhead mode ord
        (branchBytes mode ord 16 (rounded (dwDes - dwSrc) + 28))
        ((remainder mode (dwDes - dwSrc) : Int) - 3)) := by
  obtain ⟨fill, assembled⟩ := assemble_forward mode ord (rounded (dwDes - dwSrc))
  rw [if_pos inRange] at assembled
  obtain ⟨console, file, silent, ran, length, read⟩ := read_branch encodes assembled
  rw [Nat.add_zero] at length read
  cases mode <;>
    simp only [clacBL, ge_iff_le, if_neg (Nat.not_le_of_lt order), ran, if_neg silent, length, read,
      correctedAhead]

theorem clacBL_error (encodes : Encodes assembler) (order : dwSrc < dwDes)
    (outside : ¬ InRange mode ord 16 (rounded (dwDes - dwSrc) + 28)) :
    (clacBL assembler mode dwSrc dwDes ord).1 = 0 := by
  have encoded := encodes (prologue mode ++ forwardLines (rounded (dwDes - dwSrc)) ord)
  obtain ⟨fill, assembled⟩ := assemble_forward mode ord (rounded (dwDes - dwSrc))
  rw [assembled, if_neg outside] at encoded
  obtain ⟨console, object, complains, ran⟩ := encoded
  simp only [clacBL, ge_iff_le, if_neg (Nat.not_le_of_lt order), ran, if_pos complains]

end IDAPlugins.PatchArm
