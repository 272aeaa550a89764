import IDAPlugins.Cyclic
import IDAPlugins.PatchArm.Buffers
import IDAPlugins.PatchArm.Console
import IDAPlugins.PatchArm.MapFile
import IDAPlugins.PatchArm.RealBranches
import IDAPlugins.PatchArm.Strtoul64

namespace IDAPlugins.PatchArm

/-! # Patching with assembled code

`OnButtonCalc` reads address and code from the dialog, has the code assembled, puts the
branches over their placeholders and patches the database byte by byte. `none` is an access
outside a buffer or through a null pointer.
-/

/-- What the controls of the dialog hold. -/
structure Controls where
  arm : Bool
  editAddr : List UInt8
  editCode : List UInt8

/-- The database and the programs outside, as far as they are only asked. -/
structure Outside where
  env : Environment
  isLoaded : Nat → Bool
  /-- The addresses with a byte that can be patched. -/
  isEnabled : Nat → Bool
  /-- The assembler run on a text: the chunks it prints, and the object file. -/
  assemble : List UInt8 → List (List UInt8) × Option MappedFile
  /-- What stands behind the object file in its view. -/
  behind : Nat → UInt8
  /-- The mnemonics that the assembler knows for branches, and what it prints for others. -/
  mnemonic : List UInt8 → Option Mnemonic
  complaint : List UInt8 → List UInt8
  assembler : Assembler

structure Globals where
  g_nType : Mode
  g_Current : Nat
  g_nCodeLen : Nat
  g_lvInfos : List LocalVarilInfo
  memory : Nat → UInt8

/-- What `msg` prints about a patch. -/
structure Log where
  address : Nat
  len : Nat
  original : List (List UInt8)
  patch : List (List UInt8)

inductive Report where
  | noCode
  | noAddress
  | badAddress
  | notLoaded
  | noContent
  | error (lpRetBuf : List UInt8)
  | errorClacBL (szOrdBuf : List UInt8)
  | patched (log : Log)

def buildOf (ea64 : Bool) (g_nType : Mode) : Build :=
  if ea64 then .ea64 else .ea32 g_nType

def Controls.g_nType (controls : Controls) : Mode :=
  if controls.arm then .arm else .thumb

def isxdigit (c : UInt8) : Bool := HexText.IsHexDigit c

/-- `strtoul` reads letters of both cases alike. -/
def readAddress (ea64 : Bool) (szTmpBuf : List UInt8) : Nat :=
  if ea64 then (Strtoul64.strtoul64 szTmpBuf 16).1 else strtoul (szTmpBuf.map lower)

def Controls.nRetBufLen (controls : Controls) : Nat :=
  capacity controls.editCode.length .lpOutBuf

/-- `ClacBL` for an entry. After an error it copies the console into 256 bytes. -/
def clac (build : Build) (outside : Outside) (entry : BLArray) : Option (Nat × List UInt8) :=
  let (nARMB_len, szOrdBuf) := match outside.mnemonic entry.lpRod with
    | none => (0, outside.complaint entry.lpRod)
    | some ord =>
      match build with
      | .ea64 => clacBL64 outside.assembler entry.dwSrc entry.dwDes ord
      | .ea32 g_nType => clacBL outside.assembler g_nType entry.dwSrc entry.dwDes ord
  if nARMB_len = 0 ∧ 256 ≤ szOrdBuf.length then none else some (nARMB_len, szOrdBuf)

def branchLoop (build : Build) (outside : Outside) (nRetBufLen : Nat) :
    List UInt8 → List BLArray → Option (Except Report (List UInt8))
  | lpRetBuf, [] => some (.ok lpRetBuf)
  | lpRetBuf, entry :: rest => do
    let (nARMB_len, szOrdBuf) ← clac build outside entry
    if 0 < nARMB_len then
      if 0 ≤ entry.nARMOffset then
        let lpRetBuf ← Overlay.put nRetBufLen lpRetBuf entry.nARMOffset.toNat (szOrdBuf.take nARMB_len)
        branchLoop build outside nRetBufLen lpRetBuf rest
      else none
    else some (.error (.errorClacBL szOrdBuf))

def strstr (text word : List UInt8) : List UInt8 :=
  (text.tails.find? (word.isPrefixOf ·)).getD []

instance (nInLen : Nat) (stores : List Store) : Decidable (Fits nInLen stores) :=
  inferInstanceAs (Decidable (∀ store ∈ stores, _))

/-- `AnalyzerStr` with the buffers that it is given. -/
def analyzed (build : Build) (env : Environment) (g_lvInfos : List LocalVarilInfo)
    (lpInData : List UInt8) (g_Current : Nat) : Option Analysis :=
  if Fits lpInData.length (runStores build env g_lvInfos lpInData g_Current) then
    analyzerStr build env g_lvInfos lpInData g_Current
  else none

/-- `MapFile` leaves the length at zero when there is no file. -/
def readObject (build : Build) (outside : Outside) (object : Option MappedFile) :
    Option (Nat × List UInt8) :=
  match object with
  | none => some (0, [])
  | some file => mapFile build file outside.behind

/-- The code in `lpRetBuf` and its length, behind the check of the address. -/
def assembleCode (build : Build) (outside : Outside) (controls : Controls)
    (g_lvInfos : List LocalVarilInfo) (g_Current : Nat) : Option (Except Report (Nat × List UInt8)) := do
  let final ← analyzed build outside.env g_lvInfos controls.editCode g_Current
  if final.lpOutBuf = [] then
    some (.error .noContent)
  else
    let source ← writeSrcFile build final.lpOutBuf
    let (chunks, object) := outside.assemble source
    let console ← myWinExec controls.nRetBufLen chunks
    let retIndex ← strFindStr console errorText
    if 0 ≤ retIndex then
      some (.error (.error (strstr (cString console) errorText)))
    else
      let (nCodeLen, lpCode) ← readObject build outside object
      let lpRetBuf ← Overlay.put controls.nRetBufLen (List.replicate controls.nRetBufLen 0) 0 lpCode
      let result ← branchLoop build outside controls.nRetBufLen lpRetBuf final.lpBLCountBuf
      some (result.map ((nCodeLen, ·)))

/-- `%02X` -/
def printByte (byte : UInt8) : List UInt8 :=
  HexText.hexText 2 byte.toNat

/-- The loop that prints the old bytes and puts the new ones in their place with
`patch_byte`. -/
def patchLoop (addresses : Nat) (isEnabled : Nat → Bool) :
    Nat → List UInt8 → (Nat → UInt8) → List (List UInt8) × (Nat → UInt8)
  | _, [], memory => ([], memory)
  | ea, byte :: rest, memory =>
    let here := ea % addresses
    let (original, after) :=
      patchLoop addresses isEnabled (ea + 1) rest (Cyclic.store isEnabled memory here byte)
    (printByte (memory here) :: original, after)

/-- The part behind the assembling. `Main_OnClose` drops the names of the function. -/
def patchCode (build : Build) (outside : Outside) (globals : Globals) (nCodeLen : Nat)
    (lpRetBuf : List UInt8) : Globals × Report :=
  let code := lpRetBuf.take nCodeLen
  let (original, memory) :=
    patchLoop build.addresses outside.isEnabled globals.g_Current code globals.memory
  ({ globals with g_nCodeLen := nCodeLen, g_lvInfos := [], memory },
    .patched
      { address := globals.g_Current
        len := nCodeLen
        original
        patch := code.map printByte })

def onButtonCalc (ea64 : Bool) (outside : Outside) (controls : Controls) (globals : Globals) :
    Option (Globals × Report) :=
  let globals := { globals with g_nType := controls.g_nType }
  let build := buildOf ea64 controls.g_nType
  let szTmpBuf := controls.editAddr.take 255
  if controls.editCode = [] then
    some (globals, .noCode)
  else if szTmpBuf = [] then
    some (globals, .noAddress)
  else if !szTmpBuf.all isxdigit then
    some (globals, .badAddress)
  else
    let globals := { globals with g_Current := readAddress ea64 szTmpBuf }
    if !outside.isLoaded globals.g_Current then
      some (globals, .notLoaded)
    else
      (assembleCode build outside controls globals.g_lvInfos globals.g_Current).map fun
        | .error report => (globals, report)
        | .ok (nCodeLen, lpRetBuf) => patchCode build outside globals nCodeLen lpRetBuf

variable {ea64 : Bool} {build : Build} {outside : Outside} {controls : Controls}
  {globals after : Globals} {report : Report}

theorem addresses_ge (build : Build) : 4294967296 ≤ build.addresses := by
  cases build with
  | ea64 => decide
  | ea32 g_nType => exact Nat.le_refl _

theorem branchLoop_cons {nRetBufLen : Nat} {lpRetBuf : List UInt8} {entry : BLArray}
    {rest : List BLArray} {result : Except Report (List UInt8)}
    (ran : branchLoop build outside nRetBufLen lpRetBuf (entry :: rest) = some result) :
    (∃ szOrdBuf, result = .error (.errorClacBL szOrdBuf)) ∨
      ∃ found next, clac build outside entry = some found ∧
        Overlay.put nRetBufLen lpRetBuf entry.nARMOffset.toNat (found.2.take found.1) = some next ∧
        branchLoop build outside nRetBufLen next rest = some result := by
  rw [branchLoop] at ran
  obtain ⟨⟨nARMB_len, szOrdBuf⟩, known, ran⟩ := Option.bind_eq_some_iff.mp ran
  simp only [] at ran
  split at ran
  · split at ran
    · obtain ⟨next, put, ran⟩ := Option.bind_eq_some_iff.mp ran
      exact Or.inr ⟨_, next, known, put, ran⟩
    · cases ran
  · exact Or.inl ⟨szOrdBuf, (Option.some.inj ran).symm⟩

theorem branchLoop_next {nRetBufLen place : Nat} {lpRetBuf next : List UInt8} {entry : BLArray}
    {found : Nat × List UInt8} (known : clac build outside entry = some found) (encoded : 0 < found.1)
    (offset : entry.nARMOffset = place)
    (put : Overlay.put nRetBufLen lpRetBuf place (found.2.take found.1) = some next)
    (rest : List BLArray) :
    branchLoop build outside nRetBufLen lpRetBuf (entry :: rest) =
      branchLoop build outside nRetBufLen next rest := by
  simp only [branchLoop, known, Option.bind_eq_bind, Option.bind_some, if_pos encoded, offset,
    Int.natCast_nonneg, if_true, Int.toNat_natCast, put]

theorem branchLoop_length {nRetBufLen : Nat} {lpRetBuf result : List UInt8} {entries : List BLArray}
    (ran : branchLoop build outside nRetBufLen lpRetBuf entries = some (.ok result)) :
    result.length = lpRetBuf.length := by
  induction entries generalizing lpRetBuf with
  | nil =>
    cases ran
    rfl
  | cons entry rest ih =>
    rcases branchLoop_cons ran with ⟨szOrdBuf, failed⟩ | ⟨found, next, -, put, ran⟩
    · cases failed
    · rw [ih ran, Overlay.put_length put]

theorem branchLoop_error {nRetBufLen : Nat} {lpRetBuf : List UInt8} {entries : List BLArray}
    (ran : branchLoop build outside nRetBufLen lpRetBuf entries = some (.error report)) :
    ∃ szOrdBuf, report = .errorClacBL szOrdBuf := by
  induction entries generalizing lpRetBuf with
  | nil => cases ran
  | cons entry rest ih =>
    rcases branchLoop_cons ran with ⟨szOrdBuf, failed⟩ | ⟨found, next, -, put, ran⟩
    · exact ⟨szOrdBuf, Except.error.inj failed⟩
    · exact ih ran

/-- What has been done when the code is in the buffer. -/
structure Assembled (build : Build) (outside : Outside) (controls : Controls)
    (g_lvInfos : List LocalVarilInfo) (g_Current nCodeLen : Nat) (lpRetBuf : List UInt8)
    (final : Analysis) (lpCode : List UInt8) : Prop where
  analyzed : analyzed build outside.env g_lvInfos controls.editCode g_Current = some final
  object : readObject build outside (outside.assemble (srcText build final.lpOutBuf)).2 =
    some (nCodeLen, lpCode)
  branches : ∃ buffer,
    Overlay.put controls.nRetBufLen (List.replicate controls.nRetBufLen 0) 0 lpCode = some buffer ∧
      branchLoop build outside controls.nRetBufLen buffer final.lpBLCountBuf = some (.ok lpRetBuf)

theorem Assembled.length {g_lvInfos : List LocalVarilInfo} {g_Current nCodeLen : Nat}
    {lpRetBuf lpCode : List UInt8} {final : Analysis}
    (done : Assembled build outside controls g_lvInfos g_Current nCodeLen lpRetBuf final lpCode) :
    lpRetBuf.length = controls.nRetBufLen := by
  obtain ⟨buffer, put, ran⟩ := done.branches
  rw [branchLoop_length ran, Overlay.put_length put, List.length_replicate]

theorem assembleCode_cases {g_lvInfos : List LocalVarilInfo} {g_Current : Nat}
    {result : Except Report (Nat × List UInt8)}
    (ran : assembleCode build outside controls g_lvInfos g_Current = some result) :
    (∃ report, result = .error report ∧ ∀ log, report ≠ .patched log) ∨
      ∃ nCodeLen lpRetBuf final lpCode, result = .ok (nCodeLen, lpRetBuf) ∧
        Assembled build outside controls g_lvInfos g_Current nCodeLen lpRetBuf final lpCode := by
  obtain ⟨final, isAnalyzed, ran⟩ := Option.bind_eq_some_iff.mp ran
  split at ran
  · cases ran
    exact Or.inl ⟨.noContent, rfl, fun log => by simp⟩
  · obtain ⟨source, written, ran⟩ := Option.bind_eq_some_iff.mp ran
    obtain ⟨console, -, ran⟩ := Option.bind_eq_some_iff.mp ran
    obtain ⟨retIndex, -, ran⟩ := Option.bind_eq_some_iff.mp ran
    split at ran
    · cases ran
      exact Or.inl ⟨_, rfl, fun log => by simp⟩
    · obtain ⟨⟨nCodeLen, lpCode⟩, object, ran⟩ := Option.bind_eq_some_iff.mp ran
      obtain ⟨buffer, put, ran⟩ := Option.bind_eq_some_iff.mp ran
      obtain ⟨looped, branches, ran⟩ := Option.bind_eq_some_iff.mp ran
      have text : source = srcText build final.lpOutBuf := by
        rw [writeSrcFile, Option.ite_none_right_eq_some] at written
        exact (Option.some.inj written.2).symm
      cases looped with
      | error report =>
        cases ran
        obtain ⟨szOrdBuf, rfl⟩ := branchLoop_error branches
        exact Or.inl ⟨_, rfl, fun log => by simp⟩
      | ok lpRetBuf =>
        cases ran
        exact Or.inr ⟨nCodeLen, lpRetBuf, final, lpCode, rfl, isAnalyzed, text ▸ object, buffer, put,
          branches⟩

/-- The other way: a text that is accepted, and an assembler that does not complain. -/
theorem Assembled.assembleCode_eq {g_lvInfos : List LocalVarilInfo} {g_Current nCodeLen : Nat}
    {lpRetBuf lpCode : List UInt8} {final : Analysis} {retIndex : Int}
    (done : Assembled build outside controls g_lvInfos g_Current nCodeLen lpRetBuf final lpCode)
    (filled : final.lpOutBuf ≠ []) (fits : (srcText build final.lpOutBuf).length < 4096)
    (search : ((myWinExec controls.nRetBufLen (outside.assemble (srcText build final.lpOutBuf)).1).bind
      (strFindStr · errorText)) = some retIndex) (silent : retIndex < 0) :
    assembleCode build outside controls g_lvInfos g_Current = some (.ok (nCodeLen, lpRetBuf)) := by
  obtain ⟨buffer, put, ran⟩ := done.branches
  obtain ⟨console, printed, found⟩ := Option.bind_eq_some_iff.mp search
  rw [assembleCode, done.analyzed, Option.bind_eq_bind, Option.bind_some, if_neg filled, writeSrcFile,
    if_pos fits, Option.bind_eq_bind, Option.bind_some]
  simp only [printed, found, done.object, put, ran, Option.bind_eq_bind, Option.bind_some,
    if_neg (Int.not_le.mpr silent), Except.map]

/-- The globals behind the check of the address. -/
def Globals.addressed (globals : Globals) (ea64 : Bool) (controls : Controls) : Globals :=
  { globals with
    g_nType := controls.g_nType
    g_Current := readAddress ea64 (controls.editAddr.take 255) }

/-- A run either ends in a message and leaves database, names and the length of the code as
they are, or patches the database with what was assembled. -/
theorem onButtonCalc_cases (ran : onButtonCalc ea64 outside controls globals = some (after, report)) :
    (after.memory = globals.memory ∧ after.g_lvInfos = globals.g_lvInfos ∧
        after.g_nCodeLen = globals.g_nCodeLen ∧ ∀ log, report ≠ .patched log) ∨
      ∃ nCodeLen lpRetBuf final lpCode,
        (after, report) = patchCode (buildOf ea64 controls.g_nType) outside
          (globals.addressed ea64 controls) nCodeLen lpRetBuf ∧
        Assembled (buildOf ea64 controls.g_nType) outside controls globals.g_lvInfos
          (readAddress ea64 (controls.editAddr.take 255)) nCodeLen lpRetBuf final lpCode := by
  unfold onButtonCalc at ran
  simp only [] at ran
  split at ran
  · cases ran
    exact Or.inl ⟨rfl, rfl, rfl, fun log => by simp⟩
  split at ran
  · cases ran
    exact Or.inl ⟨rfl, rfl, rfl, fun log => by simp⟩
  split at ran
  · cases ran
    exact Or.inl ⟨rfl, rfl, rfl, fun log => by simp⟩
  split at ran
  · cases ran
    exact Or.inl ⟨rfl, rfl, rfl, fun log => by simp⟩
  obtain ⟨result, assembled, ran⟩ := Option.map_eq_some_iff.mp ran
  rcases assembleCode_cases assembled with ⟨other, rfl, unpatched⟩ |
    ⟨nCodeLen, lpRetBuf, final, lpCode, rfl, done⟩
  · cases ran
    exact Or.inl ⟨rfl, rfl, rfl, unpatched⟩
  · exact Or.inr ⟨nCodeLen, lpRetBuf, final, lpCode, ran.symm, done⟩

/-- The form is filled in with a loaded address. -/
structure Controls.Accepted (controls : Controls) (ea64 : Bool) (outside : Outside) : Prop where
  code : controls.editCode ≠ []
  addr : controls.editAddr.take 255 ≠ []
  digits : (controls.editAddr.take 255).all isxdigit = true
  loaded : outside.isLoaded (readAddress ea64 (controls.editAddr.take 255)) = true

theorem Controls.Accepted.onButtonCalc_eq (accepted : controls.Accepted ea64 outside) {nCodeLen : Nat}
    {lpRetBuf : List UInt8}
    (assembled : assembleCode (buildOf ea64 controls.g_nType) outside controls globals.g_lvInfos
      (readAddress ea64 (controls.editAddr.take 255)) = some (.ok (nCodeLen, lpRetBuf))) :
    onButtonCalc ea64 outside controls globals =
      some (patchCode (buildOf ea64 controls.g_nType) outside (globals.addressed ea64 controls) nCodeLen
        lpRetBuf) := by
  simp only [onButtonCalc, if_neg accepted.code, if_neg accepted.addr, accepted.digits,
    accepted.loaded, Bool.not_true, Bool.false_eq_true, if_false, assembled, Option.map_some]
  rfl

/-- The loop prints what the cells of its run held, and writes the run. -/
theorem patchLoop_eq {addresses : Nat} {isEnabled : Nat → Bool} {ea : Nat} {code : List UInt8}
    {memory : Nat → UInt8} (bounded : code.length ≤ addresses) :
    patchLoop addresses isEnabled ea code memory =
      ((Cyclic.readFrom addresses memory ea code.length).map printByte,
        Cyclic.writeFrom addresses isEnabled ea code memory) := by
  induction code generalizing ea memory with
  | nil => rfl
  | cons byte rest ih =>
    rw [List.length_cons] at bounded
    rw [patchLoop, ih (Nat.le_of_succ_le bounded), Cyclic.readFrom_store bounded, Cyclic.writeFrom,
      List.length_cons, Cyclic.readFrom_succ, List.map_cons]

end IDAPlugins.PatchArm
