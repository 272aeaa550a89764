import IDAPlugins.Machine
import IDAPlugins.PatchArm.Lines

namespace IDAPlugins.PatchArm

open Machine

/-! # Analysing the input

`AnalyzerStr` copies the lines to the text that is assembled, keeps an address for
every label and puts a `nop` where a branch goes, with an entry in the branch table.
The buffers grow as needed here; `none` is an access through a null pointer.
-/

structure LocalVarilInfo where
  szName : List UInt8
  dwAddr : Nat

structure BLArray where
  dwSrc : Nat
  dwDes : Nat
  lpRod : List UInt8
  nARMOffset : Int

structure Analysis where
  lpOutBuf : List UInt8
  vlviTmp : List LocalVarilInfo
  lpBLCountBuf : List BLArray
  sum : Int

def nop : List UInt8 := [0x6E, 0x6F, 0x70]

/-- A Thumb `BL` gets a second `nop`; it is told by its second letter. -/
def pairs (build : Build) (p : Token) : Bool :=
  build == .ea32 .thumb && (p.line.getD 1 0 == 0x4C || p.line.getD 1 0 == 0x6C)

def armOffset (build : Build) (sum : Int) : Int :=
  int32 (sum * build.unit)

def analyzeLine (build : Build) (env : Environment) (dwCurrentAddr : Nat) (state : Analysis)
    (p : Token) : Option Analysis :=
  match lineKind build env p with
  | none => none
  | some .blank => some state
  | some .label =>
    -- The header of the loop counts the line; `sum` is lowered to make up for it.
    some { state with
      lpOutBuf := state.lpOutBuf ++ p.line ++ [0x0A]
      vlviTmp := state.vlviTmp ++
        [{ szName := p.line.takeWhile (· != 0x3A)
           dwAddr := ((armOffset build state.sum + dwCurrentAddr) % build.addresses).toNat }]
      sum := state.sum - 1 }
  | some .copied => some { state with lpOutBuf := state.lpOutBuf ++ p.line ++ [0x0A] }
  | some .branch =>
    let nARMOffset := armOffset build state.sum
    let entry : BLArray :=
      { nARMOffset
        dwSrc := ((nARMOffset + dwCurrentAddr) % 4294967296).toNat
        dwDes := 0
        lpRod := p.line }
    let state := { state with
      lpBLCountBuf := state.lpBLCountBuf ++ [entry]
      lpOutBuf := state.lpOutBuf ++ nop }
    let state :=
      if pairs build p then
        { state with sum := state.sum + 1, lpOutBuf := state.lpOutBuf ++ [0x0A] ++ nop }
      else state
    some { state with lpOutBuf := state.lpOutBuf ++ [0x0A] }

def analyzeLines (build : Build) (env : Environment) (dwCurrentAddr : Nat) :
    Analysis → List Token → Option Analysis
  | state, [] => some state
  | state, p :: rest =>
    (analyzeLine build env dwCurrentAddr state p).bind fun state =>
      analyzeLines build env dwCurrentAddr { state with sum := state.sum + 1 } rest

def hexDigit (ch : UInt8) : Option Nat :=
  if 0x30 ≤ ch ∧ ch ≤ 0x39 then some (ch.toNat - 0x30)
  else if 0x61 ≤ ch ∧ ch ≤ 0x66 then some (ch.toNat - 0x61 + 10)
  else none

def hexValue : Nat → List UInt8 → Nat
  | value, [] => value
  | value, ch :: rest =>
    match hexDigit ch with
    | some digit => hexValue (value * 16 + digit) rest
    | none => value

/-- `strtoul` to the base 16, of text in lower case without blanks or sign. -/
def strtoul (szBuf : List UInt8) : Nat :=
  let digits := match szBuf with
    | 0x30 :: 0x78 :: rest => rest
    | _ => szBuf
  min (hexValue 0 digits) 4294967295

def szTable : List UInt8 :=
  [0x30, 0x31, 0x32, 0x33, 0x34, 0x35, 0x36, 0x37, 0x38, 0x39, 0x61, 0x62, 0x63, 0x64, 0x65, 0x66,
    0x78]

def lowerCase : List UInt8 → Nat → List UInt8 × List Nat
  | [], _ => ([], [])
  | ch :: rest, j =>
    let (szBuf, nSaveIndexs) := lowerCase rest (j + 1)
    if isUpper ch then ((ch + 0x20) :: szBuf, j :: nSaveIndexs) else (ch :: szBuf, nSaveIndexs)

def restoreCase (szBuf : List UInt8) (nSaveIndexs : List Nat) : List UInt8 :=
  nSaveIndexs.foldl (fun szBuf index => szBuf.modify index (· - 0x20)) szBuf

def getDesAddr (env : Environment) (lpInBuf : List UInt8) (vlviDatas : List LocalVarilInfo) : Nat :=
  let (szBuf, nSaveIndexs) := lowerCase (lpInBuf.filter (!isBlank ·)) 0
  if szBuf.all (szTable.contains ·) then
    strtoul szBuf
  else
    let szBuf := restoreCase szBuf nSaveIndexs
    match vlviDatas.find? (·.szName == szBuf) with
    | some lviTmp => lviTmp.dwAddr % 4294967296
    | none => env.get_name_ea szBuf % 4294967296

/-- The second loop: `dwDes` of an entry, and the mnemonic cut off. -/
def resolve (env : Environment) (vlviTmp : List LocalVarilInfo) (entry : BLArray) :
    Option BLArray :=
  (entry.lpRod.idxOf? 0x20).map fun space =>
    { entry with
      dwDes := getDesAddr env (entry.lpRod.drop space) vlviTmp
      lpRod := entry.lpRod.take space }

def initial (g_lvInfos : List LocalVarilInfo) : Analysis :=
  { lpOutBuf := [], vlviTmp := g_lvInfos, lpBLCountBuf := [], sum := 0 }

/-- The state at the end, with the labels as they are before they are cleared; the
source returns the length of `lpOutBuf`. -/
def analyzerStr (build : Build) (env : Environment) (g_lvInfos : List LocalVarilInfo)
    (lpInData : List UInt8) (dwCurrentAddr : Nat) : Option Analysis := do
  let state ← analyzeLines build env dwCurrentAddr (initial g_lvInfos)
    (strtok env.memory [] lpInData)
  let lpBLCountBuf ← state.lpBLCountBuf.mapM (resolve env state.vlviTmp)
  some { state with lpBLCountBuf }

def emitted (build : Build) (p : Token) : LineKind → List (List UInt8)
  | .blank => []
  | .label | .copied => [p.line]
  | .branch => if pairs build p then [nop, nop] else [nop]

/-- What a line adds to `sum`, with the header of the loop. -/
def counted (build : Build) (p : Token) : LineKind → Int
  | .label => 0
  | .branch => if pairs build p then 2 else 1
  | .blank | .copied => 1

def labelOf (build : Build) (dwCurrentAddr : Nat) (sum : Int) (p : Token) :
    LineKind → List LocalVarilInfo
  | .label =>
    [{ szName := p.line.takeWhile (· != 0x3A)
       dwAddr := ((armOffset build sum + dwCurrentAddr) % build.addresses).toNat }]
  | _ => []

def entryOf (build : Build) (dwCurrentAddr : Nat) (sum : Int) (p : Token) :
    LineKind → List BLArray
  | .branch =>
    [{ nARMOffset := armOffset build sum
       dwSrc := ((armOffset build sum + dwCurrentAddr) % 4294967296).toNat
       dwDes := 0
       lpRod := p.line }]
  | _ => []

def unlines (lines : List (List UInt8)) : List UInt8 :=
  lines.flatMap (· ++ [0x0A])

variable {build : Build} {env : Environment} {dwCurrentAddr : Nat} {state : Analysis}

def afterLine (build : Build) (dwCurrentAddr : Nat) (state : Analysis) (p : Token)
    (kind : LineKind) : Analysis :=
  { lpOutBuf := state.lpOutBuf ++ unlines (emitted build p kind)
    vlviTmp := state.vlviTmp ++ labelOf build dwCurrentAddr state.sum p kind
    lpBLCountBuf := state.lpBLCountBuf ++ entryOf build dwCurrentAddr state.sum p kind
    sum := state.sum + counted build p kind }

/-- One line, with the header of the loop. -/
theorem analyzeLine_eq (p : Token) :
    (analyzeLine build env dwCurrentAddr state p).map (fun next => { next with sum := next.sum + 1 }) =
      (lineKind build env p).map (afterLine build dwCurrentAddr state p) := by
  rw [analyzeLine]
  cases lineKind build env p with
  | none => rfl
  | some kind =>
    cases kind with
    | blank => simp [afterLine, emitted, labelOf, entryOf, counted, unlines]
    | label => simp [afterLine, emitted, labelOf, entryOf, counted, unlines]
    | copied => simp [afterLine, emitted, labelOf, entryOf, counted, unlines]
    | branch =>
      by_cases pair : pairs build p
      · simp [afterLine, emitted, labelOf, entryOf, counted, unlines, pair, Int.add_assoc]
      · simp [afterLine, emitted, labelOf, entryOf, counted, unlines, pair]

theorem analyzeLines_cons (p : Token) (rest : List Token) :
    analyzeLines build env dwCurrentAddr state (p :: rest) =
      (lineKind build env p).bind fun kind =>
        analyzeLines build env dwCurrentAddr (afterLine build dwCurrentAddr state p kind) rest := by
  calc
    _ = ((analyzeLine build env dwCurrentAddr state p).map
          (fun next => { next with sum := next.sum + 1 })).bind
            fun next => analyzeLines build env dwCurrentAddr next rest := by
      rw [analyzeLines, Option.bind_map]
      rfl
    _ = _ := by
      rw [analyzeLine_eq, Option.bind_map]
      rfl

theorem analyzeLines_append (before after : List Token) :
    analyzeLines build env dwCurrentAddr state (before ++ after) =
      (analyzeLines build env dwCurrentAddr state before).bind fun state =>
        analyzeLines build env dwCurrentAddr state after := by
  induction before generalizing state with
  | nil => rfl
  | cons p before ih =>
    rw [List.cons_append, analyzeLines_cons, analyzeLines_cons, Option.bind_assoc]
    exact congrArg _ (funext fun kind => ih)

/-- The loop gets through when no line reads through a null pointer. -/
theorem analyzeLines_isSome (lines : List Token) :
    (analyzeLines build env dwCurrentAddr state lines).isSome ↔
      ∀ p ∈ lines, (lineKind build env p).isSome := by
  induction lines generalizing state with
  | nil => simp [analyzeLines]
  | cons p rest ih =>
    rw [analyzeLines_cons, List.forall_mem_cons]
    cases lineKind build env p with
    | none => simp
    | some kind => simp [ih]

theorem analyzeLines_ran {lines : List Token} (reads : ∀ p ∈ lines, (lineKind build env p).isSome)
    (state : Analysis) :
    ∃ final, analyzeLines build env dwCurrentAddr state lines = some final :=
  Option.isSome_iff_exists.mp ((analyzeLines_isSome lines).mpr reads)

theorem analyzeLines_extends (lines : List Token) {final : Analysis}
    (ran : analyzeLines build env dwCurrentAddr state lines = some final) :
    state.vlviTmp <+: final.vlviTmp ∧ state.lpBLCountBuf <+: final.lpBLCountBuf := by
  induction lines generalizing state with
  | nil =>
    rw [analyzeLines, Option.some.injEq] at ran
    rw [ran]
    exact ⟨List.prefix_refl _, List.prefix_refl _⟩
  | cons p rest ih =>
    rw [analyzeLines_cons, Option.bind_eq_some_iff] at ran
    obtain ⟨kind, -, ran⟩ := ran
    obtain ⟨labels, entries⟩ := ih ran
    exact ⟨(List.prefix_append _ _).trans labels, (List.prefix_append _ _).trans entries⟩

/-- Every entry was made by a line that is taken for a branch. -/
theorem analyzeLines_recorded (lines : List Token) {final : Analysis} {k : Nat}
    (ran : analyzeLines build env dwCurrentAddr state lines = some final)
    (added : state.lpBLCountBuf.length ≤ k) (recorded : k < final.lpBLCountBuf.length) :
    ∃ before p after earlier, lines = before ++ p :: after ∧
      lineKind build env p = some .branch ∧
      analyzeLines build env dwCurrentAddr state before = some earlier ∧
      earlier.lpBLCountBuf.length = k := by
  induction lines generalizing state with
  | nil =>
    rw [analyzeLines, Option.some.injEq] at ran
    rw [ran] at added
    exact absurd recorded (Nat.not_lt_of_le added)
  | cons p rest ih =>
    rw [analyzeLines_cons, Option.bind_eq_some_iff] at ran
    obtain ⟨kind, known, ran⟩ := ran
    by_cases later : (afterLine build dwCurrentAddr state p kind).lpBLCountBuf.length ≤ k
    · obtain ⟨before, q, after, earlier, rfl, branch, first, count⟩ := ih ran later
      refine ⟨p :: before, q, after, earlier, rfl, branch, ?_, count⟩
      rw [analyzeLines_cons, known, Option.bind_some, first]
    · have here : k < (afterLine build dwCurrentAddr state p kind).lpBLCountBuf.length :=
        Nat.lt_of_not_le later
      rw [afterLine, List.length_append] at here
      cases kind with
      | branch =>
        refine ⟨[], p, rest, state, rfl, known, rfl, ?_⟩
        rw [entryOf, List.length_singleton] at here
        omega
      | blank | label | copied => exact absurd here (Nat.not_lt_of_le added)

end IDAPlugins.PatchArm
