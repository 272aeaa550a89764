import IDAPlugins.PatchArm.Displacement

namespace IDAPlugins.PatchArm

/-! # The stores of the analysis

`AnalyzerStr` writes into a text and a table of its caller and into arrays of its own,
none of which it checks. Each line and each entry of the table has a list of stores.
-/

inductive Buffer where
  | lpOutBuf
  | lpBLCountBuf
  | lpRod
  | szName
  /-- `szBuf` of the register tests -/
  | szBuf
  /-- `szBuf` of `GetDesAddr` -/
  | szBufDes
  | nSaveIndexs
  deriving DecidableEq

/-- The size of a buffer for an input of `nInLen` characters. -/
def capacity (nInLen : Nat) : Buffer → Nat
  | .lpOutBuf => if 4096 < nInLen then nInLen * 2 else 4096
  | .lpBLCountBuf => 100
  | .lpRod | .szName | .szBuf | .szBufDes => 256
  | .nSaveIndexs => 50

structure Store where
  buffer : Buffer
  index : Nat

def storesFrom (buffer : Buffer) (start count : Nat) : List Store :=
  (List.range count).map fun k => { buffer, index := start + k }

/-- The characters that the register tests copy. -/
def tested (build : Build) (p : Token) : Nat :=
  match build with
  | .ea64 => (p.line.takeWhile (!isBlank ·)).length
  | .ea32 _ =>
    match p.line.idxOf? 0x20 with
    | none => 0
    | some space => ((p.line.drop (space + 1)).filter (!isBlank ·)).length

/-- `strcpy(lpOutBuf + j, p + i)` and the line feed over its zero. -/
def copyStores (j : Nat) (p : Token) : List Store :=
  storesFrom .lpOutBuf j (p.line.length + 1) ++ [⟨.lpOutBuf, j + p.line.length⟩]

def labelStores (p : Token) : List Store :=
  storesFrom .szName 0 (p.line.length + 1) ++ [⟨.szName, (p.line.takeWhile (· != 0x3A)).length⟩]

def branchStores (build : Build) (j nCount : Nat) (p : Token) : List Store :=
  ⟨.lpBLCountBuf, nCount⟩ :: storesFrom .lpRod 0 (p.line.length + 1) ++ storesFrom .lpOutBuf j 3 ++
    if pairs build p then storesFrom .lpOutBuf (j + 3) 5 else storesFrom .lpOutBuf (j + 3) 1

/-- The stores for one line, with `j` bytes written and `nCount` branches recorded. -/
def lineStores (build : Build) (env : Environment) (j nCount : Nat) (p : Token) : List Store :=
  if p.line = [] then
    []
  else if 0x3A ∈ p.line then
    copyStores j p ++ labelStores p
  else if p.line.head? = some 0x42 ∨ p.line.head? = some 0x62 then
    storesFrom .szBuf 0 (tested build p) ++
      match registerBranch build env p with
      | none => []
      | some true => copyStores j p
      | some false => branchStores build j nCount p
  else
    copyStores j p

/-- The stores of the first loop. A null pointer ends it. -/
def loopStores (build : Build) (env : Environment) (dwCurrentAddr : Nat) :
    Analysis → List Token → List Store
  | _, [] => []
  | state, p :: rest =>
    lineStores build env state.lpOutBuf.length state.lpBLCountBuf.length p ++
      match analyzeLine build env dwCurrentAddr state p with
      | none => []
      | some next => loopStores build env dwCurrentAddr { next with sum := next.sum + 1 } rest

def desStores (lpInBuf : List UInt8) : List Store :=
  let szBuf := lpInBuf.filter (!isBlank ·)
  let nSaveIndexs := (lowerCase szBuf 0).2
  storesFrom .szBufDes 0 szBuf.length ++ storesFrom .nSaveIndexs 0 nSaveIndexs.length ++
    if (lowerCase szBuf 0).1.all (szTable.contains ·) then []
    else nSaveIndexs.map fun index => ⟨.szBufDes, index⟩

/-- The stores of the second loop for the entry at an index. -/
def entryStores (entry : BLArray) (i : Nat) : List Store :=
  match entry.lpRod.idxOf? 0x20 with
  | none => []
  | some space => desStores (entry.lpRod.drop space) ++ [⟨.lpBLCountBuf, i⟩, ⟨.lpRod, space⟩]

def runStores (build : Build) (env : Environment) (g_lvInfos : List LocalVarilInfo)
    (lpInData : List UInt8) (dwCurrentAddr : Nat) : List Store :=
  let lines := strtok env.memory [] lpInData
  loopStores build env dwCurrentAddr (initial g_lvInfos) lines ++
    match analyzeLines build env dwCurrentAddr (initial g_lvInfos) lines with
    | none => []
    | some state => state.lpBLCountBuf.zipIdx.flatMap fun entry => entryStores entry.1 entry.2

/-- The index of each store lies in its array. -/
def Fits (nInLen : Nat) (stores : List Store) : Prop :=
  ∀ store ∈ stores, store.index < capacity nInLen store.buffer

/-- What a line adds to `lpOutBuf`. -/
def outputSize (build : Build) (env : Environment) (p : Token) : Nat :=
  match lineKind build env p with
  | none | some .blank => 0
  | some .label | some .copied => p.line.length + 1
  | some .branch => if pairs build p then 8 else 4

def capitals (line : List UInt8) : Nat :=
  (((line.dropWhile (· != 0x20)).filter (!isBlank ·)).filter isUpper).length

/-- What the arrays of its own ask of a line. A line that starts with a `b` or `B` has
its register tested. -/
structure LineFits (build : Build) (env : Environment) (p : Token) : Prop where
  label : lineKind build env p = some .label → p.line.length ≤ 255
  test : p.line.head? = some 0x42 ∨ p.line.head? = some 0x62 → 0x3A ∉ p.line →
    tested build p ≤ 256
  branch : lineKind build env p = some .branch → p.line.length ≤ 255

variable {build : Build} {env : Environment} {dwCurrentAddr nInLen : Nat}

theorem fits_append (first second : List Store) :
    Fits nInLen (first ++ second) ↔ Fits nInLen first ∧ Fits nInLen second :=
  List.forall_mem_append

theorem fits_cons (store : Store) (rest : List Store) :
    Fits nInLen (store :: rest) ↔
      store.index < capacity nInLen store.buffer ∧ Fits nInLen rest :=
  List.forall_mem_cons

theorem fits_nil : Fits nInLen [] :=
  List.forall_mem_nil _

theorem fits_storesFrom (buffer : Buffer) (start count : Nat) :
    Fits nInLen (storesFrom buffer start count) ↔
      count = 0 ∨ start + count ≤ capacity nInLen buffer := by
  constructor
  · intro fits
    cases count with
    | zero => exact Or.inl rfl
    | succ count =>
      have last : start + count < capacity nInLen buffer :=
        fits ⟨buffer, start + count⟩ (List.mem_map.mpr ⟨count, List.mem_range.mpr (by omega), rfl⟩)
      exact Or.inr last
  · intro room store member
    obtain ⟨k, inside, rfl⟩ := List.mem_map.mp member
    have bound := List.mem_range.mp inside
    change start + k < capacity nInLen buffer
    omega

theorem fits_flatMap {α : Type} (items : List α) (stores : α → List Store) :
    Fits nInLen (items.flatMap stores) ↔ ∀ item ∈ items, Fits nInLen (stores item) := by
  constructor
  · intro fits item member store inside
    exact fits store (List.mem_flatMap.mpr ⟨item, member, inside⟩)
  · intro each store member
    obtain ⟨item, inside, found⟩ := List.mem_flatMap.mp member
    exact each item inside store found

theorem fits_copyStores (j : Nat) (p : Token) :
    Fits nInLen (copyStores j p) ↔ j + (p.line.length + 1) ≤ capacity nInLen .lpOutBuf := by
  rw [copyStores, fits_append, fits_storesFrom, fits_cons]
  simp only [Nat.succ_ne_zero, false_or, fits_nil, and_true]
  omega

theorem fits_labelStores (p : Token) :
    Fits nInLen (labelStores p) ↔ p.line.length ≤ 255 := by
  have name : (p.line.takeWhile (· != 0x3A)).length ≤ p.line.length :=
    (List.takeWhile_prefix _).length_le
  rw [labelStores, fits_append, fits_storesFrom, fits_cons]
  simp only [capacity, Nat.succ_ne_zero, false_or, fits_nil, and_true]
  omega

theorem fits_branchStores (j nCount : Nat) (p : Token) :
    Fits nInLen (branchStores build j nCount p) ↔
      nCount < 100 ∧ p.line.length ≤ 255 ∧
        j + (if pairs build p then 8 else 4) ≤ capacity nInLen .lpOutBuf := by
  rw [branchStores, List.cons_append, List.cons_append, fits_cons, fits_append, fits_append,
    fits_storesFrom, fits_storesFrom]
  by_cases pair : pairs build p = true
  · rw [if_pos pair, if_pos pair, fits_storesFrom]
    simp only [capacity, Nat.succ_ne_zero, OfNat.ofNat_ne_zero, false_or]
    omega
  · rw [if_neg pair, if_neg pair, fits_storesFrom]
    simp only [capacity, Nat.succ_ne_zero, OfNat.ofNat_ne_zero, false_or]
    omega

def entryCount (build : Build) (env : Environment) (p : Token) : Nat :=
  if lineKind build env p = some .branch then 1 else 0

/-- The stores for a line of a given kind, behind those of the register test. -/
def kindStores (build : Build) (j nCount : Nat) (p : Token) : LineKind → List Store
  | .blank => []
  | .label => copyStores j p ++ labelStores p
  | .copied => copyStores j p
  | .branch => branchStores build j nCount p

/-- The register test reads a line that starts with a `b` or `B` and is no label. -/
def testStores (build : Build) (p : Token) : List Store :=
  if (p.line.head? = some 0x42 ∨ p.line.head? = some 0x62) ∧ 0x3A ∉ p.line then
    storesFrom .szBuf 0 (tested build p)
  else []

theorem lineStores_eq {p : Token} {kind : LineKind} (known : lineKind build env p = some kind)
    (j nCount : Nat) :
    lineStores build env j nCount p = testStores build p ++ kindStores build j nCount p kind := by
  by_cases empty : p.line = []
  · have blank : kind = .blank := by
      rw [lineKind, if_pos empty] at known
      exact (Option.some.inj known).symm
    rw [lineStores, if_pos empty, testStores, if_neg (by simp [empty]), blank]
    rfl
  · by_cases colon : 0x3A ∈ p.line
    · have label : kind = .label := by
        rw [lineKind_label_iff.mpr colon] at known
        exact (Option.some.inj known).symm
      rw [lineStores, if_neg empty, if_pos colon, testStores, if_neg fun both => both.2 colon, label]
      rfl
    · rw [lineKind, if_neg empty, if_neg colon] at known
      rw [lineStores, if_neg empty, if_neg colon, testStores]
      by_cases start : p.line.head? = some 0x42 ∨ p.line.head? = some 0x62
      · rw [if_pos start] at known
        obtain ⟨keeps, filtered, same⟩ := Option.map_eq_some_iff.mp known
        rw [if_pos start, if_pos ⟨start, colon⟩, filtered, ← same]
        cases keeps <;> rfl
      · rw [if_neg start] at known
        rw [if_neg start, if_neg fun both => start both.1, ← Option.some.inj known]
        rfl

theorem fits_testStores (p : Token) :
    Fits nInLen (testStores build p) ↔
      (p.line.head? = some 0x42 ∨ p.line.head? = some 0x62 → 0x3A ∉ p.line →
        tested build p ≤ 256) := by
  rw [testStores]
  split
  · rename_i looks
    rw [fits_storesFrom]
    simp only [looks, not_false_eq_true, true_imp_iff, capacity]
    omega
  · rename_i passes
    exact iff_of_true fits_nil fun start plain => absurd ⟨start, plain⟩ passes

theorem fits_kindStores {p : Token} {kind : LineKind} (known : lineKind build env p = some kind)
    {j nCount : Nat} (written : j ≤ capacity nInLen .lpOutBuf) (recorded : nCount ≤ 100) :
    Fits nInLen (kindStores build j nCount p kind) ↔
      (kind = .label → p.line.length ≤ 255) ∧ (kind = .branch → p.line.length ≤ 255) ∧
        j + outputSize build env p ≤ capacity nInLen .lpOutBuf ∧
        nCount + entryCount build env p ≤ 100 := by
  rw [outputSize, entryCount, known]
  cases kind with
  | blank => exact iff_of_true fits_nil (by simp [written, recorded])
  | label =>
    rw [kindStores, fits_append, fits_copyStores, fits_labelStores]
    simp [recorded, and_comm]
  | copied =>
    rw [kindStores, fits_copyStores]
    simp [recorded]
  | branch =>
    rw [kindStores, fits_branchStores]
    simp only [reduceCtorEq, false_imp_iff, true_imp_iff, if_true, true_and]
    omega

/-- The stores for a line that gets through. -/
theorem fits_lineStores {p : Token} {kind : LineKind} (known : lineKind build env p = some kind)
    {j nCount : Nat} (written : j ≤ capacity nInLen .lpOutBuf) (recorded : nCount ≤ 100) :
    Fits nInLen (lineStores build env j nCount p) ↔
      LineFits build env p ∧ j + outputSize build env p ≤ capacity nInLen .lpOutBuf ∧
        nCount + entryCount build env p ≤ 100 := by
  rw [lineStores_eq known, fits_append, fits_testStores, fits_kindStores known written recorded]
  constructor
  · intro stores
    obtain ⟨test, label, branch, room⟩ := stores
    exact ⟨⟨fun same => label (Option.some.inj (known.symm.trans same)), test,
      fun same => branch (Option.some.inj (known.symm.trans same))⟩, room⟩
  · intro line
    obtain ⟨fits, room⟩ := line
    exact ⟨fits.test, fun same => fits.label (same ▸ known), fun same => fits.branch (same ▸ known),
      room⟩

theorem afterLine_lpOutBuf {state : Analysis} {p : Token} {kind : LineKind}
    (known : lineKind build env p = some kind) :
    (afterLine build dwCurrentAddr state p kind).lpOutBuf.length =
      state.lpOutBuf.length + outputSize build env p := by
  rw [afterLine, List.length_append, outputSize, known]
  cases kind with
  | branch =>
    simp only [emitted]
    split <;> rfl
  | blank | label | copied => simp [emitted, unlines]

theorem afterLine_lpBLCountBuf {state : Analysis} {p : Token} {kind : LineKind}
    (known : lineKind build env p = some kind) :
    (afterLine build dwCurrentAddr state p kind).lpBLCountBuf.length =
      state.lpBLCountBuf.length + entryCount build env p := by
  rw [afterLine, List.length_append, entryCount, known]
  cases kind <;> rfl

theorem loopStores_cons {state : Analysis} {p : Token} {kind : LineKind}
    (known : lineKind build env p = some kind) (rest : List Token) :
    loopStores build env dwCurrentAddr state (p :: rest) =
      lineStores build env state.lpOutBuf.length state.lpBLCountBuf.length p ++
        loopStores build env dwCurrentAddr (afterLine build dwCurrentAddr state p kind) rest := by
  have step := @analyzeLine_eq build env dwCurrentAddr state p
  rw [known, Option.map_some] at step
  obtain ⟨next, analyzed, same⟩ := Option.map_eq_some_iff.mp step
  rw [loopStores, analyzed, ← same]

theorem fits_loopStores (lines : List Token)
    (reads : ∀ p ∈ lines, (lineKind build env p).isSome) {state : Analysis}
    (written : state.lpOutBuf.length ≤ capacity nInLen .lpOutBuf)
    (recorded : state.lpBLCountBuf.length ≤ 100) :
    Fits nInLen (loopStores build env dwCurrentAddr state lines) ↔
      (∀ p ∈ lines, LineFits build env p) ∧
        state.lpOutBuf.length + (lines.map (outputSize build env)).sum ≤
          capacity nInLen .lpOutBuf ∧
        state.lpBLCountBuf.length + (lines.map (entryCount build env)).sum ≤ 100 := by
  induction lines generalizing state with
  | nil => exact iff_of_true fits_nil ⟨List.forall_mem_nil _, written, recorded⟩
  | cons p rest ih =>
    obtain ⟨first, others⟩ := List.forall_mem_cons.mp reads
    obtain ⟨kind, known⟩ := Option.isSome_iff_exists.mp first
    rw [loopStores_cons known, fits_append, fits_lineStores known written recorded,
      List.forall_mem_cons, List.map_cons, List.map_cons, List.sum_cons, List.sum_cons]
    have text : (afterLine build dwCurrentAddr state p kind).lpOutBuf.length = _ :=
      afterLine_lpOutBuf known
    have table : (afterLine build dwCurrentAddr state p kind).lpBLCountBuf.length = _ :=
      afterLine_lpBLCountBuf known
    by_cases room : state.lpOutBuf.length + outputSize build env p ≤ capacity nInLen .lpOutBuf ∧
        state.lpBLCountBuf.length + entryCount build env p ≤ 100
    · rw [ih others (text ▸ room.1) (table ▸ room.2), text, table]
      constructor
      · intro ⟨⟨line, _, _⟩, fits, output, entries⟩
        exact ⟨⟨line, fits⟩, by omega, by omega⟩
      · intro ⟨⟨line, fits⟩, output, entries⟩
        exact ⟨⟨line, room.1, room.2⟩, fits, by omega, by omega⟩
    · refine iff_of_false (fun both => room both.1.2) fun ⟨_, output, entries⟩ => room ?_
      exact ⟨by omega, by omega⟩

theorem lowerCase_length (text : List UInt8) (j : Nat) :
    (lowerCase text j).1.length = text.length ∧
      (lowerCase text j).2.length = (text.filter isUpper).length ∧
      ∀ index ∈ (lowerCase text j).2, index < j + text.length := by
  induction text generalizing j with
  | nil => exact ⟨rfl, rfl, fun _ absent => absurd absent List.not_mem_nil⟩
  | cons ch text ih =>
    obtain ⟨length, count, inside⟩ := ih (j + 1)
    have further : ∀ index ∈ (lowerCase text (j + 1)).2, index < j + (ch :: text).length := by
      intro index member
      have bound := inside index member
      rw [List.length_cons]
      omega
    rw [lowerCase]
    by_cases upper : isUpper ch = true
    · simp only [upper, if_true, List.filter_cons_of_pos upper, List.length_cons, length, count,
        true_and]
      intro index member
      rcases List.mem_cons.mp member with rfl | later
      · omega
      · exact further index later
    · simp only [upper, Bool.false_eq_true, if_false, List.filter_cons_of_neg upper,
        List.length_cons, length, count, true_and]
      exact further

/-- The positions of capital letters have 50 places. -/
theorem fits_desStores {lpInBuf : List UInt8} (short : lpInBuf.length ≤ 256) :
    Fits nInLen (desStores lpInBuf) ↔
      ((lpInBuf.filter (!isBlank ·)).filter isUpper).length ≤ 50 := by
  have kept : (lpInBuf.filter (!isBlank ·)).length ≤ lpInBuf.length := List.length_filter_le _ _
  obtain ⟨-, count, inside⟩ := lowerCase_length (lpInBuf.filter (!isBlank ·)) 0
  have restores : Fits nInLen
      (if (lowerCase (lpInBuf.filter (!isBlank ·)) 0).1.all (szTable.contains ·) then []
        else (lowerCase (lpInBuf.filter (!isBlank ·)) 0).2.map fun index =>
          (⟨.szBufDes, index⟩ : Store)) := by
    split
    · exact fits_nil
    · intro store member
      obtain ⟨index, listed, rfl⟩ := List.mem_map.mp member
      have bound := inside index listed
      change index < 256
      omega
  rw [desStores]
  simp only [fits_append, fits_storesFrom, count, restores, and_true, capacity]
  omega

theorem fits_entryStores {entry : BLArray} {i : Nat} (short : entry.lpRod.length ≤ 255)
    (inside : i < 100) (spaced : 0x20 ∈ entry.lpRod) :
    Fits nInLen (entryStores entry i) ↔
      capitals entry.lpRod ≤ 50 := by
  obtain ⟨space, found⟩ := Option.isSome_iff_exists.mp (List.isSome_idxOf?.mpr spaced)
  have place : space < entry.lpRod.length := by
    rw [List.idxOf?_eq_some_iff] at found
    exact found.1
  have rest : (entry.lpRod.drop space).length ≤ 256 := by
    rw [List.length_drop]
    omega
  rw [entryStores, found, capitals, ← drop_idxOf? found]
  simp only [fits_append, fits_desStores rest, fits_cons, fits_nil, and_true, capacity,
    and_iff_left_iff_imp]
  omega

theorem analyzeLines_rods {lines : List Token} {state final : Analysis}
    (ran : analyzeLines build env dwCurrentAddr state lines = some final) :
    final.lpBLCountBuf.map (·.lpRod) = state.lpBLCountBuf.map (·.lpRod) ++
      (lines.filter fun p => lineKind build env p = some .branch).map Token.line := by
  induction lines generalizing state with
  | nil =>
    rw [← Option.some.inj ran]
    exact (List.append_nil _).symm
  | cons p rest ih =>
    rw [analyzeLines_cons] at ran
    obtain ⟨kind, known, ran⟩ := Option.bind_eq_some_iff.mp ran
    rw [ih ran, afterLine, List.map_append, List.append_assoc]
    cases kind with
    | branch => simp [known, entryOf]
    | blank | label | copied => simp [known, entryOf]

theorem entryCount_sum (lines : List Token) :
    (lines.map (entryCount build env)).sum =
      (lines.filter fun p => lineKind build env p = some .branch).length := by
  induction lines with
  | nil => rfl
  | cons p rest ih =>
    rw [List.map_cons, List.sum_cons, ih, entryCount]
    by_cases branch : lineKind build env p = some .branch
    · simp [branch, Nat.add_comm]
    · simp [branch]

theorem recorded_length {lines : List Token} {g_lvInfos : List LocalVarilInfo} {state : Analysis}
    (ran : analyzeLines build env dwCurrentAddr (initial g_lvInfos) lines = some state) :
    state.lpBLCountBuf.length =
      (lines.filter fun p => lineKind build env p = some .branch).length := by
  have rods := congrArg List.length (analyzeLines_rods ran)
  rw [initial, List.map_nil, List.nil_append, List.length_map, List.length_map] at rods
  exact rods

/-- The texts in the table are the recorded lines. -/
theorem recorded_iff {lines : List Token} {g_lvInfos : List LocalVarilInfo} {state : Analysis}
    (ran : analyzeLines build env dwCurrentAddr (initial g_lvInfos) lines = some state)
    (lpRod : List UInt8) :
    (∃ entry ∈ state.lpBLCountBuf, entry.lpRod = lpRod) ↔
      ∃ p ∈ lines, lineKind build env p = some .branch ∧ p.line = lpRod := by
  have rods := analyzeLines_rods ran
  rw [initial, List.map_nil, List.nil_append] at rods
  rw [← List.mem_map, rods, List.mem_map]
  simp only [List.mem_filter, decide_eq_true_eq, and_assoc]

/-- The table's entries fit when their lines have at most 50 capital letters to restore. -/
theorem fits_entries {lines : List Token} {g_lvInfos : List LocalVarilInfo} {state : Analysis}
    (ran : analyzeLines build env dwCurrentAddr (initial g_lvInfos) lines = some state)
    (fits : ∀ p ∈ lines, LineFits build env p)
    (spaced : ∀ p ∈ lines, lineKind build env p = some .branch → 0x20 ∈ p.line)
    (table : (lines.map (entryCount build env)).sum ≤ 100) :
    Fits nInLen (state.lpBLCountBuf.zipIdx.flatMap fun entry => entryStores entry.1 entry.2) ↔
      ∀ p ∈ lines, lineKind build env p = some .branch → capitals p.line ≤ 50 := by
  have length : state.lpBLCountBuf.length ≤ 100 := by
    rw [recorded_length ran, ← entryCount_sum]
    exact table
  have listed (entry : BLArray) (member : entry ∈ state.lpBLCountBuf) :=
    (recorded_iff ran entry.lpRod).mp ⟨entry, member, rfl⟩
  have each (entry : BLArray × Nat) (member : entry ∈ state.lpBLCountBuf.zipIdx) :
      Fits nInLen (entryStores entry.1 entry.2) ↔ capitals entry.1.lpRod ≤ 50 := by
    obtain ⟨p, there, branch, same⟩ := listed entry.1 (List.fst_mem_of_mem_zipIdx member)
    have place := (List.mem_zipIdx' member).1
    apply fits_entryStores
    · rw [← same]
      exact (fits p there).branch branch
    · omega
    · rw [← same]
      exact spaced p there branch
  rw [fits_flatMap]
  constructor
  · intro all p member branch
    obtain ⟨entry, recorded, same⟩ := (recorded_iff ran p.line).mpr ⟨p, member, branch, rfl⟩
    obtain ⟨i, found⟩ := List.mem_iff_getElem?.mp recorded
    have numbered : (entry, i) ∈ state.lpBLCountBuf.zipIdx :=
      List.mem_zipIdx_iff_getElem?.mpr found
    rw [← same]
    exact (each _ numbered).mp (all _ numbered)
  · intro few entry member
    rw [each entry member]
    obtain ⟨p, there, branch, same⟩ := listed entry.1 (List.fst_mem_of_mem_zipIdx member)
    rw [← same]
    exact few p there branch

/-- The texts that stay in the buffers: a branch has a space in front of its operand and
at most 50 capital letters in it, and so on for lengths and numbers of lines. In the
32-bit build the register test wants the space too. -/
structure Contained (build : Build) (env : Environment) (nInLen : Nat) (lines : List Token) :
    Prop where
  spaced : ∀ p ∈ lines, (p.line.head? = some 0x42 ∨ p.line.head? = some 0x62) →
    0x3A ∉ p.line → build ≠ .ea64 ∨ lineKind build env p = some .branch → 0x20 ∈ p.line
  fits : ∀ p ∈ lines, LineFits build env p
  capitals : ∀ p ∈ lines, lineKind build env p = some .branch → capitals p.line ≤ 50
  output : (lines.map (outputSize build env)).sum ≤ capacity nInLen .lpOutBuf
  table : (lines.filter fun p => lineKind build env p = some .branch).length ≤ 100

/-- Only the register test of the 32-bit build reads through a null pointer. -/
theorem lineKind_isSome_iff (p : Token) :
    (lineKind build env p).isSome ↔
      ((p.line.head? = some 0x42 ∨ p.line.head? = some 0x62) → 0x3A ∉ p.line → build ≠ .ea64 →
        0x20 ∈ p.line) := by
  rw [lineKind]
  by_cases empty : p.line = []
  · simp [empty]
  · by_cases colon : 0x3A ∈ p.line
    · simp [empty, colon]
    · by_cases start : p.line.head? = some 0x42 ∨ p.line.head? = some 0x62
      · rw [if_neg empty, if_neg colon, if_pos start, Option.isSome_map]
        cases build with
        | ea64 => simp [registerBranch]
        | ea32 g_nType =>
          rw [registerBranch, registerOperand, Option.isSome_map, List.isSome_idxOf?]
          simp [start, colon]
      · rw [if_neg empty, if_neg colon, if_neg start]
        simp [start]

theorem analyzerStr_isSome_iff (g_lvInfos : List LocalVarilInfo) (lpInData : List UInt8) :
    (analyzerStr build env g_lvInfos lpInData dwCurrentAddr).isSome ↔
      ∀ p ∈ strtok env.memory [] lpInData, (lineKind build env p).isSome ∧
        (lineKind build env p = some .branch → 0x20 ∈ p.line) := by
  rw [← @loops_isSome build env dwCurrentAddr g_lvInfos, Option.isSome_iff_exists]
  constructor
  · intro ⟨final, ran⟩
    obtain ⟨state, loop, ran⟩ := Option.bind_eq_some_iff.mp ran
    obtain ⟨resolved, settled, -⟩ := Option.bind_eq_some_iff.mp ran
    exact ⟨state, resolved, loop, settled⟩
  · intro ⟨state, resolved, loop, settled⟩
    refine ⟨{ state with lpBLCountBuf := resolved }, ?_⟩
    simp only [analyzerStr, loop, settled, Option.bind_eq_bind, Option.bind_some]

/-- In contained lines no null pointer is met. -/
theorem Contained.reads {lines : List Token} (contained : Contained build env nInLen lines) :
    ∀ p ∈ lines, (lineKind build env p).isSome ∧
      (lineKind build env p = some .branch → 0x20 ∈ p.line) := by
  intro p member
  constructor
  · rw [lineKind_isSome_iff]
    intro head plain other
    exact contained.spaced p member head plain (Or.inl other)
  · intro branch
    exact contained.spaced p member (lineKind_branch branch) (colon_free branch (by decide))
      (Or.inr branch)

/-- What a run without a null pointer and with its stores inside says about the text. -/
theorem contained_of_fits {g_lvInfos : List LocalVarilInfo} {lpInData : List UInt8}
    (returns : (analyzerStr build env g_lvInfos lpInData dwCurrentAddr).isSome)
    (fits : Fits lpInData.length (runStores build env g_lvInfos lpInData dwCurrentAddr)) :
    Contained build env lpInData.length (strtok env.memory [] lpInData) := by
  have start : (initial g_lvInfos).lpOutBuf.length ≤ capacity lpInData.length .lpOutBuf :=
    Nat.zero_le _
  have none : (initial g_lvInfos).lpBLCountBuf.length ≤ 100 := Nat.zero_le _
  have reads := (analyzerStr_isSome_iff g_lvInfos lpInData).mp returns
  have kinds := fun p member => (reads p member).1
  obtain ⟨state, ran⟩ := @analyzeLines_ran build env dwCurrentAddr _ kinds (initial g_lvInfos)
  rw [runStores] at fits
  simp only [ran, fits_append, fits_loopStores _ kinds start none] at fits
  obtain ⟨⟨lines, output, table⟩, entries⟩ := fits
  have rows : ((strtok env.memory [] lpInData).map (entryCount build env)).sum ≤ 100 := by
    simpa [initial] using table
  refine ⟨?_, lines, ?_, ?_, ?_⟩
  · intro p member head plain either
    cases either with
    | inl other => exact (lineKind_isSome_iff p).mp (kinds p member) head plain other
    | inr branch => exact (reads p member).2 branch
  · exact (fits_entries ran lines (fun p member => (reads p member).2) rows).mp entries
  · simpa [initial] using output
  · rw [← entryCount_sum]
    exact rows

/-- A contained text is analyzed inside the buffers. -/
theorem Contained.runs {lpInData : List UInt8}
    (contained : Contained build env lpInData.length (strtok env.memory [] lpInData))
    (g_lvInfos : List LocalVarilInfo) (dwCurrentAddr : Nat) :
    (analyzerStr build env g_lvInfos lpInData dwCurrentAddr).isSome ∧
      Fits lpInData.length (runStores build env g_lvInfos lpInData dwCurrentAddr) := by
  have start : (initial g_lvInfos).lpOutBuf.length ≤ capacity lpInData.length .lpOutBuf :=
    Nat.zero_le _
  have none : (initial g_lvInfos).lpBLCountBuf.length ≤ 100 := Nat.zero_le _
  have reads := contained.reads
  have kinds := fun p member => (reads p member).1
  obtain ⟨state, ran⟩ := @analyzeLines_ran build env dwCurrentAddr _ kinds (initial g_lvInfos)
  have rows : ((strtok env.memory [] lpInData).map (entryCount build env)).sum ≤ 100 := by
    rw [entryCount_sum]
    exact contained.table
  refine ⟨(analyzerStr_isSome_iff g_lvInfos lpInData).mpr reads, ?_⟩
  rw [runStores]
  simp only [ran, fits_append, fits_loopStores _ kinds start none]
  refine ⟨⟨contained.fits, ?_, ?_⟩, ?_⟩
  · simpa [initial] using contained.output
  · simpa [initial] using rows
  · exact (fits_entries ran contained.fits (fun p member => (reads p member).2) rows).mpr
      contained.capitals

/-- The run meets no null pointer and every store lies in its array exactly when the text
stays in the buffers. -/
theorem analyzerStr_fits_iff (build : Build) (env : Environment)
    (g_lvInfos : List LocalVarilInfo) (lpInData : List UInt8) (dwCurrentAddr : Nat) :
    ((analyzerStr build env g_lvInfos lpInData dwCurrentAddr).isSome ∧
        Fits lpInData.length (runStores build env g_lvInfos lpInData dwCurrentAddr)) ↔
      Contained build env lpInData.length (strtok env.memory [] lpInData) := by
  constructor
  · intro ⟨returns, fits⟩
    exact contained_of_fits returns fits
  · intro contained
    exact contained.runs g_lvInfos dwCurrentAddr

/-- In `b<tab>x` no space stands in front of the operand. -/
theorem analyzerStr_null :
    analyzerStr .ea64 bareEnvironment [] [0x62, 0x09, 0x78] 0x8000 = none :=
  rfl

end IDAPlugins.PatchArm
