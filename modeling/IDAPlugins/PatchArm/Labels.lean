import IDAPlugins.PatchArm.Buffers

namespace IDAPlugins.PatchArm

/-! # Branches to labels of the input

A label of the input is bound while the lines are read, and a branch looks for its
destination behind the last line, so the order of the two does not matter. The spelling
of the label does: a name of hexadecimal digits is a number.
-/

variable {build : Build} {env : Environment} {dwCurrentAddr : Nat} {L : List UInt8}

theorem filter_blankFree (name : ∀ ch ∈ L, isBlank ch = false) : L.filter (!isBlank ·) = L := by
  rw [List.filter_eq_self]
  intro ch member
  rw [name ch member]
  rfl

/-- Behind a single space the operand is the name, whatever blanks follow it. -/
theorem operand_single {p : Token} {mnemonic blanks : List UInt8} (plain : 0x20 ∉ mnemonic)
    (name : ∀ ch ∈ L, isBlank ch = false) (blank : ∀ ch ∈ blanks, isBlank ch = true)
    (line : p.line = mnemonic ++ 0x20 :: (L ++ blanks)) : operand p = L := by
  have skipped : (mnemonic ++ 0x20 :: (L ++ blanks)).dropWhile (· != 0x20) =
      0x20 :: (L ++ blanks) := by
    rw [List.dropWhile_append_of_pos, List.dropWhile_cons_of_neg (by decide)]
    intro ch member
    rw [bne_iff_ne]
    exact fun space => plain (space ▸ member)
  have nothing : blanks.filter (!isBlank ·) = [] := by
    rw [List.filter_eq_nil_iff]
    intro ch member
    simp [blank ch member]
  rw [operand, line, skipped, List.filter_cons_of_neg (by decide), List.filter_append,
    filter_blankFree name, nothing, List.append_nil]

/-- A name with a single location leads to it unless it reads as a number. -/
theorem getDesAddr_location {lpInBuf : List UInt8} {locations : List LocalVarilInfo}
    {label : LocalVarilInfo} (named : lpInBuf.filter (!isBlank ·) = L)
    (member : label ∈ locations) (name : label.szName = L)
    (once : ∀ other ∈ locations, other.szName = L → other = label) :
    getDesAddr env lpInBuf locations =
      if spelledHex L then strtoul (lowerCase L 0).1 else label.dwAddr % 4294967296 := by
  have first : locations.find? (·.szName == L) = some label := by
    cases found : locations.find? (·.szName == L) with
    | none =>
      have absent := List.find?_eq_none.mp found label member
      exact absurd (beq_iff_eq.mpr name) absent
    | some other =>
      have same := List.find?_some found
      rw [once other (List.mem_of_find?_eq_some found) (beq_iff_eq.mp same)]
  rw [getDesAddr_eq named, first, Option.map_some, Option.getD_some]

/-- The entry of a branch has as many entries in front of it as there are branches in
front of the line. -/
theorem analyzerStr_resolves {g_lvInfos : List LocalVarilInfo} {lpInData : List UInt8}
    {final : Analysis} {before after : List Token} {p : Token} {label : LocalVarilInfo}
    (ran : analyzerStr build env g_lvInfos lpInData dwCurrentAddr = some final)
    (split : strtok env.memory [] lpInData = before ++ p :: after)
    (branch : lineKind build env p = some .branch) (goesTo : operand p = L)
    (bound : label ∈ boundLabels build env dwCurrentAddr 0 (strtok env.memory [] lpInData))
    (name : label.szName = L)
    (once : ∀ other ∈ boundLabels build env dwCurrentAddr 0 (strtok env.memory [] lpInData),
      other.szName = L → other = label)
    (foreign : ∀ lviTmp ∈ g_lvInfos, lviTmp.szName ≠ L) :
    ∃ entry, final.lpBLCountBuf[(before.filter fun q =>
        lineKind build env q = some .branch).length]? = some entry ∧
      entry.dwDes =
        if spelledHex L then strtoul (lowerCase L 0).1 else label.dwAddr % 4294967296 := by
  have reads := (analyzerStr_isSome_iff g_lvInfos lpInData).mp (Option.isSome_of_eq_some ran)
  obtain ⟨earlier, first⟩ := @analyzeLines_ran build env dwCurrentAddr before
    (fun q inside => (reads q (split ▸ List.mem_append_left _ inside)).1) (initial g_lvInfos)
  obtain ⟨entry, there, -, lpInBuf, text, destination⟩ := analyzerStr_entry ran split branch first
  refine ⟨entry, recorded_length first ▸ there, ?_⟩
  rw [destination]
  apply getDesAddr_location (text.trans goesTo) (List.mem_append_right g_lvInfos bound) name
  intro other member same
  cases List.mem_append.mp member with
  | inl outer => exact absurd same (foreign other outer)
  | inr inner => exact once other inner same

/-- The run returns, with all its stores in their arrays and with the address of the label as
the destination of the branch, exactly when the text stays in the buffers, and the name is not
spelled like a number while the address has at most 32 bits, or is one with this value. -/
theorem analyzerStr_resolves_iff {g_lvInfos : List LocalVarilInfo} {lpInData : List UInt8}
    {before after : List Token} {p : Token} {mnemonic blanks : List UInt8}
    {label : LocalVarilInfo}
    (split : strtok env.memory [] lpInData = before ++ p :: after)
    (branch : lineKind build env p = some .branch)
    (line : p.line = mnemonic ++ 0x20 :: (L ++ blanks)) (plain : 0x20 ∉ mnemonic)
    (identifier : ∀ ch ∈ L, isBlank ch = false) (blank : ∀ ch ∈ blanks, isBlank ch = true)
    (bound : label ∈ boundLabels build env dwCurrentAddr 0 (strtok env.memory [] lpInData))
    (name : label.szName = L)
    (once : ∀ other ∈ boundLabels build env dwCurrentAddr 0 (strtok env.memory [] lpInData),
      other.szName = L → other = label)
    (foreign : ∀ lviTmp ∈ g_lvInfos, lviTmp.szName ≠ L) :
    (∃ final, analyzerStr build env g_lvInfos lpInData dwCurrentAddr = some final ∧
        Fits lpInData.length (runStores build env g_lvInfos lpInData dwCurrentAddr) ∧
        ∃ entry, final.lpBLCountBuf[(before.filter fun q =>
            lineKind build env q = some .branch).length]? = some entry ∧
          entry.dwDes = label.dwAddr) ↔
      Contained build env lpInData.length (strtok env.memory [] lpInData) ∧
        if spelledHex L then strtoul (lowerCase L 0).1 = label.dwAddr
        else label.dwAddr < 4294967296 := by
  have goesTo := operand_single plain identifier blank line
  have found {final : Analysis}
      (ran : analyzerStr build env g_lvInfos lpInData dwCurrentAddr = some final) :
      (∃ entry, final.lpBLCountBuf[(before.filter fun q =>
            lineKind build env q = some .branch).length]? = some entry ∧
          entry.dwDes = label.dwAddr) ↔
        if spelledHex L then strtoul (lowerCase L 0).1 = label.dwAddr
        else label.dwAddr < 4294967296 := by
    obtain ⟨entry, there, destination⟩ :=
      analyzerStr_resolves ran split branch goesTo bound name once foreign
    simp only [there, Option.some.injEq, exists_eq_left', destination]
    split
    · rfl
    · omega
  constructor
  · intro ⟨final, ran, fits, resolved⟩
    exact ⟨contained_of_fits (Option.isSome_of_eq_some ran) fits, (found ran).mp resolved⟩
  · intro ⟨contained, spelled⟩
    obtain ⟨returns, fits⟩ := contained.runs g_lvInfos dwCurrentAddr
    obtain ⟨final, ran⟩ := Option.isSome_iff_exists.mp returns
    exact ⟨final, ran, fits, (found ran).mpr spelled⟩

/-- `b main`, with a blank behind it, and `main:` -/
def branchMain : List UInt8 :=
  [0x62, 0x20, 0x6D, 0x61, 0x69, 0x6E, 0x20, 0x0A, 0x6D, 0x61, 0x69, 0x6E, 0x3A]

def mainLabel : LocalVarilInfo where
  szName := [0x6D, 0x61, 0x69, 0x6E]
  dwAddr := 0x8004

def branchLine : Token where
  text := [0x62, 0x20, 0x6D, 0x61, 0x69, 0x6E, 0x20]
  behind := readFrom [0x6D, 0x61, 0x69, 0x6E, 0x3A] bareEnvironment.memory

def mainLine : Token where
  text := [0x6D, 0x61, 0x69, 0x6E, 0x3A]
  behind := bareEnvironment.memory

theorem branchMain_contained :
    Contained .ea64 bareEnvironment branchMain.length [branchLine, mainLine] where
  spaced := by
    simp only [List.forall_mem_cons, List.not_mem_nil, false_imp_iff, implies_true, and_true]
    exact ⟨fun _ _ _ => by decide, fun _ plain => absurd (by decide) plain⟩
  fits := by
    simp only [List.forall_mem_cons, List.not_mem_nil, false_imp_iff, implies_true, and_true]
    exact ⟨⟨by decide, by decide, by decide⟩, ⟨by decide, by decide, by decide⟩⟩
  capitals := by
    simp only [List.forall_mem_cons, List.not_mem_nil, false_imp_iff, implies_true, and_true]
    decide
  output := by decide
  table := by decide

theorem analyzerStr_resolves_main :
    ∃ final, analyzerStr .ea64 bareEnvironment [] branchMain 0x8000 = some final ∧
      Fits branchMain.length (runStores .ea64 bareEnvironment [] branchMain 0x8000) ∧
      ∃ entry, final.lpBLCountBuf[0]? = some entry ∧ entry.dwDes = mainLabel.dwAddr := by
  have split : strtok bareEnvironment.memory [] branchMain = [] ++ branchLine :: [mainLine] := rfl
  have branch : lineKind .ea64 bareEnvironment branchLine = some .branch := by decide
  have line : branchLine.line = [0x62] ++ 0x20 :: (mainLabel.szName ++ [0x20]) := by decide
  have bound : boundLabels .ea64 bareEnvironment 0x8000 0
      (strtok bareEnvironment.memory [] branchMain) = [mainLabel] := rfl
  have plain : (0x20 : UInt8) ∉ [(0x62 : UInt8)] := by decide
  have letters : ∀ ch ∈ mainLabel.szName, isBlank ch = false :=
    List.forall_iff_forall_mem.mp (by decide)
  exact (@analyzerStr_resolves_iff .ea64 bareEnvironment 0x8000 mainLabel.szName [] branchMain []
    [mainLine] branchLine [0x62] [0x20] mainLabel split branch line plain letters
    (List.forall_mem_singleton.mpr rfl) (bound ▸ List.mem_singleton.mpr rfl) rfl
    (fun other member _ => List.mem_singleton.mp (bound ▸ member))
    (fun _ absent => absurd absent List.not_mem_nil)).mpr ⟨branchMain_contained, by decide⟩

/-- `b face` and `face:` -/
def branchFace : List UInt8 :=
  [0x62, 0x20, 0x66, 0x61, 0x63, 0x65, 0x0A, 0x66, 0x61, 0x63, 0x65, 0x3A]

/-- In both builds the branch is recorded with the number 0xFACE as its destination. -/
theorem analyzerStr_resolves_face :
    ((analyzerStr .ea64 bareEnvironment [] branchFace 0x8000).map fun final =>
          (final.vlviTmp.map (·.dwAddr), final.lpBLCountBuf.map (·.dwDes))) =
        some ([0x8004], [0xFACE]) ∧
      ((analyzerStr (.ea32 .arm) bareEnvironment [] branchFace 0x8000).map fun final =>
          (final.vlviTmp.map (·.dwAddr), final.lpBLCountBuf.map (·.dwDes))) =
        some ([0x8004], [0xFACE]) :=
  ⟨rfl, rfl⟩

end IDAPlugins.PatchArm
