import IDAPlugins.MoreMenu.RepairElf

namespace IDAPlugins.MoreMenu

open Image

/-! # Which files are repaired

Here the image is the file itself, so that `repairelf` ends just if it uses no unset
variable and reads inside the file only. What it does then can be told from the file: from
its header, the program headers, the dynamic table and the two arrays. Neither the
magic number nor the class of the file is looked at, and no missing header or tag is
reported.
-/

/-- What `CreateFileMapping` and `MapViewOfFile` lead to. Where one of them fails with
`NULL` there is no view. -/
inductive Mapping where
  | invalid
  | noView
  | view
  deriving DecidableEq

structure System where
  attributes : Bool
  mapping : Mapping
  unmapped : Bool
  deriving DecidableEq

/-- The value returned and the file afterwards. Every value but zero comes with a message
about the error. -/
def repairelfFile (build : Build) (system : System) (file : List UInt8) :
    Option (Int × List UInt8) :=
  if system.attributes = false then
    some (-3, file)
  else
    match system.mapping with
    | .invalid => some (-1, file)
    -- `pvFile` is `NULL`, and `e_phnum` is read
    | .noView => none
    | .view => do
      let (_, after) ← repairelf build file
      some (if system.unmapped then 0 else -2, after)

/-- `EI_CLASS` -/
def Build.elfClass : Build → UInt8
  | ea32 => 1
  | ea64 => 2

structure ElfImage (layout : Build) (file : List UInt8) : Prop where
  magic : file.take 4 = [0x7f, 0x45, 0x4c, 0x46]
  elfClass : file[4]? = some layout.elfClass
  header : layout.ehdrSize ≤ file.length

/-- A byte of `e_shoff`, `e_shentsize`, `e_shnum` or `e_shstrndx`. -/
def Build.InFields (build : Build) (place : Nat) : Prop :=
  build.e_shoff ≤ place ∧ place < build.e_shoff + build.addrSize ∨
    build.e_shentsize ≤ place ∧ place < build.e_shentsize + 6

instance (build : Build) (place : Nat) : Decidable (build.InFields place) :=
  inferInstanceAs (Decidable (_ ∨ _))

/-- The four fields are zero, and nothing else has changed. -/
def Cleared (layout : Build) (before after : List UInt8) : Prop :=
  ∀ place, after[place]? = if layout.InFields place then some 0 else before[place]?

/-- The file is an ELF image whose four fields are cleared, or it is left as it is and an
error is reported. -/
def Repaired (build : Build) (system : System) (file : List UInt8) : Prop :=
  ∃ code after, repairelfFile build system file = some (code, after) ∧
    ((∃ layout, ElfImage layout file ∧ Cleared layout file after) ∨ after = file ∧ code ≠ 0)

/-- The last program header of a dynamic table, and the entries with one of the four tags
that the loop meets from there on. -/
def dynamicTable (build : Build) (file : List UInt8) : Option (Phdr × List Dyn) := do
  let e_phnum ← readLe file build.e_phnum 2
  let segments ← readEach (segmentAt build file) build.phdrSize e_phnum build.ehdrSize
  let dynamic ← segments.reduceOption.getLast?
  let entries ← entriesFrom build file (scanCount dynamic) dynamic.p_offset
  some (dynamic, entries)

def Phdr.base (build : Build) (dynamic : Phdr) : Nat :=
  build.wrap (dynamic.p_vaddr - dynamic.p_offset)

/-- The table has the size of an array and, unless that is zero, its address, and the
array lies in the file. -/
def HasArray (build : Build) (file : List UInt8) (dynamic : Phdr) (entries : List Dyn)
    (addressTag sizeTag : Nat) : Prop :=
  ∃ size, lastValue sizeTag entries = some size ∧
    (size / build.addrSize = 0 ∨ ∃ address, lastValue addressTag entries = some address ∧
      ∀ i < size / build.addrSize,
        Inside file (build.place (dynamic.base build) address + i * build.addrSize)
          build.addrSize)

def Repairable (build : Build) (file : List UInt8) : Prop :=
  ∃ dynamic entries, dynamicTable build file = some (dynamic, entries) ∧
    HasArray build file dynamic entries DT_INIT_ARRAY DT_INIT_ARRAYSZ ∧
    HasArray build file dynamic entries DT_FINI_ARRAY DT_FINI_ARRAYSZ

/-- The fields that the build clears are those of the file, apart from bytes that are
zero anyway. -/
def SameFields (build layout : Build) (file : List UInt8) : Prop :=
  ∀ place, (build.InFields place ↔ layout.InFields place) ∨ file[place]? = some 0

variable {build layout : Build} {file after : List UInt8}

/-- The base belongs to the program header that was taken last. -/
def Headers.Based (build : Build) (headers : Headers) : Prop :=
  ∀ dynamic ∈ headers.dynamic, headers.dwProgBase = dynamic.base build

theorem Headers.based_foldl (segments : List (Option Phdr)) {headers : Headers}
    (based : headers.Based build) : (segments.foldl (Headers.take build) headers).Based build := by
  induction segments generalizing headers with
  | nil => exact based
  | cons segment rest ih =>
    apply ih
    cases segment with
    | none => exact based
    | some dynamic =>
      intro taken present
      cases present
      rfl

theorem Headers.dynamic_foldl (segments : List (Option Phdr)) {headers : Headers}
    (unset : headers.dynamic = none) :
    (segments.foldl (Headers.take build) headers).dynamic = segments.reduceOption.getLast? := by
  have replaces (headers : Headers) (segment : Option Phdr) :
      (headers.take build segment).dynamic = (id segment).or headers.dynamic := by
    cases segment with
    | none => rfl
    | some dynamic => rfl
  rw [Loop.foldl_latest replaces, unset, Option.or_none, List.reduceOption]

theorem readHeaders_eq (build : Build) (file : List UInt8) :
    readHeaders build file = (readLe file build.e_phnum 2).bind fun e_phnum =>
      (readEach (segmentAt build file) build.phdrSize e_phnum build.ehdrSize).map
        (List.foldl (Headers.take build) ⟨build.ehdrSize, none, 0, []⟩) := by
  simp only [readHeaders, Option.bind_eq_bind]
  cases readLe file build.e_phnum 2 with
  | none => rfl
  | some e_phnum => exact times_readEach _ Headers.t_phdr headerPass_eq Headers.take_t_phdr _ _

theorem readHeaders_based {headers : Headers} (read : readHeaders build file = some headers) :
    headers.Based build := by
  rw [readHeaders_eq] at read
  obtain ⟨e_phnum, -, passed⟩ := Option.bind_eq_some_iff.mp read
  obtain ⟨segments, -, rfl⟩ := Option.map_eq_some_iff.mp passed
  exact Headers.based_foldl segments (by simp [Headers.Based])

theorem dynamicTable_eq (build : Build) (file : List UInt8) :
    dynamicTable build file = (readHeaders build file).bind fun headers =>
      headers.dynamic.bind fun dynamic =>
        (entriesFrom build file (scanCount dynamic) dynamic.p_offset).map (dynamic, ·) := by
  rw [readHeaders_eq]
  simp only [dynamicTable, Option.bind_eq_bind]
  cases readLe file build.e_phnum 2 with
  | none => rfl
  | some e_phnum =>
    simp only [Option.bind_some]
    cases readEach (segmentAt build file) build.phdrSize e_phnum build.ehdrSize with
    | none => rfl
    | some segments =>
      simp only [Option.bind_some, Option.map_some, Headers.dynamic_foldl]
      congr 1
      funext dynamic
      cases entriesFrom build file (scanCount dynamic) dynamic.p_offset with
      | none => rfl
      | some entries => rfl

theorem listFunctions_isSome_iff (offset size : Option Nat) :
    (listFunctions build file offset size).isSome ↔
      ∃ bytes, size = some bytes ∧ (bytes / build.addrSize = 0 ∨ ∃ base, offset = some base ∧
        ∀ i < bytes / build.addrSize,
          Inside file (base + i * build.addrSize) build.addrSize) := by
  cases size with
  | none => simp [listFunctions]
  | some bytes =>
    cases offset with
    | none =>
      simp only [listFunctions, Option.bind_eq_bind, Option.bind_some, Option.some.injEq,
        exists_eq_left']
      generalize bytes / build.addrSize = count
      cases count with
      | zero => simp [Loop.times]
      | succ count => simp [Loop.times, listPass]
    | some base =>
      have words := readEach_isSome_iff (readLe file · build.addrSize) build.addrSize
        (bytes / build.addrSize) base
      simp only [readLe_isSome_iff] at words
      rw [listFunctions_eq, Option.isSome_map, words]
      simp only [Option.some.injEq, exists_eq_left']
      refine (or_iff_right_of_imp fun empty i below => ?_).symm
      rw [empty] at below
      exact absurd below (Nat.not_lt_zero i)

theorem scanDynamic_none (missing : dynamicTable build file = none) :
    scanDynamic build file = none := by
  rw [dynamicTable_eq] at missing
  cases read : readHeaders build file with
  | none => simp [scanDynamic, read]
  | some headers =>
    cases present : headers.dynamic with
    | none => simp [scanDynamic, read, present]
    | some dynamic =>
      simp only [read, present, Option.bind_some, Option.map_eq_none_iff] at missing
      rw [scanDynamic_eq read present, missing, Option.map_none]

theorem scanDynamic_found {dynamic : Phdr} {entries : List Dyn}
    (table : dynamicTable build file = some (dynamic, entries)) :
    ∃ found, scanDynamic build file = some found ∧
      found.dwInitOffset =
        (lastValue DT_INIT_ARRAY entries).map (build.place (dynamic.base build)) ∧
      found.dwInitSize = lastValue DT_INIT_ARRAYSZ entries ∧
      found.dwFiniOffset =
        (lastValue DT_FINI_ARRAY entries).map (build.place (dynamic.base build)) ∧
      found.dwFiniSize = lastValue DT_FINI_ARRAYSZ entries := by
  rw [dynamicTable_eq] at table
  obtain ⟨headers, read, further⟩ := Option.bind_eq_some_iff.mp table
  obtain ⟨last, present, tabled⟩ := Option.bind_eq_some_iff.mp further
  obtain ⟨seen, scanned, same⟩ := Option.map_eq_some_iff.mp tabled
  cases same
  have result := scanDynamic_eq read present
  rw [scanned, Option.map_some, readHeaders_based read dynamic present] at result
  have values := Found.foldl_values build (dynamic.base build) dynamic.p_offset headers.messages
    entries rfl
  exact ⟨_, result, values⟩

theorem hasArray_iff {dynamic : Phdr} {entries : List Dyn} (addressTag sizeTag : Nat) :
    HasArray build file dynamic entries addressTag sizeTag ↔
      (listFunctions build file
        ((lastValue addressTag entries).map (build.place (dynamic.base build)))
        (lastValue sizeTag entries)).isSome := by
  rw [listFunctions_isSome_iff]
  simp only [HasArray, Option.map_eq_some_iff, exists_exists_and_eq_and]

theorem report_isSome_iff : (report build file).isSome ↔ Repairable build file := by
  cases table : dynamicTable build file with
  | none => simp [Repairable, table, report, scanDynamic_none table]
  | some parts =>
    obtain ⟨dynamic, entries⟩ := parts
    obtain ⟨found, scanned, initOffset, initSize, finiOffset, finiSize⟩ := scanDynamic_found table
    have parts : Repairable build file ↔
        (listFunctions build file found.dwInitOffset found.dwInitSize).isSome ∧
          (listFunctions build file found.dwFiniOffset found.dwFiniSize).isSome := by
      rw [initOffset, initSize, finiOffset, finiSize, ← hasArray_iff, ← hasArray_iff]
      simp [Repairable, table]
    rw [parts]
    simp only [report, scanned, Option.bind_eq_bind, Option.bind_some]
    cases listFunctions build file found.dwInitOffset found.dwInitSize with
    | none => simp
    | some inits =>
      cases listFunctions build file found.dwFiniOffset found.dwFiniSize with
      | none => simp
      | some finis => simp

theorem clearField_getElem? {place width k : Nat}
    (written : clearField file place width = some after) :
    after[k]? = if place ≤ k ∧ k < place + width then some 0 else file[k]? := by
  split
  · rename_i inside
    have value := Overlay.put_inside (k := k - place) written (by rw [List.length_replicate]; omega)
    rw [Nat.add_sub_cancel' inside.1] at value
    rw [value, List.getElem?_replicate_of_lt (by omega)]
  · rename_i outside
    apply Overlay.put_outside written
    rwa [List.length_replicate]

theorem repairelf_cleared {messages : List Message}
    (repaired : repairelf build file = some (messages, after)) : Cleared build file after := by
  simp only [repairelf, Option.bind_eq_bind, Option.bind_eq_some_iff, Option.some.injEq,
    Prod.mk.injEq] at repaired
  obtain ⟨_, -, first, offset, second, size, third, number, last, index, -, rfl⟩ := repaired
  intro place
  rw [clearField_getElem? index, clearField_getElem? number, clearField_getElem? size,
    clearField_getElem? offset]
  by_cases inside : build.InFields place
  · rw [if_pos inside]
    rw [Build.InFields] at inside
    split_ifs <;> first | rfl | omega
  · rw [if_neg inside]
    rw [Build.InFields] at inside
    split_ifs <;> first | rfl | omega

/-- What the build has cleared, it has cleared for the file's layout exactly if the other
bytes of the fields are zero. -/
theorem Cleared.layout_iff (cleared : Cleared build file after) :
    Cleared layout file after ↔ SameFields build layout file := by
  apply forall_congr'
  intro place
  rw [cleared place]
  by_cases own : build.InFields place
  · by_cases others : layout.InFields place
    · simp [own, others]
    · simp [own, others, eq_comm]
  · by_cases others : layout.InFields place
    · simp [own, others]
    · simp [own, others]

theorem Cleared.unchanged_iff (cleared : Cleared build file after) :
    after = file ↔ ∀ place, build.InFields place → file[place]? = some 0 := by
  rw [List.ext_getElem?_iff]
  apply forall_congr'
  intro place
  rw [cleared place]
  by_cases own : build.InFields place
  · simp [own, eq_comm]
  · simp [own]

/-- A file is repaired, or left alone with an error, exactly if the system refuses it
before it is mapped, or if it is mapped, has all that the loops rely on, and is an ELF image
with the fields of the build. Where the view cannot be closed, fields that are zero
already are enough. -/
theorem repaired_iff (build : Build) (system : System) (file : List UInt8) :
    Repaired build system file ↔
      system.attributes = false ∨ system.mapping = .invalid ∨
        system.mapping = .view ∧ Repairable build file ∧
          ((∃ layout, ElfImage layout file ∧ SameFields build layout file) ∨
            system.unmapped = false ∧ ∀ place, build.InFields place → file[place]? = some 0) := by
  cases attributes : system.attributes with
  | false => simp [Repaired, repairelfFile, attributes]
  | true =>
    cases mapping : system.mapping with
    | invalid => simp [Repaired, repairelfFile, attributes, mapping]
    | noView => simp [Repaired, repairelfFile, attributes, mapping]
    | view =>
      have ends : (repairelf build file).isSome ↔ Repairable build file := by
        rw [← report_isSome_iff, ← repairelf_messages, Option.isSome_map]
      rw [← ends]
      cases run : repairelf build file with
      | none => simp [Repaired, repairelfFile, attributes, mapping, run]
      | some result =>
        obtain ⟨messages, after⟩ := result
        have cleared := repairelf_cleared run
        simp only [Repaired, repairelfFile, attributes, mapping, run, Option.bind_eq_bind,
          Option.bind_some, ← cleared.layout_iff, ← cleared.unchanged_iff]
        cases system.unmapped with
        | false => simp
        | true => simp

/-- A file that is mapped and closed without an error. -/
def opened : System where
  attributes := true
  mapping := .view
  unmapped := true

/-- The header of a 32-bit ELF file without program headers. -/
def bareHeader : List UInt8 :=
  [0x7f, 0x45, 0x4c, 0x46, 1, 1, 1] ++ List.replicate 45 0

theorem bareHeader_not_repaired :
    ElfImage .ea32 bareHeader ∧ ¬ Repaired .ea32 opened bareHeader := by
  have image : ElfImage .ea32 bareHeader := {
    magic := by decide
    elfClass := by decide
    header := by decide }
  have stuck : repairelfFile .ea32 opened bareHeader = none := by decide +kernel
  refine ⟨image, ?_⟩
  intro repaired
  obtain ⟨code, after, ended, -⟩ := repaired
  rw [stuck] at ended
  cases ended

end IDAPlugins.MoreMenu
