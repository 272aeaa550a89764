import Mathlib.Data.List.ReduceOption
import IDAPlugins.Image
import IDAPlugins.Overlay

namespace IDAPlugins.MoreMenu

open Image

/-! # Repairing the header of an ELF file

`repairelf` maps a file into memory, reports the functions of its init and fini arrays,
which it finds through the dynamic table, and clears the fields of the section headers.
The image is the mapped view: the file, and zeros up to the end of its last page. A read
behind it faults.
-/

/-- The build with `__EA64__` works on 64-bit files, the other one on 32-bit files. -/
inductive Build where
  | ea32
  | ea64
  deriving DecidableEq

namespace Build

/-- `ELF_ADDR_SIZE`: the bytes of an `ea_t`, of an offset and of an address. -/
def addrSize : Build → Nat
  | ea32 => 4
  | ea64 => 8

def ehdrSize : Build → Nat
  | ea32 => 52
  | ea64 => 64

def e_phnum : Build → Nat
  | ea32 => 44
  | ea64 => 56

def e_shoff : Build → Nat
  | ea32 => 32
  | ea64 => 40

/-- `e_shnum` and `e_shstrndx` follow it. -/
def e_shentsize : Build → Nat
  | ea32 => 46
  | ea64 => 58

def phdrSize : Build → Nat
  | ea32 => 32
  | ea64 => 56

def p_offset : Build → Nat
  | ea32 => 4
  | ea64 => 8

def p_vaddr : Build → Nat
  | ea32 => 8
  | ea64 => 16

def p_filesz : Build → Nat
  | ea32 => 16
  | ea64 => 32

def dynSize (build : Build) : Nat := 2 * build.addrSize

/-- How many values an `ea_t` has. -/
def eaLimit : Build → Int
  | ea32 => 4294967296
  | ea64 => 18446744073709551616

/-- An `ea_t`. -/
def wrap (build : Build) (value : Int) : Nat := (value % build.eaLimit).toNat

end Build

def PT_DYNAMIC : Nat := 2

def DT_INIT_ARRAY : Nat := 25

def DT_FINI_ARRAY : Nat := 26

def DT_INIT_ARRAYSZ : Nat := 27

def DT_FINI_ARRAYSZ : Nat := 28

/-- What `repairelf` prints: where the program header of the dynamic table stands and its
offset, the values of the tags, and the functions. -/
inductive Message where
  | dynamic (place offset : Nat)
  | initAddr (d_val : Nat)
  | initSize (d_val : Nat)
  | finiAddr (d_val : Nat)
  | finiSize (d_val : Nat)
  | initFunction (addr : Nat)
  | finiFunction (addr : Nat)
  deriving DecidableEq

structure Phdr where
  p_offset : Nat
  p_vaddr : Nat
  p_filesz : Nat
  deriving DecidableEq

structure Headers where
  t_phdr : Nat
  dynamic : Option Phdr
  dwProgBase : Nat
  messages : List Message
  deriving DecidableEq

def readPhdr (build : Build) (pvFile : List UInt8) (t_phdr : Nat) : Option Phdr := do
  let p_offset ← readLe pvFile (t_phdr + build.p_offset) build.addrSize
  let p_vaddr ← readLe pvFile (t_phdr + build.p_vaddr) build.addrSize
  let p_filesz ← readLe pvFile (t_phdr + build.p_filesz) build.addrSize
  some { p_offset, p_vaddr, p_filesz }

def headerPass (build : Build) (pvFile : List UInt8) (headers : Headers) : Option Headers := do
  let next := { headers with t_phdr := headers.t_phdr + build.phdrSize }
  let p_type ← readLe pvFile headers.t_phdr 4
  if p_type = PT_DYNAMIC then
    let dynamic ← readPhdr build pvFile headers.t_phdr
    some { next with
      dynamic := some dynamic
      dwProgBase := build.wrap (dynamic.p_vaddr - dynamic.p_offset)
      messages := headers.messages ++ [.dynamic headers.t_phdr dynamic.p_offset] }
  else
    some next

/-- `dynamic` is unset before the loop. -/
def readHeaders (build : Build) (pvFile : List UInt8) : Option Headers := do
  let e_phnum ← readLe pvFile build.e_phnum 2
  Loop.times (headerPass build pvFile) e_phnum
    { t_phdr := build.ehdrSize, dynamic := none, dwProgBase := 0, messages := [] }

structure Dyn where
  d_tag : Nat
  d_val : Nat
  deriving DecidableEq

structure Found where
  t_dyn : Nat
  dwInitOffset : Option Nat
  dwInitSize : Option Nat
  dwFiniOffset : Option Nat
  dwFiniSize : Option Nat
  messages : List Message
  deriving DecidableEq

/-- The four variables are unset before the loop. -/
def Found.unset (t_dyn : Nat) (messages : List Message) : Found where
  t_dyn
  dwInitOffset := none
  dwInitSize := none
  dwFiniOffset := none
  dwFiniSize := none
  messages

def arrayTags : List Nat := [DT_INIT_ARRAY, DT_INIT_ARRAYSZ, DT_FINI_ARRAY, DT_FINI_ARRAYSZ]

def Found.assign (build : Build) (dwProgBase : Nat) (found : Found) (t_dyn : Dyn) : Found :=
  if t_dyn.d_tag = DT_INIT_ARRAY then
    { found with
      dwInitOffset := some (build.wrap (t_dyn.d_val - dwProgBase))
      messages := found.messages ++ [.initAddr t_dyn.d_val] }
  else if t_dyn.d_tag = DT_INIT_ARRAYSZ then
    { found with
      dwInitSize := some t_dyn.d_val
      messages := found.messages ++ [.initSize t_dyn.d_val] }
  else if t_dyn.d_tag = DT_FINI_ARRAY then
    { found with
      dwFiniOffset := some (build.wrap (t_dyn.d_val - dwProgBase))
      messages := found.messages ++ [.finiAddr t_dyn.d_val] }
  else if t_dyn.d_tag = DT_FINI_ARRAYSZ then
    { found with
      dwFiniSize := some t_dyn.d_val
      messages := found.messages ++ [.finiSize t_dyn.d_val] }
  else
    found

/-- The value is read in the four cases only. -/
def scanPass (build : Build) (pvFile : List UInt8) (dwProgBase : Nat) (found : Found) :
    Option Found := do
  let next := { found with t_dyn := found.t_dyn + build.dynSize }
  let d_tag ← readLe pvFile found.t_dyn build.addrSize
  if d_tag ∈ arrayTags then
    let d_val ← readLe pvFile (found.t_dyn + build.addrSize) build.addrSize
    some (next.assign build dwProgBase { d_tag, d_val })
  else
    some next

/-- Both builds divide by `sizeof(Elf32_Dyn)`. -/
def scanCount (dynamic : Phdr) : Nat := dynamic.p_filesz / 8

def scanDynamic (build : Build) (pvFile : List UInt8) : Option Found := do
  let headers ← readHeaders build pvFile
  let dynamic ← headers.dynamic
  Loop.times (scanPass build pvFile headers.dwProgBase) (scanCount dynamic)
    (.unset dynamic.p_offset headers.messages)

structure Listing where
  i : Nat
  listed : List Nat

/-- An address that is zero or -1 is left out. -/
def listPass (build : Build) (pvFile : List UInt8) (offset : Option Nat) (listing : Listing) :
    Option Listing := do
  let base ← offset
  let addr ← readLe pvFile (base + listing.i * build.addrSize) build.addrSize
  let listed :=
    if addr ≠ 0 ∧ addr ≠ build.wrap (-1) then listing.listed ++ [addr] else listing.listed
  some { i := listing.i + 1, listed }

def listFunctions (build : Build) (pvFile : List UInt8) (offset size : Option Nat) :
    Option (List Nat) := do
  let bytes ← size
  let listing ← Loop.times (listPass build pvFile offset) (bytes / build.addrSize) ⟨0, []⟩
  some listing.listed

def report (build : Build) (pvFile : List UInt8) : Option (List Message) := do
  let found ← scanDynamic build pvFile
  let inits ← listFunctions build pvFile found.dwInitOffset found.dwInitSize
  let finis ← listFunctions build pvFile found.dwFiniOffset found.dwFiniSize
  some (found.messages ++ inits.map .initFunction ++ finis.map .finiFunction)

def clearField (pvFile : List UInt8) (place width : Nat) : Option (List UInt8) :=
  Overlay.put pvFile.length pvFile place (List.replicate width 0)

/-- The messages, and the file afterwards. -/
def repairelf (build : Build) (pvFile : List UInt8) : Option (List Message × List UInt8) := do
  let messages ← report build pvFile
  let pvFile ← clearField pvFile build.e_shoff build.addrSize
  let pvFile ← clearField pvFile build.e_shentsize 2
  let pvFile ← clearField pvFile (build.e_shentsize + 2) 2
  let pvFile ← clearField pvFile (build.e_shentsize + 4) 2
  some (messages, pvFile)

/-- The entry at a place, if it has one of the four tags. -/
def entryAt (build : Build) (pvFile : List UInt8) (t_dyn : Nat) : Option (Option Dyn) := do
  let d_tag ← readLe pvFile t_dyn build.addrSize
  if d_tag ∈ arrayTags then
    let d_val ← readLe pvFile (t_dyn + build.addrSize) build.addrSize
    some (some { d_tag, d_val })
  else
    some none

def entriesFrom (build : Build) (pvFile : List UInt8) (count t_dyn : Nat) : Option (List Dyn) :=
  (readEach (entryAt build pvFile) build.dynSize count t_dyn).map List.reduceOption

def Build.tableCount (build : Build) (dynamic : Phdr) : Nat := dynamic.p_filesz / build.dynSize

/-- The base, and the entries with one of the four tags among as many from the start of the
table on as `count` says. -/
def entriesOf (build : Build) (pvFile : List UInt8) (count : Phdr → Nat) :
    Option (Nat × List Dyn) := do
  let headers ← readHeaders build pvFile
  let dynamic ← headers.dynamic
  let entries ← entriesFrom build pvFile (count dynamic) dynamic.p_offset
  some (headers.dwProgBase, entries)

def Dyn.valueOf (tag : Nat) (t_dyn : Dyn) : Option Nat :=
  if t_dyn.d_tag = tag then some t_dyn.d_val else none

def lastValue (tag : Nat) (entries : List Dyn) : Option Nat :=
  (entries.filterMap (Dyn.valueOf tag)).getLast?

/-- Where an address stands in the file. -/
def Build.place (build : Build) (dwProgBase address : Nat) : Nat :=
  build.wrap (address - dwProgBase)

/-- The header, the program headers, the dynamic table, and the arrays that the entries inside
the table lead to are the same in both images. -/
structure SameParts (build : Build) (first second : List UInt8) : Prop where
  header : SameRange first second 0 build.ehdrSize
  programHeaders : ∀ e_phnum ∈ readLe first build.e_phnum 2,
    SameRange first second build.ehdrSize (e_phnum * build.phdrSize)
  table : ∀ headers ∈ readHeaders build first, ∀ dynamic ∈ headers.dynamic,
    SameRange first second dynamic.p_offset dynamic.p_filesz
  initArray : ∀ dwProgBase table, entriesOf build first build.tableCount = some (dwProgBase, table) →
    ∀ address ∈ lastValue DT_INIT_ARRAY table, ∀ size ∈ lastValue DT_INIT_ARRAYSZ table,
      SameRange first second (build.place dwProgBase address) size
  finiArray : ∀ dwProgBase table, entriesOf build first build.tableCount = some (dwProgBase, table) →
    ∀ address ∈ lastValue DT_FINI_ARRAY table, ∀ size ∈ lastValue DT_FINI_ARRAYSZ table,
      SameRange first second (build.place dwProgBase address) size

/-- The entries with one of the four tags among those from the end of the table up to
where the loop ends. -/
def behind (build : Build) (pvFile : List UInt8) : Option (List Dyn) := do
  let headers ← readHeaders build pvFile
  let dynamic ← headers.dynamic
  entriesFrom build pvFile (scanCount dynamic - build.tableCount dynamic)
    (dynamic.p_offset + build.tableCount dynamic * build.dynSize)

/-- The pointers other than zero and -1 in the array that is given last, behind the table
too. -/
def pointers (build : Build) (pvFile : List UInt8) (addressTag sizeTag : Nat) :
    Option (List Nat) := do
  let (dwProgBase, entries) ← entriesOf build pvFile scanCount
  let size ← lastValue sizeTag entries
  if size / build.addrSize = 0 then
    some []
  else
    let address ← lastValue addressTag entries
    let words ← readEach (readLe pvFile · build.addrSize) build.addrSize (size / build.addrSize)
      (build.place dwProgBase address)
    some (words.filter fun addr => addr ≠ 0 ∧ addr ≠ build.wrap (-1))

/-- What the loop reads behind the table, and the arrays that it leads to. -/
structure BehindAgrees (build : Build) (first second : List UInt8) : Prop where
  entries : behind build first = behind build second
  inits : pointers build first DT_INIT_ARRAY DT_INIT_ARRAYSZ =
    pointers build second DT_INIT_ARRAY DT_INIT_ARRAYSZ
  finis : pointers build first DT_FINI_ARRAY DT_FINI_ARRAYSZ =
    pointers build second DT_FINI_ARRAY DT_FINI_ARRAYSZ

variable {build : Build} {first second pvFile : List UInt8}

/-- The program header at a place, if it is that of the dynamic table. -/
def segmentAt (build : Build) (pvFile : List UInt8) (t_phdr : Nat) : Option (Option Phdr) := do
  let p_type ← readLe pvFile t_phdr 4
  if p_type = PT_DYNAMIC then
    let dynamic ← readPhdr build pvFile t_phdr
    some (some dynamic)
  else
    some none

def Headers.take (build : Build) (headers : Headers) (segment : Option Phdr) : Headers :=
  match segment with
  | some dynamic =>
    { t_phdr := headers.t_phdr + build.phdrSize
      dynamic := some dynamic
      dwProgBase := build.wrap (dynamic.p_vaddr - dynamic.p_offset)
      messages := headers.messages ++ [.dynamic headers.t_phdr dynamic.p_offset] }
  | none => { headers with t_phdr := headers.t_phdr + build.phdrSize }

theorem headerPass_eq (headers : Headers) :
    headerPass build pvFile headers =
      (segmentAt build pvFile headers.t_phdr).map (headers.take build) := by
  simp only [headerPass, segmentAt]
  cases readLe pvFile headers.t_phdr 4 with
  | none => rfl
  | some p_type =>
    simp only [Option.bind_eq_bind, Option.bind_some]
    split
    · cases readPhdr build pvFile headers.t_phdr with
      | none => rfl
      | some dynamic => rfl
    · rfl

theorem Headers.take_t_phdr (headers : Headers) (segment : Option Phdr) :
    (headers.take build segment).t_phdr = headers.t_phdr + build.phdrSize := by
  cases segment with
  | none => rfl
  | some dynamic => rfl

theorem Found.assign_t_dyn (dwProgBase : Nat) (found : Found) (t_dyn : Nat) (entry : Dyn) :
    ({ found with t_dyn }).assign build dwProgBase entry =
      { found.assign build dwProgBase entry with t_dyn } := by
  unfold Found.assign
  split_ifs <;> rfl

def Found.take (build : Build) (dwProgBase : Nat) (found : Found) (entry : Option Dyn) : Found :=
  let next := { found with t_dyn := found.t_dyn + build.dynSize }
  match entry with
  | some entry => next.assign build dwProgBase entry
  | none => next

theorem scanPass_eq (dwProgBase : Nat) (found : Found) :
    scanPass build pvFile dwProgBase found =
      (entryAt build pvFile found.t_dyn).map (found.take build dwProgBase) := by
  simp only [scanPass, entryAt]
  cases readLe pvFile found.t_dyn build.addrSize with
  | none => rfl
  | some d_tag =>
    simp only [Option.bind_eq_bind, Option.bind_some]
    split
    · cases readLe pvFile (found.t_dyn + build.addrSize) build.addrSize with
      | none => rfl
      | some d_val => rfl
    · rfl

theorem Found.take_t_dyn (dwProgBase : Nat) (found : Found) (entry : Option Dyn) :
    (found.take build dwProgBase entry).t_dyn = found.t_dyn + build.dynSize := by
  cases entry with
  | none => rfl
  | some entry => simp only [Found.take, Found.assign_t_dyn]

theorem Found.foldl_assign_t_dyn (dwProgBase : Nat) (found : Found) (t_dyn : Nat)
    (entries : List Dyn) :
    entries.foldl (Found.assign build dwProgBase) { found with t_dyn } =
      { entries.foldl (Found.assign build dwProgBase) found with t_dyn } :=
  List.foldl_hom (fun found : Found => { found with t_dyn }) fun found entry =>
    (found.assign_t_dyn dwProgBase t_dyn entry)

/-- What the loop has found after some entries depends on those with a tag only. -/
theorem Found.foldl_take (dwProgBase : Nat) (found : Found) (entries : List (Option Dyn)) :
    entries.foldl (Found.take build dwProgBase) found =
      { entries.reduceOption.foldl (Found.assign build dwProgBase) found with
        t_dyn := found.t_dyn + entries.length * build.dynSize } := by
  induction entries generalizing found with
  | nil => simp [List.reduceOption_nil]
  | cons entry rest ih =>
    have further : found.t_dyn + build.dynSize + rest.length * build.dynSize =
        found.t_dyn + (rest.length + 1) * build.dynSize := by
      rw [Nat.succ_mul]
      omega
    rw [List.foldl_cons, ih, Found.take_t_dyn, List.length_cons, further]
    cases entry with
    | none =>
      rw [List.reduceOption_cons_of_none, Found.take, Found.foldl_assign_t_dyn]
    | some entry =>
      rw [List.reduceOption_cons_of_some, List.foldl_cons, Found.take, Found.assign_t_dyn,
        Found.foldl_assign_t_dyn]

theorem lastValue_map (tag : Nat) (entries : List Dyn) (f : Nat → Nat) :
    (entries.filterMap fun t_dyn => (t_dyn.valueOf tag).map f).getLast? =
      (lastValue tag entries).map f := by
  rw [lastValue, ← List.getLast?_map, List.map_filterMap]

/-- An entry sets the variable of its tag, and no other one. -/
theorem Found.assign_values (build : Build) (dwProgBase : Nat) (found : Found) (t_dyn : Dyn) :
    (found.assign build dwProgBase t_dyn).dwInitOffset =
        ((t_dyn.valueOf DT_INIT_ARRAY).map (build.place dwProgBase)).or found.dwInitOffset ∧
      (found.assign build dwProgBase t_dyn).dwInitSize =
        (t_dyn.valueOf DT_INIT_ARRAYSZ).or found.dwInitSize ∧
      (found.assign build dwProgBase t_dyn).dwFiniOffset =
        ((t_dyn.valueOf DT_FINI_ARRAY).map (build.place dwProgBase)).or found.dwFiniOffset ∧
      (found.assign build dwProgBase t_dyn).dwFiniSize =
        (t_dyn.valueOf DT_FINI_ARRAYSZ).or found.dwFiniSize := by
  obtain ⟨d_tag, d_val⟩ := t_dyn
  by_cases tagged : d_tag ∈ arrayTags
  · simp only [arrayTags, List.mem_cons, List.not_mem_nil, or_false] at tagged
    rcases tagged with rfl | rfl | rfl | rfl <;>
      simp [Found.assign, Dyn.valueOf, DT_INIT_ARRAY, DT_INIT_ARRAYSZ, DT_FINI_ARRAY,
        DT_FINI_ARRAYSZ, Build.place]
  · simp only [arrayTags, List.mem_cons, List.not_mem_nil, or_false, not_or] at tagged
    simp [Found.assign, Dyn.valueOf, tagged]

theorem Found.foldl_values (build : Build) (dwProgBase t_dyn : Nat) (messages : List Message)
    (entries : List Dyn) {found : Found}
    (scanned : entries.foldl (Found.assign build dwProgBase) (.unset t_dyn messages) = found) :
    found.dwInitOffset = (lastValue DT_INIT_ARRAY entries).map (build.place dwProgBase) ∧
      found.dwInitSize = lastValue DT_INIT_ARRAYSZ entries ∧
      found.dwFiniOffset = (lastValue DT_FINI_ARRAY entries).map (build.place dwProgBase) ∧
      found.dwFiniSize = lastValue DT_FINI_ARRAYSZ entries := by
  have values := Found.assign_values build dwProgBase
  have initOffset := Loop.foldl_latest (fun found t_dyn => (values found t_dyn).1) entries
    (.unset t_dyn messages)
  have initSize := Loop.foldl_latest (fun found t_dyn => (values found t_dyn).2.1) entries
    (.unset t_dyn messages)
  have finiOffset := Loop.foldl_latest (fun found t_dyn => (values found t_dyn).2.2.1) entries
    (.unset t_dyn messages)
  have finiSize := Loop.foldl_latest (fun found t_dyn => (values found t_dyn).2.2.2) entries
    (.unset t_dyn messages)
  rw [scanned] at initOffset initSize finiOffset finiSize
  rw [lastValue_map] at initOffset finiOffset
  exact ⟨initOffset.trans Option.or_none, initSize.trans Option.or_none,
    finiOffset.trans Option.or_none, finiSize.trans Option.or_none⟩

theorem entriesFrom_add (few more t_dyn : Nat) :
    entriesFrom build pvFile (few + more) t_dyn = (entriesFrom build pvFile few t_dyn).bind
      fun front => (entriesFrom build pvFile more (t_dyn + few * build.dynSize)).map (front ++ ·) := by
  simp only [entriesFrom]
  rw [readEach_add]
  cases readEach (entryAt build pvFile) build.dynSize few t_dyn with
  | none => rfl
  | some front =>
    cases readEach (entryAt build pvFile) build.dynSize more (t_dyn + few * build.dynSize) with
    | none => rfl
    | some rest => simp [List.reduceOption_append]

/-- The state that the loop over the dynamic table ends in. -/
theorem scanDynamic_eq {headers : Headers} {dynamic : Phdr}
    (read : readHeaders build pvFile = some headers) (present : headers.dynamic = some dynamic) :
    scanDynamic build pvFile =
      (entriesFrom build pvFile (scanCount dynamic) dynamic.p_offset).map fun entries =>
        { entries.foldl (Found.assign build headers.dwProgBase)
            (.unset dynamic.p_offset headers.messages) with
          t_dyn := dynamic.p_offset + scanCount dynamic * build.dynSize } := by
  simp only [scanDynamic, read, present, Option.bind_eq_bind, Option.bind_some, entriesFrom]
  rw [times_readEach (entryAt build pvFile) Found.t_dyn (scanPass_eq headers.dwProgBase)
    (Found.take_t_dyn headers.dwProgBase), Option.map_map]
  cases scanned : readEach (entryAt build pvFile) build.dynSize (scanCount dynamic)
      dynamic.p_offset with
  | none => simp [Found.unset, scanned]
  | some entries =>
    have count := readEach_length scanned
    simp [Found.unset, scanned, Found.foldl_take, count]

theorem entriesOf_eq {headers : Headers} {dynamic : Phdr} (count : Phdr → Nat)
    (read : readHeaders build pvFile = some headers) (present : headers.dynamic = some dynamic) :
    entriesOf build pvFile count =
      (entriesFrom build pvFile (count dynamic) dynamic.p_offset).map (headers.dwProgBase, ·) := by
  simp only [entriesOf, read, present, Option.bind_eq_bind, Option.bind_some]
  cases entriesFrom build pvFile (count dynamic) dynamic.p_offset with
  | none => rfl
  | some entries => rfl

/-- The variables hold the values that stand last, with the addresses as places. -/
theorem scanDynamic_values {found : Found} (scanned : scanDynamic build pvFile = some found) :
    ∃ dwProgBase entries, entriesOf build pvFile scanCount = some (dwProgBase, entries) ∧
      found.dwInitOffset = (lastValue DT_INIT_ARRAY entries).map (build.place dwProgBase) ∧
      found.dwInitSize = lastValue DT_INIT_ARRAYSZ entries ∧
      found.dwFiniOffset = (lastValue DT_FINI_ARRAY entries).map (build.place dwProgBase) ∧
      found.dwFiniSize = lastValue DT_FINI_ARRAYSZ entries := by
  cases read : readHeaders build pvFile with
  | none => simp [scanDynamic, read] at scanned
  | some headers =>
    cases present : headers.dynamic with
    | none => simp [scanDynamic, read, present] at scanned
    | some dynamic =>
      rw [scanDynamic_eq read present] at scanned
      obtain ⟨entries, seen, rfl⟩ := Option.map_eq_some_iff.mp scanned
      refine ⟨headers.dwProgBase, entries, ?_, ?_⟩
      · rw [entriesOf_eq scanCount read present, seen, Option.map_some]
      · have values := Found.foldl_values build headers.dwProgBase dynamic.p_offset
          headers.messages entries rfl
        exact values

theorem Build.e_phnum_inside (build : Build) : build.e_phnum + 2 ≤ build.ehdrSize := by
  cases build <;> decide

theorem Build.fields_inside (build : Build) : 4 ≤ build.phdrSize ∧
    build.p_offset + build.addrSize ≤ build.phdrSize ∧
    build.p_vaddr + build.addrSize ≤ build.phdrSize ∧
    build.p_filesz + build.addrSize ≤ build.phdrSize := by
  cases build <;> decide

theorem segmentAt_same {t_phdr : Nat} (same : SameRange first second t_phdr build.phdrSize) :
    segmentAt build first t_phdr = segmentAt build second t_phdr := by
  obtain ⟨type, offset, vaddr, filesz⟩ := build.fields_inside
  have typeRead : readLe first t_phdr 4 = readLe second t_phdr 4 :=
    same.number 0 (by omega)
  simp only [segmentAt, readPhdr]
  rw [typeRead, same.number build.p_offset offset, same.number build.p_vaddr vaddr,
    same.number build.p_filesz filesz]

theorem entryAt_same {t_dyn : Nat} (same : SameRange first second t_dyn build.dynSize) :
    entryAt build first t_dyn = entryAt build second t_dyn := by
  have tagRead : readLe first t_dyn build.addrSize = readLe second t_dyn build.addrSize :=
    same.number 0 (by rw [Build.dynSize]; omega)
  have valueInside : build.addrSize + build.addrSize ≤ build.dynSize := by
    rw [Build.dynSize]
    omega
  rw [entryAt, entryAt, tagRead, same.number build.addrSize valueInside]

theorem SameParts.headers (same : SameParts build first second) :
    readHeaders build first = readHeaders build second := by
  have number : readLe first build.e_phnum 2 = readLe second build.e_phnum 2 := by
    simpa using same.header.number build.e_phnum build.e_phnum_inside
  simp only [readHeaders]
  rw [← number]
  cases count : readLe first build.e_phnum 2 with
  | none => rfl
  | some e_phnum =>
    have table := (same.programHeaders e_phnum count).readEach (Nat.le_refl _)
      fun place => segmentAt_same
    simp only [Option.bind_eq_bind, Option.bind_some]
    rw [times_readEach (segmentAt build first) Headers.t_phdr headerPass_eq Headers.take_t_phdr,
      times_readEach (segmentAt build second) Headers.t_phdr headerPass_eq Headers.take_t_phdr,
      table]

theorem SameParts.tableEntries (same : SameParts build first second) {headers : Headers}
    {dynamic : Phdr} (read : readHeaders build first = some headers)
    (present : headers.dynamic = some dynamic) :
    entriesFrom build first (build.tableCount dynamic) dynamic.p_offset =
      entriesFrom build second (build.tableCount dynamic) dynamic.p_offset := by
  have table := (same.table headers read dynamic present).readEach
    (Nat.div_mul_le_self dynamic.p_filesz build.dynSize) fun place => entryAt_same
  rw [entriesFrom, entriesFrom, Build.tableCount, table]

theorem Build.tableCount_le (build : Build) (dynamic : Phdr) :
    build.tableCount dynamic ≤ scanCount dynamic := by
  have wide : 8 ≤ build.dynSize := by cases build <;> decide
  exact Nat.div_le_div_left wide (by decide)

theorem entries_split {headers : Headers} {dynamic : Phdr}
    (read : readHeaders build pvFile = some headers) (present : headers.dynamic = some dynamic) :
    entriesFrom build pvFile (scanCount dynamic) dynamic.p_offset =
      (entriesFrom build pvFile (build.tableCount dynamic) dynamic.p_offset).bind fun table =>
        (behind build pvFile).map (table ++ ·) := by
  have whole : scanCount dynamic =
      build.tableCount dynamic + (scanCount dynamic - build.tableCount dynamic) :=
    (Nat.add_sub_cancel' (build.tableCount_le dynamic)).symm
  have rest : behind build pvFile =
      entriesFrom build pvFile (scanCount dynamic - build.tableCount dynamic)
        (dynamic.p_offset + build.tableCount dynamic * build.dynSize) := by
    simp only [behind, read, present, Option.bind_eq_bind, Option.bind_some]
  rw [rest, ← entriesFrom_add, ← whole]

theorem SameParts.scan (same : SameParts build first second)
    (alike : behind build first = behind build second) :
    scanDynamic build first = scanDynamic build second := by
  cases read : readHeaders build first with
  | none =>
    have other : readHeaders build second = none := same.headers ▸ read
    simp only [scanDynamic, read, other, Option.bind_eq_bind, Option.bind_none]
  | some headers =>
    have other : readHeaders build second = some headers := same.headers ▸ read
    cases present : headers.dynamic with
    | none =>
      simp only [scanDynamic, read, other, present, Option.bind_eq_bind, Option.bind_some,
        Option.bind_none]
    | some dynamic =>
      rw [scanDynamic_eq read present, scanDynamic_eq other present, entries_split read present,
        entries_split other present, same.tableEntries read present, alike]

def Listing.take (build : Build) (listing : Listing) (addr : Nat) : Listing where
  i := listing.i + 1
  listed := if addr ≠ 0 ∧ addr ≠ build.wrap (-1) then listing.listed ++ [addr] else listing.listed

theorem listPass_eq (base : Nat) (listing : Listing) :
    listPass build pvFile (some base) listing =
      (readLe pvFile (base + listing.i * build.addrSize) build.addrSize).map
        (listing.take build) := by
  simp only [listPass, Option.bind_eq_bind, Option.bind_some]
  cases readLe pvFile (base + listing.i * build.addrSize) build.addrSize with
  | none => rfl
  | some addr => rfl

/-- The functions listed are the words of the array but zero and -1. -/
theorem Listing.foldl_take (words : List Nat) (listing : Listing) :
    (words.foldl (Listing.take build) listing).listed =
      listing.listed ++ words.filter fun addr => addr ≠ 0 ∧ addr ≠ build.wrap (-1) := by
  induction words generalizing listing with
  | nil => rw [List.foldl_nil, List.filter_nil, List.append_nil]
  | cons addr rest ih =>
    rw [List.foldl_cons, ih, List.filter_cons]
    simp only [Listing.take, decide_eq_true_eq]
    split
    · rw [List.append_assoc, List.singleton_append]
    · rfl

theorem listFunctions_eq (build : Build) (pvFile : List UInt8) (base bytes : Nat) :
    listFunctions build pvFile (some base) (some bytes) =
      (readEach (readLe pvFile · build.addrSize) build.addrSize (bytes / build.addrSize) base).map
        (List.filter fun addr => addr ≠ 0 ∧ addr ≠ build.wrap (-1)) := by
  have goes (listing : Listing) (addr : Nat) :
      base + (listing.take build addr).i * build.addrSize =
        base + listing.i * build.addrSize + build.addrSize := by
    rw [Listing.take, Nat.succ_mul, Nat.add_assoc]
  simp only [listFunctions, Option.bind_eq_bind, Option.bind_some]
  rw [times_readEach (readLe pvFile · build.addrSize)
    (fun listing : Listing => base + listing.i * build.addrSize) (listPass_eq base) goes]
  simp only [Nat.zero_mul, Nat.add_zero]
  cases readEach (readLe pvFile · build.addrSize) build.addrSize (bytes / build.addrSize) base with
  | none => rfl
  | some words => simp only [Option.map_some, Option.bind_some, Listing.foldl_take, List.nil_append]

/-- The loop over an array, in terms of the entries met, lists its pointers. -/
theorem pointers_eq (build : Build) (pvFile : List UInt8) (addressTag sizeTag : Nat) :
    pointers build pvFile addressTag sizeTag =
      (entriesOf build pvFile scanCount).bind fun seen =>
        listFunctions build pvFile ((lastValue addressTag seen.2).map (build.place seen.1))
          (lastValue sizeTag seen.2) := by
  simp only [pointers, Option.bind_eq_bind]
  refine Option.bind_congr fun seen _ => ?_
  obtain ⟨dwProgBase, entries⟩ := seen
  cases lastValue sizeTag entries with
  | none => rfl
  | some size =>
    cases lastValue addressTag entries with
    | none =>
      simp only [listFunctions, Option.bind_eq_bind, Option.bind_some, Option.map_none]
      generalize size / build.addrSize = count
      cases count with
      | zero => rfl
      | succ more => rfl
    | some address =>
      simp only [Option.map_some, listFunctions_eq, Option.bind_some]
      generalize size / build.addrSize = count
      cases count with
      | zero => rfl
      | succ more => rw [if_neg (Nat.succ_ne_zero more), Option.map_eq_bind]; rfl

/-- A report is what the loop over the table has printed, and the pointers of the arrays. -/
theorem report_eq (build : Build) (pvFile : List UInt8) :
    report build pvFile = (scanDynamic build pvFile).bind fun found =>
      (pointers build pvFile DT_INIT_ARRAY DT_INIT_ARRAYSZ).bind fun inits =>
        (pointers build pvFile DT_FINI_ARRAY DT_FINI_ARRAYSZ).map fun finis =>
          found.messages ++ inits.map .initFunction ++ finis.map .finiFunction := by
  simp only [report, Option.bind_eq_bind]
  refine Option.bind_congr fun found scanned => ?_
  obtain ⟨dwProgBase, entries, seen, initOffset, initSize, finiOffset, finiSize⟩ :=
    scanDynamic_values scanned
  simp only [pointers_eq, seen, Option.bind_some, initOffset, initSize, finiOffset, finiSize,
    Option.map_eq_bind, Function.comp_def]

theorem listFunctions_same (build : Build) {offset size : Option Nat}
    (same : ∀ base ∈ offset, ∀ bytes ∈ size, SameRange first second base bytes) :
    listFunctions build first offset size = listFunctions build second offset size := by
  cases size with
  | none => rfl
  | some bytes =>
    cases offset with
    | none => rfl
    | some base =>
      let place := fun listing : Listing => base + listing.i * build.addrSize
      have goes : ∀ (listing : Listing) (addr : Nat),
          place (listing.take build addr) = place listing + build.addrSize := by
        intro listing addr
        simp only [place, Listing.take, Nat.succ_mul, Nat.add_assoc]
      have array : readEach (readLe first · build.addrSize) build.addrSize (bytes / build.addrSize)
          (place ⟨0, []⟩) = readEach (readLe second · build.addrSize) build.addrSize
          (bytes / build.addrSize) (place ⟨0, []⟩) := by
        simp only [place, Nat.zero_mul, Nat.add_zero]
        exact (same base rfl bytes rfl).readEach (Nat.div_mul_le_self bytes build.addrSize)
          fun place => SameRange.readLe
      simp only [listFunctions, Option.bind_eq_bind, Option.bind_some]
      rw [times_readEach (readLe first · build.addrSize) place (listPass_eq base) goes,
        times_readEach (readLe second · build.addrSize) place (listPass_eq base) goes, array]

/-- What lies behind the table is all that the report may depend on besides. -/
theorem SameParts.report (same : SameParts build first second)
    (agrees : BehindAgrees build first second) : report build first = report build second := by
  rw [report_eq, report_eq, same.scan agrees.entries, agrees.inits, agrees.finis]

def Message.entry : Message → Option Dyn
  | .initAddr d_val => some ⟨DT_INIT_ARRAY, d_val⟩
  | .initSize d_val => some ⟨DT_INIT_ARRAYSZ, d_val⟩
  | .finiAddr d_val => some ⟨DT_FINI_ARRAY, d_val⟩
  | .finiSize d_val => some ⟨DT_FINI_ARRAYSZ, d_val⟩
  | _ => none

def Message.init : Message → Option Nat
  | .initFunction addr => some addr
  | _ => none

def Message.fini : Message → Option Nat
  | .finiFunction addr => some addr
  | _ => none

theorem Found.assign_messages {dwProgBase : Nat} (found : Found) {entry : Dyn}
    (tagged : entry.d_tag ∈ arrayTags) :
    (found.assign build dwProgBase entry).messages.filterMap Message.entry =
      found.messages.filterMap Message.entry ++ [entry] := by
  obtain ⟨d_tag, d_val⟩ := entry
  simp only [arrayTags, List.mem_cons, List.not_mem_nil, or_false] at tagged
  rcases tagged with rfl | rfl | rfl | rfl <;>
    simp [Found.assign, DT_INIT_ARRAY, DT_INIT_ARRAYSZ, DT_FINI_ARRAY, DT_FINI_ARRAYSZ,
      Message.entry]

theorem Found.foldl_assign_messages (build : Build) (dwProgBase : Nat) (found : Found)
    {entries : List Dyn}
    (tagged : ∀ entry ∈ entries, entry.d_tag ∈ arrayTags) :
    (entries.foldl (Found.assign build dwProgBase) found).messages.filterMap Message.entry =
      found.messages.filterMap Message.entry ++ entries := by
  induction entries generalizing found with
  | nil => simp
  | cons entry rest ih =>
    rw [List.forall_mem_cons] at tagged
    rw [List.foldl_cons, ih _ tagged.2, Found.assign_messages found tagged.1, List.append_assoc,
      List.singleton_append]

theorem entriesFrom_tagged {count t_dyn : Nat} {entries : List Dyn}
    (read : entriesFrom build pvFile count t_dyn = some entries) :
    ∀ entry ∈ entries, entry.d_tag ∈ arrayTags := by
  obtain ⟨items, each, rfl⟩ := Option.map_eq_some_iff.mp read
  have tagged := readEach_forall (P := fun item => ∀ entry ∈ item, entry.d_tag ∈ arrayTags)
    (by
      intro place item found entry member
      cases member
      simp only [entryAt, Option.bind_eq_bind, Option.bind_eq_some_iff] at found
      obtain ⟨d_tag, tagRead, found⟩ := found
      split at found
      · simp only [Option.bind_eq_some_iff, Option.some.injEq] at found
        obtain ⟨d_val, valueRead, rfl⟩ := found
        assumption
      · cases found) each
  intro entry member
  exact tagged (some entry) (List.reduceOption_mem_iff.mp member) entry rfl

/-- The messages of a report hold the entries that the loop has seen, in their order. -/
theorem report_entries {messages : List Message} (made : report build pvFile = some messages) :
    ∃ headers dynamic table rest, readHeaders build pvFile = some headers ∧
      headers.dynamic = some dynamic ∧
      entriesFrom build pvFile (build.tableCount dynamic) dynamic.p_offset = some table ∧
      behind build pvFile = some rest ∧
      messages.filterMap Message.entry =
        headers.messages.filterMap Message.entry ++ (table ++ rest) := by
  simp only [report, Option.bind_eq_bind, Option.bind_eq_some_iff, Option.some.injEq] at made
  obtain ⟨found, scanned, inits, initsRead, finis, finisRead, rfl⟩ := made
  cases read : readHeaders build pvFile with
  | none => simp [scanDynamic, read] at scanned
  | some headers =>
    cases present : headers.dynamic with
    | none => simp [scanDynamic, read, present] at scanned
    | some dynamic =>
      rw [scanDynamic_eq read present] at scanned
      obtain ⟨entries, seen, rfl⟩ := Option.map_eq_some_iff.mp scanned
      have tagged := entriesFrom_tagged seen
      rw [entries_split read present] at seen
      obtain ⟨table, tableRead, further⟩ := Option.bind_eq_some_iff.mp seen
      obtain ⟨rest, restRead, rfl⟩ := Option.map_eq_some_iff.mp further
      refine ⟨headers, dynamic, table, rest, rfl, present, tableRead, restRead, ?_⟩
      have kept := Found.foldl_assign_messages build headers.dwProgBase
        (.unset dynamic.p_offset headers.messages) tagged
      have listed : ∀ functions : List Nat,
          (functions.map Message.initFunction).filterMap Message.entry = [] ∧
            (functions.map Message.finiFunction).filterMap Message.entry = [] := by
        intro functions
        simp [List.filterMap_map, Function.comp_def, Message.entry]
      rw [List.filterMap_append, List.filterMap_append, kept, (listed inits).1, (listed finis).2,
        List.append_nil, List.append_nil]
      rfl

theorem SameParts.entriesOf_table (same : SameParts build first second) :
    entriesOf build first build.tableCount = entriesOf build second build.tableCount := by
  cases read : readHeaders build first with
  | none =>
    have other : readHeaders build second = none := same.headers ▸ read
    simp only [entriesOf, read, other, Option.bind_eq_bind, Option.bind_none]
  | some headers =>
    have other : readHeaders build second = some headers := same.headers ▸ read
    cases present : headers.dynamic with
    | none => simp only [entriesOf, read, other, present, Option.bind_eq_bind, Option.bind_some,
        Option.bind_none]
    | some dynamic =>
      rw [entriesOf_eq _ read present, entriesOf_eq _ other present,
        same.tableEntries read present]

/-- In the build for 32-bit files the loop ends with the table. -/
theorem SameParts.agrees_ea32 (same : SameParts .ea32 first second) :
    BehindAgrees .ea32 first second := by
  have whole : ∀ dynamic, scanCount dynamic = Build.ea32.tableCount dynamic := fun _ => rfl
  have listed {addressTag sizeTag : Nat}
      (array : ∀ dwProgBase table,
        entriesOf .ea32 first Build.ea32.tableCount = some (dwProgBase, table) →
          ∀ address ∈ lastValue addressTag table, ∀ size ∈ lastValue sizeTag table,
            SameRange first second (Build.ea32.place dwProgBase address) size) :
      pointers .ea32 first addressTag sizeTag = pointers .ea32 second addressTag sizeTag := by
    rw [pointers_eq, pointers_eq, funext whole, ← same.entriesOf_table]
    refine Option.bind_congr fun seen read => ?_
    refine listFunctions_same .ea32 fun base placed size given => ?_
    obtain ⟨address, found, rfl⟩ := Option.map_eq_some_iff.mp placed
    exact array seen.1 seen.2 read address found size given
  refine ⟨?_, listed same.initArray, listed same.finiArray⟩
  simp only [behind, same.headers, whole, Nat.sub_self, entriesFrom, readEach]

theorem readLe_inside {offset width value : Nat} (read : readLe pvFile offset (width + 1) = some value)
    (small : offset < spaceSize) : offset < pvFile.length := by
  simp only [readLe, byteIn, Option.bind_eq_bind, Option.bind_eq_some_iff] at read
  obtain ⟨byte, first, -⟩ := read
  rw [Nat.mod_eq_of_lt small] at first
  exact (List.getElem?_eq_some_iff.mp first).1

theorem readHeaders_inside {headers : Headers} {dynamic : Phdr}
    (read : readHeaders build pvFile = some headers) (present : headers.dynamic = some dynamic) :
    build.ehdrSize < pvFile.length := by
  simp only [readHeaders, Option.bind_eq_bind, Option.bind_eq_some_iff] at read
  obtain ⟨e_phnum, -, passed⟩ := read
  cases e_phnum with
  | zero =>
    cases passed
    cases present
  | succ more =>
    obtain ⟨next, first, -⟩ := Option.bind_eq_some_iff.mp passed
    simp only [headerPass, Option.bind_eq_bind, Option.bind_eq_some_iff] at first
    obtain ⟨p_type, typeRead, -⟩ := first
    exact readLe_inside typeRead (by cases build <;> decide)

theorem clearField_inside (place width : Nat) (inside : place + width ≤ pvFile.length) :
    ∃ cleared, clearField pvFile place width = some cleared ∧ cleared.length = pvFile.length := by
  have room : (clearField pvFile place width).isSome := by
    rw [clearField, Overlay.put_isSome_iff, List.length_replicate]
    intro k lower upper
    omega
  obtain ⟨cleared, stored⟩ := Option.isSome_iff_exists.mp room
  exact ⟨cleared, stored, Overlay.put_length stored⟩

/-- Where a report is made the fields are cleared too. -/
theorem repairelf_messages (build : Build) (pvFile : List UInt8) :
    (repairelf build pvFile).map Prod.fst = report build pvFile := by
  cases made : report build pvFile with
  | none => simp [repairelf, made]
  | some messages =>
    obtain ⟨headers, dynamic, -, -, read, present, -⟩ := report_entries made
    have header := readHeaders_inside read present
    have fields : build.e_shoff + build.addrSize ≤ build.ehdrSize ∧
        build.e_shentsize + 4 + 2 ≤ build.ehdrSize := by cases build <;> decide
    obtain ⟨first, offset, length⟩ := @clearField_inside pvFile build.e_shoff build.addrSize
      (by omega)
    obtain ⟨second, size, length₂⟩ := @clearField_inside first build.e_shentsize 2 (by omega)
    obtain ⟨third, number, length₃⟩ := @clearField_inside second (build.e_shentsize + 2) 2
      (by omega)
    obtain ⟨last, index, -⟩ := @clearField_inside third (build.e_shentsize + 4) 2
      (by omega)
    simp [repairelf, made, offset, size, number, index]

/-- The functions that are listed can be told from the messages. -/
theorem functions_injective {inits finis otherInits otherFinis : List Nat}
    (same : inits.map Message.initFunction ++ finis.map Message.finiFunction =
      otherInits.map Message.initFunction ++ otherFinis.map Message.finiFunction) :
    inits = otherInits ∧ finis = otherFinis := by
  have first := congrArg (List.filterMap Message.init) same
  have last := congrArg (List.filterMap Message.fini) same
  simp only [List.filterMap_append, List.filterMap_map, Function.comp_def, Message.init,
    Message.fini, List.filterMap_some, List.filterMap_none, List.append_nil,
    List.nil_append] at first last
  exact ⟨first, last⟩

theorem SameParts.agrees_of_report {messages : List Message} (same : SameParts build first second)
    (made : MoreMenu.report build first = some messages)
    (also : MoreMenu.report build second = some messages) : BehindAgrees build first second := by
  have entries : behind build first = behind build second := by
    obtain ⟨headers, dynamic, table, rest, read, present, tableRead, restRead, seen⟩ :=
      report_entries made
    obtain ⟨_, _, otherTable, otherRest, otherRead, otherPresent, otherTableRead, otherRestRead,
      otherSeen⟩ := report_entries also
    obtain rfl := Option.some.inj ((same.headers ▸ read).symm.trans otherRead)
    obtain rfl := Option.some.inj (present.symm.trans otherPresent)
    have sameTable := same.tableEntries read present
    rw [tableRead, otherTableRead, Option.some.injEq] at sameTable
    subst sameTable
    have together := List.append_cancel_left (seen.symm.trans otherSeen)
    rw [restRead, otherRestRead, List.append_cancel_left together]
  simp only [report_eq, Option.bind_eq_some_iff, Option.map_eq_some_iff] at made also
  obtain ⟨found, scanned, inits, initsRead, finis, finisRead, rfl⟩ := made
  obtain ⟨other, otherScanned, otherInits, otherInitsRead, otherFinis, otherFinisRead, printed⟩ := also
  obtain rfl := Option.some.inj (scanned.symm.trans ((same.scan entries).trans otherScanned))
  rw [List.append_assoc, List.append_assoc] at printed
  obtain ⟨rfl, rfl⟩ := functions_injective (List.append_cancel_left printed)
  exact ⟨entries, initsRead.trans otherInitsRead.symm, finisRead.trans otherFinisRead.symm⟩

/-- Of two images with the same parts, the second one has the report of the first one just
if the entries that the loop sees behind the table are the same, and the pointers in the
arrays that they lead to. In the build for 32-bit files it sees none. -/
theorem report_local_iff (build : Build) (first second : List UInt8)
    (same : SameParts build first second) :
    (∀ messages, report build first = some messages →
        (report build second = some messages ↔ BehindAgrees build first second)) ∧
      (BehindAgrees build first second → report build first = report build second) ∧
      (build = .ea32 → report build first = report build second) := by
  refine ⟨fun messages made => ⟨same.agrees_of_report made, fun agrees => ?_⟩, same.report, ?_⟩
  · exact (same.report agrees).symm.trans made
  · rintro rfl
    exact same.report same.agrees_ea32

def eightBytes (low : UInt8) : List UInt8 := low :: List.replicate 7 0

/-- A 64-bit image with one program header and, at 120, a dynamic table of 48 bytes that
gives both arrays the size zero. -/
def shared (following : List UInt8) : List UInt8 :=
  [0x7f, 0x45, 0x4c, 0x46, 2, 1, 1] ++ List.replicate 9 0 ++ [3, 0, 183, 0, 1, 0, 0, 0] ++
    eightBytes 0 ++ eightBytes 64 ++ eightBytes 0 ++
    [0, 0, 0, 0, 64, 0, 56, 0, 1, 0, 64, 0, 0, 0, 0, 0] ++
    [2, 0, 0, 0, 6, 0, 0, 0] ++ eightBytes 120 ++ eightBytes 120 ++ eightBytes 120 ++
    eightBytes 48 ++ eightBytes 48 ++ eightBytes 8 ++
    eightBytes 27 ++ eightBytes 0 ++ eightBytes 28 ++ eightBytes 0 ++ List.replicate 16 0 ++
    following

def zerosFollow : List UInt8 := shared (List.replicate 48 0)

/-- Behind the table stands what looks like an entry. -/
def entryFollows : List UInt8 := shared (eightBytes 27 ++ eightBytes 4 ++ List.replicate 32 0)

/-- An entry with another tag stands there too. -/
def neededFollows : List UInt8 :=
  shared (eightBytes 27 ++ eightBytes 4 ++ eightBytes 1 ++ eightBytes 9 ++ List.replicate 16 0)

/-- What follows the table is not among the parts. -/
theorem sameParts_shared {following : List UInt8} (others : List UInt8)
    (number : readLe (shared following) Build.ea64.e_phnum 2 = some 1)
    (segment : (readHeaders .ea64 (shared following)).bind Headers.dynamic = some ⟨120, 120, 48⟩)
    (entries : entriesOf .ea64 (shared following) Build.ea64.tableCount =
      some (0, [⟨DT_INIT_ARRAYSZ, 0⟩, ⟨DT_FINI_ARRAYSZ, 0⟩])) :
    SameParts .ea64 (shared following) (shared others) where
  header := SameRange.append _ (by decide +kernel) (by decide +kernel)
  programHeaders := by
    intro e_phnum read
    rw [number] at read
    cases read
    exact SameRange.append _ (by decide +kernel) (by decide +kernel)
  table := by
    intro headers read dynamic present
    rw [read, Option.bind_some, present] at segment
    cases segment
    exact SameRange.append _ (by decide +kernel) (by decide +kernel)
  initArray := by
    intro dwProgBase table read address found
    rw [entries] at read
    cases read
    cases found
  finiArray := by
    intro dwProgBase table read address found
    rw [entries] at read
    cases read
    cases found

theorem report_local_shared :
    report .ea64 neededFollows = some [.dynamic 64 120, .initSize 0, .finiSize 0, .initSize 4] := by
  have same : SameParts .ea64 entryFollows neededFollows :=
    sameParts_shared _ (by decide +kernel) (by decide +kernel) (by decide +kernel)
  have agrees : BehindAgrees .ea64 entryFollows neededFollows :=
    ⟨by decide +kernel, by decide +kernel, by decide +kernel⟩
  exact ((report_local_iff .ea64 entryFollows neededFollows same).1 _ (by decide +kernel)).mpr agrees

theorem report_not_local : ¬ (SameParts .ea64 zerosFollow entryFollows →
    report .ea64 zerosFollow = report .ea64 entryFollows) := by
  intro alike
  have same : SameParts .ea64 zerosFollow entryFollows :=
    sameParts_shared _ (by decide +kernel) (by decide +kernel) (by decide +kernel)
  exact absurd (alike same) (by decide +kernel)

end IDAPlugins.MoreMenu
