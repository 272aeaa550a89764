import IDAPlugins.Machine
import IDAPlugins.Overlay

namespace IDAPlugins.MoreMenu

open Machine

/-! # Applying patches to the input file

`Apply_patches` maps the input file into memory and copies every ticked segment from
the database to the file offset of its first byte. The file can be opened and mapped;
`none` is a store outside the mapping or a failed allocation.
-/

structure Segment where
  startEA : Nat
  endEA : Nat
  ordered : startEA ≤ endEA

structure Row where
  curseg : Segment
  nSelectStat : Nat

/-- What is given beside the bytes: the path of the database, the list of segments and
the place of the addresses in the file. -/
structure Layout where
  database_idb : List UInt8
  rows : List Row
  get_fileregion_offset : Nat → Option Nat
  injective : ∀ a b o, get_fileregion_offset a = some o → get_fileregion_offset b = some o → a = b

/-- `get_fileregion_offset` as the source has it, an `int` and -1 without a place. -/
def Layout.fileOffset (layout : Layout) (ea : Nat) : Int :=
  match layout.get_fileregion_offset ea with
  | some o => int32 o
  | none => -1

/-- The file, its copy, and the values that `altset` stores. -/
structure Disk where
  file : List UInt8
  back : Option (List UInt8)
  altvals : Nat → Nat

def Disk.altset (disk : Disk) (index value : Nat) : Disk :=
  { disk with altvals := fun i => if i = index then value else disk.altvals i }

/-- An index into the mapping is the sum of two `int`s. -/
def indexLimit : Nat := 2147483648

def segWriteFile (lpMemAddr lpInBuf : List UInt8) (nOffset : Nat) : Option (List UInt8) :=
  Overlay.put indexLimit lpMemAddr nOffset lpInBuf

def segReadBuf (get_byte : Nat → UInt8) (ea : Nat) (nSize : Int) : List UInt8 :=
  (List.range nSize.toNat).map fun i => get_byte (ea + i)

def Segment.nSize (curseg : Segment) : Int :=
  int32 (curseg.endEA - curseg.startEA)

/-- `malloc(nSize + 1)` gives memory below 2^31 bytes. -/
def allocates (nSize : Int) : Prop :=
  0 ≤ int32 (nSize + 1)

instance (nSize : Int) : Decidable (allocates nSize) :=
  inferInstanceAs (Decidable (0 ≤ int32 (nSize + 1)))

def Layout.written (layout : Layout) (row : Row) : Bool :=
  decide (0 < layout.fileOffset row.curseg.startEA) && row.nSelectStat != 0

def applySegment (layout : Layout) (get_byte : Nat → UInt8) (i : Nat) (row : Row) (disk : Disk) :
    Option Disk :=
  let disk := disk.altset i row.nSelectStat
  if layout.written row then
    if allocates row.curseg.nSize then
      (segWriteFile disk.file (segReadBuf get_byte row.curseg.startEA row.curseg.nSize)
        (layout.fileOffset row.curseg.startEA).toNat).map fun file => { disk with file }
    else none
  else some disk

def applySegments (layout : Layout) (get_byte : Nat → UInt8) :
    Nat → List Row → Disk → Option Disk
  | _, [], disk => some disk
  | i, row :: rest, disk =>
    (applySegment layout get_byte i row disk).bind fun disk =>
      applySegments layout get_byte (i + 1) rest disk

def checkBackfileIndex : Nat := 0x100

def Layout.rooted (layout : Layout) : Bool :=
  -- `strrchr` looks at the 256 characters that were copied.
  (layout.database_idb.take 256).contains 0x5C

def applyPatches (layout : Layout) (back : Bool) (get_byte : Nat → UInt8) (disk : Disk) :
    Option Disk :=
  if layout.rooted then
    let disk :=
      if back then { disk with back := some disk.file }.altset checkBackfileIndex 1
      else disk.altset checkBackfileIndex 0
    applySegments layout get_byte 0 layout.rows disk
  else some disk

def Layout.writtenRows (layout : Layout) : List Row :=
  if layout.rooted then layout.rows.filter layout.written else []

def Layout.offset (layout : Layout) (row : Row) : Nat :=
  (layout.fileOffset row.curseg.startEA).toNat

def Row.size (row : Row) : Nat :=
  row.curseg.nSize.toNat

def Layout.Covers (layout : Layout) (row : Row) (o : Nat) : Prop :=
  layout.offset row ≤ o ∧ o < layout.offset row + row.size

def Layout.run (layout : Layout) (get_byte : Nat → UInt8) (row : Row) : Overlay.Run UInt8 :=
  { offset := layout.offset row
    values := segReadBuf get_byte row.curseg.startEA row.curseg.nSize }

variable {layout : Layout} {get_byte : Nat → UInt8}

theorem run_length (row : Row) : (layout.run get_byte row).values.length = row.size := by
  rw [Layout.run, segReadBuf, List.length_map, List.length_range, Row.size]

theorem run_covers_iff {row : Row} {o : Nat} :
    (layout.run get_byte row).Covers o ↔ layout.Covers row o := by
  rw [Overlay.Run.Covers, run_length]
  rfl

theorem run_value {row : Row} {i : Nat} (bound : i < row.size) :
    (layout.run get_byte row).values[i]? = some (get_byte (row.curseg.startEA + i)) := by
  rw [Row.size] at bound
  rw [Layout.run, segReadBuf, List.getElem?_map, List.getElem?_range bound]
  rfl

/-- The loop over the segments writes the runs of the written rows over each other. -/
theorem applySegments_file (i : Nat) (rows : List Row) (disk : Disk) :
    (applySegments layout get_byte i rows disk).map Disk.file =
      if ∀ row ∈ rows.filter layout.written, allocates row.curseg.nSize then
        Overlay.putAll indexLimit disk.file
          ((rows.filter layout.written).map (layout.run get_byte))
      else none := by
  induction rows generalizing i disk with
  | nil => rfl
  | cons row rest ih =>
    by_cases taken : layout.written row
    · by_cases memory : allocates row.curseg.nSize
      · rw [applySegments, applySegment, if_pos taken, if_pos memory,
          List.filter_cons_of_pos taken, List.map_cons, Overlay.putAll]
        change Option.map Disk.file (Option.bind (Option.map _ (Overlay.put indexLimit disk.file
          (layout.run get_byte row).offset (layout.run get_byte row).values)) _) = _
        cases Overlay.put indexLimit disk.file (layout.run get_byte row).offset
          (layout.run get_byte row).values with
        | none => simp
        | some file =>
          rw [Option.map_some, Option.bind_some, ih]
          simp [memory]
      · simp [applySegments, applySegment, taken, memory]
    · rw [applySegments, applySegment, if_neg taken, Option.bind_some, ih,
        List.filter_cons_of_neg taken]
      rfl

theorem applyPatches_file (layout : Layout) (get_byte : Nat → UInt8) (back : Bool) (disk : Disk) :
    (applyPatches layout back get_byte disk).map Disk.file =
      if ∀ row ∈ layout.writtenRows, allocates row.curseg.nSize then
        Overlay.putAll indexLimit disk.file (layout.writtenRows.map (layout.run get_byte))
      else none := by
  unfold applyPatches Layout.writtenRows
  split
  · rw [applySegments_file]
    cases back <;> rfl
  · simp [Overlay.putAll]

/-- The bytes of the ticked segments are in the file where they belong, and nothing else
has changed. -/
structure Patched (layout : Layout) (get_byte : Nat → UInt8) (file after : List UInt8) : Prop where
  length : after.length = file.length
  patched : ∀ row ∈ layout.rows, row.nSelectStat ≠ 0 → ∀ a, row.curseg.startEA ≤ a →
    a < row.curseg.endEA → ∀ o, layout.get_fileregion_offset a = some o →
      after[o]? = some (get_byte a)
  kept : ∀ o, (∀ row ∈ layout.rows, row.nSelectStat ≠ 0 → ∀ a, row.curseg.startEA ≤ a →
    a < row.curseg.endEA → layout.get_fileregion_offset a ≠ some o) → after[o]? = file[o]?

/-- What the segments and the file have to be like: every run lies in the file, a byte
that is not written over belongs where it was written, and every ticked address with a
place in the file is reached. -/
structure Exact (layout : Layout) (size : Nat) : Prop where
  memory : ∀ row ∈ layout.writtenRows, allocates row.curseg.nSize
  fits : ∀ row ∈ layout.writtenRows, ∀ o, layout.Covers row o → o < size ∧ o < indexLimit
  places : ∀ earlier row later, layout.writtenRows = earlier ++ row :: later →
    ∀ i < row.size, (∀ other ∈ later, ¬ layout.Covers other (layout.offset row + i)) →
      layout.get_fileregion_offset (row.curseg.startEA + i) = some (layout.offset row + i)
  reaches : ∀ row ∈ layout.rows, row.nSelectStat ≠ 0 → ∀ a, row.curseg.startEA ≤ a →
    a < row.curseg.endEA → ∀ o, layout.get_fileregion_offset a = some o →
      ∃ other ∈ layout.writtenRows, layout.Covers other o

theorem mem_writtenRows {row : Row} (member : row ∈ layout.writtenRows) :
    row ∈ layout.rows ∧ row.nSelectStat ≠ 0 := by
  unfold Layout.writtenRows at member
  split at member
  · obtain ⟨inside, taken⟩ := List.mem_filter.mp member
    rw [Layout.written, Bool.and_eq_true, bne_iff_ne] at taken
    exact ⟨inside, taken.2⟩
  · exact absurd member List.not_mem_nil

theorem size_le (row : Row) : row.curseg.startEA + row.size ≤ row.curseg.endEA := by
  have ordered := row.curseg.ordered
  unfold Row.size Segment.nSize int32
  split <;> omega

theorem runs_split {earlier later : List Row} {row : Row}
    (split : layout.writtenRows = earlier ++ row :: later) :
    layout.writtenRows.map (layout.run get_byte) = earlier.map (layout.run get_byte) ++
      layout.run get_byte row :: later.map (layout.run get_byte) := by
  rw [split, List.map_append, List.map_cons]

theorem free_runs {rows : List Row} {o : Nat} (free : ∀ other ∈ rows, ¬ layout.Covers other o) :
    ∀ other ∈ rows.map (layout.run get_byte), ¬ other.Covers o := by
  intro other member
  obtain ⟨row, inside, rfl⟩ := List.mem_map.mp member
  exact run_covers_iff.not.mpr (free row inside)

theorem last_byte {file after : List UInt8} {earlier later : List Row} {row : Row} {i : Nat}
    (wrote : Overlay.putAll indexLimit file (layout.writtenRows.map (layout.run get_byte)) =
      some after)
    (split : layout.writtenRows = earlier ++ row :: later) (bound : i < row.size)
    (last : ∀ other ∈ later, ¬ layout.Covers other (layout.offset row + i)) :
    after[layout.offset row + i]? = some (get_byte (row.curseg.startEA + i)) := by
  rw [runs_split split] at wrote
  rw [← run_value bound]
  exact Overlay.putAll_last wrote (by rwa [run_length]) (free_runs last)

theorem applyPatches_some {back : Bool} {disk after : Disk}
    (ran : applyPatches layout back get_byte disk = some after) :
    (∀ row ∈ layout.writtenRows, allocates row.curseg.nSize) ∧
      Overlay.putAll indexLimit disk.file (layout.writtenRows.map (layout.run get_byte)) =
        some after.file := by
  have file := applyPatches_file layout get_byte back disk
  rw [ran, Option.map_some] at file
  split at file
  · exact ⟨‹_›, file.symm⟩
  · cases file

/-- A run over an offset has a last one, and that one holds the address of the offset. -/
theorem Exact.last_place {layout : Layout} {size o : Nat} (exact : Exact layout size)
    (covered : ∃ row ∈ layout.writtenRows, layout.Covers row o) :
    ∃ earlier row later i, layout.writtenRows = earlier ++ row :: later ∧ i < row.size ∧
      o = layout.offset row + i ∧ (∀ other ∈ later, ¬ layout.Covers other o) ∧
      layout.get_fileregion_offset (row.curseg.startEA + i) = some o := by
  obtain ⟨earlier, row, later, split, covers, last⟩ := Overlay.exists_last covered
  obtain ⟨lower, upper⟩ := covers
  have at_run : o = layout.offset row + (o - layout.offset row) := by omega
  refine ⟨earlier, row, later, o - layout.offset row, split, by omega, at_run, last, ?_⟩
  have place := exact.places earlier row later split (o - layout.offset row) (by omega)
    (by rwa [← at_run])
  rwa [← at_run] at place

/-- Segments laid out exactly are patched, whatever the bytes are. -/
theorem Exact.patched {size : Nat} (exact : Exact layout size) (back : Bool) (disk : Disk)
    (sized : disk.file.length = size) :
    ∃ after, applyPatches layout back get_byte disk = some after ∧
      Patched layout get_byte disk.file after.file := by
  have room : (Overlay.putAll indexLimit disk.file
      (layout.writtenRows.map (layout.run get_byte))).isSome := by
    refine Overlay.putAll_isSome_iff.mpr fun run member o covers => ?_
    obtain ⟨row, inside, rfl⟩ := List.mem_map.mp member
    exact sized ▸ exact.fits row inside o (run_covers_iff.mp covers)
  have file := applyPatches_file layout get_byte back disk
  obtain ⟨written, wrote⟩ := Option.isSome_iff_exists.mp room
  rw [if_pos exact.memory, wrote, Option.map_eq_some_iff] at file
  obtain ⟨after, ran, rfl⟩ := file
  refine ⟨after, ran, Overlay.putAll_length wrote, ?_, ?_⟩
  · intro row member ticked a lower upper o place
    obtain ⟨earlier, other, later, i, split, bound, rfl, last, same⟩ :=
      exact.last_place (exact.reaches row member ticked a lower upper o place)
    rw [last_byte wrote split bound last, layout.injective _ _ _ same place]
  · intro o free
    refine Overlay.putAll_untouched wrote (free_runs fun row member covers => ?_)
    obtain ⟨earlier, other, later, i, split, bound, -, -, place⟩ :=
      exact.last_place ⟨row, member, covers⟩
    have written : other ∈ layout.writtenRows := by
      rw [split]
      exact List.mem_append_right earlier List.mem_cons_self
    have ⟨inside, ticked⟩ := mem_writtenRows written
    have ends := size_le other
    exact free other inside ticked _ (Nat.le_add_right _ _) (by omega) place

/-- The patched file is exact for all bytes of the database and all contents of a file of that
size if and only if the segments are laid out exactly. -/
theorem applyPatches_exact_iff (layout : Layout) (back : Bool) (size : Nat) :
    (∀ get_byte disk, disk.file.length = size →
      ∃ after, applyPatches layout back get_byte disk = some after ∧
        Patched layout get_byte disk.file after.file) ↔ Exact layout size := by
  refine ⟨fun patches => ?_, fun exact get_byte disk => exact.patched back disk⟩
  -- A file of zeros tells where the ones of the database have gone.
  have blank (get_byte : Nat → UInt8) : ∃ after,
      Overlay.putAll indexLimit (List.replicate size 0)
        (layout.writtenRows.map (layout.run get_byte)) = some after ∧
      Patched layout get_byte (List.replicate size 0) after ∧
      ∀ row ∈ layout.writtenRows, allocates row.curseg.nSize := by
    obtain ⟨after, ran, patched⟩ := patches get_byte
      { file := List.replicate size 0, back := none, altvals := fun _ => 0 }
      List.length_replicate
    obtain ⟨memory, wrote⟩ := applyPatches_some ran
    exact ⟨after.file, wrote, patched, memory⟩
  have zero_or_none (o : Nat) : (List.replicate size (0 : UInt8))[o]? ≠ some 1 := by
    rw [List.getElem?_replicate]
    split <;> decide
  constructor
  · obtain ⟨-, -, -, memory⟩ := blank fun _ => 1
    exact memory
  · intro row member o covers
    obtain ⟨after, wrote, -, -⟩ := blank fun _ => 1
    have room := Overlay.putAll_isSome_iff.mp (Option.isSome_of_eq_some wrote) _
      (List.mem_map_of_mem member) o (run_covers_iff.mpr covers)
    rwa [List.length_replicate] at room
  · intro earlier row later split i bound last
    obtain ⟨after, wrote, patched, -⟩ := blank fun a => if a = row.curseg.startEA + i then 1 else 0
    have byte := last_byte wrote split bound last
    rw [if_pos rfl] at byte
    by_contra elsewhere
    by_cases free : ∀ other ∈ layout.rows, other.nSelectStat ≠ 0 → ∀ a, other.curseg.startEA ≤ a →
        a < other.curseg.endEA → layout.get_fileregion_offset a ≠ some (layout.offset row + i)
    · exact zero_or_none _ (patched.kept _ free ▸ byte)
    · push Not at free
      obtain ⟨other, inside, ticked, a, lower, upper, place⟩ := free
      have expected := patched.patched other inside ticked a lower upper _ place
      rw [byte] at expected
      by_cases same : a = row.curseg.startEA + i
      · exact elsewhere (same ▸ place)
      · rw [if_neg same] at expected
        exact absurd expected (by decide)
  · intro row inside ticked a lower upper o place
    obtain ⟨after, wrote, patched, -⟩ := blank fun _ => 1
    have expected := patched.patched row inside ticked a lower upper o place
    by_contra free
    push Not at free
    rw [Overlay.putAll_untouched wrote (free_runs free)] at expected
    exact zero_or_none o expected

/-- One ticked segment of four bytes, whose first byte has a place in the file. -/
def oneSegment (first : Nat) : Layout :=
  { database_idb := [0x5C]
    rows := [{ curseg := { startEA := 0x1000, endEA := 0x1004, ordered := by decide }
               nSelectStat := 1 }]
    get_fileregion_offset := fun a =>
      if 0x1000 ≤ a ∧ a < 0x1004 then some (first + (a - 0x1000)) else none
    injective := by
      intro a b o placeA placeB
      split at placeA
      · split at placeB
        · rw [Option.some.injEq] at placeA placeB
          omega
        · cases placeB
      · cases placeA }

theorem applyPatches_behind_header :
    ∃ after, applyPatches (oneSegment 2) false (fun _ => 1)
        { file := [0, 0, 0, 0, 0, 0, 0, 0], back := none, altvals := fun _ => 0 } = some after ∧
      Patched (oneSegment 2) (fun _ => 1) [0, 0, 0, 0, 0, 0, 0, 0] after.file := by
  have written : (oneSegment 2).writtenRows = (oneSegment 2).rows := rfl
  refine (applyPatches_exact_iff (oneSegment 2) false 8).mpr ⟨by decide, ?_, ?_, ?_⟩ _ _ rfl
  · intro row member o covers
    rw [written] at member
    cases List.mem_singleton.mp member
    have upper : o < 2 + 4 := covers.2
    rw [indexLimit]
    omega
  · intro earlier row later split i bound last
    rw [written] at split
    obtain ⟨rfl, rest⟩ | ⟨first, rfl, rest⟩ := List.cons_eq_append_iff.mp split
    · cases rest
      have bound : i < 4 := bound
      have inside : 0x1000 ≤ 0x1000 + i ∧ 0x1000 + i < 0x1004 := by omega
      have place : 2 + (0x1000 + i - 0x1000) = 2 + i := by omega
      exact (if_pos inside).trans (congrArg some place)
    · exact absurd rest (by simp)
  · intro row member ticked a lower upper o place
    refine ⟨row, written ▸ member, ?_⟩
    cases List.mem_singleton.mp member
    have place : (if 0x1000 ≤ a ∧ a < 0x1004 then some (2 + (a - 0x1000)) else none) = some o :=
      place
    rw [if_pos ⟨lower, upper⟩, Option.some.injEq] at place
    have upper : a < 0x1004 := upper
    show 2 ≤ o ∧ o < 2 + 4
    omega

/-- At the start of the file it is not. -/
theorem applyPatches_at_zero : ¬ ∀ (layout : Layout) (back : Bool) (get_byte : Nat → UInt8)
    (disk : Disk), (∀ a o, layout.get_fileregion_offset a = some o → o < disk.file.length) →
      ∃ after, applyPatches layout back get_byte disk = some after ∧
        Patched layout get_byte disk.file after.file := by
  intro exact
  obtain ⟨after, ran, patched⟩ := exact (oneSegment 0) false (fun _ => 1)
    { file := [0, 0, 0, 0], back := none, altvals := fun _ => 0 } (by
      intro a o place
      simp only [oneSegment, Nat.zero_add] at place
      split at place
      · rw [Option.some.injEq] at place
        simp only [List.length_cons, List.length_nil]
        omega
      · cases place)
  cases ran
  exact absurd (patched.patched _ List.mem_cons_self (by decide) 0x1000 (by decide) (by decide) 0 rfl)
    (by decide)

end IDAPlugins.MoreMenu
