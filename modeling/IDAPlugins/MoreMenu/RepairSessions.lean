import IDAPlugins.MoreMenu.RepairableElf
import IDAPlugins.Transition

namespace IDAPlugins.MoreMenu

open Image

/-! # Repairing a file again and again

Before it maps the file `repairelf` copies it, unless a copy is already there, and goes on
where that fails. It never looks at what it has cleared, so that another repair reports what
the first one has.
-/

structure ElfDisk where
  file : List UInt8
  /-- The file under the name with `.back` behind it. -/
  back : Option (List UInt8)

structure Call where
  system : System
  copied : Bool

/-- `CopyFile` with `TRUE` keeps a file that is already there. -/
def copyFile (copied : Bool) (disk : ElfDisk) : Option (List UInt8) :=
  match disk.back with
  | some back => some back
  | none => if copied then some disk.file else none

/-- `none` is a call that does not end. -/
def ElfDisk.repairelf (build : Build) (disk : ElfDisk) (call : Call) : Option ElfDisk :=
  (repairelfFile build call.system disk.file).map fun ended =>
    { file := ended.2
      back := if call.system.attributes then copyFile call.copied disk else disk.back }

/-- Sessions with a file beside which there may be an older copy. -/
def repairSessions (build : Build) (original : List UInt8) (older : Option (List UInt8)) :
    Transition.System ElfDisk Call where
  initial disk := disk.file = original ∧ disk.back = older
  step := ElfDisk.repairelf build

/-- No byte of a range is one of the fields that are cleared. -/
def Spares (build : Build) (start size : Nat) : Prop :=
  ∀ k < size, ¬build.InFields ((start + k) % spaceSize)

instance (build : Build) (start size : Nat) : Decidable (Spares build start size) :=
  inferInstanceAs (Decidable (∀ k < size, _))

/-- The dynamic table, as far as the loop goes, and the arrays stand outside the fields. -/
structure Apart (build : Build) (file : List UInt8) : Prop where
  table : ∀ headers ∈ readHeaders build file, ∀ dynamic ∈ headers.dynamic,
    Spares build dynamic.p_offset (scanCount dynamic * build.dynSize)
  initArray : ∀ found ∈ scanDynamic build file,
    ∀ offset ∈ found.dwInitOffset, ∀ size ∈ found.dwInitSize, Spares build offset size
  finiArray : ∀ found ∈ scanDynamic build file,
    ∀ offset ∈ found.dwFiniOffset, ∀ size ∈ found.dwFiniSize, Spares build offset size

variable {build : Build} {original first second : List UInt8} {older : Option (List UInt8)}
  {disk next : ElfDisk} {call : Call}

theorem Cleared.sameRange {start size : Nat} (cleared : Cleared build first second)
    (spares : Spares build start size) : SameRange first second start size := by
  intro k bound
  rw [byteIn, byteIn, cleared, if_neg (spares k bound)]

theorem Cleared.trans {third : List UInt8} (cleared : Cleared build first second)
    (again : Cleared build second third) : Cleared build first third := by
  intro place
  rw [again place]
  split
  · rfl
  · rename_i outside
    rw [cleared place, if_neg outside]

theorem readLe_two_lt {offset value : Nat} (read : readLe first offset 2 = some value) :
    value < 65536 := by
  simp only [readLe, Option.bind_eq_bind, Option.bind_eq_some_iff, Option.some.injEq] at read
  obtain ⟨low, -, rest, ⟨high, -, _, rfl, rfl⟩, rfl⟩ := read
  have lowLt := low.toNat_lt
  have highLt := high.toNat_lt
  omega

/-- The number of program headers stands between the fields, and the headers behind them. -/
theorem Cleared.headers (cleared : Cleared build first second) :
    readHeaders build first = readHeaders build second := by
  have number : readLe first build.e_phnum 2 = readLe second build.e_phnum 2 :=
    (cleared.sameRange (by cases build <;> decide)).readLe
  simp only [readHeaders]
  rw [← number]
  cases count : readLe first build.e_phnum 2 with
  | none => rfl
  | some e_phnum =>
    have few := readLe_two_lt count
    have behindFields : Spares build build.ehdrSize (e_phnum * build.phdrSize) := by
      intro k bound inFields
      cases build <;>
        simp only [Build.InFields, Build.e_shoff, Build.e_shentsize, Build.addrSize, Build.ehdrSize,
          Build.phdrSize, spaceSize] at bound inFields <;>
        omega
    have table := (cleared.sameRange behindFields).readEach (Nat.le_refl _)
      fun place => segmentAt_same
    simp only [Option.bind_eq_bind, Option.bind_some]
    rw [times_readEach (segmentAt build first) Headers.t_phdr headerPass_eq Headers.take_t_phdr,
      times_readEach (segmentAt build second) Headers.t_phdr headerPass_eq Headers.take_t_phdr,
      table]

theorem Cleared.scan (cleared : Cleared build first second) (apart : Apart build first) :
    scanDynamic build first = scanDynamic build second := by
  cases read : readHeaders build first with
  | none =>
    have other : readHeaders build second = none := cleared.headers ▸ read
    simp only [scanDynamic, read, other, Option.bind_eq_bind, Option.bind_none]
  | some headers =>
    have other : readHeaders build second = some headers := cleared.headers ▸ read
    cases present : headers.dynamic with
    | none =>
      simp only [scanDynamic, read, other, present, Option.bind_eq_bind, Option.bind_some,
        Option.bind_none]
    | some dynamic =>
      have table := (cleared.sameRange (apart.table headers read dynamic present)).readEach
        (Nat.le_refl _) fun place => entryAt_same
      rw [scanDynamic_eq read present, scanDynamic_eq other present, entriesFrom, entriesFrom, table]

theorem Cleared.report (cleared : Cleared build first second) (apart : Apart build first) :
    MoreMenu.report build first = MoreMenu.report build second := by
  simp only [MoreMenu.report, cleared.scan apart]
  cases scanned : scanDynamic build second with
  | none => rfl
  | some found =>
    have firstScan : scanDynamic build first = some found := cleared.scan apart ▸ scanned
    have inits : listFunctions build first found.dwInitOffset found.dwInitSize =
        listFunctions build second found.dwInitOffset found.dwInitSize :=
      listFunctions_same build fun base offset bytes size =>
        cleared.sameRange (apart.initArray found firstScan base offset bytes size)
    have finis : listFunctions build first found.dwFiniOffset found.dwFiniSize =
        listFunctions build second found.dwFiniOffset found.dwFiniSize :=
      listFunctions_same build fun base offset bytes size =>
        cleared.sameRange (apart.finiArray found firstScan base offset bytes size)
    simp only [Option.bind_eq_bind, Option.bind_some, inits, finis]

/-- The original, or with its fields cleared. -/
def ClearedAtMost (build : Build) (original file : List UInt8) : Prop :=
  file = original ∨ Cleared build original file

/-- An older copy is kept. Where there was none a copy is as good as the file. -/
structure Backed (build : Build) (original : List UInt8) (older : Option (List UInt8))
    (disk : ElfDisk) : Prop where
  file : ClearedAtMost build original disk.file
  kept : ∀ back ∈ older, disk.back = some back
  made : older = none → ∀ back ∈ disk.back, ClearedAtMost build original back

/-- The original is in the copy, or still in the file. -/
structure Saved (original : List UInt8) (disk : ElfDisk) : Prop where
  there : disk.file = original ∨ disk.back = some original
  right : ∀ back ∈ disk.back, back = original

/-- A call leaves the file as it is, or clears the fields of a file that is there. -/
theorem repairelfFile_cleared {system : System} {code : Int} {after : List UInt8}
    (ended : repairelfFile build system first = some (code, after)) :
    after = first ∨ system.attributes = true ∧ Cleared build first after := by
  rw [repairelfFile] at ended
  by_cases missing : system.attributes = false
  · rw [if_pos missing, Option.some.injEq, Prod.mk.injEq] at ended
    exact .inl ended.2.symm
  · rw [if_neg missing] at ended
    cases mapping : system.mapping with
    | invalid =>
      simp only [mapping, Option.some.injEq, Prod.mk.injEq] at ended
      exact .inl ended.2.symm
    | noView =>
      simp only [mapping, reduceCtorEq] at ended
    | view =>
      simp only [mapping, Option.bind_eq_bind, Option.bind_eq_some_iff, Option.some.injEq,
        Prod.mk.injEq] at ended
      obtain ⟨⟨messages, cleared⟩, repaired, -, rfl⟩ := ended
      exact .inr ⟨Bool.of_not_eq_false missing, repairelf_cleared repaired⟩

theorem ClearedAtMost.repairelfFile {system : System} {code : Int} {after : List UInt8}
    (repaired : ClearedAtMost build original first)
    (ended : repairelfFile build system first = some (code, after)) :
    ClearedAtMost build original after := by
  rcases repairelfFile_cleared ended with rfl | ⟨-, cleared⟩
  · exact repaired
  · rcases repaired with rfl | before
    · exact .inr cleared
    · exact .inr (before.trans cleared)

/-- A copy is the one that was there, or the file. -/
theorem mem_copyFile {copied : Bool} {back : List UInt8} (present : back ∈ copyFile copied disk) :
    disk.back = some back ∨ disk.back = none ∧ back = disk.file := by
  rw [copyFile] at present
  cases before : disk.back with
  | some other =>
    rw [before] at present
    exact .inl present
  | none =>
    rw [before, Option.mem_ite_none_right] at present
    exact .inr ⟨rfl, (Option.some.inj present.2).symm⟩

theorem repairelf_backed (backed : Backed build original older disk)
    (taken : disk.repairelf build call = some next) : Backed build original older next := by
  obtain ⟨⟨code, after⟩, ended, rfl⟩ := Option.map_eq_some_iff.mp taken
  refine ⟨backed.file.repairelfFile ended, fun back before => ?_, fun none back present => ?_⟩
  · have there := backed.kept back before
    show (if call.system.attributes then copyFile call.copied disk else disk.back) = some back
    rw [copyFile, there, ite_self]
  · cases attributes : call.system.attributes with
    | false =>
      simp only [attributes, Bool.false_eq_true, if_false] at present
      exact backed.made none back present
    | true =>
      simp only [attributes, if_true] at present
      rcases mem_copyFile present with there | ⟨-, rfl⟩
      · exact backed.made none back there
      · exact backed.file

/-- The copy is made first, of a file that is not cleared yet, and kept from then on. -/
theorem repairelf_saved (saved : Saved original disk) (copied : call.copied = true)
    (taken : disk.repairelf build call = some next) : Saved original next := by
  obtain ⟨⟨code, after⟩, ended, rfl⟩ := Option.map_eq_some_iff.mp taken
  cases attributes : call.system.attributes with
  | false =>
    have same : after = disk.file := (repairelfFile_cleared ended).resolve_right fun both => by
      rw [attributes] at both
      exact Bool.false_ne_true both.1
    simp only [Bool.false_eq_true, if_false]
    exact same ▸ saved
  | true =>
    have copy : copyFile call.copied disk = some original := by
      rw [copyFile, copied, if_pos rfl]
      cases before : disk.back with
      | some back => rw [saved.right back before]
      | none => rw [saved.there.resolve_right (by rw [before]; nofun)]
    simp only [if_true, copy]
    exact ⟨.inr rfl, fun back present => (Option.some.inj present).symm⟩

/-- However often a file is repaired, it differs from the original in the cleared fields only,
an older copy is kept, and a new one is a file that was repaired no further. Where the copies
succeed and there was no older one, the copy is the original. The file still reports what the
original does, unless a table stands in these fields. -/
theorem reaches_copy {allowed : ElfDisk → Call → Bool}
    (reached : Transition.Reaches (repairSessions build original older) allowed disk) :
    Backed build original older disk ∧
      (older = none → (∀ disk call, allowed disk call = true → call.copied = true) →
        Saved original disk) ∧
      (Apart build original → report build disk.file = report build original) := by
  have backed : Backed build original older disk := by
    refine @Transition.Reaches.invariant _ _ _ _ (Backed build original older)
      (fun first start => ?_) (fun _ _ _ backed _ taken => repairelf_backed backed taken) _ reached
    obtain ⟨file, back⟩ := start
    refine ⟨.inl file, fun copy there => back.trans there, fun none copy there => ?_⟩
    rw [back, none] at there
    exact absurd there (Option.not_mem_none _)
  refine ⟨backed, fun none copies => ?_, fun apart => ?_⟩
  · refine @Transition.Reaches.invariant _ _ _ _ (Saved original) (fun first start => ?_)
      (fun _ _ _ saved meets taken => repairelf_saved saved (copies _ _ meets) taken) _ reached
    obtain ⟨file, back⟩ := start
    refine ⟨.inl file, ?_⟩
    rw [back, none]
    exact fun _ present => absurd present (Option.not_mem_none _)
  · rcases backed.file with file | cleared
    · rw [file]
    · exact (cleared.report apart).symm

theorem scanDynamic_shared : scanDynamic .ea64 zerosFollow = some
    { Found.unset 216 [.dynamic 64 120, .initSize 0, .finiSize 0] with
      dwInitSize := some 0
      dwFiniSize := some 0 } := by
  decide +kernel

theorem apart_zerosFollow : Apart .ea64 zerosFollow where
  table := by
    intro headers read dynamic present
    have first : (readHeaders .ea64 zerosFollow).bind Headers.dynamic = some ⟨120, 120, 48⟩ := by
      decide +kernel
    rw [read, Option.bind_some, present] at first
    cases first
    decide
  initArray := by
    intro found scanned offset present
    rw [scanDynamic_shared] at scanned
    cases scanned
    cases present
  finiArray := by
    intro found scanned offset present
    rw [scanDynamic_shared] at scanned
    cases scanned
    cases present

/-- Two repairs, with a copy each time that it is asked for, and with none the first time. -/
theorem reaches_copy_twice :
    (∃ disk : ElfDisk, disk.file ≠ zerosFollow ∧ disk.back = some zerosFollow ∧
      report .ea64 disk.file = report .ea64 zerosFollow) ∧
    ∃ (disk : ElfDisk) (back : List UInt8), disk.back = some back ∧ back ≠ zerosFollow ∧
      ClearedAtMost .ea64 zerosFollow back ∧
      report .ea64 disk.file = report .ea64 zerosFollow := by
  have start (allowed : ElfDisk → Call → Bool) :
      Transition.Reaches (repairSessions .ea64 zerosFollow none) allowed ⟨zerosFollow, none⟩ :=
    .initial ⟨rfl, rfl⟩
  constructor
  · let played := (repairSessions .ea64 zerosFollow none).play (fun _ call => call.copied)
      ⟨zerosFollow, none⟩ [⟨opened, true⟩, ⟨opened, true⟩]
    have changed : played.map (fun disk => decide (disk.file = zerosFollow)) = some false := by
      decide +kernel
    obtain ⟨disk, ran, other⟩ := Option.map_eq_some_iff.mp changed
    have other := of_decide_eq_false other
    obtain ⟨-, saved, reported⟩ := reaches_copy ((start _).play ran)
    have saved := saved rfl fun _ _ copied => copied
    exact ⟨disk, other, saved.there.resolve_left other, reported apart_zerosFollow⟩
  · let played := (repairSessions .ea64 zerosFollow none).play (fun _ _ => true)
      ⟨zerosFollow, none⟩ [⟨opened, false⟩, ⟨opened, true⟩]
    have late : played.bind (fun disk => disk.back.map fun back => decide (back = zerosFollow)) =
        some false := by
      decide +kernel
    obtain ⟨disk, ran, there⟩ := Option.bind_eq_some_iff.mp late
    obtain ⟨back, there, other⟩ := Option.map_eq_some_iff.mp there
    obtain ⟨backed, -, reported⟩ := reaches_copy ((start _).play ran)
    exact ⟨disk, back, there, of_decide_eq_false other, backed.made rfl back there,
      reported apart_zerosFollow⟩

end IDAPlugins.MoreMenu
