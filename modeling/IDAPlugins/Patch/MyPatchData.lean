import IDAPlugins.Patch.Repeating

namespace IDAPlugins.Patch.MyPatchData

open Groups

/-! # The plug-in without a byte order

`MyPatchData` is the older plug-in: it has no groups to reverse, and its buffers are
smaller. Where no byte order is chosen, `KDPatch` should pass the same bytes.
-/

structure Form where
  szInValue : List UInt8
  nAddres : Nat
  nCount : Nat
  nRadio : Nat
  checkmask : Nat

def Form.address (form : Form) (db : Database) : Nat :=
  if form.checkmask % 2 = 1 then db.get_screen_ea else form.nAddres

/-- `lpTmpBuf` and `nHexLen`. For a text the buffer has one byte more than the data, and
the last stores of `sscanf` run on into `behind`: bytes that nobody else uses. -/
def readData (behind szInValue : List UInt8) (file : Option (Option (List UInt8))) :
    Option (Except Warning (List UInt8 × Nat)) :=
  let szValue := szInValue.filter (· ≠ 0x20)
  let nHexLen := szValue.length / 2
  if szValue.length = 0 then
    match file with
    | none => some (.error .noData)
    | some none => some (.error .openFailed)
    | some (some bytes) =>
      if allocates (bytes.length + 1) then some (.ok (bytes ++ [0], bytes.length)) else none
  else if szValue.length % 2 ≠ 0 then
    some (.error .oddLength)
  else if szValue.any (fun ch => FindHex.hexDigit? ch = none) then
    some (.error .notHex)
  else
    (Overlay.putAll processLimit (List.replicate (nHexLen + 1) 0 ++ behind)
      (hexRuns szValue nHexLen)).map fun lpTmpBuf => .ok (lpTmpBuf, nHexLen)

/-- `lpInBuf` behind the loop of `memcpy`. -/
def repeatData (nHexLen nCount : Nat) (lpTmpBuf : List UInt8) : Option (List UInt8) :=
  let size := (nHexLen * nCount + 1) % processLimit
  if allocates size then
    Overlay.putAll processLimit (List.replicate size 0) (copyRuns nHexLen nCount lpTmpBuf)
  else none

/-- The arguments of `put_many_bytes`. -/
def putManyBytes (behind : List UInt8) (form : Form) (file : Option (Option (List UInt8)))
    (db : Database) : Option (Except Warning (Nat × List UInt8)) := do
  match ← readData behind form.szInValue file with
  | .error warning => some (.error warning)
  | .ok (lpTmpBuf, nHexLen) =>
    let lpInBuf ← repeatData nHexLen form.nCount lpTmpBuf
    let nAddres := form.address db
    let total := form.nCount * nHexLen % words db.ea64
    if !db.isLoaded nAddres then
      some (.error (.badAddress nAddres))
    else if !db.isLoaded ((nAddres + total + words db.ea64 - 1) % words db.ea64) then
      some (.error .tooLong)
    else if !allocates ((total + 1) % processLimit) then
      some (.error .mallocFailed)
    else
      (Loop.times (Loop.times (patchByte form.nRadio) nHexLen) form.nCount
        { lpInBuf, mem := region db.memory nAddres (total % processLimit), nSum := 0 }).map fun state =>
          .ok (nAddres, state.mem.take state.nSum)

def older (form : Patch.Form) : Form where
  szInValue := form.szInValue
  nAddres := form.nAddres
  nCount := form.nCount
  nRadio := form.nWriteRadio
  checkmask := form.checkmask

/-- Both plug-ins pass the data as often as asked for. -/
def PlainCopies (behind : List UInt8) (form : Patch.Form) (file : Option (Option (List UInt8)))
    (db : Database) (data : List UInt8) : Prop :=
  Patch.putManyBytes form file db = some (.ok (form.address db, copies form.nCount data)) ∧
    putManyBytes behind (older form) file db = Patch.putManyBytes form file db

variable {behind szInValue : List UInt8} {file : Option (Option (List UInt8))}
variable {source : Source} {data : List UInt8}

theorem readData_eq_readInto : readData behind =
    readInto fun nHexLen => List.replicate (nHexLen + 1) 0 ++ behind := rfl

/-- The last store ends two bytes behind the buffer. -/
theorem hexRuns_fit_iff {nHexLen : Nat} (szValue : List UInt8) (positive : 0 < nHexLen)
    (small : nHexLen < 1073741824) :
    (Overlay.putAll processLimit (List.replicate (nHexLen + 1) 0 ++ behind)
      (hexRuns szValue nHexLen)).isSome ↔ 2 ≤ behind.length := by
  rw [Overlay.putAll_isSome_iff, List.length_append, List.length_replicate]
  constructor
  · intro room
    have member : hexRun szValue (nHexLen - 1) ∈ hexRuns szValue nHexLen :=
      List.mem_map.mpr ⟨_, List.mem_range.mpr (by omega), rfl⟩
    have last := room _ member (nHexLen - 1 + 3)
      ⟨Nat.le_add_right _ _, Nat.add_lt_add_left (show 3 < 4 by decide) _⟩
    omega
  · intro room run member k covers
    obtain ⟨i, inside, rfl⟩ := List.mem_map.mp member
    have offset := List.mem_range.mp inside
    have upper : k < i + 4 := covers.2
    rw [processLimit]
    omega

theorem readData_given (given : Given szInValue file source data)
    (small : data.length < 1073741824) (room : source = .digits → 2 ≤ behind.length) :
    ∃ lpTmpBuf, readData behind szInValue file = some (.ok (lpTmpBuf, data.length)) ∧
      lpTmpBuf.take data.length = data := by
  rw [readData_eq_readInto]
  cases given with
  | digits pattern stripped =>
    rw [FindHex.decoded_length] at small ⊢
    have fits := (hexRuns_fit_iff pattern.text pattern.count_pos small).mpr (room rfl)
    obtain ⟨lpTmpBuf, stored⟩ := Option.isSome_iff_exists.mp fits
    refine ⟨lpTmpBuf, ?_, hexRuns_decoded pattern stored⟩
    rw [readInto_text pattern _ file stripped, stored, Option.map_some]
  | file data nonempty stripped chosen =>
    have memory : allocates (data.length + 1) = true := allocates_small (by omega)
    refine ⟨data ++ [0], ?_, List.take_left⟩
    rw [readInto_file _ stripped chosen, if_pos memory]

theorem readData_room (given : Given szInValue file source data)
    (small : data.length < 1073741824) (read : readData behind szInValue file ≠ none)
    (text : source = .digits) : 2 ≤ behind.length := by
  rw [readData_eq_readInto] at read
  cases given with
  | digits pattern stripped =>
    rw [FindHex.decoded_length] at small
    rw [readInto_text pattern _ file stripped, ne_eq, Option.map_eq_none_iff] at read
    exact (hexRuns_fit_iff pattern.text pattern.count_pos small).mp
      (Option.isSome_iff_ne_none.mpr read)
  | file data nonempty stripped chosen => cases text

theorem putManyBytes_eq (form : Form) (db : Database)
    (given : Given form.szInValue file source data) (write : form.nRadio = 0)
    (positive : 1 ≤ form.nCount) (room : source = .digits → 2 ≤ behind.length)
    (small : data.length * form.nCount < 1073741824)
    (loaded : EndsLoaded db (form.address db) (data.length * form.nCount)) :
    putManyBytes behind form file db =
      some (.ok (form.address db, copies form.nCount data)) := by
  have moderate : data.length < 1073741824 := single_small positive small
  have total : data.length * form.nCount < processLimit := Nat.lt_trans small (by decide)
  have wide := processLimit_le_words db.ea64
  have whole : form.nCount * data.length % words db.ea64 = data.length * form.nCount := by
    rw [Nat.mul_comm, Nat.mod_eq_of_lt (by omega)]
  have size : (data.length * form.nCount + 1) % processLimit = data.length * form.nCount + 1 := by
    rw [processLimit]
    omega
  have memory : allocates (data.length * form.nCount + 1) = true := allocates_small (by omega)
  obtain ⟨lpTmpBuf, read, taken⟩ := readData_given given moderate room
  obtain ⟨lpInBuf, repeated, starts⟩ := copyRuns_starts taken rfl
    (Nat.le_succ (data.length * form.nCount)) total
  obtain ⟨state, loops, passed⟩ := Option.map_eq_some_iff.mp
    (loops_copies db (form.address db) rfl starts total)
  have copied : repeatData data.length form.nCount lpTmpBuf = some lpInBuf := by
    rw [repeatData, size]
    exact (if_pos memory).trans repeated
  rw [putManyBytes, read]
  simp only [Option.bind_eq_bind, Option.bind_some, copied, whole, loaded.1, loaded.2, size, memory,
    Bool.not_true, Bool.false_eq_true, if_false]
  rw [Nat.mod_eq_of_lt total, write, loops, Option.map_some, passed]

theorem passes_room {form : Patch.Form} {db : Database} {passed : Except Warning (Nat × List UInt8)}
    (given : Given form.szInValue file source data)
    (ran : Patch.putManyBytes form file db = some passed) :
    source.least ≤ data.length ∧ data.length * form.nCount < 1073741824 := by
  constructor
  · rcases given.readData_cases with failed | ⟨enough, -⟩
    · rw [Patch.putManyBytes, failed] at ran
      cases ran
    · exact enough
  · by_contra large
    rw [given.putManyBytes_large (Nat.le_of_not_lt large)] at ran
    cases ran

/-- Where no byte order is chosen `KDPatch` takes groups of 0x40000 bytes, and passes plain
copies if none of the groups is changed by that. -/
theorem passes_plain_iff {form : Patch.Form} {db : Database}
    (given : Given form.szInValue file source data) (order : form.nSerializeRadio = noChoice)
    (write : form.nWriteRadio = 0) (positive : 1 ≤ form.nCount) (least : source.least ≤ data.length)
    (small : data.length * form.nCount < 1073741824)
    (loaded : EndsLoaded db (form.address db) (data.length * form.nCount)) :
    let groups := data.length * form.nCount / 0x40000
    let lpTmpBuf := data ++ List.replicate (source.blanks data.length) 0
    Patch.putManyBytes form file db = some (.ok (form.address db, copies form.nCount data)) ↔
      groups * 0x40000 ≤ lpTmpBuf.length ∧
        ∀ j < groups, ((lpTmpBuf.drop (j * 0x40000)).take 0x40000).reverse =
          (lpTmpBuf.drop (j * 0x40000)).take 0x40000 := by
  intro groups lpTmpBuf
  have size : groupSize form.nSerializeRadio = 0x40000 := by rw [order, groupSize, noChoice]
  have buffer : lpTmpBuf.length = data.length + source.blanks data.length := by
    rw [List.length_append, List.length_replicate]
  have cut : ((reverseGroups 0x40000 groups lpTmpBuf).take data.length).length = data.length := by
    rw [List.length_take, reverseGroups_length, buffer]
    exact Nat.min_eq_left (Nat.le_add_right _ _)
  have run := given.putManyBytes_eq form db write positive least small loaded
  rw [size, ← buffer] at run
  rw [run, ← reverseGroups_eq_self_iff, ← take_reverseGroups_same_iff]
  split
  · rename_i ends
    simp only [Option.some.injEq, Except.ok.injEq, Prod.mk.injEq, true_and]
    rw [copies_inj positive cut]
    exact (and_iff_right ends).symm
  · rename_i outside
    exact iff_of_false (Option.some_ne_none _).symm fun both => outside both.1

/-- Both plug-ins pass plain copies exactly when the stores of `sscanf` have room in
`KDPatch` and do no harm in the older plug-in, there is memory for the copies, and the
groups that the copies would fill end in the buffer of the single data and read the same
from both ends. -/
theorem plainCopies_iff (behind : List UInt8) (form : Patch.Form)
    (file : Option (Option (List UInt8))) (db : Database) (source : Source) (data : List UInt8)
    (given : Given form.szInValue file source data) (order : form.nSerializeRadio = noChoice)
    (write : form.nWriteRadio = 0) (positive : 1 ≤ form.nCount)
    (loaded : EndsLoaded db (form.address db) (data.length * form.nCount)) :
    let groups := data.length * form.nCount / 0x40000
    let lpTmpBuf := data ++ List.replicate (source.blanks data.length) 0
    PlainCopies behind form file db data ↔
      source.least ≤ data.length ∧ (source = .digits → 2 ≤ behind.length) ∧
        data.length * form.nCount < 1073741824 ∧ groups * 0x40000 ≤ lpTmpBuf.length ∧
        ∀ j < groups, ((lpTmpBuf.drop (j * 0x40000)).take 0x40000).reverse =
          (lpTmpBuf.drop (j * 0x40000)).take 0x40000 := by
  intro groups lpTmpBuf
  constructor
  · intro both
    obtain ⟨passed, same⟩ := both
    obtain ⟨least, small⟩ := passes_room given passed
    have moderate : data.length < 1073741824 := single_small positive small
    have read : readData behind form.szInValue file ≠ none := by
      intro failed
      rw [passed, putManyBytes] at same
      change (readData behind form.szInValue file).bind _ = _ at same
      rw [failed] at same
      cases same
    have plain := (passes_plain_iff given order write positive least small loaded).mp passed
    exact ⟨least, readData_room given moderate read, small, plain⟩
  · intro fits
    obtain ⟨least, room, small, plain⟩ := fits
    have passed := (passes_plain_iff given order write positive least small loaded).mpr plain
    have older := putManyBytes_eq (older form) db given write positive room small loaded
    exact ⟨passed, older.trans passed.symm⟩

theorem plainCopies_twice : PlainCopies [0, 0] { twice fourBytes with nSerializeRadio := noChoice } none
    loadedProcess (FindHex.decoded fourBytes.text) :=
  (plainCopies_iff [0, 0] { twice fourBytes with nSerializeRadio := noChoice } none loadedProcess
    .digits _ (.digits fourBytes (by decide)) rfl rfl (by decide) (loadedProcess_ends _)).mpr
    ⟨by decide, fun _ => by decide, by decide, by decide, by decide⟩

/-- A form without a text: the data comes from a file. -/
def fromFile : Patch.Form where
  szInValue := []
  nAddres := 0x401000
  nCount := 1
  nWriteRadio := 0
  nSerializeRadio := noChoice
  checkmask := 0

def oneThenZeros (zeros : Nat) : List UInt8 := 1 :: List.replicate zeros 0

theorem oneThenZeros_reverse {zeros : Nat} (positive : 0 < zeros) :
    (oneThenZeros zeros).reverse ≠ oneThenZeros zeros := by
  intro same
  have first := congrArg List.head? same
  rw [oneThenZeros, List.reverse_cons, List.reverse_replicate, List.head?_append,
    List.head?_replicate, if_neg (Nat.ne_of_gt positive), List.head?_cons, List.head?_cons] at first
  cases first

/-- A file of 0x40000 bytes is one group. -/
theorem plainCopies_not :
    Given fromFile.szInValue (some (some (oneThenZeros 0x3FFFF))) .file (oneThenZeros 0x3FFFF) ∧
      EndsLoaded loadedProcess 0x401000 0x40000 ∧
      ¬ PlainCopies [] fromFile (some (some (oneThenZeros 0x3FFFF))) loadedProcess
        (oneThenZeros 0x3FFFF) := by
  have given : Given fromFile.szInValue (some (some (oneThenZeros 0x3FFFF))) .file
      (oneThenZeros 0x3FFFF) := .file _ (List.cons_ne_nil _ _) rfl rfl
  have length : (oneThenZeros 0x3FFFF).length = 0x40000 := by
    rw [oneThenZeros, List.length_cons, List.length_replicate]
  have loaded := loadedProcess_ends 0x3FFFF
  refine ⟨given, loaded, ?_⟩
  intro both
  have run := given.putManyBytes_eq fromFile loadedProcess rfl (Nat.le_refl 1)
    (by rw [length]; decide) (by rw [length]; decide) (by rw [length]; exact loaded)
  have size : groupSize fromFile.nSerializeRadio = 0x40000 := rfl
  have turned : (reverseGroups 0x40000 1 (oneThenZeros 0x3FFFF ++ [0])).take 0x40000 =
      (oneThenZeros 0x3FFFF).reverse := by
    rw [← length, reverseGroups, List.take_left]
    exact List.take_left' List.length_reverse
  have groups : 0x40000 * fromFile.nCount / 0x40000 = 1 := rfl
  have blank : List.replicate (Source.file.blanks 0x40000) (0 : UInt8) = [0] := rfl
  rw [both.1, size, length, groups, blank, turned, if_pos (by decide)] at run
  simp only [Option.some.injEq, Except.ok.injEq, Prod.mk.injEq, true_and] at run
  have same := (copies_inj (Nat.le_refl 1) List.length_reverse.symm).mp run
  exact oneThenZeros_reverse (by decide) same.symm

end IDAPlugins.Patch.MyPatchData
