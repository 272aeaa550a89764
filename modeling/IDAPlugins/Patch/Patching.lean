import IDAPlugins.Loop
import IDAPlugins.Patch.Data

namespace IDAPlugins.Patch

/-! # Patching the database

With the data copied, `IDAP_run` reads the bytes of the region, puts the data over them
or combines the two with an exclusive or, and writes the region back.
-/

structure Database where
  ea64 : Bool
  memory : Nat → UInt8
  isLoaded : Nat → Bool
  get_screen_ea : Nat
  loaded_lt : ∀ ea, isLoaded ea = true → ea < words ea64

/-- The memory with bytes put over it from an address on. -/
def written (memory : Nat → UInt8) (nAddres : Nat) (bytes : List UInt8) (ea : Nat) : UInt8 :=
  if nAddres ≤ ea then bytes.getD (ea - nAddres) (memory ea) else memory ea

/-- `get_many_bytes` -/
def region (memory : Nat → UInt8) (nAddres size : Nat) : List UInt8 :=
  (List.range size).map fun i => memory (nAddres + i)

/-- The database behind `put_many_bytes`. -/
def Database.put (db : Database) (nAddres : Nat) (bytes : List UInt8) : Database :=
  { db with memory := written db.memory nAddres bytes }

/-- `mem` is as long as the region: the byte more that is allocated is not used. -/
structure Patching where
  lpInBuf : List UInt8
  mem : List UInt8
  nSum : Nat

/-- One byte. `mem[nSum++] = lpInBuf[nSum]` reads with the old `nSum`. -/
def patchByte (nWriteRadio : Nat) (state : Patching) : Option Patching := do
  let value ← state.lpInBuf[state.nSum]?
  let old ← state.mem[state.nSum]?
  let value := if nWriteRadio = 1 then value ^^^ old else value
  some
    { lpInBuf := state.lpInBuf.set state.nSum value
      mem := state.mem.set state.nSum value
      nSum := (state.nSum + 1) % processLimit }

def Form.address (form : Form) (db : Database) : Nat :=
  if form.checkmask % 2 = 1 then db.get_screen_ea else form.nAddres

/-- The part of `IDAP_run` behind the preparation of `lpInBuf`. -/
def patchRegion (db : Database) (nAddres nCount nHexLen nWriteRadio : Nat) (lpInBuf : List UInt8) :
    Option (Except Warning Database) :=
  let total := nCount * nHexLen % words db.ea64
  if !db.isLoaded nAddres then
    some (.error (.badAddress nAddres))
  else if !db.isLoaded ((nAddres + total + words db.ea64 - 1) % words db.ea64) then
    some (.error .tooLong)
  else if !allocates ((total + 1) % processLimit) then
    some (.error .mallocFailed)
  else
    (Loop.times (Loop.times (patchByte nWriteRadio) nHexLen) nCount
      { lpInBuf, mem := region db.memory nAddres (total % processLimit), nSum := 0 }).map fun state =>
        .ok (db.put nAddres (state.mem.take state.nSum))

def idapRun (form : Form) (file : Option (Option (List UInt8))) (db : Database) :
    Option (Except Warning Database) := do
  match ← readData form.szInValue file with
  | .error warning => some (.error warning)
  | .ok (lpTmpBuf, nHexLen) =>
    let lpTmpBuf ← serialize db.ea64 form.nSerializeRadio nHexLen form.nCount lpTmpBuf
    let lpInBuf ← repeatData nHexLen form.nCount lpTmpBuf
    patchRegion db (form.address db) form.nCount nHexLen form.nWriteRadio lpInBuf

/-- What a patch makes of the region: the data in its place, or both combined. -/
def patched (nWriteRadio : Nat) (old data : List UInt8) : List UInt8 :=
  if nWriteRadio = 1 then List.zipWith (· ^^^ ·) data old else data

theorem region_length (memory : Nat → UInt8) (nAddres size : Nat) :
    (region memory nAddres size).length = size := by
  rw [region, List.length_map, List.length_range]

theorem patched_length {nWriteRadio : Nat} {old data : List UInt8} (same : old.length = data.length) :
    (patched nWriteRadio old data).length = data.length := by
  rw [patched]
  split
  · rw [List.length_zipWith, same, Nat.min_self]
  · rfl

theorem patched_getElem? {nWriteRadio k : Nat} {old data : List UInt8} {value before : UInt8}
    (new : data[k]? = some value) (there : old[k]? = some before) :
    (patched nWriteRadio old data)[k]? =
      some (if nWriteRadio = 1 then value ^^^ before else value) := by
  rw [patched]
  split
  · rw [List.getElem?_zipWith, new, there]
  · exact new

/-- Writing back what was read changes nothing. -/
theorem written_region (memory : Nat → UInt8) (nAddres size : Nat) :
    written memory nAddres (region memory nAddres size) = memory := by
  funext ea
  rw [written]
  split
  · rename_i lower
    rw [List.getD_eq_getElem?_getD, region, List.getElem?_map]
    by_cases inside : ea - nAddres < size
    · rw [List.getElem?_range inside, Option.map_some, Option.getD_some, Nat.add_sub_cancel' lower]
    · rw [List.getElem?_eq_none (by rw [List.length_range]; exact Nat.le_of_not_lt inside)]
      rfl
  · rfl

/-- What was written is read back. -/
theorem region_written (memory : Nat → UInt8) (nAddres : Nat) (bytes : List UInt8) :
    region (written memory nAddres bytes) nAddres bytes.length = bytes := by
  apply List.ext_getElem?
  intro k
  rw [region, List.getElem?_map]
  by_cases inside : k < bytes.length
  · rw [List.getElem?_range inside, Option.map_some, written, if_pos (Nat.le_add_right _ _),
      Nat.add_sub_cancel_left, List.getD_eq_getElem _ _ inside, List.getElem?_eq_getElem inside]
  · rw [List.getElem?_eq_none (by rw [List.length_range]; exact Nat.le_of_not_lt inside),
      List.getElem?_eq_none (Nat.le_of_not_lt inside)]
    rfl

/-- The last of two writes to one region stays. -/
theorem written_written (memory : Nat → UInt8) (nAddres : Nat) {first second : List UInt8}
    (same : first.length = second.length) :
    written (written memory nAddres first) nAddres second = written memory nAddres second := by
  funext ea
  rw [written, written, written]
  split
  · rw [List.getD_eq_getElem?_getD, List.getD_eq_getElem?_getD, List.getD_eq_getElem?_getD]
    by_cases inside : ea - nAddres < second.length
    · rw [List.getElem?_eq_getElem inside]
      rfl
    · rw [List.getElem?_eq_none (Nat.le_of_not_lt inside),
        List.getElem?_eq_none (by rw [same]; exact Nat.le_of_not_lt inside)]
      rfl
  · rfl

/-- A second exclusive or undoes the first. -/
theorem patched_patched {old data : List UInt8} (same : old.length = data.length) :
    patched 1 (patched 1 old data) data = old := by
  rw [patched, if_pos rfl, patched, if_pos rfl]
  apply List.ext_getElem?
  intro k
  rw [List.getElem?_zipWith, List.getElem?_zipWith]
  by_cases inside : k < data.length
  · rw [List.getElem?_eq_getElem inside, List.getElem?_eq_getElem (same ▸ inside)]
    change some (data[k] ^^^ (data[k] ^^^ old[k])) = some old[k]
    rw [← UInt8.xor_assoc, UInt8.xor_self, UInt8.zero_xor]
  · rw [List.getElem?_eq_none (Nat.le_of_not_lt inside),
      List.getElem?_eq_none (same ▸ Nat.le_of_not_lt inside)]

/-- Putting the combined bytes over the region twice gives the database back. -/
theorem put_put (db : Database) (nAddres : Nat) (data : List UInt8) :
    let after := db.put nAddres (patched 1 (region db.memory nAddres data.length) data)
    after.put nAddres (patched 1 (region after.memory nAddres data.length) data) = db := by
  intro after
  have same := region_length db.memory nAddres data.length
  have length : (patched 1 (region db.memory nAddres data.length) data).length = data.length :=
    patched_length same
  have read : region after.memory nAddres data.length =
      patched 1 (region db.memory nAddres data.length) data := by
    have back := region_written db.memory nAddres
      (patched 1 (region db.memory nAddres data.length) data)
    rw [length] at back
    exact back
  have memory : written after.memory nAddres (region db.memory nAddres data.length) = db.memory := by
    have twice := written_written db.memory nAddres (length.trans same.symm)
    exact twice.trans (written_region _ _ _)
  rw [read, patched_patched same, Database.put, memory]
  rfl

/-- Behind some bytes: `mem` has the new ones in front, and the rest of both buffers is
as it was. -/
structure Progress (nWriteRadio : Nat) (old data : List UInt8) (lpInBuf : List UInt8) (count : Nat)
    (state : Patching) : Prop where
  nSum : state.nSum = count
  done : state.mem = (patched nWriteRadio old data).take count ++ old.drop count
  ahead : ∀ k, count ≤ k → state.lpInBuf[k]? = lpInBuf[k]?

theorem patchByte_progress {nWriteRadio count : Nat} {old data lpInBuf : List UInt8}
    {state : Patching} (same : old.length = data.length) (starts : lpInBuf.take data.length = data)
    (small : data.length < processLimit)
    (progress : Progress nWriteRadio old data lpInBuf count state) (bound : count < data.length) :
    ∃ next, patchByte nWriteRadio state = some next ∧
      Progress nWriteRadio old data lpInBuf (count + 1) next := by
  have length : (patched nWriteRadio old data).length = data.length := patched_length same
  have inside : count < old.length := same ▸ bound
  have value : state.lpInBuf[count]? = some data[count] := by
    have first := congrArg (·[count]?) starts
    simp only [List.getElem?_take, if_pos bound, List.getElem?_eq_getElem bound] at first
    rw [progress.ahead count (Nat.le_refl _), first]
  have front : ((patched nWriteRadio old data).take count).length = count := by
    rw [List.length_take, length]
    exact Nat.min_eq_left (Nat.le_of_lt bound)
  have before : state.mem[count]? = some old[count] := by
    rw [progress.done, List.getElem?_append_right (Nat.le_of_eq front), front, Nat.sub_self,
      List.getElem?_drop, Nat.add_zero, List.getElem?_eq_getElem inside]
  have step : (patched nWriteRadio old data)[count]? =
      some (if nWriteRadio = 1 then data[count] ^^^ old[count] else data[count]) :=
    patched_getElem? (List.getElem?_eq_getElem bound) (List.getElem?_eq_getElem inside)
  refine ⟨_, by rw [patchByte, progress.nSum, value, before]; rfl, ?_, ?_, ?_⟩
  · exact Nat.mod_eq_of_lt (by omega)
  · have rest : old.drop count = old[count] :: old.drop (count + 1) :=
      List.drop_eq_getElem_cons inside
    have more : (patched nWriteRadio old data).take (count + 1) =
        (patched nWriteRadio old data).take count ++
          [if nWriteRadio = 1 then data[count] ^^^ old[count] else data[count]] := by
      rw [List.take_add_one, step]
      rfl
    rw [progress.done, more, rest, List.set_append_right _ _ (Nat.le_of_eq front), front,
      Nat.sub_self, List.set_cons_zero, List.append_assoc]
    rfl
  · intro k further
    rw [List.getElem?_set_ne (by omega)]
    exact progress.ahead k (by omega)

/-- The loops go over the whole region. -/
theorem patchBytes_progress {nWriteRadio : Nat} {old data lpInBuf : List UInt8}
    (same : old.length = data.length) (starts : lpInBuf.take data.length = data)
    (small : data.length < processLimit) (count : Nat) (bound : count ≤ data.length) :
    ∃ state, Loop.times (patchByte nWriteRadio) count { lpInBuf, mem := old, nSum := 0 } = some state ∧
      Progress nWriteRadio old data lpInBuf count state := by
  induction count with
  | zero =>
    refine ⟨_, rfl, rfl, ?_, fun k _ => rfl⟩
    rw [List.take_zero, List.drop_zero, List.nil_append]
  | succ count ih =>
    obtain ⟨state, ran, progress⟩ := ih (Nat.le_of_succ_le bound)
    obtain ⟨next, passed, further⟩ := patchByte_progress same starts small progress bound
    refine ⟨next, ?_, further⟩
    rw [Loop.times_add, ran, Option.bind_some, Loop.times, passed, Option.bind_some, Loop.times]

/-- What the loops leave in the front of `mem` is the patched region. -/
theorem patchLoops {nWriteRadio nCount nHexLen : Nat} {old data lpInBuf : List UInt8}
    (same : old.length = data.length) (length : data.length = nCount * nHexLen)
    (starts : lpInBuf.take data.length = data) (small : data.length < processLimit) :
    ∃ state, Loop.times (Loop.times (patchByte nWriteRadio) nHexLen) nCount
        { lpInBuf, mem := old, nSum := 0 } = some state ∧
      state.mem.take state.nSum = patched nWriteRadio old data := by
  obtain ⟨state, ran, progress⟩ :=
    @patchBytes_progress nWriteRadio _ _ _ same starts small data.length (Nat.le_refl _)
  refine ⟨state, ?_, ?_⟩
  · rw [Loop.times_times, ← length]
    exact ran
  · rw [progress.done, progress.nSum, List.drop_of_length_le (Nat.le_of_eq same),
      List.append_nil, List.take_take, Nat.min_self,
      List.take_of_length_le (Nat.le_of_eq (patched_length same))]

theorem processLimit_le_words (ea64 : Bool) : processLimit ≤ words ea64 := by
  rw [words]
  split <;> decide

variable {pattern : FindHex.ElementText FindHex.HexDigit}

/-- A buffer that is long enough starts with the copies. -/
theorem copyRuns_starts {nHexLen nCount size : Nat} {data lpTmpBuf : List UInt8}
    (taken : lpTmpBuf.take nHexLen = data) (length : data.length = nHexLen)
    (room : nHexLen * nCount ≤ size) (small : nHexLen * nCount < processLimit) :
    ∃ lpInBuf, Overlay.putAll processLimit (List.replicate size 0)
        (copyRuns nHexLen nCount lpTmpBuf) = some lpInBuf ∧
      lpInBuf.take (copies nCount data).length = copies nCount data := by
  rw [Nat.mul_comm] at room small
  refine ⟨copies nCount data ++ (List.replicate size 0).drop (nCount * nHexLen), ?_, List.take_left⟩
  apply copyRuns_copies taken length nCount small
  rw [List.length_replicate]
  exact room

theorem repeatData_digits {nHexLen nCount : Nat} {data lpTmpBuf : List UInt8}
    (taken : lpTmpBuf.take nHexLen = data) (length : data.length = nHexLen)
    (small : nHexLen * nCount < 1073741824) :
    ∃ lpInBuf, repeatData nHexLen nCount lpTmpBuf = some lpInBuf ∧
      lpInBuf.take (copies nCount data).length = copies nCount data := by
  have size : (nHexLen * nCount * 2 + 1) % processLimit = nHexLen * nCount * 2 + 1 := by
    rw [processLimit]
    omega
  have memory : allocates (nHexLen * nCount * 2 + 1) = true := allocates_small (by omega)
  rw [repeatData]
  simp only [size, memory, if_true]
  exact copyRuns_starts taken length (by omega) (Nat.lt_trans small (by decide))

/-- A process of 32 bits with all of its addresses loaded. -/
def loadedProcess : Database where
  ea64 := false
  memory _ := 0x90
  isLoaded ea := decide (ea < 4294967296)
  get_screen_ea := 0x401000
  loaded_lt _ loaded := of_decide_eq_true loaded

end IDAPlugins.Patch
