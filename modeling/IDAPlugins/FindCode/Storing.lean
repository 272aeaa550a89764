import IDAPlugins.FindCode.Building
import IDAPlugins.FindCode.Netnode
import IDAPlugins.LittleEndian

namespace IDAPlugins.FindCode

open LittleEndian

/-! # Storing and loading a snapshot

Behind the building loop `CreateCodeSnapshoot` saves the text and the two index arrays
in netnodes, and sets the lengths and, if the dialog is still there, the arrays that
the search reads. `Main_OnInitDialog` loads them when the dialog is opened.
-/

structure StrBufTable where
  dwBufArrayCount : Nat
  dwOffsetArrayCount : Nat
  dwAddrArrayCount : Nat
  szDate : List UInt8

/-- The netnodes and the globals. `nAsmtable` is the value under index 1000. A pointer
stands for the array it points to, without the zeros that end its block. -/
structure SearchState where
  nAsmbuf : Netnode
  nAsmoffset : Netnode
  nAsmaddr : Netnode
  nAsmtable : Option StrBufTable
  asmbuf : Option (List UInt8)
  asmoffset : Option (List UInt8)
  asmaddr : Option (List UInt8)
  nbuflen : Nat
  noffsetlen : Nat
  naddrlen : Nat
  sbtTable : StrBufTable

/-- The loop over `m_VectorIndex`. -/
def putIndex : List StrBufIndex → AutoBuffer → AutoBuffer → Option (AutoBuffer × AutoBuffer)
  | [], asmoffset, asmaddr => some (asmoffset, asmaddr)
  | entry :: rest, asmoffset, asmaddr => do
    let asmoffset ← asmoffset.put (dwordBytes entry.dwbufoffset)
    let asmaddr ← asmaddr.put (dwordBytes entry.dwasmaddr)
    putIndex rest asmoffset asmaddr

/-- The netnodes, the table and the lengths are set, and then, if the window is there
at the last test, the arrays. -/
def publish (asmbuf asmoffset asmaddr : AutoBuffer) (isWindow : Bool) (szDate : List UInt8)
    (st : SearchState) : SearchState :=
  let savedBuf := saveNetnode st.nAsmbuf asmbuf
  let savedOffset := saveNetnode st.nAsmoffset asmoffset
  let savedAddr := saveNetnode st.nAsmaddr asmaddr
  let sbtTable :=
    { dwBufArrayCount := savedBuf.2.2, dwOffsetArrayCount := savedOffset.2.2
      dwAddrArrayCount := savedAddr.2.2, szDate }
  { nAsmbuf := savedBuf.1
    nAsmoffset := savedOffset.1
    nAsmaddr := savedAddr.1
    nAsmtable := some sbtTable
    asmbuf := if isWindow then some savedBuf.2.1.used else st.asmbuf
    asmoffset := if isWindow then some savedOffset.2.1.used else st.asmoffset
    asmaddr := if isWindow then some savedAddr.2.1.used else st.asmaddr
    nbuflen := savedBuf.2.1.used.length
    noffsetlen := savedOffset.2.1.used.length / 4
    naddrlen := savedAddr.2.1.used.length / 4
    sbtTable }

/-- `CreateCodeSnapshoot` behind the building loop. -/
def storeSnapshoot (asmbuf : AutoBuffer) (vectorIndex : List StrBufIndex) (isWindow : Bool)
    (szDate : List UInt8) (st : SearchState) : Option SearchState := do
  let (asmoffset, asmaddr) ← putIndex vectorIndex emptyBuffer emptyBuffer
  some (publish asmbuf asmoffset asmaddr isWindow szDate st)

/-- The thread. `none`: it dies because a buffer cannot be enlarged. -/
def createCodeSnapshoot (listing : Listing) (isWindow : Nat → Bool) (last : Bool)
    (szDate : List UInt8) (st : SearchState) : Option SearchState := do
  match ← buildSnapshoot listing isWindow with
  | .built asmbuf vectorIndex => storeSnapshoot asmbuf vectorIndex last szDate st
  | .closed => some st
  | .exhausted => none

/-- The pointer behind `GetNetnode`, which sets it only if it allocates a block. -/
def pointed (pointer : Option (List UInt8)) (loaded : Nat × Option (List UInt8)) :
    Option (List UInt8) :=
  match loaded.2 with
  | none => pointer
  | some block => some (block.take loaded.1)

def SearchState.loaded (st : SearchState) : Bool :=
  st.asmbuf.isSome && st.asmoffset.isSome && st.asmaddr.isSome

/-- What opening the dialog does to the globals, and whether it starts a new thread. -/
def mainOnInitDialog (st : SearchState) : SearchState × Bool :=
  match st.nAsmtable with
  | none => (st, true)
  | some sbtTable =>
    if st.loaded then
      ({ st with sbtTable }, false)
    else
      let asmbuf := getNetnode st.nAsmbuf sbtTable.dwBufArrayCount
      let asmoffset := getNetnode st.nAsmoffset sbtTable.dwOffsetArrayCount
      let asmaddr := getNetnode st.nAsmaddr sbtTable.dwAddrArrayCount
      ({ st with
          sbtTable
          asmbuf := pointed st.asmbuf asmbuf
          nbuflen := asmbuf.1
          asmoffset := pointed st.asmoffset asmoffset
          noffsetlen := asmoffset.1 / 4
          asmaddr := pointed st.asmaddr asmaddr
          naddrlen := asmaddr.1 / 4 }, false)

/-- A snapshot as bytes: its text and the images of its two arrays. -/
structure Saved where
  text : List UInt8
  offsets : List UInt8
  addrs : List UInt8

def image (dwords : List UInt32) : List UInt8 :=
  dwords.flatMap dwordBytes

/-- What is saved of a text and an index: `SaveNetnode` turns all of it to upper case. -/
def savedOf (asmbuf : AutoBuffer) (vectorIndex : List StrBufIndex) : Saved where
  text := strupr asmbuf.used
  offsets := strupr (image (vectorIndex.map StrBufIndex.dwbufoffset))
  addrs := strupr (image (vectorIndex.map StrBufIndex.dwasmaddr))

def Restores (n : Netnode) (nCount : Nat) (bytes : List UInt8) : Prop :=
  (bytes ≠ [] → ∃ zeros, getNetnode n nCount = (bytes.length, some (bytes ++ List.replicate zeros 0))) ∧
    (bytes = [] → nCount = 0)

/-- The netnodes hold the snapshot. -/
def SearchState.Stores (st : SearchState) (snapshot : Saved) : Prop :=
  ∃ sbtTable, st.nAsmtable = some sbtTable ∧
    Restores st.nAsmbuf sbtTable.dwBufArrayCount snapshot.text ∧
    Restores st.nAsmoffset sbtTable.dwOffsetArrayCount snapshot.offsets ∧
    Restores st.nAsmaddr sbtTable.dwAddrArrayCount snapshot.addrs

structure SearchState.Measures (st : SearchState) (snapshot : Saved) : Prop where
  nbuflen : st.nbuflen = snapshot.text.length
  noffsetlen : st.noffsetlen = snapshot.offsets.length / 4
  naddrlen : st.naddrlen = snapshot.addrs.length / 4

/-- The arrays are those of the snapshot; a null pointer is as good as an empty array. -/
structure SearchState.Points (st : SearchState) (snapshot : Saved) : Prop where
  asmbuf : st.asmbuf.getD [] = snapshot.text
  asmoffset : st.asmoffset.getD [] = snapshot.offsets
  asmaddr : st.asmaddr.getD [] = snapshot.addrs

variable {n : Netnode} {nCount : Nat} {bytes : List UInt8} {st after : SearchState}
  {asmbuf : AutoBuffer} {vectorIndex : List StrBufIndex} {isWindow : Bool} {szDate : List UInt8}

theorem saveNetnode_restores (n : Netnode) (autoBuf : AutoBuffer) :
    Restores (saveNetnode n autoBuf).1 (saveNetnode n autoBuf).2.2 (strupr autoBuf.used) := by
  obtain ⟨filled, -⟩ := getNetnode_saveNetnode n autoBuf
  have same : strupr autoBuf.used = [] ↔ autoBuf.used = [] := by
    rw [← List.length_eq_zero_iff, strupr_length, List.length_eq_zero_iff]
  refine ⟨fun nonempty => ?_, fun empty => ?_⟩
  · obtain ⟨zeros, -, restored⟩ := filled fun empty => nonempty (same.mpr empty)
    exact ⟨zeros, by rw [restored, strupr_length]⟩
  · rw [(saveNetnode_spec n autoBuf).2.1, same.mp empty]
    rfl

theorem AutoBuffer.put_used {buffer next : AutoBuffer} {inBuff : List UInt8}
    (stored : buffer.put inBuff = some next) : next.used = buffer.used ++ inBuff := by
  rcases buffer.put_cases inBuff with ⟨other, same, used, -⟩ | ⟨failed, -⟩
  · rw [stored, Option.some.injEq] at same
    rw [same, used]
  · rw [stored] at failed
    cases failed

theorem putIndex_used {asmoffset asmaddr offsets addrs : AutoBuffer}
    (stored : putIndex vectorIndex asmoffset asmaddr = some (offsets, addrs)) :
    offsets.used = asmoffset.used ++ image (vectorIndex.map StrBufIndex.dwbufoffset) ∧
      addrs.used = asmaddr.used ++ image (vectorIndex.map StrBufIndex.dwasmaddr) := by
  induction vectorIndex generalizing asmoffset asmaddr with
  | nil =>
    cases stored
    exact ⟨(List.append_nil _).symm, (List.append_nil _).symm⟩
  | cons entry rest ih =>
    obtain ⟨nextOffset, first, stored⟩ := Option.bind_eq_some_iff.mp stored
    obtain ⟨nextAddr, second, stored⟩ := Option.bind_eq_some_iff.mp stored
    obtain ⟨left, right⟩ := ih stored
    rw [left, right, AutoBuffer.put_used first, AutoBuffer.put_used second, List.append_assoc,
      List.append_assoc]
    exact ⟨rfl, rfl⟩

/-- Everything behind the building loop, in one step: the snapshot is stored and
measured, and the arrays are its own if the window is there and else the old ones. -/
theorem storeSnapshoot_spec
    (stored : storeSnapshoot asmbuf vectorIndex isWindow szDate st = some after) :
    after.Stores (savedOf asmbuf vectorIndex) ∧ after.Measures (savedOf asmbuf vectorIndex) ∧
      (isWindow = true → after.loaded = true ∧ after.Points (savedOf asmbuf vectorIndex)) ∧
      (isWindow = false → after.asmbuf = st.asmbuf ∧ after.asmoffset = st.asmoffset ∧
        after.asmaddr = st.asmaddr) := by
  obtain ⟨⟨asmoffset, asmaddr⟩, put, stored⟩ := Option.bind_eq_some_iff.mp stored
  obtain ⟨offsets, addrs⟩ := putIndex_used put
  have text := (saveNetnode_spec st.nAsmbuf asmbuf).1
  have first := (saveNetnode_spec st.nAsmoffset asmoffset).1
  have second := (saveNetnode_spec st.nAsmaddr asmaddr).1
  have saved : savedOf asmbuf vectorIndex =
      { text := strupr asmbuf.used, offsets := strupr asmoffset.used, addrs := strupr asmaddr.used } := by
    rw [offsets, addrs]
    rfl
  rw [Option.some.injEq] at stored
  subst stored
  rw [saved]
  refine ⟨⟨_, rfl, saveNetnode_restores st.nAsmbuf asmbuf, saveNetnode_restores st.nAsmoffset asmoffset,
    saveNetnode_restores st.nAsmaddr asmaddr⟩, ⟨?_, ?_, ?_⟩, ?_, ?_⟩
  · exact congrArg List.length text
  · exact congrArg (·.length / 4) first
  · exact congrArg (·.length / 4) second
  · rintro rfl
    exact ⟨rfl, text, first, second⟩
  · rintro rfl
    exact ⟨rfl, rfl, rfl⟩

theorem Restores.length (restores : Restores n nCount bytes) :
    (getNetnode n nCount).1 = bytes.length := by
  by_cases empty : bytes = []
  · rw [restores.2 empty, empty]
    rfl
  · obtain ⟨zeros, loaded⟩ := restores.1 empty
    rw [loaded]

theorem Restores.pointed {pointer : Option (List UInt8)} (restores : Restores n nCount bytes)
    (nothing : bytes = [] → pointer.getD [] = []) :
    (FindCode.pointed pointer (getNetnode n nCount)).getD [] = bytes := by
  by_cases empty : bytes = []
  · rw [restores.2 empty, empty]
    exact nothing empty
  · obtain ⟨zeros, loaded⟩ := restores.1 empty
    rw [loaded, FindCode.pointed, Option.getD_some, List.take_left]

/-- Opening the dialog loads the stored snapshot where an array is missing; an array
of it that is empty leaves its pointer as it is. -/
theorem mainOnInitDialog_loads {snapshot : Saved} (stores : st.Stores snapshot)
    (missing : st.loaded = false)
    (noText : snapshot.text = [] → st.asmbuf.getD [] = [])
    (noOffset : snapshot.offsets = [] → st.asmoffset.getD [] = [])
    (noAddr : snapshot.addrs = [] → st.asmaddr.getD [] = []) :
    (mainOnInitDialog st).1.Points snapshot ∧ (mainOnInitDialog st).1.Measures snapshot := by
  obtain ⟨sbtTable, table, text, offsets, addrs⟩ := stores
  rw [mainOnInitDialog, table]
  simp only [missing, Bool.false_eq_true, if_false]
  exact ⟨⟨text.pointed noText, offsets.pointed noOffset, addrs.pointed noAddr⟩,
    ⟨text.length, congrArg (· / 4) offsets.length, congrArg (· / 4) addrs.length⟩⟩

/-- With all three arrays there, or nothing stored, opening the dialog changes nothing
the search reads. -/
theorem mainOnInitDialog_keeps (there : st.loaded = true ∨ st.nAsmtable = none) :
    ∃ sbtTable, (mainOnInitDialog st).1 = { st with sbtTable } := by
  unfold mainOnInitDialog
  split
  · exact ⟨st.sbtTable, rfl⟩
  · rename_i sbtTable table
    have loaded : st.loaded = true := there.resolve_right (by rw [table]; exact Option.some_ne_none _)
    rw [if_pos loaded]
    exact ⟨sbtTable, rfl⟩

/-- No lower-case letter stands before the first zero byte. -/
def Unlettered (bytes : List UInt8) : Prop :=
  ∀ ch ∈ bytes.takeWhile (· != 0), ¬ (0x61 ≤ ch ∧ ch ≤ 0x7A)

/-- The arrays that the search reads hold the recorded values, element by element. -/
structure SearchState.Holds (st : SearchState) (vectorIndex : List StrBufIndex) : Prop where
  offsets : readDwords (st.asmoffset.getD []) = vectorIndex.map StrBufIndex.dwbufoffset
  addrs : readDwords (st.asmaddr.getD []) = vectorIndex.map StrBufIndex.dwasmaddr
  noffsetlen : st.noffsetlen = vectorIndex.length
  naddrlen : st.naddrlen = vectorIndex.length

/-- The plugin is loaded anew: the netnodes stay, the globals are zero. -/
def SearchState.restarted (st : SearchState) : SearchState :=
  { st with
    asmbuf := none
    asmoffset := none
    asmaddr := none
    nbuflen := 0
    noffsetlen := 0
    naddrlen := 0
    sbtTable := { dwBufArrayCount := 0, dwOffsetArrayCount := 0, dwAddrArrayCount := 0, szDate := [] } }

theorem readDwords_strupr_iff (dwords : List UInt32) :
    readDwords (strupr (image dwords)) = dwords ↔ Unlettered (image dwords) := by
  rw [Unlettered, ← strupr_eq_self_iff]
  constructor
  · intro same
    have whole : 4 ∣ (strupr (image dwords)).length := by
      rw [strupr_length, image, dwords_length]
      exact Nat.dvd_mul_right 4 _
    rw [← dwordBytes_readDwords _ whole, same]
    rfl
  · intro same
    rw [same]
    exact readDwords_all dwords

/-- The arrays of the saved snapshot are the recorded ones, unless letters are turned. -/
theorem holds_iff (points : st.Points (savedOf asmbuf vectorIndex))
    (measures : st.Measures (savedOf asmbuf vectorIndex)) :
    st.Holds vectorIndex ↔ Unlettered (image (vectorIndex.map StrBufIndex.dwbufoffset)) ∧
      Unlettered (image (vectorIndex.map StrBufIndex.dwasmaddr)) := by
  have offsets := readDwords_strupr_iff (vectorIndex.map StrBufIndex.dwbufoffset)
  have addrs := readDwords_strupr_iff (vectorIndex.map StrBufIndex.dwasmaddr)
  constructor
  · intro holds
    have readOffsets := holds.offsets
    have readAddrs := holds.addrs
    rw [points.asmoffset] at readOffsets
    rw [points.asmaddr] at readAddrs
    exact ⟨offsets.mp readOffsets, addrs.mp readAddrs⟩
  · rintro ⟨first, second⟩
    refine ⟨?_, ?_, ?_, ?_⟩
    · rw [points.asmoffset]
      exact offsets.mpr first
    · rw [points.asmaddr]
      exact addrs.mpr second
    · rw [measures.noffsetlen, savedOf, strupr_length, image, dwords_length, List.length_map,
        Nat.mul_div_cancel_left _ (by decide)]
    · rw [measures.naddrlen, savedOf, strupr_length, image, dwords_length, List.length_map,
        Nat.mul_div_cancel_left _ (by decide)]

/-- The arrays installed for searching, and those loaded again later, hold the recorded offsets
and addresses exactly if in the bytes of neither array a lower-case letter stands before the
first zero. -/
theorem indexArrays_survive_iff (asmbuf : AutoBuffer) (vectorIndex : List StrBufIndex)
    (szDate : List UInt8) (st after : SearchState)
    (stored : storeSnapshoot asmbuf vectorIndex true szDate st = some after) :
    (after.Holds vectorIndex ∧ (mainOnInitDialog after.restarted).1.Holds vectorIndex) ↔
      Unlettered (image (vectorIndex.map StrBufIndex.dwbufoffset)) ∧
        Unlettered (image (vectorIndex.map StrBufIndex.dwasmaddr)) := by
  obtain ⟨stores, measures, installed, -⟩ := storeSnapshoot_spec stored
  have again : after.restarted.Stores (savedOf asmbuf vectorIndex) := stores
  obtain ⟨points, measured⟩ := mainOnInitDialog_loads again rfl (fun _ => rfl) (fun _ => rfl)
    fun _ => rfl
  rw [holds_iff (installed rfl).2 measures, holds_iff points measured, and_self]

def blankState : SearchState where
  nAsmbuf _ := none
  nAsmoffset _ := none
  nAsmaddr _ := none
  nAsmtable := none
  asmbuf := none
  asmoffset := none
  asmaddr := none
  nbuflen := 0
  noffsetlen := 0
  naddrlen := 0
  sbtTable := { dwBufArrayCount := 0, dwOffsetArrayCount := 0, dwAddrArrayCount := 0, szDate := [] }

theorem indexArrays_survive_two :
    ∃ after, storeSnapshoot emptyBuffer [⟨1, 0⟩, ⟨5, 4⟩] true [] blankState = some after ∧
      after.Holds [⟨1, 0⟩, ⟨5, 4⟩] ∧
      (mainOnInitDialog after.restarted).1.Holds [⟨1, 0⟩, ⟨5, 4⟩] :=
  ⟨_, rfl, (indexArrays_survive_iff emptyBuffer [⟨1, 0⟩, ⟨5, 4⟩] [] blankState _ rfl).mpr
    ⟨by unfold Unlettered; decide +kernel, by unfold Unlettered; decide +kernel⟩⟩

/-- An instruction without text at the start, and the next one `0x61` bytes on. -/
def gapListing : Listing where
  ea64 := false
  startaddr := 0
  endaddr := 0x65
  disasmLine iaddr := if iaddr = 0x61 then [0x6E, 0x6F, 0x70] else []
  findCode iaddr := if iaddr < 0x61 then 0x61 else 0xFFFFFFFF
  stack _ := 0
  range := by decide
  advances := by
    intro iaddr _ before
    split <;> omega
  plain iaddr := by split <;> decide

def gapIndex : List StrBufIndex := [{ dwbufoffset := 2, dwasmaddr := 0x61 }]

/-- The second instruction is recorded at `0x61` and found at `0x41`, at once and after loading. -/
theorem indexArrays_change :
    ∃ asmbuf after, buildSnapshoot gapListing (fun _ => true) = some (.built asmbuf gapIndex) ∧
      storeSnapshoot asmbuf gapIndex true [] blankState = some after ∧
      readDwords (after.asmaddr.getD []) = [0x41] ∧
      readDwords ((mainOnInitDialog after.restarted).1.asmaddr.getD []) = [0x41] ∧
      ¬ after.Holds gapIndex ∧ ¬ (mainOnInitDialog after.restarted).1.Holds gapIndex := by
  have other : [0x41] ≠ gapIndex.map StrBufIndex.dwasmaddr := by decide
  refine ⟨_, _, rfl, rfl, ?_⟩
  have installed : readDwords [0x41, 0, 0, 0] = [0x41] := by decide
  refine ⟨installed, installed, fun holds => other ?_, fun holds => other ?_⟩
  · exact installed.symm.trans holds.addrs
  · exact installed.symm.trans holds.addrs

end IDAPlugins.FindCode
