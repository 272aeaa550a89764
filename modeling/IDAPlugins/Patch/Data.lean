import IDAPlugins.FindHex.Enumerate
import IDAPlugins.LittleEndian
import IDAPlugins.Overlay

namespace IDAPlugins.Patch

open LittleEndian

/-! # The data of a patch

`IDAP_run` of `KDPatch` reads the data from a text of digits or from a file, reverses
groups of it in place and copies it as often as it is asked to. A process has addresses
of 32 bits; `none` is an access outside a buffer.
-/

inductive Warning where
  | openFailed
  | noData
  | oddLength
  | notHex
  | mallocFailed
  | badAddress (nAddres : Nat)
  | tooLong

structure Form where
  szInValue : List UInt8
  nAddres : Nat
  nCount : Nat
  nWriteRadio : Nat
  nSerializeRadio : Nat
  checkmask : Nat

/-- `nSerializeRadio` before a choice is made: -1 as a `USHORT`. -/
def noChoice : Nat := 65535

/-- How many values an `asize_t` or an address has. -/
def words (ea64 : Bool) : Nat :=
  if ea64 then 18446744073709551616 else 4294967296

def processLimit : Nat := 4294967296

/-- `malloc` gives memory below 2^31 bytes. -/
def allocates (size : Nat) : Bool :=
  decide (size < 2147483648)

/-- `sscanf(&szValue[i * 2], "%02x", lpTmpBuf + i)` stores four bytes. -/
def hexRun (szValue : List UInt8) (i : Nat) : Overlay.Run UInt8 where
  offset := i
  values := dwordBytes (UInt32.ofBitVec
    (FindHex.sscanf02X (szValue.getD (i * 2) 0) (szValue.getD (i * 2 + 1) 0)))

def hexRuns (szValue : List UInt8) (nHexLen : Nat) : List (Overlay.Run UInt8) :=
  (List.range nHexLen).map (hexRun szValue)

/-- `lpTmpBuf` and `nHexLen`. `file` is the file chosen where no text is given: none, one
that cannot be opened, or its bytes. -/
def readData (szInValue : List UInt8) (file : Option (Option (List UInt8))) :
    Option (Except Warning (List UInt8 × Nat)) :=
  let szValue := szInValue.filter (· ≠ 0x20)
  let nHexLen := szValue.length / 2
  if szValue.length = 0 then
    match file with
    | none => some (.error .noData)
    | some none => some (.error .openFailed)
    | some (some bytes) =>
      if allocates (bytes.length + 1) then some (.ok (bytes ++ [0], bytes.length)) else none
  else if szValue.length % 2 ≠ 0 then
    some (.error .oddLength)
  else if szValue.any (fun ch => FindHex.hexDigit? ch = none) then
    some (.error .notHex)
  else
    (Overlay.putAll processLimit (List.replicate (nHexLen * 2 + 1) 0) (hexRuns szValue nHexLen)).map
      fun lpTmpBuf => .ok (lpTmpBuf, nHexLen)

/-- `XOR_SAWP`: three assignments. -/
def xorSwap (pbuf : List UInt8) (a b : Nat) : Option (List UInt8) := do
  let x ← pbuf[a]?
  let y ← pbuf[b]?
  some (((pbuf.set a (x ^^^ y)).set b (x ^^^ y ^^^ y)).set a (x ^^^ y ^^^ (x ^^^ y ^^^ y)))

/-- `reversedbuf` on the bytes from `start` on. -/
def reversedbuf (pbuf : List UInt8) (start len : Nat) : Option (List UInt8) :=
  (List.range (len / 2)).foldlM (fun pbuf i => xorSwap pbuf (start + i) (start + (len - i - 1))) pbuf

/-- The test `nSerializeRadio >= 0` is true of every `USHORT`. -/
def serialize (ea64 : Bool) (nSerializeRadio nHexLen nCount : Nat) (lpTmpBuf : List UInt8) :
    Option (List UInt8) :=
  let nSerializeSize := (nSerializeRadio + 1) * 4
  let nSerializeCount := nHexLen * nCount % words ea64 / nSerializeSize
  (List.range nSerializeCount).foldlM
    (fun lpTmpBuf i => reversedbuf lpTmpBuf (nSerializeSize * i % processLimit) nSerializeSize)
    lpTmpBuf

def copyRuns (nHexLen nCount : Nat) (lpTmpBuf : List UInt8) : List (Overlay.Run UInt8) :=
  (List.range nCount).map fun i =>
    { offset := i * nHexLen % processLimit, values := lpTmpBuf.take nHexLen }

/-- `lpInBuf` behind the loop of `memcpy`. -/
def repeatData (nHexLen nCount : Nat) (lpTmpBuf : List UInt8) : Option (List UInt8) :=
  let size := (nHexLen * nCount * 2 + 1) % processLimit
  if allocates size then
    Overlay.putAll processLimit (List.replicate size 0) (copyRuns nHexLen nCount lpTmpBuf)
  else none

theorem allocates_small {size : Nat} (small : size < 2147483648) : allocates size = true :=
  decide_eq_true small

/-- Data whose copies are small is small. -/
theorem single_small {size count bound : Nat} (positive : 1 ≤ count) (small : size * count < bound) :
    size < bound :=
  Nat.lt_of_le_of_lt (Nat.le_mul_of_pos_right _ positive) small

/-- A number of copies of the data. -/
def copies (count : Nat) (data : List UInt8) : List UInt8 :=
  (List.replicate count data).flatten

variable (pattern : FindHex.ElementText FindHex.HexDigit)

theorem copies_length (count : Nat) (data : List UInt8) :
    (copies count data).length = count * data.length := by
  rw [copies, List.length_flatten, List.map_replicate, List.sum_replicate_nat]

theorem copies_succ (count : Nat) (data : List UInt8) :
    copies (count + 1) data = copies count data ++ data := by
  rw [copies, copies, List.replicate_succ', List.flatten_append, List.flatten_singleton]

/-- The first byte stored at an offset is the byte that the two digits there mean. -/
theorem stored_byte {i : Nat} (bound : i < pattern.text.length / 2) :
    (hexRun pattern.text i).values[0]? = (FindHex.decoded pattern.text)[i]? := by
  have high := (pattern.allowed_get (show i * 2 < pattern.text.length by omega)).read.1
  have low := (pattern.allowed_get (show i * 2 + 1 < pattern.text.length by omega)).read.1
  have lowByte (value : Nat) : (UInt32.ofBitVec (BitVec.ofNat 32 value)).toUInt8 = UInt8.ofNat value := by
    rw [← UInt8.toNat_inj, UInt32.toNat_toUInt8, UInt32.toNat_ofBitVec, BitVec.toNat_ofNat,
      UInt8.toNat_ofNat']
    omega
  rw [hexRun, FindHex.sscanf02X, high, low, FindHex.decoded, List.getElem?_map,
    List.getElem?_range bound, dwordBytes, List.getElem?_cons_zero, Option.map_some]
  exact congrArg some (lowByte _)

/-- `readData` with any buffer for the bytes of a text. -/
def readInto (cells : Nat → List UInt8) (szInValue : List UInt8)
    (file : Option (Option (List UInt8))) : Option (Except Warning (List UInt8 × Nat)) :=
  let szValue := szInValue.filter (· ≠ 0x20)
  let nHexLen := szValue.length / 2
  if szValue.length = 0 then
    match file with
    | none => some (.error .noData)
    | some none => some (.error .openFailed)
    | some (some bytes) =>
      if allocates (bytes.length + 1) then some (.ok (bytes ++ [0], bytes.length)) else none
  else if szValue.length % 2 ≠ 0 then
    some (.error .oddLength)
  else if szValue.any (fun ch => FindHex.hexDigit? ch = none) then
    some (.error .notHex)
  else
    (Overlay.putAll processLimit (cells nHexLen) (hexRuns szValue nHexLen)).map
      fun lpTmpBuf => .ok (lpTmpBuf, nHexLen)

/-- A text of digits passes every check. -/
theorem readInto_text (cells : Nat → List UInt8) {szInValue : List UInt8}
    (file : Option (Option (List UInt8)))
    (stripped : szInValue.filter (· ≠ 0x20) = pattern.text) :
    readInto cells szInValue file =
      (Overlay.putAll processLimit (cells (pattern.text.length / 2))
        (hexRuns pattern.text (pattern.text.length / 2))).map fun lpTmpBuf =>
          .ok (lpTmpBuf, pattern.text.length / 2) := by
  have digits : pattern.text.any (fun ch => FindHex.hexDigit? ch = none) = false := by
    rw [List.any_eq_false]
    intro ch member
    simp [(pattern.digits ch member).read.1]
  have nonempty : pattern.text.length ≠ 0 := mt List.length_eq_zero_iff.mp pattern.nonempty
  have even : ¬pattern.text.length % 2 ≠ 0 := by rw [pattern.pairs]; decide
  unfold readInto
  simp only [stripped, digits]
  rw [if_neg nonempty, if_neg even, if_neg Bool.false_ne_true]

/-- A file is read as a whole. -/
theorem readInto_file (cells : Nat → List UInt8) {szInValue bytes : List UInt8}
    {file : Option (Option (List UInt8))} (stripped : szInValue.filter (· ≠ 0x20) = [])
    (chosen : file = some (some bytes)) :
    readInto cells szInValue file =
      if allocates (bytes.length + 1) then some (.ok (bytes ++ [0], bytes.length)) else none := by
  unfold readInto
  simp only [stripped, chosen, List.length_nil, if_true]

theorem readData_eq_readInto :
    readData = readInto fun nHexLen => List.replicate (nHexLen * 2 + 1) 0 := rfl

theorem readData_text {szInValue : List UInt8} (file : Option (Option (List UInt8)))
    (stripped : szInValue.filter (· ≠ 0x20) = pattern.text) :
    readData szInValue file =
      (Overlay.putAll processLimit (List.replicate (pattern.text.length / 2 * 2 + 1) 0)
        (hexRuns pattern.text (pattern.text.length / 2))).map fun lpTmpBuf =>
          .ok (lpTmpBuf, pattern.text.length / 2) := by
  rw [readData_eq_readInto]
  exact readInto_text pattern _ file stripped

/-- From two bytes on the buffer has room for every store. -/
theorem hexRuns_fit {szValue : List UInt8} {nHexLen : Nat} (many : 2 ≤ nHexLen)
    (small : nHexLen < 1073741824) :
    ∃ lpTmpBuf, Overlay.putAll processLimit (List.replicate (nHexLen * 2 + 1) 0)
      (hexRuns szValue nHexLen) = some lpTmpBuf := by
  apply Option.isSome_iff_exists.mp
  rw [Overlay.putAll_isSome_iff]
  intro run member k covers
  obtain ⟨i, inside, rfl⟩ := List.mem_map.mp member
  have offset := List.mem_range.mp inside
  have upper : k < i + 4 := covers.2
  rw [List.length_replicate, processLimit]
  omega

theorem hexRuns_split {szValue : List UInt8} {nHexLen i : Nat} (bound : i < nHexLen) :
    hexRuns szValue nHexLen = hexRuns szValue i ++ hexRun szValue i ::
      (List.range (nHexLen - i - 1)).map fun k => hexRun szValue (i + (k + 1)) := by
  have position : nHexLen = i + (nHexLen - i - 1 + 1) := by omega
  conv_lhs => rw [position]
  rw [hexRuns, List.range_add, List.map_append, List.map_map, List.range_succ_eq_map, List.map_cons,
    List.map_map]
  rfl

/-- Each store keeps its first byte, as what is stored later starts further on. -/
theorem hexRuns_decoded {cells lpTmpBuf : List UInt8}
    (stored : Overlay.putAll processLimit cells
      (hexRuns pattern.text (pattern.text.length / 2)) = some lpTmpBuf) :
    lpTmpBuf.take (pattern.text.length / 2) = FindHex.decoded pattern.text := by
  apply List.ext_getElem?
  intro i
  by_cases bound : i < pattern.text.length / 2
  · rw [hexRuns_split bound] at stored
    have first : lpTmpBuf[i + 0]? = (hexRun pattern.text i).values[0]? := by
      apply Overlay.putAll_last stored (Nat.succ_pos 3)
      intro other member covers
      obtain ⟨k, -, rfl⟩ := List.mem_map.mp member
      have lower : i + (k + 1) ≤ i + 0 := covers.1
      omega
    rw [List.getElem?_take, if_pos bound, ← stored_byte pattern bound]
    exact first
  · rw [List.getElem?_take, if_neg bound, List.getElem?_eq_none]
    rw [FindHex.decoded_length]
    exact Nat.le_of_not_lt bound

/-- Behind some rounds of the loop the buffer starts with as many copies. -/
theorem copyRuns_copies {data lpTmpBuf rest : List UInt8} {nHexLen : Nat}
    (taken : lpTmpBuf.take nHexLen = data) (length : data.length = nHexLen) (count : Nat)
    (room : count * nHexLen < processLimit) (long : count * nHexLen ≤ rest.length) :
    Overlay.putAll processLimit rest (copyRuns nHexLen count lpTmpBuf) =
      some (copies count data ++ rest.drop (count * nHexLen)) := by
  induction count with
  | zero =>
    rw [Nat.zero_mul, List.drop_zero]
    rfl
  | succ count ih =>
    rw [Nat.succ_mul] at room long
    have before := ih (by omega) (by omega)
    have runs : copyRuns nHexLen (count + 1) lpTmpBuf = copyRuns nHexLen count lpTmpBuf ++
        [{ offset := count * nHexLen % processLimit, values := lpTmpBuf.take nHexLen }] := by
      rw [copyRuns, List.range_succ, List.map_append]
      rfl
    have place : count * nHexLen % processLimit = (copies count data).length := by
      rw [Nat.mod_eq_of_lt (by omega), copies_length, length]
    have pieces : rest.drop (count * nHexLen) =
        (rest.drop (count * nHexLen)).take nHexLen ++ rest.drop ((count + 1) * nHexLen) := by
      rw [Nat.succ_mul, ← List.drop_drop, List.take_append_drop]
    have old : data.length = ((rest.drop (count * nHexLen)).take nHexLen).length := by
      rw [List.length_take, List.length_drop, length]
      omega
    rw [runs, Overlay.putAll_append, before, Option.bind_some, Overlay.putAll, place, taken, pieces,
      Overlay.put_replaces old (by rw [copies_length, ← old, length]; omega), Option.bind_some,
      copies_succ, List.append_assoc]
    rfl

end IDAPlugins.Patch
