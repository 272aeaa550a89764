import IDAPlugins.Groups
import IDAPlugins.Patch.Patching

namespace IDAPlugins.Patch

open Groups LittleEndian

/-! # Byte order and repetition

`IDAP_run` reverses the groups before it copies the data, and takes their number from
the size of all copies. Behind the data it reaches the zeros of its buffer, and behind
these the end of it.
-/

/-- The arguments of `put_many_bytes`. -/
def putManyBytes (form : Form) (file : Option (Option (List UInt8))) (db : Database) :
    Option (Except Warning (Nat × List UInt8)) := do
  match ← readData form.szInValue file with
  | .error warning => some (.error warning)
  | .ok (lpTmpBuf, nHexLen) =>
    let lpTmpBuf ← serialize db.ea64 form.nSerializeRadio nHexLen form.nCount lpTmpBuf
    let lpInBuf ← repeatData nHexLen form.nCount lpTmpBuf
    let nAddres := form.address db
    let total := form.nCount * nHexLen % words db.ea64
    if !db.isLoaded nAddres then
      some (.error (.badAddress nAddres))
    else if !db.isLoaded ((nAddres + total + words db.ea64 - 1) % words db.ea64) then
      some (.error .tooLong)
    else if !allocates ((total + 1) % processLimit) then
      some (.error .mallocFailed)
    else
      (Loop.times (Loop.times (patchByte form.nWriteRadio) nHexLen) form.nCount
        { lpInBuf, mem := region db.memory nAddres (total % processLimit), nSum := 0 }).map fun state =>
          .ok (nAddres, state.mem.take state.nSum)

/-- The call is what `IDAP_run` does to the database. -/
theorem idapRun_eq_put (form : Form) (file : Option (Option (List UInt8))) (db : Database) :
    idapRun form file db =
      (putManyBytes form file db).map (Except.map fun call => db.put call.1 call.2) := by
  rw [idapRun, putManyBytes]
  cases readData form.szInValue file with
  | none => rfl
  | some read =>
    cases read with
    | error warning => rfl
    | ok data =>
      obtain ⟨lpTmpBuf, nHexLen⟩ := data
      simp only [Option.bind_eq_bind, Option.bind_some]
      cases serialize db.ea64 form.nSerializeRadio nHexLen form.nCount lpTmpBuf with
      | none => rfl
      | some lpTmpBuf =>
        simp only [Option.bind_some]
        cases repeatData nHexLen form.nCount lpTmpBuf with
        | none => rfl
        | some lpInBuf =>
          simp only [Option.bind_some, patchRegion]
          split
          · rfl
          · split
            · rfl
            · split
              · rfl
              · rw [Option.map_map]
                rfl

variable {pbuf : List UInt8} {start len : Nat}

theorem xorSwap_eq {a b : Nat} (apart : a ≠ b) (first : a < pbuf.length) (second : b < pbuf.length) :
    xorSwap pbuf a b = some ((pbuf.set a pbuf[b]).set b pbuf[a]) := by
  have back : pbuf[a] ^^^ pbuf[b] ^^^ pbuf[b] = pbuf[a] := by
    rw [UInt8.xor_assoc, UInt8.xor_self, UInt8.xor_zero]
  have forth : pbuf[a] ^^^ pbuf[b] ^^^ pbuf[a] = pbuf[b] := by
    rw [UInt8.xor_comm pbuf[a], UInt8.xor_assoc, UInt8.xor_self, UInt8.xor_zero]
  rw [xorSwap, List.getElem?_eq_getElem first, List.getElem?_eq_getElem second]
  simp only [Option.bind_eq_bind, Option.bind_some, back, forth]
  rw [List.set_comm _ _ apart, List.set_set]
  exact congrArg some (List.set_comm _ _ apart.symm)

/-- Behind some swaps: the outer bytes of the group have changed places. -/
structure Swapped (pbuf : List UInt8) (start len count : Nat) (after : List UInt8) : Prop where
  length : after.length = pbuf.length
  bytes : ∀ k, after[k]? =
    if (start ≤ k ∧ k < start + count) ∨ (start + len - count ≤ k ∧ k < start + len) then
      pbuf[start + (start + len - 1 - k)]?
    else pbuf[k]?

theorem Swapped.step {count : Nat} {after : List UInt8}
    (swapped : Swapped pbuf start len count after) (bound : count < len / 2)
    (inside : start + len ≤ pbuf.length) :
    ∃ next, xorSwap after (start + count) (start + (len - count - 1)) = some next ∧
      Swapped pbuf start len (count + 1) next := by
  have length := swapped.length
  have first : start + count < after.length := by omega
  have second : start + (len - count - 1) < after.length := by omega
  have left : after[start + count]? = pbuf[start + count]? := by
    rw [swapped.bytes, if_neg (by omega)]
  have right : after[start + (len - count - 1)]? = pbuf[start + (len - count - 1)]? := by
    rw [swapped.bytes, if_neg (by omega)]
  refine ⟨_, xorSwap_eq (by omega) first second, ?_, fun k => ?_⟩
  · rw [List.length_set, List.length_set, length]
  · by_cases upper : k = start + (len - count - 1)
    · have mirror : start + (start + len - 1 - k) = start + count := by omega
      rw [if_pos (by omega), mirror, ← left, upper, List.getElem?_set_self (by
        rw [List.length_set]; exact second), List.getElem?_eq_getElem first]
    · rw [List.getElem?_set_ne (Ne.symm upper)]
      by_cases lower : k = start + count
      · have mirror : start + (start + len - 1 - k) = start + (len - count - 1) := by omega
        rw [if_pos (by omega), mirror, ← right, lower, List.getElem?_set_self first,
          List.getElem?_eq_getElem second]
      · rw [List.getElem?_set_ne (Ne.symm lower), swapped.bytes]
        congr 1
        apply propext
        omega

theorem swaps (inside : start + len ≤ pbuf.length) (count : Nat) (bound : count ≤ len / 2) :
    ∃ after, (List.range count).foldlM
        (fun pbuf i => xorSwap pbuf (start + i) (start + (len - i - 1))) pbuf = some after ∧
      Swapped pbuf start len count after := by
  induction count with
  | zero =>
    refine ⟨pbuf, rfl, rfl, fun k => ?_⟩
    rw [if_neg (by omega)]
  | succ count ih =>
    obtain ⟨after, ran, swapped⟩ := ih (Nat.le_of_succ_le bound)
    obtain ⟨next, swap, further⟩ := swapped.step bound inside
    refine ⟨next, ?_, further⟩
    rw [List.range_succ, List.foldlM_append, ran]
    simp only [Option.bind_eq_bind, Option.bind_some, List.foldlM_cons, List.foldlM_nil, swap]
    rfl

/-- `reversedbuf` turns the group round and leaves what stands around it. -/
theorem reversedbuf_eq (before group rest : List UInt8) :
    reversedbuf (before ++ (group ++ rest)) before.length group.length =
      some (before ++ (group.reverse ++ rest)) := by
  have inside : before.length + group.length ≤ (before ++ (group ++ rest)).length := by
    rw [List.length_append, List.length_append]
    omega
  obtain ⟨after, ran, swapped⟩ := swaps inside (group.length / 2) (Nat.le_refl _)
  rw [reversedbuf, ran]
  apply congrArg some
  apply List.ext_getElem?
  intro k
  rw [swapped.bytes]
  by_cases front : k < before.length
  · rw [if_neg (by omega), List.getElem?_append_left front, List.getElem?_append_left front]
  · by_cases within : k < before.length + group.length
    · have shift : k - before.length < group.length := by omega
      have mirrored : (before ++ (group.reverse ++ rest))[k]? =
          group[group.length - 1 - (k - before.length)]? := by
        rw [List.getElem?_append_right (Nat.le_of_not_lt front),
          List.getElem?_append_left (by rw [List.length_reverse]; exact shift),
          List.getElem?_reverse shift]
      have place (j : Nat) (low : before.length ≤ j) (high : j < before.length + group.length) :
          (before ++ (group ++ rest))[j]? = group[j - before.length]? := by
        rw [List.getElem?_append_right low, List.getElem?_append_left (by omega)]
      rw [mirrored]
      split
      · rw [place _ (by omega) (by omega)]
        congr 1
        omega
      · -- the middle of a group of odd length
        rw [place _ (by omega) within]
        congr 1
        omega
    · rw [if_neg (by omega), List.getElem?_append_right (by omega),
        List.getElem?_append_right (by omega), List.getElem?_append_right (by omega),
        List.getElem?_append_right (by rw [List.length_reverse]; omega), List.length_reverse]

/-- A group that ends behind the buffer is a fault at its first swap. -/
theorem reversedbuf_outside (two : 2 ≤ len) (outside : pbuf.length < start + len) :
    reversedbuf pbuf start len = none := by
  obtain ⟨half, split⟩ : ∃ half, len / 2 = half + 1 := ⟨len / 2 - 1, by omega⟩
  have missing : pbuf[start + (len - 0 - 1)]? = none := List.getElem?_eq_none (by omega)
  have first : xorSwap pbuf (start + 0) (start + (len - 0 - 1)) = none := by
    rw [xorSwap, missing]
    cases pbuf[start + 0]? <;> rfl
  rw [reversedbuf, split, List.range_succ_eq_map, List.foldlM_cons, first]
  rfl

/-- The byte order chosen in the form: groups of four bytes or of eight. -/
def groupSize (nSerializeRadio : Nat) : Nat :=
  (nSerializeRadio + 1) * 4

/-- Within the buffer the groups are reversed one after the other. -/
theorem reverses {size : Nat} (count : Nat) {lpTmpBuf : List UInt8}
    (room : count * size ≤ lpTmpBuf.length) (small : lpTmpBuf.length < processLimit) :
    (List.range count).foldlM
        (fun lpTmpBuf i => reversedbuf lpTmpBuf (size * i % processLimit) size) lpTmpBuf =
      some (reverseGroups size count lpTmpBuf) := by
  induction count with
  | zero => rfl
  | succ count ih =>
    rw [Nat.succ_mul] at room
    have before : (lpTmpBuf.take (count * size)).length = count * size := by
      rw [List.length_take]
      omega
    have group : ((lpTmpBuf.drop (count * size)).take size).length = size := by
      rw [List.length_take, List.length_drop]
      omega
    have split : lpTmpBuf = lpTmpBuf.take (count * size) ++
        ((lpTmpBuf.drop (count * size)).take size ++ (lpTmpBuf.drop (count * size)).drop size) := by
      rw [List.take_append_drop, List.take_append_drop]
    obtain ⟨here, next⟩ :=
      reverseGroups_succ ((lpTmpBuf.drop (count * size)).drop size) before group
    rw [← split] at here next
    have place : size * count % processLimit =
        (reverseGroups size count (lpTmpBuf.take (count * size))).length := by
      rw [reverseGroups_length, before, Nat.mul_comm, Nat.mod_eq_of_lt (by omega)]
    have one := reversedbuf_eq (reverseGroups size count (lpTmpBuf.take (count * size)))
      ((lpTmpBuf.drop (count * size)).take size) ((lpTmpBuf.drop (count * size)).drop size)
    rw [← place, group] at one
    rw [List.range_succ, List.foldlM_append, ih (by omega)]
    simp only [Option.bind_eq_bind, Option.bind_some, List.foldlM_cons, List.foldlM_nil]
    rw [here, one, next]
    rfl

/-- The number of groups comes from all copies; one that ends behind the buffer faults. -/
theorem serialize_eq {ea64 : Bool} {nSerializeRadio nHexLen nCount : Nat} {lpTmpBuf : List UInt8}
    (total : nHexLen * nCount < processLimit) (small : lpTmpBuf.length < processLimit) :
    serialize ea64 nSerializeRadio nHexLen nCount lpTmpBuf =
      if nHexLen * nCount / groupSize nSerializeRadio * groupSize nSerializeRadio ≤
          lpTmpBuf.length then
        some (reverseGroups (groupSize nSerializeRadio)
          (nHexLen * nCount / groupSize nSerializeRadio) lpTmpBuf)
      else none := by
  have wide := processLimit_le_words ea64
  have positive : 4 ≤ groupSize nSerializeRadio := by
    rw [groupSize]
    omega
  have same : nHexLen * nCount % words ea64 = nHexLen * nCount := Nat.mod_eq_of_lt (by omega)
  have whole := Nat.div_mul_le_self (nHexLen * nCount) (groupSize nSerializeRadio)
  rw [serialize, same]
  change (List.range (nHexLen * nCount / groupSize nSerializeRadio)).foldlM
    (fun lpTmpBuf i => reversedbuf lpTmpBuf (groupSize nSerializeRadio * i % processLimit)
      (groupSize nSerializeRadio)) lpTmpBuf = _
  generalize nHexLen * nCount / groupSize nSerializeRadio = count at whole ⊢
  generalize groupSize nSerializeRadio = size at positive whole ⊢
  split
  · rename_i room
    exact reverses count room small
  · rename_i outside
    -- the first group that ends behind the buffer
    have inner : lpTmpBuf.length / size < count := by
      by_contra reached
      have fits := Nat.mul_le_mul_right size (Nat.le_of_not_lt reached)
      have divided := Nat.div_mul_le_self lpTmpBuf.length size
      omega
    obtain ⟨more, rfl⟩ := Nat.exists_eq_add_of_lt inner
    have ran := reverses (lpTmpBuf.length / size) (Nat.div_mul_le_self lpTmpBuf.length size) small
    have divided := Nat.div_add_mod lpTmpBuf.length size
    have remainder := Nat.mod_lt lpTmpBuf.length (show 0 < size by omega)
    have offset : size * (lpTmpBuf.length / size) % processLimit =
        size * (lpTmpBuf.length / size) := Nat.mod_eq_of_lt (by omega)
    have fault : reversedbuf (reverseGroups size (lpTmpBuf.length / size) lpTmpBuf)
        (size * (lpTmpBuf.length / size) % processLimit) size = none := by
      apply reversedbuf_outside (by omega)
      rw [reverseGroups_length, offset]
      omega
    rw [Nat.add_assoc, List.range_add, List.foldlM_append, ran, List.range_succ_eq_map,
      List.map_cons, Nat.add_zero]
    simp only [Option.bind_eq_bind, Option.bind_some, List.foldlM_cons, fault, Option.bind_none]

theorem xorSwap_length {after : List UInt8} {a b : Nat} (swap : xorSwap pbuf a b = some after) :
    after.length = pbuf.length := by
  rw [xorSwap] at swap
  obtain ⟨x, -, swap⟩ := Option.bind_eq_some_iff.mp swap
  obtain ⟨y, -, swap⟩ := Option.bind_eq_some_iff.mp swap
  rw [← Option.some.inj swap, List.length_set, List.length_set, List.length_set]

theorem serialize_length {ea64 : Bool} {nSerializeRadio nHexLen nCount : Nat}
    {lpTmpBuf after : List UInt8}
    (reversed : serialize ea64 nSerializeRadio nHexLen nCount lpTmpBuf = some after) :
    after.length = lpTmpBuf.length := by
  apply Loop.foldlM_keeps (fun pbuf : List UInt8 => pbuf.length = lpTmpBuf.length)
    _ reversed rfl
  intro pbuf i next group same
  apply Loop.foldlM_keeps (fun pbuf : List UInt8 => pbuf.length = lpTmpBuf.length)
    _ group same
  exact fun _ _ _ swap kept => (xorSwap_length swap).trans kept

/-- A text of digits, or a file. -/
inductive Source where
  | digits
  | file

/-- The zeros behind the data in `lpTmpBuf`. -/
def Source.blanks : Source → Nat → Nat
  | .digits, nHexLen => nHexLen + 1
  | .file, _ => 1

/-- The size from which the stores of `sscanf` stay in `lpTmpBuf`. -/
def Source.least : Source → Nat
  | .digits => 2
  | .file => 1

inductive Given (szInValue : List UInt8) (file : Option (Option (List UInt8))) :
    Source → List UInt8 → Prop where
  | digits (pattern : FindHex.ElementText FindHex.HexDigit)
      (stripped : szInValue.filter (· ≠ 0x20) = pattern.text) :
      Given szInValue file .digits (FindHex.decoded pattern.text)
  | file (bytes : List UInt8) (nonempty : bytes ≠ [])
      (stripped : szInValue.filter (· ≠ 0x20) = []) (chosen : file = some (some bytes)) :
      Given szInValue file .file bytes

variable {szInValue : List UInt8} {file : Option (Option (List UInt8))} {source : Source}
variable {data : List UInt8}

/-- Behind its first byte a store leaves zeros. -/
theorem stored_blank (pattern : FindHex.ElementText FindHex.HexDigit) {i k : Nat}
    (bound : i < pattern.text.length / 2) (behind : 0 < k) (inside : k < 4) :
    (hexRun pattern.text i).values[k]? = some 0 := by
  have high := (pattern.allowed_get (show i * 2 < pattern.text.length by omega)).read
  have low := (pattern.allowed_get (show i * 2 + 1 < pattern.text.length by omega)).read
  rw [hexRun, FindHex.sscanf02X, high.1, low.1]
  simp only
  generalize FindHex.digitValue (pattern.text.getD (i * 2) 0) = x at high ⊢
  generalize FindHex.digitValue (pattern.text.getD (i * 2 + 1) 0) = y at low ⊢
  have value : (UInt32.ofBitVec (BitVec.ofNat 32 (16 * x + y))).toNat < 256 := by
    rw [UInt32.toNat_ofBitVec, BitVec.toNat_ofNat]
    omega
  have bytes := toNat_dwordBytes (UInt32.ofBitVec (BitVec.ofNat 32 (16 * x + y)))
  generalize UInt32.ofBitVec (BitVec.ofNat 32 (16 * x + y)) = dword at value bytes ⊢
  have length : (dwordBytes dword).length = 4 := rfl
  have byte := congrArg (·[k]?) bytes
  simp only [List.getElem?_map, List.getElem?_eq_getElem (length ▸ inside), Option.map_some] at byte
  rw [List.getElem?_eq_getElem (length ▸ inside)]
  apply congrArg some
  rw [← UInt8.toNat_inj]
  obtain rfl | rfl | rfl : k = 1 ∨ k = 2 ∨ k = 3 := by omega
  all_goals
    simp only [List.getElem?_cons_succ, List.getElem?_cons_zero, Option.some.injEq] at byte
    rw [byte]
    change _ = 0
    omega

/-- `lpTmpBuf` behind all stores: the bytes of the digits, and zeros. -/
theorem hexRuns_eq (pattern : FindHex.ElementText FindHex.HexDigit) {lpTmpBuf : List UInt8}
    (stored : Overlay.putAll processLimit (List.replicate (pattern.text.length / 2 * 2 + 1) 0)
      (hexRuns pattern.text (pattern.text.length / 2)) = some lpTmpBuf) :
    lpTmpBuf = FindHex.decoded pattern.text ++
      List.replicate (pattern.text.length / 2 + 1) 0 := by
  have length := Overlay.putAll_length stored
  rw [List.length_replicate] at length
  rw [← hexRuns_decoded pattern stored]
  conv_lhs => rw [← List.take_append_drop (pattern.text.length / 2) lpTmpBuf]
  congr 1
  rw [List.eq_replicate_iff]
  constructor
  · rw [List.length_drop, length]
    omega
  · intro byte member
    obtain ⟨k, bound, rfl⟩ := List.getElem_of_mem member
    rw [List.length_drop, length] at bound
    rw [List.getElem_drop]
    apply Option.some.inj
    rw [← List.getElem?_eq_getElem]
    by_cases covered : ∃ run ∈ hexRuns pattern.text (pattern.text.length / 2),
        run.Covers (pattern.text.length / 2 + k)
    · obtain ⟨earlier, run, later, split, covers, last⟩ := Overlay.exists_last covered
      obtain ⟨i, inside, rfl⟩ := List.mem_map.mp (show run ∈ hexRuns _ _ by rw [split]; simp)
      have offset := List.mem_range.mp inside
      have lower : i ≤ pattern.text.length / 2 + k := covers.1
      have upper : pattern.text.length / 2 + k < i + 4 := covers.2
      have place : i + (pattern.text.length / 2 + k - i) = pattern.text.length / 2 + k := by omega
      rw [split] at stored
      have final := Overlay.putAll_last stored
        (show pattern.text.length / 2 + k - i < (hexRun pattern.text i).values.length from by
          change _ < 4
          omega) (by
          change ∀ other ∈ later, ¬other.Covers (i + (pattern.text.length / 2 + k - i))
          rw [place]
          exact last)
      rw [stored_blank pattern offset (by omega) (by omega)] at final
      rw [← place]
      exact final
    · rw [Overlay.putAll_untouched stored fun run member covers => covered ⟨run, member, covers⟩,
        List.getElem?_replicate_of_lt (by omega)]

theorem Given.positive (given : Given szInValue file source data) : 0 < data.length := by
  cases given with
  | digits pattern stripped =>
    rw [FindHex.decoded_length]
    exact pattern.count_pos
  | file bytes nonempty stripped chosen => exact List.length_pos_of_ne_nil nonempty

theorem Given.readData_eq (given : Given szInValue file source data)
    (least : source.least ≤ data.length) (small : data.length < 1073741824) :
    readData szInValue file =
      some (.ok (data ++ List.replicate (source.blanks data.length) 0, data.length)) := by
  cases given with
  | digits pattern stripped =>
    rw [FindHex.decoded_length] at least small ⊢
    obtain ⟨lpTmpBuf, stored⟩ := @hexRuns_fit pattern.text _ least small
    rw [readData_text pattern file stripped, stored, Option.map_some, hexRuns_eq pattern stored]
    rfl
  | file data nonempty stripped chosen =>
    have memory : allocates (data.length + 1) = true := allocates_small (by omega)
    rw [readData_eq_readInto, readInto_file _ stripped chosen, if_pos memory]
    rfl

/-- Whatever the size, a buffer that is read holds the data. -/
theorem Given.readData_cases (given : Given szInValue file source data) :
    readData szInValue file = none ∨ source.least ≤ data.length ∧
      ∃ lpTmpBuf, readData szInValue file = some (.ok (lpTmpBuf, data.length)) ∧
        data.length ≤ lpTmpBuf.length := by
  cases given with
  | digits pattern stripped =>
    rw [readData_text pattern file stripped, FindHex.decoded_length]
    cases stored : Overlay.putAll processLimit
        (List.replicate (pattern.text.length / 2 * 2 + 1) 0)
        (hexRuns pattern.text (pattern.text.length / 2)) with
    | none => exact Or.inl rfl
    | some lpTmpBuf =>
      right
      have length := Overlay.putAll_length stored
      rw [List.length_replicate] at length
      refine ⟨?_, lpTmpBuf, rfl, by omega⟩
      -- the last store covers four bytes
      have room := Overlay.putAll_isSome_iff.mp (Option.isSome_of_eq_some stored)
      have positive := pattern.count_pos
      have member : hexRun pattern.text (pattern.text.length / 2 - 1) ∈
          hexRuns pattern.text (pattern.text.length / 2) :=
        List.mem_map.mpr ⟨_, List.mem_range.mpr (by omega), rfl⟩
      have behind := room _ member (pattern.text.length / 2 - 1 + 3)
        ⟨Nat.le_add_right _ _, Nat.add_lt_add_left (show 3 < 4 by decide) _⟩
      rw [List.length_replicate] at behind
      change 2 ≤ _
      omega
  | file data nonempty stripped chosen =>
    rw [readData_eq_readInto, readInto_file _ stripped chosen]
    by_cases memory : allocates (data.length + 1) = true
    · right
      refine ⟨List.length_pos_of_ne_nil nonempty, data ++ [0], if_pos memory, ?_⟩
      rw [List.length_append]
      exact Nat.le_add_right _ _
    · exact Or.inl (if_neg memory)

/-- From 2^30 bytes on there is no buffer for the copies. -/
theorem repeatData_fault {nHexLen nCount : Nat} {lpTmpBuf : List UInt8} (positive : 0 < nHexLen)
    (holds : nHexLen ≤ lpTmpBuf.length) (large : 1073741824 ≤ nHexLen * nCount) :
    repeatData nHexLen nCount lpTmpBuf = none := by
  rw [repeatData]
  by_cases memory : allocates ((nHexLen * nCount * 2 + 1) % processLimit) = true
  · simp only [memory, if_true]
    rw [← Option.not_isSome_iff_eq_none, Overlay.putAll_isSome_iff]
    intro room
    rw [List.length_replicate] at room
    have size := of_decide_eq_true memory
    have whole : 2147483648 ≤ nHexLen * nCount := by
      rw [processLimit] at size
      omega
    -- the copy over the byte at 2^31 - 1 does not fit
    have divided := Nat.div_add_mod 2147483647 nHexLen
    have remainder := Nat.mod_lt 2147483647 positive
    have inside : 2147483647 / nHexLen < nCount := by
      rw [Nat.div_lt_iff_lt_mul positive, Nat.mul_comm]
      omega
    have offset : 2147483647 / nHexLen * nHexLen % processLimit =
        nHexLen * (2147483647 / nHexLen) := by
      rw [Nat.mul_comm, processLimit, Nat.mod_eq_of_lt (by omega)]
    have member : (⟨2147483647 / nHexLen * nHexLen % processLimit, lpTmpBuf.take nHexLen⟩ :
        Overlay.Run UInt8) ∈ copyRuns nHexLen nCount lpTmpBuf :=
      List.mem_map.mpr ⟨_, List.mem_range.mpr inside, rfl⟩
    have lower : 2147483647 / nHexLen * nHexLen % processLimit ≤ 2147483647 := by
      rw [offset]
      omega
    have upper : 2147483647 < 2147483647 / nHexLen * nHexLen % processLimit +
        (lpTmpBuf.take nHexLen).length := by
      rw [offset, List.length_take, Nat.min_eq_left holds]
      omega
    have reached := (room _ member 2147483647 ⟨lower, upper⟩).1
    omega
  · simp only [if_neg memory]

theorem Given.putManyBytes_large {form : Form} {db : Database}
    (given : Given form.szInValue file source data)
    (large : 1073741824 ≤ data.length * form.nCount) : putManyBytes form file db = none := by
  rw [putManyBytes]
  rcases given.readData_cases with failed | ⟨-, lpTmpBuf, read, holds⟩
  · rw [failed]
    rfl
  · rw [read]
    simp only [Option.bind_eq_bind, Option.bind_some]
    cases reversed : serialize db.ea64 form.nSerializeRadio data.length form.nCount lpTmpBuf with
    | none => rfl
    | some after =>
      have length := serialize_length reversed
      rw [Option.bind_some, repeatData_fault given.positive (length ▸ holds) large, Option.bind_none]

/-- The two addresses that `IDAP_run` looks at are loaded. -/
def EndsLoaded (db : Database) (nAddres size : Nat) : Prop :=
  db.isLoaded nAddres = true ∧
    db.isLoaded ((nAddres + size + words db.ea64 - 1) % words db.ea64) = true

/-- In `Write` mode the copies in `lpInBuf` are passed. -/
theorem loops_copies {nHexLen nCount : Nat} {data lpInBuf : List UInt8} (db : Database)
    (nAddres : Nat) (length : data.length = nHexLen)
    (starts : lpInBuf.take (copies nCount data).length = copies nCount data)
    (small : nHexLen * nCount < processLimit) :
    (Loop.times (Loop.times (patchByte 0) nHexLen) nCount
        { lpInBuf, mem := region db.memory nAddres (nHexLen * nCount), nSum := 0 }).map
          (fun state => state.mem.take state.nSum) = some (copies nCount data) := by
  have sized : (copies nCount data).length = nCount * nHexLen := by
    rw [copies_length, length]
  obtain ⟨state, loops, passed⟩ := @patchLoops 0 _ _ _ _ _
    (region_length db.memory nAddres _) sized starts (by
      rw [sized, Nat.mul_comm]
      exact small)
  rw [Nat.mul_comm nHexLen nCount, ← sized, loops, Option.map_some, passed]
  rfl

/-- Behind the byte order: the data in `lpTmpBuf` is copied and passed. -/
theorem passes_copies {nHexLen nCount : Nat} {lpTmpBuf : List UInt8} (db : Database)
    (nAddres : Nat) (taken : (lpTmpBuf.take nHexLen).length = nHexLen)
    (small : nHexLen * nCount < 1073741824) :
    ∃ lpInBuf, repeatData nHexLen nCount lpTmpBuf = some lpInBuf ∧
      (Loop.times (Loop.times (patchByte 0) nHexLen) nCount
          { lpInBuf, mem := region db.memory nAddres (nHexLen * nCount), nSum := 0 }).map
            (fun state => state.mem.take state.nSum) =
        some (copies nCount (lpTmpBuf.take nHexLen)) := by
  obtain ⟨lpInBuf, repeated, starts⟩ := repeatData_digits rfl taken small
  exact ⟨lpInBuf, repeated, loops_copies db nAddres taken starts (Nat.lt_trans small (by decide))⟩

/-- What is passed for a size the buffers have room for. -/
theorem Given.putManyBytes_eq (form : Form) (db : Database)
    (given : Given form.szInValue file source data) (write : form.nWriteRadio = 0)
    (positive : 1 ≤ form.nCount) (least : source.least ≤ data.length)
    (small : data.length * form.nCount < 1073741824)
    (loaded : EndsLoaded db (form.address db) (data.length * form.nCount)) :
    putManyBytes form file db =
      if data.length * form.nCount / groupSize form.nSerializeRadio *
          groupSize form.nSerializeRadio ≤ data.length + source.blanks data.length then
        some (.ok (form.address db, copies form.nCount
          ((reverseGroups (groupSize form.nSerializeRadio)
            (data.length * form.nCount / groupSize form.nSerializeRadio)
            (data ++ List.replicate (source.blanks data.length) 0)).take data.length)))
      else none := by
  have moderate : data.length < 1073741824 := single_small positive small
  have buffer : (data ++ List.replicate (source.blanks data.length) (0 : UInt8)).length =
      data.length + source.blanks data.length := by
    rw [List.length_append, List.length_replicate]
  have blanks : source.blanks data.length ≤ data.length + 1 := by
    cases source with
    | digits => exact Nat.le_refl _
    | file => exact Nat.le_add_left _ _
  have total : data.length * form.nCount < processLimit := Nat.lt_trans small (by decide)
  have wide := processLimit_le_words db.ea64
  have whole : form.nCount * data.length % words db.ea64 = data.length * form.nCount := by
    rw [Nat.mul_comm, Nat.mod_eq_of_lt (by omega)]
  rw [putManyBytes, given.readData_eq least moderate]
  simp only [Option.bind_eq_bind, Option.bind_some]
  rw [serialize_eq total (by rw [buffer, processLimit]; omega), buffer]
  split
  · rename_i room
    have length := @reverseGroups_length _ (groupSize form.nSerializeRadio)
      (data.length * form.nCount / groupSize form.nSerializeRadio)
      (data ++ List.replicate (source.blanks data.length) 0)
    rw [buffer] at length
    generalize reverseGroups _ _ (data ++ List.replicate (source.blanks data.length) 0) =
      lpTmpBuf at length ⊢
    have taken : (lpTmpBuf.take data.length).length = data.length := by
      rw [List.length_take]
      omega
    have memory : allocates ((data.length * form.nCount + 1) % processLimit) = true := by
      rw [processLimit]
      exact allocates_small (by omega)
    obtain ⟨lpInBuf, repeated, passes⟩ := passes_copies db (form.address db) taken small
    obtain ⟨state, loops, passed⟩ := Option.map_eq_some_iff.mp passes
    rw [Option.bind_some, repeated]
    simp only [Option.bind_some, whole, loaded.1, loaded.2, memory, Bool.not_true,
      Bool.false_eq_true, if_false]
    rw [Nat.mod_eq_of_lt total, write, loops, Option.map_some, passed]
  · rfl

theorem copies_take {count : Nat} (positive : 1 ≤ count) (data : List UInt8) :
    (copies count data).take data.length = data := by
  obtain ⟨count, rfl⟩ := Nat.exists_eq_add_of_le' positive
  rw [copies, List.replicate_succ, List.flatten_cons, List.take_left]

theorem copies_inj {count : Nat} (positive : 1 ≤ count) {first second : List UInt8}
    (length : first.length = second.length) :
    copies count first = copies count second ↔ first = second := by
  constructor
  · intro same
    rw [← copies_take positive first, same, length, copies_take positive second]
  · exact congrArg _

/-- The run with a repeat count of 1 passes the data with its complete groups reversed,
and the run with the form's own count passes copies of that. -/
def Repeats (form : Form) (file : Option (Option (List UInt8))) (db : Database)
    (data : List UInt8) : Prop :=
  ∃ bytes, putManyBytes { form with nCount := 1 } file db = some (.ok (form.address db, bytes)) ∧
    putManyBytes form file db = some (.ok (form.address db, copies form.nCount bytes)) ∧
    bytes = grouped (groupSize form.nSerializeRadio) data

/-- A count of 1 reverses the complete groups and no more. -/
theorem Given.putManyBytes_once (form : Form) (db : Database)
    (given : Given form.szInValue file source data) (write : form.nWriteRadio = 0)
    (least : source.least ≤ data.length) (small : data.length < 1073741824)
    (loaded : EndsLoaded db (form.address db) data.length) :
    putManyBytes { form with nCount := 1 } file db =
      some (.ok (form.address db, grouped (groupSize form.nSerializeRadio) data)) := by
  have positive : 0 < groupSize form.nSerializeRadio := by
    rw [groupSize]
    omega
  have fits := Nat.div_mul_le_self data.length (groupSize form.nSerializeRadio)
  have room : data.length / groupSize form.nSerializeRadio * groupSize form.nSerializeRadio ≤
      data.length + source.blanks data.length := by omega
  have kept := (take_reverseGroups_iff positive data (0 : UInt8) (Nat.le_refl _) room).mpr
    (Or.inr (Or.inl rfl))
  have run := Given.putManyBytes_eq { form with nCount := 1 } db given write
    (Nat.le_refl 1) least (by rw [Nat.mul_one]; exact small) (by rw [Nat.mul_one]; exact loaded)
  simp only [Nat.mul_one] at run
  rw [run, if_pos room, kept, copies, List.replicate_one, List.flatten_singleton]
  rfl

/-- The count only repeats exactly when the buffers have room for the data and its copies,
the groups of all copies end in the buffer of the single data, and the last group is
complete, or left alone, or reads the same from both ends when zeros fill it. -/
theorem putManyBytes_repeats_iff (form : Form) (file : Option (Option (List UInt8)))
    (db : Database) (source : Source) (data : List UInt8)
    (given : Given form.szInValue file source data) (write : form.nWriteRadio = 0)
    (positive : 1 ≤ form.nCount) (once : EndsLoaded db (form.address db) data.length)
    (loaded : EndsLoaded db (form.address db) (data.length * form.nCount)) :
    Repeats form file db data ↔
      let size := groupSize form.nSerializeRadio
      source.least ≤ data.length ∧ data.length * form.nCount < 1073741824 ∧
        data.length * form.nCount / size * size ≤ data.length + source.blanks data.length ∧
        (data.length % size = 0 ∨ data.length * form.nCount / size = data.length / size ∨
          let last := data.drop (data.length / size * size) ++
            List.replicate (size - data.length % size) 0
          last.reverse = last) := by
  have grouping : 0 < groupSize form.nSerializeRadio := by
    rw [groupSize]
    omega
  have more : data.length / groupSize form.nSerializeRadio ≤
      data.length * form.nCount / groupSize form.nSerializeRadio :=
    Nat.div_le_div_right (Nat.le_mul_of_pos_right _ positive)
  by_cases small : data.length * form.nCount < 1073741824
  · by_cases least : source.least ≤ data.length
    · have moderate : data.length < 1073741824 := single_small positive small
      simp only [least, small, true_and, Repeats,
        given.putManyBytes_once form db write least moderate once,
        given.putManyBytes_eq form db write positive least small loaded, Option.some.injEq,
        Except.ok.injEq, Prod.mk.injEq, exists_eq_left', and_true]
      by_cases room : data.length * form.nCount / groupSize form.nSerializeRadio *
          groupSize form.nSerializeRadio ≤ data.length + source.blanks data.length
      · have length : ((reverseGroups (groupSize form.nSerializeRadio)
            (data.length * form.nCount / groupSize form.nSerializeRadio)
            (data ++ List.replicate (source.blanks data.length) 0)).take data.length).length =
              (grouped (groupSize form.nSerializeRadio) data).length := by
          rw [List.length_take, reverseGroups_length, grouped, reverseGroups_length,
            List.length_append, Nat.min_eq_left (Nat.le_add_right _ _)]
        rw [if_pos room]
        simp only [room, true_and, Option.some.injEq, Except.ok.injEq, Prod.mk.injEq]
        rw [copies_inj positive length]
        exact take_reverseGroups_iff grouping data 0 more room
      · rw [if_neg room]
        simp only [room, false_and, reduceCtorEq]
    · have failed : putManyBytes form file db = none := by
        rcases given.readData_cases with none | ⟨enough, -⟩
        · rw [putManyBytes, none]
          rfl
        · exact absurd enough least
      simp only [Repeats, failed, least, false_and, reduceCtorEq, and_false, exists_false]
  · simp only [Repeats, given.putManyBytes_large (Nat.le_of_not_lt small), small, false_and,
      reduceCtorEq, and_false, exists_false]

/-- "01020304" -/
def fourBytes : FindHex.ElementText FindHex.HexDigit where
  text := [0x30, 0x31, 0x30, 0x32, 0x30, 0x33, 0x30, 0x34]
  pairs := rfl
  nonempty := List.cons_ne_nil _ _
  digits := by decide +kernel

/-- "010203040506" -/
def sixBytes : FindHex.ElementText FindHex.HexDigit where
  text := fourBytes.text ++ [0x30, 0x35, 0x30, 0x36]
  pairs := rfl
  nonempty := List.cons_ne_nil _ _
  digits := by decide +kernel

def twice (pattern : FindHex.ElementText FindHex.HexDigit) : Form where
  szInValue := pattern.text
  nAddres := 0x401000
  nCount := 2
  nWriteRadio := 0
  nSerializeRadio := 0
  checkmask := 0

theorem loadedProcess_loaded {ea : Nat} (below : ea < 4294967296) :
    loadedProcess.isLoaded ea = true :=
  decide_eq_true below

theorem loadedProcess_ends (size : Nat) :
    EndsLoaded loadedProcess 0x401000 (size + 1) := by
  have last : (0x401000 + (size + 1) + 4294967296 - 1) % 4294967296 < 4294967296 := by omega
  exact ⟨loadedProcess_loaded (by omega), loadedProcess_loaded last⟩

theorem putManyBytes_repeats_four :
    Repeats (twice fourBytes) none loadedProcess (FindHex.decoded fourBytes.text) :=
  (putManyBytes_repeats_iff (twice fourBytes) none loadedProcess .digits _
    (.digits fourBytes (by decide)) rfl (by decide) (loadedProcess_ends _)
    (loadedProcess_ends _)).mpr (by decide)

/-- With a count of 2 the third group takes the last two bytes away. -/
theorem putManyBytes_repeats_not :
    putManyBytes { twice sixBytes with nCount := 1 } none loadedProcess =
        some (.ok (0x401000, [4, 3, 2, 1, 5, 6])) ∧
      putManyBytes (twice sixBytes) none loadedProcess =
        some (.ok (0x401000, [4, 3, 2, 1, 0, 0, 4, 3, 2, 1, 0, 0])) := by
  have given : Given sixBytes.text none .digits (FindHex.decoded sixBytes.text) :=
    .digits sixBytes (by decide)
  constructor
  · exact given.putManyBytes_once (twice sixBytes) _ rfl (by decide) (by decide)
      (loadedProcess_ends _)
  · exact given.putManyBytes_eq (twice sixBytes) _ rfl (by decide) (by decide) (by decide)
      (loadedProcess_ends _)

end IDAPlugins.Patch
