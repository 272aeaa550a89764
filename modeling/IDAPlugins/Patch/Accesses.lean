import IDAPlugins.Patch.Repeating

namespace IDAPlugins.Patch

/-! # The accesses to the buffers

The sizes of `lpTmpBuf` and `lpInBuf` are computed modulo 2^32 in the 32-bit build. The
stores of `sscanf`, the bytes that `reversedbuf` exchanges and the copies of `memcpy`
are listed apart from what they store.
-/

inductive Buffer where
  | lpTmpBuf
  | lpInBuf
  deriving DecidableEq

/-- Bytes of a buffer from an index on. -/
structure Access where
  buffer : Buffer
  index : Nat
  width : Nat
  deriving DecidableEq

/-- A `long`: where a length has no place in it -1, which is a `size_t` in the end. -/
def ftell (length : Nat) : Nat :=
  if length < 2147483648 then length else 4294967295

def Source.nHexLen : Source → Nat → Nat
  | .digits, length => length
  | .file, length => ftell length

/-- The sizes given to `malloc`. -/
def bufferSize (source : Source) (nHexLen nCount : Nat) : Buffer → Nat
  | .lpTmpBuf =>
    match source with
    | .digits => (nHexLen * 2 + 1) % processLimit
    | .file => (nHexLen + 1) % processLimit
  | .lpInBuf => (nHexLen * nCount * 2 + 1) % processLimit

def sscanfStores (source : Source) (nHexLen : Nat) : List Access :=
  match source with
  | .digits => (List.range nHexLen).map fun i => ⟨.lpTmpBuf, i, 4⟩
  | .file => []

def reversedbufBytes (start len : Nat) : List Access :=
  (List.range (len / 2)).flatMap fun i =>
    [⟨.lpTmpBuf, start + i, 1⟩, ⟨.lpTmpBuf, start + (len - i - 1), 1⟩]

def serializeBytes (nSerializeRadio nHexLen nCount : Nat) : List Access :=
  let nSerializeSize := groupSize nSerializeRadio
  let nSerializeCount := nHexLen * nCount % processLimit / nSerializeSize
  (List.range nSerializeCount).flatMap fun i =>
    reversedbufBytes (nSerializeSize * i % processLimit) nSerializeSize

/-- What each `memcpy` writes and what it reads. -/
def memcpyBytes (nHexLen nCount : Nat) : List Access :=
  (List.range nCount).flatMap fun i =>
    [⟨.lpInBuf, i * nHexLen % processLimit, nHexLen⟩, ⟨.lpTmpBuf, 0, nHexLen⟩]

def accesses (source : Source) (nHexLen nCount : Nat) (nSerializeRadio : UInt16) : List Access :=
  sscanfStores source nHexLen ++ serializeBytes nSerializeRadio.toNat nHexLen nCount ++
    memcpyBytes nHexLen nCount

def Access.Inside (access : Access) (size : Buffer → Nat) : Prop :=
  access.index + access.width ≤ size access.buffer

/-- Each access to the buffers for data of a length lies in what was allocated. -/
def InBounds (source : Source) (length nCount : Nat) (nSerializeRadio : UInt16) : Prop :=
  ∀ access ∈ accesses source (source.nHexLen length) nCount nSerializeRadio,
    access.Inside (bufferSize source (source.nHexLen length) nCount)

variable {pbuf : List UInt8} {size : Buffer → Nat}

theorem xorSwap_isSome_iff (a b : Nat) :
    (xorSwap pbuf a b).isSome ↔ a < pbuf.length ∧ b < pbuf.length := by
  rw [xorSwap]
  by_cases first : a < pbuf.length
  · by_cases second : b < pbuf.length
    · rw [List.getElem?_eq_getElem first, List.getElem?_eq_getElem second]
      exact iff_of_true rfl ⟨first, second⟩
    · rw [List.getElem?_eq_none (Nat.le_of_not_lt second), List.getElem?_eq_getElem first]
      exact iff_of_false Bool.false_ne_true fun both => second both.2
  · rw [List.getElem?_eq_none (Nat.le_of_not_lt first)]
    exact iff_of_false Bool.false_ne_true fun both => first both.1

theorem reversedbuf_length {after : List UInt8} {start len : Nat}
    (reversed : reversedbuf pbuf start len = some after) : after.length = pbuf.length :=
  Loop.foldlM_keeps (fun after : List UInt8 => after.length = pbuf.length)
    (fun _ _ _ swap kept => (xorSwap_length swap).trans kept) reversed rfl

/-- `reversedbuf` runs exactly when the bytes it exchanges are in the buffer. -/
theorem reversedbuf_isSome_iff (start len : Nat) (whole : size .lpTmpBuf = pbuf.length) :
    (reversedbuf pbuf start len).isSome ↔
      ∀ access ∈ reversedbufBytes start len, access.Inside size := by
  rw [reversedbuf, Loop.foldlM_isSome_iff (fun after : List UInt8 => after.length = pbuf.length)
    (fun i => start + i < pbuf.length ∧ start + (len - i - 1) < pbuf.length)
    (fun after i same => by rw [xorSwap_isSome_iff, same])
    (fun _ _ _ swap kept => (xorSwap_length swap).trans kept) rfl]
  simp only [reversedbufBytes, List.forall_mem_flatMap, List.forall_mem_cons, Access.Inside, whole,
    List.not_mem_nil, false_implies, implies_true, and_true, Nat.succ_le_iff]

/-- So do all the reversals. -/
theorem serialize_isSome_iff (nSerializeRadio nHexLen nCount : Nat)
    (whole : size .lpTmpBuf = pbuf.length) :
    (serialize false nSerializeRadio nHexLen nCount pbuf).isSome ↔
      ∀ access ∈ serializeBytes nSerializeRadio nHexLen nCount, access.Inside size := by
  rw [serializeBytes, List.forall_mem_flatMap]
  exact Loop.foldlM_isSome_iff (fun after : List UInt8 => after.length = pbuf.length)
    (fun i => ∀ access ∈ reversedbufBytes (groupSize nSerializeRadio * i % processLimit)
      (groupSize nSerializeRadio), access.Inside size)
    (fun after i same => reversedbuf_isSome_iff _ _ (whole.trans same.symm))
    (fun _ _ _ group kept => (reversedbuf_length group).trans kept) rfl

theorem hexRuns_isSome_iff (szValue : List UInt8) (nHexLen : Nat) (whole : size .lpTmpBuf = pbuf.length)
    (small : pbuf.length ≤ processLimit) :
    (Overlay.putAll processLimit pbuf (hexRuns szValue nHexLen)).isSome ↔
      ∀ access ∈ sscanfStores .digits nHexLen, access.Inside size := by
  rw [Overlay.putAll_isSome_iff]
  simp only [hexRuns, sscanfStores, List.forall_mem_map, Access.Inside, whole]
  constructor
  · intro room i bound
    have last := (room i bound (i + 3) ⟨Nat.le_add_right _ _, Nat.lt_succ_self _⟩).1
    exact last
  · intro room i bound k covers
    have inside := room i bound
    have upper : k < i + 4 := covers.2
    omega

theorem copyRuns_isSome_iff {lpTmpBuf : List UInt8} {nHexLen : Nat} (nCount : Nat)
    (positive : 0 < nHexLen) (holds : nHexLen ≤ lpTmpBuf.length) (source : size .lpTmpBuf = lpTmpBuf.length)
    (whole : size .lpInBuf = pbuf.length) (small : pbuf.length ≤ processLimit) :
    (Overlay.putAll processLimit pbuf (copyRuns nHexLen nCount lpTmpBuf)).isSome ↔
      ∀ access ∈ memcpyBytes nHexLen nCount, access.Inside size := by
  have read : 0 + nHexLen ≤ lpTmpBuf.length := by omega
  have values : (lpTmpBuf.take nHexLen).length = nHexLen := by
    rw [List.length_take, Nat.min_eq_left holds]
  rw [Overlay.putAll_isSome_iff]
  simp only [copyRuns, memcpyBytes, List.forall_mem_map, List.forall_mem_flatMap,
    List.forall_mem_cons, Access.Inside, whole, source, Overlay.Run.Covers, values, read,
    List.not_mem_nil, false_implies, implies_true, and_true]
  constructor
  · intro room i bound
    have last := (room i bound (i * nHexLen % processLimit + (nHexLen - 1)) (by omega)).1
    omega
  · intro room i bound k covers
    have inside := room i bound
    omega

variable {nSerializeRadio nHexLen nCount : Nat}

theorem sscanfStores_inside_iff (positive : 0 < nHexLen) :
    (∀ access ∈ sscanfStores .digits nHexLen, access.Inside size) ↔
      nHexLen + 3 ≤ size .lpTmpBuf := by
  simp only [sscanfStores, List.forall_mem_map, List.mem_range, Access.Inside]
  constructor
  · intro inside
    have last := inside (nHexLen - 1) (by omega)
    omega
  · intro room i bound
    omega

theorem serializeBytes_inside_iff :
    (∀ access ∈ serializeBytes nSerializeRadio nHexLen nCount, access.Inside size) ↔
      nHexLen * nCount % processLimit / groupSize nSerializeRadio * groupSize nSerializeRadio ≤
        size .lpTmpBuf := by
  have wide : 4 ≤ groupSize nSerializeRadio := by
    rw [groupSize]
    omega
  have whole := Nat.div_mul_le_self (nHexLen * nCount % processLimit) (groupSize nSerializeRadio)
  have total := Nat.mod_lt (nHexLen * nCount) (show 0 < processLimit by decide)
  simp only [serializeBytes, reversedbufBytes, List.forall_mem_flatMap, List.forall_mem_cons,
    List.mem_range, Access.Inside, List.not_mem_nil, false_implies, implies_true, and_true]
  generalize nHexLen * nCount % processLimit / groupSize nSerializeRadio = groups at whole ⊢
  generalize groupSize nSerializeRadio = width at wide whole ⊢
  constructor
  · intro inside
    cases groups with
    | zero => omega
    | succ groups =>
      rw [Nat.succ_mul] at whole ⊢
      have last := (inside groups (Nat.lt_succ_self groups) 0 (by omega)).2
      rw [Nat.mul_comm width, Nat.mod_eq_of_lt (by omega)] at last
      omega
  · intro room i bound k half
    have further := Nat.mul_le_mul_right width (Nat.succ_le_of_lt bound)
    have start := Nat.mod_le (width * i) processLimit
    rw [Nat.succ_mul, Nat.mul_comm i] at further
    omega

/-- Copies that would go round the address space do not fit into any buffer. -/
theorem memcpyBytes_inside_iff (positive : 0 < nHexLen) (repeated : 1 ≤ nCount)
    (small : size .lpInBuf < processLimit) :
    (∀ access ∈ memcpyBytes nHexLen nCount, access.Inside size) ↔
      nHexLen ≤ size .lpTmpBuf ∧ nHexLen * nCount ≤ size .lpInBuf := by
  simp only [memcpyBytes, List.forall_mem_flatMap, List.forall_mem_cons, List.mem_range,
    Access.Inside, List.not_mem_nil, false_implies, implies_true, and_true, Nat.zero_add]
  constructor
  · intro inside
    refine ⟨(inside 0 repeated).2, ?_⟩
    by_contra outside
    -- the copy over the byte where the buffer ends
    have divided := Nat.div_add_mod (size .lpInBuf) nHexLen
    have remainder := Nat.mod_lt (size .lpInBuf) positive
    have before : size .lpInBuf / nHexLen < nCount := by
      rw [Nat.div_lt_iff_lt_mul positive, Nat.mul_comm]
      omega
    have copy := (inside _ before).1
    rw [Nat.mul_comm, Nat.mod_eq_of_lt (by omega)] at copy
    omega
  · intro room i bound
    have further := Nat.mul_le_mul_right nHexLen (Nat.succ_le_of_lt bound)
    have start := Nat.mod_le (i * nHexLen) processLimit
    rw [Nat.succ_mul, Nat.mul_comm nCount] at further
    omega

/-- The size of `lpInBuf` has room for the copies below 2^31 bytes, and once more where it
wraps round to their number. -/
theorem lpInBuf_room_iff (total : Nat) :
    total ≤ (total * 2 + 1) % processLimit ↔ total < 2147483648 ∨ total = 4294967295 := by
  rw [processLimit]
  omega

theorem inBounds_split (source : Source) (length nCount : Nat) (nSerializeRadio : UInt16) :
    InBounds source length nCount nSerializeRadio ↔
      (∀ access ∈ sscanfStores source (source.nHexLen length),
          access.Inside (bufferSize source (source.nHexLen length) nCount)) ∧
        (∀ access ∈ serializeBytes nSerializeRadio.toNat (source.nHexLen length) nCount,
          access.Inside (bufferSize source (source.nHexLen length) nCount)) ∧
        ∀ access ∈ memcpyBytes (source.nHexLen length) nCount,
          access.Inside (bufferSize source (source.nHexLen length) nCount) := by
  rw [InBounds, accesses, List.forall_mem_append, List.forall_mem_append, and_assoc]

/-- Data whose size is no address is outside where the size of its copies wraps round. -/
theorem wrapped_outside {length width : Nat} (small : length < 2147483648)
    (wraps : length * nCount = 4294967295) (positive : 0 < width) (moderate : width ≤ 262144) :
    length * 2 + 1 < 4294967295 / width * width := by
  have divided := Nat.div_add_mod' 4294967295 width
  have remainder := Nat.mod_lt 4294967295 positive
  have third : length * 3 ≤ 4294967295 := by
    by_cases many : 3 ≤ nCount
    · exact wraps ▸ Nat.mul_le_mul_left length many
    · obtain rfl | rfl | rfl : nCount = 0 ∨ nCount = 1 ∨ nCount = 2 := by omega
      all_goals omega
  omega

theorem lpTmpBuf_size (source : Source) (nCount : Nat) {length : Nat}
    (small : length < 2147483648) :
    source.nHexLen length = length ∧
      bufferSize source length nCount .lpTmpBuf = length + source.blanks length := by
  cases source with
  | digits =>
    refine ⟨rfl, ?_⟩
    simp only [bufferSize, Source.blanks, processLimit]
    omega
  | file =>
    refine ⟨if_pos small, ?_⟩
    simp only [bufferSize, Source.blanks, processLimit]
    omega

theorem groups_and_copies_inside_iff (source : Source) {length : Nat} (nSerializeRadio : UInt16)
    (positive : 0 < length) (small : length < 2147483648) :
    (∀ access ∈ serializeBytes nSerializeRadio.toNat length nCount,
        access.Inside (bufferSize source length nCount)) ∧
        (∀ access ∈ memcpyBytes length nCount,
          access.Inside (bufferSize source length nCount)) ↔
      length * nCount < 2147483648 ∧
        length * nCount / groupSize nSerializeRadio.toNat * groupSize nSerializeRadio.toNat ≤
          length + source.blanks length := by
  have room := (lpTmpBuf_size source nCount small).2
  have width : 0 < groupSize nSerializeRadio.toNat ∧ groupSize nSerializeRadio.toNat ≤ 262144 := by
    have bound := nSerializeRadio.toNat_lt
    rw [groupSize]
    omega
  have blanks : source.blanks length ≤ length + 1 := by
    cases source with
    | digits => exact Nat.le_refl _
    | file => exact Nat.le_add_left _ _
  rw [serializeBytes_inside_iff, room]
  by_cases repeated : 1 ≤ nCount
  · have limit : bufferSize source length nCount .lpInBuf < processLimit := Nat.mod_lt _ (by decide)
    rw [memcpyBytes_inside_iff positive repeated limit, room]
    change _ ∧ _ ∧ length * nCount ≤ (length * nCount * 2 + 1) % processLimit ↔ _
    rw [lpInBuf_room_iff]
    constructor
    · intro both
      obtain ⟨groups, -, below | wraps⟩ := both
      · rw [Nat.mod_eq_of_lt (Nat.lt_trans below (by decide))] at groups
        exact ⟨below, groups⟩
      · have outside := wrapped_outside small wraps width.1 width.2
        rw [wraps] at groups
        change 4294967295 / _ * _ ≤ _ at groups
        omega
    · intro both
      obtain ⟨below, groups⟩ := both
      rw [Nat.mod_eq_of_lt (Nat.lt_trans below (by decide))]
      exact ⟨groups, Nat.le_add_right _ _, Or.inl below⟩
  · obtain rfl : nCount = 0 := by omega
    simp [memcpyBytes]

theorem inBounds_small_iff (source : Source) {length : Nat} (nCount : Nat)
    (nSerializeRadio : UInt16) (positive : 0 < length) (small : length < 2147483648) :
    InBounds source length nCount nSerializeRadio ↔
      (source = .digits → 2 ≤ length) ∧ length * nCount < 2147483648 ∧
        length * nCount / groupSize nSerializeRadio.toNat * groupSize nSerializeRadio.toNat ≤
          length + source.blanks length := by
  rw [inBounds_split, (lpTmpBuf_size source nCount small).1,
    groups_and_copies_inside_iff source nSerializeRadio positive small]
  apply and_congr_left'
  cases source with
  | digits =>
    rw [sscanfStores_inside_iff positive, (lpTmpBuf_size .digits nCount small).2, Source.blanks]
    simp only [true_implies]
    omega
  | file => simp [sscanfStores]

/-- The length of a larger file is -1 to `ftell`, and `lpTmpBuf` has no byte then. -/
theorem inBounds_large_iff (source : Source) {length : Nat} (nCount : Nat)
    (nSerializeRadio : UInt16) (large : 2147483648 ≤ length) :
    InBounds source length nCount nSerializeRadio ↔ source = .file ∧ nCount = 0 := by
  rw [inBounds_split]
  cases source with
  | digits =>
    have outside : ¬ length + 3 ≤ bufferSize .digits length nCount .lpTmpBuf := by
      simp only [bufferSize, processLimit]
      omega
    simp only [Source.nHexLen, sscanfStores_inside_iff (Nat.lt_of_lt_of_le (by decide) large), outside,
      false_and, reduceCtorEq]
  | file =>
    have wrapped : Source.file.nHexLen length = 4294967295 := if_neg (Nat.not_lt.mpr large)
    rw [wrapped]
    by_cases repeated : 1 ≤ nCount
    · have limit : bufferSize .file 4294967295 nCount .lpInBuf < processLimit :=
        Nat.mod_lt _ (by decide)
      have outside : ¬ 4294967295 ≤ bufferSize .file 4294967295 nCount .lpTmpBuf := by
        simp only [bufferSize, processLimit]
        omega
      simp only [memcpyBytes_inside_iff (by decide : 0 < 4294967295) repeated limit, outside,
        false_and, and_false, Nat.ne_of_gt repeated]
    · obtain rfl : nCount = 0 := by omega
      simp [sscanfStores, serializeBytes, memcpyBytes]

/-- The part of `IDAP_run` that fills the two buffers, in the 32-bit build: `lpInBuf` and
`nHexLen`. -/
def prepareData (szInValue : List UInt8) (file : Option (Option (List UInt8)))
    (nCount nSerializeRadio : Nat) : Option (Except Warning (List UInt8 × Nat)) := do
  match ← readData szInValue file with
  | .error warning => some (.error warning)
  | .ok (lpTmpBuf, nHexLen) =>
    let lpTmpBuf ← serialize false nSerializeRadio nHexLen nCount lpTmpBuf
    let lpInBuf ← repeatData nHexLen nCount lpTmpBuf
    some (.ok (lpInBuf, nHexLen))

theorem idapRun_eq_prepareData (form : Form) (file : Option (Option (List UInt8))) (db : Database)
    (narrow : db.ea64 = false) :
    idapRun form file db =
      (prepareData form.szInValue file form.nCount form.nSerializeRadio).bind fun prepared =>
        match prepared with
        | .error warning => some (.error warning)
        | .ok (lpInBuf, nHexLen) =>
          patchRegion db (form.address db) form.nCount nHexLen form.nWriteRadio lpInBuf := by
  rw [idapRun, prepareData]
  cases readData form.szInValue file with
  | none => rfl
  | some read =>
    cases read with
    | error warning => rfl
    | ok data =>
      obtain ⟨lpTmpBuf, nHexLen⟩ := data
      simp only [Option.bind_eq_bind, Option.bind_some, narrow]
      cases serialize false form.nSerializeRadio nHexLen form.nCount lpTmpBuf with
      | none => rfl
      | some lpTmpBuf =>
        simp only [Option.bind_some]
        cases repeatData nHexLen form.nCount lpTmpBuf with
        | none => rfl
        | some lpInBuf => rfl

variable {szInValue : List UInt8} {file : Option (Option (List UInt8))} {source : Source}
variable {data : List UInt8}

theorem Given.readData_inside (given : Given szInValue file source data)
    (small : data.length < 1073741824) (nCount : Nat) :
    (readData szInValue file = none ∧ ¬ ∀ access ∈ sscanfStores source data.length,
        access.Inside (bufferSize source data.length nCount)) ∨
      ∃ lpTmpBuf, readData szInValue file = some (.ok (lpTmpBuf, data.length)) ∧
        bufferSize source data.length nCount .lpTmpBuf = lpTmpBuf.length ∧
        ∀ access ∈ sscanfStores source data.length,
          access.Inside (bufferSize source data.length nCount) := by
  have room := (lpTmpBuf_size source nCount (Nat.lt_trans small (by decide))).2
  cases given with
  | digits pattern stripped =>
    rw [readData_text pattern file stripped, FindHex.decoded_length] at *
    have zeros : bufferSize .digits (pattern.text.length / 2) nCount .lpTmpBuf =
        (List.replicate (pattern.text.length / 2 * 2 + 1) (0 : UInt8)).length := by
      rw [room, List.length_replicate, Source.blanks]
      omega
    have stores := hexRuns_isSome_iff pattern.text (pattern.text.length / 2) zeros (by
      rw [List.length_replicate, processLimit]
      omega)
    rw [← stores]
    cases stored : Overlay.putAll processLimit (List.replicate (pattern.text.length / 2 * 2 + 1) 0)
        (hexRuns pattern.text (pattern.text.length / 2)) with
    | none => simp
    | some lpTmpBuf =>
      right
      exact ⟨lpTmpBuf, rfl, zeros.trans (Overlay.putAll_length stored).symm, rfl⟩
  | file data nonempty stripped chosen =>
    have memory : allocates (data.length + 1) = true := allocates_small (by omega)
    right
    refine ⟨data ++ [0], ?_, ?_, by simp [sscanfStores]⟩
    · rw [readData_eq_readInto, readInto_file _ stripped chosen, if_pos memory]
    · rw [room, List.length_append]
      rfl

/-- Where there is memory for the copies, the buffers are filled without a fault exactly
when every access is in bounds. -/
theorem prepareData_isSome_iff (given : Given szInValue file source data)
    (repeated : 1 ≤ nCount) (memory : data.length * nCount < 1073741824)
    (nSerializeRadio : UInt16) :
    (prepareData szInValue file nCount nSerializeRadio.toNat).isSome ↔
      InBounds source data.length nCount nSerializeRadio := by
  have small : data.length < 1073741824 := single_small repeated memory
  obtain ⟨same, room⟩ := lpTmpBuf_size source nCount (Nat.lt_trans small (by decide))
  have size : (data.length * nCount * 2 + 1) % processLimit = data.length * nCount * 2 + 1 := by
    rw [processLimit]
    omega
  have allocated : allocates (data.length * nCount * 2 + 1) = true := allocates_small (by omega)
  rw [inBounds_split, same, prepareData]
  rcases given.readData_inside small nCount with ⟨failed, outside⟩ | ⟨lpTmpBuf, read, whole, stores⟩
  · simp [failed, outside]
  · rw [read, and_iff_right stores]
    simp only [Option.bind_eq_bind, Option.bind_some]
    rw [← serialize_isSome_iff nSerializeRadio.toNat data.length nCount whole]
    cases reversed : serialize false nSerializeRadio.toNat data.length nCount lpTmpBuf with
    | none => simp
    | some after =>
      have kept : bufferSize source data.length nCount .lpTmpBuf = after.length :=
        whole.trans (serialize_length reversed).symm
      have zeros : bufferSize source data.length nCount .lpInBuf =
          (List.replicate (data.length * nCount * 2 + 1) (0 : UInt8)).length := by
        rw [List.length_replicate, ← size]
        rfl
      have copied := copyRuns_isSome_iff nCount given.positive
        (by rw [← kept, room]; exact Nat.le_add_right _ _) kept zeros
        (by rw [List.length_replicate, processLimit]; omega)
      rw [← copied, Option.bind_some, repeatData]
      simp only [size, allocated, if_true, Option.isSome_some, true_and]
      cases Overlay.putAll processLimit (List.replicate (data.length * nCount * 2 + 1) 0)
        (copyRuns data.length nCount after) <;> simp

/-- Every access lies in its buffer exactly when hex data has at least two bytes, the
copies have fewer than 2^31, and the groups of all copies end in the buffer of the
single data. -/
theorem inBounds_iff (szInValue : List UInt8) (file : Option (Option (List UInt8)))
    (source : Source) (data : List UInt8) (given : Given szInValue file source data)
    (nCount : Nat) (nSerializeRadio : UInt16) :
    InBounds source data.length nCount nSerializeRadio ↔
      (source = .digits → 2 ≤ data.length ∧ data.length < 2147483648) ∧
        data.length * nCount < 2147483648 ∧
        data.length * nCount / groupSize nSerializeRadio.toNat * groupSize nSerializeRadio.toNat ≤
          data.length + source.blanks data.length := by
  by_cases small : data.length < 2147483648
  · rw [inBounds_small_iff source nCount nSerializeRadio given.positive small]
    simp only [small, and_true]
  · rw [inBounds_large_iff source nCount nSerializeRadio (Nat.le_of_not_lt small)]
    constructor
    · intro none
      obtain ⟨rfl, rfl⟩ := none
      simp
    · intro fits
      obtain ⟨text, copies, -⟩ := fits
      cases source with
      | digits => exact absurd (text rfl).2 small
      | file =>
        refine ⟨rfl, ?_⟩
        by_contra repeated
        exact small (single_small (Nat.one_le_iff_ne_zero.mpr repeated) copies)

/-- Two groups are within the nine bytes of `lpTmpBuf`. -/
theorem inBounds_twice : InBounds .digits (FindHex.decoded fourBytes.text).length 2 0 :=
  (inBounds_iff fourBytes.text none .digits _ (.digits fourBytes (by decide)) 2 0).mpr
    ⟨fun _ => by decide, by decide, by decide⟩

/-- The third group ends three bytes behind them. -/
theorem inBounds_not :
    Given fourBytes.text none .digits (FindHex.decoded fourBytes.text) ∧
      ¬ InBounds .digits (FindHex.decoded fourBytes.text).length 3 0 := by
  refine ⟨.digits fourBytes (by decide), ?_⟩
  intro inside
  have last := inside ⟨.lpTmpBuf, 11, 1⟩ (by decide)
  exact absurd last (by rw [Access.Inside]; decide)

end IDAPlugins.Patch
