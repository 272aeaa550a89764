import IDAPlugins.FindCode.AutoBuffer
import IDAPlugins.FindCode.Spacing

namespace IDAPlugins.FindCode

/-! # Saving a buffer in a netnode

A netnode stores a value of any length under an index. `SaveNetnode` turns the buffer
to upper case in place and stores it in pieces of `0x400` bytes from index 1000 on;
`GetNetnode` puts that many pieces together again.
-/

abbrev Netnode := Nat → Option (List UInt8)

def Netnode.supset (n : Netnode) (index : Nat) (value : List UInt8) : Netnode :=
  fun other => if other = index then some value else n other

/-- The length of a value, `-1` where there is none. -/
def Netnode.size (n : Netnode) (index : Nat) : Int :=
  match n index with
  | none => -1
  | some value => value.length

/-- The `0x400` zero bytes at the target after the value is copied there. -/
def Netnode.supval (n : Netnode) (index : Nat) : List UInt8 :=
  let value := ((n index).getD []).take 0x400
  value ++ List.replicate (0x400 - value.length) 0

def chunk (bytes : List UInt8) (i length : Nat) : List UInt8 :=
  (bytes.drop (0x400 * i)).take length

/-- The bytes in use afterwards. Where none of them is zero the source goes on behind them, up to
the first zero there is, which is left out here. -/
def AutoBuffer.strupr (buffer : AutoBuffer) : AutoBuffer :=
  { buffer with
    used := FindCode.strupr buffer.used
    within := by rw [strupr_length]; exact buffer.within }

def saveChunks (n : Netnode) (autoBuf : AutoBuffer) : Nat → Netnode × AutoBuffer
  | 0 => (n, autoBuf)
  | i + 1 =>
    let saved := saveChunks n autoBuf i
    let autoBuf := saved.2.strupr
    (saved.1.supset (1000 + i) (chunk autoBuf.used i 0x400), autoBuf)

/-- The netnode and the buffer afterwards, with the number of pieces. -/
def saveNetnode (n : Netnode) (autoBuf : AutoBuffer) : Netnode × AutoBuffer × Nat :=
  let nCount := autoBuf.used.length / 0x400
  let (n, autoBuf) := saveChunks n autoBuf nCount
  if autoBuf.used.length % 0x400 ≠ 0 then
    let autoBuf := autoBuf.strupr
    (n.supset (1000 + nCount) (chunk autoBuf.used nCount (autoBuf.used.length % 0x400)), autoBuf,
      nCount + 1)
  else
    (n, autoBuf, nCount)

/-- The length returned, an `unsigned int`, and the block allocated, if there is one. -/
def getNetnode (n : Netnode) (nCount : Nat) : Nat × Option (List UInt8) :=
  if nCount = 0 then
    (0, none)
  else
    let block := (List.range nCount).flatMap (fun i => n.supval (1000 + i)) ++ [0]
    let last := n.size (1000 + nCount - 1)
    let dwRet : Int := if last = 0x400 then nCount * 0x400 else nCount * 0x400 - 0x400 + last
    ((dwRet % 4294967296).toNat, some block)

variable {n : Netnode} {bytes : List UInt8} {count i : Nat}

theorem Netnode.supset_same (n : Netnode) (index : Nat) (value : List UInt8) :
    n.supset index value index = some value :=
  if_pos rfl

theorem Netnode.supset_other {index other : Nat} (different : other ≠ index) (value : List UInt8) :
    n.supset index value other = n other :=
  if_neg different

theorem chunk_length (whole : 0x400 * i + count ≤ bytes.length) : (chunk bytes i count).length = count := by
  rw [chunk, List.length_take, List.length_drop]
  omega

theorem chunks_eq (bytes : List UInt8) (count : Nat) :
    (List.range count).flatMap (fun i => chunk bytes i 0x400) = bytes.take (0x400 * count) := by
  induction count with
  | zero => rfl
  | succ count ih =>
    rw [List.range_succ, List.flatMap_append, ih, Nat.mul_succ, List.take_add]
    simp [chunk]

/-- A stored piece is read back with zeros behind it. -/
theorem Netnode.supval_stored {index : Nat} {value : List UInt8} (stored : n index = some value)
    (short : value.length ≤ 0x400) :
    n.supval index = value ++ List.replicate (0x400 - value.length) 0 := by
  rw [supval, stored, Option.getD_some, List.take_of_length_le short]

theorem Netnode.size_stored {index : Nat} {value : List UInt8} (stored : n index = some value) :
    n.size index = value.length := by
  rw [size, stored]

theorem strupr_strupr (str : List UInt8) : strupr (strupr str) = strupr str := by
  rw [strupr_eq_self_iff]
  intro ch member
  have upper : (strupr str).takeWhile (· != 0) = (str.takeWhile (· != 0)).map toUpper := by
    have inside : ∀ ch ∈ (str.takeWhile (· != 0)).map toUpper, (ch != 0) = true := by
      intro ch member
      obtain ⟨original, first, rfl⟩ := List.mem_map.mp member
      have nonzero := List.mem_takeWhile_imp first
      rw [bne_iff_ne] at nonzero ⊢
      exact fun zero => nonzero ((toUpper_eq_iff (.inl (by decide))).mp zero)
    rw [strupr, List.takeWhile_append_of_pos inside]
    have stop := List.head?_dropWhile_not (· != (0 : UInt8)) str
    cases rest : str.dropWhile (· != 0) with
    | nil => exact List.append_nil _
    | cons first others =>
      rw [rest] at stop
      rw [List.takeWhile_cons_of_neg (by simpa using stop), List.append_nil]
  rw [upper] at member
  obtain ⟨original, -, rfl⟩ := List.mem_map.mp member
  exact toUpper_ne_lower original

@[simp] theorem AutoBuffer.strupr_used (buffer : AutoBuffer) :
    buffer.strupr.used = FindCode.strupr buffer.used := rfl

theorem saveChunks_strupr (n : Netnode) (autoBuf : AutoBuffer) (count : Nat) :
    strupr (saveChunks n autoBuf count).2.used = strupr autoBuf.used := by
  induction count with
  | zero => rfl
  | succ count ih => rw [saveChunks, AutoBuffer.strupr_used, strupr_strupr, ih]

theorem saveChunks_stored (n : Netnode) (autoBuf : AutoBuffer) (bound : i < count) :
    (saveChunks n autoBuf count).1 (1000 + i) = some (chunk (strupr autoBuf.used) i 0x400) := by
  induction count with
  | zero => exact absurd bound (Nat.not_lt_zero i)
  | succ count ih =>
    simp only [saveChunks]
    rcases Nat.lt_succ_iff_lt_or_eq.mp bound with earlier | rfl
    · rw [Netnode.supset_other (by omega), ih earlier]
    · rw [Netnode.supset_same, AutoBuffer.strupr_used, saveChunks_strupr]

/-- What `SaveNetnode` leaves: the buffer in upper case, and its pieces. -/
theorem saveNetnode_spec (n : Netnode) (autoBuf : AutoBuffer) :
    (saveNetnode n autoBuf).2.1.used = strupr autoBuf.used ∧
      (saveNetnode n autoBuf).2.2 =
        (if autoBuf.used.length % 0x400 = 0 then autoBuf.used.length / 0x400
          else autoBuf.used.length / 0x400 + 1) ∧
      (∀ i < autoBuf.used.length / 0x400,
        (saveNetnode n autoBuf).1 (1000 + i) = some (chunk (strupr autoBuf.used) i 0x400)) ∧
      (autoBuf.used.length % 0x400 ≠ 0 →
        (saveNetnode n autoBuf).1 (1000 + autoBuf.used.length / 0x400) =
          some (chunk (strupr autoBuf.used) (autoBuf.used.length / 0x400)
            (autoBuf.used.length % 0x400))) := by
  have upper := saveChunks_strupr n autoBuf (autoBuf.used.length / 0x400)
  have length : (saveChunks n autoBuf (autoBuf.used.length / 0x400)).2.used.length =
      autoBuf.used.length := by
    rw [← strupr_length, upper, strupr_length]
  simp only [saveNetnode, length]
  by_cases whole : autoBuf.used.length % 0x400 = 0
  · rw [if_neg (not_not.mpr whole), if_pos whole]
    refine ⟨?_, rfl, fun i bound => saveChunks_stored n autoBuf bound,
      fun other => absurd whole other⟩
    -- without pieces there is nothing to turn
    rcases Nat.eq_zero_or_eq_succ_pred (autoBuf.used.length / 0x400) with zero | positive
    · have empty : autoBuf.used = [] := List.eq_nil_of_length_eq_zero (by omega)
      rw [zero, saveChunks, empty]
      rfl
    · rw [positive, saveChunks, AutoBuffer.strupr_used, saveChunks_strupr]
  · rw [if_pos whole, if_neg whole]
    simp only [AutoBuffer.strupr_used, upper, strupr_length]
    refine ⟨trivial, trivial, fun i bound => ?_, fun _ => Netnode.supset_same _ _ _⟩
    rw [Netnode.supset_other (by omega), saveChunks_stored n autoBuf bound]

theorem supval_chunks
    (stored : ∀ i < bytes.length / 0x400, n (1000 + i) = some (chunk bytes i 0x400)) :
    (List.range (bytes.length / 0x400)).flatMap (fun i => n.supval (1000 + i)) =
      bytes.take (0x400 * (bytes.length / 0x400)) := by
  rw [← chunks_eq]
  refine List.flatMap_congr fun i member => ?_
  have bound := List.mem_range.mp member
  have length : (chunk bytes i 0x400).length = 0x400 := chunk_length (by omega)
  rw [Netnode.supval_stored (stored i bound) (Nat.le_of_eq length), length]
  exact List.append_nil _

/-- Whole pieces only: the last one is as long as the others. -/
theorem getNetnode_whole (filled : bytes ≠ []) (small : bytes.length < 2147483648)
    (stored : ∀ i < bytes.length / 0x400, n (1000 + i) = some (chunk bytes i 0x400))
    (whole : bytes.length % 0x400 = 0) :
    getNetnode n (bytes.length / 0x400) = (bytes.length, some (bytes ++ List.replicate 1 0)) := by
  have positive := List.length_pos_iff.mpr filled
  have more : bytes.length / 0x400 ≠ 0 := by omega
  have last := stored (bytes.length / 0x400 - 1) (by omega)
  have size : n.size (1000 + bytes.length / 0x400 - 1) = 0x400 := by
    rw [show 1000 + bytes.length / 0x400 - 1 = 1000 + (bytes.length / 0x400 - 1) by omega,
      Netnode.size_stored last, chunk_length (by omega)]
    rfl
  rw [getNetnode, if_neg more]
  simp only [supval_chunks stored, size, if_true]
  rw [List.take_of_length_le (by omega)]
  refine Prod.ext ?_ rfl
  simp only
  omega

/-- The last piece is shorter, and its place is filled up with zeros. -/
theorem getNetnode_rest (small : bytes.length < 2147483648)
    (stored : ∀ i < bytes.length / 0x400, n (1000 + i) = some (chunk bytes i 0x400))
    (last : n (1000 + bytes.length / 0x400) =
      some (chunk bytes (bytes.length / 0x400) (bytes.length % 0x400))) :
    getNetnode n (bytes.length / 0x400 + 1) =
      (bytes.length, some (bytes ++ List.replicate (0x400 - bytes.length % 0x400 + 1) 0)) := by
  have length : (chunk bytes (bytes.length / 0x400) (bytes.length % 0x400)).length =
      bytes.length % 0x400 := chunk_length (by omega)
  have size : n.size (1000 + (bytes.length / 0x400 + 1) - 1) = (bytes.length % 0x400 : Nat) := by
    rw [show 1000 + (bytes.length / 0x400 + 1) - 1 = 1000 + bytes.length / 0x400 by omega,
      Netnode.size_stored last, length]
  have tail : chunk bytes (bytes.length / 0x400) (bytes.length % 0x400) =
      bytes.drop (0x400 * (bytes.length / 0x400)) := by
    rw [chunk, List.take_of_length_le (by rw [List.length_drop]; omega)]
  rw [getNetnode, if_neg (Nat.succ_ne_zero _)]
  simp only [size, List.range_succ, List.flatMap_append, supval_chunks stored, List.flatMap_cons,
    List.flatMap_nil, List.append_nil, Netnode.supval_stored last (by omega), length]
  refine Prod.ext ?_ ?_
  · simp only
    rw [if_neg (by omega)]
    push_cast
    omega
  · simp only [Option.some.injEq]
    rw [tail, ← List.append_assoc, List.take_append_drop, List.append_assoc, List.replicate_succ']

/-- The pieces of a buffer, as they lie in a netnode, come back with at least one zero
behind them. -/
theorem getNetnode_pieces (filled : bytes ≠ []) (small : bytes.length < 2147483648)
    (stored : ∀ i < bytes.length / 0x400, n (1000 + i) = some (chunk bytes i 0x400))
    (rest : bytes.length % 0x400 ≠ 0 → n (1000 + bytes.length / 0x400) =
      some (chunk bytes (bytes.length / 0x400) (bytes.length % 0x400))) :
    ∃ zeros, 0 < zeros ∧
      getNetnode n (if bytes.length % 0x400 = 0 then bytes.length / 0x400
          else bytes.length / 0x400 + 1) =
        (bytes.length, some (bytes ++ List.replicate zeros 0)) := by
  by_cases whole : bytes.length % 0x400 = 0
  · rw [if_pos whole]
    exact ⟨1, Nat.one_pos, getNetnode_whole filled small stored whole⟩
  · rw [if_neg whole]
    exact ⟨_, Nat.succ_pos _, getNetnode_rest small stored (rest whole)⟩

theorem getNetnode_saveNetnode (n : Netnode) (autoBuf : AutoBuffer) :
    (autoBuf.used ≠ [] → ∃ zeros, 0 < zeros ∧
        getNetnode (saveNetnode n autoBuf).1 (saveNetnode n autoBuf).2.2 =
          (autoBuf.used.length, some (strupr autoBuf.used ++ List.replicate zeros 0))) ∧
      (autoBuf.used = [] →
        getNetnode (saveNetnode n autoBuf).1 (saveNetnode n autoBuf).2.2 = (0, none)) := by
  obtain ⟨-, number, stored, rest⟩ := saveNetnode_spec n autoBuf
  have length := strupr_length autoBuf.used
  constructor
  · intro filled
    have upper : strupr autoBuf.used ≠ [] := by
      rwa [← List.length_pos_iff, length, List.length_pos_iff]
    rw [← length] at number stored rest
    rw [number, ← length]
    exact getNetnode_pieces upper (by rw [length]; exact autoBuf.used_lt) stored rest
  · intro empty
    rw [number, empty]
    rfl

/-- Whatever was stored before, a text comes back in upper case with its length and a
terminator. Of an empty buffer nothing is stored, and no block is allocated for it. -/
theorem netnode_roundTrip (n : Netnode) (autoBuf : AutoBuffer) (terminated : 0 ∉ autoBuf.used) :
    (autoBuf.used ≠ [] → ∃ zeros, 0 < zeros ∧
        getNetnode (saveNetnode n autoBuf).1 (saveNetnode n autoBuf).2.2 =
          (autoBuf.used.length, some (autoBuf.used.map toUpper ++ List.replicate zeros 0))) ∧
      (autoBuf.used = [] →
        getNetnode (saveNetnode n autoBuf).1 (saveNetnode n autoBuf).2.2 = (0, none)) := by
  rw [← strupr_text terminated]
  exact getNetnode_saveNetnode n autoBuf

/-- A snapshot of the one line `nop`. -/
def nopBuffer : AutoBuffer where
  used := [0x0A, 0x6E, 0x6F, 0x70, 0x0A]
  buffSize := 0x10
  allocGranularity := 0x10
  within := by decide
  counted := by decide
  positive := by decide

/-- Stored over a longer text of an earlier snapshot. -/
theorem netnode_roundTrip_nop : ∃ zeros, 0 < zeros ∧
    getNetnode (saveNetnode (fun _ => some (List.replicate 9 0x58)) nopBuffer).1
        (saveNetnode (fun _ => some (List.replicate 9 0x58)) nopBuffer).2.2 =
      (5, some ([0x0A, 0x4E, 0x4F, 0x50, 0x0A] ++ List.replicate zeros 0)) :=
  (netnode_roundTrip (fun _ => some (List.replicate 9 0x58)) nopBuffer (by decide)).1 (by decide)

/-- For an empty buffer no block comes back. -/
theorem netnode_roundTrip_empty :
    ¬ ∃ block, (getNetnode (saveNetnode (fun _ => none) (.init 0x1000 0 (by decide) (by decide))).1
        (saveNetnode (fun _ => none) (.init 0x1000 0 (by decide) (by decide))).2.2).2 = some block := by
  rintro ⟨block, allocated⟩
  exact absurd allocated (by simp [saveNetnode, saveChunks, AutoBuffer.init, getNetnode])

end IDAPlugins.FindCode
