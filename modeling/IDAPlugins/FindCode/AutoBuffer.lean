import Mathlib.Data.List.Basic

namespace IDAPlugins.FindCode

/-! # A growing buffer

`AUTO_BUFFER` appends bytes and enlarges its block in granules. Both of its sizes are
an `int`: where the block would outgrow that, the allocation fails.
-/

structure AutoBuffer where
  used : List UInt8
  buffSize : Nat
  allocGranularity : Nat
  within : used.length ≤ buffSize
  counted : buffSize < 2147483648
  positive : 0 < allocGranularity

/-- The constructor; a granularity of zero stands for the initial size. -/
def AutoBuffer.init (initSize allocGranularity : Nat) (positive : 0 < initSize)
    (counted : initSize < 2147483648) : AutoBuffer where
  used := []
  buffSize := initSize
  allocGranularity := if allocGranularity = 0 then initSize else allocGranularity
  within := Nat.zero_le _
  counted := counted
  positive := by
    split
    · exact positive
    · exact Nat.pos_of_ne_zero ‹_›

/-- The loop that adds granules until the size is enough. -/
def enlarge (granularity need : Nat) : Nat → Nat → Nat
  | 0, size => size
  | fuel + 1, size =>
    if size < need then enlarge granularity need fuel (size + granularity) else size

variable {granularity need fuel size : Nat}

theorem enlarge_bounds (size : Nat) (positive : 0 < granularity) (reach : need ≤ size + fuel) :
    need ≤ enlarge granularity need fuel size ∧
      enlarge granularity need fuel size < max (size + 1) (need + granularity) := by
  induction fuel generalizing size with
  | zero =>
    rw [enlarge]
    omega
  | succ fuel ih =>
    rw [enlarge]
    split
    · have further : need ≤ size + granularity + fuel := by omega
      have bounds := ih (size + granularity) further
      omega
    · omega

def AutoBuffer.put (buffer : AutoBuffer) (inBuff : List UInt8) : Option AutoBuffer :=
  let need := buffer.used.length + inBuff.length
  if enough : need ≤ buffer.buffSize then
    some { buffer with
      used := buffer.used ++ inBuff
      within := by rw [List.length_append]; exact enough }
  else
    let size := enlarge buffer.allocGranularity need need buffer.buffSize
    if counted : size < 2147483648 then
      some { buffer with
        used := buffer.used ++ inBuff
        buffSize := size
        within := by
          rw [List.length_append]
          exact (enlarge_bounds _ buffer.positive (Nat.le_add_left _ _)).1
        counted := counted }
    else none

/-- `Put` appends, or the block would outgrow an `int`. -/
theorem AutoBuffer.put_cases (buffer : AutoBuffer) (inBuff : List UInt8) :
    (∃ after, buffer.put inBuff = some after ∧ after.used = buffer.used ++ inBuff ∧
        after.allocGranularity = buffer.allocGranularity) ∨
      buffer.put inBuff = none ∧
        2147483648 < (buffer.used ++ inBuff).length + buffer.allocGranularity := by
  by_cases enough : buffer.used.length + inBuff.length ≤ buffer.buffSize
  · exact .inl ⟨_, dif_pos enough, rfl, rfl⟩
  · have bounds := enlarge_bounds buffer.buffSize buffer.positive
      (Nat.le_add_left (buffer.used.length + inBuff.length) buffer.buffSize)
    by_cases counted : enlarge buffer.allocGranularity (buffer.used.length + inBuff.length)
        (buffer.used.length + inBuff.length) buffer.buffSize < 2147483648
    · exact .inl ⟨_, (dif_neg enough).trans (dif_pos counted), rfl, rfl⟩
    · refine .inr ⟨(dif_neg enough).trans (dif_neg counted), ?_⟩
      rw [List.length_append]
      omega

theorem AutoBuffer.used_lt (buffer : AutoBuffer) : buffer.used.length < 2147483648 :=
  Nat.lt_of_le_of_lt buffer.within buffer.counted

end IDAPlugins.FindCode
