import IDAPlugins.FindCode.Prefilter
import IDAPlugins.Machine

namespace IDAPlugins.FindCode

open Machine Search

/-! # A code snapshot

The snapshot is one text, a line break before the first line and one after each,
with an array of the offsets at which the lines start and one of their addresses.
-/

def putLines (lines : List (List UInt8)) : List UInt8 :=
  lines.flatMap (· ++ [0x0A])

def lineOffset (lines : List (List UInt8)) (k : Nat) : Nat :=
  1 + (putLines (lines.take k)).length

/-- A completed snapshot of normalised lines. `AUTO_BUFFER` counts in an `int`. -/
structure Snapshot where
  lines : List (List UInt8)
  asmaddr : List Nat
  upper : ∀ line ∈ lines, UpperText line
  nonempty : ∀ line ∈ lines, line ≠ []
  short : ∀ line ∈ lines, line.length < 256
  addressed : asmaddr.length = lines.length
  small : 1 + (putLines lines).length < 2147483648

def Snapshot.asmbuf (snapshot : Snapshot) : List UInt8 :=
  0x0A :: putLines snapshot.lines

def Snapshot.asmoffset (snapshot : Snapshot) : List Nat :=
  (List.range snapshot.lines.length).map (lineOffset snapshot.lines)

def Snapshot.line (snapshot : Snapshot) (k : Nat) : List UInt8 :=
  snapshot.lines.getD k []

def scanBack (buf : List UInt8) : Nat → Option Nat
  | 0 => if charAt buf 0 = 0x0A then some 0 else none
  | pbuf + 1 => if charAt buf (pbuf + 1) = 0x0A then some (pbuf + 1) else scanBack buf pbuf

/-- The line around an offset, and where it starts relative to the offset. The
output buffer has 256 characters. -/
def getLineBuf (buf : List UInt8) (pbuf : Nat) : Option (Int × List UInt8) := do
  let newline ← scanBack buf pbuf
  let pout := (buf.drop (newline + 1)).takeWhile (fun ch => ch != 0 && ch != 0x0A)
  if pout.length < 256 then some ((newline : Int) + 1 - pbuf, pout) else none

theorem putLines_append (first second : List (List UInt8)) :
    putLines (first ++ second) = putLines first ++ putLines second := by
  simp [putLines]

theorem putLines_cons (line : List UInt8) (rest : List (List UInt8)) :
    putLines (line :: rest) = line ++ 0x0A :: putLines rest := by
  simp [putLines]

theorem newline_before (lines rest : List (List UInt8)) :
    charAt (0x0A :: (putLines lines ++ putLines rest)) (putLines lines).length = 0x0A := by
  induction lines with
  | nil => rfl
  | cons line lines ih =>
    rw [putLines_cons, List.length_append, List.length_cons, ← Nat.add_assoc, charAt_cons_succ,
      List.append_assoc, charAt_append_right]
    exact ih

variable (snapshot : Snapshot)

theorem Snapshot.asmbuf_length :
    snapshot.asmbuf.length = lineOffset snapshot.lines snapshot.lines.length := by
  rw [asmbuf, lineOffset, List.take_length, List.length_cons, Nat.add_comm]

theorem Snapshot.drop_lineOffset (k : Nat) :
    snapshot.asmbuf.drop (lineOffset snapshot.lines k) = putLines (snapshot.lines.drop k) := by
  rw [asmbuf, lineOffset, Nat.add_comm, List.drop_succ_cons]
  conv => lhs; rw [← List.take_append_drop k snapshot.lines, putLines_append]
  rw [List.take_append_drop, List.drop_left]

variable {snapshot} {k : Nat}

theorem Snapshot.line_mem (bound : k < snapshot.lines.length) :
    snapshot.line k ∈ snapshot.lines := by
  rw [line, List.getD_eq_getElem _ _ bound]
  exact List.getElem_mem bound

theorem Snapshot.drop_eq_cons (bound : k < snapshot.lines.length) :
    snapshot.lines.drop k = snapshot.line k :: snapshot.lines.drop (k + 1) := by
  rw [line, List.getD_eq_getElem _ _ bound, List.drop_eq_getElem_cons bound]

theorem Snapshot.drop_line (bound : k < snapshot.lines.length) :
    snapshot.asmbuf.drop (lineOffset snapshot.lines k) =
      snapshot.line k ++ 0x0A :: putLines (snapshot.lines.drop (k + 1)) := by
  rw [drop_lineOffset, drop_eq_cons bound, putLines_cons]

theorem Snapshot.lineOffset_succ (bound : k < snapshot.lines.length) :
    lineOffset snapshot.lines (k + 1) =
      lineOffset snapshot.lines k + (snapshot.line k).length + 1 := by
  have taken : snapshot.lines.take (k + 1) = snapshot.lines.take k ++ [snapshot.line k] := by
    rw [line, List.getD_eq_getElem _ _ bound, List.take_append_getElem bound]
  rw [lineOffset, taken, putLines_append, putLines_cons, List.length_append, List.length_append,
    List.length_cons, lineOffset]
  simp only [putLines, List.flatMap_nil, List.length_nil]
  omega

theorem Snapshot.lineOffset_le {first second : Nat} (ordered : first ≤ second)
    (bound : second ≤ snapshot.lines.length) :
    lineOffset snapshot.lines first + (second - first) ≤ lineOffset snapshot.lines second := by
  induction second with
  | zero =>
    rw [Nat.le_zero.mp ordered]
    exact Nat.le_refl _
  | succ second ih =>
    rcases Nat.eq_or_lt_of_le ordered with rfl | before
    · omega
    · have := ih (by omega) (by omega)
      have := lineOffset_succ (show second < snapshot.lines.length by omega)
      omega

theorem Snapshot.line_le {first second t : Nat} (lines : first ≤ snapshot.lines.length)
    (bound : second < snapshot.lines.length) (inside : t < (snapshot.line second).length)
    (ordered : lineOffset snapshot.lines first ≤ lineOffset snapshot.lines second + t) :
    first ≤ second := by
  by_contra before
  have := lineOffset_succ bound
  have := lineOffset_le (show second + 1 ≤ first by omega) lines
  omega

theorem Snapshot.charAt_line (bound : k < snapshot.lines.length) {t : Nat}
    (inside : t < (snapshot.line k).length) :
    charAt snapshot.asmbuf (lineOffset snapshot.lines k + t) = charAt (snapshot.line k) t := by
  rw [← charAt_drop, drop_line bound, charAt_append_left inside]

theorem Snapshot.line_character (bound : k < snapshot.lines.length) {t : Nat}
    (inside : t < (snapshot.line k).length) :
    charAt (snapshot.line k) t ≠ 0 ∧ charAt (snapshot.line k) t ≠ 0x0A := by
  have upper := snapshot.upper _ (line_mem bound) _ (charAt_mem inside)
  exact ⟨upper.1, upper.2.1⟩

theorem Snapshot.charAt_end :
    charAt snapshot.asmbuf (lineOffset snapshot.lines snapshot.lines.length) = 0 :=
  charAt_of_length_le (Nat.le_of_eq snapshot.asmbuf_length)

theorem Snapshot.newline_before_line (k : Nat) :
    charAt snapshot.asmbuf (putLines (snapshot.lines.take k)).length = 0x0A := by
  rw [asmbuf]
  conv => lhs; rw [← List.take_append_drop k snapshot.lines, putLines_append]
  rw [List.take_append_drop]
  exact newline_before _ _

theorem putLines_locate (lines : List (List UInt8)) (q : Nat) (inside : q < (putLines lines).length)
    (character : charAt (putLines lines) q ≠ 0x0A) :
    ∃ k < lines.length, ∃ t < (lines.getD k []).length,
      q = (putLines (lines.take k)).length + t := by
  induction lines generalizing q with
  | nil => exact absurd inside (Nat.not_lt_zero q)
  | cons line rest ih =>
    rw [putLines_cons] at inside character
    rcases Nat.lt_trichotomy q line.length with within | rfl | beyond
    · exact ⟨0, Nat.succ_pos _, q, within, (Nat.zero_add q).symm⟩
    · rw [← Nat.add_zero line.length, charAt_append_right] at character
      exact absurd rfl character
    · obtain ⟨q, rfl⟩ := Nat.exists_eq_add_of_lt beyond
      rw [Nat.add_assoc, charAt_append_right, charAt_cons_succ] at character
      rw [List.length_append, List.length_cons] at inside
      obtain ⟨k, bound, t, within, place⟩ := ih q (by omega) character
      refine ⟨k + 1, Nat.succ_lt_succ bound, t, within, ?_⟩
      rw [List.take_succ_cons, putLines_cons, List.length_append, List.length_cons]
      omega

theorem Snapshot.locate {q : Nat} (inside : q < snapshot.asmbuf.length)
    (character : charAt snapshot.asmbuf q ≠ 0x0A) :
    ∃ k < snapshot.lines.length, ∃ t < (snapshot.line k).length,
      q = lineOffset snapshot.lines k + t := by
  cases q with
  | zero => exact absurd rfl character
  | succ q =>
    obtain ⟨k, bound, t, within, place⟩ := putLines_locate snapshot.lines q
      (Nat.lt_of_succ_lt_succ inside) character
    exact ⟨k, bound, t, within, by rw [lineOffset]; omega⟩

theorem scanBack_newline {buf : List UInt8} {pbuf : Nat} (newline : charAt buf pbuf = 0x0A) :
    scanBack buf pbuf = some pbuf := by
  cases pbuf <;> simp only [scanBack, if_pos newline]

theorem Snapshot.scanBack_line (bound : k < snapshot.lines.length) {t : Nat}
    (inside : t < (snapshot.line k).length) :
    scanBack snapshot.asmbuf (lineOffset snapshot.lines k + t) =
      some (putLines (snapshot.lines.take k)).length := by
  have character := (line_character bound inside).2
  rw [← charAt_line bound inside] at character
  induction t with
  | zero =>
    rw [lineOffset, Nat.add_zero, Nat.add_comm] at character ⊢
    rw [scanBack, if_neg character]
    exact scanBack_newline (newline_before_line k)
  | succ t ih =>
    have earlier := (line_character bound (show t < _ by omega)).2
    rw [← charAt_line bound (by omega)] at earlier
    rw [← Nat.add_assoc] at character ⊢
    rw [scanBack, if_neg character]
    exact ih (by omega) earlier

/-- From any character of a line, `getLineBuf` returns the line and its start. -/
theorem Snapshot.getLineBuf_line (bound : k < snapshot.lines.length) {t : Nat}
    (inside : t < (snapshot.line k).length) :
    getLineBuf snapshot.asmbuf (lineOffset snapshot.lines k + t) =
      some (-(t : Int), snapshot.line k) := by
  have copied : (snapshot.asmbuf.drop ((putLines (snapshot.lines.take k)).length + 1)).takeWhile
      (fun ch => ch != 0 && ch != 0x0A) = snapshot.line k := by
    rw [Nat.add_comm, ← lineOffset, drop_line bound, List.takeWhile_append_of_pos]
    · exact List.append_nil _
    · intro ch member
      have upper := snapshot.upper _ (line_mem bound) ch member
      simpa using ⟨upper.1, upper.2.1⟩
  rw [getLineBuf, scanBack_line bound inside, Option.bind_eq_bind, Option.bind_some, copied,
    if_pos (snapshot.short _ (line_mem bound)), lineOffset]
  congr 2
  push_cast
  omega

end IDAPlugins.FindCode
