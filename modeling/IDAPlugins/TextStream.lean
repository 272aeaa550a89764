import Mathlib.Data.List.Basic
import Mathlib.Tactic.Basic

namespace IDAPlugins.TextStream

/-! # Files written and read as text

A stream opened for text writes a line break as two bytes and drops the first of
them again when it reads; `0x1A` ends what it reads. `fgets` takes characters up to
a line break as long as its window has room, and sets the end-of-file flag when it
asks for a character behind the last one.
-/

def writeText : List UInt8 → List UInt8
  | [] => []
  | ch :: rest => if ch = 0x0A then 0x0D :: 0x0A :: writeText rest else ch :: writeText rest

def readText : List UInt8 → List UInt8
  | [] => []
  | ch :: rest =>
    if ch = 0x1A then []
    else if ch = 0x0D ∧ rest.head? = some 0x0A then readText rest
    else ch :: readText rest

structure Stream where
  rest : List UInt8
  feof : Bool

/-- `fgets` with room for a number of characters: those it stores and the stream
behind them. -/
def fgets : Nat → List UInt8 → List UInt8 × Stream
  | 0, rest => ([], { rest, feof := false })
  | _ + 1, [] => ([], { rest := [], feof := true })
  | room + 1, ch :: rest =>
    if ch = 0x0A then ([ch], { rest, feof := false })
    else (ch :: (fgets room rest).1, (fgets room rest).2)

/-- A text of one line that survives a text stream. -/
structure Plain (line : List UInt8) : Prop where
  break_free : 0x0A ∉ line
  return_free : 0x0D ∉ line
  open_ended : 0x1A ∉ line

theorem writeText_of_break_free {line : List UInt8} (free : 0x0A ∉ line) :
    writeText line = line := by
  induction line with
  | nil => rfl
  | cons ch line ih =>
    have apart : ch ≠ 0x0A := Ne.symm (List.ne_of_not_mem_cons free)
    rw [writeText, if_neg apart, ih (List.not_mem_of_not_mem_cons free)]

theorem readText_free (text : List UInt8) : 0x1A ∉ readText text := by
  induction text with
  | nil => exact List.not_mem_nil
  | cons ch rest ih =>
    rw [readText]
    by_cases stop : ch = 0x1A
    · rw [if_pos stop]
      exact List.not_mem_nil
    · rw [if_neg stop]
      by_cases pair : ch = 0x0D ∧ rest.head? = some 0x0A
      · rw [if_pos pair]
        exact ih
      · rw [if_neg pair]
        exact List.not_mem_cons_of_ne_of_not_mem (Ne.symm stop) ih

theorem readText_length (text : List UInt8) : (readText text).length ≤ text.length := by
  induction text with
  | nil => exact Nat.le_refl _
  | cons ch rest ih =>
    rw [readText]
    by_cases stop : ch = 0x1A
    · rw [if_pos stop]
      exact Nat.zero_le _
    · rw [if_neg stop]
      by_cases pair : ch = 0x0D ∧ rest.head? = some 0x0A
      · rw [if_pos pair]
        exact Nat.le_succ_of_le ih
      · rw [if_neg pair]
        exact Nat.succ_le_succ ih

theorem readText_plain {line : List UInt8} (plain : Plain line) (rest : List UInt8) :
    readText (line ++ rest) = line ++ readText rest := by
  induction line with
  | nil => rfl
  | cons ch line ih =>
    have stop : ch ≠ 0x1A := Ne.symm (List.ne_of_not_mem_cons plain.open_ended)
    have alone : ¬(ch = 0x0D ∧ (line ++ rest).head? = some 0x0A) :=
      fun pair => List.ne_of_not_mem_cons plain.return_free pair.1.symm
    have shorter : Plain line :=
      { break_free := List.not_mem_of_not_mem_cons plain.break_free
        return_free := List.not_mem_of_not_mem_cons plain.return_free
        open_ended := List.not_mem_of_not_mem_cons plain.open_ended }
    rw [List.cons_append, readText, if_neg stop, if_neg alone, ih shorter, List.cons_append]

theorem readText_break (rest : List UInt8) :
    readText (writeText [0x0A] ++ rest) = 0x0A :: readText rest := by
  rfl

/-- `fgets` never stores more characters than its window has room for. -/
theorem fgets_length (room : Nat) (text : List UInt8) : (fgets room text).1.length ≤ room := by
  induction room generalizing text with
  | zero => exact Nat.le_refl _
  | succ room ih =>
    cases text with
    | nil => exact Nat.zero_le _
    | cons ch rest =>
      rw [fgets]
      by_cases lf : ch = 0x0A
      · rw [if_pos lf]
        exact Nat.succ_le_succ (Nat.zero_le _)
      · rw [if_neg lf]
        exact Nat.succ_le_succ (ih rest)

/-- What `fgets` stores and what it leaves are the text it was given. -/
theorem fgets_append (room : Nat) (text : List UInt8) :
    (fgets room text).1 ++ (fgets room text).2.rest = text := by
  induction room generalizing text with
  | zero => rfl
  | succ room ih =>
    cases text with
    | nil => rfl
    | cons ch rest =>
      rw [fgets]
      by_cases lf : ch = 0x0A
      · rw [if_pos lf]
        rfl
      · rw [if_neg lf, List.cons_append, ih rest]

/-- A window that stores nothing has met the end of the file. -/
theorem fgets_progress {room : Nat} (text : List UInt8) (more : (fgets (room + 1) text).2.feof = false) :
    (fgets (room + 1) text).2.rest.length < text.length := by
  cases text with
  | nil => exact Bool.noConfusion more
  | cons ch rest =>
    rw [fgets]
    by_cases lf : ch = 0x0A
    · rw [if_pos lf]
      exact Nat.lt_succ_self _
    · rw [if_neg lf, List.length_cons]
      have whole := congrArg List.length (fgets_append room rest)
      rw [List.length_append] at whole
      exact Nat.lt_succ_of_le (whole ▸ Nat.le_add_left _ _)

/-- A line that fits into the window together with its break is read as a whole. -/
theorem fgets_line {room : Nat} {line : List UInt8} (free : 0x0A ∉ line) (rest : List UInt8)
    (fits : line.length < room) :
    fgets room (line ++ 0x0A :: rest) = (line ++ [0x0A], { rest, feof := false }) := by
  induction line generalizing room with
  | nil =>
    obtain ⟨room, rfl⟩ := Nat.exists_eq_succ_of_ne_zero (Nat.ne_of_gt fits)
    rw [List.nil_append, fgets, if_pos rfl]
    rfl
  | cons ch line ih =>
    obtain ⟨room, rfl⟩ := Nat.exists_eq_succ_of_ne_zero (Nat.ne_of_gt (Nat.zero_lt_of_lt fits))
    have other : ch ≠ 0x0A := Ne.symm (List.ne_of_not_mem_cons free)
    rw [List.cons_append, fgets, if_neg other,
      ih (List.not_mem_of_not_mem_cons free) (Nat.lt_of_succ_lt_succ fits)]
    rfl

end IDAPlugins.TextStream
