import IDAPlugins.CopyString.Unicode

namespace IDAPlugins.CopyString

open LittleEndian

/-! # Inside the buffers

`Utf8ToGB2312` gives the decoder as many units as there are bytes. A lead byte decides
how many bytes are read and how many are written before the loop looks at the length.
-/

/-- `cUtf8ToUnicode` on the bytes of a string; `none` is a read behind them. -/
def cUtf8ToUnicodeWithin (pszUtf8 : List UInt8) : Option (List UInt8 × Nat) := do
  let cIn ← pszUtf8[0]?
  if cIn ≤ 0x7F then
    some ([cIn], 0)
  else if cIn ≤ 0xDF then do
    let second ← pszUtf8[1]?
    some ([cIn <<< 6 ||| (second &&& 0x3F), cIn >>> 2 &&& 0x0F], 1)
  else if cIn ≤ 0xEF then do
    let second ← pszUtf8[1]?
    let third ← pszUtf8[2]?
    some ([second <<< 6 ||| (third &&& 0x3F), cIn <<< 4 ||| (second >>> 2 &&& 0x0F)], 2)
  else if cIn ≤ 0xF7 then do
    let second ← pszUtf8[1]?
    let third ← pszUtf8[2]?
    let fourth ← pszUtf8[3]?
    some ([third <<< 6 ||| (fourth &&& 0x3F), second <<< 4 ||| (third >>> 2 &&& 0x0F),
      (cIn <<< 2 &&& (0x1C : UInt8)) ||| (second >>> 4 &&& (0x03 : UInt8))], 3)
  else
    some ([], 0)

def utf8ToUnicodeWithinPass (pszUtf8 : List UInt8) (state : Conversion) :
    Option (Loop.Pass Conversion (Nat × List UInt8)) :=
  if state.nUtf8Len < pszUtf8.length then do
    let (bytes, nRet) ← cUtf8ToUnicodeWithin (pszUtf8.drop state.nUtf8Len)
    let output ← Overlay.put state.output.length state.output (2 * state.nUnicodeLen) bytes
    some (.again { nUnicodeLen := state.nUnicodeLen + 1, nUtf8Len := state.nUtf8Len + nRet + 1, output })
  else
    some (.leave (state.nUnicodeLen, state.output))

/-- `Utf8ToUnicode` on a string of `nLen` bytes; `none` is a byte read behind the string
or written behind the buffer. -/
def utf8ToUnicodeWithin (pszUtf8 pszUnicode : List UInt8) : Option (Nat × List UInt8) :=
  Loop.run (utf8ToUnicodeWithinPass pszUtf8) (pszUtf8.length + 1)
    { nUnicodeLen := 0, nUtf8Len := 0, output := pszUnicode }

/-- With `owed` bytes still to come, every lead byte is followed by the bytes that it
takes along. -/
def complete : Nat → List UInt8 → Bool
  | 0, [] => true
  | _ + 1, [] => false
  | 0, lead :: rest => complete (following lead) rest
  | owed + 1, _ :: rest => complete owed rest

theorem cUtf8ToUnicodeWithin_eq (lead : UInt8) (rest : List UInt8) :
    cUtf8ToUnicodeWithin (lead :: rest) =
      if following lead ≤ rest.length then some (cUtf8ToUnicode (lead :: rest)) else none := by
  by_cases one : lead ≤ 0x7F
  · simp [cUtf8ToUnicodeWithin, cUtf8ToUnicode, following, byteAt, one]
  by_cases two : lead ≤ 0xDF
  · cases rest with
    | nil => simp [cUtf8ToUnicodeWithin, following, one, two]
    | cons second rest => simp [cUtf8ToUnicodeWithin, cUtf8ToUnicode, following, byteAt, one, two]
  by_cases three : lead ≤ 0xEF
  · rcases rest with _ | ⟨second, _ | ⟨third, rest⟩⟩
    · simp [cUtf8ToUnicodeWithin, following, one, two, three]
    · simp [cUtf8ToUnicodeWithin, following, one, two, three]
    · simp [cUtf8ToUnicodeWithin, cUtf8ToUnicode, following, byteAt, one, two, three]
  by_cases four : lead ≤ 0xF7
  · rcases rest with _ | ⟨second, _ | ⟨third, _ | ⟨fourth, rest⟩⟩⟩
    · simp [cUtf8ToUnicodeWithin, following, one, two, three, four]
    · simp [cUtf8ToUnicodeWithin, following, one, two, three, four]
    · simp [cUtf8ToUnicodeWithin, following, one, two, three, four]
    · simp [cUtf8ToUnicodeWithin, cUtf8ToUnicode, following, byteAt, one, two, three, four]
  · simp [cUtf8ToUnicodeWithin, cUtf8ToUnicode, following, one, two, three, four, byteAt]

theorem cUtf8ToUnicode_length (bytes : List UInt8) :
    (cUtf8ToUnicode bytes).1.length ≤ following (byteAt bytes 0) + 1 := by
  simp only [cUtf8ToUnicode, following]
  split
  · exact Nat.le_refl _
  split
  · exact Nat.le_refl _
  split
  · exact Nat.le_succ _
  split
  · exact Nat.le_succ _
  · exact Nat.zero_le _

/-- Only the bytes of its sequence decide what a lead byte gives. -/
theorem cUtf8ToUnicode_congr {first second : List UInt8}
    (same : ∀ i ≤ following (byteAt first 0), byteAt second i = byteAt first i) :
    cUtf8ToUnicode second = cUtf8ToUnicode first := by
  have lead := same 0 (Nat.zero_le _)
  unfold following at same
  simp only [cUtf8ToUnicode, lead]
  split
  · rfl
  rename_i one
  rw [if_neg one] at same
  split
  · rename_i two
    rw [if_pos two] at same
    rw [same 1 (Nat.le_refl _)]
  rename_i two
  rw [if_neg two] at same
  split
  · rename_i three
    rw [if_pos three] at same
    rw [same 1 (by omega), same 2 (Nat.le_refl _)]
  rename_i three
  rw [if_neg three] at same
  split
  · rename_i four
    rw [if_pos four] at same
    rw [same 1 (by omega), same 2 (by omega), same 3 (Nat.le_refl _)]
  · rfl

theorem cUtf8ToUnicode_append {lead : UInt8} {rest : List UInt8} (whole : following lead ≤ rest.length)
    (after : List UInt8) :
    cUtf8ToUnicode (lead :: rest ++ after) = cUtf8ToUnicode (lead :: rest) := by
  refine cUtf8ToUnicode_congr ?_
  intro i taken
  rw [byteAt, List.getD_cons_zero] at taken
  rw [byteAt, byteAt, List.getD_eq_getElem?_getD, List.getD_eq_getElem?_getD,
    List.getElem?_append_left (by rw [List.length_cons]; omega)]

theorem complete_owed {owed : Nat} {bytes : List UInt8} (enough : owed ≤ bytes.length) :
    complete owed bytes = complete 0 (bytes.drop owed) := by
  induction owed generalizing bytes with
  | zero => rfl
  | succ owed ih =>
    cases bytes with
    | nil => cases enough
    | cons byte rest => exact ih (Nat.le_of_succ_le_succ enough)

theorem complete_short {owed : Nat} {bytes : List UInt8} (short : bytes.length < owed) :
    complete owed bytes = false := by
  induction owed generalizing bytes with
  | zero => cases short
  | succ owed ih =>
    cases bytes with
    | nil => rfl
    | cons byte rest => exact ih (Nat.lt_of_succ_lt_succ short)

variable {pszUtf8 pszUnicode : List UInt8} {state : Conversion}

theorem utf8ToUnicodeWithinPass_whole {lead : UInt8} {rest : List UInt8}
    (here : pszUtf8.drop state.nUtf8Len = lead :: rest) (whole : following lead ≤ rest.length)
    (behind : state.nUnicodeLen ≤ state.nUtf8Len) (size : state.output.length = 2 * pszUtf8.length) :
    ∃ output, output.length = state.output.length ∧
      utf8ToUnicodeWithinPass pszUtf8 state = some (.again
        { nUnicodeLen := state.nUnicodeLen + 1, nUtf8Len := state.nUtf8Len + following lead + 1
          output }) := by
  have length := congrArg List.length here
  rw [List.length_drop, List.length_cons] at length
  have read := cUtf8ToUnicode_following (lead :: rest)
  have few := cUtf8ToUnicode_length (lead :: rest)
  rw [byteAt, List.getD_cons_zero] at read few
  have room : (Overlay.put state.output.length state.output (2 * state.nUnicodeLen)
      (cUtf8ToUnicode (lead :: rest)).1).isSome := by
    rw [Overlay.put_isSome_iff]
    intro k lower upper
    omega
  obtain ⟨output, stored⟩ := Option.isSome_iff_exists.mp room
  refine ⟨output, Overlay.put_length stored, ?_⟩
  rw [utf8ToUnicodeWithinPass, if_pos (by omega), here, cUtf8ToUnicodeWithin_eq, if_pos whole]
  simp only [Option.bind_eq_bind, Option.bind_some, stored, read]

theorem utf8ToUnicodeWithinPass_cut {lead : UInt8} {rest : List UInt8}
    (here : pszUtf8.drop state.nUtf8Len = lead :: rest) (cut : ¬ following lead ≤ rest.length) :
    utf8ToUnicodeWithinPass pszUtf8 state = none := by
  have length := congrArg List.length here
  rw [List.length_drop, List.length_cons] at length
  rw [utf8ToUnicodeWithinPass, if_pos (by omega), here, cUtf8ToUnicodeWithin_eq, if_neg cut]
  rfl

/-- From any unit on, the loop stays inside the buffers when the rest is complete. -/
theorem within_run_iff {fuel : Nat} (enough : pszUtf8.length - state.nUtf8Len < fuel)
    (behind : state.nUnicodeLen ≤ state.nUtf8Len) (size : state.output.length = 2 * pszUtf8.length) :
    (Loop.run (utf8ToUnicodeWithinPass pszUtf8) fuel state).isSome ↔
      complete 0 (pszUtf8.drop state.nUtf8Len) = true := by
  induction fuel generalizing state with
  | zero => exact absurd enough (Nat.not_lt_zero _)
  | succ fuel ih =>
    cases here : pszUtf8.drop state.nUtf8Len with
    | nil =>
      have ended := List.drop_eq_nil_iff.mp here
      have left : utf8ToUnicodeWithinPass pszUtf8 state =
          some (.leave (state.nUnicodeLen, state.output)) := if_neg (Nat.not_lt_of_le ended)
      rw [Loop.run_leave left]
      exact iff_of_true rfl rfl
    | cons lead rest =>
      have length := congrArg List.length here
      rw [List.length_drop, List.length_cons] at length
      rw [complete]
      by_cases whole : following lead ≤ rest.length
      · obtain ⟨output, same, passed⟩ := utf8ToUnicodeWithinPass_whole here whole behind size
        have further : pszUtf8.drop (state.nUtf8Len + following lead + 1) = rest.drop (following lead) := by
          rw [Nat.add_assoc, Nat.add_comm (following lead), ← Nat.add_assoc, ← List.drop_drop,
            ← List.drop_drop, here, List.drop_succ_cons, List.drop_zero]
        rw [Loop.run_again passed, complete_owed whole, ← further]
        exact ih (by simp only; omega) (by simp only; omega) (same.trans size)
      · rw [complete_short (Nat.lt_of_not_le whole), Loop.run,
          utf8ToUnicodeWithinPass_cut here whole]
        exact iff_of_false Bool.false_ne_true Bool.false_ne_true

/-- A pass inside the buffers is a pass of the decoder, whatever follows the string. -/
theorem utf8ToUnicodeWithinPass_refines (after : List UInt8)
    {outcome : Loop.Pass Conversion (Nat × List UInt8)}
    (pass : utf8ToUnicodeWithinPass pszUtf8 state = some outcome) :
    utf8ToUnicodePass (pszUtf8 ++ after) pszUtf8.length state = some outcome := by
  cases here : pszUtf8.drop state.nUtf8Len with
  | nil =>
    have ended := Nat.not_lt_of_le (List.drop_eq_nil_iff.mp here)
    rw [utf8ToUnicodeWithinPass, if_neg ended] at pass
    rw [utf8ToUnicodePass, if_neg ended]
    exact pass
  | cons lead rest =>
    have length := congrArg List.length here
    rw [List.length_drop, List.length_cons] at length
    have more : state.nUtf8Len < pszUtf8.length := by omega
    by_cases whole : following lead ≤ rest.length
    · rw [utf8ToUnicodeWithinPass, if_pos more, here, cUtf8ToUnicodeWithin_eq, if_pos whole] at pass
      rw [utf8ToUnicodePass, if_pos more, List.drop_append_of_le_length (Nat.le_of_lt more), here,
        cUtf8ToUnicode_append whole]
      exact pass
    · rw [utf8ToUnicodeWithinPass_cut here whole] at pass
      cases pass

theorem utf8ToUnicodeWithin_refines {result : Nat × List UInt8} (after : List UInt8)
    (run : utf8ToUnicodeWithin pszUtf8 pszUnicode = some result) :
    utf8ToUnicode (pszUtf8 ++ after) pszUtf8.length pszUnicode = some result :=
  Loop.run_refines (fun _ _ pass => utf8ToUnicodeWithinPass_refines after pass) run

/-- Over a string of `n` bytes and a buffer of `n` units the decoder stays inside both exactly
when the string does not end inside a sequence. -/
theorem utf8ToUnicodeWithin_iff (pszUtf8 pszUnicode : List UInt8)
    (size : pszUnicode.length = 2 * pszUtf8.length) :
    (utf8ToUnicodeWithin pszUtf8 pszUnicode).isSome ↔ complete 0 pszUtf8 = true :=
  within_run_iff (Nat.lt_succ_self _) (Nat.le_refl 0) size

theorem utf8ToUnicodeWithin_classes :
    (List.replicate 12 (0 : UInt8)).length = 2 * [0x41, 0xCE, 0xA9, 0xE4, 0xB8, 0xAD].length ∧
      ((utf8ToUnicodeWithin [0x41, 0xCE, 0xA9, 0xE4, 0xB8, 0xAD] (List.replicate 12 0)).isSome ↔
        complete 0 [0x41, 0xCE, 0xA9, 0xE4, 0xB8, 0xAD] = true) :=
  ⟨rfl, utf8ToUnicodeWithin_iff [0x41, 0xCE, 0xA9, 0xE4, 0xB8, 0xAD] (List.replicate 12 0) rfl⟩

/-- The last byte of the string is the first one of two. -/
theorem utf8ToUnicodeWithin_fails :
    utf8ToUnicodeWithin [0x41, 0xC3] (List.replicate 4 0) = none := by decide

end IDAPlugins.CopyString
