import IDAPlugins.Codes
import IDAPlugins.LittleEndian
import IDAPlugins.Loop
import IDAPlugins.Overlay
import Mathlib.Algebra.Group.Nat.Hom

namespace IDAPlugins.CopyString

open Codes LittleEndian

/-! # UTF-8 and 16-bit units

`UnicodeToUtf8` and `Utf8ToUnicode` go over a string unit by unit. The function for
one unit stores its bytes and returns one less than their number; the loop adds the
one. A character is signed in the sources, but only the low eight bits of what is
computed from it are stored, so the bytes are unsigned here.
-/

/-- The bytes stored for one unit, with the value returned. -/
def cUnicodeToUtf8 (unit : UInt16) : List UInt8 × Nat :=
  if unit ≤ 0x7F then
    ([lowByte unit], 0)
  else if unit ≤ 0x7FF then
    ([(0xC0 : UInt8) ||| highByte unit <<< 2 ||| lowByte unit >>> 6,
      (0x80 : UInt8) ||| (lowByte unit &&& 0x3F)], 1)
  else
    ([(0xE0 : UInt8) ||| highByte unit >>> 4,
      (0x80 : UInt8) ||| (highByte unit &&& 0x0F) <<< 2 ||| lowByte unit >>> 6,
      (0x80 : UInt8) ||| (lowByte unit &&& 0x3F)], 2)

/-- The bytes stored at the place of the unit, which keeps the others, with the
value returned. A lead byte above `0xF7` stores nothing. -/
def cUtf8ToUnicode (pszUtf8 : List UInt8) : List UInt8 × Nat :=
  let byte (i : Nat) : UInt8 := byteAt pszUtf8 i
  if byte 0 ≤ 0x7F then
    ([byte 0], 0)
  else if byte 0 ≤ 0xDF then
    ([byte 0 <<< 6 ||| (byte 1 &&& 0x3F), byte 0 >>> 2 &&& 0x0F], 1)
  else if byte 0 ≤ 0xEF then
    ([byte 1 <<< 6 ||| (byte 2 &&& 0x3F), byte 0 <<< 4 ||| (byte 1 >>> 2 &&& 0x0F)], 2)
  else if byte 0 ≤ 0xF7 then
    ([byte 2 <<< 6 ||| (byte 3 &&& 0x3F), byte 1 <<< 4 ||| (byte 2 >>> 2 &&& 0x0F),
      (byte 0 <<< 2 &&& (0x1C : UInt8)) ||| (byte 1 >>> 4 &&& (0x03 : UInt8))], 3)
  else
    ([], 0)

structure Conversion where
  nUnicodeLen : Nat
  nUtf8Len : Nat
  output : List UInt8

def unicodeToUtf8Pass (pszUnicode : List UInt16) (state : Conversion) :
    Option (Loop.Pass Conversion (Nat × List UInt8)) :=
  match pszUnicode[state.nUnicodeLen]? with
  | none => some (.leave (state.nUtf8Len, state.output))
  | some unit => do
    let (bytes, nRet) := cUnicodeToUtf8 unit
    let output ← Overlay.put state.output.length state.output state.nUtf8Len bytes
    some (.again { nUnicodeLen := state.nUnicodeLen + 1, nUtf8Len := state.nUtf8Len + nRet + 1, output })

/-- `none` is a byte stored outside the output buffer. -/
def unicodeToUtf8 (pszUnicode : List UInt16) (pszUtf8 : List UInt8) : Option (Nat × List UInt8) :=
  Loop.run (unicodeToUtf8Pass pszUnicode) (pszUnicode.length + 1)
    { nUnicodeLen := 0, nUtf8Len := 0, output := pszUtf8 }

def utf8ToUnicodePass (pszUtf8 : List UInt8) (nLen : Nat) (state : Conversion) :
    Option (Loop.Pass Conversion (Nat × List UInt8)) :=
  if state.nUtf8Len < nLen then do
    let (bytes, nRet) := cUtf8ToUnicode (pszUtf8.drop state.nUtf8Len)
    let output ← Overlay.put state.output.length state.output (2 * state.nUnicodeLen) bytes
    some (.again { nUnicodeLen := state.nUnicodeLen + 1, nUtf8Len := state.nUtf8Len + nRet + 1, output })
  else
    some (.leave (state.nUnicodeLen, state.output))

def utf8ToUnicode (pszUtf8 : List UInt8) (nLen : Nat) (pszUnicode : List UInt8) :
    Option (Nat × List UInt8) :=
  Loop.run (utf8ToUnicodePass pszUtf8 nLen) (nLen + 1)
    { nUnicodeLen := 0, nUtf8Len := 0, output := pszUnicode }

def utf8Bytes (unit : UInt16) : List UInt8 := (cUnicodeToUtf8 unit).1

/-- The bytes of a unit in UTF-8, by its range. -/
def utf8Width (unit : UInt16) : Nat :=
  if unit ≤ 0x7F then 1 else if unit ≤ 0x7FF then 2 else 3

theorem cUnicodeToUtf8_width (unit : UInt16) :
    (utf8Bytes unit).length = utf8Width unit ∧ (cUnicodeToUtf8 unit).2 + 1 = utf8Width unit := by
  unfold utf8Bytes cUnicodeToUtf8 utf8Width
  split
  · exact ⟨rfl, rfl⟩
  · split
    · exact ⟨rfl, rfl⟩
    · exact ⟨rfl, rfl⟩

theorem utf8Width_pos (unit : UInt16) : 0 < utf8Width unit := by
  rw [← (cUnicodeToUtf8_width unit).2]
  exact Nat.succ_pos _

/-- Bits that do not overlap add up. -/
theorem toNat_or (high low : UInt8) (k : Nat) (below : low.toNat < 2 ^ k)
    (multiple : 2 ^ k ∣ high.toNat) : (high ||| low).toNat = high.toNat + low.toNat := by
  obtain ⟨part, value⟩ := multiple
  rw [UInt8.toNat_or, value, Nat.two_pow_add_eq_or_of_lt below]

theorem toNat_shiftLeft (byte : UInt8) {k : UInt8} (small : k.toNat < 8) :
    (byte <<< k).toNat = byte.toNat * 2 ^ k.toNat % 256 := by
  rw [UInt8.toNat_shiftLeft, Nat.mod_eq_of_lt small, Nat.shiftLeft_eq]

theorem toNat_shiftRight (byte : UInt8) {k : UInt8} (small : k.toNat < 8) :
    (byte >>> k).toNat = byte.toNat / 2 ^ k.toNat := by
  rw [UInt8.toNat_shiftRight, Nat.mod_eq_of_lt small, Nat.shiftRight_eq_div_pow]

theorem toNat_and (byte mask : UInt8) (k : Nat) (ones : mask.toNat = 2 ^ k - 1) :
    (byte &&& mask).toNat = byte.toNat % 2 ^ k := by
  rw [UInt8.toNat_and, ones, Nat.and_two_pow_sub_one_eq_mod]

theorem continuation_toNat (low : UInt8) :
    ((0x80 : UInt8) ||| (low &&& 0x3F)).toNat = 128 + low.toNat % 64 := by
  have part := toNat_and low 0x3F 6 rfl
  rw [toNat_or _ _ 6 (by omega) (by decide), part]
  rfl

theorem lead2_toNat (low high : UInt8) (small : high.toNat < 8) :
    ((0xC0 : UInt8) ||| high <<< 2 ||| low >>> 6).toNat = 192 + 4 * high.toNat + low.toNat / 64 := by
  have below := low.toNat_lt
  have left := toNat_shiftLeft high (k := 2) (by decide)
  have right := toNat_shiftRight low (k := 6) (by decide)
  simp only [UInt8.reduceToNat, Nat.reducePow] at left right
  have upper : ((0xC0 : UInt8) ||| high <<< 2).toNat = 192 + 4 * high.toNat := by
    rw [toNat_or _ _ 5 (by omega) (by decide), left]
    simp only [UInt8.reduceToNat]
    omega
  rw [toNat_or _ _ 2 (by omega) (by omega), upper, right]

theorem lead3_toNat (high : UInt8) :
    ((0xE0 : UInt8) ||| high >>> 4).toNat = 224 + high.toNat / 16 := by
  have below := high.toNat_lt
  have right := toNat_shiftRight high (k := 4) (by decide)
  simp only [UInt8.reduceToNat, Nat.reducePow] at right
  rw [toNat_or _ _ 4 (by omega) (by decide), right]
  rfl

theorem middle3_toNat (low high : UInt8) :
    ((0x80 : UInt8) ||| (high &&& 0x0F) <<< 2 ||| low >>> 6).toNat =
      128 + 4 * (high.toNat % 16) + low.toNat / 64 := by
  have below := low.toNat_lt
  have part := toNat_and high 0x0F 4 rfl
  have left := toNat_shiftLeft (high &&& 0x0F) (k := 2) (by decide)
  have right := toNat_shiftRight low (k := 6) (by decide)
  simp only [UInt8.reduceToNat, Nat.reducePow] at part left right
  have upper : ((0x80 : UInt8) ||| (high &&& 0x0F) <<< 2).toNat = 128 + 4 * (high.toNat % 16) := by
    rw [toNat_or _ _ 6 (by omega) (by decide), left, part]
    simp only [UInt8.reduceToNat]
    omega
  rw [toNat_or _ _ 2 (by omega) (by omega), upper, right]

/-- The low byte comes back from the last two bits of one byte and six of the next. -/
theorem low_toNat (first second : UInt8) :
    (first <<< 6 ||| (second &&& 0x3F)).toNat = first.toNat % 4 * 64 + second.toNat % 64 := by
  have part := toNat_and second 0x3F 6 rfl
  have left := toNat_shiftLeft first (k := 6) (by decide)
  simp only [UInt8.reduceToNat, Nat.reducePow] at part left
  rw [toNat_or _ _ 6 (by omega) (by omega), left, part]
  omega

theorem high2_toNat (first : UInt8) : (first >>> 2 &&& 0x0F).toNat = first.toNat / 4 % 16 := by
  have right := toNat_shiftRight first (k := 2) (by decide)
  rw [toNat_and _ _ 4 rfl, right]
  rfl

theorem high3_toNat (first second : UInt8) :
    (first <<< 4 ||| (second >>> 2 &&& 0x0F)).toNat =
      first.toNat % 16 * 16 + second.toNat / 4 % 16 := by
  have left := toNat_shiftLeft first (k := 4) (by decide)
  simp only [UInt8.reduceToNat, Nat.reducePow] at left
  rw [toNat_or _ _ 4 (by rw [high2_toNat]; omega) (by omega), left, high2_toNat]
  omega

/-- A lead byte below `0x80` is the unit itself. -/
theorem cUtf8ToUnicode_ascii {first : UInt8} (range : first.toNat ≤ 127) (rest : List UInt8) :
    cUtf8ToUnicode (first :: rest) = ([first], 0) := by
  refine if_pos ?_
  show first ≤ 0x7F
  rw [UInt8.le_iff_toNat_le]
  exact range

theorem cUtf8ToUnicode_two {unit : UInt16} {first second : UInt8} (range : unit.toNat ≤ 2047)
    (lead : first.toNat = 192 + 4 * (highByte unit).toNat + (lowByte unit).toNat / 64)
    (next : second.toNat = 128 + (lowByte unit).toNat % 64) (rest : List UInt8) :
    cUtf8ToUnicode (first :: second :: rest) = (wordBytes unit, 1) := by
  have low := toNat_lowByte unit
  have high := toNat_highByte unit
  have lengths : ¬ first ≤ 0x7F ∧ first ≤ 0xDF := by
    simp only [UInt8.le_iff_toNat_le, UInt8.reduceToNat]
    omega
  have lower : first <<< 6 ||| (second &&& 0x3F) = lowByte unit := by
    rw [← UInt8.toNat_inj, low_toNat]
    omega
  have upper : first >>> 2 &&& 0x0F = highByte unit := by
    rw [← UInt8.toNat_inj, high2_toNat]
    omega
  simp only [cUtf8ToUnicode, byteAt, List.getD_cons_zero, List.getD_cons_succ,
    if_neg lengths.1, if_pos lengths.2, lower, upper, wordBytes]

theorem cUtf8ToUnicode_three {unit : UInt16} {first second third : UInt8}
    (lead : first.toNat = 224 + (highByte unit).toNat / 16)
    (middle : second.toNat = 128 + 4 * ((highByte unit).toNat % 16) + (lowByte unit).toNat / 64)
    (next : third.toNat = 128 + (lowByte unit).toNat % 64) (rest : List UInt8) :
    cUtf8ToUnicode (first :: second :: third :: rest) = (wordBytes unit, 2) := by
  have below := unit.toNat_lt
  have low := toNat_lowByte unit
  have high := toNat_highByte unit
  have lengths : ¬ first ≤ 0x7F ∧ ¬ first ≤ 0xDF ∧ first ≤ 0xEF := by
    simp only [UInt8.le_iff_toNat_le, UInt8.reduceToNat]
    omega
  have lower : second <<< 6 ||| (third &&& 0x3F) = lowByte unit := by
    rw [← UInt8.toNat_inj, low_toNat]
    omega
  have upper : first <<< 4 ||| (second >>> 2 &&& 0x0F) = highByte unit := by
    rw [← UInt8.toNat_inj, high3_toNat]
    omega
  simp only [cUtf8ToUnicode, byteAt, List.getD_cons_zero, List.getD_cons_succ, if_neg lengths.1,
    if_neg lengths.2.1, if_pos lengths.2.2, lower, upper, wordBytes]

/-- Reading back the bytes of a unit stores its two bytes, or only the lower one
where the upper one is zero. -/
theorem cUtf8ToUnicode_utf8Bytes (unit : UInt16) (rest : List UInt8) :
    ∃ bytes, cUtf8ToUnicode (utf8Bytes unit ++ rest) = (bytes, utf8Width unit - 1) ∧
      (bytes = wordBytes unit ∨ bytes = [lowByte unit] ∧ highByte unit = 0) := by
  have low := toNat_lowByte unit
  have high := toNat_highByte unit
  unfold utf8Bytes cUnicodeToUtf8 utf8Width
  simp only [UInt16.le_iff_toNat_le, UInt16.reduceToNat]
  by_cases ascii : unit.toNat ≤ 127
  · rw [if_pos ascii, if_pos ascii]
    have zero : highByte unit = 0 := by
      rw [← UInt8.toNat_inj, high]
      simp only [UInt8.reduceToNat]
      omega
    exact ⟨[lowByte unit], cUtf8ToUnicode_ascii (by omega) rest, .inr ⟨rfl, zero⟩⟩
  rw [if_neg ascii, if_neg ascii]
  have next := continuation_toNat (lowByte unit)
  by_cases two : unit.toNat ≤ 2047
  · rw [if_pos two, if_pos two]
    have lead := lead2_toNat (lowByte unit) (highByte unit) (by omega)
    exact ⟨wordBytes unit, cUtf8ToUnicode_two two lead next rest, .inl rfl⟩
  · rw [if_neg two, if_neg two]
    have lead := lead3_toNat (highByte unit)
    have middle := middle3_toNat (lowByte unit) (highByte unit)
    exact ⟨wordBytes unit, cUtf8ToUnicode_three lead middle next rest, .inl rfl⟩

def utf8Length : List UInt16 → Nat
  | [] => 0
  | unit :: rest => utf8Width unit + utf8Length rest

theorem encode_utf8_length (pszUnicode : List UInt16) :
    (encode utf8Bytes pszUnicode).length = utf8Length pszUnicode := by
  induction pszUnicode with
  | nil => rfl
  | cons unit rest ih =>
    rw [encode_cons, List.length_append, (cUnicodeToUtf8_width unit).1, ih, utf8Length]

theorem length_le_utf8Length (pszUnicode : List UInt16) :
    pszUnicode.length ≤ utf8Length pszUnicode := by
  induction pszUnicode with
  | nil => exact Nat.le_refl _
  | cons unit rest ih =>
    have positive := utf8Width_pos unit
    rw [List.length_cons, utf8Length]
    omega

variable {pszUnicode : List UInt16} {k : Nat}

theorem unicodeToUtf8Pass_unit {pszUtf8 : List UInt8} (bound : k < pszUnicode.length)
    (room : utf8Length pszUnicode ≤ pszUtf8.length) :
    unicodeToUtf8Pass pszUnicode
        { nUnicodeLen := k, nUtf8Len := place utf8Bytes pszUnicode k
          output := encode utf8Bytes (pszUnicode.take k) ++
            pszUtf8.drop (place utf8Bytes pszUnicode k) } =
      some (.again
        { nUnicodeLen := k + 1, nUtf8Len := place utf8Bytes pszUnicode (k + 1)
          output := encode utf8Bytes (pszUnicode.take (k + 1)) ++
            pszUtf8.drop (place utf8Bytes pszUnicode (k + 1)) }) := by
  rw [← encode_utf8_length] at room
  have width := cUnicodeToUtf8_width pszUnicode[k]
  have next := place_succ_le utf8Bytes bound
  have cells : pszUtf8.drop (place utf8Bytes pszUnicode k) =
      (pszUtf8.drop (place utf8Bytes pszUnicode k)).take (utf8Bytes pszUnicode[k]).length ++
        pszUtf8.drop (place utf8Bytes pszUnicode (k + 1)) := by
    rw [place_succ bound, ← List.drop_drop, List.take_append_drop]
  have stored : Overlay.put (encode utf8Bytes (pszUnicode.take k) ++
        pszUtf8.drop (place utf8Bytes pszUnicode k)).length
      (encode utf8Bytes (pszUnicode.take k) ++ pszUtf8.drop (place utf8Bytes pszUnicode k))
      (place utf8Bytes pszUnicode k) (utf8Bytes pszUnicode[k]) =
        some (encode utf8Bytes (pszUnicode.take (k + 1)) ++
          pszUtf8.drop (place utf8Bytes pszUnicode (k + 1))) := by
    rw [encode_take_succ bound, List.append_assoc, cells]
    refine Overlay.put_within ?_
    rw [List.length_take, List.length_drop]
    omega
  have advanced : place utf8Bytes pszUnicode k + (cUnicodeToUtf8 pszUnicode[k]).2 + 1 =
      place utf8Bytes pszUnicode (k + 1) := by
    rw [place_succ bound, width.1]
    omega
  simp only [unicodeToUtf8Pass, List.getElem?_eq_getElem bound, ← utf8Bytes.eq_def, stored,
    Option.bind_eq_bind, Option.bind_some, advanced]

/-- `UnicodeToUtf8` stores the codes of the units from the start of its buffer, keeps
the rest of it and returns their number. -/
theorem unicodeToUtf8_run {pszUtf8 : List UInt8} (room : utf8Length pszUnicode ≤ pszUtf8.length) :
    unicodeToUtf8 pszUnicode pszUtf8 = some (utf8Length pszUnicode,
      encode utf8Bytes pszUnicode ++ pszUtf8.drop (utf8Length pszUnicode)) := by
  have trace := Loop.run_trace
    (fun k => ({ nUnicodeLen := k, nUtf8Len := place utf8Bytes pszUnicode k
                 output := encode utf8Bytes (pszUnicode.take k) ++
                   pszUtf8.drop (place utf8Bytes pszUnicode k) } : Conversion))
    pszUnicode.length (fun k bound => unicodeToUtf8Pass_unit bound room) 1
  rw [Nat.add_comm] at trace
  refine trace.trans (Loop.run_leave ?_ 0)
  simp only [unicodeToUtf8Pass, List.getElem?_eq_none (Nat.le_refl _), place_length,
    List.take_length, encode_utf8_length]

theorem wordBytes_length (pszUnicode : List UInt16) :
    (encode wordBytes pszUnicode).length = 2 * pszUnicode.length := by
  induction pszUnicode with
  | nil => rfl
  | cons unit rest ih =>
    rw [encode_cons, List.length_append, ih, List.length_cons]
    simp only [wordBytes, List.length_cons, List.length_nil]
    omega

theorem utf8ToUnicodePass_unit {wide : Nat} (after : List UInt8) (bound : k < pszUnicode.length)
    (enough : pszUnicode.length ≤ wide) :
    utf8ToUnicodePass (encode utf8Bytes pszUnicode ++ after) (utf8Length pszUnicode)
        { nUnicodeLen := k, nUtf8Len := place utf8Bytes pszUnicode k
          output := encode wordBytes (pszUnicode.take k) ++ List.replicate (2 * (wide - k)) 0 } =
      some (.again
        { nUnicodeLen := k + 1, nUtf8Len := place utf8Bytes pszUnicode (k + 1)
          output := encode wordBytes (pszUnicode.take (k + 1)) ++
            List.replicate (2 * (wide - (k + 1))) 0 }) := by
  have width := cUnicodeToUtf8_width pszUnicode[k]
  have positive := utf8Width_pos pszUnicode[k]
  have next := place_succ_le utf8Bytes bound
  rw [encode_utf8_length] at next
  have more : place utf8Bytes pszUnicode k < utf8Length pszUnicode := by omega
  obtain ⟨bytes, read, whole⟩ := cUtf8ToUnicode_utf8Bytes pszUnicode[k]
    (encode utf8Bytes (pszUnicode.drop (k + 1)) ++ after)
  have start : (encode wordBytes (pszUnicode.take k)).length = 2 * k := by
    rw [wordBytes_length, List.length_take]
    omega
  have zeros : List.replicate (2 * (wide - k)) (0 : UInt8) =
      [0] ++ ([0] ++ List.replicate (2 * (wide - (k + 1))) 0) := by
    rw [show 2 * (wide - k) = 2 * (wide - (k + 1)) + 1 + 1 by omega, List.replicate_succ,
      List.replicate_succ]
    rfl
  have stored : Overlay.put (encode wordBytes (pszUnicode.take k) ++
        List.replicate (2 * (wide - k)) 0).length
      (encode wordBytes (pszUnicode.take k) ++ List.replicate (2 * (wide - k)) 0) (2 * k) bytes =
        some (encode wordBytes (pszUnicode.take (k + 1)) ++
          List.replicate (2 * (wide - (k + 1))) 0) := by
    rw [encode_take_succ bound, List.append_assoc, zeros, ← start]
    rcases whole with rfl | ⟨rfl, upper⟩
    · rw [← List.append_assoc [0]]
      exact Overlay.put_within rfl
    · rw [wordBytes, upper, ← List.singleton_append, List.append_assoc]
      exact Overlay.put_within rfl
  have advanced : place utf8Bytes pszUnicode k + (utf8Width pszUnicode[k] - 1) + 1 =
      place utf8Bytes pszUnicode (k + 1) := by
    rw [place_succ bound, width.1]
    omega
  simp only [utf8ToUnicodePass, if_pos more, drop_place_append bound, read, stored,
    Option.bind_eq_bind, Option.bind_some, advanced]

theorem utf8ToUnicode_run {wide : Nat} (after : List UInt8) (enough : pszUnicode.length ≤ wide) :
    utf8ToUnicode (encode utf8Bytes pszUnicode ++ after) (utf8Length pszUnicode)
        (List.replicate (2 * wide) 0) =
      some (pszUnicode.length, encode wordBytes pszUnicode ++
        List.replicate (2 * (wide - pszUnicode.length)) 0) := by
  have trace := Loop.run_trace
    (fun k => ({ nUnicodeLen := k, nUtf8Len := place utf8Bytes pszUnicode k
                 output := encode wordBytes (pszUnicode.take k) ++
                   List.replicate (2 * (wide - k)) 0 } : Conversion))
    pszUnicode.length (fun k bound => utf8ToUnicodePass_unit after bound enough)
    (utf8Length pszUnicode - pszUnicode.length + 1)
  have fewer := length_le_utf8Length pszUnicode
  rw [show utf8Length pszUnicode - pszUnicode.length + 1 + pszUnicode.length =
    utf8Length pszUnicode + 1 by omega] at trace
  refine trace.trans (Loop.run_leave ?_ _)
  simp only [utf8ToUnicodePass, place_length, encode_utf8_length, Nat.lt_irrefl, if_false,
    List.take_length]

/-- Into a buffer with room, `UnicodeToUtf8` stores one to three bytes for each unit and
returns their number; `Utf8ToUnicode` reads from them exactly the units, into a buffer of
zeros, and returns how many they are. -/
theorem utf8_roundTrip (pszUnicode : List UInt16) (pszUtf8 : List UInt8) (wide : Nat)
    (room : utf8Length pszUnicode ≤ pszUtf8.length) (enough : pszUnicode.length ≤ wide) :
    ∃ bytes : List UInt8, bytes.length = utf8Length pszUnicode ∧
      unicodeToUtf8 pszUnicode pszUtf8 =
        some (bytes.length, bytes ++ pszUtf8.drop bytes.length) ∧
      utf8ToUnicode (bytes ++ pszUtf8.drop bytes.length) bytes.length (List.replicate (2 * wide) 0) =
        some (pszUnicode.length, encode wordBytes pszUnicode ++
          List.replicate (2 * (wide - pszUnicode.length)) 0) := by
  have length := encode_utf8_length pszUnicode
  refine ⟨encode utf8Bytes pszUnicode, length, ?_, ?_⟩
  · rw [length]
    exact unicodeToUtf8_run room
  · rw [length]
    exact utf8ToUnicode_run _ enough

theorem utf8_roundTrip_classes :
    utf8Length [0x41, 0, 0x3A9, 0x4E2D, 0xD800] = 10 ∧
      ∃ bytes : List UInt8, bytes.length = 10 ∧
        unicodeToUtf8 [0x41, 0, 0x3A9, 0x4E2D, 0xD800] (List.replicate 16 0x2E) =
          some (bytes.length, bytes ++ (List.replicate 16 0x2E).drop bytes.length) ∧
        utf8ToUnicode (bytes ++ (List.replicate 16 0x2E).drop bytes.length) bytes.length
            (List.replicate (2 * 10) 0) =
          some (5, encode wordBytes [0x41, 0, 0x3A9, 0x4E2D, 0xD800] ++
            List.replicate (2 * (10 - 5)) 0) :=
  ⟨by decide, utf8_roundTrip [0x41, 0, 0x3A9, 0x4E2D, 0xD800] (List.replicate 16 0x2E) 10
    (by decide) (by decide)⟩

end IDAPlugins.CopyString
