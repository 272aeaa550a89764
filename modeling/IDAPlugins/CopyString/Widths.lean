import IDAPlugins.CopyString.Gb2132
import IDAPlugins.CopyString.Within
import IDAPlugins.Machine

namespace IDAPlugins.CopyString

open LittleEndian Codes

/-! # The length of the GB text

`Utf8ToGB2312` goes over a buffer of 16-bit units, each of which takes one byte of GB
text or two. What it stores has at most one byte more than the string in UTF-8.
-/

def unitsOf (wcBuf : List UInt8) (wlen : Nat) : List UInt16 :=
  (List.range wlen).map fun k => ofBytes (byteAt wcBuf (2 * k)) (byteAt wcBuf (2 * k + 1))

def utf8ToGB2312 (tables : CodeTables) (pszUtf8 : List UInt8) (nLen : Nat) (behind : UInt8) :
    Option (List UInt8) := do
  let (wlen, wcBuf) ← utf8ToUnicode pszUtf8 nLen (List.replicate (2 * nLen) 0 ++ [behind])
  unicodeToGB2132 tables (unitsOf wcBuf wlen)

/-- The upper byte that a lead byte of two has for its unit. -/
def fourBits (byte : UInt8) : UInt8 := byte >>> 2 &&& 0x0F

/-- A lead byte that gives two bytes of GB text where the string ends behind it. -/
def doubles (lead : UInt8) : Bool :=
  following lead = 1 && fourBits lead ≠ 0 || following lead = 2 && lead ≠ 0xE0 || following lead = 3

/-- Every sequence gives as many bytes of GB text as it has, and the last one, of which
the string has only the lead byte, gives two. -/
def overfull : List UInt8 → Bool
  | [] => false
  | [lead] => doubles lead
  | lead :: second :: rest =>
    if following lead = 0 then overfull (second :: rest)
    else if following lead = 1 ∧ fourBits lead ≠ 0 then overfull rest
    else false

/-- The upper byte that a sequence stores, if it stores one. -/
def upper (bytes : List UInt8) : UInt8 := byteAt (cUtf8ToUnicode bytes).1 1

theorem upper_cases (bytes : List UInt8) :
    (following (byteAt bytes 0) = 0 → upper bytes = 0) ∧
      (following (byteAt bytes 0) = 1 → upper bytes = fourBits (byteAt bytes 0)) ∧
      (following (byteAt bytes 0) = 2 →
        upper bytes = byteAt bytes 0 <<< 4 ||| fourBits (byteAt bytes 1)) ∧
      (following (byteAt bytes 0) = 3 →
        upper bytes = byteAt bytes 1 <<< 4 ||| fourBits (byteAt bytes 2)) := by
  simp only [upper, cUtf8ToUnicode, following, fourBits]
  generalize byteAt bytes 0 = lead
  generalize byteAt bytes 1 = second
  generalize byteAt bytes 2 = third
  by_cases one : lead ≤ 0x7F
  · simp [one, byteAt]
  by_cases two : lead ≤ 0xDF
  · simp [one, two, byteAt]
  by_cases three : lead ≤ 0xEF
  · simp [one, two, three, byteAt]
  by_cases four : lead ≤ 0xF7
  · simp [one, two, three, four, byteAt]
  · simp [one, two, three, four, byteAt]

theorem following_le (lead : UInt8) : following lead ≤ 3 := by
  unfold following
  split
  · decide
  split
  · decide
  split
  · decide
  split
  · decide
  · decide

/-- The bytes of GB text for a unit by its upper byte. -/
def gbWidth (high : UInt8) : Nat := if high = 0 then 1 else 2

theorem gbWidth_le (high : UInt8) : 1 ≤ gbWidth high ∧ gbWidth high ≤ 2 := by
  unfold gbWidth
  split
  · decide
  · decide

theorem gbWidth_eq_two {high : UInt8} : gbWidth high = 2 ↔ high ≠ 0 := by
  unfold gbWidth
  split
  · simp [*]
  · simp [*]

theorem gbWidth_upper_le (bytes : List UInt8) :
    gbWidth (upper bytes) ≤ following (byteAt bytes 0) + 1 := by
  have few := (gbWidth_le (upper bytes)).2
  by_cases alone : following (byteAt bytes 0) = 0
  · rw [(upper_cases bytes).1 alone, alone]
    decide
  · omega

theorem shiftLeft_four (lead : UInt8) :
    following lead = 2 → (lead <<< 4 ||| fourBits 0 = 0 ↔ lead = 0xE0) := by
  revert lead
  exact Machine.forall_byte (by decide +kernel)

/-- Where the string ends behind a lead byte, this byte gives two bytes only if it
doubles, and it does so if the byte after the zero has one of the four bits. -/
theorem gbWidth_alone (bytes : List UInt8) (ended : byteAt bytes 1 = 0) :
    (gbWidth (upper bytes) = 2 → doubles (byteAt bytes 0) = true) ∧
      (fourBits (byteAt bytes 2) ≠ 0 → doubles (byteAt bytes 0) = true → gbWidth (upper bytes) = 2) := by
  have shape := upper_cases bytes
  have four := following_le (byteAt bytes 0)
  rw [ended] at shape
  obtain ⟨none, one, two, three⟩ := shape
  rw [gbWidth_eq_two, doubles]
  obtain alone | pair | triple | all : following (byteAt bytes 0) = 0 ∨ following (byteAt bytes 0) = 1 ∨
      following (byteAt bytes 0) = 2 ∨ following (byteAt bytes 0) = 3 := by omega
  · rw [none alone]
    simp [alone]
  · rw [one pair]
    simp [pair]
  · rw [two triple, Ne, shiftLeft_four _ triple]
    simp [triple]
  · rw [three all]
    simp [all]

theorem overfull_whole (bytes rest : List UInt8)
    (whole : following (byteAt bytes 0) ≤ rest.length) :
    overfull (byteAt bytes 0 :: rest) = true ↔
      gbWidth (upper bytes) = following (byteAt bytes 0) + 1 ∧
        overfull (rest.drop (following (byteAt bytes 0))) = true := by
  have four := following_le (byteAt bytes 0)
  have few := (gbWidth_le (upper bytes)).2
  obtain ⟨none, one, -⟩ := upper_cases bytes
  cases rest with
  | nil =>
    have alone : following (byteAt bytes 0) = 0 := Nat.le_zero.mp whole
    simp [overfull, doubles, alone]
  | cons second rest =>
    obtain alone | pair | more : following (byteAt bytes 0) = 0 ∨ following (byteAt bytes 0) = 1 ∨
        2 ≤ following (byteAt bytes 0) := by omega
    · simp [overfull, alone, none alone, gbWidth]
    · have two : gbWidth (upper bytes) = 2 ↔ upper bytes ≠ 0 := gbWidth_eq_two
      rw [one pair] at two ⊢
      simp [overfull, pair, two]
    · rw [overfull, if_neg (by omega), if_neg (by omega)]
      exact iff_of_false Bool.false_ne_true fun both => by omega

theorem overfull_cut (lead : UInt8) (rest : List UInt8) (cut : rest.length < following lead) :
    overfull (lead :: rest) = true ↔ rest = [] ∧ doubles lead = true := by
  cases rest with
  | nil => simp [overfull]
  | cons second rest =>
    rw [List.length_cons] at cut
    rw [overfull, if_neg (by omega), if_neg (by omega)]
    exact iff_of_false Bool.false_ne_true fun both => absurd both.1 (List.cons_ne_nil _ _)

/-- The buffer of `wcBuf`, with the byte behind it, as the loop has filled it. -/
structure Filled (nLen : Nat) (state : Conversion) : Prop where
  behind : state.nUnicodeLen ≤ state.nUtf8Len
  size : state.output.length = 2 * nLen + 1
  clear : ∀ i, 2 * state.nUnicodeLen < i → i < 2 * nLen → byteAt state.output i = 0

/-- The length of the GB text for the first `wlen` units. -/
def gbLength (wcBuf : List UInt8) : Nat → Nat
  | 0 => 0
  | wlen + 1 => gbLength wcBuf wlen + gbWidth (byteAt wcBuf (2 * wlen + 1))

theorem gbLength_congr {first second : List UInt8} {wlen : Nat}
    (same : ∀ i < 2 * wlen, byteAt second i = byteAt first i) :
    gbLength second wlen = gbLength first wlen := by
  induction wlen with
  | zero => rfl
  | succ wlen ih =>
    have earlier := ih fun i before => same i (by omega)
    simp only [gbLength, earlier, same (2 * wlen + 1) (by omega)]

theorem cUtf8ToUnicode_three_bytes (bytes : List UInt8) : (cUtf8ToUnicode bytes).1.length ≤ 3 := by
  simp only [cUtf8ToUnicode]
  split
  · exact Nat.le_add_left 1 2
  split
  · exact Nat.le_add_left 2 1
  split
  · exact Nat.le_add_left 2 1
  split
  · exact Nat.le_refl 3
  · exact Nat.zero_le 3

/-- A pass stores one more unit, and what it adds to the text. -/
theorem utf8ToUnicodePass_fills (memory : List UInt8) {nLen : Nat} {state : Conversion}
    (filled : Filled nLen state) (more : state.nUtf8Len < nLen) :
    ∃ next, utf8ToUnicodePass memory nLen state = some (.again next) ∧ Filled nLen next ∧
      next.nUnicodeLen = state.nUnicodeLen + 1 ∧
      next.nUtf8Len = state.nUtf8Len + following (byteAt memory state.nUtf8Len) + 1 ∧
      gbLength next.output next.nUnicodeLen = gbLength state.output state.nUnicodeLen +
        gbWidth (upper (memory.drop state.nUtf8Len)) := by
  have behind := filled.behind
  have size := filled.size
  have three := cUtf8ToUnicode_three_bytes (memory.drop state.nUtf8Len)
  have room : (Overlay.put state.output.length state.output (2 * state.nUnicodeLen)
      (cUtf8ToUnicode (memory.drop state.nUtf8Len)).1).isSome := by
    rw [Overlay.put_isSome_iff]
    intro k lower upper
    omega
  obtain ⟨output, stored⟩ := Option.isSome_iff_exists.mp room
  have outside (i : Nat) (other : i < 2 * state.nUnicodeLen ∨
      2 * state.nUnicodeLen + (cUtf8ToUnicode (memory.drop state.nUtf8Len)).1.length ≤ i) :
      byteAt output i = byteAt state.output i := by
    rw [byteAt, byteAt, List.getD_eq_getElem?_getD, List.getD_eq_getElem?_getD,
      Overlay.put_outside stored (by omega)]
  have read := cUtf8ToUnicode_following (memory.drop state.nUtf8Len)
  rw [byteAt_drop, Nat.add_zero] at read
  refine ⟨{ nUnicodeLen := state.nUnicodeLen + 1,
            nUtf8Len := state.nUtf8Len + following (byteAt memory state.nUtf8Len) + 1, output },
    ?_, ⟨?_, ?_, ?_⟩, rfl, rfl, ?_⟩
  · rw [utf8ToUnicodePass, if_pos more]
    simp only [stored, read, Option.bind_eq_bind, Option.bind_some]
  · simp only
    omega
  · exact (Overlay.put_length stored).trans size
  · intro i lower upper
    simp only at lower ⊢
    rw [outside i (by omega)]
    exact filled.clear i (by omega) upper
  · have last : byteAt output (2 * state.nUnicodeLen + 1) = upper (memory.drop state.nUtf8Len) := by
      by_cases stores : 1 < (cUtf8ToUnicode (memory.drop state.nUtf8Len)).1.length
      · rw [byteAt, List.getD_eq_getElem?_getD, Overlay.put_inside stored stores,
          ← List.getD_eq_getElem?_getD]
        rfl
      · rw [outside _ (by omega), filled.clear _ (by omega) (by omega), upper, byteAt,
          List.getD_eq_getElem?_getD, List.getElem?_eq_none (by omega)]
        rfl
    simp only
    rw [gbLength, last, gbLength_congr fun i before => outside i (.inl before)]

theorem le_gbLength (wcBuf : List UInt8) (wlen : Nat) : wlen ≤ gbLength wcBuf wlen := by
  induction wlen with
  | zero => exact Nat.le_refl _
  | succ wlen ih =>
    have one := (gbWidth_le (byteAt wcBuf (2 * wlen + 1))).1
    rw [gbLength]
    omega

/-- The text so far against the bytes it was made from, also where the loop has gone
behind the string in the end. -/
def Accounted (memory : List UInt8) (nLen m length : Nat) : Prop :=
  (m ≤ nLen ∧ length ≤ m ∧ (overfull (memory.take nLen) = true ↔
    length = m ∧ overfull ((memory.take nLen).drop m) = true)) ∨
  (nLen < m ∧ length ≤ nLen + 1 ∧ (overfull (memory.take nLen) = false → length ≤ nLen) ∧
    (fourBits (byteAt memory (nLen + 1)) ≠ 0 → overfull (memory.take nLen) = true →
      length = nLen + 1))

theorem drop_take_cons {memory : List UInt8} {nLen m : Nat} (inMemory : nLen ≤ memory.length)
    (more : m < nLen) :
    (memory.take nLen).drop m = byteAt memory m :: (memory.take nLen).drop (m + 1) := by
  have size : (memory.take nLen).length = nLen := List.length_take_of_le inMemory
  rw [List.drop_eq_getElem_cons (by omega), List.getElem_take, byteAt, List.getD_eq_getElem?_getD,
    List.getElem?_eq_getElem (by omega), Option.getD_some]

theorem accounted_step {memory : List UInt8} {nLen m length : Nat} (inMemory : nLen ≤ memory.length)
    (ended : byteAt memory nLen = 0) (more : m < nLen) (accounted : Accounted memory nLen m length) :
    Accounted memory nLen (m + following (byteAt memory m) + 1)
      (length + gbWidth (upper (memory.drop m))) := by
  have two := (gbWidth_le (upper (memory.drop m))).2
  have fits := gbWidth_upper_le (memory.drop m)
  have lead : byteAt (memory.drop m) 0 = byteAt memory m := by rw [byteAt_drop, Nat.add_zero]
  have size : (memory.take nLen).length = nLen := List.length_take_of_le inMemory
  have here := drop_take_cons inMemory more
  have left : ((memory.take nLen).drop (m + 1)).length = nLen - (m + 1) := by
    rw [List.length_drop, size]
  obtain ⟨-, few, same⟩ := accounted.resolve_right fun beyond => by omega
  rw [here] at same
  rw [lead] at fits
  by_cases whole : following (byteAt memory m) ≤ nLen - (m + 1)
  · refine .inl ⟨by omega, by omega, ?_⟩
    have step := overfull_whole (memory.drop m) ((memory.take nLen).drop (m + 1))
      (by rw [lead, left]; exact whole)
    rw [lead] at step
    rw [List.drop_drop, show m + 1 + following (byteAt memory m) =
      m + following (byteAt memory m) + 1 by omega] at step
    rw [same, step]
    constructor
    · intro all
      exact ⟨by omega, all.2.2⟩
    · intro all
      exact ⟨by omega, by omega, all.2⟩
  · refine .inr ⟨by omega, by omega, ?_⟩
    have step := overfull_cut (byteAt memory m) ((memory.take nLen).drop (m + 1))
      (by rw [left]; omega)
    rw [same, step, ← Bool.not_eq_true, same, step]
    by_cases last : m + 1 = nLen
    · have nothing : (memory.take nLen).drop (m + 1) = [] := List.drop_eq_nil_of_le (by omega)
      have alone := gbWidth_alone (memory.drop m) (by rw [byteAt_drop, last]; exact ended)
      rw [lead, byteAt_drop, show m + 2 = nLen + 1 by omega] at alone
      constructor
      · intro other
        by_contra above
        exact other ⟨by omega, nothing, alone.1 (by omega)⟩
      · intro beyond all
        have pair := alone.2 beyond all.2.2
        omega
    · have something : (memory.take nLen).drop (m + 1) ≠ [] := by
        intro nothing
        rw [nothing, List.length_nil] at left
        omega
      exact ⟨fun _ => by omega, fun _ all => absurd all.2.1 something⟩

/-- The GB text of the units has one byte more than the string in UTF-8 if the string is
overfull, and otherwise no more than it. -/
def Converted (memory : List UInt8) (nLen : Nat) (result : Nat × List UInt8) : Prop :=
  nLen ≤ 4 * result.1 ∧ gbLength result.2 result.1 ≤ nLen + 1 ∧
    (overfull (memory.take nLen) = false → gbLength result.2 result.1 ≤ nLen) ∧
    (fourBits (byteAt memory (nLen + 1)) ≠ 0 → overfull (memory.take nLen) = true →
      gbLength result.2 result.1 = nLen + 1)

theorem utf8ToUnicode_converted {memory : List UInt8} {nLen : Nat} (inMemory : nLen ≤ memory.length)
    (ended : byteAt memory nLen = 0) (behind : UInt8) :
    ∃ result, utf8ToUnicode memory nLen (List.replicate (2 * nLen) 0 ++ [behind]) = some result ∧
      Converted memory nLen result := by
  have sound : Loop.Sound (utf8ToUnicodePass memory nLen)
      (fun state => Filled nLen state ∧ state.nUtf8Len ≤ 4 * state.nUnicodeLen ∧
        Accounted memory nLen state.nUtf8Len (gbLength state.output state.nUnicodeLen))
      (fun state => nLen - state.nUtf8Len) (Converted memory nLen) := by
    intro state inside
    obtain ⟨filled, reach, accounted⟩ := inside
    by_cases more : state.nUtf8Len < nLen
    · obtain ⟨next, passed, filled, unit, taken, text⟩ := utf8ToUnicodePass_fills memory filled more
      have three := following_le (byteAt memory state.nUtf8Len)
      refine .inl ⟨next, passed, ⟨filled, by omega, ?_⟩, by simp only; omega⟩
      rw [text, taken]
      exact accounted_step inMemory ended more accounted
    · refine .inr ⟨_, if_neg more, by simp only; omega, ?_⟩
      rcases accounted with ⟨few, short, same⟩ | ⟨-, beyond⟩
      · rw [List.drop_eq_nil_of_le (by rw [List.length_take]; omega)] at same
        have plain : ¬ overfull (memory.take nLen) = true := fun full =>
          Bool.false_ne_true (same.mp full).2
        have less := Nat.le_trans short few
        exact ⟨Nat.le_succ_of_le less, fun _ => less, fun _ full => absurd full plain⟩
      · exact beyond
  have start : Filled nLen
      { nUnicodeLen := 0, nUtf8Len := 0, output := List.replicate (2 * nLen) 0 ++ [behind] } := by
    refine ⟨Nat.le_refl 0, by simp, ?_⟩
    intro i lower upper
    simp only
    rw [byteAt, List.getD_eq_getElem?_getD, List.getElem?_append_left (by simpa using upper),
      List.getElem?_replicate_of_lt upper, Option.getD_some]
  exact Loop.run_total sound
    ⟨start, Nat.zero_le _, .inl ⟨Nat.zero_le _, Nat.le_refl _, by simp [gbLength]⟩⟩ (by simp)

theorem gbBytes_length (tables : CodeTables) (unit : UInt16) :
    (gbBytes tables unit).length = if 0x100 ≤ unit then 2 else 1 := by
  obtain ⟨g, found, -⟩ := getgb_ends tables unit
  by_cases wide : 0x100 ≤ unit
  · rw [gbBytes_wide (UInt16.not_lt.mpr wide) found, if_pos wide]
    rfl
  · rw [gbBytes_narrow (UInt16.not_le.mp wide), if_neg wide]
    rfl

theorem unicodeToGB2132_length (tables : CodeTables) (units : List UInt16) :
    ∃ stored, unicodeToGB2132 tables units = some stored ∧
      stored.length = units.length + units.countP (0x100 ≤ ·) := by
  refine ⟨_, unicodeToGB2132_run tables units, ?_⟩
  induction units with
  | nil => rfl
  | cons unit rest ih =>
    rw [encode_cons, List.length_append, ih, List.length_cons, List.countP_cons, gbBytes_length]
    simp only [decide_eq_true_eq]
    split
    · omega
    · omega

theorem gbWidth_high (low high : UInt8) :
    gbWidth high = if 0x100 ≤ ofBytes low high then 2 else 1 := by
  have below := low.toNat_lt
  have zero : high = 0 ↔ high.toNat = 0 := by rw [← UInt8.toNat_inj, UInt8.toNat_zero]
  unfold gbWidth
  simp only [UInt16.le_iff_toNat_le, toNat_ofBytes, UInt16.reduceToNat, zero]
  split
  · rw [if_neg (by omega)]
  · rw [if_pos (by omega)]

theorem unitsOf_length (wcBuf : List UInt8) (wlen : Nat) :
    (unitsOf wcBuf wlen).length + (unitsOf wcBuf wlen).countP (0x100 ≤ ·) = gbLength wcBuf wlen := by
  induction wlen with
  | zero => rfl
  | succ wlen ih =>
    rw [gbLength, ← ih, unitsOf, List.range_succ, List.map_append, List.length_append,
      List.countP_append, ← unitsOf, gbWidth_high (byteAt wcBuf (2 * wlen))]
    simp only [List.map_cons, List.map_nil, List.length_singleton, List.countP_singleton,
      decide_eq_true_eq]
    split
    · omega
    · omega

theorem utf8ToGB2312_length (tables : CodeTables) (memory : List UInt8) (nLen : Nat)
    (inMemory : nLen ≤ memory.length) (ended : byteAt memory nLen = 0) (behind : UInt8) :
    ∃ stored, utf8ToGB2312 tables memory nLen behind = some stored ∧ nLen ≤ 4 * stored.length ∧
      stored.length ≤ nLen + 1 ∧ (overfull (memory.take nLen) = false → stored.length ≤ nLen) ∧
      (fourBits (byteAt memory (nLen + 1)) ≠ 0 → overfull (memory.take nLen) = true →
        stored.length = nLen + 1) := by
  obtain ⟨result, decoded, many, few, text⟩ := utf8ToUnicode_converted inMemory ended behind
  obtain ⟨wlen, wcBuf⟩ := result
  simp only at many few text
  obtain ⟨stored, encoded, length⟩ := unicodeToGB2132_length tables (unitsOf wcBuf wlen)
  have more := le_gbLength wcBuf wlen
  rw [unitsOf_length] at length
  rw [← length] at few text more
  refine ⟨stored, ?_, by omega, few, text⟩
  rw [utf8ToGB2312, decoded]
  exact encoded

end IDAPlugins.CopyString
