import IDAPlugins.CopyString.Utf8

namespace IDAPlugins.CopyString

open Codes LittleEndian

/-! # Text

What the decoder makes of a text: its UTF-8 bytes are those of its characters, one
behind another, and so are its 16-bit units, two of them for a character above `U+FFFF`.
-/

def utf16Units (ch : Char) : List UInt16 :=
  if ch.toNat < 0x10000 then
    [UInt16.ofNat ch.toNat]
  else
    [UInt16.ofNat (0xD800 + (ch.toNat - 0x10000) / 0x400),
      UInt16.ofNat (0xDC00 + (ch.toNat - 0x10000) % 0x400)]

def utf8Text (text : List Char) : List UInt8 := encode String.utf8EncodeChar text

def utf16Text (text : List Char) : List UInt16 := encode utf16Units text

/-- Into a buffer of zeros with `wide` units the decoder writes exactly the units of the
text, and it returns their number. -/
def Decodes (text : List Char) (after : List UInt8) (wide : Nat) : Prop :=
  utf8ToUnicode (utf8Text text ++ after) (utf8Text text).length (List.replicate (2 * wide) 0) =
    some ((utf16Text text).length, encode wordBytes (utf16Text text) ++
      List.replicate (2 * (wide - (utf16Text text).length)) 0)

/-- How many bytes the decoder takes along with a lead byte. -/
def following (lead : UInt8) : Nat :=
  if lead ≤ 0x7F then 0 else if lead ≤ 0xDF then 1 else if lead ≤ 0xEF then 2
  else if lead ≤ 0xF7 then 3 else 0

theorem cUtf8ToUnicode_following (bytes : List UInt8) :
    (cUtf8ToUnicode bytes).2 = following (byteAt bytes 0) := by
  simp only [cUtf8ToUnicode, apply_ite Prod.snd, following]

theorem utf8ToUnicodePass_again {pszUtf8 : List UInt8} {nLen : Nat} {state next : Conversion}
    (pass : utf8ToUnicodePass pszUtf8 nLen state = some (.again next)) :
    state.nUtf8Len < nLen ∧ next.nUnicodeLen = state.nUnicodeLen + 1 ∧
      next.nUtf8Len = state.nUtf8Len + following (byteAt pszUtf8 state.nUtf8Len) + 1 ∧
      Overlay.put state.output.length state.output (2 * state.nUnicodeLen)
        (cUtf8ToUnicode (pszUtf8.drop state.nUtf8Len)).1 = some next.output := by
  have length := cUtf8ToUnicode_following (pszUtf8.drop state.nUtf8Len)
  rw [byteAt_drop, Nat.add_zero] at length
  rw [utf8ToUnicodePass] at pass
  by_cases more : state.nUtf8Len < nLen
  · rw [if_pos more] at pass
    obtain ⟨output, stored, pass⟩ := Option.bind_eq_some_iff.mp pass
    cases pass
    refine ⟨more, rfl, ?_, stored⟩
    rw [← length]
    rfl
  · rw [if_neg more] at pass
    cases pass

theorem utf8ToUnicodePass_leave {pszUtf8 output : List UInt8} {nLen nUnicodeLen : Nat}
    {state : Conversion} (pass : utf8ToUnicodePass pszUtf8 nLen state =
      some (.leave (nUnicodeLen, output))) :
    nLen ≤ state.nUtf8Len ∧ nUnicodeLen = state.nUnicodeLen ∧ output = state.output := by
  rw [utf8ToUnicodePass] at pass
  by_cases more : state.nUtf8Len < nLen
  · rw [if_pos more] at pass
    obtain ⟨output, stored, pass⟩ := Option.bind_eq_some_iff.mp pass
    cases pass
  · rw [if_neg more] at pass
    cases pass
    exact ⟨Nat.le_of_not_lt more, rfl, rfl⟩

variable {ch : Char} {text : List Char} {k : Nat}

theorem toNat_char_lt (ch : Char) : ch.val.toNat < 0x110000 := by
  rcases ch.valid with range | range
  · exact Nat.lt_trans range (by decide)
  · exact range.2

theorem toNat_ofNat_byte {value : Nat} (small : value < 256) : (UInt8.ofNat value).toNat = value :=
  UInt8.toNat_ofNat_of_lt' small

theorem following_utf8EncodeChar (ch : Char) (rest : List UInt8) :
    following (byteAt (String.utf8EncodeChar ch ++ rest) 0) + 1 = (String.utf8EncodeChar ch).length := by
  have range := toNat_char_lt ch
  unfold following String.utf8EncodeChar
  simp only [UInt8.le_iff_toNat_le, UInt8.reduceToNat]
  by_cases one : ch.val.toNat ≤ 0x7F
  · rw [if_pos one, List.cons_append, byteAt, List.getD_cons_zero, toNat_ofNat_byte (by omega), if_pos one]
    rfl
  rw [if_neg one]
  by_cases two : ch.val.toNat ≤ 0x7FF
  · rw [if_pos two, List.cons_append, byteAt, List.getD_cons_zero, toNat_ofNat_byte (by omega),
      if_neg (by omega), if_pos (by omega)]
    rfl
  rw [if_neg two]
  by_cases three : ch.val.toNat ≤ 0xFFFF
  · rw [if_pos three, List.cons_append, byteAt, List.getD_cons_zero, toNat_ofNat_byte (by omega),
      if_neg (by omega), if_neg (by omega), if_pos (by omega)]
    rfl
  · rw [if_neg three, List.cons_append, byteAt, List.getD_cons_zero, toNat_ofNat_byte (by omega),
      if_neg (by omega), if_neg (by omega), if_neg (by omega), if_pos (by omega)]
    rfl

theorem utf16Units_narrow (narrow : ch.toNat < 0x10000) : utf16Units ch = [UInt16.ofNat ch.toNat] :=
  if_pos narrow

/-- The UTF-8 bytes of such a character are those of its unit. -/
theorem utf8EncodeChar_narrow (narrow : ch.toNat < 0x10000) :
    String.utf8EncodeChar ch = utf8Bytes (UInt16.ofNat ch.toNat) := by
  have value : (UInt16.ofNat ch.val.toNat).toNat = ch.val.toNat := UInt16.toNat_ofNat_of_lt' narrow
  have low := toNat_lowByte (UInt16.ofNat ch.val.toNat)
  have high := toNat_highByte (UInt16.ofNat ch.val.toNat)
  have next := continuation_toNat (lowByte (UInt16.ofNat ch.val.toNat))
  rw [value] at low high
  change ch.val.toNat < 0x10000 at narrow
  change String.utf8EncodeChar ch = utf8Bytes (UInt16.ofNat ch.val.toNat)
  unfold utf8Bytes cUnicodeToUtf8 String.utf8EncodeChar
  simp only [UInt16.le_iff_toNat_le, value, UInt16.reduceToNat]
  by_cases one : ch.val.toNat ≤ 127
  · have single : UInt8.ofNat ch.val.toNat = lowByte (UInt16.ofNat ch.val.toNat) := by
      rw [← UInt8.toNat_inj, low, toNat_ofNat_byte (by omega)]
      omega
    rw [if_pos one, if_pos one, single]
  rw [if_neg one, if_neg one]
  have last : UInt8.ofNat (ch.val.toNat % 0x40 + 0x80) =
      (0x80 : UInt8) ||| (lowByte (UInt16.ofNat ch.val.toNat) &&& 0x3F) := by
    rw [← UInt8.toNat_inj, next, low, toNat_ofNat_byte (by omega)]
    omega
  by_cases two : ch.val.toNat ≤ 2047
  · have lead := lead2_toNat (lowByte (UInt16.ofNat ch.val.toNat))
      (highByte (UInt16.ofNat ch.val.toNat)) (by omega)
    have first : UInt8.ofNat (ch.val.toNat / 64 % 0x20 + 0xC0) =
        (0xC0 : UInt8) ||| highByte (UInt16.ofNat ch.val.toNat) <<< 2 |||
          lowByte (UInt16.ofNat ch.val.toNat) >>> 6 := by
      rw [← UInt8.toNat_inj, lead, high, low, toNat_ofNat_byte (by omega)]
      omega
    rw [if_pos two, if_pos two, first, last]
  · have lead := lead3_toNat (highByte (UInt16.ofNat ch.val.toNat))
    have middle := middle3_toNat (lowByte (UInt16.ofNat ch.val.toNat))
      (highByte (UInt16.ofNat ch.val.toNat))
    have first : UInt8.ofNat (ch.val.toNat / 4096 % 0x10 + 0xE0) =
        (0xE0 : UInt8) ||| highByte (UInt16.ofNat ch.val.toNat) >>> 4 := by
      rw [← UInt8.toNat_inj, lead, high, toNat_ofNat_byte (by omega)]
      omega
    have second : UInt8.ofNat (ch.val.toNat / 64 % 0x40 + 0x80) =
        (0x80 : UInt8) ||| (highByte (UInt16.ofNat ch.val.toNat) &&& 0x0F) <<< 2 |||
          lowByte (UInt16.ofNat ch.val.toNat) >>> 6 := by
      rw [← UInt8.toNat_inj, middle, high, low, toNat_ofNat_byte (by omega)]
      omega
    rw [if_neg two, if_neg two, if_pos (show ch.val.toNat ≤ 0xFFFF by omega), first, second, last]

/-- The unit of each character of a text without others. -/
def narrowUnits (text : List Char) : List UInt16 := text.map fun ch => UInt16.ofNat ch.toNat

theorem utf8Text_narrow (narrow : ∀ ch ∈ text, ch.toNat < 0x10000) :
    utf8Text text = encode utf8Bytes (narrowUnits text) := by
  induction text with
  | nil => rfl
  | cons ch rest ih =>
    rw [List.forall_mem_cons] at narrow
    rw [utf8Text, encode_cons, utf8EncodeChar_narrow narrow.1, ← utf8Text, ih narrow.2]
    rfl

theorem utf16Text_narrow (narrow : ∀ ch ∈ text, ch.toNat < 0x10000) :
    utf16Text text = narrowUnits text := by
  induction text with
  | nil => rfl
  | cons ch rest ih =>
    rw [List.forall_mem_cons] at narrow
    rw [utf16Text, encode_cons, utf16Units_narrow narrow.1, ← utf16Text, ih narrow.2]
    rfl

def paired (ch : Char) : Bool := decide (0x10000 ≤ ch.toNat)

theorem utf16Text_length (text : List Char) :
    (utf16Text text).length = text.length + text.countP paired := by
  induction text with
  | nil => rfl
  | cons ch rest ih =>
    rw [utf16Text, encode_cons, List.length_append, ← utf16Text, ih, List.length_cons,
      List.countP_cons, utf16Units, paired]
    by_cases narrow : ch.toNat < 0x10000
    · rw [if_pos narrow, if_neg (by simp [narrow]), List.length_singleton]
      omega
    · rw [if_neg narrow, if_pos (by simp at narrow; simp [narrow]), List.length_cons,
        List.length_singleton]
      omega

theorem utf8EncodeChar_pos (ch : Char) : 0 < (String.utf8EncodeChar ch).length := by
  rw [← following_utf8EncodeChar ch []]
  exact Nat.succ_pos _

theorem place_lt_utf8Text (bound : k < text.length) :
    place String.utf8EncodeChar text k < (utf8Text text).length := by
  have inside := place_succ_le String.utf8EncodeChar bound
  have positive := utf8EncodeChar_pos text[k]
  rw [utf8Text]
  omega

/-- Each pass takes the bytes of one character. -/
theorem utf8ToUnicodePass_char {after : List UInt8} {state next : Conversion}
    (bound : state.nUnicodeLen ≤ text.length)
    (reached : state.nUtf8Len = place String.utf8EncodeChar text state.nUnicodeLen)
    (pass : utf8ToUnicodePass (utf8Text text ++ after) (utf8Text text).length state =
      some (.again next)) :
    next.nUnicodeLen ≤ text.length ∧
      next.nUtf8Len = place String.utf8EncodeChar text next.nUnicodeLen := by
  obtain ⟨more, unit, taken, -⟩ := utf8ToUnicodePass_again pass
  have inside : state.nUnicodeLen < text.length := by
    by_contra beyond
    rw [reached, show state.nUnicodeLen = text.length by omega, place_length] at more
    exact Nat.lt_irrefl _ more
  have lead := following_utf8EncodeChar text[state.nUnicodeLen]
    (encode String.utf8EncodeChar (text.drop (state.nUnicodeLen + 1)) ++ after)
  rw [← drop_place_append inside, byteAt_drop, Nat.add_zero, ← utf8Text, ← reached] at lead
  rw [unit, place_succ inside, ← reached, ← lead]
  exact ⟨inside, taken⟩

theorem utf8ToUnicode_count {after pszUnicode output : List UInt8} {nUnicodeLen : Nat}
    (run : utf8ToUnicode (utf8Text text ++ after) (utf8Text text).length pszUnicode =
      some (nUnicodeLen, output)) : nUnicodeLen = text.length := by
  obtain ⟨last, inside, left⟩ := Loop.run_last
    (fun state => state.nUnicodeLen ≤ text.length ∧
      state.nUtf8Len = place String.utf8EncodeChar text state.nUnicodeLen)
    (fun state next inside pass => utf8ToUnicodePass_char inside.1 inside.2 pass)
    ⟨Nat.zero_le _, rfl⟩ run
  obtain ⟨bound, reached⟩ := inside
  obtain ⟨ended, same, -⟩ := utf8ToUnicodePass_leave left
  rw [same]
  by_contra other
  have before := place_lt_utf8Text (show last.nUnicodeLen < text.length by omega)
  omega

/-- The decoder gives the units of a text, and their number, exactly when no character of it is
above `U+FFFF`. -/
theorem decodes_iff (text : List Char) (after : List UInt8) (wide : Nat)
    (enough : (utf16Text text).length ≤ wide) :
    Decodes text after wide ↔ ∀ ch ∈ text, ch.toNat < 0x10000 := by
  constructor
  · intro decoded
    have count := utf8ToUnicode_count decoded
    rw [utf16Text_length] at count
    have none := List.countP_eq_zero.mp (show text.countP paired = 0 by omega)
    intro ch member
    have narrow := none ch member
    rw [paired, decide_eq_true_eq] at narrow
    exact Nat.lt_of_not_le narrow
  · intro narrow
    have units := utf16Text_narrow narrow
    rw [units] at enough
    rw [Decodes, utf8Text_narrow narrow, units, encode_utf8_length]
    exact utf8ToUnicode_run after enough

theorem decodes_classes :
    (utf16Text [Char.ofNat 0x41, Char.ofNat 0xE9, Char.ofNat 0x4E2D]).length ≤ 6 ∧
      Decodes [Char.ofNat 0x41, Char.ofNat 0xE9, Char.ofNat 0x4E2D] [0x80] 6 :=
  ⟨by decide, (decodes_iff [Char.ofNat 0x41, Char.ofNat 0xE9, Char.ofNat 0x4E2D] [0x80] 6
    (by decide)).mpr (List.forall_iff_forall_mem.mp (by decide))⟩

/-- The code point is stored as it is, its third byte into the next unit. -/
theorem decodes_fails :
    utf8Text [Char.ofNat 0x1F600] = [0xF0, 0x9F, 0x98, 0x80] ∧
      utf16Text [Char.ofNat 0x1F600] = [0xD83D, 0xDE00] ∧
      utf8ToUnicode [0xF0, 0x9F, 0x98, 0x80] 4 (List.replicate 8 0) =
        some (1, [0x00, 0xF6, 0x01, 0, 0, 0, 0, 0]) ∧
      ¬ Decodes [Char.ofNat 0x1F600] [] 4 := by
  have decoded : utf8ToUnicode [0xF0, 0x9F, 0x98, 0x80] 4 (List.replicate 8 0) =
      some (1, [0x00, 0xF6, 0x01, 0, 0, 0, 0, 0]) := by decide
  refine ⟨by decide, by decide, decoded, ?_⟩
  intro right
  exact absurd (decoded.symm.trans right) (by decide)

end IDAPlugins.CopyString
