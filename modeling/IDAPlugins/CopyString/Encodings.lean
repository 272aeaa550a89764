import IDAPlugins.CopyString.Reading

namespace IDAPlugins.CopyString

open Codes LittleEndian

/-! # One text in three encodings

`ReadString` gives GB text for a string of the database in UTF-8, in GB or in units of 16
bits. `GB2312ToUtf8` goes the other way, and `Utf8ToGB2312` back.
-/

/-- `none` is a store outside `wcBuf`, which has room for as many units as there are bytes, or
outside the buffer for the text in UTF-8. -/
def gb2312ToUtf8 (tables : CodeTables) (pszGb2312 : List UInt8) (nLen : Nat)
    (pszUtf8 : List UInt8) : Option (Nat × List UInt8) := do
  let wcBuf ← gb2132ToUnicode tables pszGb2312 nLen
  if wcBuf.length ≤ nLen then unicodeToUtf8 wcBuf pszUtf8 else none

/-- The units of a string, read from its start up to a zero behind them. -/
structure Holds {α : Type} (nul : α) (get : Nat → α) (units : List α) : Prop where
  read : ∀ i (inside : i < units.length), get i = units[i]
  ended : get units.length = nul
  clean : ∀ unit ∈ units, unit ≠ nul

/-- Characters for which the tables have a pair that is found both ways, and ASCII. -/
def CodeTables.Covers (tables : CodeTables) (text : List Char) : Prop :=
  ∀ ch ∈ text, ch.toNat < 0x10000 ∧ tables.Encodes (UInt16.ofNat ch.toNat) ∧
    Agreed (UInt16.ofNat ch.toNat)

/-- The GB text of a text. -/
def gbText (tables : CodeTables) (text : List Char) : List UInt8 :=
  encode (gbBytes tables) (narrowUnits text)

variable {tables : CodeTables} {units : List UInt16} {text : List Char}

theorem utf8ToUnicodePass_tail {pszUtf8 : List UInt8} {nLen : Nat} {state next : Conversion}
    (pass : utf8ToUnicodePass pszUtf8 nLen state = some (.again next)) (tail : List UInt8) :
    utf8ToUnicodePass pszUtf8 nLen { state with output := state.output ++ tail } =
      some (.again { next with output := next.output ++ tail }) := by
  rw [utf8ToUnicodePass] at pass ⊢
  by_cases more : state.nUtf8Len < nLen
  · rw [if_pos more] at pass ⊢
    generalize cUtf8ToUnicode (pszUtf8.drop state.nUtf8Len) = code at pass ⊢
    obtain ⟨bytes, nRet⟩ := code
    obtain ⟨output, stored, pass⟩ := Option.bind_eq_some_iff.mp pass
    cases pass
    have further := Overlay.put_append stored
      (show state.output.length ≤ (state.output ++ tail).length by
        rw [List.length_append]
        exact Nat.le_add_right _ _) tail
    simp only [further, Option.bind_eq_bind, Option.bind_some]
  · rw [if_neg more] at pass
    cases pass

/-- `Utf8ToUnicode` into a block that something follows. -/
theorem utf8ToUnicode_tail {wide : Nat} (after tail : List UInt8) (enough : units.length ≤ wide) :
    utf8ToUnicode (encode utf8Bytes units ++ after) (utf8Length units)
        (List.replicate (2 * wide) 0 ++ tail) =
      some (units.length, encode wordBytes units ++
        List.replicate (2 * (wide - units.length)) 0 ++ tail) := by
  have trace := Loop.run_trace
    (fun k => ({ nUnicodeLen := k, nUtf8Len := place utf8Bytes units k
                 output := encode wordBytes (units.take k) ++ List.replicate (2 * (wide - k)) 0 ++
                   tail } : Conversion))
    units.length
    (fun k bound => utf8ToUnicodePass_tail (utf8ToUnicodePass_unit after bound enough) tail)
    (utf8Length units - units.length + 1)
  have fewer := length_le_utf8Length units
  rw [show utf8Length units - units.length + 1 + units.length = utf8Length units + 1 by omega]
    at trace
  refine trace.trans (Loop.run_leave ?_ _)
  simp only [utf8ToUnicodePass, place_length, encode_utf8_length, Nat.lt_irrefl, if_false,
    List.take_length]

theorem place_wordBytes (k : Nat) (bound : k ≤ units.length) : place wordBytes units k = 2 * k := by
  rw [place, wordBytes_length, List.length_take, Nat.min_eq_left bound]

/-- The units lie in the block one after the other. -/
theorem unitsOf_wordBytes (after : List UInt8) :
    unitsOf (encode wordBytes units ++ after) units.length = units := by
  apply List.ext_getElem?
  intro k
  rw [unitsOf, List.getElem?_map]
  by_cases bound : k < units.length
  · have code : (encode wordBytes units ++ after).drop (place wordBytes units k) =
        wordBytes units[k] ++ (encode wordBytes (units.drop (k + 1)) ++ after) :=
      drop_place_append bound after
    rw [place_wordBytes k (Nat.le_of_lt bound)] at code
    rw [List.getElem?_range bound, Option.map_some, List.getElem?_eq_getElem bound,
      ← byteAt_drop _ (2 * k) 1, ← Nat.add_zero (2 * k), ← byteAt_drop _ (2 * k) 0, Nat.add_zero, code]
    exact congrArg some (ofBytes_bytes _)
  · rw [List.getElem?_eq_none (by rw [List.length_range]; exact Nat.le_of_not_lt bound),
      List.getElem?_eq_none (Nat.le_of_not_lt bound), Option.map_none]

/-- `Utf8ToGB2312` gives the GB text of units in UTF-8, whatever follows them in memory. -/
theorem utf8ToGB2312_run (units : List UInt16) (after : List UInt8) (behind : UInt8) :
    utf8ToGB2312 tables (encode utf8Bytes units ++ after) (utf8Length units) behind =
      some (encode (gbBytes tables) units) := by
  rw [utf8ToGB2312, utf8ToUnicode_tail after [behind] (length_le_utf8Length units)]
  simp only [Option.bind_eq_bind, Option.bind_some]
  rw [List.append_assoc, unitsOf_wordBytes, unicodeToGB2132_run]

/-- What the loop of each encoding reads. -/
theorem Holds.readUnits {α : Type} [DecidableEq α] {nul : α} {get : Nat → α} {stored : List α}
    (holds : Holds nul get stored) (short : stored.length < 0x1000) :
    readUnits nul get = some stored := by
  obtain ⟨read, ran, n, few, same, other, ended⟩ := readUnits_run nul get
  have ends : EndsAt nul get stored.length :=
    ⟨holds.ended, fun i inside => holds.read i inside ▸ holds.clean _ (List.getElem_mem inside)⟩
  have length := endsAt_unique ends other ended short few
  rw [ran, same, length]
  congr 1
  apply List.ext_getElem
  · rw [List.length_map, List.length_range]
  · intro i _ inside
    rw [List.getElem_map, List.getElem_range, holds.read i inside]

theorem CodeTables.Covers.narrow (covers : tables.Covers text) : ∀ ch ∈ text, ch.toNat < 0x10000 :=
  fun ch member => (covers ch member).1

theorem CodeTables.Covers.encodes (covers : tables.Covers text) :
    ∀ unit ∈ narrowUnits text, tables.Encodes unit ∧ Agreed unit := by
  intro unit member
  obtain ⟨ch, inside, rfl⟩ := List.mem_map.mp member
  exact (covers ch inside).2

theorem utf8Text_length (covers : tables.Covers text) :
    (utf8Text text).length = utf8Length (narrowUnits text) := by
  rw [utf8Text_narrow covers.narrow, encode_utf8_length]

theorem gbBytes_length_le {unit : UInt16} (agreed : Agreed unit) :
    (gbBytes tables unit).length ≤ utf8Width unit := by
  rw [gbBytes_length, utf8Width]
  have range : unit.toNat < 0x80 ∨ 0x100 ≤ unit.toNat := agreed
  simp only [UInt16.le_iff_toNat_le, UInt16.reduceToNat]
  split
  · rw [if_neg (by omega)]
    split <;> omega
  · rw [if_pos (by omega)]

/-- GB text takes no more bytes than UTF-8. -/
theorem gbText_length_le (covers : tables.Covers text) :
    (gbText tables text).length ≤ (utf8Text text).length := by
  rw [utf8Text_length covers, gbText]
  have agreed := fun unit member => (covers.encodes unit member).2
  generalize narrowUnits text = units at agreed
  induction units with
  | nil => exact Nat.le_refl 0
  | cons unit rest ih =>
    rw [List.forall_mem_cons] at agreed
    have first : (gbBytes tables unit).length ≤ utf8Width unit := gbBytes_length_le agreed.1
    have others := ih agreed.2
    rw [encode_cons, List.length_append, utf8Length]
    omega

theorem gbText_decoded (covers : tables.Covers text) (after : List UInt8) :
    gb2132ToUnicode tables (gbText tables text ++ after) (gbText tables text).length =
      some (narrowUnits text) := by
  obtain ⟨gb, encoded, decoded⟩ := roundTrips_of_agreed after
    (fun unit member => (covers.encodes unit member).1)
    (fun unit member => (covers.encodes unit member).2)
  rw [unicodeToGB2132_run, Option.some.injEq] at encoded
  subst encoded
  exact decoded

/-- A text of ASCII characters and characters of the tables gives the same GB text from each of
the three encodings, and that is read back as the text. -/
theorem readString_agrees {utf8 gb wide : Database} {inUtf8 inGb inWide : Nat} (heap : Heap)
    (covers : tables.Covers text) (short : (utf8Text text).length < 0x1000)
    (storedUtf8 : Holds 0 (fun i => utf8.get_byte (inUtf8 + i)) (utf8Text text))
    (storedGb : Holds 0 (fun i => gb.get_byte (inGb + i)) (gbText tables text))
    (storedWide : Holds 0 (fun i => wide.get_word (inWide + i * 2)) (utf16Text text)) :
    readString tables utf8 heap 0 inUtf8 = some (gbText tables text) ∧
      readString tables gb heap 1 inGb = some (gbText tables text) ∧
      readString tables wide heap 2 inWide = some (gbText tables text) ∧
      ∀ after, gb2132ToUnicode tables (gbText tables text ++ after) (gbText tables text).length =
        some (utf16Text text) := by
  have narrow := covers.narrow
  have units := utf16Text_narrow narrow
  have length := utf8Text_length covers
  have fewer := length_le_utf8Length (narrowUnits text)
  refine ⟨?_, ?_, ?_, fun after => ?_⟩
  · have nLen := strlen_blockOf short storedUtf8.clean heap.behindBytes
    have block : blockOf 0 (utf8Text text) heap.behindBytes =
        encode utf8Bytes (narrowUnits text) ++
          (List.replicate (0x1000 - (utf8Text text).length) 0 ++ heap.behindBytes) := by
      rw [blockOf, List.append_assoc, utf8Text_narrow narrow]
    simp only [readString, storedUtf8.readUnits short, nLen, Option.bind_eq_bind, Option.bind_some]
    rw [block, length]
    exact utf8ToGB2312_run _ _ _
  · exact storedGb.readUnits (Nat.lt_of_le_of_lt (gbText_length_le covers) short)
  · rw [units] at storedWide
    have few : (narrowUnits text).length < 0x1000 := by omega
    have nLen := strlen_blockOf few storedWide.clean heap.behindWords
    simp only [readString, storedWide.readUnits few, nLen, Option.bind_eq_bind, Option.bind_some]
    rw [blockOf, List.append_assoc, List.take_left, unicodeToGB2132_run]
    rfl
  · rw [units]
    exact gbText_decoded covers after

/-- "A。" at the start of a database, in each of the three encodings. -/
def fullStop : List Char := ['A', '。']

def fullStopUtf8 : Database where
  get_byte i := [0x41, 0xE3, 0x80, 0x82].getD i 0
  get_word _ := 0

def fullStopGb : Database where
  get_byte i := [0x41, 0xA1, 0xA3].getD i 0
  get_word _ := 0

def fullStopWide : Database where
  get_byte _ := 0
  get_word i := [0x41, 0, 0x3002, 0].getD i 0

theorem fullStop_covered : firstPairs.Covers fullStop := by
  intro ch member
  rcases List.mem_pair.mp member with rfl | rfl
  · exact ⟨by decide, .inl (by decide), by decide⟩
  · exact ⟨by decide, .inr ⟨0xA3A1, by decide, by decide, by decide⟩, by decide⟩

theorem readString_agrees_fullStop :
    readString firstPairs fullStopUtf8 (Heap.followedBy []) 0 0 = some (gbText firstPairs fullStop) ∧
      readString firstPairs fullStopGb (Heap.followedBy []) 1 0 = some (gbText firstPairs fullStop) ∧
      readString firstPairs fullStopWide (Heap.followedBy []) 2 0 =
        some (gbText firstPairs fullStop) ∧
      ∀ after, gb2132ToUnicode firstPairs (gbText firstPairs fullStop ++ after)
        (gbText firstPairs fullStop).length = some (utf16Text fullStop) :=
  readString_agrees (Heap.followedBy []) fullStop_covered (by decide)
    ⟨by decide, by decide, List.forall_iff_forall_mem.mp (by decide)⟩
    ⟨by decide, by decide, List.forall_iff_forall_mem.mp (by decide)⟩
    ⟨by decide, by decide, List.forall_iff_forall_mem.mp (by decide)⟩

/-- `wcBuf` is large enough. -/
theorem gb2132ToUnicode_le {gb : List UInt8} {len : Nat}
    (decoded : gb2132ToUnicode tables gb len = some units) : units.length ≤ len := by
  obtain ⟨last, ⟨-, kept⟩, left⟩ := Loop.run_last
    (fun state : Decoding => state.unicode.length ≤ state.i ∧ state.unicode.length ≤ len)
    (by
      intro state next ⟨lower, upper⟩ pass
      rw [gb2132ToUnicodePass] at pass
      split at pass
      · split at pass
        · cases pass
          simp only [List.length_append, List.length_singleton]
          omega
        · obtain ⟨unit, -, pass⟩ := Option.bind_eq_some_iff.mp pass
          cases pass
          simp only [List.length_append, List.length_singleton]
          omega
      · cases pass)
    (show ([] : List UInt16).length ≤ 0 ∧ ([] : List UInt16).length ≤ len from
      ⟨Nat.le_refl 0, Nat.zero_le len⟩) decoded
  rw [gb2132ToUnicodePass] at left
  split at left
  · split at left
    · cases left
    · obtain ⟨unit, -, left⟩ := Option.bind_eq_some_iff.mp left
      cases left
  · cases left
    exact kept

/-- With room for it, `GB2312ToUtf8` gives the text in UTF-8, from which `Utf8ToGB2312` gives
the GB text again, whatever follows them in memory. -/
theorem gb2312_utf8_roundTrip (covers : tables.Covers text) (pszUtf8 after : List UInt8)
    (room : (utf8Text text).length ≤ pszUtf8.length) (behind : UInt8) :
    ∃ output, gb2312ToUtf8 tables (gbText tables text ++ after) (gbText tables text).length pszUtf8 =
        some ((utf8Text text).length, output) ∧
      output = utf8Text text ++ pszUtf8.drop (utf8Text text).length ∧
      utf8ToGB2312 tables output (utf8Text text).length behind = some (gbText tables text) := by
  have length := utf8Text_length covers
  have text_eq := utf8Text_narrow covers.narrow
  rw [length] at room
  refine ⟨_, ?_, rfl, ?_⟩
  · have decoded := gbText_decoded covers after
    have enough := gb2132ToUnicode_le decoded
    rw [gb2312ToUtf8, decoded]
    simp only [Option.bind_eq_bind, Option.bind_some, if_pos enough]
    rw [unicodeToUtf8_run room, length, text_eq]
  · rw [length, text_eq]
    exact utf8ToGB2312_run _ _ _

theorem gb2312_utf8_roundTrip_fullStop : ∃ output,
    gb2312ToUtf8 firstPairs (gbText firstPairs fullStop ++ [0]) (gbText firstPairs fullStop).length
        (List.replicate 8 0) = some ((utf8Text fullStop).length, output) ∧
      output = utf8Text fullStop ++ (List.replicate 8 0).drop (utf8Text fullStop).length ∧
      utf8ToGB2312 firstPairs output (utf8Text fullStop).length 0 =
        some (gbText firstPairs fullStop) :=
  gb2312_utf8_roundTrip fullStop_covered (List.replicate 8 0) [0] (by decide) 0

end IDAPlugins.CopyString
