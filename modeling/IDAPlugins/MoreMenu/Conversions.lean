import IDAPlugins.MoreMenu.Decimal
import IDAPlugins.MoreMenu.Hexadecimal
import Mathlib.Data.Nat.Digits.Lemmas

namespace IDAPlugins.MoreMenu.CalcDlg

open HexText SignedDivision

/-! # The conversions of the calculator

Beside its panels the calculator shows the codes of the characters of a text and their sum,
a decimal number in hexadecimal, and a hexadecimal number in decimal.
-/

/-- `IDC_TEXT_ASCII`, `IDC_TEXT_SUMDEC` and `IDC_TEXT_SUMHEX` -/
structure TextBoxes where
  ascii : List UInt8
  sumDec : List UInt8
  sumHex : List UInt8

structure Codes where
  szRetBuf : List UInt8
  nRet : BitVec 32

/-- `%x` of a `char` and a comma. `none` is a store behind the five bytes of `szTemp`. -/
def szTemp (ch : UInt8) : Option (List UInt8) :=
  let text := wsprintfLx (charCode ch) ++ [0x2C]
  if text.length < 5 then some text else none

/-- One pass of the loop. `szRetBuf` has 512 bytes. -/
def addCode (codes : Codes) (ch : UInt8) : Option Codes := do
  let text ← szTemp ch
  if (codes.szRetBuf ++ text).length < 512 then
    some { szRetBuf := codes.szRetBuf ++ text, nRet := codes.nRet + charCode ch }
  else none

def jzzhTextZH (typed : List UInt8) : Option TextBoxes := do
  let codes ← (typed.take 19).foldlM addCode { szRetBuf := [], nRet := 0 }
  some
    { ascii := codes.szRetBuf
      sumDec := wsprintfLd codes.nRet
      sumHex := hexCharUpper (wsprintfLx codes.nRet) }

/-- `number` is what was typed. -/
def jzzhDecToHex (number : Int) : List UInt8 :=
  hexCharUpper (wsprintfLx (low (widen (BitVec.ofInt 32 number))))

def jzzhHexToDec (typed : List UInt8) : List UInt8 :=
  wsprintfLd (hexToDec (hexCharUpper (typed.take 19)))

/-- The characters whose codes stand in front of commas. `word` was read before. -/
def readCodes (word : List UInt8) : List UInt8 → List UInt8
  | [] => []
  | ch :: rest =>
    if ch = 0x2C then UInt8.ofNat (hexNumber word) :: readCodes [] rest
    else readCodes (word ++ [ch]) rest

def readDigits (text : List UInt8) : Nat :=
  text.foldl (fun value ch => value * 10 + (ch.toNat - 0x30)) 0

/-- The number that a text with or without a minus sign stands for. -/
def readDecimal : List UInt8 → Int
  | 0x2d :: rest => -(readDigits rest : Int)
  | text => readDigits text

def sumCodes (text : List UInt8) : Nat := (text.map UInt8.toNat).sum

variable {text : List UInt8} {ch : UInt8} {value : Nat}

/-- The number of a row of digits that were written from the last one on. -/
theorem foldl_digits {base : Nat} (read : UInt8 → Nat) (write : Nat → UInt8)
    (same : ∀ d < base, read (write d) = d) (large : 1 < base) (value : Nat) :
    ((Nat.digits base value).reverse.map write).foldl (fun value ch => value * base + read ch) 0 =
      value := by
  have digits (row : List Nat) (small : ∀ d ∈ row, d < base) :
      (row.reverse.map write).foldl (fun value ch => value * base + read ch) 0 =
        Nat.ofDigits base row := by
    induction row with
    | nil => rfl
    | cons d row ih =>
      obtain ⟨first, small⟩ := List.forall_mem_cons.mp small
      rw [List.reverse_cons, List.map_append, List.foldl_append, ih small, List.map_singleton,
        List.foldl_cons, List.foldl_nil, same d first, Nat.ofDigits_cons, Nat.mul_comm, Nat.add_comm]
  rw [digits _ fun d member => Nat.digits_lt_base large member, Nat.ofDigits_digits]

theorem hexValue_lowerChar {digit : Nat} (small : digit < 16) : hexValue (lowerChar digit) = digit := by
  have all : ∀ d ∈ List.range 16, hexValue (lowerChar d) = d := by decide
  exact all digit (List.mem_range.mpr small)

theorem hexNumber_wsprintfLx (number : BitVec 32) : hexNumber (wsprintfLx number) = number.toNat := by
  have digits := foldl_digits hexValue lowerChar (fun _ => hexValue_lowerChar) (by decide) number.toNat
  rw [hexNumber, wsprintfLx, List.foldl_append]
  generalize 1 - _ = zeros
  have filled : (List.replicate zeros 0x30).foldl (fun value ch => value * 16 + hexValue ch) 0 = 0 := by
    induction zeros with
    | zero => rfl
    | succ zeros ih => exact ih
  rw [filled]
  exact digits

theorem readDigits_decimalText (value : Nat) : readDigits (decimalText value) = value := by
  have digits := @foldl_digits 10 (fun ch => ch.toNat - 0x30) (fun digit => UInt8.ofNat (0x30 + digit))
    (by
      intro digit small
      rw [UInt8.toNat_ofNat']
      omega) (by decide) value
  rw [readDigits, decimalText, List.foldl_append]
  generalize 1 - _ = zeros
  have filled : (List.replicate zeros (0x30 : UInt8)).foldl
      (fun value ch => value * 10 + (ch.toNat - 0x30)) 0 = 0 := by
    induction zeros with
    | zero => rfl
    | succ zeros ih => exact ih
  rw [filled]
  exact digits

/-- A text of digits does not start with a minus sign. -/
theorem readDecimal_decimalText (value : Nat) : readDecimal (decimalText value) = value := by
  have plain : ∀ ch ∈ decimalText value, ch ≠ 0x2d := by
    intro ch member
    rcases List.mem_append.mp member with zero | digit
    · rw [List.eq_of_mem_replicate zero]
      decide
    · obtain ⟨d, inside, rfl⟩ := List.mem_map.mp digit
      have small := Nat.digits_lt_base (by decide) (List.mem_reverse.mp inside)
      rw [Ne, ← UInt8.toNat_inj, UInt8.toNat_ofNat']
      simp only [UInt8.reduceToNat]
      omega
  have number := readDigits_decimalText value
  generalize decimalText value = text at plain number
  rw [← number]
  cases text with
  | nil => rfl
  | cons ch rest =>
    have other := plain ch List.mem_cons_self
    unfold readDecimal
    split
    · rename_i same
      exact absurd (List.cons.inj same).1 other
    · rfl

theorem readDecimal_wsprintfLd (number : BitVec 32) : readDecimal (wsprintfLd number) = number.toInt := by
  rw [wsprintfLd]
  split
  · rename_i negative
    rw [readDecimal, readDigits_decimalText]
    omega
  · rename_i positive
    rw [readDecimal_decimalText]
    exact (BitVec.toInt_eq_toNat_of_lt (by
      have cases := BitVec.toInt_eq_toNat_cond number
      split at cases <;> omega)).symm

theorem charCode_range : ∀ ch : UInt8,
    if ch < 0x80 then (charCode ch).toNat = ch.toNat else 4096 ≤ (charCode ch).toNat :=
  Machine.forall_byte (by decide +kernel)

theorem charCode_ascii (ascii : ch < 0x80) : (charCode ch).toNat = ch.toNat := by
  have range := charCode_range ch
  rwa [if_pos ascii] at range

theorem wsprintfLx_length_le_iff (number : BitVec 32) {width : Nat} (positive : 0 < width) :
    (wsprintfLx number).length ≤ width ↔ number.toNat < 16 ^ width := by
  rw [← @Nat.digits_length_le_iff 16 width (by decide) number.toNat, wsprintfLx, List.length_append,
    List.length_replicate, List.length_map, List.length_reverse]
  omega

/-- The code of an ASCII character has at most two digits, that of another one eight. -/
theorem szTemp_eq (ch : UInt8) :
    szTemp ch = if ch < 0x80 then some (wsprintfLx (charCode ch) ++ [0x2C]) else none := by
  have range := charCode_range ch
  have few := wsprintfLx_length_le_iff (charCode ch) (show 0 < 3 by decide)
  have length : (wsprintfLx (charCode ch) ++ [0x2C]).length < 5 ↔ ch < 0x80 := by
    rw [List.length_append, List.length_singleton]
    by_cases ascii : ch < 0x80
    · rw [if_pos ascii] at range
      have small : ch.toNat < 0x80 := ascii
      exact iff_of_true (by omega) ascii
    · rw [if_neg ascii] at range
      exact iff_of_false (by omega) ascii
  rw [szTemp]
  simp only [length]

theorem readCodes_word {word digits rest : List UInt8} (plain : ∀ ch ∈ digits, ch ≠ 0x2C) :
    readCodes word (digits ++ 0x2C :: rest) =
      UInt8.ofNat (hexNumber (word ++ digits)) :: readCodes [] rest := by
  induction digits generalizing word with
  | nil => rw [List.nil_append, readCodes, if_pos rfl, List.append_nil]
  | cons ch digits ih =>
    obtain ⟨other, plain⟩ := List.forall_mem_cons.mp plain
    rw [List.cons_append, readCodes, if_neg other, ih plain, List.append_assoc]
    rfl

theorem mem_wsprintfLx {number : BitVec 32} (member : ch ∈ wsprintfLx number) :
    ∃ digit < 16, ch = lowerChar digit := by
  rcases List.mem_append.mp member with zero | digit
  · exact ⟨0, by decide, List.eq_of_mem_replicate zero⟩
  · obtain ⟨d, inside, rfl⟩ := List.mem_map.mp digit
    exact ⟨d, Nat.digits_lt_base (by decide) (List.mem_reverse.mp inside), rfl⟩

theorem wsprintfLx_plain (number : BitVec 32) : ∀ ch ∈ wsprintfLx number, ch ≠ 0x2C := by
  intro ch member
  obtain ⟨digit, small, rfl⟩ := mem_wsprintfLx member
  have all : ∀ d ∈ List.range 16, lowerChar d ≠ 0x2C := by decide
  exact all digit (List.mem_range.mpr small)

/-- What the loop has made of an ASCII text. -/
structure Coded (text : List UInt8) (codes : Codes) : Prop where
  read : ∀ rest, readCodes [] (codes.szRetBuf ++ rest) = text ++ readCodes [] rest
  length : codes.szRetBuf.length ≤ 4 * text.length
  nRet : codes.nRet = BitVec.ofNat 32 (sumCodes text)

theorem Coded.step {codes : Codes} (coded : Coded text codes) (short : text.length < 19)
    (ascii : ch < 0x80) : ∃ next, addCode codes ch = some next ∧ Coded (text ++ [ch]) next := by
  have range : ch.toNat < 0x80 := ascii
  have few := (wsprintfLx_length_le_iff (charCode ch) (show 0 < 3 by decide)).mpr
    (by rw [charCode_ascii ascii]; omega)
  have length := coded.length
  have room : (codes.szRetBuf ++ (wsprintfLx (charCode ch) ++ [0x2C])).length < 512 := by
    rw [List.length_append, List.length_append, List.length_singleton]
    omega
  refine ⟨{ szRetBuf := codes.szRetBuf ++ (wsprintfLx (charCode ch) ++ [0x2C])
            nRet := codes.nRet + charCode ch }, ?_, ?_, ?_, ?_⟩
  · rw [addCode, szTemp_eq, if_pos ascii, Option.bind_eq_bind, Option.bind_some, if_pos room]
  · intro rest
    have word := @readCodes_word [] (wsprintfLx (charCode ch)) rest (wsprintfLx_plain _)
    rw [List.nil_append, hexNumber_wsprintfLx, charCode_ascii ascii, UInt8.ofNat_toNat] at word
    show readCodes [] ((codes.szRetBuf ++ (wsprintfLx (charCode ch) ++ [0x2C])) ++ rest) = _
    rw [List.append_assoc, coded.read, List.append_assoc (wsprintfLx _), List.singleton_append, word,
      List.append_assoc]
    rfl
  · show (codes.szRetBuf ++ (wsprintfLx (charCode ch) ++ [0x2C])).length ≤ _
    simp only [List.length_append, List.length_singleton]
    omega
  · have code : charCode ch = BitVec.ofNat 32 ch.toNat := by
      rw [← charCode_ascii ascii, BitVec.ofNat_toNat, BitVec.setWidth_eq]
    show codes.nRet + charCode ch = _
    rw [coded.nRet, code, sumCodes, sumCodes, List.map_append, List.sum_append, ← BitVec.ofNat_add]
    rfl

theorem addCodes_coded {front : List UInt8} {codes : Codes} (coded : Coded front codes)
    (short : front.length + text.length ≤ 19) (ascii : ∀ ch ∈ text, ch < 0x80) :
    ∃ last, text.foldlM addCode codes = some last ∧ Coded (front ++ text) last := by
  induction text generalizing front codes with
  | nil => exact ⟨codes, rfl, by rwa [List.append_nil]⟩
  | cons ch rest ih =>
    obtain ⟨first, ascii⟩ := List.forall_mem_cons.mp ascii
    rw [List.length_cons] at short
    obtain ⟨next, added, further⟩ := coded.step (by omega) first
    obtain ⟨last, ran, whole⟩ := ih further
      (by rw [List.length_append, List.length_singleton]; omega) ascii
    refine ⟨last, ?_, ?_⟩
    · rw [List.foldlM_cons, added]
      exact ran
    · rwa [List.append_assoc] at whole

/-- A loop that ends has met no other character. -/
theorem addCodes_ascii {codes last : Codes} (ran : text.foldlM addCode codes = some last) :
    ∀ ch ∈ text, ch < 0x80 := by
  induction text generalizing codes with
  | nil => exact fun ch absurd => (List.not_mem_nil absurd).elim
  | cons ch rest ih =>
    rw [List.foldlM_cons] at ran
    obtain ⟨next, added, ran⟩ := Option.bind_eq_some_iff.mp ran
    obtain ⟨text, printed, -⟩ := Option.bind_eq_some_iff.mp added
    rw [szTemp_eq] at printed
    exact List.forall_mem_cons.mpr ⟨(Option.ite_none_right_eq_some.mp printed).1, ih ran⟩

theorem sumCodes_le (ascii : ∀ ch ∈ text, ch < 0x80) : sumCodes text ≤ 128 * text.length := by
  induction text with
  | nil => exact Nat.le_refl 0
  | cons ch rest ih =>
    obtain ⟨first, ascii⟩ := List.forall_mem_cons.mp ascii
    have small : ch.toNat < 0x80 := first
    have others := ih ascii
    rw [sumCodes] at others ⊢
    rw [List.map_cons, List.sum_cons, List.length_cons]
    omega

/-- Of a text in ASCII the boxes show the code of every character, from which the text can be
read again, and the sum of the codes. A character beyond ASCII among the first 19 is a store
behind `szTemp`. -/
theorem jzzhTextZH_eq (typed : List UInt8) :
    (∀ ch ∈ typed.take 19, ch < 0x80) ∧
        (∃ boxes, jzzhTextZH typed = some boxes ∧ readCodes [] boxes.ascii = typed.take 19 ∧
          boxes.sumDec = decimalText (sumCodes (typed.take 19)) ∧
          boxes.sumHex = hexText 1 (sumCodes (typed.take 19))) ∨
      (∃ ch ∈ typed.take 19, ¬ ch < 0x80) ∧ jzzhTextZH typed = none := by
  have few : (typed.take 19).length ≤ 19 := List.length_take_le 19 typed
  rw [jzzhTextZH]
  generalize typed.take 19 = szBuf at few ⊢
  by_cases ascii : ∀ ch ∈ szBuf, ch < 0x80
  · refine .inl ⟨ascii, ?_⟩
    have start : Coded [] { szRetBuf := [], nRet := 0 } := ⟨fun _ => rfl, Nat.le_refl 0, rfl⟩
    obtain ⟨codes, ran, coded⟩ := addCodes_coded start (by rwa [List.length_nil, Nat.zero_add]) ascii
    have small := sumCodes_le ascii
    have sum : codes.nRet.toNat = sumCodes szBuf := by
      rw [coded.nRet, List.nil_append, BitVec.toNat_ofNat]
      omega
    rw [ran]
    refine ⟨_, rfl, ?_, ?_, ?_⟩
    · have read := coded.read []
      rw [List.append_nil, List.nil_append] at read
      rw [read]
      exact List.append_nil szBuf
    · have positive : ¬ codes.nRet.toInt < 0 := by
        rw [BitVec.toInt_eq_toNat_of_lt (by omega)]
        omega
      rw [wsprintfLd, if_neg positive, sum]
    · rw [hexCharUpper_wsprintfLx, sum]
  · have stuck : szBuf.foldlM addCode { szRetBuf := [], nRet := 0 } = none :=
      Option.eq_none_iff_forall_ne_some.mpr fun last ran => ascii (addCodes_ascii ran)
    refine .inr ⟨by simpa only [not_forall, exists_prop] using ascii, ?_⟩
    rw [stuck]
    rfl

theorem jzzhDecToHex_eq (number : Int) :
    jzzhDecToHex number = hexText 1 (BitVec.ofInt 32 number).toNat := by
  rw [jzzhDecToHex, low_widen, hexCharUpper_wsprintfLx]

theorem jzzhHexToDec_eq (digits : ∀ ch ∈ text.take 19, IsHexDigit ch) :
    readDecimal (jzzhHexToDec text) = (denoted (text.take 19)).toInt := by
  rw [jzzhHexToDec, hexToDec_hexCharUpper digits, readDecimal_wsprintfLd]

theorem wsprintfLx_input (number : BitVec 32) : HexInput (wsprintfLx number) where
  digits := by
    intro ch member
    obtain ⟨digit, small, rfl⟩ := mem_wsprintfLx member
    have all : ∀ d ∈ List.range 16, IsHexDigit (lowerChar d) := by decide
    exact all digit (List.mem_range.mpr small)
  length_le := by
    have few := (wsprintfLx_length_le_iff number (show 0 < 8 by decide)).mpr number.isLt
    omega

/-- A signed number comes back from hexadecimal. The first 19 digits of a hexadecimal text, which
are those that are read, come back from decimal with upper-case letters, without zeros in front
and modulo 2³². -/
theorem conversions_roundTrip :
    (∀ number, Signed number → readDecimal (jzzhHexToDec (jzzhDecToHex number)) = number) ∧
      ∀ text, (∀ ch ∈ text.take 19, IsHexDigit ch) →
        jzzhDecToHex (readDecimal (jzzhHexToDec text)) =
          hexText 1 (hexNumber (text.take 19) % 4294967296) := by
  constructor
  · intro number ⟨lower, upper⟩
    have input := wsprintfLx_input (BitVec.ofInt 32 number)
    have upper := input.upper
    rw [jzzhDecToHex, low_widen, jzzhHexToDec_eq (upper.take_eq.symm ▸ upper.digits), upper.take_eq,
      denoted_hexCharUpper input.digits, denoted, hexNumber_wsprintfLx, BitVec.ofNat_toNat, BitVec.setWidth_eq, BitVec.toInt_ofInt]
    exact Int.bmod_eq_of_le (by omega) (by omega)
  · intro text digits
    rw [jzzhHexToDec_eq digits, jzzhDecToHex_eq, BitVec.ofInt_toInt, denoted, BitVec.toNat_ofNat]

end IDAPlugins.MoreMenu.CalcDlg
