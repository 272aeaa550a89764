import Mathlib.Data.List.Basic

namespace IDAPlugins.LittleEndian

/-! # Words in memory

A word of 16 or 32 bits lies in memory as its bytes, the lowest first.
-/

def byteAt (memory : List UInt8) (i : Nat) : UInt8 :=
  memory.getD i 0

def lowByte (word : UInt16) : UInt8 := word.toUInt8

def highByte (word : UInt16) : UInt8 := (word >>> 8).toUInt8

def ofBytes (low high : UInt8) : UInt16 := UInt16.ofNat (low.toNat + 256 * high.toNat)

def wordBytes (word : UInt16) : List UInt8 := [lowByte word, highByte word]

def dwordBytes (dword : UInt32) : List UInt8 :=
  [dword.toUInt8, (dword >>> 8).toUInt8, (dword >>> 16).toUInt8, (dword >>> 24).toUInt8]

def readDwords : List UInt8 → List UInt32
  | b0 :: b1 :: b2 :: b3 :: rest =>
    UInt32.ofNat (b0.toNat + 256 * b1.toNat + 65536 * b2.toNat + 16777216 * b3.toNat) ::
      readDwords rest
  | _ => []

theorem byteAt_drop (memory : List UInt8) (start i : Nat) :
    byteAt (memory.drop start) i = byteAt memory (start + i) := by
  simp only [byteAt, List.getD_eq_getElem?_getD, List.getElem?_drop]

@[simp] theorem toNat_lowByte (word : UInt16) : (lowByte word).toNat = word.toNat % 256 := rfl

@[simp] theorem toNat_highByte (word : UInt16) : (highByte word).toNat = word.toNat / 256 := by
  have below := word.toNat_lt
  rw [highByte, UInt16.toNat_toUInt8, UInt16.toNat_shiftRight]
  simp only [UInt16.reduceToNat, Nat.shiftRight_eq_div_pow, Nat.reduceMod, Nat.reducePow]
  omega

theorem toNat_ofBytes (low high : UInt8) : (ofBytes low high).toNat = low.toNat + 256 * high.toNat := by
  have lower := low.toNat_lt
  have upper := high.toNat_lt
  exact UInt16.toNat_ofNat_of_lt' (by simp only [UInt16.size]; omega)

@[simp] theorem ofBytes_bytes (word : UInt16) : ofBytes (lowByte word) (highByte word) = word := by
  rw [← UInt16.toNat_inj, toNat_ofBytes, toNat_lowByte, toNat_highByte]
  omega

theorem toNat_dwordBytes (dword : UInt32) :
    (dwordBytes dword).map UInt8.toNat = [dword.toNat % 256, dword.toNat / 256 % 256,
      dword.toNat / 65536 % 256, dword.toNat / 16777216 % 256] := by
  simp only [dwordBytes, List.map_cons, List.map_nil, UInt32.toNat_toUInt8, UInt32.toNat_shiftRight,
    UInt32.reduceToNat, Nat.shiftRight_eq_div_pow, Nat.reduceMod, Nat.reducePow]

theorem dwordBytes_length (dword : UInt32) : (dwordBytes dword).length = 4 := rfl

theorem readDwords_dwordBytes (dword : UInt32) (rest : List UInt8) :
    readDwords (dwordBytes dword ++ rest) = dword :: readDwords rest := by
  have below := dword.toNat_lt
  have parts := toNat_dwordBytes dword
  simp only [dwordBytes, List.map_cons, List.map_nil, List.cons.injEq, and_true] at parts
  obtain ⟨first, second, third, fourth⟩ := parts
  rw [dwordBytes, List.cons_append, List.cons_append, List.cons_append, List.cons_append,
    List.nil_append, readDwords, first, second, third, fourth]
  congr 1
  rw [← UInt32.toNat_inj, UInt32.toNat_ofNat_of_lt' (by simp only [UInt32.size]; omega)]
  omega

theorem readDwords_all (dwords : List UInt32) :
    readDwords (dwords.flatMap dwordBytes) = dwords := by
  induction dwords with
  | nil => rfl
  | cons dword rest ih => rw [List.flatMap_cons, readDwords_dwordBytes, ih]

theorem dwordBytes_readDwords (bytes : List UInt8) (whole : 4 ∣ bytes.length) :
    (readDwords bytes).flatMap dwordBytes = bytes := by
  induction bytes using readDwords.induct with
  | case1 b0 b1 b2 b3 rest ih =>
    simp only [List.length_cons] at whole
    have first := b0.toNat_lt
    have second := b1.toNat_lt
    have third := b2.toNat_lt
    have fourth := b3.toNat_lt
    have value : (UInt32.ofNat (b0.toNat + 256 * b1.toNat + 65536 * b2.toNat +
        16777216 * b3.toNat)).toNat =
          b0.toNat + 256 * b1.toNat + 65536 * b2.toNat + 16777216 * b3.toNat :=
      UInt32.toNat_ofNat_of_lt' (by simp only [UInt32.size]; omega)
    have parts := toNat_dwordBytes
      (UInt32.ofNat (b0.toNat + 256 * b1.toNat + 65536 * b2.toNat + 16777216 * b3.toNat))
    rw [value] at parts
    have split : dwordBytes (UInt32.ofNat (b0.toNat + 256 * b1.toNat + 65536 * b2.toNat +
        16777216 * b3.toNat)) = [b0, b1, b2, b3] := by
      refine List.map_injective_iff.mpr (fun _ _ => UInt8.toNat_inj.mp) (parts.trans ?_)
      simp only [List.map_cons, List.map_nil, List.cons.injEq, and_true]
      omega
    rw [readDwords, List.flatMap_cons, split, ih (by omega)]
    rfl
  | case2 bytes short =>
    rcases bytes with _ | ⟨b0, _ | ⟨b1, _ | ⟨b2, _ | ⟨b3, rest⟩⟩⟩⟩
    · rfl
    · exact absurd whole (by simp only [List.length_cons, List.length_nil]; omega)
    · exact absurd whole (by simp only [List.length_cons, List.length_nil]; omega)
    · exact absurd whole (by simp only [List.length_cons, List.length_nil]; omega)
    · exact absurd rfl (short b0 b1 b2 b3 rest)

theorem dwords_length (dwords : List UInt32) :
    (dwords.flatMap dwordBytes).length = 4 * dwords.length := by
  induction dwords with
  | nil => rfl
  | cons dword rest ih =>
    rw [List.flatMap_cons, List.length_append, ih, dwordBytes_length, List.length_cons]
    omega

end IDAPlugins.LittleEndian
