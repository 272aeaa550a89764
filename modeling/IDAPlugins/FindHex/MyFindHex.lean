import IDAPlugins.FindHex.Enumerate

namespace IDAPlugins.MyFindHex

open Machine

/-! # The older search

`MyFindHex` knows `??` and digits only. It compares a byte with the code of an element
for equality, and behind a hit it moves the buffer on and shortens it. `getnext_bin` is
the one of `KDFindHex`.
-/

/-- `lpSub`, zero past the elements of the pattern. -/
def lpSub (pattern : List UInt8) (nLen i : Nat) : FindHex.Code :=
  if i < nLen then
    if pattern.getD (i * 2) 0 = 0x3F then -1
    else FindHex.sscanf02X (pattern.getD (i * 2) 0) (pattern.getD (i * 2 + 1) 0)
  else 0

/-- The test `((int)main[i] & 0xFF) == sub[j] || sub[j] == -1` of the scan. -/
def accepts (byte : UInt8) (sub : FindHex.Code) : Bool :=
  byte.toBitVec.setWidth 32 == sub || sub == -1

def kmpBinPass (main : Nat → UInt8) (mainSize : Int) (sub : Nat → FindHex.Code) (subSize : Nat)
    (next : Nat → Int) (cursor : Search.Cursor) : Option (Loop.Pass Search.Cursor Int) :=
  if (cursor.i : Int) < mainSize then
    if cursor.j = -1 ∨ accepts (main cursor.i) (sub cursor.j.toNat) = true then
      let i := cursor.i + 1
      let j := cursor.j + 1
      if j = subSize then
        some (.leave (i - j))
      else
        some (.again { i, j })
    else
      some (.again { cursor with j := next cursor.j.toNat })
  else
    some (.leave (-1))

def kmpBin (main : Nat → UInt8) (mainSize : Int) (sub : Nat → FindHex.Code) (subSize : Nat)
    (next : Nat → Int) : Option Int :=
  Loop.run (kmpBinPass main mainSize sub subSize next) (2 * mainSize.toNat + 2) { i := 0, j := 0 }

def kmp (matcher : List UInt8) (mlen : Nat) (pattern : List UInt8) (plen : Nat) : Option Int := do
  let nLen := plen / 2
  let lpNext ← FindHex.getnextBin (lpSub pattern nLen) nLen
  kmpBin (fun i => matcher.getD i 0) (int32 mlen) (lpSub pattern nLen) nLen lpNext

/-- The loop of `IDAP_run`: `lpTmp` as an offset into the buffer, the size that is left
and the addresses reported. -/
structure Searching where
  lpTmp : Nat
  size : Nat
  reported : List Int

/-- One search. Addresses are counted modulo their number, `addresses`. -/
def searchPass (mem : List UInt8) (nStartAddres addresses : Int) (szValue : List UInt8)
    (checkmask : Nat) (state : Searching) : Option (Loop.Pass Searching (List Int)) := do
  let findAddr ← kmp (mem.drop state.lpTmp) state.size szValue szValue.length
  if findAddr < 0 then
    some (.leave state.reported)
  else
    let reported := state.reported ++ [(findAddr + nStartAddres + state.lpTmp) % addresses]
    let findAddr := int32 (findAddr + (szValue.length / 2 : Nat))
    let next := { lpTmp := (state.lpTmp + findAddr).toNat
                  size := ((state.size - findAddr) % 4294967296).toNat
                  reported }
    if checkmask = 1 then
      some (.again next)
    else
      some (.leave reported)

def searchLoop (mem : List UInt8) (nStartAddres addresses : Int) (szValue : List UInt8)
    (checkmask : Nat) : Option (List Int) :=
  Loop.run (searchPass mem nStartAddres addresses szValue checkmask) (mem.length + 1)
    { lpTmp := 0, size := mem.length, reported := [] }

/-- The addresses `KDFindHex` reports for the offsets it finds. -/
def addressesOf (nStartAddres addresses : Int) (found : List Int) : List Int :=
  found.map fun findAddr => (findAddr + nStartAddres) % addresses

/-- A pattern of `??` and pairs of digits. -/
structure PlainPattern where
  text : List UInt8
  pairs : text.length % 2 = 0
  nonempty : text ≠ []
  plain : ∀ i < text.length / 2,
    (text.getD (i * 2) 0 = 0x3F ∧ text.getD (i * 2 + 1) 0 = 0x3F) ∨
      (FindHex.HexDigit (text.getD (i * 2) 0) ∧ FindHex.HexDigit (text.getD (i * 2 + 1) 0))

variable (pattern : PlainPattern)

theorem PlainPattern.count_pos : 0 < pattern.text.length / 2 := by
  have length := List.length_pos_iff.mpr pattern.nonempty
  have pairs := pattern.pairs
  omega

/-- Both plug-ins store the same codes. -/
theorem lpSub_eq :
    lpSub pattern.text (pattern.text.length / 2) =
      FindHex.lpSub pattern.text (pattern.text.length / 2) := by
  funext i
  rw [lpSub, FindHex.lpSub]
  by_cases bound : i < pattern.text.length / 2
  · rw [if_pos bound, if_pos bound]
    rcases pattern.plain i bound with ⟨high, low⟩ | ⟨high, low⟩
    · rw [if_pos high, FindHex.encodeElement, if_pos ⟨high, low⟩]
    · rw [if_neg high.ne_question, FindHex.encodeElement, if_neg fun both => high.ne_question both.1,
        if_neg high.ne_question, if_neg low.ne_question]
  · rw [if_neg bound, if_neg bound]

/-- On a code of one byte, or `-1`, the two tests agree. -/
theorem accepts_eq (byte : UInt8) (i : Nat) :
    accepts byte (FindHex.lpSub pattern.text (pattern.text.length / 2) i) =
      FindHex.accepts byte (FindHex.lpSub pattern.text (pattern.text.length / 2) i) := by
  have byteCode (value : Nat) (small : value < 256) :
      accepts byte (BitVec.ofNat 32 value) = FindHex.accepts byte (BitVec.ofNat 32 value) := by
    have below := byte.toNat_lt
    rw [FindHex.accepts_byte_code byte small, Bool.eq_iff_iff, accepts]
    simp only [Bool.or_eq_true, beq_iff_eq, BitVec.toNat_inj.symm, BitVec.toNat_setWidth,
      BitVec.toNat_ofNat, UInt8.toNat_toBitVec, BitVec.reduceNeg]
    omega
  rw [FindHex.lpSub]
  by_cases bound : i < pattern.text.length / 2
  · rw [if_pos bound]
    rcases pattern.plain i bound with ⟨high, low⟩ | ⟨high, low⟩
    · rw [FindHex.encodeElement, if_pos ⟨high, low⟩]
      simp [accepts, FindHex.accepts]
    · have highSmall := high.read.2
      have lowSmall := low.read.2
      rw [FindHex.encodeElement_digits high low]
      exact byteCode _ (by omega)
  · rw [if_neg bound]
    exact byteCode 0 (by decide)

theorem kmpBin_eq (main : Nat → UInt8) (mainSize : Int) (subSize : Nat) (next : Nat → Int) :
    kmpBin main mainSize (FindHex.lpSub pattern.text (pattern.text.length / 2)) subSize next =
      FindHex.kmpBin main mainSize (FindHex.lpSub pattern.text (pattern.text.length / 2)) subSize
        next := by
  have pass : kmpBinPass main mainSize (FindHex.lpSub pattern.text (pattern.text.length / 2)) subSize
      next = FindHex.kmpBinPass main mainSize (FindHex.lpSub pattern.text (pattern.text.length / 2))
        subSize next := by
    funext cursor
    rw [kmpBinPass, FindHex.kmpBinPass, accepts_eq]
  rw [kmpBin, FindHex.kmpBin, pass]

/-- From the same place both searches find the same occurrence, or none. -/
theorem kmp_eq (mem : List UInt8) (size : mem.length < 2147483648) (start : Nat)
    (inside : start ≤ mem.length) :
    ∃ r, kmp (mem.drop start) (mem.length - start) pattern.text pattern.text.length = some r ∧
      FindHex.kmp mem mem.length pattern.text pattern.text.length start =
        some (if r < 0 then r else r + start) ∧
      (r = -1 ∨ ∃ position : Nat, r = position ∧
        start + position + pattern.text.length / 2 ≤ mem.length) := by
  have positive := pattern.count_pos
  obtain ⟨next, built, borders⟩ := FindHex.getnextBin_borders
    (FindHex.lpSub pattern.text (pattern.text.length / 2)) positive
  have buffer : (fun i => (mem.drop start).getD i 0) = FindHex.behind mem start := by
    funext i
    have index : ((start : Int) + i).toNat = start + i := by omega
    rw [FindHex.behind, index, List.getD_eq_getElem?_getD, List.getElem?_drop,
      List.getD_eq_getElem?_getD]
  have rest : int32 ((mem.length - start : Nat) : Int) = mem.length - start := by
    rw [int32_of_range (by omega) (by omega)]
    omega
  have difference : int32 ((mem.length : Int) - start) = mem.length - start :=
    int32_of_range (by omega) (by omega)
  obtain ⟨r, scanned, cursor, -, ends⟩ := FindHex.kmpBin_ends (FindHex.behind mem start)
    (mem.length - start) (fun _ => True) positive (borders.mono FindHex.entails_of_follows) trivial
    fun _ _ _ => trivial
  have place : r = -1 ∨ ∃ position : Nat, r = position ∧
      start + position + pattern.text.length / 2 ≤ mem.length := by
    rcases ends with ⟨missed, -, -⟩ | ⟨position, found, -, fits, -⟩
    · exact Or.inl missed
    · exact Or.inr ⟨position, found, by omega⟩
  refine ⟨r, ?_, ?_, place⟩
  · rw [kmp, lpSub_eq, built, Option.bind_eq_bind, Option.bind_some, buffer, rest, kmpBin_eq]
    exact scanned
  · rw [← difference] at scanned
    rw [FindHex.kmp_eq built scanned]
    rcases place with missed | ⟨position, found, fits⟩
    · rw [missed]
      rfl
    · have sum : int32 (r + start) = r + start := int32_of_range (by omega) (by omega)
      rw [sum]

/-- `KDFindHex` starts its next search where the buffer of the older one begins. -/
structure Together (mem : List UInt8) (nStartAddres addresses : Int) (new : FindHex.Listing)
    (old : Searching) : Prop where
  start : new.findAddr = old.lpTmp
  inside : old.lpTmp ≤ mem.length
  rest : old.size = mem.length - old.lpTmp
  reported : old.reported = addressesOf nStartAddres addresses new.reported

theorem addressesOf_append (nStartAddres addresses : Int) (found : List Int) (findAddr : Int) :
    addressesOf nStartAddres addresses (found ++ [findAddr]) =
      addressesOf nStartAddres addresses found ++ [(findAddr + nStartAddres) % addresses] := by
  rw [addressesOf, List.map_append]
  rfl

/-- The newer loop behind a hit, at an offset of the buffer. -/
theorem newPass_hit {mem : List UInt8} (size : mem.length < 2147483648) {new : FindHex.Listing}
    (checkmask : Nat) {start position : Nat}
    (fits : start + position + pattern.text.length / 2 ≤ mem.length)
    (found : FindHex.kmp mem mem.length pattern.text pattern.text.length new.findAddr =
      some ((position : Int) + start)) :
    FindHex.searchPass mem pattern.text checkmask new =
      if checkmask = 1 then
        some (.again
          { findAddr := (start + position + pattern.text.length / 2 : Nat)
            reported := new.reported ++ [(position : Int) + start] })
      else some (.leave (new.reported ++ [(position : Int) + start])) := by
  have further : int32 ((position : Int) + start + (pattern.text.length / 2 : Nat)) =
      (start + position + pattern.text.length / 2 : Nat) := by
    rw [int32_of_range (by omega) (by omega)]
    omega
  rw [FindHex.searchPass, found, Option.bind_eq_bind, Option.bind_some, if_neg (by omega), further]

/-- The older loop behind a hit, at an offset of what is left of the buffer. -/
theorem oldPass_hit {mem : List UInt8} (size : mem.length < 2147483648)
    (nStartAddres addresses : Int) {old : Searching} (checkmask : Nat)
    {position : Nat} (fits : old.lpTmp + position + pattern.text.length / 2 ≤ mem.length)
    (rest : old.size = mem.length - old.lpTmp)
    (found : kmp (mem.drop old.lpTmp) old.size pattern.text pattern.text.length =
      some (position : Int)) :
    searchPass mem nStartAddres addresses pattern.text checkmask old =
      if checkmask = 1 then
        some (.again
          { lpTmp := old.lpTmp + position + pattern.text.length / 2
            size := mem.length - (old.lpTmp + position + pattern.text.length / 2)
            reported := old.reported ++ [((position : Int) + nStartAddres + old.lpTmp) % addresses] })
      else
        some (.leave (old.reported ++ [((position : Int) + nStartAddres + old.lpTmp) % addresses])) := by
  have step : int32 ((position : Int) + (pattern.text.length / 2 : Nat)) =
      (position + pattern.text.length / 2 : Nat) := by
    rw [int32_of_range (by omega) (by omega)]
    omega
  have pointer : ((old.lpTmp : Int) + (position + pattern.text.length / 2 : Nat)).toNat =
      old.lpTmp + position + pattern.text.length / 2 := by omega
  have left : (((old.size : Int) - (position + pattern.text.length / 2 : Nat)) %
      4294967296).toNat = mem.length - (old.lpTmp + position + pattern.text.length / 2) := by
    omega
  rw [searchPass, found, Option.bind_eq_bind, Option.bind_some, if_neg (by omega), step]
  simp only [pointer, left]

theorem searchPass_inStep (mem : List UInt8) (size : mem.length < 2147483648)
    (nStartAddres addresses : Int) (checkmask : Nat) :
    Loop.InStep (FindHex.searchPass mem pattern.text checkmask)
      (searchPass mem nStartAddres addresses pattern.text checkmask)
      (Together mem nStartAddres addresses) (fun new => mem.length - new.findAddr.toNat)
      (fun found reported => reported = addressesOf nStartAddres addresses found) := by
  have positive := pattern.count_pos
  intro new old together
  obtain ⟨r, searched, behind, place⟩ := kmp_eq pattern mem size old.lpTmp together.inside
  have found : FindHex.kmp mem mem.length pattern.text pattern.text.length new.findAddr =
      some (if r < 0 then r else r + old.lpTmp) := together.start ▸ behind
  rw [← together.rest] at searched
  rcases place with missed | ⟨position, hit, fits⟩
  · rw [if_pos (by omega)] at found
    refine Or.inr ⟨new.reported, old.reported, ?_, ?_, together.reported⟩
    · rw [FindHex.searchPass, found, Option.bind_eq_bind, Option.bind_some, if_pos (by omega)]
    · rw [searchPass, searched, Option.bind_eq_bind, Option.bind_some, if_pos (by omega)]
  · rw [hit] at searched
    rw [if_neg (by omega), hit] at found
    have newPass := newPass_hit pattern size checkmask fits found
    have oldPass :=
      oldPass_hit pattern size nStartAddres addresses checkmask fits together.rest searched
    have reported : old.reported ++ [((position : Int) + nStartAddres + old.lpTmp) % addresses] =
        addressesOf nStartAddres addresses (new.reported ++ [(position : Int) + old.lpTmp]) := by
      rw [addressesOf_append, ← together.reported, Int.add_right_comm]
    by_cases list : checkmask = 1
    · rw [if_pos list] at newPass oldPass
      refine Or.inl ⟨_, _, newPass, oldPass, ⟨rfl, fits, rfl, reported⟩, ?_⟩
      have start := together.start
      simp only
      omega
    · rw [if_neg list] at newPass oldPass
      exact Or.inr ⟨_, _, newPass, oldPass, reported⟩

/-- For a pattern of `??` and digits both plug-ins end, and the older one reports the addresses
of the newer one, in the same order. -/
theorem searchLoop_agrees (mem : List UInt8) (size : mem.length < 2147483648)
    (nStartAddres addresses : Int) (checkmask : Nat) :
    ∃ found, FindHex.searchLoop mem pattern.text checkmask = some found ∧
      searchLoop mem nStartAddres addresses pattern.text checkmask =
        some (addressesOf nStartAddres addresses found) := by
  have start : Together mem nStartAddres addresses { findAddr := 0, reported := [] }
      { lpTmp := 0, size := mem.length, reported := [] } :=
    { start := rfl
      inside := Nat.zero_le _
      rest := rfl
      reported := rfl }
  obtain ⟨found, reported, new, old, same⟩ := Loop.run_inStep
    (searchPass_inStep pattern mem size nStartAddres addresses checkmask) start
    (show _ < mem.length + 1 from Nat.lt_succ_self _)
  exact ⟨found, new, same ▸ old⟩

/-- `41 ?? 4a` -/
def mixed : PlainPattern where
  text := [0x34, 0x31, 0x3F, 0x3F, 0x34, 0x61]
  pairs := rfl
  nonempty := List.cons_ne_nil _ _
  plain := by decide

theorem searchLoop_agrees_mixed :
    ∃ found, FindHex.searchLoop [0x41, 0x00, 0x4A, 0x41, 0x41, 0x4A] mixed.text 1 = some found ∧
      searchLoop [0x41, 0x00, 0x4A, 0x41, 0x41, 0x4A] 0x8000 4294967296 mixed.text 1 =
        some (addressesOf 0x8000 4294967296 found) :=
  searchLoop_agrees mixed [0x41, 0x00, 0x4A, 0x41, 0x41, 0x4A] (by decide) 0x8000 4294967296 1

end IDAPlugins.MyFindHex
