import IDAPlugins.FindHex.Wildcards

namespace IDAPlugins.FindHex

open Machine Search

/-! # Listing every occurrence

`IDAP_run` strips the blanks of the pattern, checks its characters and restarts
`kmp` behind each hit while "list all" is ticked.
-/

inductive Warning where
  | empty
  | oddLength
  | badCharacter
  | badSize

structure Listing where
  findAddr : Int
  reported : List Int

def searchPass (mem szValue : List UInt8) (checkmask : Nat) (state : Listing) :
    Option (Loop.Pass Listing (List Int)) := do
  let findAddr ← kmp mem mem.length szValue szValue.length state.findAddr
  if findAddr < 0 then
    some (.leave state.reported)
  else
    let next := { findAddr := int32 (findAddr + (szValue.length / 2 : Nat))
                  reported := state.reported ++ [findAddr] }
    if checkmask = 1 then
      some (.again next)
    else
      some (.leave next.reported)

def searchLoop (mem szValue : List UInt8) (checkmask : Nat) : Option (List Int) :=
  Loop.run (searchPass mem szValue checkmask) (mem.length + 1) { findAddr := 0, reported := [] }

def idapRun (mem szInValue : List UInt8) (checkmask : Nat) :
    Option (Except Warning (List Int)) :=
  let szValue := szInValue.filter (· ≠ 0x20)
  if szValue.length = 0 then
    some (.error .empty)
  else if szValue.length % 2 ≠ 0 then
    some (.error .oddLength)
  else if szValue.any (fun ch => ch ≠ 0x3F ∧ hexDigit? ch = none) then
    some (.error .badCharacter)
  else if 0 < mem.length then
    .ok <$> searchLoop mem szValue checkmask
  else
    some (.error .badSize)

def HexDigit (ch : UInt8) : Prop :=
  (hexDigit? ch).isSome

instance (ch : UInt8) : Decidable (HexDigit ch) :=
  inferInstanceAs (Decidable (_ = true))

def digitValue (ch : UInt8) : Nat :=
  (hexDigit? ch).getD 0

def decoded (text : List UInt8) : List UInt8 :=
  (List.range (text.length / 2)).map fun i =>
    UInt8.ofNat (16 * digitValue (text.getD (i * 2) 0) + digitValue (text.getD (i * 2 + 1) 0))

theorem HexDigit.read {ch : UInt8} (digit : HexDigit ch) :
    hexDigit? ch = some (digitValue ch) ∧ digitValue ch < 16 := by
  obtain ⟨value, read⟩ := Option.isSome_iff_exists.mp digit
  have same : digitValue ch = value := by rw [digitValue, read, Option.getD_some]
  exact same ▸ ⟨read, hexDigit?_lt read⟩

theorem HexDigit.ne_question {ch : UInt8} (digit : HexDigit ch) : ch ≠ 0x3F := by
  rintro rfl
  exact absurd digit (by decide)

theorem elementAgrees_digits {high low : UInt8} (first : HexDigit high) (second : HexDigit low)
    (byte : UInt8) :
    elementAgrees high low byte = true ↔
      byte = UInt8.ofNat (16 * digitValue high + digitValue low) := by
  have ⟨readHigh, highSmall⟩ := first.read
  have ⟨readLow, lowSmall⟩ := second.read
  have below := byte.toNat_lt
  simp only [elementAgrees, nibbleAgrees, beq_eq_false_iff_ne.mpr first.ne_question,
    beq_eq_false_iff_ne.mpr second.ne_question, Bool.false_or, readHigh, readLow, Bool.and_eq_true,
    beq_iff_eq, Option.some.injEq, UInt8.toNat_inj.symm, UInt8.toNat_ofNat']
  omega

variable (pattern : ElementText HexDigit)

theorem ElementText.digits_reads : Reads pattern.text where
  agrees := by
    intro byte i bound
    rw [lpSub, if_pos bound]
    exact accepts_digits (pattern.allowed_get (by omega)).read.1
      (pattern.allowed_get (by omega)).read.1 byte

theorem ElementText.accepts_iff {i : Nat} (bound : i < pattern.text.length / 2) (byte : UInt8) :
    accepts byte (lpSub pattern.text (pattern.text.length / 2) i) = true ↔
      byte = UInt8.ofNat (16 * digitValue (pattern.text.getD (i * 2) 0) +
        digitValue (pattern.text.getD (i * 2 + 1) 0)) := by
  rw [pattern.digits_reads.agrees byte i bound]
  exact elementAgrees_digits (pattern.allowed_get (by omega)) (pattern.allowed_get (by omega)) byte

theorem ElementText.digits_legible :
    (searched (lpSub pattern.text (pattern.text.length / 2)) (pattern.text.length / 2)).Legible where
  wildAgrees := searched_wildAgrees _ _
  inhabited := fun i bound => ⟨_, (pattern.accepts_iff bound _).mpr rfl⟩
  onlyWild := by
    intro i bound all
    have zero := (pattern.accepts_iff bound 0).mp (all 0)
    have one := (pattern.accepts_iff bound 1).mp (all 1)
    exact absurd (zero.trans one.symm) (by decide)

theorem encodeElement_digits {high low : UInt8} (first : HexDigit high) (second : HexDigit low) :
    encodeElement high low = BitVec.ofNat 32 (16 * digitValue high + digitValue low) := by
  simp only [encodeElement, first.ne_question, second.ne_question, false_and, if_false, sscanf02X,
    first.read.1, second.read.1]

/-- Equal bytes are written as equal codes, so the table misses no overlap. -/
theorem ElementText.digits_noHiddenOverlap (room : Nat) :
    (searched (lpSub pattern.text (pattern.text.length / 2))
      (pattern.text.length / 2)).NoHiddenOverlap room := by
  refine noHiddenOverlap_of_exact fun i first j second ⟨byte, left, right⟩ => .inl ?_
  have first : i < pattern.text.length / 2 := first
  have second : j < pattern.text.length / 2 := second
  have digit (k : Nat) (bound : k < pattern.text.length) := pattern.allowed_get bound
  have same := ((pattern.accepts_iff first byte).mp left).symm.trans
    ((pattern.accepts_iff second byte).mp right)
  have lowI := (digit (i * 2) (by omega)).read.2
  have highI := (digit (i * 2 + 1) (by omega)).read.2
  have lowJ := (digit (j * 2) (by omega)).read.2
  have highJ := (digit (j * 2 + 1) (by omega)).read.2
  rw [← UInt8.toNat_inj, UInt8.toNat_ofNat', UInt8.toNat_ofNat'] at same
  simp only [searched, lpSub, if_pos first, if_pos second]
  rw [encodeElement_digits (digit _ (by omega)) (digit _ (by omega)),
    encodeElement_digits (digit _ (by omega)) (digit _ (by omega))]
  exact congrArg (BitVec.ofNat 32) (by omega)

theorem decoded_length (text : List UInt8) : (decoded text).length = text.length / 2 := by
  simp [decoded]

theorem ElementText.matches_iff (mem : List UInt8) (offset : Nat) :
    Matches pattern.text mem offset ↔ decoded pattern.text <+: mem.drop offset := by
  have length := decoded_length pattern.text
  have positive := pattern.count_pos
  have agrees (i : Nat) (bound : i < pattern.text.length / 2) (read : UInt8) :
      (elements pattern.text).agrees read ((elements pattern.text).code i) = true ↔
        read = (decoded pattern.text).getD i 0 := by
    rw [List.getD_eq_getElem _ _ (by omega)]
    simp only [decoded, List.getElem_map, List.getElem_range]
    exact elementAgrees_digits
      (pattern.allowed_get (show i * 2 < pattern.text.length by omega))
      (pattern.allowed_get (show i * 2 + 1 < pattern.text.length by omega)) read
  rw [prefix_drop_iff (List.length_pos_iff.mp (by omega)) 0, length]
  exact and_congr_right fun _ => forall₂_congr fun i bound => agrees i bound _

/-- What has been reported so far, and that the rest of the occurrences completes it. -/
structure ListingInvariant (occurs : Nat → Prop) (width size : Nat) (state : Listing) : Prop where
  start : ∃ start : Nat, state.findAddr = start ∧ start ≤ size ∧
    ∃ before : List Nat, state.reported = before.map Int.ofNat ∧
      ∀ rest, Leftmost occurs width start rest → Leftmost occurs width 0 (before ++ rest)

theorem ElementText.searchPass_sound (mem : List UInt8) (size : mem.length < 2147483648) :
    Loop.Sound (searchPass mem pattern.text 1)
      (ListingInvariant (Matches pattern.text mem) (pattern.text.length / 2) mem.length)
      (fun state => mem.length - state.findAddr.toNat)
      (fun result => ∃ hits : List Nat, result = hits.map Int.ofNat ∧
        Leftmost (Matches pattern.text mem) (pattern.text.length / 2) 0 hits) := by
  rintro state ⟨start, addr, inside, before, reported, completes⟩
  have positive := pattern.count_pos
  obtain ⟨r, found, ⟨missed, absent⟩ | ⟨p, hit, after, matched, least⟩⟩ :=
    pattern.digits_reads.kmp_first positive pattern.digits_legible mem start size inside
      (pattern.digits_noHiddenOverlap _)
  · refine .inr ⟨state.reported, ?_, before, reported, ?_⟩
    · simp only [searchPass, addr, found, Option.bind_eq_bind, Option.bind_some]
      rw [if_pos (by omega)]
    · rw [← List.append_nil before]
      exact completes [] (.finished absent)
  · have fits := matched.1
    have moved : int32 (r + (pattern.text.length / 2 : Nat)) =
        (p + pattern.text.length / 2 : Nat) := by
      rw [int32_of_range (by omega) (by omega)]
      omega
    refine .inl ⟨{ findAddr := (p + pattern.text.length / 2 : Nat)
                   reported := state.reported ++ [r] }, ?_, ?_, ?_⟩
    · simp only [searchPass, addr, found, Option.bind_eq_bind, Option.bind_some, moved, if_true]
      rw [if_neg (by omega)]
    · refine ⟨_, rfl, fits, before ++ [p], by simp [reported, hit], ?_⟩
      intro rest remaining
      rw [List.append_assoc]
      refine completes _ (.hit ⟨⟨after, matched⟩, ?_⟩ remaining)
      rintro q ⟨later, matched⟩
      by_contra earlier
      exact least q later (by omega) matched
    · simp only
      omega

/-- With "list all" ticked, a search for digits ends and reports exactly the leftmost,
non-overlapping occurrences of the bytes they stand for. -/
theorem searchLoop_lists_leftmost (mem : List UInt8) (size : mem.length < 2147483648) :
    ∃ hits : List Nat, searchLoop mem pattern.text 1 = some (hits.map Int.ofNat) ∧
      Leftmost (fun offset => decoded pattern.text <+: mem.drop offset)
        (decoded pattern.text).length 0 hits := by
  have occurs : Matches pattern.text mem =
      fun offset => decoded pattern.text <+: mem.drop offset :=
    funext fun offset => propext (pattern.matches_iff mem offset)
  obtain ⟨result, ran, hits, listed, leftmost⟩ :=
    show ∃ result, searchLoop mem pattern.text 1 = some result ∧ _ from
      Loop.run_total (pattern.searchPass_sound mem size)
        ⟨0, rfl, Nat.zero_le _, [], rfl, fun _ remaining => remaining⟩ (by simp only; omega)
  refine ⟨hits, by rw [ran, listed], ?_⟩
  rw [← occurs, decoded_length]
  exact leftmost

def repeated : ElementText HexDigit where
  text := [0x34, 0x61, 0x34, 0x41]
  pairs := rfl
  nonempty := List.cons_ne_nil _ _
  digits := by decide +kernel

theorem searchLoop_lists_repeated :
    ∃ hits : List Nat, searchLoop [0x4A, 0x4A, 0x4A, 0x4A, 0x4A] repeated.text 1 =
        some (hits.map Int.ofNat) ∧
      Leftmost (fun offset => decoded repeated.text <+: [0x4A, 0x4A, 0x4A, 0x4A, 0x4A].drop offset)
        (decoded repeated.text).length 0 hits :=
  searchLoop_lists_leftmost repeated [0x4A, 0x4A, 0x4A, 0x4A, 0x4A] (by decide)

theorem ElementText.characters :
    pattern.text.any (fun ch => ch ≠ 0x3F ∧ hexDigit? ch = none) = false := by
  rw [List.any_eq_false]
  intro ch member
  simp [(pattern.digits ch member).read.1]

/-- The input checks let every pattern of digits through, however it is spaced. -/
theorem idapRun_searches (mem szInValue : List UInt8) (checkmask : Nat) (loaded : 0 < mem.length)
    (stripped : szInValue.filter (· ≠ 0x20) = pattern.text) :
    idapRun mem szInValue checkmask = .ok <$> searchLoop mem pattern.text checkmask := by
  have positive := pattern.count_pos
  simp only [idapRun, stripped]
  rw [if_neg (by omega), if_neg (by rw [pattern.pairs]; decide), pattern.characters,
    if_neg (by decide), if_pos loaded]

end IDAPlugins.FindHex
