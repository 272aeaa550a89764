import IDAPlugins.Codes
import IDAPlugins.LittleEndian
import IDAPlugins.Loop
import Mathlib.Data.Nat.Find

namespace IDAPlugins.CopyString

open Codes LittleEndian

/-! # GB text and 16-bit units

A character of GB text is one byte, or a lead byte and a second byte that are read
and looked up as one word, the lead byte in its lower half. `g_TableUnicode` and
`g_TableGB2132` hold the same pairs of a GB word and a unit, each in the order of the
column it is searched by.
-/

/-- The two tables as the file sets them up. -/
structure CodeTables where
  tableUnicode : List (UInt16 × UInt16)
  tableGB2132 : List (UInt16 × UInt16)
  unicodeIncreasing : (tableUnicode.map Prod.snd).Pairwise (· < ·)
  gbIncreasing : (tableGB2132.map Prod.fst).Pairwise (· < ·)
  samePairs : tableGB2132.Perm tableUnicode
  lead : ∀ pair ∈ tableUnicode, 0x80 < lowByte pair.1

structure Halving where
  front : Int
  back : Int

def binSearchPass (key : UInt16) (lppTable : List (UInt16 × UInt16))
    (nType : UInt16 × UInt16 → UInt16) (state : Halving) : Option (Loop.Pass Halving Int) :=
  if state.front ≤ state.back then do
    let i := (state.front + state.back) / 2
    let pair ← lppTable[i.toNat]?
    if key = nType pair then
      some (.leave i)
    else if key < nType pair then
      some (.again { state with back := i - 1 })
    else
      some (.again { state with front := i + 1 })
  else
    some (.leave (-1))

/-- `nType` is the column that is searched. -/
def binSearch (key : UInt16) (lppTable : List (UInt16 × UInt16))
    (nType : UInt16 × UInt16 → UInt16) : Option Int :=
  Loop.run (binSearchPass key lppTable nType) (lppTable.length + 1)
    { front := 0, back := (lppTable.length : Int) - 1 }

/-- The pair found; the first one of the table counts as not found. -/
def lookUp (found : Int) (lppTable : List (UInt16 × UInt16)) (column : UInt16 × UInt16 → UInt16) :
    Option UInt16 :=
  if 0 < found then lppTable[found.toNat]?.map column else some 0xFFFF

def getun (tables : CodeTables) (gb : UInt16) : Option UInt16 := do
  let i ← binSearch gb tables.tableGB2132 Prod.fst
  lookUp i tables.tableGB2132 Prod.snd

def getgb (tables : CodeTables) (unicode : UInt16) : Option UInt16 := do
  let i ← binSearch unicode tables.tableUnicode Prod.snd
  lookUp i tables.tableUnicode Prod.fst

/-- A `char` is signed when it is widened to a unit. -/
def widen (ch : UInt8) : UInt16 :=
  if ch < 0x80 then ofBytes ch 0 else ofBytes ch 0xFF

structure Decoding where
  i : Nat
  unicode : List UInt16

def gb2132ToUnicodePass (tables : CodeTables) (gb : List UInt8) (len : Nat) (state : Decoding) :
    Option (Loop.Pass Decoding (List UInt16)) :=
  if state.i < len then
    if byteAt gb state.i ≤ 0x80 then
      some (.again { i := state.i + 1, unicode := state.unicode ++ [widen (byteAt gb state.i)] })
    else do
      let unit ← getun tables (ofBytes (byteAt gb state.i) (byteAt gb (state.i + 1)))
      some (.again { i := state.i + 2, unicode := state.unicode ++ [unit] })
  else
    some (.leave state.unicode)

/-- The units stored; their number is what is returned. -/
def gb2132ToUnicode (tables : CodeTables) (gb : List UInt8) (len : Nat) : Option (List UInt16) :=
  Loop.run (gb2132ToUnicodePass tables gb len) (len + 1) { i := 0, unicode := [] }

/-- The bytes stored for one unit. -/
def unitToGB2132 (tables : CodeTables) (unit : UInt16) : Option (List UInt8) :=
  if unit < 0x100 then
    some [lowByte unit]
  else do
    let iTmp ← getgb tables unit
    some (wordBytes iTmp)

def unicodeToGB2132 (tables : CodeTables) : List UInt16 → Option (List UInt8)
  | [] => some []
  | unit :: rest => do
    let bytes ← unitToGB2132 tables unit
    let after ← unicodeToGB2132 tables rest
    some (bytes ++ after)

variable {tables : CodeTables} {unit : UInt16} {unicode : List UInt16} {k : Nat}

/-- The search ends, and what it returns is `-1` or the place of a pair with the key. -/
theorem binSearch_ends (key : UInt16) (lppTable : List (UInt16 × UInt16))
    (nType : UInt16 × UInt16 → UInt16) :
    ∃ i, binSearch key lppTable nType = some i ∧
      (i = -1 ∨ ∃ pair, lppTable[i.toNat]? = some pair ∧ nType pair = key) := by
  have sound : Loop.Sound (binSearchPass key lppTable nType)
      (fun state => 0 ≤ state.front ∧ state.back < lppTable.length)
      (fun state => (state.back + 1 - state.front).toNat)
      (fun i => i = -1 ∨ ∃ pair, lppTable[i.toNat]? = some pair ∧ nType pair = key) := by
    rintro ⟨front, back⟩ ⟨lower, upper⟩
    simp only at lower upper
    by_cases more : front ≤ back
    · have bound : ((front + back) / 2).toNat < lppTable.length := by omega
      have read := List.getElem?_eq_getElem bound
      simp only [binSearchPass, if_pos more, read, Option.bind_eq_bind, Option.bind_some]
      by_cases found : key = nType lppTable[((front + back) / 2).toNat]
      · exact .inr ⟨_, if_pos found, .inr ⟨_, read, found.symm⟩⟩
      rw [if_neg found]
      by_cases before : key < nType lppTable[((front + back) / 2).toNat]
      · refine .inl ⟨_, if_pos before, ⟨lower, ?_⟩, ?_⟩
        · simp only
          omega
        · simp only
          omega
      · refine .inl ⟨_, if_neg before, ⟨?_, upper⟩, ?_⟩
        · simp only
          omega
        · simp only
          omega
    · exact .inr ⟨-1, if_neg more, .inl rfl⟩
  exact Loop.run_total sound ⟨Int.le_refl 0, by simp only; omega⟩ (by simp only; omega)

theorem lookUp_ends {i : Int} {lppTable : List (UInt16 × UInt16)} {nType : UInt16 × UInt16 → UInt16}
    {key : UInt16} (column : UInt16 × UInt16 → UInt16)
    (found : i = -1 ∨ ∃ pair, lppTable[i.toNat]? = some pair ∧ nType pair = key) :
    ∃ value, lookUp i lppTable column = some value ∧
      (value = 0xFFFF ∨ ∃ pair ∈ lppTable, nType pair = key ∧ column pair = value) := by
  unfold lookUp
  split
  · rename_i positive
    rcases found with rfl | ⟨pair, read, same⟩
    · exact absurd positive (by decide)
    · exact ⟨column pair, by rw [read, Option.map_some], .inr ⟨pair, List.mem_of_getElem? read, same, rfl⟩⟩
  · exact ⟨0xFFFF, rfl, .inl rfl⟩

theorem getun_ends (tables : CodeTables) (gb : UInt16) :
    ∃ value, getun tables gb = some value ∧
      (value = 0xFFFF ∨ ∃ pair ∈ tables.tableUnicode, pair.1 = gb ∧ pair.2 = value) := by
  obtain ⟨i, searched, found⟩ := binSearch_ends gb tables.tableGB2132 Prod.fst
  obtain ⟨value, read, known⟩ := lookUp_ends Prod.snd found
  refine ⟨value, by rw [getun, searched]; exact read, known.imp_right ?_⟩
  rintro ⟨pair, member, columns⟩
  exact ⟨pair, tables.samePairs.mem_iff.mp member, columns⟩

theorem getgb_ends (tables : CodeTables) (unicode : UInt16) :
    ∃ value, getgb tables unicode = some value ∧
      (value = 0xFFFF ∨ ∃ pair ∈ tables.tableUnicode, pair.2 = unicode ∧ pair.1 = value) := by
  obtain ⟨i, searched, found⟩ := binSearch_ends unicode tables.tableUnicode Prod.snd
  obtain ⟨value, read, known⟩ := lookUp_ends Prod.fst found
  exact ⟨value, by rw [getgb, searched]; exact read, known⟩

/-- A unit is in the reach of the encoder: one byte, or a pair of the tables that is
found both ways. -/
def CodeTables.Encodes (tables : CodeTables) (unit : UInt16) : Prop :=
  unit < 0x100 ∨ ∃ g, getgb tables unit = some g ∧ g ≠ 0xFFFF ∧ getun tables g = some unit

/-- A unit the two functions agree on: ASCII, or two bytes. -/
def Agreed (unit : UInt16) : Prop :=
  unit < 0x80 ∨ 0x100 ≤ unit

instance (unit : UInt16) : Decidable (Agreed unit) :=
  inferInstanceAs (Decidable (unit < 0x80 ∨ 0x100 ≤ unit))

def RoundTrips (tables : CodeTables) (unicode : List UInt16) (after : List UInt8) : Prop :=
  ∃ gb, unicodeToGB2132 tables unicode = some gb ∧
    gb2132ToUnicode tables (gb ++ after) gb.length = some unicode

def gbBytes (tables : CodeTables) (unit : UInt16) : List UInt8 :=
  (unitToGB2132 tables unit).getD []

theorem unitToGB2132_eq (tables : CodeTables) (unit : UInt16) :
    unitToGB2132 tables unit = some (gbBytes tables unit) := by
  obtain ⟨g, found, -⟩ := getgb_ends tables unit
  unfold gbBytes unitToGB2132
  split
  · rfl
  · rw [found]
    rfl

theorem unicodeToGB2132_run (tables : CodeTables) (unicode : List UInt16) :
    unicodeToGB2132 tables unicode = some (encode (gbBytes tables) unicode) := by
  induction unicode with
  | nil => rfl
  | cons unit rest ih =>
    rw [unicodeToGB2132, unitToGB2132_eq, ih]
    rfl

theorem gbBytes_narrow (narrow : unit < 0x100) : gbBytes tables unit = [lowByte unit] := by
  rw [gbBytes, unitToGB2132, if_pos narrow]
  rfl

theorem gbBytes_wide {g : UInt16} (wide : ¬ unit < 0x100) (found : getgb tables unit = some g) :
    gbBytes tables unit = wordBytes g := by
  rw [gbBytes, unitToGB2132, if_neg wide, found]
  rfl

/-- A word that the tables give is read as a lead byte and a second byte. -/
theorem lead_of_getgb {g : UInt16} (found : getgb tables unit = some g) (known : g ≠ 0xFFFF) :
    0x80 < lowByte g := by
  obtain ⟨value, read, missing | ⟨pair, member, -, rfl⟩⟩ := getgb_ends tables unit
  · rw [found, Option.some.injEq] at read
    exact absurd (read.trans missing) known
  · rw [found, Option.some.injEq] at read
    rw [read]
    exact tables.lead pair member

theorem byteAt_place (tables : CodeTables) (after : List UInt8) (bound : k < unicode.length) (j : Nat) :
    byteAt (encode (gbBytes tables) unicode ++ after) (place (gbBytes tables) unicode k + j) =
      byteAt (gbBytes tables unicode[k] ++
        (encode (gbBytes tables) (unicode.drop (k + 1)) ++ after)) j := by
  rw [← byteAt_drop, drop_place_append bound]

theorem toNat_lowByte_narrow (narrow : unit.toNat < 256) : (lowByte unit).toNat = unit.toNat := by
  rw [toNat_lowByte]
  exact Nat.mod_eq_of_lt narrow

theorem gbBytes_pos (tables : CodeTables) (unit : UInt16) : 0 < (gbBytes tables unit).length := by
  obtain ⟨g, found, -⟩ := getgb_ends tables unit
  by_cases narrow : unit < 0x100
  · rw [gbBytes_narrow narrow]
    exact Nat.one_pos
  · rw [gbBytes_wide narrow found]
    exact Nat.two_pos

theorem place_lt (tables : CodeTables) (bound : k < unicode.length) :
    place (gbBytes tables) unicode k < (encode (gbBytes tables) unicode).length := by
  have inside := place_succ_le (gbBytes tables) bound
  have positive := gbBytes_pos tables unicode[k]
  omega

/-- A unit of the agreed ranges is read back from its own bytes. -/
theorem gb2132ToUnicodePass_agreed (after : List UInt8) (bound : k < unicode.length)
    (encodes : tables.Encodes unicode[k]) (agreed : Agreed unicode[k]) :
    gb2132ToUnicodePass tables (encode (gbBytes tables) unicode ++ after)
        (encode (gbBytes tables) unicode).length
        { i := place (gbBytes tables) unicode k, unicode := unicode.take k } =
      some (.again { i := place (gbBytes tables) unicode (k + 1), unicode := unicode.take (k + 1) }) := by
  have first := byteAt_place tables after bound 0
  have second := byteAt_place tables after bound 1
  rw [Nat.add_zero] at first
  rw [gb2132ToUnicodePass, if_pos (place_lt tables bound), place_succ bound, ← List.take_append_getElem bound,
    first, second]
  rcases agreed with ascii | wide
  · have narrow : unicode[k] < 0x100 := by
      rw [UInt16.lt_iff_toNat_lt] at ascii ⊢
      simp only [UInt16.reduceToNat] at ascii ⊢
      omega
    rw [UInt16.lt_iff_toNat_lt] at ascii
    simp only [UInt16.reduceToNat] at ascii
    have value : (lowByte unicode[k]).toNat = unicode[k].toNat := toNat_lowByte_narrow (by omega)
    have single : lowByte unicode[k] ≤ 0x80 ∧ lowByte unicode[k] < 0x80 := by
      rw [UInt8.le_iff_toNat_le, UInt8.lt_iff_toNat_lt, value]
      simp only [UInt8.reduceToNat]
      omega
    have same : widen (lowByte unicode[k]) = unicode[k] := by
      rw [widen, if_pos single.2, ← UInt16.toNat_inj, toNat_ofBytes, value]
      simp only [UInt8.reduceToNat]
      omega
    rw [gbBytes_narrow narrow, List.singleton_append]
    simp only [byteAt, List.getD_cons_zero, if_pos single.1, same, List.length_singleton]
  · have beyond : ¬ unicode[k] < 0x100 := UInt16.not_lt.mpr wide
    obtain ⟨g, found, known, back⟩ := encodes.resolve_left beyond
    have lead : ¬ lowByte g ≤ 0x80 := UInt8.not_le.mpr (lead_of_getgb found known)
    rw [gbBytes_wide beyond found, wordBytes, List.cons_append, List.cons_append]
    simp only [byteAt, List.getD_cons_zero, List.getD_cons_succ, if_neg lead, ofBytes_bytes, back,
      Option.bind_eq_bind, Option.bind_some, List.length_cons, List.length_nil]

/-- Any other unit below `0x100` is read as something else, unless the tables have it
as the unit of some pair. -/
theorem gb2132ToUnicodePass_other (after : List UInt8) (bound : k < unicode.length) (other : ¬ Agreed unicode[k])
    (apart : unicode[k] ∉ tables.tableUnicode.map Prod.snd) :
    ∃ i unit, place (gbBytes tables) unicode k < i ∧ unit ≠ unicode[k] ∧
      gb2132ToUnicodePass tables (encode (gbBytes tables) unicode ++ after)
          (encode (gbBytes tables) unicode).length
          { i := place (gbBytes tables) unicode k, unicode := unicode.take k } =
        some (.again { i, unicode := unicode.take k ++ [unit] }) := by
  simp only [Agreed, not_or, UInt16.not_lt, UInt16.not_le] at other
  obtain ⟨lower, upper⟩ := other
  have first := byteAt_place tables after bound 0
  rw [Nat.add_zero, gbBytes_narrow upper, List.singleton_append, byteAt, byteAt,
    List.getD_cons_zero, ← byteAt] at first
  rw [UInt16.le_iff_toNat_le] at lower
  rw [UInt16.lt_iff_toNat_lt] at upper
  simp only [UInt16.reduceToNat] at lower upper
  have value := toNat_lowByte_narrow upper
  rw [gb2132ToUnicodePass, if_pos (place_lt tables bound), first]
  by_cases single : lowByte unicode[k] ≤ 0x80
  · refine ⟨_, _, Nat.lt_succ_self _, ?_, by rw [if_pos single]⟩
    -- the byte 0x80 is negative as a `char`
    intro same
    have negative : ¬ lowByte unicode[k] < 0x80 := by
      rw [UInt8.not_lt, UInt8.le_iff_toNat_le, value]
      exact lower
    rw [widen, if_neg negative, ← UInt16.toNat_inj, toNat_ofBytes] at same
    simp only [UInt8.reduceToNat] at same
    omega
  · obtain ⟨unit, read, known⟩ := getun_ends tables (ofBytes (lowByte unicode[k])
      (byteAt (encode (gbBytes tables) unicode ++ after) (place (gbBytes tables) unicode k + 1)))
    refine ⟨place (gbBytes tables) unicode k + 2, unit, by omega, ?_, ?_⟩
    · rintro rfl
      rcases known with missing | ⟨pair, member, -, same⟩
      · rw [← UInt16.toNat_inj] at missing
        simp only [UInt16.reduceToNat] at missing
        omega
      · exact apart (List.mem_map.mpr ⟨pair, member, same⟩)
    · rw [if_neg single, read]
      rfl

/-- What is stored stays, and the decoder ends. -/
theorem gb2132ToUnicode_extends (tables : CodeTables) (gb : List UInt8) (len i : Nat) (stored : List UInt16)
    {fuel : Nat} (enough : len - i < fuel) :
    ∃ units, Loop.run (gb2132ToUnicodePass tables gb len) fuel { i, unicode := stored } = some units ∧
      stored <+: units := by
  have sound : Loop.Sound (gb2132ToUnicodePass tables gb len)
      (fun state => stored <+: state.unicode) (fun state => len - state.i)
      (fun units => stored <+: units) := by
    rintro ⟨i, unicode⟩ kept
    simp only at kept
    by_cases more : i < len
    · rw [gb2132ToUnicodePass, if_pos more]
      split
      · exact .inl ⟨_, rfl, kept.trans (List.prefix_append _ _), by simp only; omega⟩
      · obtain ⟨unit, read, -⟩ := getun_ends tables (ofBytes (byteAt gb i) (byteAt gb (i + 1)))
        simp only [read]
        exact .inl ⟨_, rfl, kept.trans (List.prefix_append _ _), by simp only; omega⟩
    · exact .inr ⟨unicode, if_neg more, kept⟩
  exact Loop.run_total sound (List.prefix_refl _) enough

/-- As long as the units are of the agreed ranges the decoder is in step. -/
theorem gb2132ToUnicode_step (after : List UInt8) (upTo : k ≤ unicode.length)
    (encodes : ∀ unit ∈ unicode, tables.Encodes unit)
    (agreed : ∀ (j : Nat) (bound : j < unicode.length), j < k → Agreed unicode[j]) :
    ∃ fuel, (encode (gbBytes tables) unicode).length - place (gbBytes tables) unicode k < fuel ∧
      gb2132ToUnicode tables (encode (gbBytes tables) unicode ++ after)
          (encode (gbBytes tables) unicode).length =
        Loop.run (gb2132ToUnicodePass tables (encode (gbBytes tables) unicode ++ after)
            (encode (gbBytes tables) unicode).length) fuel
          { i := place (gbBytes tables) unicode k, unicode := unicode.take k } := by
  have steps : k ≤ place (gbBytes tables) unicode k := by
    clear agreed
    induction k with
    | zero => exact Nat.le_refl _
    | succ k ih =>
      have before := ih (by omega)
      have positive := gbBytes_pos tables unicode[k]
      rw [place_succ (by omega)]
      omega
  have inside := place_le (gbBytes tables) unicode k
  refine ⟨(encode (gbBytes tables) unicode).length + 1 - k, by omega, ?_⟩
  have trace := Loop.run_trace
    (fun k => ({ i := place (gbBytes tables) unicode k, unicode := unicode.take k } : Decoding)) k
    (fun j before => gb2132ToUnicodePass_agreed after (by omega)
      (encodes _ (List.getElem_mem (by omega))) (agreed j (by omega) before))
    ((encode (gbBytes tables) unicode).length + 1 - k)
  rw [Nat.sub_add_cancel (by omega)] at trace
  exact trace

/-- Text of ASCII characters and of pairs of the tables comes back, whatever follows
it in memory. -/
theorem roundTrips_of_agreed (after : List UInt8)
    (encodes : ∀ unit ∈ unicode, tables.Encodes unit) (agreed : ∀ unit ∈ unicode, Agreed unit) :
    RoundTrips tables unicode after := by
  obtain ⟨fuel, enough, decoded⟩ := gb2132ToUnicode_step after
    (Nat.le_refl unicode.length) encodes fun j bound _ => agreed _ (List.getElem_mem bound)
  refine ⟨encode (gbBytes tables) unicode, unicodeToGB2132_run tables unicode, decoded.trans ?_⟩
  obtain ⟨fuel, rfl⟩ := Nat.exists_eq_succ_of_ne_zero (Nat.ne_zero_of_lt enough)
  refine Loop.run_leave ?_ fuel
  rw [place_length, List.take_length]
  exact if_neg (Nat.lt_irrefl _)

/-- The first unit the functions disagree on comes back as another one. -/
theorem agreed_of_roundTrips {after : List UInt8}
    (encodes : ∀ unit ∈ unicode, tables.Encodes unit)
    (apart : ∀ unit ∈ unicode, ¬ Agreed unit → unit ∉ tables.tableUnicode.map Prod.snd)
    (holds : RoundTrips tables unicode after) : ∀ unit ∈ unicode, Agreed unit := by
  by_contra fails
  have exist : ∃ j, ∃ bound : j < unicode.length, ¬ Agreed unicode[j] := by
    push Not at fails
    obtain ⟨unit, member, other⟩ := fails
    obtain ⟨j, bound, rfl⟩ := List.getElem_of_mem member
    exact ⟨j, bound, other⟩
  obtain ⟨bound, other⟩ := Nat.find_spec exist
  have earlier (j : Nat) (inside : j < unicode.length) (before : j < Nat.find exist) :
      Agreed unicode[j] := by
    by_contra disagreed
    exact Nat.find_min exist before ⟨inside, disagreed⟩
  obtain ⟨gb, encoded, decoded⟩ := holds
  rw [unicodeToGB2132_run, Option.some.injEq] at encoded
  subst encoded
  obtain ⟨fuel, enough, step⟩ := gb2132ToUnicode_step after (Nat.le_of_lt bound) encodes
    earlier
  obtain ⟨i, unit, moved, differs, passed⟩ := gb2132ToUnicodePass_other after bound other
    (apart _ (List.getElem_mem bound) other)
  obtain ⟨fuel, rfl⟩ := Nat.exists_eq_succ_of_ne_zero (Nat.ne_zero_of_lt enough)
  have inside := place_lt tables bound
  obtain ⟨units, ended, kept⟩ := gb2132ToUnicode_extends tables
    (encode (gbBytes tables) unicode ++ after) (encode (gbBytes tables) unicode).length i
    (unicode.take (Nat.find exist) ++ [unit]) (show _ < fuel by omega)
  rw [step, Loop.run_again passed, ended, Option.some.injEq] at decoded
  subst decoded
  have place : (units.take (Nat.find exist)).length = Nat.find exist :=
    List.length_take_of_le (Nat.le_of_lt bound)
  have last := kept.getElem (i := Nat.find exist)
    (by rw [List.length_append, place, List.length_singleton]; exact Nat.lt_succ_self _)
  rw [List.getElem_append_right (Nat.le_of_eq place)] at last
  exact differs (by simpa using last)

/-- Text that the encoder reaches comes back when it has no unit from `0x80` to `0xFF`, and
otherwise not, unless such a unit stands in the Unicode column of the tables. -/
theorem gb2132_roundTrip_iff (tables : CodeTables) (unicode : List UInt16) (after : List UInt8)
    (encodes : ∀ unit ∈ unicode, tables.Encodes unit) :
    ((∀ unit ∈ unicode, Agreed unit) → RoundTrips tables unicode after) ∧
      ((∀ unit ∈ unicode, ¬ Agreed unit → unit ∉ tables.tableUnicode.map Prod.snd) →
        (RoundTrips tables unicode after ↔ ∀ unit ∈ unicode, Agreed unit)) := by
  refine ⟨roundTrips_of_agreed after encodes, fun apart => ⟨?_, roundTrips_of_agreed after encodes⟩⟩
  exact agreed_of_roundTrips encodes apart

/-- The first pairs of the file. -/
def firstPairs : CodeTables where
  tableUnicode := [(0xA1A1, 0x3000), (0xA2A1, 0x3001), (0xA3A1, 0x3002)]
  tableGB2132 := [(0xA1A1, 0x3000), (0xA2A1, 0x3001), (0xA3A1, 0x3002)]
  unicodeIncreasing := by decide
  gbIncreasing := by decide
  samePairs := List.Perm.refl _
  lead := List.forall_iff_forall_mem.mp (by decide)

theorem gb2132_roundTrip_punctuation :
    (∀ unit ∈ [0x41, 0x3002], firstPairs.Encodes unit) ∧
      RoundTrips firstPairs [0x41, 0x3002] [0x2E] := by
  have encodes : ∀ unit ∈ [0x41, 0x3002], firstPairs.Encodes unit := by
    intro unit member
    rcases List.mem_pair.mp member with rfl | rfl
    · exact .inl (by decide)
    · exact .inr ⟨0xA3A1, by decide, by decide, by decide⟩
  have agreed : ∀ unit ∈ [0x41, 0x3002], Agreed unit := List.forall_iff_forall_mem.mp (by decide)
  exact ⟨encodes, (gb2132_roundTrip_iff firstPairs [0x41, 0x3002] [0x2E] encodes).1 agreed⟩

/-- The unit `0x80` comes back as `0xFF80`. -/
theorem gb2132_roundTrip_fails :
    firstPairs.Encodes 0x80 ∧ unicodeToGB2132 firstPairs [0x80] = some [0x80] ∧
      gb2132ToUnicode firstPairs [0x80] 1 = some [0xFF80] ∧ ¬ RoundTrips firstPairs [0x80] [] := by
  have encoded : unicodeToGB2132 firstPairs [0x80] = some [0x80] := by decide
  have decoded : gb2132ToUnicode firstPairs [0x80] 1 = some [0xFF80] := by decide
  refine ⟨.inl (by decide), encoded, decoded, ?_⟩
  rintro ⟨gb, written, read⟩
  rw [encoded, Option.some.injEq] at written
  subst written
  exact absurd (decoded.symm.trans read) (by decide)

end IDAPlugins.CopyString
