import IDAPlugins.Bubble
import IDAPlugins.CopyString.Gb2132

namespace IDAPlugins.CopyString

/-! # The code tables

`GB2132ToUnicodeInit` copies `g_TableUnicode` and sorts the copy by its GB column.
`bin_search` then finds the pairs of both tables by their keys, and the two look-ups
test what it returns.
-/

/-- The rows `i` and `i + 1`, exchanged when the first GB word is above the second;
`none` is a row outside the table. -/
def swapRows (lppTable : List (UInt16 × UInt16)) (i : Nat) : Option (List (UInt16 × UInt16)) := do
  let row ← lppTable[i]?
  let next ← lppTable[i + 1]?
  some (if next.1 < row.1 then (lppTable.set i next).set (i + 1) row else lppTable)

def myQsort (lppTable : List (UInt16 × UInt16)) : Option (List (UInt16 × UInt16)) :=
  let nTalbeCount := lppTable.length - 1
  (List.range nTalbeCount).foldlM
    (fun lppTable j => (List.range (nTalbeCount - j)).foldlM swapRows lppTable) lppTable

/-- `getun` on any table in the place of `g_TableGB2132`. -/
def getunOf (tableGB2132 : List (UInt16 × UInt16)) (gb : UInt16) : Option UInt16 := do
  let i ← binSearch gb tableGB2132 Prod.fst
  lookUp i tableGB2132 Prod.snd

/-- `getgb` on any table in the place of `g_TableUnicode`. -/
def getgbOf (tableUnicode : List (UInt16 × UInt16)) (unicode : UInt16) : Option UInt16 := do
  let i ← binSearch unicode tableUnicode Prod.snd
  lookUp i tableUnicode Prod.fst

theorem getun_eq (tables : CodeTables) (gb : UInt16) :
    getun tables gb = getunOf tables.tableGB2132 gb := rfl

theorem getgb_eq (tables : CodeTables) (unicode : UInt16) :
    getgb tables unicode = getgbOf tables.tableUnicode unicode := rfl

variable {lppTable : List (UInt16 × UInt16)} {nType : UInt16 × UInt16 → UInt16}

theorem key_lt_of_increasing (increasing : (lppTable.map nType).Pairwise (· < ·)) {i k : Nat}
    (before : i < k) (inside : i < lppTable.length) (bound : k < lppTable.length) :
    nType lppTable[i] < nType lppTable[k] := by
  have ordered := List.pairwise_iff_getElem.mp increasing i k
    (by rw [List.length_map]; exact inside) (by rw [List.length_map]; exact bound) before
  rwa [List.getElem_map, List.getElem_map] at ordered

/-- In a table in strictly increasing order every row is found by its key. -/
theorem binSearch_row (increasing : (lppTable.map nType).Pairwise (· < ·)) {k : Nat}
    (bound : k < lppTable.length) : binSearch (nType lppTable[k]) lppTable nType = some (k : Int) := by
  -- the row stays between the two ends of the interval
  have sound : Loop.Sound (binSearchPass (nType lppTable[k]) lppTable nType)
      (fun state => 0 ≤ state.front ∧ state.back < lppTable.length ∧ state.front ≤ k ∧ k ≤ state.back)
      (fun state => (state.back + 1 - state.front).toNat) (fun i => i = k) := by
    intro state inside
    obtain ⟨lower, upper, above, below⟩ := inside
    have more : state.front ≤ state.back := by omega
    have middle : ((state.front + state.back) / 2).toNat < lppTable.length := by omega
    have read := List.getElem?_eq_getElem middle
    simp only [binSearchPass, if_pos more, read, Option.bind_eq_bind, Option.bind_some]
    rcases Nat.lt_trichotomy ((state.front + state.back) / 2).toNat k with left | same | right
    · have ordered := key_lt_of_increasing increasing left middle bound
      rw [if_neg (UInt16.ne_of_lt ordered).symm, if_neg (UInt16.lt_asymm ordered)]
      refine .inl ⟨_, rfl, ⟨?_, upper, ?_, below⟩, ?_⟩
      all_goals
        simp only
        omega
    · have found : nType lppTable[k] = nType lppTable[((state.front + state.back) / 2).toNat] := by
        simp only [same]
      rw [if_pos found]
      exact .inr ⟨_, rfl, by omega⟩
    · have ordered := key_lt_of_increasing increasing right bound middle
      rw [if_neg (UInt16.ne_of_lt ordered), if_pos ordered]
      refine .inl ⟨_, rfl, ⟨lower, ?_, above, ?_⟩, ?_⟩
      all_goals
        simp only
        omega
  have ran : ∃ i, binSearch (nType lppTable[k]) lppTable nType = some i ∧ i = (k : Int) :=
    Loop.run_total sound
      ⟨Int.le_refl 0, by simp only; omega, by simp only; omega, by simp only; omega⟩
      (by simp only; omega)
  obtain ⟨i, run, rfl⟩ := ran
  exact run

theorem binSearch_missing {key : UInt16} (missing : key ∉ lppTable.map nType) :
    binSearch key lppTable nType = some (-1) := by
  obtain ⟨i, run, rfl | ⟨pair, read, same⟩⟩ := binSearch_ends key lppTable nType
  · exact run
  · exact absurd (List.mem_map.mpr ⟨pair, List.mem_of_getElem? read, same⟩) missing

def gbWord (pair : UInt16 × UInt16) : Nat := pair.1.toNat

theorem swapRows_eq : swapRows = Bubble.exchange gbWord := by
  funext lppTable i
  rw [swapRows, Bubble.exchange]
  exact congrArg _ (funext fun row => congrArg _ (funext fun next => congrArg some
    (if_congr UInt16.lt_iff_toNat_lt rfl rfl)))

theorem myQsort_eq (lppTable : List (UInt16 × UInt16)) :
    myQsort lppTable = Bubble.sort gbWord lppTable := by
  rw [myQsort, swapRows_eq]
  rfl

theorem myQsort_increasing (distinct : (lppTable.map Prod.fst).Nodup) :
    ∃ sorted, myQsort lppTable = some sorted ∧ sorted.Perm lppTable ∧
      (sorted.map Prod.fst).Pairwise (· < ·) := by
  have apart : (lppTable.map gbWord).Nodup := by
    rw [List.nodup_iff_pairwise_ne, List.pairwise_map] at distinct ⊢
    exact distinct.imp fun differ same => differ (UInt16.toNat_inj.mp same)
  obtain ⟨sorted, run, same, increasing⟩ := Bubble.sort_distinct gbWord apart
  rw [List.pairwise_map] at increasing
  exact ⟨sorted, (myQsort_eq lppTable).trans run, same, List.pairwise_map.mpr increasing⟩

/-- What a search in the sorted table gives. -/
def Searchable (original sorted : List (UInt16 × UInt16)) (key : UInt16) : Prop :=
  ∃ i, binSearch key sorted Prod.fst = some i ∧
    ((∃ pair ∈ original, pair.1 = key ∧ 0 ≤ i ∧ sorted[i.toNat]? = some pair) ∨
      key ∉ original.map Prod.fst ∧ i = -1)

/-- From pairs with GB words of their own `MyQsort` makes a table of the same pairs in strictly
increasing order of these words, in which `bin_search` returns the index of the row with the
key, or `-1` where no pair has it. -/
theorem myQsort_searchable (lppTable : List (UInt16 × UInt16))
    (distinct : (lppTable.map Prod.fst).Nodup) :
    ∃ sorted, myQsort lppTable = some sorted ∧ sorted.Perm lppTable ∧
      (sorted.map Prod.fst).Pairwise (· < ·) ∧ ∀ key, Searchable lppTable sorted key := by
  obtain ⟨sorted, run, same, increasing⟩ := myQsort_increasing distinct
  refine ⟨sorted, run, same, increasing, ?_⟩
  intro key
  by_cases known : key ∈ sorted.map Prod.fst
  · obtain ⟨pair, member, rfl⟩ := List.mem_map.mp known
    obtain ⟨k, bound, rfl⟩ := List.getElem_of_mem member
    exact ⟨k, binSearch_row increasing bound, .inl ⟨sorted[k], same.mem_iff.mp member, rfl,
      Int.natCast_nonneg k, List.getElem?_eq_getElem bound⟩⟩
  · have absent : key ∉ lppTable.map Prod.fst := fun member => known ((same.map _).mem_iff.mpr member)
    exact ⟨-1, binSearch_missing known, .inr ⟨absent, rfl⟩⟩

theorem myQsort_searchable_three :
    (([(0xA3A1, 0x3002), (0xA1A1, 0x3000), (0xA2A1, 0x3001)] :
        List (UInt16 × UInt16)).map Prod.fst).Nodup ∧
      ∃ sorted, myQsort [(0xA3A1, 0x3002), (0xA1A1, 0x3000), (0xA2A1, 0x3001)] = some sorted ∧
        sorted.Perm [(0xA3A1, 0x3002), (0xA1A1, 0x3000), (0xA2A1, 0x3001)] ∧
        (sorted.map Prod.fst).Pairwise (· < ·) ∧
        ∀ key, Searchable [(0xA3A1, 0x3002), (0xA1A1, 0x3000), (0xA2A1, 0x3001)] sorted key :=
  ⟨by decide, myQsort_searchable [(0xA3A1, 0x3002), (0xA1A1, 0x3000), (0xA2A1, 0x3001)] (by decide)⟩

/-- A code table, with its copy in the order of the GB column. -/
structure SearchTables where
  tableUnicode : List (UInt16 × UInt16)
  tableGB2132 : List (UInt16 × UInt16)
  nonEmpty : tableUnicode ≠ []
  unicodeIncreasing : (tableUnicode.map Prod.snd).Pairwise (· < ·)
  gbIncreasing : (tableGB2132.map Prod.fst).Pairwise (· < ·)
  samePairs : tableGB2132.Perm tableUnicode

namespace SearchTables

variable {tables : SearchTables} {pair : UInt16 × UInt16}

def Finds (tables : SearchTables) (pair : UInt16 × UInt16) : Prop :=
  getgbOf tables.tableUnicode pair.2 = some pair.1 ∧ getunOf tables.tableGB2132 pair.1 = some pair.2

/-- A value that is no key gives `0xFFFF`. -/
def Misses (tables : SearchTables) : Prop :=
  (∀ unicode, unicode ∉ tables.tableUnicode.map Prod.snd →
    getgbOf tables.tableUnicode unicode = some 0xFFFF) ∧
  ∀ gb, gb ∉ tables.tableUnicode.map Prod.fst → getunOf tables.tableGB2132 gb = some 0xFFFF

def FindsEvery (tables : SearchTables) : Prop :=
  (∀ pair ∈ tables.tableUnicode, tables.Finds pair) ∧ tables.Misses

/-- The pair is the first row of a table only where it has `0xFFFF` to give there. -/
def Reached (tables : SearchTables) (pair : UInt16 × UInt16) : Prop :=
  (tables.tableUnicode.head? = some pair → pair.1 = 0xFFFF) ∧
  (tables.tableGB2132.head? = some pair → pair.2 = 0xFFFF)

end SearchTables

/-- The row at index zero is looked up as if it were missing. -/
theorem lookUp_row_iff (column : UInt16 × UInt16 → UInt16) {k : Nat} (bound : k < lppTable.length) :
    lookUp k lppTable column = some (column lppTable[k]) ↔ (k = 0 → column lppTable[k] = 0xFFFF) := by
  rw [lookUp]
  by_cases positive : 0 < k
  · rw [if_pos (by omega), Int.toNat_natCast, List.getElem?_eq_getElem bound]
    exact iff_of_true rfl fun zero => absurd zero (by omega)
  · have zero : k = 0 := by omega
    rw [if_neg (by omega), Option.some.injEq, eq_comm]
    exact ⟨fun given _ => given, fun given => given zero⟩

theorem head_eq_iff (increasing : (lppTable.map nType).Pairwise (· < ·)) {k : Nat}
    (bound : k < lppTable.length) : lppTable.head? = some lppTable[k] ↔ k = 0 := by
  rw [List.head?_eq_getElem?, List.getElem?_eq_getElem (by omega), Option.some.injEq]
  constructor
  · intro same
    by_contra later
    have ordered := key_lt_of_increasing increasing (Nat.pos_of_ne_zero later) (by omega) bound
    rw [same] at ordered
    exact UInt16.lt_irrefl _ ordered
  · intro zero
    simp only [zero]

/-- A pair of a table in order is looked up by its key, unless it is the first one. -/
theorem lookUp_pair_iff (column : UInt16 × UInt16 → UInt16)
    (increasing : (lppTable.map nType).Pairwise (· < ·)) {pair : UInt16 × UInt16}
    (member : pair ∈ lppTable) :
    (do let i ← binSearch (nType pair) lppTable nType
        lookUp i lppTable column) = some (column pair) ↔
      (lppTable.head? = some pair → column pair = 0xFFFF) := by
  obtain ⟨k, bound, rfl⟩ := List.getElem_of_mem member
  rw [binSearch_row increasing bound, head_eq_iff increasing bound]
  exact lookUp_row_iff column bound

theorem lookUp_missing (column : UInt16 × UInt16 → UInt16) {key : UInt16}
    (missing : key ∉ lppTable.map nType) :
    (do let i ← binSearch key lppTable nType
        lookUp i lppTable column) = some 0xFFFF := by
  rw [binSearch_missing missing]
  rfl

namespace SearchTables

variable {tables : SearchTables} {pair : UInt16 × UInt16}

theorem misses (tables : SearchTables) : tables.Misses := by
  constructor
  · intro unicode missing
    exact lookUp_missing Prod.fst missing
  · intro gb missing
    exact lookUp_missing Prod.snd fun member =>
      missing ((tables.samePairs.map _).mem_iff.mp member)

theorem finds_iff (member : pair ∈ tables.tableUnicode) : tables.Finds pair ↔ tables.Reached pair :=
  and_congr (lookUp_pair_iff Prod.fst tables.unicodeIncreasing member)
    (lookUp_pair_iff Prod.snd tables.gbIncreasing (tables.samePairs.mem_iff.mpr member))

/-- A value that is no key gives `0xFFFF`, and an entry is found by both look-ups unless it is
the first row of one of the tables and does not have `0xFFFF` to give there. So all entries are
found only if both first rows do. -/
theorem findsEvery_iff (tables : SearchTables) :
    tables.Misses ∧ (∀ pair ∈ tables.tableUnicode, tables.Finds pair ↔ tables.Reached pair) ∧
      (tables.FindsEvery ↔
        (∀ first, tables.tableUnicode.head? = some first → first.1 = 0xFFFF) ∧
        ∀ first, tables.tableGB2132.head? = some first → first.2 = 0xFFFF) := by
  refine ⟨tables.misses, fun pair member => finds_iff member, ?_, ?_⟩
  · intro finds
    constructor
    · intro first head
      have member := List.mem_of_head? head
      exact ((finds_iff member).mp (finds.1 first member)).1 head
    · intro first head
      have member := tables.samePairs.mem_iff.mp (List.mem_of_head? head)
      exact ((finds_iff member).mp (finds.1 first member)).2 head
  · intro firsts
    refine ⟨?_, tables.misses⟩
    intro pair member
    exact (finds_iff member).mpr ⟨firsts.1 pair, firsts.2 pair⟩

end SearchTables

/-- The tables that the file sets up, for the look-ups. -/
def CodeTables.search (tables : CodeTables) (nonEmpty : tables.tableUnicode ≠ []) : SearchTables where
  tableUnicode := tables.tableUnicode
  tableGB2132 := tables.tableGB2132
  nonEmpty := nonEmpty
  unicodeIncreasing := tables.unicodeIncreasing
  gbIncreasing := tables.gbIncreasing
  samePairs := tables.samePairs

/-- The ideographic space, the first entry of the file, is not found. -/
theorem findsEvery_fails :
    getgbOf firstPairs.tableUnicode 0x3000 = some 0xFFFF ∧
      ¬ (firstPairs.search (List.cons_ne_nil _ _)).FindsEvery := by
  have missed : getgbOf firstPairs.tableUnicode 0x3000 = some 0xFFFF := by decide
  refine ⟨missed, ?_⟩
  intro finds
  have found := (finds.1 (0xA1A1, 0x3000) (List.mem_cons_self ..)).1
  exact absurd (missed.symm.trans found) (by decide)

structure Globals where
  g_UnicodeToGB2312 : Bool
  tableUnicode : List (UInt16 × UInt16)
  tableGB2132 : List (UInt16 × UInt16)

def gb2132ToUnicodeInit (globals : Globals) : Option Globals :=
  if globals.g_UnicodeToGB2312 then
    some globals
  else
    (myQsort globals.tableUnicode).map fun tableGB2132 =>
      { globals with g_UnicodeToGB2312 := true, tableGB2132 }

/-- The first call leaves tables for the look-ups, which the later calls keep. -/
theorem gb2132ToUnicodeInit_search {globals : Globals} (first : globals.g_UnicodeToGB2312 = false)
    (nonEmpty : globals.tableUnicode ≠ [])
    (increasing : (globals.tableUnicode.map Prod.snd).Pairwise (· < ·))
    (distinct : (globals.tableUnicode.map Prod.fst).Nodup) :
    ∃ (after : Globals) (tables : SearchTables), gb2132ToUnicodeInit globals = some after ∧
      after.tableUnicode = tables.tableUnicode ∧ after.tableGB2132 = tables.tableGB2132 ∧
      gb2132ToUnicodeInit after = some after := by
  obtain ⟨sorted, run, same, gbIncreasing⟩ := myQsort_increasing distinct
  refine ⟨{ globals with g_UnicodeToGB2312 := true, tableGB2132 := sorted },
    { tableUnicode := globals.tableUnicode, tableGB2132 := sorted, nonEmpty
      unicodeIncreasing := increasing, gbIncreasing, samePairs := same }, ?_, rfl, rfl, rfl⟩
  rw [gb2132ToUnicodeInit, first, run]
  rfl

end IDAPlugins.CopyString
