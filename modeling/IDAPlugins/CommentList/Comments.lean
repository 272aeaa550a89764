import IDAPlugins.CommentList.Filters
import IDAPlugins.Firsts
import IDAPlugins.Transition

namespace IDAPlugins.CommentList

open Firsts

/-! # The list of comments

`IDAP_run` keeps of the comments collected the first with each text and shows those
whose text is not among the filters. Choosing "Add Filter List" on a row adds its text
to the filters, lets the user delete filters and fills the list again.
-/

structure ListData where
  eaAddr : Nat
  strValue : List UInt8
  deriving DecidableEq

/-- What outlives a call, and the bytes of the filter file. -/
structure Lists where
  ldData : List ListData
  ldCommentData : List ListData
  ldFilterData : List (List UInt8)
  iniFile : List UInt8

def vectorFind (strValue : List UInt8) (ldFindData : List (List UInt8)) : Int :=
  match ldFindData.idxOf? strValue with
  | some i => i
  | none => -1

/-- The two containers of the first loop: the texts, and a block of addresses of which
the first `j` are written. -/
structure Distinct where
  vStr : List (List UInt8)
  lpea_ts : List Nat
  j : Nat

def distinctPass (state : Distinct) (row : ListData) : Option Distinct :=
  if vectorFind row.strValue state.vStr < 0 then
    if state.j < state.lpea_ts.length then
      some
        { vStr := state.vStr ++ [row.strValue]
          lpea_ts := state.lpea_ts.set state.j row.eaAddr
          j := state.j + 1 }
    else none
  else some state

def readRow (state : Distinct) (i : Nat) : Option ListData := do
  let eaAddr ← state.lpea_ts[i]?
  let strValue ← state.vStr[i]?
  some { eaAddr, strValue }

/-- `ldData` behind the two loops. `heap` is what the block holds at first. -/
def distinctRows (heap : Nat → Nat) (ldTmpData : List ListData) : Option (List ListData) := do
  let lpea_ts := (List.range ldTmpData.length).map heap
  let state ← ldTmpData.foldlM distinctPass { vStr := [], lpea_ts, j := 0 }
  (List.range state.vStr.length).mapM (readRow state)

def shownRows (ldData : List ListData) (ldFilterData : List (List UInt8)) : List ListData :=
  ldData.filter fun row => decide (vectorFind row.strValue ldFilterData < 0)

/-- `IDAP_run` up to the chooser, from the comments that were collected. -/
def idapRun (heap : Nat → Nat) (ldTmpData : List ListData) (lists : Lists) : Option Lists :=
  (distinctRows heap ldTmpData).map fun ldData =>
    { lists with ldData, ldCommentData := shownRows ldData lists.ldFilterData }

def idaListFilterDelete (ldFilterData : List (List UInt8)) (n : Nat) : Option (List (List UInt8)) :=
  if 1 ≤ n ∧ n ≤ ldFilterData.length then some (ldFilterData.eraseIdx (n - 1)) else none

/-- One use of "Add Filter List": the row, the filters deleted in the second chooser
and what that chooser returns. -/
structure Update where
  n : Nat
  deletes : List Nat
  choi : Int

/-- The filters as the second chooser first shows them. -/
def offered (ldFilterData : List (List UInt8)) (strValue : List UInt8) : List (List UInt8) :=
  if vectorFind strValue ldFilterData < 0 then ldFilterData ++ [strValue] else ldFilterData

def idaListCommentUpdate (lists : Lists) (update : Update) : Option Lists :=
  if update.n < 1 then
    some lists
  else do
    let row ← lists.ldCommentData[update.n - 1]?
    let ldFilterData ← update.deletes.foldlM idaListFilterDelete
      (offered lists.ldFilterData row.strValue)
    some
      { lists with
        ldFilterData
        ldCommentData := shownRows lists.ldData ldFilterData
        iniFile := if 0 < update.choi then writeFilterIni ldFilterData else lists.iniFile }

/-- The list of the comments collected: it opens with any filters and takes updates. -/
def commentList (heap : Nat → Nat) (ldTmpData : List ListData) : Transition.System Lists Update where
  initial lists := ∃ before, idapRun heap ldTmpData before = some lists
  step := idaListCommentUpdate

def anyUpdate (_ : Lists) (_ : Update) : Bool :=
  true

theorem vectorFind_neg_iff {strValue : List UInt8} {ldFindData : List (List UInt8)} :
    vectorFind strValue ldFindData < 0 ↔ strValue ∉ ldFindData := by
  rw [vectorFind]
  cases found : ldFindData.idxOf? strValue with
  | none =>
    have absent := List.idxOf?_eq_none_iff.mp found
    exact iff_of_true (by decide) absent
  | some i =>
    have present : strValue ∈ ldFindData := by
      by_contra absent
      rw [List.idxOf?_eq_none_iff.mpr absent] at found
      cases found
    exact iff_of_false (Int.not_lt.mpr (Int.natCast_nonneg i)) (not_not.mpr present)

structure Aligned (rows : List ListData) (size : Nat) (state : Distinct) : Prop where
  texts : state.vStr = rows.map ListData.strValue
  written : state.lpea_ts.take state.j = rows.map ListData.eaAddr
  count : state.j = rows.length
  room : state.lpea_ts.length = size

/-- Over rows that fit the block the loop keeps the containers aligned with the first
occurrences. -/
theorem distinctPass_aligned {size : Nat} {state : Distinct} {before : List ListData}
    (aligned : Aligned (firsts ListData.strValue before) size state) (row : ListData)
    (room : before.length < size) :
    ∃ next, distinctPass state row = some next ∧
      Aligned (firsts ListData.strValue (before ++ [row])) size next := by
  have known : row.strValue ∈ state.vStr ↔ row.strValue ∈ before.map ListData.strValue := by
    rw [aligned.texts, mem_keys_iff]
  rw [firsts_concat]
  by_cases seen : row.strValue ∈ before.map ListData.strValue
  · refine ⟨state, ?_, if_pos seen ▸ aligned⟩
    have found : ¬vectorFind row.strValue state.vStr < 0 :=
      fun negative => vectorFind_neg_iff.mp negative (known.mpr seen)
    rw [distinctPass, if_neg found]
  · have fresh : vectorFind row.strValue state.vStr < 0 :=
      vectorFind_neg_iff.mpr fun member => seen (known.mp member)
    have fewer : (firsts ListData.strValue before).length ≤ before.length :=
      (firsts_sublist before).length_le
    have bound : state.j < state.lpea_ts.length := by
      rw [aligned.count, aligned.room]
      exact Nat.lt_of_le_of_lt fewer room
    refine ⟨_, by rw [distinctPass, if_pos fresh, if_pos bound], ?_⟩
    rw [if_neg seen]
    constructor
    · rw [aligned.texts, List.map_append]
      rfl
    · have block : (state.lpea_ts.set state.j row.eaAddr).take (state.j + 1) =
          state.lpea_ts.take state.j ++ [row.eaAddr] := by
        rw [List.take_succ_eq_append_getElem (by rwa [List.length_set]), List.take_set_of_le (Nat.le_refl _),
          List.getElem_set_self]
      rw [block, aligned.written, List.map_append]
      rfl
    · rw [aligned.count, List.length_append]
      rfl
    · rw [List.length_set, aligned.room]

theorem foldlM_distinctPass {size : Nat} (rows : List ListData) {state : Distinct}
    {before : List ListData} (aligned : Aligned (firsts ListData.strValue before) size state)
    (room : before.length + rows.length ≤ size) :
    ∃ last, rows.foldlM distinctPass state = some last ∧
      Aligned (firsts ListData.strValue (before ++ rows)) size last := by
  induction rows generalizing state before with
  | nil =>
    rw [List.append_nil]
    exact ⟨state, rfl, aligned⟩
  | cons row rest ih =>
    rw [List.length_cons] at room
    obtain ⟨next, passed, aligned⟩ := distinctPass_aligned aligned row (by omega)
    obtain ⟨last, run, aligned⟩ := ih aligned (by
      rw [List.length_append, List.length_singleton]
      omega)
    rw [List.append_assoc, List.singleton_append] at aligned
    refine ⟨last, ?_, aligned⟩
    rw [List.foldlM_cons, passed]
    exact run

theorem mapM_range {rows : List ListData} {read : Nat → Option ListData}
    (reads : ∀ i < rows.length, read i = rows[i]?) :
    (List.range rows.length).mapM read = some rows := by
  induction rows using List.reverseRecOn with
  | nil => rfl
  | append_singleton rows row ih =>
    have front : ∀ i < rows.length, read i = rows[i]? := by
      intro i bound
      rw [reads i (by rw [List.length_append]; omega), List.getElem?_append_left bound]
    have last : read rows.length = some row := by
      rw [reads rows.length (by rw [List.length_append]; exact Nat.lt_succ_self _),
        List.getElem?_concat_length]
    rw [List.length_append, List.length_singleton, List.range_succ, List.mapM_append, ih front]
    simp [last]

/-- The two loops leave the first comment with each text. -/
theorem distinctRows_eq (heap : Nat → Nat) (ldTmpData : List ListData) :
    distinctRows heap ldTmpData = some (firsts ListData.strValue ldTmpData) := by
  have start : Aligned (firsts ListData.strValue []) ldTmpData.length
      { vStr := [], lpea_ts := (List.range ldTmpData.length).map heap, j := 0 } :=
    { texts := rfl
      written := List.take_zero
      count := rfl
      room := by rw [List.length_map, List.length_range] }
  obtain ⟨state, run, aligned⟩ := foldlM_distinctPass ldTmpData start (by simp)
  rw [List.nil_append] at aligned
  have count : state.vStr.length = (firsts ListData.strValue ldTmpData).length := by
    rw [aligned.texts, List.length_map]
  have reads : ∀ i < (firsts ListData.strValue ldTmpData).length,
      readRow state i = (firsts ListData.strValue ldTmpData)[i]? := by
    intro i bound
    have address : state.lpea_ts[i]? =
        ((firsts ListData.strValue ldTmpData).map ListData.eaAddr)[i]? := by
      rw [← aligned.written, List.getElem?_take, if_pos (aligned.count ▸ bound)]
    rw [readRow, address, aligned.texts, List.getElem?_map, List.getElem?_map,
      List.getElem?_eq_getElem bound]
    rfl
  rw [distinctRows, run]
  change (List.range state.vStr.length).mapM (readRow state) = _
  rw [count]
  exact mapM_range reads

theorem shownRows_eq (ldData : List ListData) (ldFilterData : List (List UInt8)) :
    shownRows ldData ldFilterData = ldData.filter fun row => row.strValue ∉ ldFilterData := by
  rw [shownRows]
  simp only [vectorFind_neg_iff]

/-- The list shows the first comment with each text that is not a filter. -/
structure Displays (ldTmpData : List ListData) (lists : Lists) : Prop where
  rows : lists.ldCommentData =
    (firsts ListData.strValue ldTmpData).filter fun row => row.strValue ∉ lists.ldFilterData
  distinct : (lists.ldCommentData.map ListData.strValue).Nodup
  unfiltered : ∀ row ∈ lists.ldCommentData, row.strValue ∉ lists.ldFilterData
  complete : ∀ row ∈ ldTmpData, row.strValue ∉ lists.ldFilterData →
    row.strValue ∈ lists.ldCommentData.map ListData.strValue

theorem displays_of_rows {ldTmpData : List ListData} {lists : Lists}
    (rows : lists.ldCommentData =
      shownRows (firsts ListData.strValue ldTmpData) lists.ldFilterData) :
    Displays ldTmpData lists := by
  rw [shownRows_eq] at rows
  constructor
  · exact rows
  · rw [rows]
    exact (keys_nodup ldTmpData).sublist (List.filter_sublist.map _)
  · intro row member
    rw [rows, List.mem_filter] at member
    exact of_decide_eq_true member.2
  · intro row member free
    have kept : row.strValue ∈ (firsts ListData.strValue ldTmpData).map ListData.strValue :=
      (mem_keys_iff _ _).mpr (List.mem_map_of_mem member)
    obtain ⟨first, chosen, text⟩ := List.mem_map.mp kept
    rw [rows]
    refine List.mem_map.mpr ⟨first, List.mem_filter.mpr ⟨chosen, ?_⟩, text⟩
    exact decide_eq_true (text ▸ free)

/-- Both lists follow from the comments collected and the current filters. -/
def Rebuilt (ldTmpData : List ListData) (lists : Lists) : Prop :=
  lists.ldData = firsts ListData.strValue ldTmpData ∧
    lists.ldCommentData = shownRows lists.ldData lists.ldFilterData

theorem idapRun_rebuilt {heap : Nat → Nat} {ldTmpData : List ListData} {before lists : Lists}
    (run : idapRun heap ldTmpData before = some lists) : Rebuilt ldTmpData lists := by
  rw [idapRun, distinctRows_eq] at run
  rw [← Option.some.inj run]
  exact ⟨rfl, rfl⟩

theorem update_rebuilt {ldTmpData : List ListData} {lists next : Lists} {update : Update}
    (rebuilt : Rebuilt ldTmpData lists) (run : idaListCommentUpdate lists update = some next) :
    Rebuilt ldTmpData next := by
  rw [idaListCommentUpdate] at run
  by_cases header : update.n < 1
  · rw [if_pos header] at run
    exact Option.some.inj run ▸ rebuilt
  · rw [if_neg header] at run
    obtain ⟨row, -, run⟩ := Option.bind_eq_some_iff.mp run
    obtain ⟨ldFilterData, -, run⟩ := Option.bind_eq_some_iff.mp run
    rw [← Option.some.inj run]
    exact ⟨rebuilt.1, rfl⟩

theorem commentList_rebuilt {heap : Nat → Nat} {ldTmpData : List ListData} {lists : Lists}
    (reached : Transition.Reaches (commentList heap ldTmpData) anyUpdate lists) :
    Rebuilt ldTmpData lists := by
  refine Transition.Reaches.invariant ?_ ?_ reached
  · intro first start
    obtain ⟨before, run⟩ := start
    exact idapRun_rebuilt run
  · intro old update next rebuilt _ run
    exact update_rebuilt rebuilt run

end IDAPlugins.CommentList
