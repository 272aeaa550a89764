import IDAPlugins.CommentList.Scanning
import IDAPlugins.HexText

namespace IDAPlugins.CommentList

open Segments HexText

/-! # The rows of the list

A row keeps the offset of its comment from the first segment. The row shows an
address, Enter jumps to one, and so does closing the chooser with a row selected.
-/

def addresses (ea64 : Bool) : Nat :=
  badaddr ea64 + 1

def headers : List (List UInt8) :=
  [chars "Addr", chars "Comment"]

/-- `lpvldData->at(n - 1)` -/
def rowAt (lists : Lists) (n : Nat) : Option ListData :=
  if n = 0 then none else lists.ldCommentData[n - 1]?

/-- `addr` of a row. `curseg` is where the first segment starts now, if there is one. -/
def rowAddress (ea64 : Bool) (curseg : Option Nat) (row : ListData) : Nat :=
  match curseg with
  | some startEA => (startEA + row.eaAddr) % addresses ea64
  | none => row.eaAddr

/-- `0x%llX` in the 64-bit build, `0x%08X` otherwise. -/
def addressText (ea64 : Bool) (addr : Nat) : List UInt8 :=
  chars "0x" ++ hexText (if ea64 then 1 else 8) addr

def idaListCommentGetlien2 (ea64 : Bool) (curseg : Option Nat) (lists : Lists) (n : Nat)
    (cells : List (List UInt8)) : Option (List (List UInt8)) :=
  if lists.ldCommentData.length < n then
    some cells
  else if n = 0 then
    some headers
  else
    (rowAt lists n).map fun row =>
      [addressText ea64 (rowAddress ea64 curseg row), row.strValue.take 1023]

/-- The address to which Enter jumps. -/
def idaListCommentEnter (ea64 : Bool) (curseg : Option Nat) (lists : Lists) (n : Nat) : Option Nat :=
  (rowAt lists n).map (rowAddress ea64 curseg)

/-- The address to which `IDAP_run` jumps behind the chooser. -/
def jumpBehindChooser (lists : Lists) (choice : Int) : Option Nat :=
  if 0 < choice then (rowAt lists choice.toNat).map ListData.eaAddr else none

/-- The row shows the address and both ways to jump lead to it. -/
structure Leads (ea64 : Bool) (base : Nat) (lists : Lists) (n : Nat) (current : Nat) : Prop where
  shown : ∃ text comment, idaListCommentGetlien2 ea64 (some base) lists n [] =
    some [chars "0x" ++ text, comment] ∧ readHex text = current
  entered : idaListCommentEnter ea64 (some base) lists n = some current
  closed : jumpBehindChooser lists n = some current

variable {ea64 : Bool} {base n : Nat} {lists : Lists} {row : ListData}

theorem rowAt_pos (there : rowAt lists n = some row) : 0 < n ∧ n ≤ lists.ldCommentData.length := by
  rw [rowAt] at there
  by_cases header : n = 0
  · rw [if_pos header] at there
    cases there
  · rw [if_neg header] at there
    obtain ⟨bound, -⟩ := List.getElem?_eq_some_iff.mp there
    omega

theorem rowAt_mem (there : rowAt lists n = some row) : row ∈ lists.ldCommentData := by
  have positive := (rowAt_pos there).1
  rw [rowAt, if_neg (Nat.ne_of_gt positive)] at there
  exact List.mem_of_getElem? there

/-- What the row shows is the address of its comment in the database as it is now. -/
theorem row_shown (there : rowAt lists n = some row) :
    ∃ text comment, idaListCommentGetlien2 ea64 (some base) lists n [] =
      some [chars "0x" ++ text, comment] ∧
      readHex text = (base + row.eaAddr) % addresses ea64 := by
  obtain ⟨positive, bound⟩ := rowAt_pos there
  refine ⟨hexText (if ea64 then 1 else 8) ((base + row.eaAddr) % addresses ea64),
    row.strValue.take 1023, ?_, readHex_hexText _ _⟩
  rw [idaListCommentGetlien2, if_neg (Nat.not_lt.mpr bound), if_neg (Nat.ne_of_gt positive), there]
  rfl

theorem row_entered (there : rowAt lists n = some row) :
    idaListCommentEnter ea64 (some base) lists n = some ((base + row.eaAddr) % addresses ea64) := by
  rw [idaListCommentEnter, there]
  rfl

/-- Behind the chooser the plug-in jumps to the offset itself. -/
theorem row_closed (there : rowAt lists n = some row) :
    jumpBehindChooser lists n = some row.eaAddr := by
  have positive : (0 : Int) < n := Int.natCast_pos.mpr (rowAt_pos there).1
  rw [jumpBehindChooser, if_pos positive, Int.toNat_natCast, there]
  rfl

/-- Shown and entered a row is right everywhere; the jump behind the chooser is right
only where the first segment starts at 0. -/
theorem leads_iff (there : rowAt lists n = some row) (small : row.eaAddr < addresses ea64)
    (range : base < addresses ea64) :
    Leads ea64 base lists n ((base + row.eaAddr) % addresses ea64) ↔ base = 0 := by
  constructor
  · intro leads
    have closed := leads.closed
    rw [row_closed there] at closed
    have same := Option.some.inj closed
    by_cases wraps : base + row.eaAddr < addresses ea64
    · rw [Nat.mod_eq_of_lt wraps] at same
      omega
    · have further : (base + row.eaAddr) % addresses ea64 = base + row.eaAddr - addresses ea64 := by
        rw [Nat.mod_eq_sub_mod (Nat.le_of_not_lt wraps), Nat.mod_eq_of_lt (by omega)]
      omega
  · intro zero
    refine ⟨row_shown there, row_entered there, ?_⟩
    rw [row_closed there, zero, Nat.zero_add, Nat.mod_eq_of_lt small]

/-- In every list that updates make of the comments of a database, each row is a comment
of an instruction with its offset from the first segment. In the database as it is now
the row, Enter and the jump behind the chooser give the current address of the comment
exactly when the first segment starts at 0. -/
theorem rows_lead_iff (db : Database) (get_cmt : Nat → Bool → Option (List UInt8))
    (collected : Collected) (ran : addListData db get_cmt = some collected) (heap : Nat → Nat)
    (lists : Lists)
    (reached : Transition.Reaches (commentList heap collected.vldData) anyUpdate lists)
    (base : Nat) (range : base < addresses db.ea64) (n : Nat) (row : ListData)
    (there : rowAt lists n = some row) :
    Comes db get_cmt (addListVisits db get_cmt) row ∧
      (Leads db.ea64 base lists n ((base + row.eaAddr) % addresses db.ea64) ↔ base = 0) := by
  have rebuilt := commentList_rebuilt reached
  have shown := rowAt_mem there
  rw [rebuilt.2, shownRows_eq, rebuilt.1, List.mem_filter] at shown
  have comes := addListData_rows ran row ((Firsts.firsts_sublist _).subset shown.1)
  refine ⟨comes, leads_iff there ?_ range⟩
  obtain ⟨ea, visited, offset, -⟩ := comes
  have below := visit_lt visited
  have upper := db.endaddr_lt
  rw [addresses, offset]
  omega

/-- Two instructions, with a comment on the second. -/
def commented : Database where
  ea64 := false
  segments := [{ startEA := 0x1000, endEA := 0x1008, nonempty := by decide }]
  isLoaded _ := true
  heads := [0x1000, 0x1004]
  nonempty := by decide
  ascending := List.pairwise_singleton _ _
  upper := List.forall_iff_forall_mem.mp (by decide)
  increasing := by decide
  inside := List.forall_iff_forall_mem.mp (by decide)

def secondComment (ea : Nat) (rptble : Bool) : Option (List UInt8) :=
  if ea = 0x1004 ∧ rptble = false then some [0x61, 0x62] else none

def commentRow : ListData where
  eaAddr := 4
  strValue := [0x61, 0x62]

def commentLists : Lists where
  ldData := [commentRow]
  ldCommentData := [commentRow]
  ldFilterData := []
  iniFile := []

theorem addListData_commented :
    addListData commented secondComment = some { iRet := 1, vldData := [commentRow] } := by
  rfl

theorem commentLists_reached :
    Transition.Reaches (commentList (fun _ => 0) [commentRow]) anyUpdate commentLists :=
  .initial ⟨⟨[], [], [], []⟩, rfl⟩

theorem rows_lead_commented :
    Leads false 0x1000 commentLists 1 0x1004 ↔ 0x1000 = 0 :=
  (rows_lead_iff commented secondComment _ addListData_commented (fun _ => 0) commentLists
    commentLists_reached 0x1000 (by decide) 1 commentRow rfl).2

/-- The row shows `0x00001004`, and behind the chooser the plug-in jumps to `4`. -/
theorem rows_mislead :
    addListData commented secondComment = some { iRet := 1, vldData := [commentRow] } ∧
      Transition.Reaches (commentList (fun _ => 0) [commentRow]) anyUpdate commentLists ∧
      idaListCommentGetlien2 false (some 0x1000) commentLists 1 [] =
        some [chars "0x00001004", chars "ab"] ∧
      idaListCommentEnter false (some 0x1000) commentLists 1 = some 0x1004 ∧
      jumpBehindChooser commentLists 1 = some 4 :=
  ⟨addListData_commented, commentLists_reached, by decide, by decide, by decide⟩

end IDAPlugins.CommentList
