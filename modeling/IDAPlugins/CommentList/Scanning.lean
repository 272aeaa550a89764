import IDAPlugins.CommentList.Comments
import IDAPlugins.Segments

namespace IDAPlugins.CommentList

open Segments

/-! # Collecting the comments

`AddListData` goes through the instructions of the database and collects the comments
of each, with their offsets from the first segment.
-/

/-- A comment on one line, with `\n` for a line break. -/
def escaped (lpStr : List UInt8) : List UInt8 :=
  lpStr.flatMap fun ch => if ch = 0x0A then [0x5C, 0x6E] else [ch]

/-- `ListPush` has 512 bytes for the text; `none` is one that does not fit there
together with its zero. -/
def listPush (dwAddr : Nat) (lpStr : List UInt8) (vldData : List ListData) :
    Option (List ListData) :=
  if (escaped lpStr).length < 0x200 then
    some (vldData ++ [{ eaAddr := dwAddr, strValue := escaped lpStr }])
  else none

structure Collected where
  iRet : Nat
  vldData : List ListData

/-- A comment is taken unless it is too short or starts as those of the analysis do. -/
def addComment (comment : Option (List UInt8)) (automatic : List UInt8) (dwAddr : Nat)
    (collected : Collected) : Option Collected :=
  match comment with
  | none => some collected
  | some szBuf =>
    if 1 < szBuf.length ∧ ¬automatic.isPrefixOf szBuf then
      (listPush dwAddr szBuf collected.vldData).map fun vldData =>
        { iRet := collected.iRet + 1, vldData }
    else some collected

structure Scanning where
  dwAddr : Nat
  collected : Collected

/-- One pass. `get_cmt` gives the comment of an address, with `true` the repeatable one. -/
def addListDataPass (db : Database) (get_cmt : Nat → Bool → Option (List UInt8))
    (state : Scanning) : Option (Loop.Pass Scanning Collected) :=
  if state.dwAddr < db.endaddr then do
    let offset := state.dwAddr - db.startaddr
    let collected ← addComment (get_cmt state.dwAddr false) (chars "switch ") offset state.collected
    let collected ← addComment (get_cmt state.dwAddr true) (chars "jumptable") offset collected
    some (.again { dwAddr := db.findCode state.dwAddr, collected })
  else
    some (.leave state.collected)

def startScan (db : Database) : Scanning :=
  { dwAddr := db.startaddr, collected := { iRet := 0, vldData := [] } }

def scanFuel (db : Database) : Nat :=
  db.endaddr - db.startaddr + 1

def addListData (db : Database) (get_cmt : Nat → Bool → Option (List UInt8)) : Option Collected :=
  Loop.run (addListDataPass db get_cmt) (scanFuel db) (startScan db)

/-- The addresses at which `AddListData` asks for comments. -/
def addListVisits (db : Database) (get_cmt : Nat → Bool → Option (List UInt8)) : List Nat :=
  Walk.visited (addListDataPass db get_cmt) Scanning.dwAddr db.endaddr (scanFuel db) (startScan db)

/-- A pass that goes on has collected the two comments of its address. -/
theorem addListDataPass_again {db : Database} {get_cmt : Nat → Bool → Option (List UInt8)}
    {state following : Scanning} (pass : addListDataPass db get_cmt state = some (.again following)) :
    state.dwAddr < db.endaddr ∧ following.dwAddr = db.findCode state.dwAddr ∧
      ∃ collected,
        addComment (get_cmt state.dwAddr false) (chars "switch ") (state.dwAddr - db.startaddr)
          state.collected = some collected ∧
        addComment (get_cmt state.dwAddr true) (chars "jumptable") (state.dwAddr - db.startaddr)
          collected = some following.collected := by
  rw [addListDataPass] at pass
  by_cases inside : state.dwAddr < db.endaddr
  · rw [if_pos inside] at pass
    obtain ⟨first, regular, pass⟩ := Option.bind_eq_some_iff.mp pass
    obtain ⟨second, repeatable, pass⟩ := Option.bind_eq_some_iff.mp pass
    cases pass
    exact ⟨inside, rfl, first, regular, repeatable⟩
  · rw [if_neg inside] at pass
    cases pass

theorem addListDataPass_leave {db : Database} {get_cmt : Nat → Bool → Option (List UInt8)}
    {state : Scanning} {collected : Collected}
    (pass : addListDataPass db get_cmt state = some (.leave collected)) :
    ¬state.dwAddr < db.endaddr ∧ collected = state.collected := by
  rw [addListDataPass] at pass
  by_cases inside : state.dwAddr < db.endaddr
  · rw [if_pos inside] at pass
    obtain ⟨first, -, pass⟩ := Option.bind_eq_some_iff.mp pass
    obtain ⟨second, -, pass⟩ := Option.bind_eq_some_iff.mp pass
    cases pass
  · rw [if_neg inside] at pass
    cases pass
    exact ⟨inside, rfl⟩

theorem addListDataPass_walks (db : Database) (get_cmt : Nat → Bool → Option (List UInt8)) :
    Walk.Walks (addListDataPass db get_cmt) Scanning.dwAddr db.findCode db.endaddr
      fun _ => True where
  goes _ _ pass :=
    have further := addListDataPass_again pass
    ⟨further.1, further.2.1⟩
  stops _ _ pass _ := (addListDataPass_leave pass).1

/-- A run that meets no comment too long for its buffer asks at every address of the walk. -/
theorem addListVisits_eq {db : Database} {get_cmt : Nat → Bool → Option (List UInt8)}
    {collected : Collected} (ran : addListData db get_cmt = some collected) :
    addListVisits db get_cmt = Walk.walk db.findCode db.endaddr (scanFuel db) db.startaddr :=
  Walk.visited_eq_walk (addListDataPass_walks db get_cmt) ran trivial

/-- The row is a comment of one of the addresses, with its offset. -/
def Comes (db : Database) (get_cmt : Nat → Bool → Option (List UInt8)) (visits : List Nat)
    (row : ListData) : Prop :=
  ∃ ea ∈ visits, row.eaAddr = ea - db.startaddr ∧
    ∃ rptble szBuf, get_cmt ea rptble = some szBuf ∧ row.strValue = escaped szBuf

theorem addComment_rows {comment : Option (List UInt8)} {automatic : List UInt8} {dwAddr : Nat}
    {before after : Collected} (added : addComment comment automatic dwAddr before = some after) :
    ∀ row ∈ after.vldData, row ∈ before.vldData ∨
      row.eaAddr = dwAddr ∧ ∃ szBuf, comment = some szBuf ∧ row.strValue = escaped szBuf := by
  intro row member
  cases comment with
  | none => exact Or.inl (Option.some.inj added ▸ member)
  | some szBuf =>
    rw [addComment] at added
    by_cases taken : 1 < szBuf.length ∧ ¬automatic.isPrefixOf szBuf
    · rw [if_pos taken, listPush] at added
      by_cases fits : (escaped szBuf).length < 0x200
      · rw [if_pos fits] at added
        rw [← Option.some.inj added] at member
        rcases List.mem_append.mp member with old | new
        · exact Or.inl old
        · rw [List.mem_singleton.mp new]
          exact Or.inr ⟨rfl, szBuf, rfl, rfl⟩
      · rw [if_neg fits] at added
        cases added
    · rw [if_neg taken] at added
      exact Or.inl (Option.some.inj added ▸ member)

/-- One pass adds only comments of its own address. -/
theorem addListDataPass_rows {db : Database} {get_cmt : Nat → Bool → Option (List UInt8)}
    {state following : Scanning} (pass : addListDataPass db get_cmt state = some (.again following)) :
    ∀ row ∈ following.collected.vldData, row ∈ state.collected.vldData ∨
      Comes db get_cmt [state.dwAddr] row := by
  obtain ⟨-, -, collected, regular, repeatable⟩ := addListDataPass_again pass
  intro row member
  rcases addComment_rows repeatable row member with earlier | ⟨offset, comment⟩
  · rcases addComment_rows regular row earlier with old | ⟨offset, comment⟩
    · exact Or.inl old
    · exact Or.inr ⟨_, List.mem_singleton.mpr rfl, offset, false, comment⟩
  · exact Or.inr ⟨_, List.mem_singleton.mpr rfl, offset, true, comment⟩

theorem run_rows {db : Database} {get_cmt : Nat → Bool → Option (List UInt8)} {fuel : Nat}
    {state : Scanning} {collected : Collected}
    (ran : Loop.run (addListDataPass db get_cmt) fuel state = some collected) :
    ∀ row ∈ collected.vldData, row ∈ state.collected.vldData ∨
      Comes db get_cmt
        (Walk.visited (addListDataPass db get_cmt) Scanning.dwAddr db.endaddr fuel state) row := by
  induction fuel generalizing state with
  | zero => cases ran
  | succ fuel ih =>
    intro row member
    cases pass : addListDataPass db get_cmt state with
    | none =>
      rw [Loop.run, pass] at ran
      cases ran
    | some outcome =>
      cases outcome with
      | leave left =>
        rw [Loop.run_leave pass, Option.some.injEq] at ran
        rw [← ran, (addListDataPass_leave pass).2] at member
        exact Or.inl member
      | again following =>
        rw [Loop.run_again pass] at ran
        rw [Walk.visited_again (addListDataPass_walks db get_cmt) pass]
        rcases ih ran row member with early | ⟨ea, visited, comment⟩
        · rcases addListDataPass_rows pass row early with old | ⟨ea, own, comment⟩
          · exact Or.inl old
          · exact Or.inr ⟨ea, List.mem_cons.mpr (Or.inl (List.mem_singleton.mp own)), comment⟩
        · exact Or.inr ⟨ea, List.mem_cons_of_mem _ visited, comment⟩

/-- Every row collected is a comment of an address that was visited. -/
theorem addListData_rows {db : Database} {get_cmt : Nat → Bool → Option (List UInt8)}
    {collected : Collected} (ran : addListData db get_cmt = some collected) :
    ∀ row ∈ collected.vldData, Comes db get_cmt (addListVisits db get_cmt) row := by
  intro row member
  rcases run_rows ran row member with start | comes
  · exact absurd start List.not_mem_nil
  · exact comes

theorem visit_lt {db : Database} {get_cmt : Nat → Bool → Option (List UInt8)} {ea : Nat}
    (visited : ea ∈ addListVisits db get_cmt) : ea < db.endaddr := by
  rw [addListVisits, Walk.visited, List.mem_filter] at visited
  exact of_decide_eq_true visited.2

end IDAPlugins.CommentList
