import IDAPlugins.CommentList.Rows

namespace IDAPlugins.CommentList

open Firsts Segments TextStream

/-! # Sessions with the list of comments

Every IDA that is started reads the filter file once. It then collects the comments of
its database any number of times and takes updates of the list, and an update that is
confirmed writes the file for all of them. The user may put another file there.
-/

structure Ida where
  /-- The comments collected last. No step reads it. -/
  ldTmpData : List ListData
  ldData : List ListData
  ldCommentData : List ListData
  ldFilterData : List (List UInt8)

structure Desk where
  iniFile : Option (List UInt8)
  idas : List Ida
  /-- The filters that were last put into the file. No step reads it. -/
  confirmed : List (List UInt8)

inductive DeskEvent where
  | store (iniFile : Option (List UInt8))
  | init
  | run (k : Nat) (heap : Nat → Nat) (db : Database) (get_cmt : Nat → Bool → Option (List UInt8))
  | update (k : Nat) (update : Update)
  | term (k : Nat)

def startedIda (ldFilterData : List (List UInt8)) : Ida where
  ldTmpData := []
  ldData := []
  ldCommentData := []
  ldFilterData

def Ida.lists (ida : Ida) (iniFile : List UInt8) : Lists where
  ldData := ida.ldData
  ldCommentData := ida.ldCommentData
  ldFilterData := ida.ldFilterData
  iniFile

def Lists.ida (lists : Lists) (ldTmpData : List ListData) : Ida where
  ldTmpData
  ldData := lists.ldData
  ldCommentData := lists.ldCommentData
  ldFilterData := lists.ldFilterData

/-- The update gets to the second chooser, and that returns a row. -/
def Update.confirms (update : Update) : Bool :=
  decide (1 ≤ update.n ∧ 0 < update.choi)

/-- `none` is a row or a filter that is not there, or a comment too long for its buffer. -/
def Desk.step (desk : Desk) : DeskEvent → Option Desk
  | .store iniFile =>
    (idapInit iniFile).map fun started => { desk with iniFile, confirmed := started.1 }
  | .init =>
    (idapInit desk.iniFile).map fun started =>
      { desk with
        iniFile := some started.2
        idas := desk.idas ++ [startedIda started.1] }
  | .run k heap db get_cmt => do
    let ida ← desk.idas[k]?
    let collected ← addListData db get_cmt
    let lists ← idapRun heap collected.vldData (ida.lists (desk.iniFile.getD []))
    some { desk with idas := desk.idas.set k (lists.ida collected.vldData) }
  | .update k update => do
    let ida ← desk.idas[k]?
    let lists ← idaListCommentUpdate (ida.lists (desk.iniFile.getD [])) update
    some
      { iniFile := if update.confirms then some lists.iniFile else desk.iniFile
        idas := desk.idas.set k (lists.ida ida.ldTmpData)
        confirmed := if update.confirms then lists.ldFilterData else desk.confirmed }
  | .term k => some { desk with idas := desk.idas.eraseIdx k }

/-- Sessions from the installation on. -/
def desks : Transition.System Desk DeskEvent where
  initial desk := desk.iniFile = none ∧ desk.idas = [] ∧ desk.confirmed = g_szDefalutFilters
  step := Desk.step

/-- A text that the file gives back. -/
def Storable (value : List UInt8) : Prop :=
  0x00 ∉ value ∧ 0x0D ∉ value ∧ Fits value

instance (value : List UInt8) : Decidable (Storable value) :=
  inferInstanceAs (Decidable (_ ∧ _))

/-- The file holds no bare return, and the comments collected are texts for it. -/
def storing (_ : Desk) : DeskEvent → Bool
  | .store iniFile => (idapInit iniFile).all fun started => started.1.all fun value =>
      decide (0x0D ∉ value)
  | .run _ _ db get_cmt => (addListData db get_cmt).all fun collected =>
      collected.vldData.all fun row => decide (Storable row.strValue)
  | _ => true

/-- A filter that was read, up to returns in it. -/
structure Line (value : List UInt8) : Prop where
  nonempty : value ≠ []
  zero_free : 0x00 ∉ value
  break_free : 0x0A ∉ value

theorem fgets_break_free (room : Nat) (text : List UInt8) :
    0x0A ∉ (fgets room text).1.dropLast := by
  induction room generalizing text with
  | zero => exact List.not_mem_nil
  | succ room ih =>
    cases text with
    | nil => exact List.not_mem_nil
    | cons ch rest =>
      rw [fgets]
      by_cases lf : ch = 0x0A
      · rw [if_pos lf]
        exact List.not_mem_nil
      · rw [if_neg lf]
        cases stored : (fgets room rest).1 with
        | nil => exact List.not_mem_nil
        | cons first others =>
          rw [List.dropLast_cons_cons, ← stored]
          exact List.not_mem_cons_of_ne_of_not_mem (Ne.symm lf) (ih rest)

theorem lineRead_break_free (text : List UInt8) : 0x0A ∉ (lineRead text).dropLast := by
  have free := fgets_break_free 255 text
  obtain ⟨others, whole⟩ := List.takeWhile_prefix (· != 0) (l := (fgets 255 text).1)
  rw [← whole] at free
  cases others with
  | nil => rwa [List.append_nil] at free
  | cons ch others =>
    rw [List.dropLast_append_cons] at free
    exact fun lf => free (List.mem_append_left _ ((List.dropLast_prefix _).subset lf))

theorem pushLine_lines {text : List UInt8} {ldFilterData : List (List UInt8)}
    (lines : ∀ value ∈ ldFilterData, Line value) :
    ∀ value ∈ pushLine (lineRead text) ldFilterData, Line value := by
  rw [pushLine]
  split
  · rename_i long
    intro value member
    rcases List.mem_append.mp member with before | last
    · exact lines value before
    · rw [List.mem_singleton.mp last]
      constructor
      · rw [← List.length_pos_iff, List.length_dropLast]
        omega
      · intro zero
        have other := List.mem_takeWhile_imp ((List.dropLast_prefix _).subset zero)
        exact absurd other (by decide)
      · exact lineRead_break_free text
  · exact lines

theorem readFilters_lines {file : List UInt8} {ldFilterData : List (List UInt8)}
    (read : readFilters file = some ldFilterData) : ∀ value ∈ ldFilterData, Line value := by
  have keeps : ∀ state next : Reading, (∀ value ∈ state.ldFilterData, Line value) →
      readPass state = some (.again next) → ∀ value ∈ next.ldFilterData, Line value := by
    intro state next lines pass
    rw [readPass] at pass
    split at pass
    · cases pass
    · cases pass
      exact pushLine_lines lines
  obtain ⟨last, lines, left⟩ := Loop.run_last _ keeps
    (fun value member => absurd member List.not_mem_nil) read
  rw [readPass] at left
  split at left
  · cases left
    exact lines
  · cases left

theorem defaults_lines : ∀ value ∈ g_szDefalutFilters, Line value ∧ 0x0D ∉ value ∧ Fits value := by
  have checked : ∀ value ∈ g_szDefalutFilters,
      value ≠ [] ∧ 0x00 ∉ value ∧ 0x0A ∉ value ∧ 0x0D ∉ value ∧ Fits value :=
    List.forall_iff_forall_mem.mp (by decide)
  intro value member
  obtain ⟨nonempty, zeroFree, breakFree, returnFree, fits⟩ := checked value member
  exact ⟨⟨nonempty, zeroFree, breakFree⟩, returnFree, fits⟩

/-- The next one finds the filters of the first. -/
theorem idapInit_again {iniFile : Option (List UInt8)} {ldFilterData : List (List UInt8)}
    {file : List UInt8} (started : idapInit iniFile = some (ldFilterData, file)) :
    idapInit (some file) = some (ldFilterData, file) := by
  cases iniFile with
  | none =>
    rw [idapInit, Option.some.injEq, Prod.mk.injEq] at started
    obtain ⟨rfl, rfl⟩ := started
    exact defaults_roundTrip
  | some old =>
    have same : old = file := by
      obtain ⟨found, -, found_eq⟩ := Option.map_eq_some_iff.mp started
      exact congrArg Prod.snd found_eq
    exact same ▸ started

/-- A filter that the plug-in can hold, behind a file without bare returns. -/
def Filter (value : List UInt8) : Prop := Entry value ∧ Fits value

theorem idapInit_filters {iniFile : Option (List UInt8)} {ldFilterData : List (List UInt8)}
    {file : List UInt8} (started : idapInit iniFile = some (ldFilterData, file))
    (returnFree : ∀ value ∈ ldFilterData, 0x0D ∉ value) : ∀ value ∈ ldFilterData, Filter value := by
  intro value member
  have known : Line value ∧ Fits value := by
    cases iniFile with
    | none =>
      rw [idapInit, Option.some.injEq, Prod.mk.injEq] at started
      obtain ⟨line, -, fits⟩ := defaults_lines value (started.1 ▸ member)
      exact ⟨line, fits⟩
    | some old =>
      have fits := idapInit_fits (idapInit_again started) value member
      obtain ⟨found, read, found_eq⟩ := Option.map_eq_some_iff.mp started
      have same : found = ldFilterData := congrArg Prod.fst found_eq
      exact ⟨readFilters_lines (same ▸ read) value member, fits⟩
  obtain ⟨line, fits⟩ := known
  exact ⟨⟨line.nonempty, line.zero_free, line.break_free, returnFree value member⟩, fits⟩

/-- A text that `ListPush` can leave. -/
def Pushed (row : ListData) : Prop :=
  row.strValue ≠ [] ∧ 0x0A ∉ row.strValue

theorem escaped_pushed {szBuf : List UInt8} (long : 1 < szBuf.length) (eaAddr : Nat) :
    Pushed { eaAddr, strValue := escaped szBuf } := by
  constructor
  · cases szBuf with
    | nil => exact absurd long (by decide)
    | cons ch rest =>
      rw [escaped, List.flatMap_cons]
      split
      · exact List.cons_ne_nil _ _
      · exact List.cons_ne_nil _ _
  · intro lf
    obtain ⟨ch, -, coded⟩ := List.mem_flatMap.mp lf
    split at coded
    · exact absurd coded (by decide)
    · rename_i other
      exact other (List.mem_singleton.mp coded).symm

theorem addComment_pushed {comment : Option (List UInt8)} {automatic : List UInt8} {dwAddr : Nat}
    {before after : Collected} (added : addComment comment automatic dwAddr before = some after)
    (pushed : ∀ row ∈ before.vldData, Pushed row) : ∀ row ∈ after.vldData, Pushed row := by
  cases comment with
  | none => exact Option.some.inj added ▸ pushed
  | some szBuf =>
    rw [addComment] at added
    split at added
    · rename_i taken
      rw [listPush] at added
      split at added
      · obtain rfl := Option.some.inj added
        intro row member
        rcases List.mem_append.mp member with old | new
        · exact pushed row old
        · rw [List.mem_singleton.mp new]
          exact escaped_pushed taken.1 dwAddr
      · cases added
    · exact Option.some.inj added ▸ pushed

theorem addListData_pushed {db : Database} {get_cmt : Nat → Bool → Option (List UInt8)}
    {collected : Collected} (ran : addListData db get_cmt = some collected) :
    ∀ row ∈ collected.vldData, Pushed row := by
  have keeps : ∀ state next : Scanning, (∀ row ∈ state.collected.vldData, Pushed row) →
      addListDataPass db get_cmt state = some (.again next) →
        ∀ row ∈ next.collected.vldData, Pushed row := by
    intro state next pushed pass
    obtain ⟨-, -, middle, regular, repeatable⟩ := addListDataPass_again pass
    exact addComment_pushed repeatable (addComment_pushed regular pushed)
  obtain ⟨last, pushed, left⟩ := Loop.run_last _ keeps
    (fun row member => absurd member List.not_mem_nil) ran
  exact (addListDataPass_leave left).2 ▸ pushed

/-- The lists of an IDA follow from its comments and filters, and the file can hold all
of their texts. -/
structure Ida.Sound (ida : Ida) (iniFile : List UInt8) : Prop where
  rebuilt : Rebuilt ida.ldTmpData (ida.lists iniFile)
  filters : ∀ value ∈ ida.ldFilterData, Filter value
  comments : ∀ row ∈ ida.ldTmpData, Filter row.strValue

structure Kept (desk : Desk) : Prop where
  file : ∃ iniFile, idapInit desk.iniFile = some (desk.confirmed, iniFile)
  confirmed : ∀ value ∈ desk.confirmed, Filter value
  idas : ∀ ida ∈ desk.idas, ∀ iniFile, ida.Sound iniFile

theorem rebuilt_rows {ldTmpData : List ListData} {lists : Lists} (rebuilt : Rebuilt ldTmpData lists) :
    ∀ row ∈ lists.ldCommentData, row ∈ ldTmpData := by
  intro row member
  rw [rebuilt.2, rebuilt.1] at member
  exact (firsts_sublist ldTmpData).subset (List.mem_of_mem_filter member)

theorem delete_filters {ldFilterData left : List (List UInt8)} {n : Nat}
    (deleted : idaListFilterDelete ldFilterData n = some left)
    (filters : ∀ value ∈ ldFilterData, Filter value) : ∀ value ∈ left, Filter value := by
  rw [idaListFilterDelete] at deleted
  split at deleted
  · obtain rfl := Option.some.inj deleted
    exact fun value member => filters value (List.mem_of_mem_eraseIdx member)
  · cases deleted

/-- An update takes its filters from those that are there and the rows of the list. -/
theorem update_filters {ldTmpData : List ListData} {lists next : Lists} {update : Update}
    (rebuilt : Rebuilt ldTmpData lists) (filters : ∀ value ∈ lists.ldFilterData, Filter value)
    (comments : ∀ row ∈ ldTmpData, Filter row.strValue)
    (run : idaListCommentUpdate lists update = some next) :
    ∀ value ∈ next.ldFilterData, Filter value := by
  rw [idaListCommentUpdate] at run
  by_cases header : update.n < 1
  · rw [if_pos header] at run
    exact Option.some.inj run ▸ filters
  · rw [if_neg header] at run
    obtain ⟨row, shown, run⟩ := Option.bind_eq_some_iff.mp run
    obtain ⟨ldFilterData, deleted, run⟩ := Option.bind_eq_some_iff.mp run
    have text : Filter row.strValue :=
      comments row (rebuilt_rows rebuilt row (List.mem_of_getElem? shown))
    have offers : ∀ value ∈ offered lists.ldFilterData row.strValue, Filter value := by
      rw [offered]
      split
      · intro value member
        rcases List.mem_append.mp member with old | new
        · exact filters value old
        · exact List.mem_singleton.mp new ▸ text
      · exact filters
    rw [← Option.some.inj run]
    exact Loop.foldlM_keeps (fun ldFilterData => ∀ value ∈ ldFilterData, Filter value)
      (fun _ _ _ deleted filters => delete_filters deleted filters) deleted offers

theorem update_file {lists next : Lists} {update : Update} (confirms : update.confirms = true)
    (run : idaListCommentUpdate lists update = some next) :
    next.iniFile = writeFilterIni next.ldFilterData := by
  obtain ⟨row, chosen⟩ := of_decide_eq_true confirms
  rw [idaListCommentUpdate, if_neg (Nat.not_lt.mpr row)] at run
  obtain ⟨_, -, run⟩ := Option.bind_eq_some_iff.mp run
  obtain ⟨ldFilterData, -, run⟩ := Option.bind_eq_some_iff.mp run
  rw [← Option.some.inj run]
  exact if_pos chosen

theorem started_sound {ldFilterData : List (List UInt8)}
    (filters : ∀ value ∈ ldFilterData, Filter value) (iniFile : List UInt8) :
    (startedIda ldFilterData).Sound iniFile where
  rebuilt := ⟨rfl, rfl⟩
  filters
  comments _ member := absurd member List.not_mem_nil

theorem run_sound {ida : Ida} {heap : Nat → Nat} {db : Database}
    {get_cmt : Nat → Bool → Option (List UInt8)} {collected : Collected} {lists : Lists}
    {iniFile : List UInt8} (filters : ∀ value ∈ ida.ldFilterData, Filter value)
    (ran : addListData db get_cmt = some collected)
    (storable : ∀ row ∈ collected.vldData, Storable row.strValue)
    (run : idapRun heap collected.vldData (ida.lists iniFile) = some lists) (other : List UInt8) :
    (lists.ida collected.vldData).Sound other where
  rebuilt :=
    have rebuilt := idapRun_rebuilt run
    ⟨rebuilt.1, rebuilt.2⟩
  filters := by
    obtain ⟨ldData, -, rfl⟩ := Option.map_eq_some_iff.mp run
    exact filters
  comments row member :=
    have text := addListData_pushed ran row member
    have file := storable row member
    ⟨⟨text.1, file.1, text.2, file.2.1⟩, file.2.2⟩

theorem update_sound {ida : Ida} {update : Update} {lists : Lists} {iniFile : List UInt8}
    (sound : ida.Sound iniFile)
    (run : idaListCommentUpdate (ida.lists iniFile) update = some lists) (other : List UInt8) :
    (lists.ida ida.ldTmpData).Sound other where
  rebuilt :=
    have rebuilt := update_rebuilt sound.rebuilt run
    ⟨rebuilt.1, rebuilt.2⟩
  filters := update_filters sound.rebuilt sound.filters sound.comments run
  comments := sound.comments

theorem step_kept {desk next : Desk} {event : DeskEvent} (kept : Kept desk)
    (meets : storing desk event = true) (taken : desk.step event = some next) : Kept next := by
  cases event with
  | store iniFile =>
    obtain ⟨⟨ldFilterData, file⟩, started, rfl⟩ := Option.map_eq_some_iff.mp taken
    have returnFree : ∀ value ∈ ldFilterData, 0x0D ∉ value := by
      simpa only [storing, started, Option.all_some, List.all_eq_true, decide_eq_true_eq] using meets
    exact ⟨⟨file, started⟩, idapInit_filters started returnFree, kept.idas⟩
  | init =>
    obtain ⟨file, known⟩ := kept.file
    obtain ⟨started, runs, rfl⟩ := Option.map_eq_some_iff.mp taken
    obtain rfl := Option.some.inj (known.symm.trans runs)
    refine ⟨⟨file, idapInit_again known⟩, kept.confirmed, fun ida member => ?_⟩
    rcases List.mem_append.mp member with old | new
    · exact kept.idas ida old
    · rw [List.mem_singleton.mp new]
      exact started_sound kept.confirmed
  | run k heap db get_cmt =>
    obtain ⟨ida, there, taken⟩ := Option.bind_eq_some_iff.mp taken
    obtain ⟨collected, ran, taken⟩ := Option.bind_eq_some_iff.mp taken
    obtain ⟨lists, run, taken⟩ := Option.bind_eq_some_iff.mp taken
    obtain rfl := Option.some.inj taken
    have storable : ∀ row ∈ collected.vldData, Storable row.strValue := by
      simpa only [storing, ran, Option.all_some, List.all_eq_true, decide_eq_true_eq] using meets
    have sound := kept.idas ida (List.mem_of_getElem? there) []
    refine ⟨kept.file, kept.confirmed, fun other member => ?_⟩
    rcases List.mem_or_eq_of_mem_set member with old | rfl
    · exact kept.idas other old
    · exact run_sound sound.filters ran storable run
  | update k update =>
    obtain ⟨ida, there, taken⟩ := Option.bind_eq_some_iff.mp taken
    obtain ⟨lists, run, taken⟩ := Option.bind_eq_some_iff.mp taken
    obtain rfl := Option.some.inj taken
    have sound := update_sound (kept.idas ida (List.mem_of_getElem? there) _) run
    have idas : ∀ other ∈ desk.idas.set k (lists.ida ida.ldTmpData), ∀ iniFile,
        other.Sound iniFile := by
      intro other member
      rcases List.mem_or_eq_of_mem_set member with old | rfl
      · exact kept.idas other old
      · exact sound
    cases confirms : update.confirms with
    | false => exact ⟨by simpa [confirms] using kept.file, by simpa [confirms] using kept.confirmed, idas⟩
    | true =>
      -- all filters fit the file, so an IDA that starts next reads back what was written
      have filters : ∀ value ∈ lists.ldFilterData, Filter value := (sound []).filters
      have written : idapInit (some (writeFilterIni lists.ldFilterData)) =
          some (lists.ldFilterData, writeFilterIni lists.ldFilterData) :=
        idapInit_written (fun value member => (filters value member).1)
          fun value member => (filters value member).2
      rw [← update_file confirms run] at written
      exact ⟨⟨_, by simpa [confirms] using written⟩, by simpa [confirms] using filters, idas⟩
  | term k =>
    obtain rfl := Option.some.inj taken
    exact ⟨kept.file, kept.confirmed, fun ida member =>
      kept.idas ida (List.mem_of_mem_eraseIdx member)⟩

theorem reaches_kept {desk : Desk} (reached : Transition.Reaches desks storing desk) : Kept desk := by
  refine reached.invariant (fun first start => ?_) fun _ _ _ kept meets taken => step_kept kept meets taken
  obtain ⟨file, idas, confirmed⟩ := start
  constructor
  · exact ⟨_, by rw [file, confirmed, idapInit]⟩
  · intro value member
    obtain ⟨line, returnFree, fits⟩ := defaults_lines value (confirmed ▸ member)
    exact ⟨⟨line.nonempty, line.zero_free, line.break_free, returnFree⟩, fits⟩
  · intro ida member
    rw [idas] at member
    exact absurd member List.not_mem_nil

/-- Whatever the IDAs do beside each other, the next one starts with the filters that were last
put into the file, and every list shows the first comment with each text that is not among the
filters of its IDA. -/
theorem reaches_filters {desk : Desk} (reached : Transition.Reaches desks storing desk) :
    (∃ next ida, desk.step .init = some next ∧ next.idas = desk.idas ++ [ida] ∧
      ida.ldFilterData = desk.confirmed ∧ next.confirmed = desk.confirmed) ∧
    ∀ ida ∈ desk.idas, Displays ida.ldTmpData (ida.lists (desk.iniFile.getD [])) := by
  have kept := reaches_kept reached
  constructor
  · obtain ⟨file, known⟩ := kept.file
    have starts : desk.step .init = some
        { desk with iniFile := some file, idas := desk.idas ++ [startedIda desk.confirmed] } := by
      rw [Desk.step, known, Option.map_some]
    exact ⟨_, _, starts, rfl, rfl, rfl⟩
  · intro ida member
    have rebuilt := (kept.idas ida member (desk.iniFile.getD [])).rebuilt
    exact displays_of_rows (rebuilt.1 ▸ rebuilt.2)

/-- A row of the first IDA becomes a filter of the second. -/
theorem reaches_filters_two :
    ∃ desk, Transition.Reaches desks storing desk ∧ desk.confirmed = [[0x61, 0x62]] ∧
      (∃ next ida, desk.step .init = some next ∧ next.idas = desk.idas ++ [ida] ∧
        ida.ldFilterData = desk.confirmed ∧ next.confirmed = desk.confirmed) ∧
      ∀ ida ∈ desk.idas, Displays ida.ldTmpData (ida.lists (desk.iniFile.getD [])) := by
  have installed : Transition.Reaches desks storing
      { iniFile := none, idas := [], confirmed := g_szDefalutFilters } := .initial ⟨rfl, rfl, rfl⟩
  have reached := installed.play (t :=
    { iniFile := some [0x61, 0x62, 0x0D, 0x0A]
      idas := [{ ldTmpData := [commentRow], ldData := [commentRow], ldCommentData := []
                 ldFilterData := [[0x61, 0x62]] }]
      confirmed := [[0x61, 0x62]] })
    (show desks.play storing _ [.store (some []), .init, .run 0 (fun _ => 0) commented secondComment,
      .update 0 { n := 1, deletes := [], choi := 1 }] = _ from rfl)
  exact ⟨_, reached, rfl, reaches_filters reached⟩

end IDAPlugins.CommentList
