import IDAPlugins.MoreMenu.ApplyDialog
import IDAPlugins.MoreMenu.CheckedList
import IDAPlugins.Transition
import Mathlib.Data.List.Induction

namespace IDAPlugins.MoreMenu

/-! # Sessions with the patch dialog

The database is edited and the dialog comes up, is clicked in, and is confirmed or closed,
time after time. It has no owner, so the main window can bring up another one beside it.
The file can be opened each time.
-/

structure Window where
  list : ListBox
  back : Bool

/-- A call of `Apply_patches` that finds the path: the choices, and the database. -/
structure Application where
  items : List Nat
  back : Bool
  get_byte : Nat → UInt8

structure World where
  get_byte : Nat → UInt8
  file : List UInt8
  back : Option (List UInt8)
  netnode : Option (Nat → Nat)
  windows : List Window
  /-- What was applied so far. No step reads it. -/
  applied : List Application

inductive WorldEvent where
  | edit (get_byte : Nat → UInt8)
  | applyWinMain
  | list (k : Nat) (message : ListMessage)
  | backBox (k : Nat)
  | ok (k : Nat)
  | close (k : Nat)

def Dialog.window (dialog : Dialog) : Window where
  list := { itemData := dialog.items, curSel := none, userData := 0 : ListBox }.setFlatStyleChecks true
  back := dialog.back

def Window.application (window : Window) (get_byte : Nat → UInt8) : Application where
  items := window.list.itemData
  back := window.back
  get_byte

def World.apply (layout : Layout) (world : World) (application : Application) : Option World :=
  (applyPatches (layout.ticked application.items) application.back application.get_byte
      { file := world.file, back := world.back, altvals := world.netnode.getD fun _ => 0 }).map
    fun disk =>
      { world with
        file := disk.file
        back := disk.back
        netnode := world.netnode.map fun _ => disk.altvals
        applied := if layout.rooted then world.applied ++ [application] else world.applied }

/-- `none` is a store outside the mapping or a failed allocation. -/
def World.step (layout : Layout) (kinds : SegmentKinds) (world : World) :
    WorldEvent → Option World
  | .edit get_byte => some { world with get_byte }
  | .applyWinMain =>
    if layout.rows.length > 0 then
      let dialog := mainApplyOnInitDialog layout kinds true world.netnode
      some { world with netnode := dialog.netnode, windows := world.windows ++ [dialog.window] }
    else some world
  | .list k message =>
    some { world with
      windows := world.windows.modify k fun window =>
        { window with list := listBoxProc window.list message } }
  | .backBox k =>
    some { world with
      windows := world.windows.modify k fun window => { window with back := !window.back } }
  | .ok k =>
    match world.windows[k]? with
    | none => some world
    | some window =>
      (world.apply layout (window.application world.get_byte)).map fun world =>
        { world with windows := world.windows.eraseIdx k }
  | .close k => some { world with windows := world.windows.eraseIdx k }

/-- Sessions with a database that was never applied. -/
def applySessions (layout : Layout) (kinds : SegmentKinds) (original : List UInt8) :
    Transition.System World WorldEvent where
  initial world := world.file = original ∧ world.back = none ∧ world.netnode = none ∧
    world.windows = [] ∧ world.applied = []
  step := World.step layout kinds

def Application.runs (layout : Layout) (application : Application) : List (Overlay.Run UInt8) :=
  (layout.ticked application.items).writtenRows.map
    ((layout.ticked application.items).run application.get_byte)

/-- The byte that an application leaves at an offset of the file, if it writes there. -/
def Application.byte? (layout : Layout) (application : Application) (o : Nat) : Option UInt8 :=
  (application.runs layout).reverse.findSome? fun run => run.value? o

/-- The byte that the last of some applications to write there leaves. -/
def lastByte? (layout : Layout) (applied : List Application) (o : Nat) : Option UInt8 :=
  applied.reverse.findSome? fun application => application.byte? layout o

variable {layout : Layout} {kinds : SegmentKinds} {original : List UInt8} {world next : World}
  {applied : List Application} {application : Application} {k : Nat}

theorem applySegments_back {get_byte : Nat → UInt8} {i : Nat} {rows : List Row} {disk after : Disk}
    (ran : applySegments layout get_byte i rows disk = some after) : after.back = disk.back := by
  induction rows generalizing i disk with
  | nil => rw [← Option.some.inj ran]
  | cons row rest ih =>
    obtain ⟨middle, first, ran⟩ := Option.bind_eq_some_iff.mp ran
    rw [ih ran]
    simp only [applySegment] at first
    split at first
    · obtain ⟨-, first⟩ := Option.ite_none_right_eq_some.mp first
      obtain ⟨file, -, rfl⟩ := Option.map_eq_some_iff.mp first
      rfl
    · rw [← Option.some.inj first]
      rfl

theorem applyPatches_back {get_byte : Nat → UInt8} {back : Bool} {disk after : Disk}
    (rooted : layout.rooted = true)
    (ran : applyPatches layout back get_byte disk = some after) :
    after.back = if back then some disk.file else disk.back := by
  rw [applyPatches, if_pos rooted] at ran
  rw [applySegments_back ran]
  cases back <;> rfl

theorem ticked_getElem? (items : List Nat) (i : Nat) :
    (layout.ticked items).rows[i]? =
      (layout.rows[i]?).map fun row => { row with nSelectStat := items.getD i 0 } :=
  List.getElem?_mapIdx

/-- An application, field by field. -/
structure Applied (layout : Layout) (world : World) (application : Application) (next : World) :
    Prop where
  file : Overlay.putAll indexLimit world.file (application.runs layout) = some next.file
  back : next.back = if application.back then some world.file else world.back
  netnode : ∀ altvals, next.netnode = some altvals → ∀ i, altvals i =
    ((layout.rows[i]?).map fun _ => application.items.getD i 0).getD
      (if i = checkBackfileIndex then (if application.back then 1 else 0)
        else (world.netnode.getD fun _ => 0) i)
  netnode_isSome : next.netnode.isSome = world.netnode.isSome
  applied : next.applied = world.applied ++ [application]

theorem apply_rooted (rooted : layout.rooted = true)
    (ran : world.apply layout application = some next) : Applied layout world application next := by
  obtain ⟨disk, patches, rfl⟩ := Option.map_eq_some_iff.mp ran
  have rooted' : (layout.ticked application.items).rooted = true := rooted
  refine ⟨(applyPatches_some patches).2, applyPatches_back rooted' patches, ?_, ?_, ?_⟩
  · intro altvals stored i
    obtain ⟨-, -, rfl⟩ := Option.map_eq_some_iff.mp stored
    rw [applyPatches_altvals rooted' patches, ticked_getElem?, Option.map_map]
    rfl
  · exact Option.isSome_map
  · exact if_pos rooted

theorem apply_unrooted (unrooted : layout.rooted = false)
    (ran : world.apply layout application = some next) : next = world := by
  obtain ⟨disk, patches, rfl⟩ := Option.map_eq_some_iff.mp ran
  have unrooted' : (layout.ticked application.items).rooted = false := unrooted
  rw [applyPatches, if_neg (by rw [unrooted']; exact Bool.false_ne_true)] at patches
  obtain rfl := Option.some.inj patches
  rw [if_neg (by rw [unrooted]; exact Bool.false_ne_true)]
  have netnode : (world.netnode.map fun _ => world.netnode.getD fun _ => 0) = world.netnode := by
    cases world.netnode <;> rfl
  show { world with netnode := world.netnode.map fun _ => world.netnode.getD fun _ => 0 } = world
  rw [netnode]

/-- What a step can do. -/
inductive Change (layout : Layout) (kinds : SegmentKinds) (world next : World) : Prop where
  | none (file : next.file = world.file) (back : next.back = world.back)
      (netnode : next.netnode = world.netnode) (applied : next.applied = world.applied)
      (windows : next.windows ≠ [] → world.windows ≠ [])
  | shown (file : next.file = world.file) (back : next.back = world.back)
      (netnode : next.netnode = (mainApplyOnInitDialog layout kinds true world.netnode).netnode)
      (applied : next.applied = world.applied)
  | applied (application : Application) (rooted : layout.rooted = true)
      (applies : Applied layout world application next) (windows : world.windows ≠ [])

theorem step_change {event : WorldEvent} (taken : world.step layout kinds event = some next) :
    Change layout kinds world next := by
  cases event with
  | edit get_byte =>
    obtain rfl := Option.some.inj taken
    exact .none rfl rfl rfl rfl id
  | applyWinMain =>
    simp only [World.step] at taken
    split at taken
    · obtain rfl := Option.some.inj taken
      exact .shown rfl rfl rfl rfl
    · obtain rfl := Option.some.inj taken
      exact .none rfl rfl rfl rfl id
  | list k message =>
    obtain rfl := Option.some.inj taken
    exact .none rfl rfl rfl rfl fun some_left => by simpa using some_left
  | backBox k =>
    obtain rfl := Option.some.inj taken
    exact .none rfl rfl rfl rfl fun some_left => by simpa using some_left
  | ok k =>
    simp only [World.step] at taken
    split at taken
    · obtain rfl := Option.some.inj taken
      exact .none rfl rfl rfl rfl id
    · rename_i window there
      obtain ⟨middle, ran, rfl⟩ := Option.map_eq_some_iff.mp taken
      have windows : world.windows ≠ [] := List.ne_nil_of_mem (List.mem_of_getElem? there)
      cases rooted : layout.rooted with
      | true =>
        have applies := apply_rooted rooted ran
        exact .applied _ rooted
          ⟨applies.file, applies.back, applies.netnode, applies.netnode_isSome, applies.applied⟩
          windows
      | false =>
        obtain rfl := apply_unrooted rooted ran
        exact .none rfl rfl rfl rfl fun _ => windows
  | close k =>
    obtain rfl := Option.some.inj taken
    refine .none rfl rfl rfl rfl fun some_left empty => some_left ?_
    show world.windows.eraseIdx k = []
    rw [empty]
    rfl

def untouched : World where
  get_byte _ := 1
  file := List.replicate 8 0
  back := none
  netnode := none
  windows := []
  applied := []

/-- The dialog comes up for one segment and is confirmed. -/
theorem applied_reached : ∃ world : World,
    Transition.Reaches (applySessions (oneSegment 2) plainKinds untouched.file) (fun _ _ => true)
      world ∧
    world.file = [0, 0, 1, 1, 1, 1, 0, 0] ∧ world.back = some untouched.file ∧
      world.applied.length = 1 := by
  have start : Transition.Reaches (applySessions (oneSegment 2) plainKinds untouched.file)
      (fun _ _ => true) untouched := .initial ⟨rfl, rfl, rfl, rfl, rfl⟩
  obtain ⟨world, played⟩ := Option.isSome_iff_exists.mp (show
    ((applySessions (oneSegment 2) plainKinds untouched.file).play (fun _ _ => true) untouched
      [.applyWinMain, .ok 0]).isSome = true from rfl)
  refine ⟨world, start.play played, ?_⟩
  cases played
  exact ⟨rfl, rfl, rfl⟩

/-- What the applications have written over the file, one after the other. -/
def Written (layout : Layout) (original : List UInt8) (applied : List Application)
    (file : List UInt8) : Prop :=
  Overlay.putAll indexLimit original (applied.flatMap fun application => application.runs layout) =
    some file

theorem Written.concat {file after : List UInt8} (written : Written layout original applied file)
    (further : Overlay.putAll indexLimit file (application.runs layout) = some after) :
    Written layout original (applied ++ [application]) after := by
  rw [Written, List.flatMap_append, Overlay.putAll_append, show Overlay.putAll _ _ _ = _ from written,
    Option.bind_some, List.flatMap_singleton]
  exact further

theorem lastByte?_eq (applied : List Application) (o : Nat) :
    ((applied.flatMap fun application => application.runs layout).reverse.findSome? fun run =>
      run.value? o) = lastByte? layout applied o := by
  induction applied using List.reverseRecOn with
  | nil => rfl
  | append_singleton before application ih =>
    rw [List.flatMap_append, List.flatMap_singleton, List.reverse_append, List.findSome?_append, ih,
      lastByte?, lastByte?, List.reverse_append, List.findSome?_append, List.reverse_singleton,
      List.findSome?_singleton]
    rfl

theorem Written.byte {file : List UInt8} (written : Written layout original applied file) (o : Nat) :
    file[o]? = (lastByte? layout applied o).or original[o]? := by
  rw [Overlay.putAll_value written, lastByte?_eq]

theorem reaches_written {allowed : World → WorldEvent → Bool}
    (reached : Transition.Reaches (applySessions layout kinds original) allowed world) :
    Written layout original world.applied world.file := by
  refine @Transition.Reaches.invariant _ _ _ _
    (fun world => Written layout original world.applied world.file) ?_ ?_ _ reached
  · rintro world ⟨rfl, -, -, -, applied⟩
    rw [applied]
    rfl
  · intro world event next written _ taken
    cases step_change taken with
    | none file _ _ applied _ => rwa [file, applied]
    | shown file _ _ applied => rwa [file, applied]
    | applied application _ applies _ =>
      rw [applies.applied]
      exact written.concat applies.file

/-- Every byte of the file is the one that the last application to write there has taken from
the database of its time, or the original one. -/
theorem reaches_file {allowed : World → WorldEvent → Bool}
    (reached : Transition.Reaches (applySessions layout kinds original) allowed world) (o : Nat) :
    world.file[o]? = (lastByte? layout world.applied o).or original[o]? :=
  (reaches_written reached).byte o

theorem reaches_file_segment : ∃ world : World, world.file = [0, 0, 1, 1, 1, 1, 0, 0] ∧
    ∀ o, world.file[o]? = (lastByte? (oneSegment 2) world.applied o).or untouched.file[o]? := by
  obtain ⟨world, reached, file, -, -⟩ := applied_reached
  exact ⟨world, file, reaches_file reached⟩

/-- The file there was before the last application with a tick for the backup, if any. -/
def BackedUp (layout : Layout) (original : List UInt8) (applied : List Application) :
    Option (List UInt8) → Prop
  | none => ∀ application ∈ applied, application.back = false
  | some backup => ∃ earlier application later, applied = earlier ++ application :: later ∧
      application.back = true ∧ (∀ other ∈ later, other.back = false) ∧
      Written layout original earlier backup

theorem BackedUp.concat {backup : Option (List UInt8)} (backed : BackedUp layout original applied backup)
    (plain : application.back = false) :
    BackedUp layout original (applied ++ [application]) backup := by
  cases backup with
  | none =>
    intro other member
    rcases List.mem_append.mp member with before | here
    · exact backed other before
    · rwa [List.mem_singleton.mp here]
  | some backup =>
    obtain ⟨earlier, ticked, later, rfl, tick, unticked, written⟩ := backed
    refine ⟨earlier, ticked, later ++ [application], by simp, tick, ?_, written⟩
    intro other member
    rcases List.mem_append.mp member with before | here
    · exact unticked other before
    · rwa [List.mem_singleton.mp here]

theorem reaches_backedUp {allowed : World → WorldEvent → Bool}
    (reached : Transition.Reaches (applySessions layout kinds original) allowed world) :
    BackedUp layout original world.applied world.back := by
  refine (@Transition.Reaches.invariant _ _ _ _ (fun world =>
    Written layout original world.applied world.file ∧
      BackedUp layout original world.applied world.back) ?_ ?_ _ reached).2
  · rintro world ⟨rfl, back, -, -, applied⟩
    rw [back, applied]
    exact ⟨rfl, fun _ absurd => (List.not_mem_nil absurd).elim⟩
  · rintro world event next ⟨written, backed⟩ _ taken
    cases step_change taken with
    | none file back _ applied _ =>
      rw [file, back, applied]
      exact ⟨written, backed⟩
    | shown file back _ applied =>
      rw [file, back, applied]
      exact ⟨written, backed⟩
    | applied application _ applies _ =>
      rw [applies.applied]
      refine ⟨written.concat applies.file, ?_⟩
      rw [applies.back]
      cases tick : application.back with
      -- the copy is taken in front of the writing
      | true => exact ⟨world.applied, application, [], rfl, tick, by simp, written⟩
      | false => exact backed.concat tick

/-- There is a backup once an application had the tick. The backup differs from the file only
where that application, the last one with the tick, or a later one has written, and its bytes
are those that the ones before have left. -/
theorem reaches_back {allowed : World → WorldEvent → Bool}
    (reached : Transition.Reaches (applySessions layout kinds original) allowed world) :
    match world.back with
    | none => ∀ application ∈ world.applied, application.back = false
    | some backup => ∃ earlier application later,
        world.applied = earlier ++ application :: later ∧ application.back = true ∧
          (∀ other ∈ later, other.back = false) ∧
          ∀ o, backup[o]? = (lastByte? layout earlier o).or original[o]? ∧
            (lastByte? layout (application :: later) o = none → world.file[o]? = backup[o]?) := by
  have backed := reaches_backedUp reached
  have written := reaches_written reached
  cases made : world.back with
  | none => rwa [made] at backed
  | some backup =>
    rw [made] at backed
    obtain ⟨earlier, application, later, split, tick, unticked, before⟩ := backed
    refine ⟨earlier, application, later, split, tick, unticked, fun o => ⟨before.byte o, ?_⟩⟩
    intro untouched
    rw [written.byte, before.byte, split, lastByte?, List.reverse_append, List.findSome?_append,
      show List.findSome? _ (application :: later).reverse = none from untouched, Option.none_or]
    rfl

theorem reaches_back_segment : ∃ (world : World) (backup : List UInt8), world.back = some backup ∧
    ∃ earlier application later,
      world.applied = earlier ++ application :: later ∧ application.back = true ∧
        (∀ other ∈ later, other.back = false) ∧
        ∀ o, backup[o]? = (lastByte? (oneSegment 2) earlier o).or untouched.file[o]? ∧
          (lastByte? (oneSegment 2) (application :: later) o = none →
            world.file[o]? = backup[o]?) := by
  obtain ⟨world, reached, -, back, -⟩ := applied_reached
  have backed := reaches_back reached
  rw [back] at backed
  exact ⟨world, untouched.file, back, backed⟩

theorem firstAltvals_before {rows : List Row} {start : Nat} {altvals : Nat → Nat} (before : k < start) :
    firstAltvals layout kinds start rows altvals k = altvals k := by
  induction rows generalizing start altvals with
  | nil => rfl
  | cons row rest ih =>
    rw [firstAltvals, ih (Nat.lt_succ_of_lt before)]
    split
    · exact if_neg (Nat.ne_of_lt before)
    · rfl

theorem firstAltvals_row {rows : List Row} {start : Nat} {altvals : Nat → Nat} {row : Row}
    (there : rows[k]? = some row) (placed : layout.hasOffset row = true) :
    firstAltvals layout kinds start rows altvals (start + k) = kinds.bStats (start + k) := by
  induction rows generalizing start altvals k with
  | nil => cases there
  | cons first rest ih =>
    rw [firstAltvals]
    cases k with
    | zero =>
      obtain rfl := Option.some.inj there
      show firstAltvals layout kinds (start + 1) rest _ start = kinds.bStats start
      rw [firstAltvals_before (Nat.lt_add_one start), if_pos placed]
      exact if_pos rfl
    | succ k =>
      have later := @ih k (start + 1) (if layout.hasOffset first then
        fun k => if k = start then kinds.bStats start else altvals k else altvals) there
      rwa [Nat.add_right_comm] at later

/-- What the netnode holds behind an application, the last one, or before the first. Segment 256
has the key of the backup. -/
def Remembers (layout : Layout) (kinds : SegmentKinds) (altvals : Nat → Nat) :
    Option Application → Prop
  | some application =>
    (∀ i < layout.rows.length, altvals i = application.items.getD i 0) ∧
      (layout.rows.length ≤ checkBackfileIndex →
        altvals checkBackfileIndex = if application.back then 1 else 0)
  | none =>
    (∀ i row, layout.rows[i]? = some row → layout.hasOffset row = true → i ≠ checkBackfileIndex →
        altvals i = kinds.bStats i) ∧
      altvals checkBackfileIndex = 1

theorem remembers_first (rooted : layout.rooted = true) {altvals : Nat → Nat}
    (created : (mainApplyOnInitDialog layout kinds true none).netnode = some altvals) :
    Remembers layout kinds altvals none := by
  rw [mainApplyOnInitDialog, rooted, Bool.and_true, if_pos rfl] at created
  obtain rfl := Option.some.inj created
  refine ⟨fun i row there placed other => ?_, if_pos rfl⟩
  have stored := @firstAltvals_row layout kinds i layout.rows 0 (fun _ => 0) row there placed
  rw [Nat.zero_add] at stored
  exact (if_neg other).trans stored

theorem shown_netnode (rooted : layout.rooted = true) (altvals : Nat → Nat) :
    (mainApplyOnInitDialog layout kinds true (some altvals)).netnode = some altvals := by
  rw [mainApplyOnInitDialog, rooted, Bool.and_true, if_pos rfl]

theorem remembers_applied (applies : Applied layout world application next) {altvals : Nat → Nat}
    (stored : next.netnode = some altvals) : Remembers layout kinds altvals (some application) := by
  refine ⟨fun i inside => ?_, fun few => ?_⟩
  · rw [applies.netnode altvals stored, List.getElem?_eq_getElem inside]
    rfl
  · rw [applies.netnode altvals stored, List.getElem?_eq_none few, if_pos rfl]
    rfl

/-- Before there is a netnode there is no dialog. -/
def Stored (layout : Layout) (kinds : SegmentKinds) (world : World) : Prop :=
  match world.netnode with
  | none => world.windows = [] ∧ world.applied = []
  | some altvals => Remembers layout kinds altvals world.applied.getLast?

theorem reaches_stored (rooted : layout.rooted = true) {allowed : World → WorldEvent → Bool}
    (reached : Transition.Reaches (applySessions layout kinds original) allowed world) :
    Stored layout kinds world := by
  refine @Transition.Reaches.invariant _ _ _ _ (Stored layout kinds) ?_ ?_ _ reached
  · rintro world ⟨-, -, netnode, windows, applied⟩
    rw [Stored, netnode]
    exact ⟨windows, applied⟩
  · intro world event next stored _ taken
    rw [Stored] at stored ⊢
    cases step_change taken with
    | none _ _ netnode applied windows =>
      rw [netnode, applied]
      cases made : world.netnode with
      | none =>
        rw [made] at stored
        exact ⟨by_contra fun some_left => windows some_left stored.1, stored.2⟩
      | some altvals => rwa [made] at stored
    | shown _ _ netnode applied =>
      rw [netnode, applied]
      cases made : world.netnode with
      | none =>
        rw [made] at stored
        obtain ⟨altvals, created⟩ := @onInitDialog_netnode layout kinds rooted none
        rw [created, stored.2]
        exact remembers_first rooted created
      | some altvals =>
        rw [made] at stored
        rw [shown_netnode rooted]
        exact stored
    | applied application _ applies windows =>
      cases made : world.netnode with
      | none =>
        rw [made] at stored
        exact absurd stored.1 windows
      | some altvals =>
        have is_some := applies.netnode_isSome
        rw [made] at is_some
        obtain ⟨after, kept⟩ := Option.isSome_iff_exists.mp is_some
        rw [kept, applies.applied, List.getLast?_concat]
        exact remembers_applied applies kept

/-- The dialog shows the choices of an application, or those of the first time: the states of
the segments with a place in the file, and the box for the backup while no segment has its key. -/
def Shows (layout : Layout) (kinds : SegmentKinds) (dialog : Dialog) : Option Application → Prop
  | some application =>
    (∀ i row, layout.rows[i]? = some row → layout.hasOffset row = true →
        dialog.items[i]? = some (application.items.getD i 0)) ∧
      (layout.rows.length ≤ checkBackfileIndex → dialog.back = application.back)
  | none =>
    (∀ i row, layout.rows[i]? = some row → layout.hasOffset row = true → i ≠ checkBackfileIndex →
        dialog.items[i]? = some (kinds.bStats i)) ∧
      dialog.back = true

theorem shows_of_remembers (rooted : layout.rooted = true) {altvals : Nat → Nat}
    {last : Option Application} (remembers : Remembers layout kinds altvals last) :
    Shows layout kinds (mainApplyOnInitDialog layout kinds true (some altvals)) last := by
  have dialog : mainApplyOnInitDialog layout kinds true (some altvals) =
      { items := layout.rows.mapIdx fun i row => if layout.hasOffset row then altvals i else 0
        back := altvals checkBackfileIndex != 0
        netnode := some altvals } := by
    rw [mainApplyOnInitDialog, rooted, Bool.and_true, if_pos rfl]
  have item {i : Nat} {row : Row} (there : layout.rows[i]? = some row)
      (placed : layout.hasOffset row = true) :
      (layout.rows.mapIdx fun i row => if layout.hasOffset row then altvals i else 0)[i]? =
        some (altvals i) := by
    rw [List.getElem?_mapIdx, there, Option.map_some, if_pos placed]
  rw [dialog]
  cases last with
  | none =>
    obtain ⟨rows, box⟩ := remembers
    refine ⟨fun i row there placed other => ?_, by rw [box]; rfl⟩
    rw [item there placed, rows i row there placed other]
  | some application =>
    obtain ⟨rows, box⟩ := remembers
    refine ⟨fun i row there placed => ?_, fun few => ?_⟩
    · rw [item there placed, rows i (List.getElem?_eq_some_iff.mp there).1]
    · rw [box few]
      cases application.back <;> rfl

/-- Whatever was clicked and closed without confirming, a dialog comes up with the choices that
were applied last, or with those of the first time. -/
theorem reaches_shows (rooted : layout.rooted = true) {allowed : World → WorldEvent → Bool}
    (reached : Transition.Reaches (applySessions layout kinds original) allowed world) :
    Shows layout kinds (mainApplyOnInitDialog layout kinds true world.netnode)
      world.applied.getLast? := by
  have stored := reaches_stored rooted reached
  rw [Stored] at stored
  cases made : world.netnode with
  | some altvals =>
    rw [made] at stored
    exact shows_of_remembers rooted stored
  | none =>
    rw [made] at stored
    rw [stored.2]
    have dialog : mainApplyOnInitDialog layout kinds true none =
        { items := layout.rows.mapIdx fun i row => if layout.hasOffset row then kinds.bStats i else 0
          back := true
          netnode := (mainApplyOnInitDialog layout kinds true none).netnode } := by
      rw [mainApplyOnInitDialog, rooted, Bool.and_true, if_pos rfl]
    rw [dialog]
    refine ⟨fun i row there placed _ => ?_, rfl⟩
    rw [List.getElem?_mapIdx, there, Option.map_some, if_pos placed]

theorem reaches_shows_segment : ∃ world : World, world.applied.length = 1 ∧
    Shows (oneSegment 2) plainKinds
      (mainApplyOnInitDialog (oneSegment 2) plainKinds true world.netnode)
      world.applied.getLast? := by
  obtain ⟨world, reached, -, -, applied⟩ := applied_reached
  exact ⟨world, applied, reaches_shows rfl reached⟩

end IDAPlugins.MoreMenu
