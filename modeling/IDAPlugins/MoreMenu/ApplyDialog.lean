import IDAPlugins.MoreMenu.ApplyPatches

namespace IDAPlugins.MoreMenu

/-! # The choices of the dialog

`Main_Apply_OnInitDialog` fills the dialog from the values that `Apply_patches` has
stored in the netnode. The check state of a segment has the index of the segment as its
key, the box for the backup has a fixed one.
-/

/-- Names and types of the segments, by their index. -/
structure SegmentKinds where
  segname : Nat → List UInt8
  type : Nat → Nat

def segCode : Nat := 2

/-- `.got` and `.plt` -/
def g_szFilterTable : List (List UInt8) :=
  [[0x2E, 0x67, 0x6F, 0x74], [0x2E, 0x70, 0x6C, 0x74]]

def isFilterTable (lpName : List UInt8) : Bool :=
  g_szFilterTable.any fun entry => lpName.take 0x20 == entry.take 0x20

/-- The check state of each segment in the list, the box for the backup, and the values
of the netnode if there is one. -/
structure Dialog where
  items : List Nat
  back : Bool
  netnode : Option (Nat → Nat)

def Layout.hasOffset (layout : Layout) (row : Row) : Bool :=
  decide (0 < layout.fileOffset row.curseg.startEA)

/-- The state a segment starts with. -/
def SegmentKinds.bStats (kinds : SegmentKinds) (i : Nat) : Nat :=
  if !isFilterTable (kinds.segname i) && kinds.type i == segCode then 1 else 0

/-- The loop of the first run stores what it shows. -/
def firstAltvals (layout : Layout) (kinds : SegmentKinds) :
    Nat → List Row → (Nat → Nat) → Nat → Nat
  | _, [], altvals => altvals
  | i, row :: rest, altvals =>
    firstAltvals layout kinds (i + 1) rest
      (if layout.hasOffset row then fun k => if k = i then kinds.bStats i else altvals k
        else altvals)

/-- `opened` tells whether the input file can be opened. -/
def mainApplyOnInitDialog (layout : Layout) (kinds : SegmentKinds) (opened : Bool)
    (netnode : Option (Nat → Nat)) : Dialog :=
  if layout.rooted && opened then
    match netnode with
    | none =>
      let altvals := firstAltvals layout kinds 0 layout.rows fun _ => 0
      { items := layout.rows.mapIdx fun i row => if layout.hasOffset row then kinds.bStats i else 0
        back := true
        netnode := some fun k => if k = checkBackfileIndex then 1 else altvals k }
    | some altvals =>
      { items := layout.rows.mapIdx fun i row => if layout.hasOffset row then altvals i else 0
        back := altvals checkBackfileIndex != 0
        netnode := some altvals }
  else
    { items := [], back := false, netnode }

/-- The segments with the check states of a list. -/
def Layout.ticked (layout : Layout) (items : List Nat) : Layout :=
  { layout with
    rows := layout.rows.mapIdx fun i row => { row with nSelectStat := items.getD i 0 } }

/-- The dialog shows the states that were applied. -/
structure Restored (layout : Layout) (back : Bool) (dialog : Dialog) : Prop where
  segments : ∀ (i : Nat) (row : Row), layout.rows[i]? = some row → layout.hasOffset row = true →
    dialog.items[i]? = some row.nSelectStat
  back : dialog.back = back

/-- Where the file opens again, a segment whose index is the key of the backup box has
the state of the box; where it does not, there is nothing to restore. -/
def Restorable (layout : Layout) (back opened : Bool) : Prop :=
  if opened then
    ∀ row, layout.rows[checkBackfileIndex]? = some row → (row.nSelectStat ≠ 0 ↔ back = true)
  else
    back = false ∧ ∀ row ∈ layout.rows, layout.hasOffset row = false

variable {layout : Layout} {get_byte : Nat → UInt8}

theorem applySegment_altvals {i : Nat} {row : Row} {disk after : Disk}
    (ran : applySegment layout get_byte i row disk = some after) :
    after.altvals = (disk.altset i row.nSelectStat).altvals := by
  rw [applySegment] at ran
  by_cases taken : layout.written row = true
  · rw [if_pos taken] at ran
    by_cases memory : allocates row.curseg.nSize
    · rw [if_pos memory] at ran
      obtain ⟨file, -, rfl⟩ := Option.map_eq_some_iff.mp ran
      rfl
    · rw [if_neg memory] at ran
      cases ran
  · rw [if_neg taken] at ran
    rw [← Option.some.inj ran]

/-- The loop stores the state of every segment under its index and nothing else. -/
theorem applySegments_altvals {i : Nat} {rows : List Row} {disk after : Disk}
    (ran : applySegments layout get_byte i rows disk = some after) (k : Nat) :
    after.altvals k =
      if i ≤ k then ((rows[k - i]?).map Row.nSelectStat).getD (disk.altvals k) else disk.altvals k := by
  induction rows generalizing i disk with
  | nil =>
    rw [← Option.some.inj ran]
    simp
  | cons row rest ih =>
    obtain ⟨next, first, ran⟩ := Option.bind_eq_some_iff.mp ran
    have value : next.altvals k = if k = i then row.nSelectStat else disk.altvals k := by
      rw [applySegment_altvals first]
      rfl
    rw [ih ran, value]
    rcases Nat.lt_trichotomy k i with before | here | behind
    · rw [if_neg (by omega), if_neg (by omega), if_neg (by omega)]
    · rw [if_neg (by omega), if_pos here, if_pos (by omega), here, Nat.sub_self]
      rfl
    · have index : k - i = k - (i + 1) + 1 := by omega
      rw [if_pos (by omega), if_neg (by omega), if_pos (by omega), index, List.getElem?_cons_succ]

/-- The values behind `Apply_patches`. -/
theorem applyPatches_altvals {back : Bool} {disk after : Disk} (rooted : layout.rooted = true)
    (ran : applyPatches layout back get_byte disk = some after) (k : Nat) :
    after.altvals k =
      ((layout.rows[k]?).map Row.nSelectStat).getD
        (if k = checkBackfileIndex then (if back then 1 else 0) else disk.altvals k) := by
  rw [applyPatches, if_pos rooted] at ran
  cases back with
  | true =>
    have stored := applySegments_altvals ran k
    rw [if_pos (Nat.zero_le k), Nat.sub_zero] at stored
    exact stored
  | false =>
    have stored := applySegments_altvals ran k
    rw [if_pos (Nat.zero_le k), Nat.sub_zero] at stored
    exact stored

theorem stored_segment {back : Bool} {disk after : Disk} (rooted : layout.rooted = true)
    (ran : applyPatches layout back get_byte disk = some after) {i : Nat} {row : Row}
    (there : layout.rows[i]? = some row) : after.altvals i = row.nSelectStat := by
  rw [applyPatches_altvals rooted ran, there]
  rfl

/-- The key of the backup box holds its state, unless a segment has the same key. -/
theorem stored_back {back : Bool} {disk after : Disk} (rooted : layout.rooted = true)
    (ran : applyPatches layout back get_byte disk = some after) :
    (after.altvals checkBackfileIndex != 0) = back ↔
      ∀ row, layout.rows[checkBackfileIndex]? = some row → (row.nSelectStat ≠ 0 ↔ back = true) := by
  cases there : layout.rows[checkBackfileIndex]? with
  | none =>
    have value : after.altvals checkBackfileIndex = if back then 1 else 0 := by
      rw [applyPatches_altvals rooted ran, there, if_pos rfl]
      rfl
    refine iff_of_true ?_ fun row absent => Option.noConfusion rfl (heq_of_eq absent)
    rw [value]
    cases back <;> rfl
  | some row =>
    rw [stored_segment rooted ran there]
    constructor
    · intro same other found
      rw [← Option.some.inj found, ← same, bne_iff_ne]
    · intro agree
      rw [Bool.eq_iff_iff, bne_iff_ne]
      exact agree row rfl

/-- A dialog that comes up leaves a netnode behind, in the first run and later. -/
theorem onInitDialog_netnode (kinds : SegmentKinds) (rooted : layout.rooted = true)
    (before : Option (Nat → Nat)) :
    ∃ altvals, (mainApplyOnInitDialog layout kinds true before).netnode = some altvals := by
  cases before with
  | none =>
    rw [mainApplyOnInitDialog, rooted, Bool.and_true, if_pos rfl]
    exact ⟨_, rfl⟩
  | some altvals =>
    rw [mainApplyOnInitDialog, rooted, Bool.and_true, if_pos rfl]
    exact ⟨altvals, rfl⟩

theorem restored_iff (kinds : SegmentKinds) {back : Bool} {disk after : Disk}
    (rooted : layout.rooted = true)
    (ran : applyPatches layout back get_byte disk = some after) (opened : Bool) :
    Restored layout back (mainApplyOnInitDialog layout kinds opened (some after.altvals)) ↔
      Restorable layout back opened := by
  cases opened with
  | true =>
    have dialog : mainApplyOnInitDialog layout kinds true (some after.altvals) =
        { items := layout.rows.mapIdx fun i row =>
            if layout.hasOffset row then after.altvals i else 0
          back := after.altvals checkBackfileIndex != 0
          netnode := some after.altvals } := by
      rw [mainApplyOnInitDialog, rooted, Bool.and_true, if_pos rfl]
    rw [dialog, Restorable, if_pos rfl, ← stored_back rooted ran]
    constructor
    · intro restored
      exact restored.back
    · intro box
      refine ⟨fun i row there hasOffset => ?_, box⟩
      rw [List.getElem?_mapIdx, there, Option.map_some, if_pos hasOffset,
        stored_segment rooted ran there]
  | false =>
    have dialog : mainApplyOnInitDialog layout kinds false (some after.altvals) =
        { items := [], back := false, netnode := some after.altvals } := by
      rw [mainApplyOnInitDialog, Bool.and_false, if_neg Bool.false_ne_true]
    rw [dialog, Restorable, if_neg Bool.false_ne_true]
    constructor
    · intro restored
      refine ⟨restored.back.symm, fun row member => ?_⟩
      by_contra hasOffset
      obtain ⟨i, there⟩ := List.mem_iff_getElem?.mp member
      have shown := restored.segments i row there (eq_true_of_ne_false hasOffset)
      cases shown
    · intro nothing
      refine ⟨fun i row there hasOffset => ?_, nothing.1.symm⟩
      rw [nothing.2 row (List.mem_of_getElem? there)] at hasOffset
      cases hasOffset

/-- A dialog that comes up has a netnode. What `Apply_patches` stores there the next dialog
restores exactly when the file opens again and a segment with the key of the backup box has the
state of the box, or when there is nothing to restore. -/
theorem dialog_restores_iff (layout : Layout) (kinds : SegmentKinds) (rooted : layout.rooted = true)
    (before : Option (Nat → Nat)) :
    ∃ altvals, (mainApplyOnInitDialog layout kinds true before).netnode = some altvals ∧
      ∀ back get_byte file copy after,
        applyPatches layout back get_byte { file, back := copy, altvals } = some after →
          ∀ opened,
            (Restored layout back
                (mainApplyOnInitDialog layout kinds opened (some after.altvals)) ↔
              Restorable layout back opened) := by
  obtain ⟨altvals, created⟩ := onInitDialog_netnode kinds rooted before
  refine ⟨altvals, created, ?_⟩
  intro back get_byte file copy after ran opened
  exact restored_iff kinds rooted ran opened

/-- Segments of four bytes one behind another, none of them ticked. -/
def unticked (count : Nat) : Layout where
  database_idb := [0x5C]
  rows := (List.range count).map fun i =>
    { curseg := { startEA := 0x1000 + 4 * i, endEA := 0x1000 + 4 * i + 4, ordered := by omega }
      nSelectStat := 0 }
  get_fileregion_offset a := if 0x1000 ≤ a then some (a - 0xFFE) else none
  injective := by
    intro a b o placeA placeB
    split at placeA
    · split at placeB
      · rw [Option.some.injEq] at placeA placeB
        omega
      · cases placeB
    · cases placeA

theorem applySegments_unticked (i : Nat) (rows : List Row) (free : ∀ row ∈ rows, row.nSelectStat = 0)
    (disk : Disk) : ∃ after, applySegments layout get_byte i rows disk = some after := by
  induction rows generalizing i disk with
  | nil => exact ⟨disk, rfl⟩
  | cons row rest ih =>
    obtain ⟨first, free⟩ := List.forall_mem_cons.mp free
    have untaken : ¬layout.written row = true := by
      rw [Layout.written, first, bne_self_eq_false, Bool.and_false]
      exact Bool.false_ne_true
    rw [applySegments, applySegment, if_neg untaken]
    exact ih (i + 1) free _

def plainKinds : SegmentKinds where
  segname _ := [0x61]
  type _ := segCode

theorem applyPatches_unticked (count : Nat) (disk : Disk) :
    ∃ after, applyPatches (unticked count) true get_byte disk = some after := by
  have free : ∀ row ∈ (unticked count).rows, row.nSelectStat = 0 := by
    intro row member
    obtain ⟨i, -, rfl⟩ := List.mem_map.mp member
    rfl
  rw [applyPatches, if_pos rfl]
  exact applySegments_unticked 0 _ free _

/-- Three segments, the first and the last of them ticked, which go over a file of 16 bytes. -/
theorem dialog_restores_two :
    ∃ altvals after, applyPatches ((unticked 3).ticked [1, 0, 1]) false (fun _ => 1)
        { file := List.replicate 16 0, back := none, altvals } = some after ∧
      after.file = [0, 0, 1, 1, 1, 1, 0, 0, 0, 0, 1, 1, 1, 1, 0, 0] ∧
      Restored ((unticked 3).ticked [1, 0, 1]) false
        (mainApplyOnInitDialog ((unticked 3).ticked [1, 0, 1]) plainKinds true
          (some after.altvals)) := by
  obtain ⟨altvals, -, restores⟩ :=
    dialog_restores_iff ((unticked 3).ticked [1, 0, 1]) plainKinds rfl none
  obtain ⟨after, ran⟩ := Option.isSome_iff_exists.mp (show
    (applyPatches ((unticked 3).ticked [1, 0, 1]) false (fun _ => 1)
      { file := List.replicate 16 0, back := none, altvals }).isSome = true from rfl)
  have few : Restorable ((unticked 3).ticked [1, 0, 1]) false true := fun row absent => by cases absent
  refine ⟨altvals, after, ran, ?_, (restores false _ _ _ after ran true).mpr few⟩
  cases ran
  rfl

/-- With 257 segments a ticked backup box comes back without its tick. -/
theorem dialog_loses_back :
    ∃ after, applyPatches (unticked 257) true (fun _ => 0)
        { file := [], back := none, altvals := fun _ => 0 } = some after ∧
      (mainApplyOnInitDialog (unticked 257) plainKinds true (some after.altvals)).back = false := by
  obtain ⟨after, ran⟩ := applyPatches_unticked 257 { file := [], back := none, altvals := fun _ => 0 }
  refine ⟨after, ran, ?_⟩
  have there : (unticked 257).rows[checkBackfileIndex]? = some
      { curseg := { startEA := 0x1400, endEA := 0x1404, ordered := by decide }, nSelectStat := 0 } := by
    rw [unticked, List.getElem?_map, List.getElem?_range (by decide)]
    rfl
  have value : after.altvals checkBackfileIndex = 0 := stored_segment rfl ran there
  exact bne_eq_false_iff_eq.mpr value

end IDAPlugins.MoreMenu
