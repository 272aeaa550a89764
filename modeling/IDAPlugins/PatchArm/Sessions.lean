import IDAPlugins.PatchArm.Keyboard
import IDAPlugins.PatchArm.Translation
import IDAPlugins.Segments
import IDAPlugins.Transition

namespace IDAPlugins.PatchArm

open Keyboard

/-! # Sessions with the dialog

The dialog is opened at the cursor and collects the names in the function there. It patches
the database when it is confirmed or when the two keys are let go, and closes then; the
names go with it.
-/

/-- The database with its functions and names. -/
structure Idb where
  db : Segments.Database
  outside : Outside
  /-- `startEA` and `endEA` of the function at an address -/
  get_func : Nat → Option (Nat × Nat)
  get_name : Nat → List UInt8
  /-- The register `T` at an address -/
  getSR : Nat → Nat
  func_le : ∀ ea funV, get_func ea = some funV → funV.2 ≤ Segments.badaddr db.ea64

/-- The controls; an edit control holds less than 2³¹ characters. -/
structure Input where
  controls : Controls
  length_lt : controls.editCode.length < 2147483648

/-- The loop over the instructions of a function. A name is copied into 256 bytes. -/
def collect (idb : Idb) (EndAddr : Nat) : Nat → Nat → List LocalVarilInfo
  | 0, _ => []
  | fuel + 1, i =>
    if i < EndAddr then
      let szName := (idb.get_name i).take 255
      (if szName ≠ [] then [{ szName, dwAddr := i }] else []) ++
        collect idb EndAddr fuel (idb.db.findCode i)
    else []

def collectNames (idb : Idb) (g_Current : Nat) : List LocalVarilInfo :=
  match idb.get_func g_Current with
  | none => []
  | some (startAddr, EndAddr) => collect idb EndAddr (EndAddr - startAddr) startAddr

/-- `%I64X`, or `%08X` in the 32-bit build -/
def addressText (ea64 : Bool) (g_Current : Nat) : List UInt8 :=
  HexText.hexText (if ea64 then 1 else 8) g_Current

def mainOnInitDialog (idb : Idb) (g_Current : Nat) (globals : Globals) : Globals × Input :=
  let ARM := !idb.db.ea64 && idb.getSR g_Current == 0
  ({ globals with
      g_Current
      g_lvInfos := globals.g_lvInfos ++ collectNames idb g_Current
      g_nType := if idb.db.ea64 then globals.g_nType else if ARM then .arm else .thumb },
    { controls := { arm := ARM, editAddr := addressText idb.db.ea64 g_Current, editCode := [] }
      length_lt := Nat.zero_lt_succ _ })

structure Session where
  globals : Globals
  dialog : Option Input
  times : Times
  printed : List Log

inductive Event where
  /-- `IDAP_run` with the cursor at an address -/
  | run (ea : Nat)
  | edit (input : Input)
  | ok
  /-- `IDC_CANCEL` or `WM_CLOSE` -/
  | close
  /-- A key, and the code box behind the backspace that the shortcut sends it. -/
  | key (event : KeyEvent) (backspaced : Input)

/-- `OnButtonCalc` for a session. -/
def Session.calc (idb : Idb) (session : Session) (input : Input) : Option Session :=
  (onButtonCalc idb.db.ea64 idb.outside input.controls session.globals).map fun
    | (globals, .patched log) =>
      { session with globals, dialog := none, printed := session.printed ++ [log] }
    | (globals, _) => { session with globals, dialog := some input }

/-- `none` is an access outside a buffer. Without a dialog nothing but `IDAP_run` happens. -/
def Session.step (idb : Idb) (session : Session) : Event → Option Session
  | .run ea =>
    match session.dialog with
    | some _ => some session
    | none =>
      let (globals, input) := mainOnInitDialog idb ea session.globals
      some { session with globals, dialog := some input }
  | .edit input =>
    some { session with dialog := session.dialog.map fun _ => input }
  | .ok =>
    match session.dialog with
    | none => some session
    | some input => session.calc idb input
  | .close =>
    match session.dialog with
    | none => some session
    | some _ =>
      some { session with
        globals := { session.globals with g_lvInfos := [] }
        dialog := none }
  | .key event backspaced =>
    match session.dialog with
    | none => some session
    | some _ =>
      let (times, fires) := keyboardProc session.times event
      if fires then { session with times }.calc idb backspaced else some { session with times }

/-- Sessions that start without a dialog, with a database that nothing was printed about. -/
def sessions (idb : Idb) (memory : Nat → UInt8) : Transition.System Session Event where
  initial session := session.dialog = none ∧ session.globals.g_lvInfos = [] ∧
    session.printed = [] ∧ session.globals.memory = memory
  step session event := session.step idb event

/-- The byte that `%02X` printed. -/
def readByte (text : List UInt8) : UInt8 :=
  UInt8.ofNat (HexText.readHex text)

/-- The original bytes of a log put back where they were. -/
def undo (idb : Idb) (log : Log) (memory : Nat → UInt8) : Nat → UInt8 :=
  Cyclic.writeFrom (Segments.badaddr idb.db.ea64 + 1) idb.outside.isEnabled log.address
    (log.original.map readByte) memory

variable {idb : Idb} {session next : Session} {event : Event}

/-- The input that an event confirms, when the dialog holds another. -/
def Event.Confirms (event : Event) (old input : Input) : Prop :=
  event = .ok ∧ input = old ∨ ∃ key, event = .key key input

/-- What a step can do. -/
inductive Stepped (idb : Idb) (session : Session) : Event → Session → Prop where
  | idle {event : Event} (times : Times) : Stepped idb session event { session with times }
  | edited {old : Input} (input : Input) (shown : session.dialog = some old) :
    Stepped idb session (.edit input) { session with dialog := some input }
  | opened (ea : Nat) (shut : session.dialog = none) :
    Stepped idb session (.run ea) { session with
      globals := (mainOnInitDialog idb ea session.globals).1
      dialog := some (mainOnInitDialog idb ea session.globals).2 }
  | closed : Stepped idb session .close { session with
      globals := { session.globals with g_lvInfos := [] }
      dialog := none }
  | refused {event : Event} {old input : Input} {globals : Globals} {report : Report} (times : Times)
    (shown : session.dialog = some old) (confirms : event.Confirms old input)
    (ran : onButtonCalc idb.db.ea64 idb.outside input.controls session.globals =
      some (globals, report))
    (unpatched : ∀ log, report ≠ .patched log) :
    Stepped idb session event { session with times, globals, dialog := some input }
  | patched {event : Event} {old input : Input} {globals : Globals} {log : Log} (times : Times)
    (shown : session.dialog = some old) (confirms : event.Confirms old input)
    (ran : onButtonCalc idb.db.ea64 idb.outside input.controls session.globals =
      some (globals, .patched log)) :
    Stepped idb session event
      { session with times, globals, dialog := none, printed := session.printed ++ [log] }

theorem calc_cases {old input : Input} (times : Times) (shown : session.dialog = some old)
    (confirms : event.Confirms old input)
    (calculated : { session with times }.calc idb input = some next) :
    Stepped idb session event next := by
  obtain ⟨⟨globals, report⟩, ran, done⟩ := Option.map_eq_some_iff.mp calculated
  cases report with
  | patched log =>
    cases done
    exact .patched times shown confirms ran
  | noCode | noAddress | badAddress | notLoaded | noContent | error | errorClacBL =>
    cases done
    exact .refused times shown confirms ran fun log => nofun

theorem step_cases (stepped : session.step idb event = some next) : Stepped idb session event next := by
  cases event with
  | run ea =>
    rw [Session.step] at stepped
    cases shown : session.dialog with
    | some input =>
      rw [shown] at stepped
      cases stepped
      exact .idle session.times
    | none =>
      rw [shown] at stepped
      cases stepped
      exact .opened ea shown
  | edit input =>
    rw [Session.step] at stepped
    cases shown : session.dialog with
    | some old =>
      rw [shown] at stepped
      cases stepped
      exact .edited input shown
    | none =>
      rw [shown, Option.map_none, ← shown] at stepped
      cases stepped
      exact .idle session.times
  | ok =>
    rw [Session.step] at stepped
    cases shown : session.dialog with
    | some old =>
      rw [shown] at stepped
      exact calc_cases session.times shown (Or.inl ⟨rfl, rfl⟩) stepped
    | none =>
      rw [shown] at stepped
      cases stepped
      exact .idle session.times
  | close =>
    rw [Session.step] at stepped
    cases shown : session.dialog with
    | some old =>
      rw [shown] at stepped
      cases stepped
      exact .closed
    | none =>
      rw [shown] at stepped
      cases stepped
      exact .idle session.times
  | key key backspaced =>
    rw [Session.step] at stepped
    cases shown : session.dialog with
    | some old =>
      rw [shown] at stepped
      simp only [] at stepped
      split at stepped
      · exact calc_cases _ shown (Or.inr ⟨key, rfl⟩) stepped
      · have same := Option.some.inj stepped
        rw [← shown] at same
        exact same ▸ .idle _
    | none =>
      rw [shown] at stepped
      cases stepped
      exact .idle session.times

theorem confirmed_reached {memory : Nat → UInt8} {allowed : Session → Event → Bool} {input : Input}
    (reached : Transition.Reaches (sessions idb memory) allowed session)
    (shown : session.dialog = some input) (meets : allowed session .ok = true)
    (calculated : session.calc idb input = some next) :
    Transition.Reaches (sessions idb memory) allowed next := by
  refine reached.step meets ?_
  change session.step idb .ok = some next
  rw [Session.step, shown]
  exact calculated

/-- A segment with two functions, the second of them named. -/
def loopIdb : Idb where
  db :=
    { ea64 := false
      segments := [{ startEA := 0x8000, endEA := 0x9000, nonempty := by decide }]
      isLoaded := fun _ => true
      heads := [0x8000, 0x8004, 0x8008]
      nonempty := by decide
      ascending := List.pairwise_singleton _ _
      upper := List.forall_iff_forall_mem.mp (by decide)
      increasing := by decide
      inside := List.forall_iff_forall_mem.mp (by decide) }
  outside := loopOutside
  get_func ea := if ea = 0x8000 then some (0x8000, 0x8008) else some (0x8008, 0x800C)
  get_name ea := if ea = 0x8008 then [0x66] else []
  getSR _ := 0
  func_le ea funV found := by
    split at found <;> cases found <;> decide

def loopInput : Input where
  controls := loopControls
  length_lt := by decide

def startSession : Session where
  globals := emptyGlobals
  dialog := none
  times := Times.zero
  printed := []

/-- The user leaves the box for the address alone. -/
def keepsAddress (session : Session) : Event → Bool
  | .edit input | .key _ input =>
    match session.dialog with
    | none => true
    | some old => input.controls.editAddr == old.controls.editAddr
  | _ => true

/-- The dialog is opened at one address only. -/
def opensAt (cursor : Nat) (_ : Session) : Event → Bool
  | .run ea => ea == cursor
  | _ => true

def atStart (session : Session) (event : Event) : Bool :=
  keepsAddress session event && opensAt 0x8000 session event

/-- The dialog opened on the first function. -/
def shownSession (session : Session) : Session :=
  { session with
    globals := (mainOnInitDialog loopIdb 0x8000 session.globals).1
    dialog := some (mainOnInitDialog loopIdb 0x8000 session.globals).2 }

def editedSession (session : Session) : Session :=
  { shownSession session with dialog := some loopInput }

theorem edited_reached
    (reached : Transition.Reaches (sessions loopIdb emptyGlobals.memory) atStart session)
    (shut : session.dialog = none) :
    Transition.Reaches (sessions loopIdb emptyGlobals.memory) atStart (editedSession session) := by
  have shown : Transition.Reaches (sessions loopIdb emptyGlobals.memory) atStart
      (shownSession session) := by
    refine reached.step (show atStart session (.run 0x8000) = true from rfl) ?_
    change session.step loopIdb (.run 0x8000) = some _
    rw [Session.step, shut]
    rfl
  have same : loopInput.controls.editAddr = addressText false 0x8000 := by decide
  have meets : atStart (shownSession session) (.edit loopInput) = true := by
    change (loopInput.controls.editAddr == addressText false 0x8000 && true) = true
    rw [same, beq_self_eq_true, Bool.and_true]
  exact shown.step meets rfl

theorem loop_calc (names : session.globals.g_lvInfos = []) :
    ∃ next log, session.calc loopIdb loopInput = some next ∧ next.dialog = none ∧
      next.globals.g_lvInfos = [] ∧ next.printed = session.printed ++ [log] ∧
      log.address = 0x8000 ∧ log.len = 8 := by
  have ran : onButtonCalc loopIdb.db.ea64 loopIdb.outside loopInput.controls session.globals = _ :=
    loop_ran session.globals names
  have read : readAddress false (loopControls.editAddr.take 255) = 0x8000 := by decide
  rw [Session.calc, ran]
  exact ⟨_, _, rfl, rfl, rfl, rfl, read, rfl⟩

/-- The loop put to where the dialog is opened, whatever was put there before. -/
theorem loop_again
    (reached : Transition.Reaches (sessions loopIdb emptyGlobals.memory) atStart session)
    (shut : session.dialog = none) (empty : session.globals.g_lvInfos = []) :
    ∃ next log, Transition.Reaches (sessions loopIdb emptyGlobals.memory) atStart next ∧
      next.dialog = none ∧ next.globals.g_lvInfos = [] ∧ next.printed = session.printed ++ [log] ∧
      log.address = 0x8000 ∧ log.len = 8 := by
  have names : (editedSession session).globals.g_lvInfos = [] := by
    change session.globals.g_lvInfos ++ collectNames loopIdb 0x8000 = []
    rw [empty]
    decide
  obtain ⟨next, log, calculated, patched⟩ := loop_calc names
  exact ⟨next, log, confirmed_reached (edited_reached reached shut) rfl rfl calculated, patched⟩

theorem loop_reached : ∃ session log,
    Transition.Reaches (sessions loopIdb emptyGlobals.memory) atStart session ∧
      session.dialog = none ∧ session.globals.g_lvInfos = [] ∧ session.printed = [log] ∧
      log.address = 0x8000 ∧ log.len = 8 :=
  @loop_again startSession (.initial ⟨rfl, rfl, rfl, rfl⟩) rfl rfl

theorem readByte_printByte (byte : UInt8) : readByte (printByte byte) = byte := by
  rw [readByte, printByte, HexText.readHex_hexText, UInt8.ofNat_toNat]

theorem onButtonCalc_undo {controls : Controls} {globals after : Globals} {log : Log}
    (small : controls.editCode.length < 2147483648)
    (ran : onButtonCalc idb.db.ea64 idb.outside controls globals = some (after, .patched log)) :
    undo idb log after.memory = globals.memory := by
  rcases onButtonCalc_cases ran with ⟨-, -, -, unpatched⟩ |
    ⟨nCodeLen, lpRetBuf, analysis, lpCode, outcome, done⟩
  · exact absurd rfl (unpatched log)
  have space : (buildOf idb.db.ea64 controls.g_nType).addresses = Segments.badaddr idb.db.ea64 + 1 := by
    cases build : idb.db.ea64 <;> rfl
  have bounded : (lpRetBuf.take nCodeLen).length ≤ Segments.badaddr idb.db.ea64 + 1 := by
    have length := done.length
    have least := addresses_ge (buildOf idb.db.ea64 controls.g_nType)
    rw [Controls.nRetBufLen, capacity] at length
    rw [List.length_take, ← space]
    split at length <;> omega
  rw [patchCode, space, patchLoop_eq bounded] at outcome
  cases outcome
  have printed : readByte ∘ printByte = id := funext readByte_printByte
  rw [undo, List.map_map, printed, List.map_id]
  exact Cyclic.writeFrom_restores bounded

/-- The original bytes that were printed, put back from the last patch to the first, give the
database as it was. -/
def Undone (idb : Idb) (memory : Nat → UInt8) (session : Session) : Prop :=
  session.printed.foldr (undo idb) session.globals.memory = memory

/-- In every session, what was printed puts the database back as it was. -/
theorem reaches_undo {memory : Nat → UInt8} {allowed : Session → Event → Bool}
    (reached : Transition.Reaches (sessions idb memory) allowed session) :
    Undone idb memory session := by
  refine @Transition.Reaches.invariant _ _ _ _ (Undone idb memory) ?_ ?_ _ reached
  · rintro session ⟨-, -, printed, start⟩
    rw [Undone, printed, List.foldr_nil, start]
  · intro session event next kept _ stepped
    cases step_cases stepped with
    | idle times => exact kept
    | edited input shown => exact kept
    | opened ea shut => exact kept
    | closed => exact kept
    | refused times shown confirms ran unpatched =>
      rcases onButtonCalc_cases ran with ⟨same, -, -, -⟩ | ⟨_, _, _, _, outcome, -⟩
      · change session.printed.foldr (undo idb) _ = memory
        rw [same, kept]
      · exact absurd (congrArg Prod.snd outcome) (unpatched _)
    | patched times shown confirms ran =>
      change (session.printed ++ [_]).foldr (undo idb) _ = memory
      rw [List.foldr_append, List.foldr_cons, List.foldr_nil, onButtonCalc_undo (Input.length_lt _) ran, kept]

/-- The second patch goes over the first. -/
theorem reaches_undo_twice : ∃ (session : Session) (first second : Log),
    session.printed = [first, second] ∧ first.address = second.address ∧ first.len = second.len ∧
      undo loopIdb first (undo loopIdb second session.globals.memory) = emptyGlobals.memory := by
  obtain ⟨session, first, reached, shut, empty, printed, place, len⟩ := loop_reached
  obtain ⟨next, second, again, -, -, both, place', len'⟩ := loop_again reached shut empty
  have undone := reaches_undo again
  rw [printed] at both
  rw [Undone, both] at undone
  exact ⟨next, first, second, both, place.trans place'.symm, len.trans len'.symm, undone⟩

/-- The dialog is shut and there are no names, or it was opened at a cursor and the names are
those that were collected there. -/
def Collected (idb : Idb) (Cursor : Nat → Prop) (session : Session) : Prop :=
  (session.dialog = none ∧ session.globals.g_lvInfos = []) ∨
    ∃ input ea, session.dialog = some input ∧ Cursor ea ∧
      session.globals.g_lvInfos = collectNames idb ea

theorem digitChar_read : ∀ d < 16, Strtoul64.digit (HexText.digitChar d) = some d ∧
    HexText.digitValue (HexText.digitChar d) = d ∧
    hexDigit (lower (HexText.digitChar d)) = some d ∧ lower (HexText.digitChar d) ≠ 0x78 := by
  decide

/-- `strtoul64` and `strtoul` read digits of `%X` as what they stand for. -/
theorem number_hexDigits {text : List UInt8} (digits : ∀ ch ∈ text, ∃ d < 16, ch = HexText.digitChar d)
    (value : Nat) :
    Strtoul64.number 16 text value =
        text.foldl (fun value ch => HexText.digitValue ch + 16 * value) value ∧
      hexValue value (text.map lower) =
        text.foldl (fun value ch => HexText.digitValue ch + 16 * value) value := by
  induction text generalizing value with
  | nil => exact ⟨rfl, rfl⟩
  | cons ch text ih =>
    obtain ⟨⟨d, small, rfl⟩, rest⟩ := List.forall_mem_cons.mp digits
    obtain ⟨first, second, third, -⟩ := digitChar_read d small
    have same : value * 16 + d = d + 16 * value := by omega
    have number : Strtoul64.number 16 (HexText.digitChar d :: text) value =
        Strtoul64.number 16 text (d + 16 * value) := by
      rw [Strtoul64.number, List.foldl_cons, first, Option.getD_some, same]
      rfl
    have hex : hexValue value ((HexText.digitChar d :: text).map lower) =
        hexValue (d + 16 * value) (text.map lower) := by
      rw [List.map_cons, hexValue, third, ← same]
    rw [number, hex, List.foldl_cons, second]
    exact ih rest _

theorem strtoul_plain {text : List UInt8} (plain : ∀ ch ∈ text, ch ≠ 0x78) :
    strtoul text = min (hexValue 0 text) 4294967295 := by
  unfold strtoul
  split
  · exact absurd rfl (plain 0x78 (by simp))
  · rfl

/-- The address that the dialog shows is read back. -/
theorem readAddress_addressText {ea64 : Bool} {ea : Nat} (range : ea < Segments.badaddr ea64 + 1) :
    readAddress ea64 ((addressText ea64 ea).take 255) = ea := by
  have digits : ∀ ch ∈ addressText ea64 ea, ∃ d < 16, ch = HexText.digitChar d :=
    fun ch member => HexText.mem_hexText member
  have upper : ea < 16 ^ 16 := by
    cases ea64 <;> exact Nat.lt_of_lt_of_le range (by decide)
  have length : (addressText ea64 ea).length = max (if ea64 then 1 else 8) (Nat.digits 16 ea).length :=
    HexText.hexText_length _ _
  have short : (Nat.digits 16 ea).length ≤ 16 := (Nat.digits_length_le_iff (by decide) ea).mpr upper
  have whole : (addressText ea64 ea).take 255 = addressText ea64 ea := by
    refine List.take_of_length_le ?_
    rw [length]
    split <;> omega
  have value : (addressText ea64 ea).foldl (fun value ch => HexText.digitValue ch + 16 * value) 0 = ea :=
    HexText.readHex_hexText _ _
  obtain ⟨number, hex⟩ := number_hexDigits digits 0
  rw [whole, readAddress]
  cases ea64 with
  | true =>
    have filled : addressText true ea ≠ [] := by
      intro empty
      rw [empty, if_pos rfl] at length
      have := Nat.le_max_left 1 (Nat.digits 16 ea).length
      rw [← length] at this
      exact absurd this (by decide)
    have all : ∀ ch ∈ addressText true ea, Strtoul64.IsDigit 16 ch := by
      intro ch member
      obtain ⟨d, small, rfl⟩ := digits ch member
      exact ⟨d, small, (digitChar_read d small).1⟩
    have numeral : Strtoul64.Numeral 16 [] [] (addressText true ea) [] :=
      ⟨Or.inl rfl, Or.inl rfl, filled, all, nofun, fun _ _ _ => ⟨nofun, nofun⟩⟩
    have read := @Strtoul64.Numeral.strtoul64_eq _ _ _ [] _ _ numeral (List.forall_mem_nil _)
    have base : Strtoul64.baseOf 16 [] (addressText true ea) = 16 := rfl
    simp only [List.nil_append, List.append_nil, base] at read
    rw [if_pos rfl, read, Strtoul64.valueOf, number, value]
    exact if_pos (Nat.le_of_lt_succ range)
  | false =>
    have plain : ∀ ch ∈ (addressText false ea).map lower, ch ≠ 0x78 := by
      intro ch member
      obtain ⟨first, inside, rfl⟩ := List.mem_map.mp member
      obtain ⟨d, small, rfl⟩ := digits first inside
      exact (digitChar_read d small).2.2.2
    rw [if_neg Bool.false_ne_true, strtoul_plain plain, hex, value]
    exact Nat.min_eq_left (Nat.le_of_lt_succ range)

theorem keepsAddress_confirms {old input : Input} (kept : keepsAddress session event = true)
    (shown : session.dialog = some old) (confirms : event.Confirms old input) :
    input.controls.editAddr = old.controls.editAddr := by
  rcases confirms with ⟨-, rfl⟩ | ⟨key, rfl⟩
  · rfl
  · rw [keepsAddress, shown] at kept
    exact eq_of_beq kept

/-- All patches went to cursors, and the box for the address shows one. -/
def Addressed (idb : Idb) (Cursor : Nat → Prop) (session : Session) : Prop :=
  (∀ log ∈ session.printed, Cursor log.address) ∧
    ∀ input, session.dialog = some input → ∃ ea, Cursor ea ∧ ea ≤ Segments.badaddr idb.db.ea64 ∧
      input.controls.editAddr = addressText idb.db.ea64 ea

/-- While the box for the address is left alone, every patch goes to an address at which the
cursor stood when the dialog was opened. -/
theorem reaches_address {memory : Nat → UInt8} {allowed : Session → Event → Bool} {Cursor : Nat → Prop}
    (keeps : ∀ session event, allowed session event = true → keepsAddress session event = true)
    (cursors : ∀ session ea, allowed session (.run ea) = true →
      Cursor ea ∧ ea ≤ Segments.badaddr idb.db.ea64)
    (reached : Transition.Reaches (sessions idb memory) allowed session) :
    ∀ log ∈ session.printed, Cursor log.address := by
  have shows : Addressed idb Cursor session := by
    refine @Transition.Reaches.invariant _ _ _ _ (Addressed idb Cursor) ?_ ?_ _ reached
    · rintro session ⟨shut, -, printed, -⟩
      rw [Addressed, printed]
      exact ⟨List.forall_mem_nil _, fun input shown => (nomatch shut.symm.trans shown)⟩
    · intro session event next ⟨logs, shows⟩ meets stepped
      have kept := keeps session event meets
      cases step_cases stepped with
      | idle times => exact ⟨logs, shows⟩
      | edited input shown =>
        refine ⟨logs, fun other same => ?_⟩
        obtain ⟨ea, cursor, range, text⟩ := shows _ shown
        rw [keepsAddress, shown] at kept
        rw [← Option.some.inj same]
        exact ⟨ea, cursor, range, (eq_of_beq kept).trans text⟩
      | opened ea shut =>
        refine ⟨logs, fun other same => ?_⟩
        obtain ⟨cursor, range⟩ := cursors session ea meets
        rw [← Option.some.inj same]
        exact ⟨ea, cursor, range, rfl⟩
      | closed => exact ⟨logs, fun other same => (nomatch same)⟩
      | refused times shown confirms ran unpatched =>
        refine ⟨logs, fun other same => ?_⟩
        obtain ⟨ea, cursor, range, text⟩ := shows _ shown
        rw [← Option.some.inj same]
        exact ⟨ea, cursor, range, (keepsAddress_confirms kept shown confirms).trans text⟩
      | patched times shown confirms ran =>
        refine ⟨List.forall_mem_append.mpr ⟨logs, ?_⟩, fun other same => (nomatch same)⟩
        obtain ⟨ea, cursor, range, text⟩ := shows _ shown
        rcases onButtonCalc_cases ran with ⟨-, -, -, unpatched⟩ | ⟨_, _, _, _, outcome, -⟩
        · exact absurd rfl (unpatched _)
        · have report := congrArg Prod.snd outcome
          simp only [patchCode, Report.patched.injEq] at report
          rw [List.forall_mem_singleton, report, Globals.addressed,
            keepsAddress_confirms kept shown confirms, text,
            readAddress_addressText (Nat.lt_succ_of_le range)]
          exact cursor
  exact shows.1

theorem reaches_address_loop : ∃ (session : Session) (log : Log), session.printed = [log] ∧
    log.address = 0x8000 := by
  obtain ⟨session, log, reached, -, -, printed, -⟩ := loop_reached
  have keeps (session : Session) (event : Event) (meets : atStart session event = true) :
      keepsAddress session event = true := (Bool.and_eq_true_iff.mp meets).1
  have cursors (session : Session) (ea : Nat) (meets : atStart session (.run ea) = true) :
      ea = 0x8000 ∧ ea ≤ Segments.badaddr loopIdb.db.ea64 := by
    have start : ea = 0x8000 := eq_of_beq meets
    exact ⟨start, start ▸ (by decide)⟩
  have addresses := reaches_address keeps cursors reached
  rw [printed, List.forall_mem_singleton] at addresses
  exact ⟨session, log, printed, addresses⟩

end IDAPlugins.PatchArm
