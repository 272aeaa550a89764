import IDAPlugins.Transition

namespace IDAPlugins.FindCode.Publishing

open Transition

/-! # The snapshot thread and the dialog

A thread builds a snapshot, saves it to the netnodes together with the lengths,
sends the dialog message 100 and then installs the three buffers one by one. The
dialog answers the button and the hot key meanwhile. What a buffer or a length
holds is recorded as the snapshot it comes from.
-/

/-- A snapshot: the one a saved database brings along, or that of a thread. -/
inductive Origin where
  | database
  | thread (index : Nat)
  deriving DecidableEq

/-- How far `CreateCodeSnapshoot` has come. `quit` and `dropped` are its early
returns, before and after the netnodes and lengths are stored. -/
inductive Plan where
  | building
  | quit
  | stored
  | dropped
  | announced
  | textInstalled
  | offsetInstalled
  | finished
  deriving DecidableEq

structure Thread where
  hwnd : Nat
  plan : Plan

structure Globals where
  asmbuf : Option Origin
  asmoffset : Option Origin
  asmaddr : Option Origin
  noffsetlen : Option Origin

inductive Global where
  | asmbuf
  | asmoffset
  | asmaddr
  | noffsetlen

def Globals.read (g : Globals) : Global → Option Origin
  | .asmbuf => g.asmbuf
  | .asmoffset => g.asmoffset
  | .asmaddr => g.asmaddr
  | .noffsetlen => g.noffsetlen

def Globals.loaded (g : Globals) : Bool :=
  g.asmbuf.isSome && g.asmoffset.isSome && g.asmaddr.isSome

/-- `reads` is there while the search loop runs, with what it has read so far. -/
structure Dialog where
  hwnd : Nat
  enabled : Bool
  create : Bool
  reads : Option (List (Option Origin))

structure State where
  netnodes : Option Origin
  globals : Globals
  threads : List Thread
  dialog : Option Dialog
  windows : Nat

inductive Event where
  | opened
  | closed
  | radio (create : Bool)
  | find (hotKey : Bool)
  | read (global : Global)
  | searched
  | progress (index : Nat)
  | store (index : Nat)
  | announce (index : Nat)
  | installText (index : Nat)
  | installOffset (index : Nat)
  | installAddr (index : Nat)

def State.isWindow (s : State) (hwnd : Nat) : Bool :=
  s.dialog.any (·.hwnd == hwnd)

def State.searching (s : State) : Bool :=
  s.dialog.any (·.reads.isSome)

def State.moved (s : State) (index : Nat) (hwnd : Nat) (plan : Plan) : State :=
  { s with threads := s.threads.set index { hwnd, plan } }

def mainOnInitDialog (s : State) : State :=
  if s.netnodes.isSome then
    { s with
      globals := if s.globals.loaded then s.globals
        else { asmbuf := s.netnodes, asmoffset := s.netnodes, asmaddr := s.netnodes
               noffsetlen := s.netnodes }
      dialog := some { hwnd := s.windows, enabled := true, create := false, reads := none }
      windows := s.windows + 1 }
  else
    { s with
      threads := s.threads ++ [{ hwnd := s.windows, plan := .building }]
      dialog := some { hwnd := s.windows, enabled := false, create := true, reads := none }
      windows := s.windows + 1 }

def onButtonFind (s : State) (dialog : Dialog) : State :=
  if s.netnodes.isNone || dialog.create then
    { s with
      threads := s.threads ++ [{ hwnd := dialog.hwnd, plan := .building }]
      dialog := some { dialog with enabled := false } }
  else
    { s with dialog := some { dialog with reads := some [] } }

def dialogStep (s : State) (dialog : Dialog) : Event → Option State
  | .closed => if dialog.reads.isNone then some { s with dialog := none } else none
  | .radio create =>
    if dialog.reads.isNone then some { s with dialog := some { dialog with create } } else none
  | .find hotKey =>
    if dialog.reads.isNone && (hotKey || dialog.enabled) then some (onButtonFind s dialog) else none
  | .read global => dialog.reads.map fun reads =>
      { s with dialog := some { dialog with reads := some (reads ++ [s.globals.read global]) } }
  | .searched => if dialog.reads.isSome then some { s with dialog := none } else none
  | _ => none

/-- The steps of a thread. `SendMessage` waits for the dialog to take messages. -/
def threadStep (s : State) (index : Nat) (thread : Thread) : Event → Option State
  | .progress _ =>
    if thread.plan = .building then
      if s.isWindow thread.hwnd then
        if s.searching then none else some s
      else
        some (s.moved index thread.hwnd .quit)
    else none
  | .store _ =>
    if thread.plan = .building then
      some { s.moved index thread.hwnd .stored with
        netnodes := some (.thread index)
        globals := { s.globals with noffsetlen := some (.thread index) } }
    else none
  | .announce _ =>
    if thread.plan = .stored then
      if s.isWindow thread.hwnd then
        if s.searching then none
        else
          some { s.moved index thread.hwnd .announced with
            dialog := s.dialog.map ({ · with enabled := true, create := false }) }
      else
        some (s.moved index thread.hwnd .dropped)
    else none
  | .installText _ =>
    if thread.plan = .announced then
      some { s.moved index thread.hwnd .textInstalled with
        globals := { s.globals with asmbuf := some (.thread index) } }
    else none
  | .installOffset _ =>
    if thread.plan = .textInstalled then
      some { s.moved index thread.hwnd .offsetInstalled with
        globals := { s.globals with asmoffset := some (.thread index) } }
    else none
  | .installAddr _ =>
    if thread.plan = .offsetInstalled then
      some { s.moved index thread.hwnd .finished with
        globals := { s.globals with asmaddr := some (.thread index) } }
    else none
  | _ => none

def Event.thread? : Event → Option Nat
  | .progress index | .store index | .announce index | .installText index | .installOffset index
  | .installAddr index => some index
  | _ => none

def step (s : State) (event : Event) : Option State :=
  match event.thread? with
  | some index => s.threads[index]?.bind fun thread => threadStep s index thread event
  | none =>
    match s.dialog with
    | none => match event with
      | .opened => some (mainOnInitDialog s)
      | _ => none
    | some dialog => dialogStep s dialog event

def start (netnodes : Option Origin) : State where
  netnodes := netnodes
  globals := { asmbuf := none, asmoffset := none, asmaddr := none, noffsetlen := none }
  threads := []
  dialog := none
  windows := 0

def plugin : System State Event where
  initial s := s = start none ∨ s = start (some .database)
  step := step

def Plan.publishing : Plan → Bool
  | .stored | .announced | .textInstalled | .offsetInstalled => true
  | _ => false

def Plan.completed : Plan → Bool
  | .dropped | .finished => true
  | _ => false

def State.reads (s : State) : Option (List (Option Origin)) :=
  s.dialog.bind (·.reads)

def Completed (s : State) : Origin → Prop
  | .database => True
  | .thread index => ∃ thread, s.threads[index]? = some thread ∧ thread.plan.completed = true

/-- Everything the search loop has read comes from one completed snapshot. -/
def Consistent (s : State) : Prop :=
  ∀ reads, s.reads = some reads →
    ∃ origin, Completed s origin ∧ ∀ read ∈ reads, read = some origin

def State.publishing (s : State) : Bool :=
  s.threads.any (·.plan.publishing)

/-- The discipline under which searches are consistent: a search starts with all
buffers there and no snapshot on its way, a snapshot is stored while no other is
on its way and no search runs, and a window is not closed between a snapshot's
netnodes and its message 100 while older buffers are there. -/
def careful (s : State) : Event → Bool
  | .find _ => s.netnodes.isNone || s.dialog.any (·.create) || (s.globals.loaded && !s.publishing)
  | .store _ => !s.publishing && !s.searching
  | .announce index =>
    s.threads[index]?.any (fun thread => s.isWindow thread.hwnd) || !s.globals.loaded
  | _ => true

def Globals.From (g : Globals) (origin : Origin) : Prop :=
  g.asmbuf = some origin ∧ g.asmoffset = some origin ∧ g.asmaddr = some origin ∧
    g.noffsetlen = some origin

def Globals.Blank (g : Globals) : Prop :=
  g.asmbuf = none ∧ g.asmoffset = none ∧ g.asmaddr = none

def Installed (g : Globals) (origin : Origin) : Plan → Prop
  | .stored => g.loaded = true ∨ g.Blank
  | .textInstalled => g.asmbuf = some origin
  | .offsetInstalled => g.asmbuf = some origin ∧ g.asmoffset = some origin
  | _ => True

/-- One thread is publishing, and nobody searches. -/
structure Publishes (s : State) (index : Nat) : Prop where
  there : ∃ thread, s.threads[index]? = some thread ∧ thread.plan.publishing = true ∧
    Installed s.globals (.thread index) thread.plan
  alone : ∀ (other : Nat) (thread : Thread), s.threads[other]? = some thread → thread.plan.publishing = true →
    other = index
  netnodes : s.netnodes = some (.thread index)
  noffsetlen : s.globals.noffsetlen = some (.thread index)
  idle : s.reads = none

/-- No thread is publishing: the buffers are those of one snapshot or not there. -/
structure Rests (s : State) : Prop where
  quiet : ∀ (index : Nat) (thread : Thread), s.threads[index]? = some thread → thread.plan.publishing = false
  whole : (s.globals.Blank ∧ s.reads = none) ∨ ∃ origin, Completed s origin ∧
    s.globals.From origin ∧ ∀ reads, s.reads = some reads → ∀ read ∈ reads, read = some origin

structure Invariant (s : State) : Prop where
  saved : ∀ index, s.netnodes = some (.thread index) → ∃ thread : Thread, s.threads[index]? = some thread ∧
    (thread.plan.publishing = true ∨ thread.plan.completed = true)
  phase : Rests s ∨ ∃ index, Publishes s index

theorem Globals.From.loaded {g : Globals} {origin : Origin} (all : g.From origin) :
    g.loaded = true := by
  obtain ⟨text, offset, addr, -⟩ := all
  simp [Globals.loaded, text, offset, addr]

theorem Globals.From.read {g : Globals} {origin : Origin} (all : g.From origin) (global : Global) :
    g.read global = some origin := by
  obtain ⟨text, offset, addr, length⟩ := all
  cases global
  · exact text
  · exact offset
  · exact addr
  · exact length

theorem Globals.Blank.not_loaded {g : Globals} (blank : g.Blank) : g.loaded = false := by
  simp [Globals.loaded, blank.1]

theorem Invariant.consistent {s : State} (invariant : Invariant s) : Consistent s := by
  intro reads searching
  rcases invariant.phase with ⟨-, ⟨-, idle⟩ | ⟨origin, completed, -, all⟩⟩ | ⟨index, publishes⟩
  · exact absurd (searching.symm.trans idle) (by simp)
  · exact ⟨origin, completed, all reads searching⟩
  · exact absurd (searching.symm.trans publishes.idle) (by simp)

theorem quiet_of_not_publishing {s : State} (none : s.publishing = false) (index : Nat)
    (thread : Thread) (there : s.threads[index]? = some thread) :
    thread.plan.publishing = false := by
  have all := List.any_eq_false.mp none thread (List.mem_of_getElem? there)
  exact Bool.eq_false_iff.mpr all

variable {s t : State}

/-- Threads are only added, and only at their beginning. -/
def Grows (s t : State) : Prop :=
  ∃ added : List Thread, t.threads = s.threads ++ added ∧ ∀ thread ∈ added, thread.plan = .building

theorem Grows.refl (same : t.threads = s.threads) : Grows s t :=
  ⟨[], by rw [same, List.append_nil], fun _ member => absurd member List.not_mem_nil⟩

theorem Grows.spawned {thread : Thread} (building : thread.plan = .building)
    (spawned : t.threads = s.threads ++ [thread]) : Grows s t :=
  ⟨[thread], spawned, fun _ member => List.mem_singleton.mp member ▸ building⟩

theorem Grows.kept (grows : Grows s t) {index : Nat} {thread : Thread}
    (there : s.threads[index]? = some thread) : t.threads[index]? = some thread := by
  obtain ⟨added, same, -⟩ := grows
  rw [same]
  exact List.getElem?_append_left (List.getElem?_eq_some_iff.mp there).1 ▸ there

theorem Grows.known (grows : Grows s t) {index : Nat} {thread : Thread}
    (there : t.threads[index]? = some thread) :
    s.threads[index]? = some thread ∨ thread.plan = .building := by
  obtain ⟨added, same, building⟩ := grows
  rw [same, List.getElem?_append] at there
  split at there
  · exact .inl there
  · exact .inr (building thread (List.mem_of_getElem? there))

theorem Grows.completed (grows : Grows s t) {origin : Origin} (completed : Completed s origin) :
    Completed t origin := by
  cases origin with
  | database => trivial
  | thread index =>
    obtain ⟨thread, there, ended⟩ := completed
    exact ⟨thread, grows.kept there, ended⟩

/-- The dialog's own events keep the invariant, as long as they leave the globals
alone and start no search. -/
theorem Invariant.grows (invariant : Invariant s) (grows : Grows s t)
    (netnodes : t.netnodes = s.netnodes) (globals : t.globals = s.globals)
    (reads : t.reads = none ∨ t.reads = s.reads) : Invariant t := by
  obtain ⟨saved, phase⟩ := invariant
  refine ⟨fun index same => ?_, ?_⟩
  · obtain ⟨thread, there, far⟩ := saved index (netnodes ▸ same)
    exact ⟨thread, grows.kept there, far⟩
  · rcases phase with ⟨quiet, whole⟩ | ⟨index, ⟨thread, there, publishing, installed⟩, alone, stored,
      length, idle⟩
    · refine .inl ⟨fun index thread there => ?_, ?_⟩
      · rcases grows.known there with before | building
        · exact quiet index thread before
        · rw [building]
          rfl
      · rw [globals]
        rcases whole with ⟨blank, idle⟩ | ⟨origin, completed, all, same⟩
        · exact .inl ⟨blank, reads.elim id fun kept => kept.trans idle⟩
        · refine .inr ⟨origin, grows.completed completed, all, fun found searching => ?_⟩
          rcases reads with ended | kept
          · exact absurd (searching.symm.trans ended) (by simp)
          · exact same found (kept ▸ searching)
    · refine .inr ⟨index, ⟨thread, grows.kept there, publishing, globals ▸ installed⟩, ?_,
        netnodes.trans stored, globals ▸ length, reads.elim id fun kept => kept.trans idle⟩
      intro other thread there publishing
      rcases grows.known there with before | building
      · exact alone other thread before publishing
      · rw [building] at publishing
        exact absurd publishing Bool.false_ne_true

theorem Invariant.whole (invariant : Invariant s)
    (ready : (s.publishing = false ∧ s.globals.loaded = true) ∨ s.reads ≠ none) :
    (∀ (index : Nat) (thread : Thread), s.threads[index]? = some thread →
      thread.plan.publishing = false) ∧
      ∃ origin, Completed s origin ∧ s.globals.From origin ∧
        ∀ reads, s.reads = some reads → ∀ read ∈ reads, read = some origin := by
  rcases invariant.phase with ⟨quiet, ⟨blank, idle⟩ | whole⟩ |
    ⟨index, ⟨thread, there, publishing, -⟩, -, -, -, idle⟩
  · rcases ready with ⟨-, loaded⟩ | searching
    · exact absurd loaded (by simp [blank.not_loaded])
    · exact absurd idle searching
  · exact ⟨quiet, whole⟩
  · rcases ready with ⟨none, -⟩ | searching
    · exact absurd publishing (by simp [quiet_of_not_publishing none index thread there])
    · exact absurd idle searching

theorem Invariant.search (invariant : Invariant s) (globals : t.globals = s.globals)
    (threads : t.threads = s.threads) (netnodes : t.netnodes = s.netnodes)
    (ready : (s.publishing = false ∧ s.globals.loaded = true) ∨ s.reads ≠ none)
    (reads : ∀ found, t.reads = some found → ∀ read ∈ found,
      (∃ before, s.reads = some before ∧ read ∈ before) ∨
        ∃ global, read = s.globals.read global) : Invariant t := by
  obtain ⟨quiet, origin, completed, all, same⟩ := invariant.whole ready
  refine ⟨fun index stored => ?_, .inl ⟨fun index thread there => ?_, .inr ⟨origin, ?_, ?_, ?_⟩⟩⟩
  · rw [threads]
    exact invariant.saved index (netnodes ▸ stored)
  · exact quiet index thread (threads ▸ there)
  · exact (Grows.refl threads).completed completed
  · rw [globals]
    exact all
  · intro found searching read member
    rcases reads found searching read member with ⟨before, known, member⟩ | ⟨global, rfl⟩
    · exact same before known read member
    · exact all.read global

/-- Opening the dialog loads what the netnodes hold, unless all buffers are there. -/
theorem Invariant.opened (invariant : Invariant s) (closed : s.dialog = none) :
    Invariant (mainOnInitDialog s) := by
  have idle : s.reads = none := by rw [State.reads, closed, Option.bind_none]
  unfold mainOnInitDialog
  split
  · rename_i saved
    by_cases loaded : s.globals.loaded = true
    · rw [if_pos loaded]
      exact invariant.grows (.refl rfl) rfl rfl (.inl rfl)
    · rw [if_neg loaded]
      obtain ⟨origin, stored⟩ := Option.isSome_iff_exists.mp saved
      refine ⟨invariant.saved, ?_⟩
      rcases invariant.phase with ⟨quiet, whole⟩ | ⟨index, ⟨thread, there, publishing, installed⟩,
        alone, netnodes, length, -⟩
      · refine .inl ⟨quiet, .inr ⟨origin, ?_, ⟨stored, stored, stored, stored⟩,
          fun reads searching => absurd searching (by simp [State.reads])⟩⟩
        cases origin with
        | database => trivial
        | thread index =>
          obtain ⟨thread, there, far⟩ := invariant.saved index stored
          exact ⟨thread, there, far.resolve_left (by simp [quiet index thread there])⟩
      · refine .inr ⟨index, ⟨thread, there, publishing, ?_⟩, alone, netnodes, netnodes, rfl⟩
        rw [netnodes]
        cases plan : thread.plan <;> simp [Installed, Globals.loaded]
  · exact invariant.grows (.spawned rfl rfl) rfl rfl (.inl rfl)

/-- One thread goes on; the others stay where they are. -/
def Moves (s t : State) (index : Nat) (plan : Plan) : Prop :=
  ∃ hwnd, t.threads = s.threads.set index { hwnd, plan }

variable {index : Nat} {thread : Thread} {plan : Plan}

theorem Moves.self (moves : Moves s t index plan) (there : s.threads[index]? = some thread) :
    ∃ after : Thread, t.threads[index]? = some after ∧ after.plan = plan := by
  obtain ⟨hwnd, same⟩ := moves
  refine ⟨{ hwnd, plan }, ?_, rfl⟩
  rw [same, List.getElem?_set_self (List.getElem?_eq_some_iff.mp there).1]

theorem Moves.known (moves : Moves s t index plan) {other : Nat} {after : Thread}
    (there : t.threads[other]? = some after) :
    (other = index ∧ after.plan = plan) ∨ (other ≠ index ∧ s.threads[other]? = some after) := by
  obtain ⟨hwnd, same⟩ := moves
  rw [same, List.getElem?_set] at there
  split at there
  · rename_i here
    split at there
    · exact .inl ⟨here.symm, Option.some.inj there ▸ rfl⟩
    · exact absurd there (by simp)
  · rename_i elsewhere
    exact .inr ⟨Ne.symm elsewhere, there⟩

theorem Moves.kept (moves : Moves s t index plan) {other : Nat} (elsewhere : other ≠ index)
    {after : Thread} (there : s.threads[other]? = some after) :
    t.threads[other]? = some after := by
  obtain ⟨hwnd, same⟩ := moves
  rw [same, List.getElem?_set_ne (Ne.symm elsewhere)]
  exact there

theorem Moves.completed (moves : Moves s t index plan) (there : s.threads[index]? = some thread)
    (going : thread.plan.completed = false) {origin : Origin} (completed : Completed s origin) :
    Completed t origin := by
  cases origin with
  | database => trivial
  | thread other =>
    obtain ⟨before, found, ended⟩ := completed
    refine ⟨before, moves.kept ?_ found, ended⟩
    rintro rfl
    rw [Option.some.inj (found.symm.trans there), going] at ended
    exact absurd ended Bool.false_ne_true

theorem Invariant.quit (invariant : Invariant s) (moves : Moves s t index .quit)
    (there : s.threads[index]? = some thread) (building : thread.plan = .building)
    (globals : t.globals = s.globals) (netnodes : t.netnodes = s.netnodes)
    (reads : t.reads = s.reads) : Invariant t := by
  have other {index' : Nat} {thread' : Thread} (found : s.threads[index']? = some thread')
      (far : thread'.plan.publishing = true ∨ thread'.plan.completed = true) : index' ≠ index := by
    rintro rfl
    rw [Option.some.inj (found.symm.trans there), building] at far
    exact absurd far (by decide)
  refine ⟨fun stored same => ?_, ?_⟩
  · obtain ⟨thread', found, far⟩ := invariant.saved stored (netnodes ▸ same)
    exact ⟨thread', moves.kept (other found far) found, far⟩
  · rcases invariant.phase with ⟨quiet, whole⟩ | ⟨index', ⟨thread', found, publishing, installed⟩,
      alone, stored, length, idle⟩
    · refine .inl ⟨fun index' thread' found => ?_, ?_⟩
      · rcases moves.known found with ⟨-, ended⟩ | ⟨-, before⟩
        · rw [ended]
          rfl
        · exact quiet index' thread' before
      · rw [globals, reads]
        exact whole.imp_right fun ⟨origin, completed, rest⟩ =>
          ⟨origin, moves.completed there (by rw [building]; rfl) completed, rest⟩
    · refine .inr ⟨index', ⟨thread', moves.kept (other found (.inl publishing)) found, publishing,
        globals ▸ installed⟩, fun index'' thread'' found publishing => ?_, netnodes.trans stored,
        globals ▸ length, reads.trans idle⟩
      rcases moves.known found with ⟨-, ended⟩ | ⟨-, before⟩
      · rw [ended] at publishing
        exact absurd publishing Bool.false_ne_true
      · exact alone index'' thread'' before publishing

theorem Invariant.store (invariant : Invariant s) (moves : Moves s t index .stored)
    (there : s.threads[index]? = some thread) (none : s.publishing = false) (idle : s.reads = .none)
    (globals : t.globals = { s.globals with noffsetlen := some (.thread index) })
    (netnodes : t.netnodes = some (.thread index)) (reads : t.reads = s.reads) : Invariant t := by
  obtain ⟨after, found, plan⟩ := moves.self there
  have publishing : after.plan.publishing = true := by rw [plan]; rfl
  refine ⟨fun stored same => ?_, .inr ⟨index, ⟨after, found, publishing, ?_⟩, ?_, netnodes,
    globals ▸ rfl, reads.trans idle⟩⟩
  · cases netnodes.symm.trans same
    exact ⟨after, found, .inl publishing⟩
  · rw [plan, globals]
    rcases invariant.phase with ⟨-, ⟨blank, -⟩ | ⟨origin, -, all, -⟩⟩ |
      ⟨index', ⟨thread', found', publishing', -⟩, -⟩
    · exact .inr blank
    · exact .inl all.loaded
    · exact absurd publishing' (by simp [quiet_of_not_publishing none index' thread' found'])
  · intro other thread' found' publishing'
    rcases moves.known found' with ⟨here, -⟩ | ⟨-, before⟩
    · exact here
    · exact absurd publishing' (by simp [quiet_of_not_publishing none other thread' before])

theorem Invariant.publishes (invariant : Invariant s) (there : s.threads[index]? = some thread)
    (publishing : thread.plan.publishing = true) :
    Publishes s index ∧ Installed s.globals (.thread index) thread.plan := by
  rcases invariant.phase with ⟨quiet, -⟩ | ⟨index', publishes⟩
  · exact absurd publishing (by simp [quiet index thread there])
  · obtain rfl := publishes.alone index thread there publishing
    obtain ⟨thread', found, -, installed⟩ := publishes.there
    exact ⟨publishes, Option.some.inj (found.symm.trans there) ▸ installed⟩

theorem Publishes.continues (publishes : Publishes s index) (moves : Moves s t index plan)
    (publishing : plan.publishing = true) (installed : Installed t.globals (.thread index) plan)
    (netnodes : t.netnodes = s.netnodes) (length : t.globals.noffsetlen = s.globals.noffsetlen)
    (idle : t.reads = none) : Invariant t := by
  obtain ⟨thread, there, -⟩ := publishes.there
  obtain ⟨after, found, same⟩ := moves.self there
  have netnodes := netnodes.trans publishes.netnodes
  refine ⟨fun stored saved => ?_, .inr ⟨index, ⟨after, found, same ▸ publishing,
    same.symm ▸ installed⟩, ?_, netnodes, length.trans publishes.noffsetlen, idle⟩⟩
  · cases netnodes.symm.trans saved
    exact ⟨after, found, .inl (same ▸ publishing)⟩
  · intro other thread' found' publishing'
    rcases moves.known found' with ⟨here, -⟩ | ⟨-, before⟩
    · exact here
    · exact publishes.alone other thread' before publishing'

/-- A publication ends, with its own buffers or, given up, with none at all. -/
theorem Publishes.ends (publishes : Publishes s index) (moves : Moves s t index plan)
    (ended : plan.completed = true) (quiet : plan.publishing = false)
    (netnodes : t.netnodes = s.netnodes) (idle : t.reads = none)
    (globals : t.globals.Blank ∨ t.globals.From (.thread index)) : Invariant t := by
  obtain ⟨thread, there, -⟩ := publishes.there
  obtain ⟨after, found, same⟩ := moves.self there
  refine ⟨fun stored saved => ?_, .inl ⟨fun other thread' found' => ?_, ?_⟩⟩
  · cases (netnodes.trans publishes.netnodes).symm.trans saved
    exact ⟨after, found, .inr (same ▸ ended)⟩
  · rcases moves.known found' with ⟨-, here⟩ | ⟨elsewhere, before⟩
    · rw [here, quiet]
    · exact Bool.eq_false_iff.mpr fun publishing =>
        elsewhere (publishes.alone other thread' before publishing)
  · rcases globals with blank | all
    · exact .inl ⟨blank, idle⟩
    · exact .inr ⟨.thread index, ⟨after, found, same ▸ ended⟩, all,
        fun reads searching => absurd (searching.symm.trans idle) (by simp)⟩

theorem reads_eq_none_of_not_searching (idle : ¬ s.searching = true) : s.reads = none := by
  unfold State.searching at idle
  unfold State.reads
  cases dialog : s.dialog with
  | none => rfl
  | some dialog' =>
    rw [dialog] at idle
    exact Option.not_isSome_iff_eq_none.mp idle

theorem Invariant.dialogStep (invariant : Invariant s) {dialog : Dialog}
    (there : s.dialog = some dialog) {event : Event} (meets : careful s event = true)
    (taken : Publishing.dialogStep s dialog event = some t) : Invariant t := by
  cases event with
  | closed =>
    obtain ⟨-, same⟩ := Option.ite_none_right_eq_some.mp taken
    cases same
    exact invariant.grows (.refl rfl) rfl rfl (.inl rfl)
  | radio create =>
    obtain ⟨idle, same⟩ := Option.ite_none_right_eq_some.mp taken
    cases same
    exact invariant.grows (.refl rfl) rfl rfl (.inl (Option.isNone_iff_eq_none.mp idle))
  | find hotKey =>
    obtain ⟨idle, same⟩ := Option.ite_none_right_eq_some.mp taken
    cases same
    have idle := (Bool.and_eq_true _ _ ▸ idle).1
    unfold onButtonFind
    split
    · exact invariant.grows (.spawned rfl rfl) rfl rfl (.inl (Option.isNone_iff_eq_none.mp idle))
    · rename_i current
      rw [careful, there, Option.any_some, Bool.eq_false_iff.mpr current, Bool.false_or,
        Bool.and_eq_true, Bool.not_eq_true'] at meets
      refine invariant.search rfl rfl rfl (.inl ⟨meets.2, meets.1⟩) fun found searching => ?_
      cases searching
      exact fun read member => absurd member List.not_mem_nil
  | read global =>
    obtain ⟨reads, running, same⟩ := Option.map_eq_some_iff.mp taken
    cases same
    have before : s.reads = some reads := by rw [State.reads, there, Option.bind_some, running]
    refine invariant.search rfl rfl rfl (.inr (by simp [before])) fun found searching => ?_
    cases searching
    intro read member
    rcases List.mem_append.mp member with earlier | now
    · exact .inl ⟨reads, before, earlier⟩
    · exact .inr ⟨global, List.mem_singleton.mp now⟩
  | searched =>
    obtain ⟨-, same⟩ := Option.ite_none_right_eq_some.mp taken
    cases same
    exact invariant.grows (.refl rfl) rfl rfl (.inl rfl)
  | opened | progress | store | announce | installText | installOffset | installAddr =>
    exact absurd taken (by simp [Publishing.dialogStep])

theorem Invariant.threadStep (invariant : Invariant s) (there : s.threads[index]? = some thread)
    {event : Event} (mine : event.thread? = some index) (meets : careful s event = true)
    (taken : Publishing.threadStep s index thread event = some t) : Invariant t := by
  cases event with
  | progress _ =>
    obtain ⟨building, taken⟩ := Option.ite_none_right_eq_some.mp taken
    split at taken
    · split at taken
      · exact absurd taken (by simp)
      · cases taken
        exact invariant
    · cases taken
      exact invariant.quit ⟨_, rfl⟩ there building rfl rfl rfl
  | store _ =>
    obtain ⟨building, same⟩ := Option.ite_none_right_eq_some.mp taken
    cases same
    rw [careful, Bool.and_eq_true, Bool.not_eq_true', Bool.not_eq_true'] at meets
    exact invariant.store ⟨_, rfl⟩ there meets.1
      (reads_eq_none_of_not_searching (by simp [meets.2])) rfl rfl rfl
  | announce _ =>
    obtain ⟨stored, taken⟩ := Option.ite_none_right_eq_some.mp taken
    obtain ⟨publishes, installed⟩ := invariant.publishes there (by rw [stored]; rfl)
    split at taken
    · split at taken
      · exact absurd taken (by simp)
      · cases taken
        refine publishes.continues ⟨_, rfl⟩ rfl trivial rfl rfl ?_
        have idle := publishes.idle
        unfold State.reads at idle ⊢
        cases dialog : s.dialog with
        | none => rfl
        | some dialog' =>
          rw [dialog] at idle
          exact idle
    · rename_i gone
      cases taken
      cases mine
      have unloaded : s.globals.loaded = false := by
        simpa [careful, there, gone] using meets
      rw [stored] at installed
      refine publishes.ends ⟨_, rfl⟩ rfl rfl rfl publishes.idle (.inl (installed.resolve_left ?_))
      rw [unloaded]
      exact Bool.false_ne_true
  | installText _ =>
    obtain ⟨announced, same⟩ := Option.ite_none_right_eq_some.mp taken
    cases same
    obtain ⟨publishes, -⟩ := invariant.publishes there (by rw [announced]; rfl)
    exact publishes.continues ⟨_, rfl⟩ rfl rfl rfl rfl publishes.idle
  | installOffset _ =>
    obtain ⟨text, same⟩ := Option.ite_none_right_eq_some.mp taken
    cases same
    obtain ⟨publishes, installed⟩ := invariant.publishes there (by rw [text]; rfl)
    rw [text] at installed
    exact publishes.continues ⟨_, rfl⟩ rfl ⟨installed, rfl⟩ rfl rfl publishes.idle
  | installAddr _ =>
    obtain ⟨offset, same⟩ := Option.ite_none_right_eq_some.mp taken
    cases same
    obtain ⟨publishes, installed⟩ := invariant.publishes there (by rw [offset]; rfl)
    rw [offset] at installed
    exact publishes.ends ⟨_, rfl⟩ rfl rfl rfl publishes.idle
      (.inr ⟨installed.1, installed.2, rfl, publishes.noffsetlen⟩)
  | _ => exact absurd taken (by simp [Publishing.threadStep])

theorem Invariant.step {event : Event} (invariant : Invariant s) (meets : careful s event = true)
    (taken : Publishing.step s event = some t) : Invariant t := by
  unfold Publishing.step at taken
  split at taken
  · rename_i index mine
    obtain ⟨thread, there, taken⟩ := Option.bind_eq_some_iff.mp taken
    exact invariant.threadStep there mine meets taken
  · split at taken
    · rename_i closed
      split at taken
      · cases taken
        exact invariant.opened closed
      · exact absurd taken (by simp)
    · rename_i dialog there
      exact invariant.dialogStep there meets taken

theorem start_invariant {netnodes : Option Origin} (saved : ∀ index, netnodes ≠ some (.thread index)) :
    Invariant (start netnodes) :=
  ⟨fun index stored => absurd stored (saved index),
    .inl ⟨fun _ _ there => absurd there (by simp [start]), .inl ⟨⟨rfl, rfl, rfl⟩, rfl⟩⟩⟩

/-- In every run that keeps to the discipline, whatever a search reads comes from one completed
snapshot. -/
theorem reads_one_snapshot {s : State}
    (reached : Reaches plugin careful s) : Consistent s := by
  refine Invariant.consistent (reached.invariant ?_ fun s event t invariant meets taken =>
    invariant.step meets taken)
  rintro s (rfl | rfl)
  · exact start_invariant fun _ => by simp
  · exact start_invariant fun _ => by simp

/-- One snapshot, taken and then searched. -/
def snapshotThenFind : List Event :=
  [.opened, .progress 0, .store 0, .announce 0, .installText 0, .installOffset 0, .installAddr 0,
    .find false, .read .asmbuf, .read .asmoffset, .read .noffsetlen, .read .asmaddr]

theorem reads_one_snapshot_thenFind :
    ∃ s, plugin.play careful (start none) snapshotThenFind = some s ∧
      s.reads = some (List.replicate 4 (some (.thread 0))) ∧ Consistent s := by
  obtain ⟨s, played, reads⟩ := Option.bind_eq_some_iff.mp
    (show (plugin.play careful (start none) snapshotThenFind).bind State.reads =
      some (List.replicate 4 (some (.thread 0))) from rfl)
  exact ⟨s, played, reads, reads_one_snapshot (.play (.initial (.inl rfl)) played)⟩

/-- A second snapshot, searched when message 100 has come and before the buffers are
installed. -/
def findInWindow : List Event :=
  [.opened, .store 0, .announce 0, .installText 0, .installOffset 0, .installAddr 0, .radio true,
    .find false, .store 1, .announce 1, .find false, .read .asmbuf, .read .noffsetlen]

theorem reads_two_snapshots_inWindow :
    ¬ ∀ s, Reaches plugin (fun _ _ => true) s → Consistent s := by
  intro consistent
  obtain ⟨s, played, reads⟩ := Option.bind_eq_some_iff.mp
    (show (plugin.play (fun _ _ => true) (start none) findInWindow).bind State.reads =
      some [some (.thread 0), some (.thread 1)] from rfl)
  obtain ⟨origin, -, same⟩ := consistent s (.play (.initial (.inl rfl)) played) _ reads
  have text := same (some (.thread 0)) (by simp)
  have length := same (some (.thread 1)) (by simp)
  exact absurd (text.trans length.symm) (by decide)

end IDAPlugins.FindCode.Publishing
