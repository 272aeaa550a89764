import IDAPlugins.FindCode.Storing
import IDAPlugins.Transition

namespace IDAPlugins.FindCode

open LittleEndian Transition

/-! # Closing and reopening the dialog

A thread makes a snapshot while the dialog may be closed at any of its tests; when the
thread has ended the dialog is opened again. The search then reads the lengths and the
arrays, which are set at different places.
-/

/-- A run of the thread and the opening of the dialog behind it: `isWindow` answers the
tests in the building loop and `last` the one behind it. -/
structure Session where
  listing : Listing
  isWindow : Nat → Bool
  last : Bool
  szDate : List UInt8

def Session.run (session : Session) (st : SearchState) : Option SearchState :=
  (createCodeSnapshoot session.listing session.isWindow session.last session.szDate st).map
    fun after => (mainOnInitDialog after).1

/-- The snapshot the thread stores, if it gets that far. -/
def Session.made (session : Session) : Option Saved :=
  match buildSnapshoot session.listing session.isWindow with
  | some (.built asmbuf vectorIndex) => some (savedOf asmbuf vectorIndex)
  | _ => none

/-- The number of lines with text. -/
def Listing.count (listing : Listing) : Nat :=
  (listing.addresses.filter listing.hasText).length

/-- The arrays are those of the snapshot, and so are the lengths. -/
structure SearchState.Shows (st : SearchState) (snapshot : Saved) : Prop where
  points : st.Points snapshot
  measures : st.Measures snapshot

/-- What every opening of the dialog can rely on: an array is missing only before the
first snapshot or if there are no lines with text. -/
structure SearchState.Ready (st : SearchState) (snapshot : Saved) : Prop where
  shows : st.Shows snapshot
  stored : st.loaded = false → st.nAsmtable = none ∨ st.Stores snapshot
  unindexed : st.loaded = false → snapshot.offsets = [] ∧ snapshot.addrs = []

/-- The thread is not stopped between the lengths and the arrays, or nothing is to be
seen of it: an array was missing before, or the new lengths are the old ones. -/
def Session.Safe (session : Session) (st : SearchState) : Prop :=
  session.last = true ∨ ¬ (∀ iaddr ∈ session.listing.asks, session.isWindow iaddr = true) ∨
    st.loaded = false ∨
    (session.listing.text.length = st.nbuflen ∧ session.listing.count = st.noffsetlen ∧
      session.listing.count = st.naddrlen)

instance (session : Session) (st : SearchState) : Decidable (session.Safe st) :=
  inferInstanceAs (Decidable (_ ∨ _))

variable {session : Session} {st after : SearchState} {before snapshot : Saved}

theorem Session.made_lengths (made : session.made = some snapshot) :
    snapshot.text.length = session.listing.text.length ∧
      snapshot.offsets.length = 4 * session.listing.count ∧
      snapshot.addrs.length = 4 * session.listing.count := by
  obtain ⟨outcome, ran, ends⟩ := buildSnapshoot_ends session.listing session.isWindow
  rw [Session.made, ran] at made
  cases outcome with
  | built asmbuf vectorIndex =>
    obtain ⟨-, iaddr, nSendPlan, building⟩ := ends
    cases made
    have count : vectorIndex.length = session.listing.count := building.entries.length_eq.symm
    refine ⟨?_, ?_, ?_⟩
    · rw [savedOf, strupr_length, building.text]
      rfl
    · rw [savedOf, strupr_length, image, dwords_length, List.length_map, count]
    · rw [savedOf, strupr_length, image, dwords_length, List.length_map, count]
  | closed => cases made
  | exhausted => cases made

theorem Session.made_filled (made : session.made = some snapshot) : snapshot.text ≠ [] := by
  intro empty
  have length := (made_lengths made).1
  rw [empty] at length
  cases length

/-- The two ways in which the thread ends. -/
theorem createCodeSnapshoot_cases
    (ran : createCodeSnapshoot session.listing session.isWindow session.last session.szDate st = some after) :
    (¬ (∀ iaddr ∈ session.listing.asks, session.isWindow iaddr = true) ∧ after = st) ∨
      (∀ iaddr ∈ session.listing.asks, session.isWindow iaddr = true) ∧
        ∃ asmbuf vectorIndex, session.made = some (savedOf asmbuf vectorIndex) ∧
          storeSnapshoot asmbuf vectorIndex session.last session.szDate st = some after := by
  obtain ⟨outcome, built, ends⟩ := buildSnapshoot_ends session.listing session.isWindow
  rw [createCodeSnapshoot, built] at ran
  cases outcome with
  | built asmbuf vectorIndex =>
    refine .inr ⟨ends.1, asmbuf, vectorIndex, ?_, ran⟩
    rw [Session.made, built]
  | closed => exact .inl ⟨ends, (Option.some.inj ran).symm⟩
  | exhausted => cases ran

theorem SearchState.Ready.of_loaded (shows : st.Shows snapshot) (loaded : st.loaded = true) :
    st.Ready snapshot :=
  ⟨shows, fun missing => absurd (loaded.symm.trans missing) (by decide),
    fun missing => absurd (loaded.symm.trans missing) (by decide)⟩

theorem mainOnInitDialog_stores (st : SearchState) (snapshot : Saved) :
    (mainOnInitDialog st).1.Stores snapshot ↔ st.Stores snapshot := by
  unfold SearchState.Stores
  cases table : st.nAsmtable with
  | none =>
    rw [mainOnInitDialog, table]
    simp only [table]
  | some sbtTable =>
    rw [mainOnInitDialog, table]
    cases st.loaded <;> exact Iff.rfl

/-- A snapshot with text has its arrays loaded if it has any lines with text. -/
theorem SearchState.Points.unindexed (points : st.Points snapshot) (filled : snapshot.text ≠ [])
    (paired : snapshot.offsets.length = snapshot.addrs.length) (missing : st.loaded = false) :
    snapshot.offsets = [] ∧ snapshot.addrs = [] := by
  have same : snapshot.offsets = [] ↔ snapshot.addrs = [] := by
    rw [← List.length_eq_zero_iff, paired, List.length_eq_zero_iff]
  rw [← same, and_self]
  by_contra indexed
  have present {pointer : Option (List UInt8)} {bytes : List UInt8} (holds : pointer.getD [] = bytes)
      (nonempty : bytes ≠ []) : pointer.isSome = true := by
    cases pointer with
    | none => exact absurd holds.symm nonempty
    | some _ => rfl
  rw [loaded, present points.asmbuf filled, present points.asmoffset indexed,
    present points.asmaddr (mt same.mpr indexed)] at missing
  cases missing

/-- With an array missing, opening the dialog loads what is stored. -/
theorem SearchState.Ready.of_stored (stores : st.Stores snapshot) (missing : st.loaded = false)
    (filled : snapshot.text ≠ []) (paired : snapshot.offsets.length = snapshot.addrs.length)
    (noOffset : snapshot.offsets = [] → st.asmoffset.getD [] = [])
    (noAddr : snapshot.addrs = [] → st.asmaddr.getD [] = []) :
    (mainOnInitDialog st).1.Ready snapshot := by
  obtain ⟨points, measures⟩ := mainOnInitDialog_loads stores missing (fun empty => absurd empty filled)
    noOffset noAddr
  exact ⟨⟨points, measures⟩, fun _ => .inr ((mainOnInitDialog_stores st snapshot).mpr stores),
    points.unindexed filled paired⟩

theorem SearchState.shows_table (st : SearchState) (sbtTable : StrBufTable) (snapshot : Saved) :
    SearchState.Shows { st with sbtTable } snapshot ↔ st.Shows snapshot :=
  ⟨fun ⟨⟨asmbuf, asmoffset, asmaddr⟩, ⟨nbuflen, noffsetlen, naddrlen⟩⟩ =>
      ⟨⟨asmbuf, asmoffset, asmaddr⟩, ⟨nbuflen, noffsetlen, naddrlen⟩⟩,
    fun ⟨⟨asmbuf, asmoffset, asmaddr⟩, ⟨nbuflen, noffsetlen, naddrlen⟩⟩ =>
      ⟨⟨asmbuf, asmoffset, asmaddr⟩, ⟨nbuflen, noffsetlen, naddrlen⟩⟩⟩

/-- Opening the dialog without a thread before it. -/
theorem SearchState.Ready.reopened (ready : st.Ready snapshot) :
    (mainOnInitDialog st).1.Ready snapshot := by
  by_cases there : st.loaded = true ∨ st.nAsmtable = none
  · obtain ⟨sbtTable, same⟩ := mainOnInitDialog_keeps there
    rw [same]
    exact ⟨(st.shows_table sbtTable snapshot).mpr ready.shows, ready.stored, ready.unindexed⟩
  · rw [not_or, Bool.not_eq_true] at there
    have stores := (ready.stored there.1).resolve_left there.2
    have points := ready.shows.points
    obtain ⟨loads, measures⟩ := mainOnInitDialog_loads stores there.1 points.asmbuf.trans
      points.asmoffset.trans points.asmaddr.trans
    exact ⟨⟨loads, measures⟩, fun _ => .inr ((mainOnInitDialog_stores st snapshot).mpr stores),
      fun _ => ready.unindexed there.1⟩

theorem mainOnInitDialog_shows (loaded : st.loaded = true) :
    (mainOnInitDialog st).1.Shows snapshot ↔ st.Shows snapshot := by
  obtain ⟨sbtTable, same⟩ := mainOnInitDialog_keeps (.inl loaded)
  rw [same, st.shows_table sbtTable snapshot]

theorem SearchState.Points.same (points : st.Points snapshot)
    (kept : after.asmbuf = st.asmbuf ∧ after.asmoffset = st.asmoffset ∧ after.asmaddr = st.asmaddr) :
    after.Points snapshot := by
  obtain ⟨asmbuf, asmoffset, asmaddr⟩ := kept
  exact ⟨by rw [asmbuf, points.asmbuf], by rw [asmoffset, points.asmoffset],
    by rw [asmaddr, points.asmaddr]⟩

theorem SearchState.loaded_same
    (kept : after.asmbuf = st.asmbuf ∧ after.asmoffset = st.asmoffset ∧ after.asmaddr = st.asmaddr) :
    after.loaded = st.loaded := by
  obtain ⟨asmbuf, asmoffset, asmaddr⟩ := kept
  rw [loaded, asmbuf, asmoffset, asmaddr, loaded]

/-- The lengths of two snapshots are the same. -/
structure Saved.SameLengths (first second : Saved) : Prop where
  text : first.text.length = second.text.length
  offsets : first.offsets.length / 4 = second.offsets.length / 4
  addrs : first.addrs.length / 4 = second.addrs.length / 4

theorem SearchState.Measures.sameLengths (measures : st.Measures before) :
    st.Measures snapshot ↔ before.SameLengths snapshot := by
  obtain ⟨text, offsets, addrs⟩ := measures
  constructor
  · intro other
    exact ⟨text.symm.trans other.nbuflen, offsets.symm.trans other.noffsetlen,
      addrs.symm.trans other.naddrlen⟩
  · intro same
    exact ⟨text.trans same.text, offsets.trans same.offsets, addrs.trans same.addrs⟩

/-- The comparison of lengths in terms of the listing. -/
theorem Session.sameLengths_iff (made : session.made = some snapshot) (measures : st.Measures before) :
    before.SameLengths snapshot ↔ session.listing.text.length = st.nbuflen ∧
      session.listing.count = st.noffsetlen ∧ session.listing.count = st.naddrlen := by
  obtain ⟨text, offsets, addrs⟩ := made_lengths made
  rw [measures.nbuflen, measures.noffsetlen, measures.naddrlen, ← text]
  constructor
  · intro same
    rw [same.text, same.offsets, same.addrs, offsets, addrs]
    omega
  · rintro ⟨length, first, second⟩
    exact ⟨length.symm, by omega, by omega⟩

/-- A thread that is not stopped between the lengths and the arrays, or of which
nothing is seen. -/
theorem Session.run_ready (session : Session) (ready : st.Ready before) (ran : session.run st = some after)
    (safe : session.Safe st) :
    ∃ snapshot, (snapshot = before ∨ session.made = some snapshot) ∧ after.Ready snapshot := by
  obtain ⟨ended, thread, rfl⟩ := Option.map_eq_some_iff.mp ran
  rcases createCodeSnapshoot_cases thread with ⟨-, rfl⟩ | ⟨asked, asmbuf, vectorIndex, made, stored⟩
  · exact ⟨before, .inl rfl, ready.reopened⟩
  obtain ⟨stores, measures, installed, stopped⟩ := storeSnapshoot_spec stored
  cases last : session.last with
  | true =>
    obtain ⟨loaded, points⟩ := installed last
    exact ⟨_, .inr made, (SearchState.Ready.of_loaded ⟨points, measures⟩ loaded).reopened⟩
  | false =>
    have kept := stopped last
    have points := ready.shows.points.same kept
    have loaded := SearchState.loaded_same kept
    cases there : st.loaded with
    | false =>
      obtain ⟨noOffset, noAddr⟩ := ready.unindexed there
      obtain ⟨-, offsets, addrs⟩ := made_lengths made
      exact ⟨_, .inr made, .of_stored stores (loaded.trans there) (made_filled made)
        (offsets.trans addrs.symm) (fun _ => points.asmoffset.trans noOffset)
        fun _ => points.asmaddr.trans noAddr⟩
    | true =>
      have same : before.SameLengths (savedOf asmbuf vectorIndex) := by
        rw [sameLengths_iff made ready.shows.measures]
        exact ((safe.resolve_left (by rw [last]; decide)).resolve_left (not_not_intro asked)).resolve_left
          (by rw [there]; decide)
      have old : ended.Measures before :=
        measures.sameLengths.mpr ⟨same.text.symm, same.offsets.symm, same.addrs.symm⟩
      exact ⟨before, .inl rfl,
        (SearchState.Ready.of_loaded ⟨points, old⟩ (loaded.trans there)).reopened⟩

/-- When the thread has ended and the dialog is opened again, the lengths and the arrays are
those of one snapshot, the old or the new one, exactly if the thread was not stopped between
the two, an array was missing before, or the lengths agree. -/
theorem session_shows_iff (session : Session) (st after : SearchState) (before : Saved)
    (ready : st.Ready before) (ran : session.run st = some after) :
    (after.Shows before ∨ ∃ snapshot, session.made = some snapshot ∧ after.Shows snapshot) ↔
      session.Safe st := by
  constructor
  · intro shows
    by_contra stuck
    simp only [Session.Safe, not_or, Bool.not_eq_true, Bool.not_eq_false, not_not] at stuck
    obtain ⟨last, asked, loaded, lengths⟩ := stuck
    obtain ⟨ended, thread, rfl⟩ := Option.map_eq_some_iff.mp ran
    rcases createCodeSnapshoot_cases thread with ⟨closed, -⟩ | ⟨-, asmbuf, vectorIndex, made, stored⟩
    · exact closed asked
    obtain ⟨-, measures, -, stopped⟩ := storeSnapshoot_spec stored
    have points := ready.shows.points.same (stopped last)
    have same := (SearchState.loaded_same (stopped last)).trans loaded
    simp only [mainOnInitDialog_shows same] at shows
    rw [← Session.sameLengths_iff made ready.shows.measures] at lengths
    apply lengths
    rcases shows with old | ⟨snapshot, again, new⟩
    · exact old.measures.sameLengths.mp measures
    · rw [made, Option.some.injEq] at again
      subst again
      have equal : ended.Measures before :=
        ⟨by rw [new.measures.nbuflen, ← new.points.asmbuf, points.asmbuf],
          by rw [new.measures.noffsetlen, ← new.points.asmoffset, points.asmoffset],
          by rw [new.measures.naddrlen, ← new.points.asmaddr, points.asmaddr]⟩
      exact equal.sameLengths.mp measures
  · intro safe
    obtain ⟨snapshot, rfl | made, now⟩ := session.run_ready ready ran safe
    · exact .inl now.shows
    · exact .inr ⟨snapshot, made, now.shows⟩

/-- One instruction, `nop`. -/
def nopListing : Listing where
  ea64 := false
  startaddr := 0
  endaddr := 1
  disasmLine _ := [0x6E, 0x6F, 0x70]
  findCode _ := 0xFFFFFFFF
  stack _ := 0
  range := by decide
  advances := by omega
  plain _ := nop_plain

/-- The same instruction twice. -/
def twoListing : Listing where
  ea64 := false
  startaddr := 0
  endaddr := 5
  disasmLine _ := [0x6E, 0x6F, 0x70]
  findCode iaddr := if iaddr < 4 then 4 else 0xFFFFFFFF
  stack _ := 0
  range := by decide
  advances := by
    intro iaddr _ before
    split <;> omega
  plain _ := nop_plain

def firstSession : Session where
  listing := nopListing
  isWindow _ := true
  last := true
  szDate := []

/-- The window is gone at the last test. -/
def stoppedSession : Session where
  listing := twoListing
  isWindow _ := true
  last := false
  szDate := []

/-- The window is gone at a test in the loop. -/
def closedSession : Session where
  listing := twoListing
  isWindow _ := false
  last := false
  szDate := []

theorem blankState_ready : blankState.Ready ⟨[], [], []⟩ :=
  ⟨⟨⟨rfl, rfl, rfl⟩, ⟨rfl, rfl, rfl⟩⟩, fun _ => .inl rfl, fun _ => ⟨rfl, rfl⟩⟩

/-- The snapshot that was loaded before is still there. -/
theorem session_shows_closed :
    ∃ st after snapshot, firstSession.run blankState = some st ∧ st.Ready snapshot ∧
      closedSession.run st = some after ∧ after.nbuflen = 5 ∧ after.Shows snapshot := by
  obtain ⟨snapshot, -, ready⟩ := firstSession.run_ready blankState_ready rfl (by decide)
  refine ⟨_, _, snapshot, rfl, ready, rfl, rfl, ?_⟩
  have shows := (session_shows_iff closedSession _ _ snapshot ready rfl).mpr (by decide)
  have unmade : closedSession.made = none := rfl
  refine shows.resolve_right fun ⟨other, made, _⟩ => ?_
  rw [unmade] at made
  cases made

/-- A text of nine bytes is announced and one of five is there. -/
theorem session_stopped :
    ∃ st after snapshot, firstSession.run blankState = some st ∧ st.Ready snapshot ∧
      stoppedSession.run st = some after ∧ after.nbuflen = 9 ∧
      after.asmbuf = some [0x0A, 0x4E, 0x4F, 0x50, 0x0A] ∧ ∀ other, ¬ after.Shows other := by
  obtain ⟨snapshot, -, ready⟩ := firstSession.run_ready blankState_ready rfl (by decide)
  refine ⟨_, _, snapshot, rfl, ready, rfl, rfl, rfl, fun other shows => ?_⟩
  have length := shows.measures.nbuflen
  rw [← shows.points.asmbuf] at length
  exact absurd length (by decide)

/-- A database without a snapshot, and one session after another. -/
def sessions : System SearchState Session where
  initial st := st.nAsmtable = none ∧ st.Shows ⟨[], [], []⟩
  step st session := session.run st

def SearchState.Usable (st : SearchState) : Prop :=
  ∃ snapshot, st.Ready snapshot

/-- As long as every session is safe, each one starts with one snapshot. -/
theorem sessions_usable
    (reached : Reaches sessions (fun st session => decide (session.Safe st)) st) : st.Usable := by
  refine reached.invariant ?_ ?_
  · rintro st ⟨table, shows⟩
    exact ⟨_, shows, fun _ => .inl table, fun _ => ⟨rfl, rfl⟩⟩
  · rintro st session after ⟨before, ready⟩ safe ran
    obtain ⟨snapshot, -, now⟩ := session.run_ready ready ran (of_decide_eq_true safe)
    exact ⟨snapshot, now⟩

end IDAPlugins.FindCode
