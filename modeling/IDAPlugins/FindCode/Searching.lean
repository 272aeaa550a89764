import IDAPlugins.FindCode.Find
import IDAPlugins.FindCode.Query
import IDAPlugins.FindCode.Reopening
import Mathlib.Data.List.Perm.Subperm

namespace IDAPlugins.FindCode

open LittleEndian Machine Search Words

/-! # Searching the database

A search works on the snapshot that the thread has left, or on what is loaded of it when
the plugin is started anew. For the user it is a search in the listing: consecutive
instructions are found whose lines are globbed by the lines of the query.
-/

/-- What the search reads of the globals. -/
def SearchState.buffers (st : SearchState) : Buffers where
  asmbuf := st.asmbuf.getD []
  asmoffset := (readDwords (st.asmoffset.getD [])).map UInt32.toNat
  asmaddr := (readDwords (st.asmaddr.getD [])).map UInt32.toNat
  noffsetlen := st.noffsetlen

/-- How `OnButtonFind` ends: with a message, with a new thread, by an exception, or with the
addresses that it prints. -/
inductive FindOutcome where
  | noCode
  | creates
  | thrown (what : String)
  | illegal
  | searched (addresses : List Nat)
  deriving DecidableEq

/-- `create` is the radio button for a new snapshot, `segment` the start of the first segment. -/
def onButtonFindDialog (st : SearchState) (create : Bool) (segment : Option Nat)
    (editInCode : List UInt8) : Option FindOutcome :=
  let szparent := editInCode.take 4095
  if szparent = [] then
    some .noCode
  else if st.nAsmtable.isNone ∨ create then
    some .creates
  else
    match segment with
    | none => some (.searched [])
    | some startaddr => do
      match ← FindCode.vSearchCodes szparent with
      | .error what => some (.thrown what)
      | .ok codes =>
        if charAt (pickSearch codes 0 []).2 0 = 0 then some .illegal
        else (onButtonFind st.buffers startaddr codes).map .searched

/-- The line at an address as the snapshot stores it. -/
def Listing.stored (listing : Listing) (iaddr : Nat) : List UInt8 :=
  storedLine (listing.disasmLine iaddr)

/-- The lines of consecutive instructions are globbed by the tokens one by one. -/
def Listing.RunAt (listing : Listing) (tokens : List (List UInt8)) (k : Nat) : Prop :=
  k + tokens.length ≤ listing.addresses.length ∧
    ∀ m < tokens.length,
      Globs false (listing.stored (listing.addresses.getD (k + m) 0)) (tokens.getD m [])

/-- Every line has text, and not too much of it. -/
structure Listing.Full (listing : Listing) : Prop where
  near : listing.Near
  filled : ∀ iaddr ∈ listing.addresses, listing.stored iaddr ≠ []
  short : ∀ iaddr ∈ listing.addresses, (listing.stored iaddr).length < 256

/-- A query that is read as its lines: in front some of stars only, then one without `?` that
is searched for, and no `?` between two stars in any. -/
structure Query (editInCode : List UInt8) (leading : List (List UInt8)) (code : List UInt8)
    (rest : List (List UInt8)) : Prop where
  terminated : 0 ∉ editInCode
  short : editInCode.length < 4096
  readable : Readable editInCode
  lines : queryLines editInCode = leading ++ code :: rest
  stars : ∀ p ∈ leading, ∀ ch ∈ p, ch = 0x2A
  literal : ∃ ch ∈ code, ch ≠ 0x2A
  unquestioned : 0x3F ∉ code
  plain : ∀ token ∈ code :: rest, Plain token

/-- The dialog is opened again and again, or the plugin is loaded anew and the dialog opened. -/
inductive SearchState.Later (st : SearchState) : SearchState → Prop where
  | thread : st.Later st
  | opened {state : SearchState} (later : st.Later state) : st.Later (mainOnInitDialog state).1
  | restarted {state : SearchState} (later : st.Later state) :
    st.Later (mainOnInitDialog state.restarted).1

variable {listing : Listing} {st after : SearchState} {editInCode code : List UInt8}
  {leading rest : List (List UInt8)} {iaddr : Nat}

theorem Listing.normalised_terminated (listing : Listing) (iaddr : Nat) : 0 ∉ listing.normalised iaddr := by
  intro member
  rcases mem_filterSpacing member with space | inside
  · cases space
  · exact (listing.plain iaddr).1 inside

theorem Listing.stored_eq (listing : Listing) (iaddr : Nat) :
    listing.stored iaddr = (listing.normalised iaddr).map toUpper :=
  strupr_text (listing.normalised_terminated iaddr)

theorem Listing.stored_upper (listing : Listing) (iaddr : Nat) : UpperText (listing.stored iaddr) := by
  intro ch member
  rw [listing.stored_eq] at member
  obtain ⟨letter, inside, rfl⟩ := List.mem_map.mp member
  refine ⟨fun zero => ?_, fun newline => ?_, toUpper_ne_lower letter⟩
  · have same := (toUpper_eq_iff (.inl (by decide))).mp zero
    exact listing.normalised_terminated iaddr (same ▸ inside)
  · have same := (toUpper_eq_iff (.inl (by decide))).mp newline
    exact listing.normalised_line iaddr (same ▸ inside)

theorem Listing.Full.addresses_eq (full : listing.Full) :
    listing.addresses.filter listing.hasText = listing.addresses := by
  refine List.filter_eq_self.mpr fun a member => ?_
  have filled := full.filled a member
  rw [Listing.hasText, Bool.not_eq_true', List.isEmpty_eq_false_iff]
  intro empty
  rw [Listing.stored, empty] at filled
  exact filled rfl

theorem strupr_putLines (lines : List (List UInt8)) (terminated : ∀ line ∈ lines, 0 ∉ line) :
    strupr (0x0A :: putLines lines) = 0x0A :: putLines (lines.map (·.map toUpper)) := by
  have whole : 0 ∉ 0x0A :: putLines lines := by
    rw [List.mem_cons, not_or]
    refine ⟨by decide, fun member => ?_⟩
    obtain ⟨line, inside, character⟩ := List.mem_flatMap.mp member
    rcases List.mem_append.mp character with within | last
    · exact terminated line inside within
    · exact absurd (List.mem_singleton.mp last) (by decide)
  rw [strupr_text whole, List.map_cons, putLines, putLines, List.map_flatMap, List.flatMap_map]
  simp only [List.map_append]
  rfl

theorem Listing.text_stored (listing : Listing) :
    strupr listing.text = 0x0A :: putLines (listing.addresses.map listing.stored) := by
  have lines : ∀ line ∈ listing.addresses.map listing.normalised, 0 ∉ line := by
    intro line member
    obtain ⟨a, -, rfl⟩ := List.mem_map.mp member
    exact listing.normalised_terminated a
  rw [text, strupr_putLines _ lines, List.map_map]
  exact congrArg _ (congrArg _ (List.map_congr_left fun a _ => (listing.stored_eq a).symm))

def Listing.Full.snapshot (full : listing.Full) (small : listing.text.length < 2147483648) : Snapshot where
  lines := listing.addresses.map listing.stored
  asmaddr := listing.addresses.map (· - listing.startaddr)
  upper := List.forall_mem_map.mpr fun a _ => listing.stored_upper a
  nonempty := List.forall_mem_map.mpr full.filled
  short := List.forall_mem_map.mpr full.short
  addressed := by rw [List.length_map, List.length_map]
  small := by
    have length := congrArg List.length listing.text_stored
    rw [strupr_length, List.length_cons] at length
    omega

variable {asmbuf : AutoBuffer} {vectorIndex : List StrBufIndex} {state : Snapshooting}

/-- The offset of a whole line with text is the offset of a line. -/
theorem lineAt_offset {snapshot : Snapshot} {line : List UInt8} {offset : Nat} (filled : line ≠ [])
    (plain : 0x0A ∉ line) (at_line : LineAt snapshot.asmbuf line offset) : offset ∈ snapshot.asmoffset := by
  obtain ⟨positive, newline, whole, inside, -⟩ := at_line
  have length := List.length_pos_iff.mpr filled
  have character : charAt snapshot.asmbuf offset ≠ 0x0A := by
    obtain ⟨first, others, rfl⟩ := List.exists_cons_of_ne_nil filled
    intro same
    have here := List.drop_eq_getElem_cons (show offset < snapshot.asmbuf.length by omega)
    rw [here] at whole
    rw [charAt, List.getD_eq_getElem _ _ (by omega)] at same
    rw [same, List.takeWhile_cons_of_neg (by decide)] at whole
    cases whole
  obtain ⟨k, bound, t, within, rfl⟩ := Snapshot.locate (by omega) character
  cases t with
  | zero => exact List.mem_map.mpr ⟨k, List.mem_range.mpr bound, (Nat.add_zero _).symm⟩
  | succ t =>
    have before := (Snapshot.line_character bound (Nat.lt_of_succ_lt within)).2
    rw [← Snapshot.charAt_line bound (Nat.lt_of_succ_lt within)] at before
    exact absurd newline before

/-- Upper case keeps the lines where they are. -/
theorem LineAt.toUpper {buf line : List UInt8} {offset : Nat} (at_line : LineAt buf line offset) :
    LineAt (buf.map FindCode.toUpper) (line.map FindCode.toUpper) offset := by
  obtain ⟨positive, newline, whole, inside, last⟩ := at_line
  have turned (i : Nat) (bound : i < buf.length) (same : charAt buf i = 0x0A) :
      charAt (buf.map FindCode.toUpper) i = 0x0A := by
    rw [charAt_map FindCode.toUpper bound, same]
    rfl
  refine ⟨positive, turned _ (by omega) newline, ?_, ?_, ?_⟩
  · rw [← List.map_drop, List.takeWhile_map, ← whole]
    congr 2
    funext ch
    have same := @toUpper_eq_iff ch 0x0A (.inl (by decide))
    simp only [Function.comp, bne, beq_eq_decide]
    rw [decide_eq_decide.mpr same]
  · rw [List.length_map, List.length_map]
    exact inside
  · rw [List.length_map]
    exact turned _ inside last

/-- A strictly increasing list with its members and its length in another is the other. -/
theorem eq_of_increasing {first second : List Nat} (left : first.Pairwise (· < ·))
    (right : second.Pairwise (· < ·)) (inside : first ⊆ second) (length : second.length ≤ first.length) :
    first = second := by
  have perm := (List.subperm_of_subset (left.imp Nat.ne_of_lt) inside).perm_of_length_le length
  exact perm.eq_of_pairwise (fun _ _ _ _ before after => absurd before (Nat.lt_asymm after)) left right

/-- The index of a full listing has the offsets of its lines. -/
theorem Listing.Full.offsets_eq (full : listing.Full) (small : listing.text.length < 2147483648)
    (indexed : Indexed listing asmbuf.used vectorIndex) :
    vectorIndex.map (fun entry => entry.dwbufoffset.toNat) = (full.snapshot small).asmoffset := by
  have text : asmbuf.used.map FindCode.toUpper = (full.snapshot small).asmbuf := by
    have terminated : 0 ∉ listing.text := by
      intro member
      rcases List.mem_cons.mp member with first | later
      · cases first
      · obtain ⟨line, inside, character⟩ := List.mem_flatMap.mp later
        obtain ⟨a, -, rfl⟩ := List.mem_map.mp inside
        rcases List.mem_append.mp character with within | last
        · exact listing.normalised_terminated a within
        · exact absurd (List.mem_singleton.mp last) (by decide)
    rw [indexed.text, ← strupr_text terminated]
    exact listing.text_stored
  have entries := indexed.entries
  rw [full.addresses_eq] at entries
  refine eq_of_increasing ?_ (full.snapshot small).asmoffset_increasing ?_ ?_
  · have offsets := indexed.offsets
    rw [List.pairwise_map] at offsets ⊢
    exact offsets.imp fun before => UInt32.lt_iff_toNat_lt.mp before
  · intro offset member
    obtain ⟨entry, inside, rfl⟩ := List.mem_map.mp member
    have address : entry.dwasmaddr.toNat ∈ listing.addresses.map (· - listing.startaddr) :=
      entries ▸ List.mem_map_of_mem inside
    obtain ⟨a, listed, difference⟩ := List.mem_map.mp address
    have place : listing.startaddr + entry.dwasmaddr.toNat = a := by
      have above := listing.addresses_lower a listed
      omega
    have at_line := (indexed.lines entry inside).toUpper
    rw [place, ← listing.stored_eq, text] at at_line
    exact lineAt_offset (full.filled a listed) (fun newline => (listing.stored_upper a _ newline).2.1 rfl)
      at_line
  · have length := congrArg List.length entries
    rw [List.length_map, List.length_map] at length
    rw [List.length_map, length, Snapshot.asmoffset_length]
    exact Nat.le_of_eq (List.length_map _)

/-- Numbers that start with one below 96 have no letter in front of their first zero. -/
theorem unlettered_first {dwords : List UInt32} (first : ∀ dword, dwords.head? = some dword → dword ≤ 1) :
    Unlettered (image dwords) := by
  cases dwords with
  | nil => exact fun ch member => absurd member List.not_mem_nil
  | cons dword others =>
    have small := first dword rfl
    have either : dword = 0 ∨ dword = 1 := by
      rw [UInt32.le_iff_toNat_le] at small
      rw [← UInt32.toNat_inj, ← UInt32.toNat_inj]
      change dword.toNat = 0 ∨ dword.toNat = 1
      change dword.toNat ≤ 1 at small
      omega
    rcases either with rfl | rfl
    · exact fun ch member => absurd member List.not_mem_nil
    · intro ch member
      have only : (image (1 :: others)).takeWhile (· != 0) = [1] := rfl
      rw [only, List.mem_singleton] at member
      rw [member]
      decide

/-- The arrays that the search reads are those of the listing's snapshot. -/
theorem Listing.Full.buffers_eq (full : listing.Full) (small : listing.text.length < 2147483648)
    (indexed : Indexed listing asmbuf.used vectorIndex)
    (points : st.Points (savedOf asmbuf vectorIndex))
    (measures : st.Measures (savedOf asmbuf vectorIndex)) :
    st.buffers = (full.snapshot small).buffers := by
  have offsets := full.offsets_eq small indexed
  have entries := indexed.entries
  rw [full.addresses_eq] at entries
  -- both arrays pass through `strupr` unharmed, as the first of their numbers ends it
  have firstOffset : Unlettered (image (vectorIndex.map StrBufIndex.dwbufoffset)) := by
    refine unlettered_first fun dword head => ?_
    cases vectorIndex with
    | nil => cases head
    | cons entry others =>
      have first : entry.dwbufoffset.toNat ∈ (full.snapshot small).asmoffset.head? := by
        rw [← offsets]
        rfl
      have same : entry.dwbufoffset.toNat = 1 := by
        rw [Snapshot.asmoffset] at first
        cases count : (full.snapshot small).lines.length with
        | zero =>
          rw [count] at first
          cases first
        | succ lines =>
          rw [count, List.range_succ_eq_map] at first
          exact (Option.some.inj first).symm
      rw [← Option.some.inj head, UInt32.le_iff_toNat_le, same]
      decide
  have firstAddr : Unlettered (image (vectorIndex.map StrBufIndex.dwasmaddr)) := by
    refine unlettered_first fun dword head => ?_
    cases vectorIndex with
    | nil => cases head
    | cons entry others =>
      have first := congrArg List.head? entries
      rw [Listing.addresses, Listing.addressesAt] at first
      cases fuel : listing.endaddr - listing.startaddr with
      | zero =>
        rw [fuel] at first
        cases first
      | succ more =>
        rw [fuel, Listing.addressesFrom, if_pos (by omega)] at first
        have zero : entry.dwasmaddr.toNat = 0 :=
          (Option.some.inj first).trans (Nat.sub_self _)
        rw [← Option.some.inj head, UInt32.le_iff_toNat_le, zero]
        exact Nat.zero_le _
  have holds := (holds_iff points measures).mpr ⟨firstOffset, firstAddr⟩
  rw [SearchState.buffers, holds.offsets, holds.addrs, holds.noffsetlen, points.asmbuf, List.map_map,
    List.map_map, Snapshot.buffers]
  congr 1
  · exact (congrArg strupr indexed.text).trans listing.text_stored
  · rw [← offsets, List.length_map]

theorem mem_of_mem_lines {szparent line : List UInt8} (member : line ∈ szparent.splitOnP isNewline) :
    line ⊆ szparent := by
  induction szparent using lines_induction isNewline with
  | last whole clean =>
    rw [List.splitOnP_eq_singleton clean, List.mem_singleton] at member
    exact member ▸ List.Subset.refl _
  | more first separator others clean newline ih =>
    rw [List.splitOnP_append_cons_of_forall_mem clean separator newline] at member
    rcases List.mem_cons.mp member with rfl | later
    · exact List.subset_append_left _ _
    · exact fun ch inside => List.mem_append_right _ (List.mem_cons_of_mem _ (ih later inside))

theorem Query.upper {p : List UInt8} (query : Query editInCode leading code rest)
    (member : p ∈ leading ++ code :: rest) : UpperText p := by
  rw [← query.lines] at member
  intro ch inside
  have clean := isNewline_of_mem_queryLines member ch inside
  obtain ⟨line, there, rfl⟩ := List.mem_map.mp member
  have typed := mem_of_mem_lines (List.mem_filter.mp there).1
  rcases mem_squeeze inside with rfl | turned
  · decide
  obtain ⟨letter, within, rfl⟩ := List.mem_map.mp turned
  refine ⟨fun zero => ?_, fun newline => ?_, toUpper_ne_lower letter⟩
  · have same := (toUpper_eq_iff (.inl (by decide))).mp zero
    exact query.terminated (same ▸ typed within)
  · rw [newline] at clean
    cases clean

theorem Query.picked (query : Query editInCode leading code rest) : charAt (copySearch code) 0 ≠ 0 := by
  have upper : UpperText code := query.upper (List.mem_append_right _ List.mem_cons_self)
  have nonempty := List.length_pos_iff.mpr (copySearch_ne_nil query.literal)
  exact (upper _ ((copySearch_sublist code).subset (charAt_mem nonempty))).1

theorem Query.codes (query : Query editInCode leading code rest) :
    vSearchCodes editInCode = some (.ok (leading ++ code :: rest)) := by
  obtain ⟨first, others, split⟩ := List.exists_cons_of_ne_nil (List.splitOnP_ne_nil isNewline editInCode)
  obtain ⟨word, ended⟩ := query.readable
  rw [split, List.head?_cons, Option.any_some] at word
  have tokens := vSearchCodes_word query.terminated (Nat.lt_trans query.short (by decide)) split word
  have all : ∀ line ∈ others.dropLast, line = [] ∨ hasWord line = true := by
    cases others with
    | nil => exact List.forall_mem_nil _
    | cons next others =>
      rw [split, List.dropLast_cons_of_ne_nil (List.cons_ne_nil next others), List.forall_mem_cons] at ended
      exact ended.2
  rw [tokens, ← query.lines, queryLines, split, List.filter_cons_of_pos word, List.map_cons,
    (tokensOf_lines others).mpr all]

/-- A run of lines in the snapshot is a run in the listing. -/
theorem Listing.Full.runAt_iff (full : listing.Full) (small : listing.text.length < 2147483648)
    {tokens : List (List UInt8)} (terminated : ∀ token ∈ tokens, 0 ∉ token)
    (plain : ∀ token ∈ tokens, Plain token) (k : Nat) :
    (full.snapshot small).RunAt tokens k ↔ listing.RunAt tokens k := by
  have count : (full.snapshot small).lines.length = listing.addresses.length := List.length_map _
  rw [Snapshot.RunAt, Listing.RunAt, count]
  refine and_congr_right fun fits => forall₂_congr fun m inside => ?_
  have line : (full.snapshot small).line (k + m) = listing.stored (listing.addresses.getD (k + m) 0) := by
    rw [Snapshot.line, List.getD_eq_getElem _ _ (by omega), List.getD_eq_getElem _ _ (by omega)]
    exact List.getElem_map _
  have token : tokens.getD m [] ∈ tokens := by
    rw [List.getD_eq_getElem _ _ inside]
    exact List.getElem_mem inside
  have stored : 0 ∉ listing.stored (listing.addresses.getD (k + m) 0) :=
    fun zero => (listing.stored_upper _ 0 zero).1 rfl
  obtain ⟨bIsMatched, ran, sound, complete⟩ :=
    matchingString_answers false stored (terminated _ token)
  rw [line, ran, Option.some.injEq]
  exact ⟨sound, complete (plain _ token)⟩

theorem Query.searches (query : Query editInCode leading code rest) (snapshot : Snapshot)
    (startaddr : Nat) :
    ∃ hits : List Nat, onButtonFind snapshot.buffers startaddr (leading ++ code :: rest) =
        some (hits.map fun k => (snapshot.asmaddr.getD k 0 + startaddr) % 4294967296) ∧
      Leftmost (snapshot.RunAt (code :: rest)) (rest.length + 1) 0 hits :=
  onButtonFind_reports_runs snapshot startaddr leading code rest query.stars
    (query.upper (List.mem_append_right _ List.mem_cons_self)) query.literal query.unquestioned

/-- Whatever is opened later shows the snapshot of the thread. -/
theorem SearchState.Later.ready {snapshot : Saved} {state : SearchState} (later : after.Later state)
    (ready : after.Ready snapshot) (stores : after.Stores snapshot) (filled : snapshot.text ≠ [])
    (paired : snapshot.offsets.length = snapshot.addrs.length) :
    state.Ready snapshot ∧ state.Stores snapshot := by
  induction later with
  | thread => exact ⟨ready, stores⟩
  | opened _ ih => exact ⟨ih.1.reopened, (mainOnInitDialog_stores _ snapshot).mpr ih.2⟩
  | @restarted state _ ih =>
    have again : state.restarted.Stores snapshot := ih.2
    exact ⟨.of_stored again rfl filled paired (fun _ => rfl) fun _ => rfl,
      (mainOnInitDialog_stores _ snapshot).mpr again⟩

theorem leftmost_occurs {occurs : Nat → Prop} {width start : Nat} {hits : List Nat}
    (leftmost : Leftmost occurs width start hits) : ∀ k ∈ hits, occurs k := by
  induction leftmost with
  | finished none => exact List.forall_mem_nil _
  | hit least tail ih => exact List.forall_mem_cons.mpr ⟨least.1.2, ih⟩

/-- When the thread has made a snapshot of a full listing, a search prints the addresses at
which the leftmost runs of instructions begin whose lines are globbed by the lines of the
query: at once, whenever the dialog is opened again, and when the plugin is started anew. -/
theorem search_finds_runs (full : listing.Full) {isWindow : Nat → Bool} {szDate : List UInt8}
    (there : ∀ iaddr ∈ listing.asks, isWindow iaddr = true)
    (ran : createCodeSnapshoot listing isWindow true szDate st = some after)
    (query : Query editInCode leading code rest) :
    ∃ hits : List Nat, Leftmost (listing.RunAt (code :: rest)) (rest.length + 1) 0 hits ∧
      ∀ state, after.Later state →
        onButtonFindDialog state false (some listing.startaddr) editInCode =
          some (.searched (hits.map fun k => listing.addresses.getD k 0 % 4294967296)) := by
  let session : Session := { listing, isWindow, last := true, szDate }
  obtain ⟨outcome, built, ends⟩ := buildSnapshoot_ends listing isWindow
  rw [createCodeSnapshoot, built] at ran
  cases outcome with
  | closed => exact absurd there ends
  | exhausted => cases ran
  | built asmbuf vectorIndex =>
    obtain ⟨-, iaddr, nSendPlan, building⟩ := ends
    have made : session.made = some (savedOf asmbuf vectorIndex) := by
      rw [Session.made, built]
    have indexed := building.indexed_iff.mpr full.near
    have small : listing.text.length < 2147483648 := indexed.text ▸ asmbuf.used_lt
    obtain ⟨stores, measures, installed, -⟩ := storeSnapshoot_spec ran
    obtain ⟨loaded, points⟩ := installed rfl
    have ready := SearchState.Ready.of_loaded ⟨points, measures⟩ loaded
    have lengths := Session.made_lengths made
    obtain ⟨hits, found, leftmost⟩ := query.searches (full.snapshot small) listing.startaddr
    have terminated : ∀ token ∈ code :: rest, 0 ∉ token := fun token member zero =>
      (query.upper (List.mem_append_right _ member) 0 zero).1 rfl
    have runs : (full.snapshot small).RunAt (code :: rest) = listing.RunAt (code :: rest) :=
      funext fun k => propext (full.runAt_iff small terminated query.plain k)
    rw [runs] at leftmost
    refine ⟨hits, leftmost, fun state later => ?_⟩
    obtain ⟨shows, sbtTable, table, -⟩ := later.ready ready stores (Session.made_filled made)
      (lengths.2.1.trans lengths.2.2.symm)
    have addresses : hits.map (fun k =>
        ((full.snapshot small).asmaddr.getD k 0 + listing.startaddr) % 4294967296) =
          hits.map fun k => listing.addresses.getD k 0 % 4294967296 := by
      refine List.map_congr_left fun k member => ?_
      have inside := (leftmost_occurs leftmost k member).1
      rw [List.length_cons] at inside
      have bound : k < listing.addresses.length := by omega
      have above := listing.addresses_lower _ (List.getElem_mem bound)
      have entry : (full.snapshot small).asmaddr.getD k 0 = listing.addresses[k] - listing.startaddr := by
        rw [Listing.Full.snapshot, List.getD_eq_getElem _ _ (by rw [List.length_map]; exact bound),
          List.getElem_map]
      rw [entry, List.getD_eq_getElem _ _ bound, Nat.sub_add_cancel above]
    have typed : editInCode ≠ [] := by
      intro empty
      have word := query.readable.1
      rw [empty] at word
      exact absurd word (by decide)
    have whole : editInCode.take 4095 = editInCode :=
      List.take_of_length_le (Nat.le_of_lt_succ query.short)
    have picked : charAt (pickSearch (leading ++ code :: rest) 0 []).2 0 ≠ 0 := by
      rw [pickSearch_first query.stars query.picked]
      exact query.picked
    have buffers := full.buffers_eq small indexed shows.shows.points shows.shows.measures
    simp only [onButtonFindDialog, whole, if_neg typed, table, Option.isNone_some, Bool.false_eq_true,
      or_self, if_false, query.codes, Option.bind_eq_bind, Option.bind_some, if_neg picked, buffers,
      found, Option.map_some, addresses]

theorem twoListing_addresses : twoListing.addresses = [0, 4] := by
  decide

theorem twoListing_full : twoListing.Full where
  near := twoListing.near_of_ea32 rfl
  filled := by
    rw [twoListing_addresses]
    decide
  short := by
    rw [twoListing_addresses]
    decide

/-- `*` and `n*p`, typed on two lines. -/
def starQuery : List UInt8 := [0x2A, 0x0D, 0x0A, 0x6E, 0x2A, 0x70]

theorem starQuery_query : Query starQuery [[0x2A]] [0x4E, 0x2A, 0x50] [] :=
  ⟨by decide, by decide, by decide, by decide, by simp, ⟨0x4E, by decide, by decide⟩, by decide,
    by decide⟩

theorem search_finds_nops :
    ∃ after hits, createCodeSnapshoot twoListing (fun _ => true) true [] blankState = some after ∧
      Leftmost (twoListing.RunAt [[0x4E, 0x2A, 0x50]]) 1 0 hits ∧
      onButtonFindDialog (mainOnInitDialog after.restarted).1 false (some 0) starQuery =
        some (.searched (hits.map fun k => twoListing.addresses.getD k 0 % 4294967296)) := by
  obtain ⟨after, ran⟩ : ∃ after,
      createCodeSnapshoot twoListing (fun _ => true) true [] blankState = some after := ⟨_, rfl⟩
  obtain ⟨hits, leftmost, found⟩ :=
    search_finds_runs twoListing_full (fun _ _ => rfl) ran starQuery_query
  exact ⟨after, hits, ran, leftmost, found _ (.restarted .thread)⟩

end IDAPlugins.FindCode
