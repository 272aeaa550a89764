import IDAPlugins.AddressSpace

namespace IDAPlugins.FindHex

open Segments

/-! # The range of a search

`IDAP_run` takes the range from the two addresses and the four boxes of its form and
hands it to `get_many_bytes` when both of its ends are loaded.
-/

variable {space : AddressSpace} {form : Form}

structure Form where
  nStartAddres : Nat
  nEndAddres : Nat
  checkmask : Bool
  checkjumpto : Bool
  checkStrartEA : Bool
  checkAllSeg : Bool

/-- The start of the segment that contains an address, where there is one. -/
def segmentStart (space : AddressSpace) (box : Bool) (ea : Nat) : Nat :=
  if box then
    match space.getseg ea with
    | some curseg => curseg.startEA
    | none => ea
  else ea

def endLoaded (space : AddressSpace) (curseg : Segment) : Bool :=
  space.isLoaded (curseg.endEA - 1)

/-- The two addresses behind the form. The segment start is taken by `checkmask`, the
box that asks for every hit, and not by `checkStrartEA`. -/
def bounds (space : AddressSpace) (form : Form) : Nat × Nat :=
  if form.checkAllSeg then
    match space.segments with
    | [] => (form.nStartAddres, form.nEndAddres)
    | first :: rest =>
      (first.startEA,
        rest.foldl
          (fun nEndAddres curseg =>
            if endLoaded space curseg then curseg.endEA - 1 else nEndAddres)
          (first.endEA - 1))
  else (segmentStart space form.checkmask form.nStartAddres, form.nEndAddres)

/-- The start and the size given to `get_many_bytes`; `none` is a warning instead of a
search. `size` is an unsigned `int` in both builds. -/
def request (space : AddressSpace) (first last : Nat) : Option (Nat × Nat) :=
  if space.isLoaded first ∧ space.isLoaded (space.sub last 1) then
    let size := (((last : Int) - first) % 4294967296).toNat
    if 0 < size then some (first, size) else none
  else none

def searchedRange (space : AddressSpace) (form : Form) : Option (Nat × Nat) :=
  request space (bounds space form).1 (bounds space form).2

/-- The last segment whose final byte is loaded. -/
def lastLoaded (space : AddressSpace) : Option Segment :=
  (space.segments.filter (endLoaded space)).getLast?

/-- What the form says: the first address and the address behind the last one. Nothing
is said of all segments when no segment has a loaded end. -/
def asked (space : AddressSpace) (form : Form) : Option (Nat × Nat) :=
  if form.checkAllSeg then
    match space.segments.head?, lastLoaded space with
    | some first, some last => some (first.startEA, last.endEA)
    | _, _ => none
  else some (segmentStart space form.checkStrartEA form.nStartAddres, form.nEndAddres)

/-- The range can be searched: it has a byte, and its ends are loaded. -/
def Searchable (space : AddressSpace) (first last : Nat) : Prop :=
  first < last ∧ space.isLoaded first = true ∧ space.isLoaded (space.sub last 1) = true

/-- The whole range is searched, or it is rejected if it cannot be searched. -/
def Obeys (answer : Option (Nat × Nat)) (space : AddressSpace) (first last : Nat) : Prop :=
  (Searchable space first last → answer = some (first, last - first)) ∧
    (¬Searchable space first last → answer = none)

/-- An end of the range is not loaded, or its size is 0 modulo 2^32. -/
def Refused (space : AddressSpace) (first last : Nat) : Prop :=
  ¬(space.isLoaded first = true ∧ space.isLoaded (space.sub last 1) = true) ∨
    ((last : Int) - first) % 4294967296 = 0

theorem request_none_iff (space : AddressSpace) (first last : Nat) :
    request space first last = none ↔ Refused space first last := by
  rw [request, Refused]
  by_cases loaded : space.isLoaded first = true ∧ space.isLoaded (space.sub last 1) = true
  · rw [if_pos loaded]
    simp only [loaded, and_self, not_true_eq_false, false_or]
    split
    · simp only [reduceCtorEq, false_iff]
      omega
    · simp only [true_iff]
      omega
  · rw [if_neg loaded]
    simp only [loaded, not_false_eq_true, true_or]

theorem request_some {first last : Nat} {answer : Nat × Nat}
    (made : request space first last = some answer) :
    answer = (first, (((last : Int) - first) % 4294967296).toNat) := by
  rw [request] at made
  split at made
  · simp only at made
    split at made
    · exact (Option.some.inj made).symm
    · exact nomatch made
  · exact nomatch made

/-- A range that is searched obeys when it is the one asked for and its size fits. -/
theorem request_obeys_iff (space : AddressSpace) (start first last : Nat) :
    Obeys (request space start last) space first last ↔
      (Refused space start last ∧ ¬Searchable space first last) ∨
        start = first ∧ first < last ∧ last - first < 4294967296 := by
  constructor
  · intro ⟨searches, rejects⟩
    by_cases possible : Searchable space first last
    · right
      have answer := request_some (searches possible)
      rw [Prod.mk.injEq] at answer
      exact ⟨answer.1.symm, possible.1, by omega⟩
    · exact Or.inl ⟨(request_none_iff ..).mp (rejects possible), possible⟩
  · intro condition
    rcases condition with ⟨refused, impossible⟩ | ⟨rfl, nonempty, small⟩
    · exact ⟨fun possible => absurd possible impossible,
        fun _ => (request_none_iff ..).mpr refused⟩
    · have size : (((last : Int) - start) % 4294967296).toNat = last - start := by
        omega
      constructor
      · intro ⟨_, loaded⟩
        rw [request, if_pos loaded]
        simp only [size]
        rw [if_pos (Nat.sub_pos_of_lt nonempty)]
      · intro impossible
        exact (request_none_iff ..).mpr (Or.inl fun loaded => impossible ⟨nonempty, loaded⟩)

/-- The loop over the segments keeps the last byte of the last segment that has it loaded. -/
theorem bounds_allSeg {first last : Segment} {rest : List Segment}
    (all : form.checkAllSeg = true) (segments : space.segments = first :: rest)
    (found : lastLoaded space = some last) :
    bounds space form = (first.startEA, last.endEA - 1) := by
  rw [lastLoaded, segments] at found
  rw [bounds, if_pos all, segments]
  simp only [Database.foldl_last, Prod.mk.injEq, true_and]
  by_cases loaded : endLoaded space first = true
  · rw [List.filter_cons_of_pos loaded, List.getLast?_cons] at found
    rw [← Option.some.inj found]
    cases (rest.filter (endLoaded space)).getLast? <;> rfl
  · rw [List.filter_cons_of_neg loaded] at found
    rw [found]
    rfl

theorem lastLoaded_above {first last : Segment} {rest : List Segment}
    (segments : space.segments = first :: rest) (found : lastLoaded space = some last) :
    first.startEA < last.endEA ∧ space.isLoaded (space.sub last.endEA 1) = true := by
  have kept := List.mem_filter.mp (List.mem_of_getLast? found)
  have nonempty := last.nonempty
  have upper := space.upper last kept.1
  have below : space.sub last.endEA 1 = last.endEA - 1 :=
    space.sub_of_le (by omega) (Nat.lt_succ_of_le upper)
  refine ⟨?_, below ▸ kept.2⟩
  have order := space.ascending
  have member := kept.1
  rw [segments] at order member
  cases member with
  | head => exact first.nonempty
  | tail _ later =>
    have before := (List.pairwise_cons.mp order).1 last later
    have start := first.nonempty
    omega

/-- The bound of all segments is the last byte, which the search then leaves out. -/
theorem request_short_iff {first last : Nat} (above : first < last)
    (loaded : space.isLoaded (space.sub last 1) = true) :
    Obeys (request space first (last - 1)) space first last ↔ space.isLoaded first = false := by
  constructor
  · intro ⟨searches, _⟩
    by_contra start
    have answer := request_some (searches ⟨above, eq_true_of_ne_false start, loaded⟩)
    rw [Prod.mk.injEq] at answer
    omega
  · intro unloaded
    have missing : ¬space.isLoaded first = true := ne_true_of_eq_false unloaded
    exact ⟨fun possible => absurd possible.2.1 missing,
      fun _ => (request_none_iff ..).mpr (Or.inl fun both => missing both.1)⟩

/-- With all segments the range asked for is searched only where it is rejected, as its
first byte is not loaded. Otherwise the two boxes that move the start have to agree on
it, and a range that has a byte has to be smaller than 2^32, unless no range is searched
and none can be. -/
theorem searchedRange_obeys_iff (space : AddressSpace) (form : Form) :
    (∀ range ∈ asked space form, Obeys (searchedRange space form) space range.1 range.2) ↔
      if form.checkAllSeg then
        ∀ first ∈ space.segments.head?, lastLoaded space = none ∨
          space.isLoaded first.startEA = false
      else
        let start := segmentStart space form.checkmask form.nStartAddres
        let first := segmentStart space form.checkStrartEA form.nStartAddres
        let last := form.nEndAddres
        (Refused space start last ∧ ¬Searchable space first last) ∨
          start = first ∧ first < last ∧ last - first < 4294967296 := by
  by_cases all : form.checkAllSeg = true
  · rw [if_pos all]
    simp only [asked, if_pos all]
    cases segments : space.segments with
    | nil => simp
    | cons first rest =>
      simp only [List.head?_cons, Option.mem_def, Option.some.injEq, forall_eq']
      cases found : lastLoaded space with
      | none => simp
      | some last =>
        obtain ⟨above, loaded⟩ := lastLoaded_above segments found
        simp only [Option.some.injEq, forall_eq', reduceCtorEq, false_or, searchedRange,
          bounds_allSeg all segments found]
        exact request_short_iff above loaded
  · rw [if_neg all]
    simp only [asked, searchedRange, bounds, if_neg all, Option.mem_def, Option.some.injEq,
      forall_eq']
    exact request_obeys_iff space _ _ form.nEndAddres

def oneSegment : Segment where
  startEA := 0x2000
  endEA := 0x2010
  nonempty := Nat.lt_add_of_pos_right (Nat.succ_pos 15)

/-- One segment of 16 bytes, all of them loaded. -/
def loadedSegment : AddressSpace where
  ea64 := false
  segments := [oneSegment]
  isLoaded ea := 0x2000 ≤ ea && ea < 0x2010
  ascending := List.pairwise_singleton _ _
  upper curseg member := by
    rw [List.mem_singleton.mp member]
    decide
  loaded_lt ea loaded := by
    rw [Bool.and_eq_true, decide_eq_true_eq, decide_eq_true_eq] at loaded
    exact Nat.lt_trans loaded.2 (by decide)

def typed (first last : Nat) (checkmask checkAllSeg : Bool) : Form where
  nStartAddres := first
  nEndAddres := last
  checkmask
  checkjumpto := true
  checkStrartEA := false
  checkAllSeg

/-- All segments leave out the last byte, "list all" moves the start, and an end below
the start is searched. -/
theorem searchedRange_strays :
    (asked loadedSegment (typed 0x2000 0x2010 false true) = some (0x2000, 0x2010) ∧
        searchedRange loadedSegment (typed 0x2000 0x2010 false true) = some (0x2000, 0xF)) ∧
      (asked loadedSegment (typed 0x2008 0x2010 true false) = some (0x2008, 0x2010) ∧
        searchedRange loadedSegment (typed 0x2008 0x2010 true false) = some (0x2000, 0x10)) ∧
      asked loadedSegment (typed 0x2008 0x2004 false false) = some (0x2008, 0x2004) ∧
        searchedRange loadedSegment (typed 0x2008 0x2004 false false) =
          some (0x2008, 0xFFFFFFFC) := by
  decide

end IDAPlugins.FindHex
