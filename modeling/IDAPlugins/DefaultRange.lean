import IDAPlugins.AddressSpace
import IDAPlugins.Loop

namespace IDAPlugins.DefaultRange

open Loop Segments

/-! # The proposed end address

Before they ask for a range, `KDFindHex` and `KDDump` lower the end of the cursor's
segment by 0x100 until the byte in front of it is loaded.
-/

variable {space : AddressSpace} {curseg : Segment} {ea start : Nat}

/-- `nEndAddres` of `KDFindHex` in front of the loop. -/
def findHexEnd (space : AddressSpace) (screen_ea : Nat) : Nat :=
  match space.findSegIndex screen_ea with
  | none => (screen_ea + 0x100) % space.addresses
  | some i => ((space.getnseg i).map Segment.endEA).getD 0

/-- `nEndAddres` of `KDDump` in front of the loop. -/
def dumpEnd (space : AddressSpace) (screen_ea : Nat) : Nat :=
  match space.getseg screen_ea with
  | none => (screen_ea + 0x100) % space.addresses
  | some curseg => curseg.endEA

def lowerEnd (space : AddressSpace) (nEndAddres : Nat) : Option (Pass Nat Nat) :=
  if space.isLoaded (space.sub nEndAddres 1) then some (.leave nEndAddres)
  else some (.again (space.sub nEndAddres 0x100))

/-- Loaded, and with the last byte of the segment on the path of the loop. -/
def Met (space : AddressSpace) (start ea : Nat) : Prop :=
  space.isLoaded ea = true ∧ (ea + 1) % 0x100 = start % 0x100

def EndsAbove (space : AddressSpace) (start bound : Nat) : Prop :=
  ∃ nEndAddres, Ends (lowerEnd space) start nEndAddres ∧ bound < nEndAddres

/-- One pass below the top of the address space: a loaded byte ends the loop, otherwise
the end stays on its path, lower by 0x100 or wrapped to the top. -/
theorem lowerEnd_cases {nEndAddres : Nat} (range : nEndAddres < space.addresses)
    (path : nEndAddres % 0x100 = start % 0x100) :
    (lowerEnd space nEndAddres = some (.leave nEndAddres) ∧ 0 < nEndAddres ∧
        Met space start (nEndAddres - 1)) ∨
      ∃ next, lowerEnd space nEndAddres = some (.again next) ∧ next < space.addresses ∧
        next % 0x100 = start % 0x100 ∧ (0 < nEndAddres → ¬Met space start (nEndAddres - 1)) ∧
        (0x100 ≤ nEndAddres ∧ next = nEndAddres - 0x100 ∨
          nEndAddres < 0x100 ∧ next + 0x100 = nEndAddres + space.addresses) := by
  have wide := space.addresses_cases
  have step : 0x100 ≤ nEndAddres ∧ space.sub nEndAddres 0x100 = nEndAddres - 0x100 ∨
      nEndAddres < 0x100 ∧ space.sub nEndAddres 0x100 + 0x100 = nEndAddres + space.addresses := by
    by_cases high : 0x100 ≤ nEndAddres
    · exact Or.inl ⟨high, space.sub_of_le high range⟩
    · exact Or.inr ⟨Nat.lt_of_not_le high, AddressSpace.sub_of_lt (by omega) (by omega)⟩
  by_cases zero : nEndAddres = 0
  · -- in front of address 0 lies `BADADDR`, which is never loaded
    right
    have top : space.sub nEndAddres 1 = badaddr space.ea64 := by
      have wraps : space.sub nEndAddres 1 + 1 = nEndAddres + space.addresses :=
        AddressSpace.sub_of_lt (by omega) (by omega)
      rw [AddressSpace.addresses] at wraps
      omega
    have free : ¬space.isLoaded (badaddr space.ea64) = true :=
      fun loaded => Nat.lt_irrefl _ (space.loaded_lt _ loaded)
    refine ⟨space.sub nEndAddres 0x100, by rw [lowerEnd, top, if_neg free], ?_, ?_, ?_, step⟩
    all_goals omega
  · have positive : 0 < nEndAddres := Nat.pos_of_ne_zero zero
    have below : space.sub nEndAddres 1 = nEndAddres - 1 := space.sub_of_le positive range
    by_cases loaded : space.isLoaded (nEndAddres - 1) = true
    · left
      refine ⟨by rw [lowerEnd, below, if_pos loaded], positive, loaded, ?_⟩
      rw [Nat.sub_add_cancel positive, path]
    · right
      refine ⟨space.sub nEndAddres 0x100, by rw [lowerEnd, below, if_neg loaded], ?_, ?_, ?_, step⟩
      · omega
      · omega
      · exact fun _ met => loaded met.1

/-- Without a loaded byte on its path the loop has no end. -/
theorem lowerEnd_never (range : start < space.addresses) (none : ∀ ea, ¬Met space start ea)
    {nEndAddres : Nat} : ¬Ends (lowerEnd space) start nEndAddres := by
  have stuck : ∀ nEndAddres,
      nEndAddres < space.addresses ∧ nEndAddres % 0x100 = start % 0x100 →
      lowerEnd space nEndAddres = Option.none ∨
        ∃ next, lowerEnd space nEndAddres = some (.again next) ∧
          next < space.addresses ∧ next % 0x100 = start % 0x100 := by
    intro nEndAddres ⟨inside, path⟩
    rcases lowerEnd_cases inside path with ⟨-, -, met⟩ | ⟨next, again, upper, kept, -, -⟩
    · exact absurd met (none _)
    · exact Or.inr ⟨next, again, upper, kept⟩
  intro ⟨fuel, done⟩
  rw [run_stuck stuck fuel ⟨range, rfl⟩] at done
  exact nomatch done

/-- A loaded byte on the path below the start ends the loop, at the latest there. -/
theorem lowerEnd_stops (range : start < space.addresses) (lower : ea < start)
    (met : Met space start ea) :
    ∃ nEndAddres, Ends (lowerEnd space) start nEndAddres ∧ ea < nEndAddres ∧
      nEndAddres ≤ start ∧ Met space start (nEndAddres - 1) := by
  have sound : Sound (lowerEnd space)
      (fun nEndAddres =>
        ea < nEndAddres ∧ nEndAddres ≤ start ∧ nEndAddres % 0x100 = start % 0x100)
      (fun nEndAddres => nEndAddres)
      (fun nEndAddres =>
        ea < nEndAddres ∧ nEndAddres ≤ start ∧ Met space start (nEndAddres - 1)) := by
    intro nEndAddres holds
    obtain ⟨above, upper, path⟩ := holds
    have inside : nEndAddres < space.addresses := Nat.lt_of_le_of_lt upper range
    rcases lowerEnd_cases inside path with ⟨leave, -, found⟩ | ⟨next, again, -, kept, missed, step⟩
    · exact Or.inr ⟨nEndAddres, leave, above, upper, found⟩
    · left
      -- the byte at `ea` would have ended the loop here
      have apart : ea ≠ nEndAddres - 1 := fun same => missed (by omega) (same ▸ met)
      have aligned := met.2
      have far : ea + 0x101 ≤ nEndAddres := by omega
      have lowered : next < nEndAddres := by omega
      exact ⟨next, again, ⟨by omega, by omega, kept⟩, lowered⟩
  exact sound.ends ⟨lower, Nat.le_refl _, rfl⟩

/-- Where only higher bytes on the path are loaded, the loop wraps and ends above them. -/
theorem lowerEnd_wraps (range : start < space.addresses) (upper : start ≤ ea)
    (met : Met space start ea) (nothing : ∀ lower < start, ¬Met space start lower) :
    ∃ nEndAddres, Ends (lowerEnd space) start nEndAddres ∧ ea < nEndAddres := by
  have wide := space.addresses_cases
  have below : ea < badaddr space.ea64 := space.loaded_lt ea met.1
  rw [AddressSpace.addresses] at wide
  have sound : Sound (lowerEnd space)
      (fun nEndAddres =>
        nEndAddres < space.addresses ∧ nEndAddres % 0x100 = start % 0x100 ∧
          (nEndAddres ≤ start ∨ ea < nEndAddres))
      (fun nEndAddres =>
        if nEndAddres ≤ start then nEndAddres + space.addresses else nEndAddres)
      (fun nEndAddres => ea < nEndAddres) := by
    intro nEndAddres holds
    obtain ⟨inside, path, place⟩ := holds
    rcases lowerEnd_cases inside path with
      ⟨leave, positive, found⟩ | ⟨next, again, outside, kept, missed, step⟩
    · right
      refine ⟨nEndAddres, leave, ?_⟩
      cases place with
      | inl low => exact absurd found (nothing _ (by omega))
      | inr above => exact above
    · left
      have aligned := met.2
      have apart : nEndAddres ≠ ea + 1 := by
        intro same
        refine missed (by omega) ?_
        rw [same, Nat.add_sub_cancel]
        exact met
      rw [AddressSpace.addresses] at *
      refine ⟨next, again, ⟨outside, kept, ?_⟩, ?_⟩
      · omega
      · simp only
        split <;> split <;> omega
  exact sound.ends ⟨range, rfl, Or.inl (Nat.le_refl _)⟩

/-- The loop ends above a bound below its start exactly when a loaded byte on its path
lies between the two, or none below the start but one at it or above. -/
theorem endsAbove_iff (range : start < space.addresses) {bound : Nat} (lower : bound < start) :
    EndsAbove space start bound ↔
      (∃ ea, Met space start ea ∧ bound ≤ ea ∧ ea < start) ∨
        (∀ ea < bound, ¬Met space start ea) ∧ ∃ ea, Met space start ea ∧ start ≤ ea := by
  constructor
  · intro ⟨nEndAddres, ends, above⟩
    by_cases between : ∃ ea, Met space start ea ∧ bound ≤ ea ∧ ea < start
    · exact Or.inl between
    · right
      constructor
      · intro ea low met
        obtain ⟨stop, stops, -, upper, found⟩ :=
          lowerEnd_stops range (Nat.lt_trans low lower) met
        rw [ends.unique stops] at above
        exact between ⟨stop - 1, found, by omega, by omega⟩
      · by_contra higher
        refine lowerEnd_never range (fun ea met => ?_) ends
        have low : ea < start := Nat.lt_of_not_le fun upper => higher ⟨ea, met, upper⟩
        obtain ⟨stop, stops, -, upper, found⟩ := lowerEnd_stops range low met
        rw [ends.unique stops] at above
        exact between ⟨stop - 1, found, by omega, by omega⟩
  · intro condition
    rcases condition with ⟨ea, met, above, below⟩ | ⟨clear, ea, met, upper⟩
    · obtain ⟨nEndAddres, ends, higher, -, -⟩ := lowerEnd_stops range below met
      exact ⟨nEndAddres, ends, Nat.lt_of_le_of_lt above higher⟩
    · by_cases between : ∃ ea, Met space start ea ∧ bound ≤ ea ∧ ea < start
      · obtain ⟨ea, met, above, below⟩ := between
        obtain ⟨nEndAddres, ends, higher, -, -⟩ := lowerEnd_stops range below met
        exact ⟨nEndAddres, ends, Nat.lt_of_le_of_lt above higher⟩
      · have nothing : ∀ ea < start, ¬Met space start ea := by
          intro ea low met
          by_cases above : bound ≤ ea
          · exact between ⟨ea, met, above, low⟩
          · exact clear ea (Nat.lt_of_not_le above) met
        obtain ⟨nEndAddres, ends, higher⟩ := lowerEnd_wraps range upper met nothing
        exact ⟨nEndAddres, ends, by omega⟩

theorem dumpEnd_eq (cursor : space.getseg ea = some curseg) :
    dumpEnd space ea = curseg.endEA := by
  rw [dumpEnd, cursor]

/-- Both plug-ins start at the end of the same segment. -/
theorem findHexEnd_eq (cursor : space.getseg ea = some curseg) :
    findHexEnd space ea = curseg.endEA := by
  rw [← space.getnseg_findSegIndex] at cursor
  cases found : space.findSegIndex ea with
  | none =>
    rw [found] at cursor
    exact nomatch cursor
  | some i =>
    rw [found, Option.bind_some] at cursor
    simp only [findHexEnd, found, cursor, Option.map_some, Option.getD_some]

/-- The loops end above the start of the cursor's segment exactly when the segment has a
loaded byte with the low byte of its last address, or the loaded bytes with this low
byte all lie behind the segment and there is one. -/
theorem defaultEnd_above_iff (space : AddressSpace) (screen_ea : Nat) (curseg : Segment)
    (cursor : space.getseg screen_ea = some curseg) :
    let found := (∃ ea, Met space curseg.endEA ea ∧ curseg.startEA ≤ ea ∧ ea < curseg.endEA) ∨
      (∀ ea < curseg.startEA, ¬Met space curseg.endEA ea) ∧
        ∃ ea, Met space curseg.endEA ea ∧ curseg.endEA ≤ ea
    (EndsAbove space (findHexEnd space screen_ea) curseg.startEA ↔ found) ∧
      (EndsAbove space (dumpEnd space screen_ea) curseg.startEA ↔ found) := by
  have range : curseg.endEA < space.addresses :=
    Nat.lt_succ_of_le (space.upper curseg (AddressSpace.getseg_mem cursor).1)
  rw [findHexEnd_eq cursor, dumpEnd_eq cursor]
  exact ⟨endsAbove_iff range curseg.nonempty, endsAbove_iff range curseg.nonempty⟩

def sixteen : Segment where
  startEA := 0x1000
  endEA := 0x1010
  nonempty := Nat.lt_add_of_pos_right (Nat.succ_pos 15)

/-- Only the last byte of the segment is loaded. -/
def lastByte : AddressSpace where
  ea64 := false
  segments := [sixteen]
  isLoaded ea := ea == 0x100F
  ascending := List.pairwise_singleton _ _
  upper curseg member := by
    rw [List.mem_singleton.mp member]
    decide
  loaded_lt ea loaded := by
    rw [eq_of_beq loaded]
    decide

theorem defaultEnd_above_lastByte :
    EndsAbove lastByte (findHexEnd lastByte 0x1008) 0x1000 ∧
      EndsAbove lastByte (dumpEnd lastByte 0x1008) 0x1000 := by
  have both := defaultEnd_above_iff lastByte 0x1008 sixteen rfl
  have met : Met lastByte 0x1010 0x100F := ⟨rfl, rfl⟩
  exact ⟨both.1.mpr (Or.inl ⟨0x100F, met, by decide, by decide⟩),
    both.2.mpr (Or.inl ⟨0x100F, met, by decide, by decide⟩)⟩

/-- Only the first byte of the segment is loaded. -/
def firstByte : AddressSpace where
  ea64 := false
  segments := [sixteen]
  isLoaded ea := ea == 0x1000
  ascending := List.pairwise_singleton _ _
  upper curseg member := by
    rw [List.mem_singleton.mp member]
    decide
  loaded_lt ea loaded := by
    rw [eq_of_beq loaded]
    decide

/-- The cursor's segment has a loaded byte, and no pass meets it. -/
theorem defaultEnd_endless :
    firstByte.getseg 0x1008 = some sixteen ∧ firstByte.isLoaded sixteen.startEA = true ∧
      ∀ nEndAddres, ¬Ends (lowerEnd firstByte) (findHexEnd firstByte 0x1008) nEndAddres ∧
        ¬Ends (lowerEnd firstByte) (dumpEnd firstByte 0x1008) nEndAddres := by
  have none : ∀ ea, ¬Met firstByte 0x1010 ea := by
    intro ea ⟨loaded, path⟩
    rw [eq_of_beq loaded] at path
    exact absurd path (by decide)
  have range : 0x1010 < firstByte.addresses := by decide
  exact ⟨rfl, rfl, fun _ => ⟨lowerEnd_never range none, lowerEnd_never range none⟩⟩

end IDAPlugins.DefaultRange
