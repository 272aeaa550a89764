import IDAPlugins.CommentList.Scanning
import IDAPlugins.FindCode.Building

namespace IDAPlugins.Scans

open Segments FindCode CommentList

/-! # Scans of the whole database

`CreateCodeSnapshoot` and `AddListData` walk over the same range. Their bound is the
last byte of a segment, and they stop in front of it.
-/

/-- What the snapshot reads of a line. -/
structure Lines where
  disasmLine : Nat → List UInt8
  stack : Nat → UInt32
  plain : ∀ iaddr, 0 ∉ disasmLine iaddr ∧ 0x0A ∉ disasmLine iaddr

/-- The listing that `CreateCodeSnapshoot` walks over. -/
def listing (db : Database) (lines : Lines) : Listing where
  ea64 := db.ea64
  startaddr := db.startaddr
  endaddr := db.endaddr
  disasmLine := lines.disasmLine
  findCode := db.findCode
  stack := lines.stack
  range := by
    have below := db.endaddr_lt
    rw [badaddr] at below
    split at below <;> simp_all <;> omega
  advances _ _ inside := db.findCode_finds.above _ inside
  plain := lines.plain

def Completed : Built → Prop
  | .built _ _ => True
  | _ => False

/-- The addresses whose lines `CreateCodeSnapshoot` puts into its buffer. -/
def snapshotVisits (listing : Listing) (isWindow : Nat → Bool) : List Nat :=
  match emptyBuffer.put [0x0A] with
  | none => []
  | some asmbuf =>
    Walk.visited (snapshootPass listing isWindow) Snapshooting.iaddr listing.endaddr
      (listing.endaddr - listing.startaddr + 1)
      { iaddr := listing.startaddr, asmbuf, vectorIndex := [], nSendPlan := 0 }

/-- Inside the range a pass goes on to the next instruction, or breaks the loop off. -/
theorem snapshootPass_inside {listing : Listing} {isWindow : Nat → Bool} {state : Snapshooting}
    (inside : state.iaddr < listing.endaddr) :
    (∃ following, snapshootPass listing isWindow state = some (.again following) ∧
        following.iaddr = listing.findCode state.iaddr) ∨
      ∃ outcome, snapshootPass listing isWindow state = some (.leave outcome) ∧ ¬Completed outcome := by
  rw [snapshootPass, if_pos inside]
  simp only []
  cases (state.asmbuf.put (filterSpacing (listing.disasmLine state.iaddr))).bind (·.put [0x0A]) with
  | none => exact Or.inr ⟨.exhausted, rfl, id⟩
  | some asmbuf =>
    by_cases asked : listing.unsignedPlan state.nSendPlan < listing.plan (listing.dwasmaddr state.iaddr)
    · simp only [if_pos asked]
      cases isWindow state.iaddr with
      | true => exact Or.inl ⟨_, rfl, rfl⟩
      | false => exact Or.inr ⟨.closed, rfl, id⟩
    · simp only [if_neg asked]
      exact Or.inl ⟨_, rfl, rfl⟩

theorem snapshootPass_walks (listing : Listing) (isWindow : Nat → Bool) :
    Walk.Walks (snapshootPass listing isWindow) Snapshooting.iaddr listing.findCode listing.endaddr
      Completed := by
  constructor
  · intro state following pass
    by_cases inside : state.iaddr < listing.endaddr
    · refine ⟨inside, ?_⟩
      rcases snapshootPass_inside inside with ⟨next, passed, moved⟩ | ⟨outcome, left, -⟩
      · rw [pass] at passed
        cases passed
        exact moved
      · rw [pass] at left
        cases left
    · rw [snapshootPass, if_neg inside] at pass
      cases pass
  · intro state outcome pass complete inside
    rcases snapshootPass_inside inside with ⟨next, passed, -⟩ | ⟨other, left, broken⟩
    · rw [pass] at passed
      cases passed
    · rw [pass] at left
      cases left
      exact broken complete

/-- A snapshot that is built holds the line of every address of the walk. -/
theorem snapshotVisits_eq {db : Database} {lines : Lines} {isWindow : Nat → Bool}
    {asmbuf : AutoBuffer} {vectorIndex : List StrBufIndex}
    (built : buildSnapshoot (listing db lines) isWindow = some (.built asmbuf vectorIndex)) :
    snapshotVisits (listing db lines) isWindow =
      Walk.walk db.findCode db.endaddr (db.endaddr - db.startaddr + 1) db.startaddr := by
  rw [buildSnapshoot] at built
  rw [snapshotVisits]
  cases start : emptyBuffer.put [0x0A] with
  | none =>
    rw [start] at built
    cases built
  | some first =>
    rw [start] at built
    exact Walk.visited_eq_walk (snapshootPass_walks (listing db lines) isWindow) built trivial

/-- Both scans, whenever they run to their end, visit every instruction up to and with
the last byte of the last segment whose final byte is loaded exactly when there is no
instruction on that byte. -/
theorem scans_visit_iff (db : Database) (curseg : Segment) (last : db.lastLoaded = some curseg) :
    (∀ lines isWindow asmbuf vectorIndex,
      buildSnapshoot (listing db lines) isWindow = some (.built asmbuf vectorIndex) →
        ((∀ ea ∈ db.heads, ea ≤ curseg.endEA - 1 →
            ea ∈ snapshotVisits (listing db lines) isWindow) ↔
          curseg.endEA - 1 ∉ db.heads)) ∧
    ∀ get_cmt collected, addListData db get_cmt = some collected →
      ((∀ ea ∈ db.heads, ea ≤ curseg.endEA - 1 → ea ∈ addListVisits db get_cmt) ↔
        curseg.endEA - 1 ∉ db.heads) := by
  constructor
  · intro lines isWindow asmbuf vectorIndex built
    rw [snapshotVisits_eq built]
    exact Database.walk_visits_iff last (Nat.le_succ _)
  · intro get_cmt collected ran
    rw [addListVisits_eq ran]
    exact Database.walk_visits_iff last (Nat.le_succ _)

/-- One segment of four bytes with an instruction of one byte at its end. -/
def lastByte : Database where
  ea64 := false
  segments := [{ startEA := 0x1000, endEA := 0x1004, nonempty := by decide }]
  isLoaded _ := true
  heads := [0x1000, 0x1003]
  nonempty := by decide
  ascending := List.pairwise_singleton _ _
  upper := List.forall_iff_forall_mem.mp (by decide)
  increasing := by decide
  inside := List.forall_iff_forall_mem.mp (by decide)

def noText : Lines where
  disasmLine _ := []
  stack _ := 0
  plain _ := ⟨List.not_mem_nil, List.not_mem_nil⟩

theorem scans_visit_last :
    (∀ ea ∈ lastByte.heads, ea ≤ 0x1003 → ea ∈ addListVisits lastByte fun _ _ => none) ↔
      0x1003 ∉ lastByte.heads := by
  have last : lastByte.lastLoaded = some lastByte.first := rfl
  exact (scans_visit_iff lastByte lastByte.first last).2 (fun _ _ => none) _ rfl

/-- Both scans run to their end and visit the first instruction only. -/
theorem scans_miss_last_byte :
    lastByte.lastLoaded = some lastByte.first ∧ lastByte.first.endEA = 0x1004 ∧
    (∃ asmbuf vectorIndex,
      buildSnapshoot (listing lastByte noText) (fun _ => true) = some (.built asmbuf vectorIndex)) ∧
    snapshotVisits (listing lastByte noText) (fun _ => true) = [0x1000] ∧
    (∃ collected, addListData lastByte (fun _ _ => none) = some collected) ∧
    addListVisits lastByte (fun _ _ => none) = [0x1000] ∧ 0x1003 ∈ lastByte.heads := by
  refine ⟨rfl, rfl, ⟨_, _, rfl⟩, by decide, ⟨_, rfl⟩, by decide, by decide⟩

end IDAPlugins.Scans
