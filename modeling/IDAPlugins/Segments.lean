import IDAPlugins.Walk
import Mathlib.Data.List.Induction

namespace IDAPlugins.Segments

/-! # Segments and instructions of a database

The plug-ins that look at the whole database take their range from the list of
segments, and go from instruction to instruction with `find_code`.
-/

structure Segment where
  startEA : Nat
  endEA : Nat
  nonempty : startEA < endEA

/-- `BADADDR`, the largest address of a build. -/
def badaddr (ea64 : Bool) : Nat :=
  if ea64 then 18446744073709551615 else 4294967295

/-- The segments in ascending order, the bytes that are loaded, and the addresses of
the instructions. -/
structure Database where
  ea64 : Bool
  segments : List Segment
  isLoaded : Nat → Bool
  heads : List Nat
  nonempty : segments ≠ []
  ascending : segments.Pairwise fun first second => first.endEA ≤ second.startEA
  upper : ∀ curseg ∈ segments, curseg.endEA ≤ badaddr ea64
  increasing : heads.Pairwise (· < ·)
  inside : ∀ ea ∈ heads, ∃ curseg ∈ segments, curseg.startEA ≤ ea ∧ ea < curseg.endEA

namespace Database

variable {db : Database}

/-- `getnseg(0)` -/
def first (db : Database) : Segment :=
  db.segments.head db.nonempty

/-- `find_code` with `SEARCH_DOWN | SEARCH_NEXT` -/
def findCode (db : Database) (ea : Nat) : Nat :=
  (db.heads.find? fun head => ea < head).getD (badaddr db.ea64)

def startaddr (db : Database) : Nat :=
  db.first.startEA

def endLoaded (db : Database) (curseg : Segment) : Bool :=
  db.isLoaded (curseg.endEA - 1)

/-- `endaddr` behind the loop over the segments after the first. -/
def endaddr (db : Database) : Nat :=
  db.segments.tail.foldl
    (fun endaddr curseg => if db.endLoaded curseg then curseg.endEA - 1 else endaddr)
    (db.first.endEA - 1)

def lastLoaded (db : Database) : Option Segment :=
  (db.segments.filter db.endLoaded).getLast?

theorem segments_eq (db : Database) : db.segments = db.first :: db.segments.tail :=
  (List.cons_head_tail db.nonempty).symm

theorem first_mem (db : Database) : db.first ∈ db.segments :=
  List.head_mem db.nonempty

/-- Keeping the last element with a property is a fold. -/
theorem foldl_last {keep : Segment → Bool} {value : Segment → Nat} (segments : List Segment)
    (start : Nat) :
    segments.foldl (fun kept curseg => if keep curseg then value curseg else kept) start =
      ((segments.filter keep).getLast?.map value).getD start := by
  induction segments using List.reverseRecOn with
  | nil => rfl
  | append_singleton segments curseg ih =>
    rw [List.foldl_append, ih, List.filter_append]
    cases kept : keep curseg with
    | true => simp [kept]
    | false => simp [kept]

/-- The bound of the loops is the last byte of that segment. -/
theorem endaddr_eq {curseg : Segment} (last : db.lastLoaded = some curseg) :
    db.endaddr = curseg.endEA - 1 := by
  rw [lastLoaded, segments_eq] at last
  rw [endaddr, foldl_last]
  by_cases loaded : db.endLoaded db.first = true
  · rw [List.filter_cons_of_pos loaded, List.getLast?_cons] at last
    rw [← Option.some.inj last]
    cases (db.segments.tail.filter db.endLoaded).getLast? <;> rfl
  · rw [List.filter_cons_of_neg loaded] at last
    rw [last]
    rfl

theorem first_lower (curseg : Segment) (member : curseg ∈ db.segments) :
    db.startaddr ≤ curseg.startEA := by
  have order := db.ascending
  rw [segments_eq] at order member
  cases member with
  | head => exact Nat.le_refl _
  | tail _ later =>
    have before := (List.pairwise_cons.mp order).1 curseg later
    exact Nat.le_trans (Nat.le_of_lt db.first.nonempty) before

theorem startaddr_le_head {ea : Nat} (head : ea ∈ db.heads) : db.startaddr ≤ ea := by
  obtain ⟨curseg, member, lower, -⟩ := db.inside ea head
  exact Nat.le_trans (first_lower curseg member) lower

theorem endaddr_lt (db : Database) : db.endaddr < badaddr db.ea64 := by
  have below (curseg : Segment) (member : curseg ∈ db.segments) :
      curseg.endEA - 1 < badaddr db.ea64 := by
    have upper := db.upper curseg member
    have nonempty := curseg.nonempty
    omega
  rw [endaddr, foldl_last]
  cases last : (db.segments.tail.filter db.endLoaded).getLast? with
  | none => exact below db.first db.first_mem
  | some curseg =>
    have kept := List.mem_of_getLast? last
    exact below curseg (List.mem_of_mem_tail (List.mem_filter.mp kept).1)

/-- `find_code` gives the least instruction above an address, or `BADADDR`. -/
theorem findCode_cases (db : Database) (ea : Nat) :
    (db.findCode ea ∈ db.heads ∧ ea < db.findCode ea ∧
      ∀ head ∈ db.heads, ea < head → db.findCode ea ≤ head) ∨
    db.findCode ea = badaddr db.ea64 ∧ ∀ head ∈ db.heads, ¬ea < head := by
  rw [findCode]
  cases found : db.heads.find? fun head => ea < head with
  | none =>
    refine Or.inr ⟨rfl, fun head member => ?_⟩
    have none := List.find?_eq_none.mp found head member
    simpa using none
  | some next =>
    obtain ⟨passes, before, after, split, skipped⟩ := List.find?_eq_some_iff_append.mp found
    refine Or.inl ⟨List.mem_of_find?_eq_some found, of_decide_eq_true passes, ?_⟩
    intro head member higher
    rw [split] at member
    rcases List.mem_append.mp member with early | late
    · have low := skipped head early
      simp [higher] at low
    · cases late with
      | head => exact Nat.le_refl _
      | tail _ later =>
        have order := db.increasing
        rw [split] at order
        exact Nat.le_of_lt ((List.pairwise_cons.mp (List.pairwise_append.mp order).2.1).1 head later)

theorem findCode_finds_upTo (db : Database) {stop : Nat} (below : stop ≤ badaddr db.ea64) :
    Walk.Finds {ea | ea ∈ db.heads} stop db.findCode := by
  constructor
  · intro ea inside
    rcases db.findCode_cases ea with ⟨-, above, -⟩ | ⟨none, -⟩
    · exact above
    · omega
  · intro ea inside following
    rcases db.findCode_cases ea with ⟨head, -, -⟩ | ⟨none, -⟩
    · exact head
    · omega
  · intro ea head member higher
    rcases db.findCode_cases ea with ⟨-, -, least⟩ | ⟨-, nothing⟩
    · exact least head member higher
    · exact absurd higher (nothing head member)

theorem findCode_finds (db : Database) : Walk.Finds {ea | ea ∈ db.heads} db.endaddr db.findCode :=
  db.findCode_finds_upTo (Nat.le_of_lt db.endaddr_lt)

/-- A walk from the first segment visits every instruction up to the last byte of the
last segment with a loaded final byte exactly when none stands on that byte. -/
theorem walk_visits_iff {curseg : Segment} (last : db.lastLoaded = some curseg) {fuel : Nat}
    (enough : db.endaddr - db.startaddr ≤ fuel) :
    (∀ ea ∈ db.heads, ea ≤ curseg.endEA - 1 →
        ea ∈ Walk.walk db.findCode db.endaddr fuel db.startaddr) ↔
      curseg.endEA - 1 ∉ db.heads := by
  rw [← endaddr_eq last]
  constructor
  · intro visits head
    have visited := visits _ head (Nat.le_refl _)
    rw [Walk.mem_walk_iff db.findCode_finds enough] at visited
    exact Nat.lt_irrefl _ visited.1
  · intro free ea head upper
    rw [Walk.mem_walk_iff db.findCode_finds enough]
    have apart : ea ≠ db.endaddr := fun same => free (same ▸ head)
    refine ⟨Nat.lt_of_le_of_ne upper apart, ?_⟩
    rcases Nat.lt_or_eq_of_le (startaddr_le_head head) with behind | start
    · exact Or.inr ⟨behind, head⟩
    · exact Or.inl start.symm

end Database

end IDAPlugins.Segments
