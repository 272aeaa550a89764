import IDAPlugins.Loop
import Mathlib.Data.Set.Defs

namespace IDAPlugins.Walk

open Loop

/-! # Loops over addresses

A loop of the form `for (a = start; a < stop; a = next(a))` visits the addresses of a
walk. When `next` gives the least item above its argument, the walk misses no item in
front of `stop`.
-/

def walk (next : Nat → Nat) (stop : Nat) : Nat → Nat → List Nat
  | 0, _ => []
  | fuel + 1, a => if a < stop then a :: walk next stop fuel (next a) else []

/-- `next` finds the items in their order. -/
structure Finds (items : Set Nat) (stop : Nat) (next : Nat → Nat) : Prop where
  above : ∀ a, a < stop → a < next a
  item : ∀ a, a < stop → next a < stop → next a ∈ items
  least : ∀ a, ∀ h ∈ items, a < h → next a ≤ h

/-- The walk visits its start and every item behind it that lies in front of the stop. -/
theorem mem_walk_iff {items : Set Nat} {stop : Nat} {next : Nat → Nat}
    (finds : Finds items stop next) {fuel a : Nat} (enough : stop - a ≤ fuel) (h : Nat) :
    h ∈ walk next stop fuel a ↔ h < stop ∧ (h = a ∨ a < h ∧ h ∈ items) := by
  induction fuel generalizing a with
  | zero =>
    have outside : ¬(h < stop ∧ (h = a ∨ a < h ∧ h ∈ items)) := by omega
    exact iff_of_false List.not_mem_nil outside
  | succ fuel ih =>
    by_cases inside : a < stop
    · have further := finds.above a inside
      rw [walk, if_pos inside, List.mem_cons, ih (by omega)]
      constructor
      · intro visited
        cases visited with
        | inl first => exact ⟨first ▸ inside, Or.inl first⟩
        | inr later =>
          obtain ⟨below, later⟩ := later
          cases later with
          | inl second =>
            have found := finds.item a inside (second ▸ below)
            exact ⟨below, Or.inr ⟨second ▸ further, second ▸ found⟩⟩
          | inr rest => exact ⟨below, Or.inr ⟨Nat.lt_trans further rest.1, rest.2⟩⟩
      · intro ⟨below, either⟩
        cases either with
        | inl first => exact Or.inl first
        | inr rest =>
          have order := finds.least a h rest.2 rest.1
          cases Nat.lt_or_eq_of_le order with
          | inl beyond => exact Or.inr ⟨below, Or.inr ⟨beyond, rest.2⟩⟩
          | inr second => exact Or.inr ⟨below, Or.inl second.symm⟩
    · have outside : ¬(h < stop ∧ (h = a ∨ a < h ∧ h ∈ items)) := by omega
      rw [walk, if_neg inside]
      exact iff_of_false List.not_mem_nil outside

variable {σ ρ : Type} {body : σ → Option (Pass σ ρ)} {address : σ → Nat} {next : Nat → Nat}
  {stop : Nat} {Complete : ρ → Prop}

/-- The addresses with which a run enters the body of its loop. -/
def visited (body : σ → Option (Pass σ ρ)) (address : σ → Nat) (stop fuel : Nat) (state : σ) :
    List Nat :=
  ((states body fuel state).map address).filter (· < stop)

/-- The body leaves with a complete result at the stop and only there; before it, it
goes on to the next address, or breaks off. -/
structure Walks (body : σ → Option (Pass σ ρ)) (address : σ → Nat) (next : Nat → Nat) (stop : Nat)
    (Complete : ρ → Prop) : Prop where
  goes : ∀ state following, body state = some (.again following) →
    address state < stop ∧ address following = next (address state)
  stops : ∀ state result, body state = some (.leave result) → Complete result →
    ¬address state < stop

theorem visited_again (walks : Walks body address next stop Complete) {fuel : Nat}
    {state following : σ} (pass : body state = some (.again following)) :
    visited body address stop (fuel + 1) state =
      address state :: visited body address stop fuel following := by
  have inside := (walks.goes state following pass).1
  rw [visited, states, pass]
  simp [visited, inside]

theorem visited_leave (walks : Walks body address next stop Complete) {fuel : Nat} {state : σ}
    {result : ρ} (pass : body state = some (.leave result)) (complete : Complete result) :
    visited body address stop (fuel + 1) state = [] := by
  have outside := walks.stops state result pass complete
  rw [visited, states, pass]
  simp [outside]

/-- A complete run has visited the whole walk. -/
theorem visited_eq_walk (walks : Walks body address next stop Complete) {fuel : Nat} {state : σ}
    {result : ρ} (ran : run body fuel state = some result) (complete : Complete result) :
    visited body address stop fuel state = walk next stop fuel (address state) := by
  induction fuel generalizing state with
  | zero => cases ran
  | succ fuel ih =>
    cases pass : body state with
    | none =>
      rw [run, pass] at ran
      cases ran
    | some outcome =>
      cases outcome with
      | leave left =>
        have same : left = result := Option.some.inj ((run_leave pass fuel).symm.trans ran)
        have done : Complete left := same ▸ complete
        rw [visited_leave walks pass done, walk, if_neg (walks.stops state left pass done)]
      | again following =>
        obtain ⟨inside, moved⟩ := walks.goes state following pass
        rw [run_again pass] at ran
        rw [visited_again walks pass, ih ran, moved, walk, if_pos inside]

end IDAPlugins.Walk
