import Mathlib.Data.Nat.Notation
import Mathlib.Tactic.Basic

namespace IDAPlugins.Loop

/-! # Loops with an explicit body

A C loop is a body on an explicit state. One pass over the body either goes
round again or leaves the loop with a result; `none` is a fault inside the body
(a read outside an array, a null string). `run` takes the number of passes as
fuel, so that a model stays executable, and `run_total` is the rule under which
a statement may ignore the fuel: an invariant, a measure that every further pass
lowers, and the postcondition at every exit.
-/

variable {σ ρ : Type}

inductive Pass (σ ρ : Type) where
  | again (state : σ)
  | leave (result : ρ)

def run (body : σ → Option (Pass σ ρ)) : Nat → σ → Option ρ
  | 0, _ => none
  | fuel + 1, state =>
    match body state with
    | none => none
    | some (.leave result) => some result
    | some (.again next) => run body fuel next

theorem run_leave {body : σ → Option (Pass σ ρ)} {state : σ} {result : ρ}
    (left : body state = some (.leave result)) (fuel : Nat) :
    run body (fuel + 1) state = some result := by
  simp only [run, left]

theorem run_again {body : σ → Option (Pass σ ρ)} {state next : σ}
    (passed : body state = some (.again next)) (fuel : Nat) :
    run body (fuel + 1) state = run body fuel next := by
  simp only [run, passed]

/-- One pass from a state of the invariant: it stays inside and lowers the
measure, or it leaves with a result the postcondition accepts. -/
def Sound (body : σ → Option (Pass σ ρ)) (Invariant : σ → Prop) (measure : σ → Nat)
    (Post : ρ → Prop) : Prop :=
  ∀ state, Invariant state →
    (∃ next, body state = some (.again next) ∧ Invariant next ∧ measure next < measure state) ∨
      ∃ result, body state = some (.leave result) ∧ Post result

/-- Total correctness of a loop: any fuel above the measure is enough. -/
theorem run_total {body : σ → Option (Pass σ ρ)} {Invariant : σ → Prop}
    {measure : σ → Nat} {Post : ρ → Prop} (sound : Sound body Invariant measure Post)
    {fuel : Nat} {state : σ} (holds : Invariant state) (enough : measure state < fuel) :
    ∃ result, run body fuel state = some result ∧ Post result := by
  induction fuel generalizing state with
  | zero => exact absurd enough (Nat.not_lt_zero _)
  | succ fuel ih =>
    rcases sound state holds with ⟨next, passed, kept, lower⟩ | ⟨result, left, post⟩
    · rw [run_again passed]
      exact ih kept (by omega)
    · exact ⟨result, run_leave left fuel, post⟩

/-- A loop that in every state of an invariant goes round again or faults has no result. -/
theorem run_stuck {body : σ → Option (Pass σ ρ)} {Invariant : σ → Prop}
    (stuck : ∀ state, Invariant state →
      body state = none ∨ ∃ next, body state = some (.again next) ∧ Invariant next)
    (fuel : Nat) {state : σ} (holds : Invariant state) : run body fuel state = none := by
  induction fuel generalizing state with
  | zero => rfl
  | succ fuel ih =>
    rcases stuck state holds with fault | ⟨next, passed, kept⟩
    · simp only [run, fault]
    · rw [run_again passed]
      exact ih kept

theorem run_mono {body : σ → Option (Pass σ ρ)} {fuel more : Nat} {state : σ} {result : ρ}
    (done : run body fuel state = some result) (enough : fuel ≤ more) :
    run body more state = some result := by
  induction fuel generalizing state more with
  | zero => exact absurd done (by simp only [run, reduceCtorEq, not_false_eq_true])
  | succ fuel ih =>
    obtain ⟨more, rfl⟩ : ∃ rest, more = rest + 1 := ⟨more - 1, by omega⟩
    rw [run] at done ⊢
    cases pass : body state with
    | none => rw [pass] at done; exact done
    | some outcome =>
      rw [pass] at done
      cases outcome with
      | leave answer => exact done
      | again next => exact ih done (Nat.le_of_succ_le_succ enough)

/-- What every further pass keeps still holds in the state that the loop leaves. -/
theorem run_last {body : σ → Option (Pass σ ρ)} (Invariant : σ → Prop)
    (keeps : ∀ state next, Invariant state → body state = some (.again next) → Invariant next)
    {fuel : Nat} {state : σ} {result : ρ} (holds : Invariant state)
    (done : run body fuel state = some result) :
    ∃ last, Invariant last ∧ body last = some (.leave result) := by
  induction fuel generalizing state with
  | zero => cases done
  | succ fuel ih =>
    rw [run] at done
    cases pass : body state with
    | none =>
      rw [pass] at done
      cases done
    | some outcome =>
      rw [pass] at done
      cases outcome with
      | leave answer =>
        cases done
        exact ⟨state, holds, pass⟩
      | again next => exact ih (keeps state next holds pass) done

/-- A loop whose passes are all passes of another one has its results. -/
theorem run_refines {body other : σ → Option (Pass σ ρ)}
    (refines : ∀ state outcome, body state = some outcome → other state = some outcome)
    {fuel : Nat} {state : σ} {result : ρ} (done : run body fuel state = some result) :
    run other fuel state = some result := by
  induction fuel generalizing state with
  | zero => cases done
  | succ fuel ih =>
    rw [run] at done ⊢
    cases pass : body state with
    | none =>
      rw [pass] at done
      cases done
    | some outcome =>
      rw [refines state outcome pass]
      rw [pass] at done
      cases outcome with
      | leave answer => exact done
      | again next => exact ih done

/-- The loop ends, after whatever number of passes, with this result. -/
def Ends (body : σ → Option (Pass σ ρ)) (state : σ) (result : ρ) : Prop :=
  ∃ fuel, run body fuel state = some result

theorem Ends.unique {body : σ → Option (Pass σ ρ)} {state : σ} {first second : ρ}
    (ends : Ends body state first) (again : Ends body state second) : first = second := by
  obtain ⟨fuel, done⟩ := ends
  obtain ⟨more, also⟩ := again
  have left := run_mono done (Nat.le_max_left fuel more)
  have right := run_mono also (Nat.le_max_right fuel more)
  exact Option.some.inj (left.symm.trans right)

/-- `run_total` without the fuel. -/
theorem Sound.ends {body : σ → Option (Pass σ ρ)} {Invariant : σ → Prop}
    {measure : σ → Nat} {Post : ρ → Prop} (sound : Sound body Invariant measure Post)
    {state : σ} (holds : Invariant state) : ∃ result, Ends body state result ∧ Post result := by
  obtain ⟨result, done, post⟩ := run_total sound holds (Nat.lt_succ_self (measure state))
  exact ⟨result, ⟨_, done⟩, post⟩

/-- The states in which a run starts its passes. -/
def states (body : σ → Option (Pass σ ρ)) : Nat → σ → List σ
  | 0, _ => []
  | fuel + 1, state =>
    match body state with
    | some (.again next) => state :: states body fuel next
    | _ => [state]

/-- A loop whose first states are known passes through them. -/
theorem run_trace {body : σ → Option (Pass σ ρ)} (trace : Nat → σ) (length : Nat)
    (passes : ∀ k < length, body (trace k) = some (.again (trace (k + 1)))) (fuel : Nat) :
    run body (fuel + length) (trace 0) = run body fuel (trace length) := by
  induction length generalizing trace with
  | zero => rfl
  | succ length ih =>
    have first := passes 0 (Nat.succ_pos _)
    rw [← Nat.add_assoc, run_again first]
    exact ih (fun k => trace (k + 1)) fun k bound => passes (k + 1) (Nat.succ_lt_succ bound)

/-- Two loops in step: from related states both go on to related states, lowering the
measure, or both leave with related results. -/
def InStep {τ θ : Type} (body : σ → Option (Pass σ ρ)) (other : τ → Option (Pass τ θ))
    (Related : σ → τ → Prop) (measure : σ → Nat) (Post : ρ → θ → Prop) : Prop :=
  ∀ state partner, Related state partner →
    (∃ next following, body state = some (.again next) ∧ other partner = some (.again following) ∧
        Related next following ∧ measure next < measure state) ∨
      ∃ result answer, body state = some (.leave result) ∧ other partner = some (.leave answer) ∧
        Post result answer

/-- Loops in step end together, with related results. -/
theorem run_inStep {τ θ : Type} {body : σ → Option (Pass σ ρ)} {other : τ → Option (Pass τ θ)}
    {Related : σ → τ → Prop} {measure : σ → Nat} {Post : ρ → θ → Prop}
    (inStep : InStep body other Related measure Post) {fuel : Nat} {state : σ} {partner : τ}
    (related : Related state partner) (enough : measure state < fuel) :
    ∃ result answer, run body fuel state = some result ∧ run other fuel partner = some answer ∧
      Post result answer := by
  induction fuel generalizing state partner with
  | zero => exact absurd enough (Nat.not_lt_zero _)
  | succ fuel ih =>
    rcases inStep state partner related with
      ⟨next, following, passed, followed, kept, lower⟩ | ⟨result, answer, left, parted, post⟩
    · rw [run_again passed, run_again followed]
      exact ih kept (by omega)
    · exact ⟨result, answer, run_leave left fuel, run_leave parted fuel, post⟩

/-- A loop that only counts: its body does not look at the counter. -/
def times (body : σ → Option σ) : Nat → σ → Option σ
  | 0, state => some state
  | count + 1, state => (body state).bind (times body count)

theorem times_add (body : σ → Option σ) (first second : Nat) (state : σ) :
    times body (first + second) state = (times body first state).bind (times body second) := by
  induction first generalizing state with
  | zero => rw [Nat.zero_add, times, Option.bind_some]
  | succ first ih =>
    rw [Nat.succ_add, times, times, Option.bind_assoc]
    exact congrArg _ (funext ih)

/-- Two nested counting loops are one. -/
theorem times_times (body : σ → Option σ) (outer inner : Nat) (state : σ) :
    times (times body inner) outer state = times body (outer * inner) state := by
  induction outer generalizing state with
  | zero => rw [Nat.zero_mul, times, times]
  | succ outer ih =>
    rw [times, Nat.succ_mul, Nat.add_comm (outer * inner), times_add]
    exact congrArg _ (funext ih)

/-- A fold in which an item may replace a value holds the latest of the values. -/
theorem foldl_latest {α β : Type} {take : σ → α → σ} {get : σ → Option β} {value : α → Option β}
    (replaces : ∀ state item, get (take state item) = (value item).or (get state))
    (items : List α) (state : σ) :
    get (items.foldl take state) = (items.filterMap value).getLast?.or (get state) := by
  induction items generalizing state with
  | nil => rfl
  | cons item rest ih =>
    rw [List.foldl_cons, ih, replaces]
    cases new : value item with
    | none => simp [new]
    | some first =>
      cases later : (rest.filterMap value).getLast? with
      | none => simp [new, List.getLast?_cons, later]
      | some last => simp [new, List.getLast?_cons, later]

/-- What every step of a fold that may fail keeps, the whole fold keeps. -/
theorem foldlM_keeps {α : Type} {step : σ → α → Option σ} (Invariant : σ → Prop)
    (keeps : ∀ state item next, step state item = some next → Invariant state → Invariant next)
    {items : List α} {state final : σ} (done : items.foldlM step state = some final)
    (holds : Invariant state) : Invariant final := by
  induction items generalizing state with
  | nil => exact Option.some.inj done ▸ holds
  | cons item rest ih =>
    rw [List.foldlM_cons] at done
    obtain ⟨next, first, others⟩ := Option.bind_eq_some_iff.mp done
    exact ih others (keeps state item next first holds)

/-- Where an invariant decides which items a step takes, the fold succeeds exactly when it
takes each of them. -/
theorem foldlM_isSome_iff {α : Type} {step : σ → α → Option σ} (Invariant : σ → Prop)
    (Good : α → Prop)
    (each : ∀ state item, Invariant state → ((step state item).isSome ↔ Good item))
    (keeps : ∀ state item next, step state item = some next → Invariant state → Invariant next)
    {items : List α} {state : σ} (holds : Invariant state) :
    (items.foldlM step state).isSome ↔ ∀ item ∈ items, Good item := by
  induction items generalizing state with
  | nil => simp
  | cons item rest ih =>
    rw [List.foldlM_cons, List.forall_mem_cons, ← each state item holds]
    cases first : step state item with
    | none => simp
    | some next => simpa using ih (keeps state item next first holds)

end IDAPlugins.Loop
