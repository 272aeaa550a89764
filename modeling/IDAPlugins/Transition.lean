import Mathlib.Tactic.Basic

namespace IDAPlugins.Transition

/-! # Systems that take one event at a time

A run starts in an initial state and takes events; `allowed` restricts which
events a run may take in which state, so that one system serves both for all its
runs and for the runs that keep to a discipline.
-/

structure System (σ ε : Type) where
  initial : σ → Prop
  step : σ → ε → Option σ

variable {σ ε : Type} {system : System σ ε} {allowed : σ → ε → Bool}

inductive Reaches (system : System σ ε) (allowed : σ → ε → Bool) : σ → Prop where
  | initial {s : σ} (start : system.initial s) : Reaches system allowed s
  | step {s t : σ} {e : ε} (reached : Reaches system allowed s) (meets : allowed s e = true)
      (taken : system.step s e = some t) : Reaches system allowed t

/-- A run of given events, as long as each is allowed and possible. -/
def System.play (system : System σ ε) (allowed : σ → ε → Bool) : σ → List ε → Option σ
  | s, [] => some s
  | s, e :: events =>
    if allowed s e = true then (system.step s e).bind fun t => system.play allowed t events else none

/-- What every allowed step preserves holds in every state reached. -/
theorem Reaches.invariant {Invariant : σ → Prop}
    (start : ∀ s, system.initial s → Invariant s)
    (preserved : ∀ s e t, Invariant s → allowed s e = true → system.step s e = some t → Invariant t)
    {s : σ} (reached : Reaches system allowed s) : Invariant s := by
  induction reached with
  | initial first => exact start _ first
  | step _ meets taken ih => exact preserved _ _ _ ih meets taken

theorem Reaches.play {s t : σ} {events : List ε} (reached : Reaches system allowed s)
    (played : system.play allowed s events = some t) : Reaches system allowed t := by
  induction events generalizing s with
  | nil => exact Option.some.inj played ▸ reached
  | cons e events ih =>
    obtain ⟨meets, rest⟩ := Option.ite_none_right_eq_some.mp played
    obtain ⟨next, taken, rest⟩ := Option.bind_eq_some_iff.mp rest
    exact ih (reached.step meets taken) rest

end IDAPlugins.Transition
