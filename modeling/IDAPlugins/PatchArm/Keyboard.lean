import IDAPlugins.Machine
import Mathlib.Data.List.Induction
import Mathlib.Data.Nat.Dist

namespace IDAPlugins.PatchArm.Keyboard

open Machine

/-! # The shortcut of the dialog

`KeyboardProc` starts the patch when return and control come within three seconds. It counts
the events of a key that was down before, which is let go or repeats itself. It keeps the two
times in static variables, and compares their distance as an `int`.
-/

inductive VirtualKey where
  | VK_RETURN
  | VK_CONTROL
  deriving DecidableEq

def VirtualKey.other : VirtualKey → VirtualKey
  | .VK_RETURN => .VK_CONTROL
  | .VK_CONTROL => .VK_RETURN

structure KeyEvent where
  /-- One of the two keys, if it is one of them. -/
  wParam : Option VirtualKey
  /-- Bit 30 of `lParam`: the key was down before the event -/
  wasDown : Bool
  /-- `GetTickCount` -/
  tick : Nat
  /-- The focus is on the dialog or on one of its controls. -/
  focus : Bool
  tick_lt : tick < 4294967296

structure Times where
  dw_CONTROL : Nat
  dw_RETURN : Nat

def Times.zero : Times where
  dw_CONTROL := 0
  dw_RETURN := 0

def Times.get (times : Times) : VirtualKey → Nat
  | .VK_RETURN => times.dw_RETURN
  | .VK_CONTROL => times.dw_CONTROL

def Times.set (times : Times) (tick : Nat) : VirtualKey → Times
  | .VK_RETURN => { times with dw_RETURN := tick }
  | .VK_CONTROL => { times with dw_CONTROL := tick }

/-- The difference of two `DWORD`s, returned as an `int`. -/
def intervalTime (dw_CONTROL dw_RETURN : Nat) : Int :=
  if dw_CONTROL > dw_RETURN then int32 ((dw_CONTROL : Int) - dw_RETURN)
  else int32 ((dw_RETURN : Int) - dw_CONTROL)

/-- The new times, and whether `OnButtonCalc` is called. -/
def keyboardProc (times : Times) (event : KeyEvent) : Times × Bool :=
  match event.wParam, event.wasDown with
  | some key, true =>
    let times := times.set event.tick key
    if intervalTime times.dw_CONTROL times.dw_RETURN < 3000 ∧ event.focus then (Times.zero, true)
    else (times, false)
  | _, _ => (times, false)

def play (times : Times) (events : List KeyEvent) : Times :=
  events.foldl (fun times event => (keyboardProc times event).1) times

/-- The event starts the patch, behind others. -/
def Fires (events : List KeyEvent) (event : KeyEvent) : Prop :=
  (keyboardProc (play Times.zero events) event).2 = true

/-- The key is let go, or repeats itself. -/
def KeyEvent.Held (event : KeyEvent) (key : VirtualKey) : Prop :=
  event.wParam = some key ∧ event.wasDown = true

instance (event : KeyEvent) (key : VirtualKey) : Decidable (event.Held key) :=
  inferInstanceAs (Decidable (_ ∧ _))

/-- When a key was let go or repeated itself last, if it did. -/
def lastHeld (key : VirtualKey) (events : List KeyEvent) : Option Nat :=
  (events.filter fun event => event.Held key).getLast?.map (·.tick)

/-- Less than three seconds apart, or so far that the distance is negative as an `int`. -/
def Near (first second : Nat) : Prop :=
  first.dist second < 3000 ∨ 2147483648 ≤ first.dist second

variable {times : Times} {events earlier recent : List KeyEvent} {event : KeyEvent} {key : VirtualKey}

theorem get_set (tick : Nat) (key other : VirtualKey) :
    (times.set tick key).get other = if other = key then tick else times.get other := by
  cases key <;> cases other <;> rfl

theorem intervalTime_lt_iff {first second : Nat} (small : first < 4294967296)
    (below : second < 4294967296) : intervalTime first second < 3000 ↔ Near first second := by
  rw [intervalTime, Near, Nat.dist, int32, int32]
  split <;> split <;> omega

theorem near_comm {first second : Nat} : Near first second ↔ Near second first := by
  rw [Near, Near, Nat.dist_comm]

/-- What an event does to the times, and when it starts the patch. -/
theorem keyboardProc_held (held : event.Held key)
    (small : times.get key.other < 4294967296) :
    ((keyboardProc times event).2 = true ↔
        event.focus = true ∧ Near event.tick (times.get key.other)) ∧
      (keyboardProc times event).1 =
        if (keyboardProc times event).2 then Times.zero else times.set event.tick key := by
  obtain ⟨isKey, wasDown⟩ := held
  have near : intervalTime (times.set event.tick key).dw_CONTROL
      (times.set event.tick key).dw_RETURN < 3000 ↔ Near event.tick (times.get key.other) := by
    cases key with
    | VK_RETURN => exact (intervalTime_lt_iff small event.tick_lt).trans near_comm
    | VK_CONTROL => exact intervalTime_lt_iff event.tick_lt small
  rw [keyboardProc, isKey, wasDown, ← near]
  by_cases fires : intervalTime (times.set event.tick key).dw_CONTROL
      (times.set event.tick key).dw_RETURN < 3000 ∧ event.focus = true
  · simp only [if_pos fires]
    exact ⟨iff_of_true trivial fires.symm, rfl⟩
  · simp only [if_neg fires]
    exact ⟨iff_of_false Bool.false_ne_true fun both => fires both.symm, rfl⟩

theorem keyboardProc_other (other : ∀ key, ¬ event.Held key) :
    keyboardProc times event = (times, false) := by
  rw [keyboardProc]
  split
  · rename_i key isKey wasDown
    exact absurd ⟨isKey, wasDown⟩ (other key)
  · rfl

theorem play_append (first second : List KeyEvent) :
    play times (first ++ second) = play (play times first) second :=
  List.foldl_append

theorem play_small (events : List KeyEvent) (small : ∀ key, times.get key < 4294967296) :
    ∀ key, (play times events).get key < 4294967296 := by
  induction events generalizing times with
  | nil => exact small
  | cons event events ih =>
    refine ih fun key => ?_
    change (keyboardProc times event).1.get key < 4294967296
    by_cases held : ∃ key, event.Held key
    · obtain ⟨seen, held⟩ := held
      rw [(keyboardProc_held held (small _)).2]
      split
      · cases key <;> exact Nat.zero_lt_succ _
      · rw [get_set]
        split
        · exact event.tick_lt
        · exact small key
    · rw [keyboardProc_other (not_exists.mp held)]
      exact small key

theorem lastHeld_append (events : List KeyEvent) (event : KeyEvent) (key : VirtualKey) :
    lastHeld key (events ++ [event]) =
      if event.Held key then some event.tick else lastHeld key events := by
  by_cases held : event.Held key
  · simp [lastHeld, List.filter_append, held]
  · simp [lastHeld, List.filter_append, held]

/-- While nothing starts the patch, the times are those at which the keys were held last. -/
theorem play_quiet (small : ∀ key, times.get key < 4294967296) (recent : List KeyEvent)
    (quiet : ∀ front event back, recent = front ++ event :: back →
      ¬ (keyboardProc (play times front) event).2 = true) (key : VirtualKey) :
    (play times recent).get key = (lastHeld key recent).getD (times.get key) := by
  induction recent using List.reverseRecOn generalizing key with
  | nil => rfl
  | append_singleton recent event ih =>
    have before (key : VirtualKey) := ih (fun front other back split =>
      quiet front other (back ++ [event]) (by rw [split, List.append_assoc, List.cons_append])) key
    have silent := quiet recent event [] rfl
    have step : play times (recent ++ [event]) = (keyboardProc (play times recent) event).1 := by
      rw [play_append]
      rfl
    rw [step, lastHeld_append]
    by_cases held : ∃ key, event.Held key
    · obtain ⟨seen, held⟩ := held
      rw [(keyboardProc_held held (play_small recent small _)).2, if_neg silent, get_set]
      by_cases same : key = seen
      · rw [if_pos same, if_pos (same ▸ held), Option.getD_some]
      · have other : ¬ event.Held key := fun also =>
          same (Option.some.inj (also.1.symm.trans held.1))
        rw [if_neg same, if_neg other, before key]
    · rw [keyboardProc_other (not_exists.mp held), if_neg (not_exists.mp held key), before key]

/-- Behind the start, or behind the last event that started the patch, an event starts it
exactly when one of the two keys was down before it, with the focus on the dialog, near the
time of the last such event of the other key since then, or near zero when there was none. -/
theorem fires_iff
    (start : earlier = [] ∨ ∃ before last, earlier = before ++ [last] ∧ Fires before last)
    (quiet : ∀ front event back, recent = front ++ event :: back → ¬ Fires (earlier ++ front) event) :
    Fires (earlier ++ recent) event ↔
      event.focus = true ∧ ∃ key, event.Held key ∧
        Near event.tick ((lastHeld key.other recent).getD 0) := by
  have zero (key : VirtualKey) : Times.zero.get key = 0 := by cases key <;> rfl
  have zeros (key : VirtualKey) : Times.zero.get key < 4294967296 := by
    rw [zero]
    decide
  have reset : play Times.zero earlier = Times.zero := by
    rcases start with rfl | ⟨before, last, rfl, fired⟩
    · rfl
    · have step : play Times.zero (before ++ [last]) =
          (keyboardProc (play Times.zero before) last).1 := by
        rw [play_append]
        rfl
      rw [Fires] at fired
      by_cases held : ∃ key, last.Held key
      · obtain ⟨key, held⟩ := held
        rw [step, (keyboardProc_held held (play_small before zeros _)).2, if_pos fired]
      · rw [keyboardProc_other (not_exists.mp held)] at fired
        cases fired
  simp only [Fires, play_append, reset] at quiet ⊢
  by_cases held : ∃ key, event.Held key
  · obtain ⟨key, held⟩ := held
    rw [(keyboardProc_held held (play_small recent zeros _)).1, play_quiet zeros recent quiet,
      zero]
    refine and_congr_right fun _ => ⟨fun near => ⟨key, held, near⟩, ?_⟩
    rintro ⟨other, also, near⟩
    rwa [← Option.some.inj (also.1.symm.trans held.1)]
  · rw [keyboardProc_other (not_exists.mp held)]
    exact iff_of_false Bool.false_ne_true fun ⟨_, key, also, _⟩ => held ⟨key, also⟩

/-- Control let go 25 days after the start of the system. -/
def lateControl : KeyEvent where
  wParam := some .VK_CONTROL
  wasDown := true
  tick := 2160000000
  focus := true
  tick_lt := by decide

theorem fires_late_control : Fires [] lateControl :=
  (@fires_iff [] [] lateControl (Or.inl rfl)
    (fun front event back split => by cases front <;> cases split)).mpr
    ⟨rfl, .VK_CONTROL, by decide, Or.inr (by decide)⟩

end IDAPlugins.PatchArm.Keyboard
