import Mathlib.Data.List.Forall2
import Mathlib.Order.Bounds.Basic

namespace IDAPlugins.Search.Glob

/-! # Globs

A glob is a list of symbols: `star` stands for any list, `question` for any one
element and a literal for an element that is the same as its own.
-/

inductive Symbol (β : Type) where
  | star
  | question
  | literal (b : β)
  deriving DecidableEq

variable {α β γ δ : Type}

def Symbol.map (f : β → δ) : Symbol β → Symbol δ
  | star => star
  | question => question
  | literal b => literal (f b)

def Symbol.Takes (same : α → β → Prop) (a : α) : Symbol β → Prop
  | star => False
  | question => True
  | literal b => same a b

inductive Matches (same : α → β → Prop) : List α → List (Symbol β) → Prop where
  | nil : Matches same [] []
  | take {a : α} {symbol : Symbol β} {text : List α} {rest : List (Symbol β)}
      (takes : symbol.Takes same a) (more : Matches same text rest) :
      Matches same (a :: text) (symbol :: rest)
  | done {text : List α} {rest : List (Symbol β)} (more : Matches same text rest) :
      Matches same text (.star :: rest)
  | absorb {a : α} {text : List α} {rest : List (Symbol β)} (more : Matches same text (.star :: rest)) :
      Matches same (a :: text) (.star :: rest)

/-- The symbols take the first elements of the text, one each. -/
def Fits (same : α → β → Prop) (segment : List (Symbol β)) (text : List α) : Prop :=
  List.Forall₂ (fun symbol a => symbol.Takes same a) segment (text.take segment.length)

variable {same : α → β → Prop} {text : List α} {symbol : Symbol β} {segment rest : List (Symbol β)}

theorem matches_nil_iff : Matches same text [] ↔ text = [] := by
  constructor
  · intro holds
    cases holds
    rfl
  · rintro rfl
    exact .nil

theorem matches_take_iff (notStar : symbol ≠ .star) :
    Matches same text (symbol :: rest) ↔
      ∃ a remaining, text = a :: remaining ∧ symbol.Takes same a ∧ Matches same remaining rest := by
  constructor
  · intro holds
    cases holds with
    | take takes more => exact ⟨_, _, rfl, takes, more⟩
    | done more => exact absurd rfl notStar
    | absorb more => exact absurd rfl notStar
  · rintro ⟨a, remaining, rfl, takes, more⟩
    exact .take takes more

theorem matches_cons_iff {a : α} (takes : symbol.Takes same a) :
    Matches same (a :: text) (symbol :: rest) ↔ Matches same text rest := by
  have notStar : symbol ≠ .star := by
    rintro rfl
    exact takes
  rw [matches_take_iff notStar]
  constructor
  · rintro ⟨b, remaining, shape, -, more⟩
    obtain ⟨rfl, rfl⟩ := List.cons.inj shape
    exact more
  · exact fun more => ⟨a, text, rfl, takes, more⟩

/-- A star leaves some end of the text to the symbols behind it. -/
theorem matches_star_iff :
    Matches same text (.star :: rest) ↔ ∃ k, Matches same (text.drop k) rest := by
  constructor
  · intro holds
    generalize shape : Symbol.star :: rest = symbols at holds
    induction holds with
    | nil => cases shape
    | take takes more =>
      obtain ⟨rfl, -⟩ := List.cons.inj shape
      exact absurd takes id
    | done more =>
      obtain ⟨-, rfl⟩ := List.cons.inj shape
      exact ⟨0, more⟩
    | absorb more ih =>
      obtain ⟨k, left⟩ := ih shape
      exact ⟨k + 1, left⟩
  · rintro ⟨k, left⟩
    induction k generalizing text with
    | zero => exact .done left
    | succ k ih =>
      cases text with
      | nil => exact .done (by simpa using left)
      | cons a text => exact .absorb (ih left)

theorem matches_star_drop {k : Nat} (holds : Matches same (text.drop k) (.star :: rest)) :
    Matches same text (.star :: rest) := by
  obtain ⟨more, left⟩ := matches_star_iff.mp holds
  rw [List.drop_drop] at left
  exact matches_star_iff.mpr ⟨_, left⟩

theorem matches_star (text : List α) : Matches same text [.star] := by
  refine matches_star_iff.mpr ⟨text.length, ?_⟩
  rw [List.drop_length]
  exact .nil

theorem matches_star_star :
    Matches same text (.star :: .star :: rest) ↔ Matches same text (.star :: rest) := by
  constructor
  · intro holds
    obtain ⟨k, left⟩ := matches_star_iff.mp holds
    exact matches_star_drop left
  · exact Matches.done

theorem Fits.length_le (fits : Fits same segment text) : segment.length ≤ text.length := by
  have length := List.Forall₂.length_eq fits
  rw [List.length_take] at length
  omega

/-- Symbols without a star take the start of the text, one element each. -/
theorem matches_segment_iff (noStar : .star ∉ segment) :
    Matches same text (segment ++ rest) ↔
      Fits same segment text ∧ Matches same (text.drop segment.length) rest := by
  induction segment generalizing text with
  | nil =>
    rw [Fits, List.length_nil, List.take_zero]
    exact ⟨fun holds => ⟨.nil, holds⟩, fun holds => holds.2⟩
  | cons symbol segment ih =>
    rw [List.mem_cons, not_or] at noStar
    rw [List.cons_append, matches_take_iff (Ne.symm noStar.1)]
    cases text with
    | nil =>
      constructor
      · rintro ⟨a, remaining, shape, -⟩
        cases shape
      · rintro ⟨fits, -⟩
        exact absurd fits.length_le (by simp)
    | cons a text =>
      constructor
      · rintro ⟨b, remaining, shape, takes, more⟩
        obtain ⟨rfl, rfl⟩ := List.cons.inj shape
        obtain ⟨fits, left⟩ := (ih noStar.2).mp more
        exact ⟨.cons takes fits, left⟩
      · rintro ⟨fits, left⟩
        obtain ⟨takes, fits⟩ := List.forall₂_cons.mp fits
        exact ⟨a, text, rfl, takes, (ih noStar.2).mpr ⟨fits, left⟩⟩

theorem segment_room (noStar : .star ∉ segment)
    (holds : Matches same text (.star :: (segment ++ rest))) : segment.length ≤ text.length := by
  obtain ⟨k, left⟩ := matches_star_iff.mp holds
  have room := ((matches_segment_iff noStar).mp left).1.length_le
  rw [List.length_drop] at room
  omega

/-- Behind the last star the symbols take the end of the text. -/
theorem matches_star_end (noStar : .star ∉ segment) :
    Matches same text (.star :: segment) ↔ segment.length ≤ text.length ∧
      Fits same segment (text.drop (text.length - segment.length)) := by
  rw [matches_star_iff]
  constructor
  · rintro ⟨k, left⟩
    rw [← List.append_nil segment, matches_segment_iff noStar, List.drop_drop, matches_nil_iff,
      List.drop_eq_nil_iff] at left
    obtain ⟨fits, ended⟩ := left
    have room := fits.length_le
    rw [List.length_drop] at room
    refine ⟨by omega, ?_⟩
    by_cases whole : segment = []
    · subst whole
      exact .nil
    · have positive := List.length_pos_iff.mpr whole
      rwa [show text.length - segment.length = k by omega]
  · rintro ⟨room, fits⟩
    refine ⟨text.length - segment.length, ?_⟩
    have left : Matches same (text.drop (text.length - segment.length)) (segment ++ []) := by
      rw [matches_segment_iff noStar, List.drop_drop, Nat.sub_add_cancel room, List.drop_length]
      exact ⟨fits, .nil⟩
    rwa [List.append_nil] at left

/-- Wherever a segment fits, it may be taken there. -/
theorem matches_star_segment (noStar : .star ∉ segment) {place : Nat}
    (fits : Fits same segment (text.drop place))
    (left : Matches same (text.drop (place + segment.length)) rest) :
    Matches same text (.star :: (segment ++ rest)) := by
  refine matches_star_iff.mpr ⟨place, (matches_segment_iff noStar).mpr ⟨fits, ?_⟩⟩
  rwa [List.drop_drop]

/-- Between two stars nothing is lost by taking a segment where it fits first. -/
theorem matches_star_first (noStar : .star ∉ segment) {place : Nat}
    (first : IsLeast {k | Fits same segment (text.drop k)} place) :
    Matches same text (.star :: (segment ++ .star :: rest)) ↔
      Matches same (text.drop (place + segment.length)) (.star :: rest) := by
  constructor
  · intro holds
    obtain ⟨k, left⟩ := matches_star_iff.mp holds
    obtain ⟨fits, left⟩ := (matches_segment_iff noStar).mp left
    have before : place ≤ k := first.2 fits
    rw [List.drop_drop] at left
    refine matches_star_drop (k := k - place) ?_
    rwa [List.drop_drop, show place + segment.length + (k - place) = k + segment.length by omega]
  · exact matches_star_segment noStar first.1

theorem not_matches_of_nowhere (noStar : .star ∉ segment)
    (nowhere : ∀ k, ¬ Fits same segment (text.drop k)) :
    ¬ Matches same text (.star :: (segment ++ rest)) := by
  intro holds
  obtain ⟨k, left⟩ := matches_star_iff.mp holds
  exact nowhere k ((matches_segment_iff noStar).mp left).1

theorem matches_literals_iff {other : List β} :
    Matches same text (other.map .literal) ↔ List.Forall₂ same text other := by
  induction other generalizing text with
  | nil =>
    rw [List.map_nil, matches_nil_iff, List.forall₂_nil_right_iff]
  | cons b other ih =>
    rw [List.map_cons, matches_take_iff (by simp), List.forall₂_cons_right_iff]
    constructor
    · rintro ⟨a, remaining, rfl, takes, more⟩
      exact ⟨a, remaining, takes, ih.mp more, rfl⟩
    · rintro ⟨a, remaining, takes, more, rfl⟩
      exact ⟨a, remaining, rfl, takes, ih.mpr more⟩

theorem Symbol.takes_map (f : α → γ) (g : β → δ) (same : γ → δ → Prop) (a : α) (symbol : Symbol β) :
    (symbol.map g).Takes same (f a) ↔ symbol.Takes (fun a b => same (f a) (g b)) a := by
  cases symbol <;> exact Iff.rfl

theorem Symbol.map_ne_star (g : β → δ) (notStar : symbol ≠ .star) : symbol.map g ≠ .star := by
  cases symbol with
  | star => exact absurd rfl notStar
  | question => simp [Symbol.map]
  | literal b => simp [Symbol.map]

/-- Matching with both sides mapped. -/
theorem matches_map_iff (f : α → γ) (g : β → δ) (same : γ → δ → Prop) (text : List α)
    (symbols : List (Symbol β)) :
    Matches same (text.map f) (symbols.map (Symbol.map g)) ↔
      Matches (fun a b => same (f a) (g b)) text symbols := by
  induction symbols generalizing text with
  | nil =>
    rw [List.map_nil, matches_nil_iff, matches_nil_iff, List.map_eq_nil_iff]
  | cons symbol symbols ih =>
    by_cases star : symbol = .star
    · subst star
      rw [List.map_cons, Symbol.map, matches_star_iff, matches_star_iff]
      exact exists_congr fun k => by rw [← List.map_drop, ih]
    · rw [List.map_cons, matches_take_iff (Symbol.map_ne_star g star), matches_take_iff star]
      constructor
      · rintro ⟨c, remaining, shape, takes, more⟩
        obtain ⟨a, text, rfl, rfl, rfl⟩ := List.map_eq_cons_iff.mp shape
        exact ⟨a, text, rfl, (symbol.takes_map f g same a).mp takes, (ih text).mp more⟩
      · rintro ⟨a, text, rfl, takes, more⟩
        exact ⟨f a, text.map f, rfl, (symbol.takes_map f g same a).mpr takes, (ih text).mpr more⟩

end IDAPlugins.Search.Glob
