import Mathlib.Data.List.Infix

namespace IDAPlugins.Search

/-! # Words that end a text

A word none of whose proper prefixes is one of its suffixes cannot start inside a text
and end inside itself. Put behind a text without it, it is first found there.
-/

variable {α : Type} {word text : List α}

/-- No proper prefix is a suffix. -/
def Unbordered (word : List α) : Prop :=
  ∀ k < word.length, 0 < k → word.drop k ≠ word.take (word.length - k)

instance [DecidableEq α] (word : List α) : Decidable (Unbordered word) :=
  inferInstanceAs (Decidable (∀ k < word.length, 0 < k → _))

/-- In front of its own place the word is not found. -/
theorem Unbordered.not_before (unbordered : Unbordered word) (absent : ¬word <:+: text)
    (rest : List α) {k : Nat} (before : k < text.length) :
    ¬word <+: (text ++ (word ++ rest)).drop k := by
  intro found
  rw [List.drop_append_of_le_length (Nat.le_of_lt before)] at found
  by_cases short : word.length ≤ (text.drop k).length
  · -- the whole word lies in the text
    have inside : word <+: text.drop k :=
      List.prefix_of_prefix_length_le found (List.prefix_append _ _) short
    exact absent (inside.isInfix.trans (List.drop_suffix k text).isInfix)
  · -- the word starts in the text and ends in itself
    have shift : (text.drop k).length < word.length := Nat.lt_of_not_le short
    have start : text.drop k <+: word :=
      List.prefix_of_prefix_length_le (List.prefix_append _ _) found (Nat.le_of_lt shift)
    obtain ⟨tail, split⟩ := start
    have overlap : tail <+: word ++ rest := by
      rw [← split, List.prefix_append_right_inj, split] at found
      exact found
    have length : tail.length = word.length - (text.drop k).length := by
      rw [← split, List.length_append, Nat.add_sub_cancel_left]
    have upper : tail.length ≤ word.length := by omega
    have behind : word.drop (text.drop k).length = tail := by
      rw [← split, List.drop_left]
    have positive : 0 < (text.drop k).length := by
      rw [List.length_drop]
      omega
    refine unbordered _ shift positive ?_
    rw [behind, ← length, ← List.take_append_of_le_length upper]
    exact List.prefix_iff_eq_take.mp overlap

end IDAPlugins.Search
