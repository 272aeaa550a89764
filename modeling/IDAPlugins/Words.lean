import Mathlib.Data.List.DropRight
import Mathlib.Data.List.Basic

namespace IDAPlugins.Words

/-! # Words and blanks

The words of a text are what stands between its blanks. `squeeze` writes them one
behind another with a single space between two of them.
-/

variable {α : Type} {blank : α → Bool} {space c : α} {text : List α}

def words (blank : α → Bool) (text : List α) : List (List α) :=
  (text.splitOnP blank).filter fun word => !word.isEmpty

def squeeze (blank : α → Bool) (space : α) (text : List α) : List α :=
  [space].intercalate (words blank text)

/-- The text goes on with a word. -/
def opens (blank : α → Bool) : List α → Bool
  | [] => false
  | c :: _ => !blank c

@[simp] theorem squeeze_nil : squeeze blank space [] = [] := by
  simp [squeeze, words]

theorem squeeze_blank (isBlank : blank c = true) :
    squeeze blank space (c :: text) = squeeze blank space text := by
  simp only [squeeze, words, List.splitOnP_cons_eq_if_modifyHead, isBlank, if_true,
    List.filter_cons, List.isEmpty_nil, Bool.not_true, Bool.false_eq_true, if_false]

theorem squeeze_word (isWord : blank c = false) :
    squeeze blank space (c :: text) =
      c :: if opens blank text then squeeze blank space text
        else if squeeze blank space text = [] then [] else space :: squeeze blank space text := by
  have split : (c :: text).splitOnP blank = (text.splitOnP blank).modifyHead (c :: ·) := by
    rw [List.splitOnP_cons_eq_if_modifyHead, isWord, if_neg Bool.false_ne_true]
  -- the first piece of the text is empty exactly where no word goes on
  have first : ∃ head rest, text.splitOnP blank = head :: rest ∧
      (opens blank text = true ↔ head ≠ []) := by
    cases text with
    | nil => exact ⟨[], [], List.splitOnP_nil, by simp [opens]⟩
    | cons d text =>
      rw [List.splitOnP_cons_eq_if_modifyHead]
      cases isBlank : blank d with
      | true => exact ⟨[], _, rfl, by simp [opens, isBlank]⟩
      | false =>
        obtain ⟨head, rest, pieces⟩ := List.exists_cons_of_ne_nil (List.splitOnP_ne_nil blank text)
        exact ⟨d :: head, rest, by rw [pieces]; rfl, by simp [opens, isBlank]⟩
  obtain ⟨head, rest, pieces, goesOn⟩ := first
  have whole : words blank (c :: text) = (c :: head) :: rest.filter (fun word => !word.isEmpty) := by
    rw [words, split, pieces]
    rfl
  have part : words blank text = (head :: rest).filter (fun word => !word.isEmpty) := by
    rw [words, pieces]
  rw [squeeze, squeeze, whole, part]
  cases head with
  | cons d head =>
    rw [if_pos (goesOn.mpr (List.cons_ne_nil _ _)), List.filter_cons_of_pos (by rfl)]
    cases rest.filter (fun word => !word.isEmpty) with
    | nil => simp
    | cons next others => simp [List.intercalate_cons_cons]
  | nil =>
    rw [if_neg fun opened => goesOn.mp opened rfl, List.filter_cons_of_neg (by simp)]
    have nonempty : ∀ word ∈ rest.filter (fun word => !word.isEmpty), word ≠ [] := by
      intro word member
      simpa using (List.mem_filter.mp member).2
    generalize rest.filter (fun word => !word.isEmpty) = others at nonempty ⊢
    cases others with
    | nil => simp
    | cons next others =>
      have filled : [space].intercalate (next :: others) ≠ [] := by
        obtain ⟨d, next, rfl⟩ := List.exists_cons_of_ne_nil (nonempty next (List.mem_cons_self ..))
        cases others <;> simp [List.intercalate_cons_cons]
      rw [if_neg filled, List.intercalate_cons_cons]
      rfl

theorem squeeze_eq_nil_iff : squeeze blank space text = [] ↔ ∀ c ∈ text, blank c = true := by
  induction text with
  | nil => simp
  | cons c text ih =>
    cases isBlank : blank c with
    | true => rw [squeeze_blank isBlank, ih, List.forall_mem_cons, isBlank, eq_self, true_and]
    | false =>
      rw [squeeze_word isBlank]
      simp [isBlank]

theorem squeeze_head (isBlank : blank c = true) (rest : List α) :
    squeeze blank space text ≠ c :: rest := by
  induction text with
  | nil => simp
  | cons d text ih =>
    cases first : blank d with
    | true => rwa [squeeze_blank first]
    | false =>
      rw [squeeze_word first]
      intro same
      rw [(List.cons.inj same).1, isBlank] at first
      cases first

theorem squeeze_last (isBlank : blank c = true) (before : List α) :
    squeeze blank space text ≠ before ++ [c] := by
  induction text generalizing before with
  | nil => simp
  | cons d text ih =>
    cases first : blank d with
    | true =>
      rw [squeeze_blank first]
      exact ih before
    | false =>
      rw [squeeze_word first]
      intro same
      cases before with
      | nil =>
        rw [(List.cons.inj same).1, isBlank] at first
        cases first
      | cons e before =>
        have rest := (List.cons.inj same).2
        split at rest
        · exact ih before rest
        · split at rest
          · simp at rest
          · cases before with
            | nil =>
              rename_i filled
              exact filled (List.cons.inj rest).2
            | cons e before => exact ih before (List.cons.inj rest).2

theorem mem_squeeze (member : c ∈ squeeze blank space text) : c = space ∨ c ∈ text := by
  induction text with
  | nil => simp at member
  | cons d text ih =>
    cases first : blank d with
    | true =>
      rw [squeeze_blank first] at member
      exact (ih member).imp_right (List.mem_cons_of_mem d)
    | false =>
      rw [squeeze_word first, List.mem_cons] at member
      rcases member with rfl | member
      · exact .inr (List.mem_cons_self ..)
      · split at member
        · exact (ih member).imp_right (List.mem_cons_of_mem d)
        · split at member
          · cases member
          · rcases List.mem_cons.mp member with rfl | member
            · exact .inl rfl
            · exact (ih member).imp_right (List.mem_cons_of_mem d)

/-- Only a single space at the ends of a squeezed text goes when it is trimmed. -/
theorem trim_squeeze [BEq α] [LawfulBEq α] (isBlank : blank space = true) (leading trailing : Nat) :
    ((List.replicate leading space ++ squeeze blank space text ++
        List.replicate trailing space).dropWhile (· == space)).rdropWhile (· == space) =
      squeeze blank space text := by
  have right (body : List α) (last : ∀ before, body ≠ before ++ [space]) :
      (body ++ List.replicate trailing space).rdropWhile (· == space) = body := by
    induction trailing with
    | zero =>
      rw [List.replicate_zero, List.append_nil, List.rdropWhile_eq_self_iff]
      intro filled same
      exact last _ (((List.dropLast_append_getLast filled).symm).trans (by rw [eq_of_beq same]))
    | succ trailing ih =>
      rw [List.replicate_succ', ← List.append_assoc, List.rdropWhile_concat_pos _ _ _ (by simp), ih]
  have left (body : List α) : (List.replicate leading space ++ body).dropWhile (· == space) =
      body.dropWhile (· == space) := by
    induction leading with
    | zero => rfl
    | succ leading ih =>
      rw [List.replicate_succ, List.cons_append, List.dropWhile_cons_of_pos (by simp), ih]
  rw [List.append_assoc, left]
  cases filled : squeeze blank space text with
  | nil =>
    rw [List.nil_append, List.dropWhile_eq_nil_iff.mpr, List.rdropWhile_nil]
    intro d member
    rw [List.eq_of_mem_replicate member]
    exact beq_self_eq_true space
  | cons d rest =>
    have other : ¬ (d == space) = true := by
      intro same
      rw [eq_of_beq same] at filled
      exact squeeze_head isBlank rest filled
    rw [List.cons_append, List.dropWhile_cons_of_neg (by simpa using other), ← List.cons_append,
      right]
    intro before same
    exact squeeze_last isBlank before (filled.trans same)

theorem squeeze_map (f : α → α) (keeps : ∀ c, blank (f c) = blank c) (fixed : f space = space)
    (text : List α) : squeeze blank space (text.map f) = (squeeze blank space text).map f := by
  induction text with
  | nil => simp
  | cons c text ih =>
    rw [List.map_cons]
    cases first : blank c with
    | true => rw [squeeze_blank ((keeps c).trans first), squeeze_blank first, ih]
    | false =>
      have goesOn : opens blank (text.map f) = opens blank text := by
        cases text with
        | nil => rfl
        | cons d text => exact congrArg (!·) (keeps d)
      rw [squeeze_word ((keeps c).trans first), squeeze_word first, goesOn, ih, List.map_cons]
      simp only [List.map_eq_nil_iff]
      split
      · rfl
      · split
        · rfl
        · rw [List.map_cons, fixed]

variable {separates : α → Bool}

/-- A text is a last line, or a line, a separator and another text. -/
@[elab_as_elim]
theorem lines_induction (separates : α → Bool) {motive : List α → Prop} (text : List α)
    (last : ∀ line, (∀ c ∈ line, separates c = false) → motive line)
    (more : ∀ line separator rest, (∀ c ∈ line, separates c = false) → separates separator = true →
      motive rest → motive (line ++ separator :: rest)) : motive text := by
  have general (line : List α) (clean : ∀ c ∈ line, separates c = false) : motive (line ++ text) := by
    induction text generalizing line with
    | nil =>
      rw [List.append_nil]
      exact last line clean
    | cons c text ih =>
      cases first : separates c with
      | true => exact more line c text clean first (ih [] (List.forall_mem_nil _))
      | false =>
        have longer := ih (line ++ [c]) (List.forall_mem_append.mpr ⟨clean, by simpa using first⟩)
        rwa [List.append_assoc] at longer
  exact general [] (List.forall_mem_nil _)

theorem splitOnP_map (f : α → α) (keeps : ∀ c, separates (f c) = separates c) (text : List α) :
    (text.map f).splitOnP separates = (text.splitOnP separates).map (List.map f) := by
  induction text with
  | nil => rfl
  | cons c text ih =>
    rw [List.map_cons, List.splitOnP_cons_eq_if_modifyHead, List.splitOnP_cons_eq_if_modifyHead,
      keeps, ih]
    obtain ⟨head, rest, pieces⟩ := List.exists_cons_of_ne_nil (List.splitOnP_ne_nil separates text)
    cases separates c <;> rw [pieces] <;> rfl

end IDAPlugins.Words
