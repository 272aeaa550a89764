import IDAPlugins.FindCode.Prefilter
import IDAPlugins.Words

namespace IDAPlugins.FindCode

open Words

/-! # Normalising a text

`FilterSpacing` copies a string onto itself: the first blank behind a character
becomes a space, other blanks go. `strupr` turns ASCII letters to upper case up to
the terminator.
-/

def isBlank (ch : UInt8) : Bool :=
  ch == 0x20 || ch == 0x09

/-- `last` is the character written last, `pbuf[j - 1]`. -/
def filterFrom : Option UInt8 → List UInt8 → List UInt8
  | _, [] => []
  | last, ch :: rest =>
    if isBlank ch then
      match last with
      | none => filterFrom none rest
      | some written =>
        if written = 0x20 then filterFrom (some written) rest
        else 0x20 :: filterFrom (some 0x20) rest
    else
      ch :: filterFrom (some ch) rest

def filterSpacing (pbuf : List UInt8) : List UInt8 :=
  filterFrom none pbuf

def toUpper (ch : UInt8) : UInt8 :=
  if 0x61 ≤ ch ∧ ch ≤ 0x7A then ch - 0x61 + 0x41 else ch

/-- The bytes at `str` afterwards; those behind the first zero are not touched. -/
def strupr (str : List UInt8) : List UInt8 :=
  (str.takeWhile (· != 0)).map toUpper ++ str.dropWhile (· != 0)

variable {ch : UInt8} {line rest : List UInt8}

theorem toNat_toUpper (ch : UInt8) :
    (toUpper ch).toNat = if 97 ≤ ch.toNat ∧ ch.toNat ≤ 122 then ch.toNat - 32 else ch.toNat := by
  have below := ch.toNat_lt
  unfold toUpper
  simp only [UInt8.le_iff_toNat_le, UInt8.reduceToNat]
  split
  · rw [UInt8.toNat_add, UInt8.toNat_sub]
    simp only [UInt8.reduceToNat]
    omega
  · rfl

/-- A byte that is no letter is left alone, and no other byte becomes one. -/
theorem toUpper_eq_iff {special : UInt8} (fixed : special.toNat < 65 ∨ 122 < special.toNat) :
    toUpper ch = special ↔ ch = special := by
  rw [← UInt8.toNat_inj, ← UInt8.toNat_inj, toNat_toUpper]
  split <;> omega

theorem toUpper_ne_lower (ch : UInt8) : ¬ (0x61 ≤ toUpper ch ∧ toUpper ch ≤ 0x7A) := by
  simp only [UInt8.le_iff_toNat_le, UInt8.reduceToNat, toNat_toUpper]
  split <;> omega

theorem toUpper_eq_self_iff : toUpper ch = ch ↔ ¬ (0x61 ≤ ch ∧ ch ≤ 0x7A) := by
  rw [← UInt8.toNat_inj, toNat_toUpper]
  simp only [UInt8.le_iff_toNat_le, UInt8.reduceToNat]
  split <;> omega

theorem isBlank_toUpper (ch : UInt8) : isBlank (toUpper ch) = isBlank ch := by
  have space : (toUpper ch == 0x20) = (ch == 0x20) := by
    rw [Bool.eq_iff_iff, beq_iff_eq, beq_iff_eq]
    exact toUpper_eq_iff (.inl (by decide))
  have tab : (toUpper ch == 0x09) = (ch == 0x09) := by
    rw [Bool.eq_iff_iff, beq_iff_eq, beq_iff_eq]
    exact toUpper_eq_iff (.inl (by decide))
  rw [isBlank, isBlank, space, tab]

@[simp] theorem strupr_length (str : List UInt8) : (strupr str).length = str.length := by
  rw [strupr, List.length_append, List.length_map, ← List.length_append,
    List.takeWhile_append_dropWhile]

/-- On a string without the terminator every letter is turned. -/
theorem strupr_text {str : List UInt8} (terminated : 0 ∉ str) : strupr str = str.map toUpper := by
  have whole : str.takeWhile (· != 0) = str :=
    List.takeWhile_eq_self_iff.mpr fun ch member => by
      simpa using fun zero : ch = 0 => terminated (zero ▸ member)
  have split := List.takeWhile_append_dropWhile (p := (· != (0 : UInt8))) (l := str)
  rw [whole, List.append_right_eq_self] at split
  rw [strupr, whole, split, List.append_nil]

theorem strupr_eq_self_iff {str : List UInt8} :
    strupr str = str ↔ ∀ ch ∈ str.takeWhile (· != 0), ¬ (0x61 ≤ ch ∧ ch ≤ 0x7A) := by
  have split := List.takeWhile_append_dropWhile (p := (· != (0 : UInt8))) (l := str)
  conv => lhs; rhs; rw [← split]
  rw [strupr, List.append_left_inj]
  constructor
  · intro same ch member
    exact toUpper_eq_self_iff.mp (List.map_inj_left.mp (same.trans (List.map_id _).symm) ch member)
  · intro lowerless
    exact (List.map_congr_left fun ch member => toUpper_eq_self_iff.mpr (lowerless ch member)).trans
      (List.map_id _)

theorem isBlank_space : isBlank 0x20 = true := rfl

theorem filterFrom_word (last : Option UInt8) (isWord : isBlank ch = false) :
    filterFrom last (ch :: rest) = ch :: filterFrom (some ch) rest := by
  cases last <;> simp only [filterFrom, isWord, Bool.false_eq_true, if_false]

/-- A blank adds a space behind another character, and else nothing. -/
theorem filterFrom_blank (blank : isBlank ch = true) (last : Option UInt8) :
    (∀ rest, filterFrom last (ch :: rest) = filterFrom last rest) ∨
      ∃ written, last = some written ∧ written ≠ 0x20 ∧
        ∀ rest, filterFrom last (ch :: rest) = 0x20 :: filterFrom (some 0x20) rest := by
  cases last with
  | none => exact Or.inl fun rest => by simp only [filterFrom, blank, if_true]
  | some written =>
    by_cases space : written = 0x20
    · exact Or.inl fun rest => by simp only [filterFrom, blank, if_true, if_pos space]
    · exact Or.inr ⟨written, rfl, space, fun rest => by
        simp only [filterFrom, blank, if_true, if_neg space]⟩

theorem filterFrom_space (line : List UInt8) :
    filterFrom (some 0x20) line = filterFrom none line := by
  induction line with
  | nil => rfl
  | cons ch rest ih =>
    cases blank : isBlank ch with
    | true => simpa only [filterFrom, blank, if_true] using ih
    | false => rw [filterFrom_word _ blank, filterFrom_word _ blank]

/-- Behind a character that is not blank the text is filtered afresh. -/
theorem filterFrom_append (isWord : isBlank ch = false) (last : Option UInt8) (line rest : List UInt8) :
    filterFrom last (line ++ ch :: rest) = filterFrom last line ++ ch :: filterFrom (some ch) rest := by
  induction line generalizing last with
  | nil => exact filterFrom_word last isWord
  | cons first line ih =>
    rw [List.cons_append]
    cases blank : isBlank first with
    | false => rw [filterFrom_word _ blank, filterFrom_word _ blank, ih, List.cons_append]
    | true =>
      rcases filterFrom_blank blank last with same | ⟨written, -, -, adds⟩
      · rw [same, same, ih]
      · rw [adds, adds, ih, List.cons_append]

theorem filterFrom_length_le (last : Option UInt8) (line : List UInt8) :
    (filterFrom last line).length ≤ line.length := by
  induction line generalizing last with
  | nil => exact Nat.le_refl _
  | cons ch line ih =>
    cases blank : isBlank ch with
    | false =>
      rw [filterFrom_word _ blank]
      exact Nat.succ_le_succ (ih _)
    | true =>
      rcases filterFrom_blank blank last with same | ⟨written, -, -, adds⟩
      · rw [same]
        exact Nat.le_succ_of_le (ih _)
      · rw [adds]
        exact Nat.succ_le_succ (ih _)

/-- How many spaces blanks at the start of a text leave behind a word. -/
def leadingSpaces : List UInt8 → Nat
  | [] => 0
  | ch :: _ => if isBlank ch then 1 else 0

theorem filterFrom_some (isWord : isBlank ch = false) (line : List UInt8) :
    filterFrom (some ch) line = List.replicate (leadingSpaces line) 0x20 ++ filterFrom none line := by
  cases line with
  | nil => rfl
  | cons first line =>
    cases blank : isBlank first with
    | false =>
      rw [filterFrom_word _ blank, filterFrom_word _ blank, leadingSpaces, blank]
      rfl
    | true =>
      have other : ch ≠ 0x20 := by
        rintro rfl
        cases isWord
      simp only [filterFrom, leadingSpaces, blank, if_true, if_neg other, filterFrom_space]
      rfl

def endsBlank (line : List UInt8) : Bool :=
  line.getLast?.any isBlank

theorem endsBlank_cons (filled : line ≠ []) : endsBlank (ch :: line) = endsBlank line := by
  obtain ⟨next, rest, rfl⟩ := List.exists_cons_of_ne_nil filled
  rw [endsBlank, List.getLast?_cons_cons, ← endsBlank]

theorem endsBlank_of_forall (filled : line ≠ []) (blank : ∀ ch ∈ line, isBlank ch = true) :
    endsBlank line = true := by
  rw [endsBlank, List.getLast?_eq_some_getLast filled]
  exact blank _ (List.getLast_mem filled)

/-- A filtered text is the squeezed one, with a space behind it when blanks end a
text that has words. -/
theorem filterSpacing_eq (line : List UInt8) :
    filterSpacing line = squeeze isBlank 0x20 line ++
      if squeeze isBlank 0x20 line ≠ [] ∧ endsBlank line = true then [0x20] else [] := by
  unfold filterSpacing
  induction line with
  | nil => rfl
  | cons ch rest ih =>
    cases blank : isBlank ch with
    | true =>
      have skipped : filterFrom none (ch :: rest) = filterFrom none rest := by
        simp only [filterFrom, blank, if_true]
      rw [skipped, ih, squeeze_blank blank]
      cases rest with
      | nil => simp
      | cons next rest => rw [endsBlank_cons (List.cons_ne_nil next rest)]
    | false =>
      rw [filterFrom_word _ blank, filterFrom_some blank, ih, squeeze_word blank]
      simp only [ne_eq, reduceCtorEq, not_false_eq_true, true_and]
      cases rest with
      | nil => simp [leadingSpaces, opens, endsBlank, blank]
      | cons next rest =>
        rw [endsBlank_cons (List.cons_ne_nil next rest)]
        cases goesOn : isBlank next with
        | false =>
          have word : squeeze isBlank 0x20 (next :: rest) ≠ [] := by
            rw [squeeze_word goesOn]
            exact List.cons_ne_nil _ _
          simp [leadingSpaces, opens, goesOn, word]
        | true =>
          by_cases none : squeeze isBlank 0x20 (next :: rest) = []
          · have ends := endsBlank_of_forall (List.cons_ne_nil next rest) (squeeze_eq_nil_iff.mp none)
            simp [leadingSpaces, opens, goesOn, none, ends]
          · simp [leadingSpaces, opens, goesOn, none]

theorem mem_filterSpacing (member : ch ∈ filterSpacing line) : ch = 0x20 ∨ ch ∈ line := by
  rw [filterSpacing_eq, List.mem_append] at member
  rcases member with inside | trailing
  · exact mem_squeeze inside
  · split at trailing
    · exact .inl (List.mem_singleton.mp trailing)
    · cases trailing

end IDAPlugins.FindCode
