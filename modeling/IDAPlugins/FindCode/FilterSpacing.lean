import IDAPlugins.FindCode.Spacing
import IDAPlugins.Loop

namespace IDAPlugins.FindCode

/-! # Filtering in place

`FilterSpacing` writes its result over its input: one index reads, the other, never in
front of it, writes. The cells that are not written yet are those of the input.
-/

structure Spacing where
  pbuf : List UInt8
  i : Nat
  j : Nat

/-- `pbuf[j] = ch; j++`, and the next pass. -/
def Spacing.store (state : Spacing) (ch : UInt8) : Option (Loop.Pass Spacing (List UInt8)) :=
  if state.j < state.pbuf.length then
    some (.again { pbuf := state.pbuf.set state.j ch, i := state.i + 1, j := state.j + 1 })
  else none

def spacingPass (len : Nat) (state : Spacing) : Option (Loop.Pass Spacing (List UInt8)) :=
  if state.i < len then do
    let ch ← state.pbuf[state.i]?
    if isBlank ch then
      if state.j ≠ 0 ∧ state.pbuf[state.j - 1]? ≠ some 0x20 then state.store 0x20
      else some (.again { state with i := state.i + 1 })
    else state.store ch
  else if state.j < state.pbuf.length then some (.leave (state.pbuf.set state.j 0))
  else none

/-- The whole buffer behind `FilterSpacing`. -/
def filterSpacingBuffer (pbuf : List UInt8) : Option (List UInt8) :=
  let len := (pbuf.takeWhile (· != 0)).length
  if len = 0 then some pbuf
  else Loop.run (spacingPass len) (len + 1) { pbuf, i := 0, j := 0 }

variable {input : List UInt8}

theorem filterFrom_concat (last : Option UInt8) (input : List UInt8) (ch : UInt8) :
    filterFrom last (input ++ [ch]) = filterFrom last input ++
      if isBlank ch then
        if ((last.toList ++ filterFrom last input).getLast?).all (· == 0x20) then [] else [0x20]
      else [ch] := by
  induction input generalizing last with
  | nil =>
    cases blank : isBlank ch with
    | false => simp [filterFrom_word _ blank, filterFrom]
    | true =>
      cases last with
      | none => simp [filterFrom, blank]
      | some written => by_cases space : written = 0x20 <;> simp [filterFrom, blank, space]
  | cons first input ih =>
    rw [List.cons_append]
    cases blank : isBlank first with
    | false =>
      rw [filterFrom_word _ blank, filterFrom_word _ blank, ih (some first), List.cons_append,
        List.getLast?_append_cons]
      rfl
    | true =>
      rcases filterFrom_blank blank last with same | ⟨written, -, -, adds⟩
      · rw [same, same, ih]
      · rw [adds, adds, ih (some 0x20), List.cons_append, List.getLast?_append_cons]
        rfl

/-- The first cell of the input that is left takes a character. -/
theorem set_behind {front cells : List UInt8} (room : front.length < cells.length) (ch : UInt8) :
    (front ++ cells.drop front.length).set front.length ch =
      front ++ ch :: cells.drop (front.length + 1) := by
  rw [List.set_append_right _ _ (Nat.le_refl _), Nat.sub_self, List.drop_eq_getElem_cons room,
    List.set_cons_zero]

/-- What stands behind the characters read so far: the filtered text, and from there on
the cells of the input. -/
structure Filtered (input memory : List UInt8) (state : Spacing) : Prop where
  inside : state.i ≤ input.length
  count : state.j = (filterSpacing (input.take state.i)).length
  cells : state.pbuf = filterSpacing (input.take state.i) ++ memory.drop state.j

variable {behind : List UInt8} {state : Spacing}

theorem Filtered.order (filtered : Filtered input (input ++ 0 :: behind) state) :
    state.j ≤ state.i := by
  have short := filterFrom_length_le none (input.take state.i)
  rw [filtered.count, filterSpacing]
  rw [List.length_take] at short
  exact Nat.le_trans short (Nat.min_le_left _ _)

theorem Filtered.length (filtered : Filtered input (input ++ 0 :: behind) state) :
    state.pbuf.length = (input ++ 0 :: behind).length := by
  have lower := filtered.order
  have inside := filtered.inside
  rw [filtered.cells, List.length_append, ← filtered.count, List.length_drop, List.length_append,
    List.length_cons]
  omega

/-- The character read is one of the input: nothing was written so far ahead. -/
theorem Filtered.read (filtered : Filtered input (input ++ 0 :: behind) state)
    (more : state.i < input.length) : state.pbuf[state.i]? = some input[state.i] := by
  have lower := filtered.order
  rw [filtered.cells, List.getElem?_append_right (by rw [← filtered.count]; exact lower),
    ← filtered.count, List.getElem?_drop, Nat.add_sub_cancel' lower,
    List.getElem?_append_left more, List.getElem?_eq_getElem more]

/-- The cell in front of the write index holds the character written last. -/
theorem Filtered.written (filtered : Filtered input (input ++ 0 :: behind) state) :
    (state.j ≠ 0 ∧ state.pbuf[state.j - 1]? ≠ some 0x20) ↔
      ((filterSpacing (input.take state.i)).getLast?).all (· == 0x20) = false := by
  rw [filtered.cells, filtered.count]
  cases last : (filterSpacing (input.take state.i)).getLast? with
  | none =>
    rw [List.getLast?_eq_none_iff.mp last]
    simp
  | some written =>
    have filled : filterSpacing (input.take state.i) ≠ [] := by
      intro empty
      rw [empty] at last
      cases last
    have positive := List.length_pos_iff.mpr filled
    rw [List.getElem?_append_left (by omega), ← List.getLast?_eq_getElem?, last]
    simp [filled]

theorem Filtered.store (filtered : Filtered input (input ++ 0 :: behind) state)
    (more : state.i < input.length) {ch : UInt8}
    (adds : filterSpacing (input.take (state.i + 1)) = filterSpacing (input.take state.i) ++ [ch]) :
    ∃ next, state.store ch = some (.again next) ∧ next.i = state.i + 1 ∧
      Filtered input (input ++ 0 :: behind) next := by
  have lower := filtered.order
  have count := filtered.count
  have room : state.j < (input ++ 0 :: behind).length := by
    rw [List.length_append]
    omega
  refine ⟨_, by rw [Spacing.store, if_pos (filtered.length ▸ room)], rfl,
    show state.i + 1 ≤ input.length from more, ?_, ?_⟩
  · rw [adds, List.length_append, count]
    rfl
  · rw [count] at room
    rw [adds, filtered.cells, count, set_behind room, List.append_assoc]
    rfl

theorem Filtered.skip (filtered : Filtered input (input ++ 0 :: behind) state)
    (more : state.i < input.length)
    (same : filterSpacing (input.take (state.i + 1)) = filterSpacing (input.take state.i)) :
    Filtered input (input ++ 0 :: behind) { state with i := state.i + 1 } where
  inside := more
  count := same ▸ filtered.count
  cells := same ▸ filtered.cells

/-- What is left in the buffer behind the loop. -/
def result (input memory : List UInt8) : List UInt8 :=
  filterSpacing input ++ 0 :: memory.drop ((filterSpacing input).length + 1)

theorem spacingPass_sound (input behind : List UInt8) :
    Loop.Sound (spacingPass input.length) (Filtered input (input ++ 0 :: behind))
      (fun state => input.length - state.i) (· = result input (input ++ 0 :: behind)) := by
  intro state filtered
  by_cases more : state.i < input.length
  · have adds := filterFrom_concat none (input.take state.i) input[state.i]
    rw [← List.take_succ_eq_append_getElem more] at adds
    rw [spacingPass, if_pos more, filtered.read more, Option.bind_eq_bind, Option.bind_some]
    left
    cases blank : isBlank input[state.i] with
    | false =>
      rw [blank, if_neg Bool.false_ne_true] at adds
      obtain ⟨next, stored, index, kept⟩ := filtered.store more adds
      exact ⟨next, stored, kept, by simp only; omega⟩
    | true =>
      rw [blank, if_pos rfl] at adds
      rw [if_pos rfl]
      by_cases first : state.j ≠ 0 ∧ state.pbuf[state.j - 1]? ≠ some 0x20
      · have last := filtered.written.mp first
        rw [filterSpacing] at last
        rw [Option.toList_none, List.nil_append, last, if_neg Bool.false_ne_true] at adds
        obtain ⟨next, stored, index, kept⟩ := filtered.store more adds
        rw [if_pos first]
        exact ⟨next, stored, kept, by simp only; omega⟩
      · have last : ((filterSpacing (input.take state.i)).getLast?).all (· == 0x20) = true :=
          Bool.not_eq_false _ ▸ mt filtered.written.mpr first
        rw [filterSpacing] at last
        rw [Option.toList_none, List.nil_append, last, if_pos rfl, List.append_nil] at adds
        rw [if_neg first]
        refine ⟨_, rfl, filtered.skip more adds, ?_⟩
        simp only
        omega
  · have all : input.take state.i = input := List.take_of_length_le (Nat.le_of_not_lt more)
    have lower := filtered.order
    have inside := filtered.inside
    have count := filtered.count
    have cells := filtered.cells
    rw [all] at count cells
    have room : state.j < (input ++ 0 :: behind).length := by
      rw [List.length_append, List.length_cons]
      omega
    refine Or.inr ⟨_, by rw [spacingPass, if_neg more, if_pos (filtered.length ▸ room)], ?_⟩
    rw [count] at room
    rw [cells, count, set_behind room, result]

/-- The buffer afterwards starts with the filtered text; the cells behind its zero are
not touched. -/
theorem filterSpacingBuffer_eq (terminated : 0 ∉ input) (behind : List UInt8) :
    filterSpacingBuffer (input ++ 0 :: behind) = some (result input (input ++ 0 :: behind)) := by
  have length : ((input ++ 0 :: behind).takeWhile (· != 0)).length = input.length := by
    rw [List.takeWhile_append_of_pos fun ch member => by
      simpa using fun zero : ch = 0 => terminated (zero ▸ member)]
    simp
  rw [filterSpacingBuffer]
  simp only [length]
  by_cases empty : input.length = 0
  · rw [if_pos empty, List.length_eq_zero_iff.mp empty]
    rfl
  · rw [if_neg empty]
    have start : Filtered input (input ++ 0 :: behind) { pbuf := input ++ 0 :: behind, i := 0, j := 0 } :=
      { inside := Nat.zero_le _
        count := rfl
        cells := rfl }
    obtain ⟨after, ran, same⟩ := Loop.run_total (spacingPass_sound input behind) start
      (show input.length - 0 < input.length + 1 by omega)
    rw [ran, same]

theorem filterFrom_kept (last : Option UInt8) (input : List UInt8) :
    (filterFrom last input).filter (!isBlank ·) = input.filter (!isBlank ·) := by
  induction input generalizing last with
  | nil => rfl
  | cons ch input ih =>
    cases blank : isBlank ch with
    | false => simp [filterFrom_word _ blank, blank, ih]
    | true =>
      rw [List.filter_cons_of_neg (by simp [blank])]
      rcases filterFrom_blank blank last with same | ⟨written, -, -, adds⟩
      · rw [same, ih]
      · rw [adds, List.filter_cons_of_neg (by simp [isBlank_space]), ih]

/-- Not both characters are spaces. -/
def Apart (first second : UInt8) : Prop :=
  ¬(first = 0x20 ∧ second = 0x20)

/-- No space behind a space, and none in front where nothing was written before. -/
theorem filterFrom_apart (last : Option UInt8) (input : List UInt8) :
    (last.toList ++ filterFrom last input).IsChain Apart ∧
      (last = none → (filterFrom last input).head? ≠ some 0x20) := by
  induction input generalizing last with
  | nil => cases last <;> simp [filterFrom]
  | cons ch input ih =>
    cases blank : isBlank ch with
    | false =>
      have other : ch ≠ 0x20 := fun space => by
        rw [space] at blank
        cases blank
      have rest := (ih (some ch)).1
      rw [filterFrom_word _ blank]
      cases last with
      | none => exact ⟨rest, fun _ => by simpa using other⟩
      | some written =>
        refine ⟨?_, fun none => by cases none⟩
        exact List.isChain_cons_cons.mpr ⟨fun both => other both.2, rest⟩
    | true =>
      rcases filterFrom_blank blank last with same | ⟨written, before, other, adds⟩
      · rw [same]
        exact ih last
      · rw [adds, before]
        refine ⟨?_, fun none => by cases none⟩
        exact List.isChain_cons_cons.mpr ⟨fun both => other both.1, (ih (some 0x20)).1⟩

/-- A text that is spaced like this is filtered already. -/
theorem filterFrom_self (last : Option UInt8) {text : List UInt8} (tabFree : 0x09 ∉ text)
    (apart : (last.toList ++ text).IsChain Apart) (starts : last = none → text.head? ≠ some 0x20) :
    filterFrom last text = text := by
  induction text generalizing last with
  | nil => rfl
  | cons ch text ih =>
    obtain ⟨notTab, tabFree⟩ := not_or.mp (mt List.mem_cons.mpr tabFree)
    have rest : ((some ch).toList ++ text).IsChain Apart := by
      cases last with
      | none => exact apart
      | some written => exact (List.isChain_cons_cons.mp apart).2
    have same := ih (some ch) tabFree rest fun none => by cases none
    by_cases space : ch = 0x20
    · cases last with
      | none => exact absurd (congrArg some space) (starts rfl)
      | some written =>
        have other : written ≠ 0x20 := fun before =>
          (List.isChain_cons_cons.mp apart).1 ⟨before, space⟩
        rw [space] at same ⊢
        simp only [filterFrom, isBlank_space, if_true, if_neg other, same]
    · have word : isBlank ch = false := by
        simp [isBlank, space, Ne.symm notTab]
      rw [filterFrom_word _ word, same]

theorem filterFrom_blanks {ch : UInt8} (word : isBlank ch = false) {blanks : List UInt8}
    (blank : ∀ ch ∈ blanks, isBlank ch = true) :
    filterFrom (some ch) blanks = if blanks = [] then [] else [0x20] := by
  have gone (rest : List UInt8) (blank : ∀ ch ∈ rest, isBlank ch = true) :
      filterFrom none rest = [] := by
    induction rest with
    | nil => rfl
    | cons first rest ih =>
      obtain ⟨here, blank⟩ := List.forall_mem_cons.mp blank
      simpa only [filterFrom, here, if_true] using ih blank
  rw [filterFrom_some word, gone blanks blank, List.append_nil]
  cases blanks with
  | nil => rfl
  | cons first blanks =>
    rw [leadingSpaces, if_pos (blank first (List.mem_cons_self ..)), if_neg (List.cons_ne_nil _ _)]
    rfl

/-- What `FilterSpacing` makes of a text. -/
structure NormalForm (input text : List UInt8) : Prop where
  tab_free : 0x09 ∉ text
  starts : text.head? ≠ some 0x20
  apart : text.IsChain Apart
  kept : text.filter (!isBlank ·) = input.filter (!isBlank ·)
  /-- The blanks between two characters become one space, or there were none. -/
  between : ∀ front first blanks second rest, input = front ++ first :: (blanks ++ second :: rest) →
    isBlank first = false → isBlank second = false → (∀ ch ∈ blanks, isBlank ch = true) →
    ∃ before after, text = before ++ first :: ((if blanks = [] then [] else [0x20]) ++ second :: after) ∧
      before.filter (!isBlank ·) = front.filter (!isBlank ·) ∧
      after.filter (!isBlank ·) = rest.filter (!isBlank ·)
  /-- So do those behind the last character. -/
  trailing : ∀ front last blanks, input = front ++ last :: blanks → isBlank last = false →
    (∀ ch ∈ blanks, isBlank ch = true) →
    ∃ before, text = before ++ last :: (if blanks = [] then [] else [0x20]) ∧
      before.filter (!isBlank ·) = front.filter (!isBlank ·)

theorem filterSpacing_normalForm (input : List UInt8) : NormalForm input (filterSpacing input) where
  tab_free := by
    have spaced (last : Option UInt8) : 0x09 ∉ filterFrom last input := by
      induction input generalizing last with
      | nil => exact List.not_mem_nil
      | cons ch input ih =>
        cases blank : isBlank ch with
        | false =>
          rw [filterFrom_word _ blank]
          refine List.not_mem_cons_of_ne_of_not_mem ?_ (ih _)
          exact fun tab => by rw [← tab] at blank; cases blank
        | true =>
          rcases filterFrom_blank blank last with same | ⟨written, -, -, adds⟩
          · rw [same]
            exact ih last
          · rw [adds]
            exact List.not_mem_cons_of_ne_of_not_mem (by decide) (ih _)
    exact spaced none
  starts := (filterFrom_apart none input).2 rfl
  apart := (filterFrom_apart none input).1
  kept := filterFrom_kept none input
  between := by
    intro front first blanks second rest whole firstWord secondWord blank
    refine ⟨filterSpacing front, filterFrom (some second) rest, ?_, filterFrom_kept _ _,
      filterFrom_kept _ _⟩
    rw [whole, filterSpacing, filterFrom_append firstWord, filterFrom_append secondWord,
      filterFrom_blanks firstWord blank, filterSpacing]
  trailing := by
    intro front last blanks whole word blank
    refine ⟨filterSpacing front, ?_, filterFrom_kept _ _⟩
    rw [whole, filterSpacing, filterFrom_append word, filterFrom_blanks word blank, filterSpacing]

theorem NormalForm.filtered {text : List UInt8} (normal : NormalForm input text) :
    filterSpacing text = text :=
  filterFrom_self none normal.tab_free normal.apart fun _ => normal.starts

/-- Behind `FilterSpacing` the buffer holds the normal form of its string, with the cells
behind the string as they were, and filtering it again changes nothing. -/
theorem filterSpacingBuffer_normalises (input behind : List UInt8) (terminated : 0 ∉ input) :
    ∃ text rest, filterSpacingBuffer (input ++ 0 :: behind) = some (text ++ 0 :: rest) ∧
      0 ∉ text ∧ (∃ cells, rest = cells ++ behind) ∧ NormalForm input text ∧
      filterSpacingBuffer (text ++ 0 :: rest) = some (text ++ 0 :: rest) := by
  have normal := filterSpacing_normalForm input
  have ended : 0 ∉ filterSpacing input := by
    intro zero
    rcases mem_filterSpacing zero with space | inside
    · exact absurd space (by decide)
    · exact terminated inside
  have short := filterFrom_length_le none input
  refine ⟨filterSpacing input, _, filterSpacingBuffer_eq terminated behind, ended, ?_, normal, ?_⟩
  · rw [← List.singleton_append, ← List.append_assoc, List.drop_append_of_le_length]
    · exact ⟨_, rfl⟩
    · rw [List.length_append]
      exact Nat.succ_le_succ short
  · have cells : (filterSpacing input ++ 0 :: (input ++ 0 :: behind).drop
        ((filterSpacing input).length + 1)).drop ((filterSpacing input).length + 1) =
        (input ++ 0 :: behind).drop ((filterSpacing input).length + 1) := by
      rw [← List.drop_drop, List.drop_left, List.drop_succ_cons, List.drop_zero]
    rw [filterSpacingBuffer_eq ended, result, normal.filtered, cells]

/-- A tab, two spaces inside, one behind. -/
theorem filterSpacingBuffer_normalises_tab :
    ∃ text rest, filterSpacingBuffer [0x09, 0x61, 0x20, 0x20, 0x62, 0x20, 0x00, 0x7A] =
        some (text ++ 0 :: rest) ∧ 0 ∉ text ∧ (∃ cells, rest = cells ++ [0x7A]) ∧
      NormalForm [0x09, 0x61, 0x20, 0x20, 0x62, 0x20] text ∧
      filterSpacingBuffer (text ++ 0 :: rest) = some (text ++ 0 :: rest) :=
  filterSpacingBuffer_normalises [0x09, 0x61, 0x20, 0x20, 0x62, 0x20] [0x7A] (by decide)

end IDAPlugins.FindCode
