import IDAPlugins.FindCode.Globbing
import IDAPlugins.FindCode.Spacing
import IDAPlugins.Machine

namespace IDAPlugins.FindCode

open Machine Words

/-! # Parsing a query

`OnButtonFind` turns the text of the dialog to upper case, filters its blanks and cuts
it into tokens at the ends of its lines. `tokenize` keeps positions in an `int` and
goes on while the next delimiter has a positive one.
-/

/-- `src.find_first_of(tok, pos)` as an `int`; `npos` is `-1`. -/
def findFirstOf (src tok : List UInt8) (pos : Nat) : Int :=
  match (src.drop pos).findIdx? (tok.contains ·) with
  | none => -1
  | some place => int32 (pos + place : Nat)

/-- Both `erase` calls: the spaces at the start and at the end of `s`. -/
def eraseSpaces (s : List UInt8) : List UInt8 :=
  (s.dropWhile (· == 0x20)).rdropWhile (· == 0x20)

structure Tokenizing where
  preIndex : Nat
  v : List (List UInt8)

def tokenizePass (src tok : List UInt8) (trim : Bool) (nullSubst : List UInt8) (state : Tokenizing) :
    Option (Loop.Pass Tokenizing (List (List UInt8))) :=
  let index := findFirstOf src tok state.preIndex
  if 0 < index then
    let len := index - state.preIndex
    let v :=
      if 0 < len then state.v ++ [eraseSpaces ((src.drop state.preIndex).take len.toNat)]
      else if trim then state.v ++ [nullSubst]
      else state.v
    some (.again { preIndex := (index + 1).toNat, v })
  else
    let endstr := eraseSpaces (src.drop state.preIndex)
    some (.leave (
      if trim then state.v ++ [if endstr.isEmpty then nullSubst else endstr]
      else if endstr.isEmpty then state.v
      else state.v ++ [endstr]))

/-- `none`: out of fuel; an exception is an `error`. -/
def tokenize (src tok : List UInt8) (trim : Bool) (nullSubst : List UInt8) :
    Option (Except String (List (List UInt8))) :=
  if src.isEmpty || tok.isEmpty then
    some (.error "tokenize: empty string")
  else
    (Loop.run (tokenizePass src tok trim nullSubst) (src.length + 1) { preIndex := 0, v := [] }).map .ok

/-- The tokens that `OnButtonFind` searches for. -/
def vSearchCodes (szparent : List UInt8) : Option (Except String (List (List UInt8))) :=
  tokenize (filterSpacing (strupr szparent)) [0x0D, 0x0A] false []

def isNewline (ch : UInt8) : Bool :=
  [0x0D, 0x0A].contains ch

def hasWord (line : List UInt8) : Bool :=
  line.any fun ch => !isBlank ch

/-- A line as it is searched for. -/
def searchCode (line : List UInt8) : List UInt8 :=
  squeeze isBlank 0x20 (line.map toUpper)

/-- The lines of the query that have a character other than a blank. -/
def queryLines (szparent : List UInt8) : List (List UInt8) :=
  ((szparent.splitOnP isNewline).filter hasWord).map searchCode

/-- The first line has a word, and every other line that is ended is empty or has one. -/
def Readable (szparent : List UInt8) : Prop :=
  (szparent.splitOnP isNewline).head?.any hasWord = true ∧
    ∀ line ∈ (szparent.splitOnP isNewline).dropLast, line = [] ∨ hasWord line = true

instance (szparent : List UInt8) : Decidable (Readable szparent) :=
  inferInstanceAs (Decidable (_ ∧ _))

variable {src tok line before rest : List UInt8} {ch : UInt8}

/-- The tokens of a row of pieces: an empty piece gives none, and neither does a last
one of spaces. -/
def tokensOf : List (List UInt8) → List (List UInt8)
  | [] => []
  | [endstr] => if eraseSpaces endstr = [] then [] else [eraseSpaces endstr]
  | piece :: pieces => (if piece = [] then [] else [eraseSpaces piece]) ++ tokensOf pieces

theorem tokensOf_cons {pieces : List (List UInt8)} (more : pieces ≠ []) (piece : List UInt8) :
    tokensOf (piece :: pieces) = (if piece = [] then [] else [eraseSpaces piece]) ++ tokensOf pieces := by
  obtain ⟨next, others, rfl⟩ := List.exists_cons_of_ne_nil more
  rfl

theorem findFirstOf_none (clean : ∀ ch ∈ line, tok.contains ch = false) :
    findFirstOf (before ++ line) tok before.length = -1 := by
  rw [findFirstOf, List.drop_left, List.findIdx?_eq_none_iff.mpr clean]

theorem findFirstOf_some (clean : ∀ ch ∈ line, tok.contains ch = false) (stop : tok.contains ch = true)
    (counted : (before ++ (line ++ ch :: rest)).length < 2147483648) :
    findFirstOf (before ++ (line ++ ch :: rest)) tok before.length =
      (before.length + line.length : Nat) := by
  have place : (line ++ ch :: rest).findIdx? (tok.contains ·) = some line.length := by
    rw [List.findIdx?_append, List.findIdx?_eq_none_iff.mpr clean, List.findIdx?_cons, stop]
    simp
  rw [List.length_append, List.length_append] at counted
  rw [findFirstOf, List.drop_left, place]
  exact int32_of_range (by omega) (by omega)

theorem tokenizePass_piece (v : List (List UInt8)) (clean : ∀ ch ∈ line, tok.contains ch = false)
    (stop : tok.contains ch = true)
    (counted : (before ++ (line ++ ch :: rest)).length < 2147483648)
    (positive : 0 < before.length + line.length) :
    tokenizePass (before ++ (line ++ ch :: rest)) tok false [] { preIndex := before.length, v } =
      some (.again
        { preIndex := (before ++ (line ++ [ch])).length
          v := v ++ if line = [] then [] else [eraseSpaces line] }) := by
  have size : (before ++ (line ++ [ch])).length = before.length + line.length + 1 := by
    simp only [List.length_append, List.length_singleton, Nat.add_assoc]
  have width : ((before.length + line.length : Nat) : Int) - before.length = line.length := by
    omega
  simp only [tokenizePass, findFirstOf_some clean stop counted, width, Int.toNat_natCast, size,
    List.drop_left, List.take_left]
  rw [if_pos (Int.natCast_pos.mpr positive)]
  cases line with
  | nil => simp
  | cons first line => simp; omega

/-- From a positive position on, or if the first piece is not empty, the loop cuts at
every delimiter. -/
theorem tokenize_run (tok before rest : List UInt8) (v : List (List UInt8)) {fuel : Nat}
    (counted : (before ++ rest).length < 2147483648) (enough : rest.length < fuel)
    (begins : before ≠ [] ∨ ∀ delimiter others, tok.contains delimiter = true →
      rest ≠ delimiter :: others) :
    Loop.run (tokenizePass (before ++ rest) tok false []) fuel { preIndex := before.length, v } =
      some (v ++ tokensOf (rest.splitOnP (tok.contains ·))) := by
  induction rest using lines_induction fun ch => tok.contains ch generalizing before v fuel with
  | last line clean =>
    obtain ⟨fuel, rfl⟩ := Nat.exists_eq_succ_of_ne_zero (Nat.ne_zero_of_lt enough)
    rw [List.splitOnP_eq_singleton clean]
    refine Loop.run_leave ?_ fuel
    simp only [tokenizePass, findFirstOf_none clean, List.drop_left, tokensOf, List.isEmpty_iff]
    rw [if_neg (by decide)]
    by_cases blank : eraseSpaces line = []
    · simp only [blank, if_true, List.append_nil, Bool.false_eq_true, if_false]
    · simp only [blank, Bool.false_eq_true, if_false]
  | more line delimiter rest clean stop ih =>
    obtain ⟨fuel, rfl⟩ := Nat.exists_eq_succ_of_ne_zero (Nat.ne_zero_of_lt enough)
    have positive : 0 < before.length + line.length := by
      rcases begins with started | first
      · have := List.length_pos_iff.mpr started
        omega
      · cases line with
        | nil => exact absurd rfl (first delimiter rest stop)
        | cons ch line =>
          rw [List.length_cons]
          omega
    have next := tokenizePass_piece v clean stop counted positive
    have shift : before ++ (line ++ delimiter :: rest) = before ++ (line ++ [delimiter]) ++ rest := by
      simp only [List.append_assoc, List.singleton_append]
    rw [List.length_append, List.length_cons] at enough
    rw [Loop.run_again next, shift, ih _ _ (shift ▸ counted) (by omega) (.inl (by simp)),
      List.splitOnP_append_cons_of_forall_mem clean delimiter stop,
      tokensOf_cons (List.splitOnP_ne_nil _ rest), List.append_assoc]

theorem isBlank_of_isNewline (newline : isNewline ch = true) : isBlank ch = false := by
  rw [isNewline, List.contains_iff_mem] at newline
  rcases List.mem_pair.mp newline with rfl | rfl <;> rfl

theorem isNewline_toUpper (ch : UInt8) : isNewline (toUpper ch) = isNewline ch := by
  rw [isNewline, isNewline, Bool.eq_iff_iff, List.contains_iff_mem, List.contains_iff_mem,
    List.mem_pair, List.mem_pair, toUpper_eq_iff (.inl (by decide)), toUpper_eq_iff (.inl (by decide))]

/-- What a line behind another one becomes. -/
def spacedLine (line : List UInt8) : List UInt8 :=
  List.replicate (leadingSpaces line) 0x20 ++ filterSpacing line

theorem mem_spacedLine (member : ch ∈ spacedLine line) : ch = 0x20 ∨ ch ∈ line := by
  rcases List.mem_append.mp member with leading | inside
  · exact .inl (List.eq_of_mem_replicate leading)
  · exact mem_filterSpacing inside

theorem spacedLine_eq_nil_iff : spacedLine line = [] ↔ line = [] := by
  constructor
  · intro empty
    obtain ⟨leading, text⟩ := List.append_eq_nil_iff.mp empty
    cases line with
    | nil => rfl
    | cons ch line =>
      cases blank : isBlank ch with
      | true => simp [leadingSpaces, blank] at leading
      | false =>
        rw [filterSpacing, filterFrom_word _ blank] at text
        cases text
  · rintro rfl
    rfl

theorem clean_of_mem {other : List UInt8} (clean : ∀ ch ∈ line, isNewline ch = false)
    (from_line : ∀ ch ∈ other, ch = 0x20 ∨ ch ∈ line) : ∀ ch ∈ other, isNewline ch = false := by
  intro ch member
  rcases from_line ch member with rfl | inside
  · rfl
  · exact clean ch inside

/-- Filtering works on each line by itself. -/
theorem filterSpacing_lines (text : List UInt8) :
    ∃ first others, text.splitOnP isNewline = first :: others ∧
      (filterSpacing text).splitOnP isNewline = filterSpacing first :: others.map spacedLine ∧
      (spacedLine text).splitOnP isNewline = spacedLine first :: others.map spacedLine := by
  induction text using lines_induction isNewline with
  | last line clean =>
    refine ⟨line, [], List.splitOnP_eq_singleton clean, ?_, ?_⟩
    · exact List.splitOnP_eq_singleton (clean_of_mem clean fun ch => mem_filterSpacing)
    · exact List.splitOnP_eq_singleton (clean_of_mem clean fun ch => mem_spacedLine)
  | more line separator rest clean newline ih =>
    obtain ⟨first, others, lines, -, spaced⟩ := ih
    have isWord := isBlank_of_isNewline newline
    have filtered : filterSpacing (line ++ separator :: rest) =
        filterSpacing line ++ separator :: spacedLine rest := by
      rw [filterSpacing, filterFrom_append isWord, filterFrom_some isWord, spacedLine, filterSpacing,
        filterSpacing]
    refine ⟨line, first :: others, ?_, ?_, ?_⟩
    · rw [List.splitOnP_append_cons_of_forall_mem clean separator newline, lines]
    · rw [filtered, List.splitOnP_append_cons_of_forall_mem
        (clean_of_mem clean fun ch => mem_filterSpacing) separator newline, spaced]
      rfl
    · have leading : leadingSpaces (line ++ separator :: rest) = leadingSpaces line := by
        cases line with
        | nil => exact if_neg (by rw [isWord]; exact Bool.false_ne_true)
        | cons ch line => rfl
      rw [spacedLine, leading, filtered, ← List.append_assoc, ← spacedLine,
        List.splitOnP_append_cons_of_forall_mem (clean_of_mem clean fun ch => mem_spacedLine)
          separator newline, spaced]
      rfl

theorem searchCode_eq_nil_iff : searchCode line = [] ↔ hasWord line = false := by
  rw [searchCode, squeeze_eq_nil_iff, List.forall_mem_map, hasWord, List.any_eq_false]
  simp only [isBlank_toUpper, Bool.not_eq_true', Bool.not_eq_false]

theorem filterSpacing_trailing (line : List UInt8) :
    ∃ trailing, filterSpacing line = squeeze isBlank 0x20 line ++ List.replicate trailing 0x20 := by
  rw [filterSpacing_eq]
  split
  · exact ⟨1, rfl⟩
  · exact ⟨0, rfl⟩

theorem eraseSpaces_leading (leading : Nat) (line : List UInt8) :
    eraseSpaces (List.replicate leading 0x20 ++ filterSpacing (line.map toUpper)) = searchCode line := by
  obtain ⟨trailing, filtered⟩ := filterSpacing_trailing (line.map toUpper)
  rw [filtered, ← List.append_assoc]
  exact trim_squeeze isBlank_space leading trailing

/-- The pieces behind the first line give the lines with a word, exactly if no line of
blanks is ended. -/
theorem tokensOf_lines (lines : List (List UInt8)) :
    tokensOf (lines.map fun line => spacedLine (line.map toUpper)) = (lines.filter hasWord).map searchCode ↔
      ∀ line ∈ lines.dropLast, line = [] ∨ hasWord line = true := by
  induction lines with
  | nil => exact iff_of_true rfl (List.forall_mem_nil _)
  | cons line lines ih =>
    have erased : eraseSpaces (spacedLine (line.map toUpper)) = searchCode line :=
      eraseSpaces_leading _ line
    cases lines with
    | nil =>
      refine iff_of_true ?_ (List.forall_mem_nil _)
      rw [List.map_singleton, tokensOf, erased]
      cases word : hasWord line with
      | true =>
        have filled : searchCode line ≠ [] := by
          rw [ne_eq, searchCode_eq_nil_iff, word]
          decide
        rw [if_neg filled, List.filter_cons_of_pos word]
        rfl
      | false =>
        rw [if_pos (searchCode_eq_nil_iff.mpr word), List.filter_cons_of_neg (by rw [word]; decide)]
        rfl
    | cons next lines =>
      have piece : spacedLine (line.map toUpper) = [] ↔ line = [] := by
        rw [spacedLine_eq_nil_iff, List.map_eq_nil_iff]
      rw [List.map_cons, tokensOf_cons (by simp), erased, List.dropLast_cons_of_ne_nil (by simp),
        List.forall_mem_cons, ← ih]
      cases word : hasWord line with
      | true =>
        have filled : line ≠ [] := by
          rintro rfl
          cases word
        rw [if_neg (mt piece.mp filled), List.filter_cons_of_pos word, List.singleton_append]
        exact (List.cons_inj_right _).trans (and_iff_right (.inr rfl)).symm
      | false =>
        rw [List.filter_cons_of_neg (by rw [word]; decide)]
        by_cases empty : line = []
        · rw [if_pos (piece.mpr empty), List.nil_append]
          exact (and_iff_right (.inl empty)).symm
        · rw [if_neg (mt piece.mp empty), searchCode_eq_nil_iff.mpr word]
          refine iff_of_false (fun same => ?_) fun both => ?_
          · have member : [] ∈ ((next :: lines).filter hasWord).map searchCode := by
              rw [← same]
              exact List.mem_cons_self ..
            obtain ⟨other, inside, blank⟩ := List.mem_map.mp member
            rw [searchCode_eq_nil_iff, (List.mem_filter.mp inside).2] at blank
            cases blank
          · rcases both.1 with same | same
            · exact empty same
            · cases same

theorem isNewline_of_mem_lines {szparent : List UInt8} (member : line ∈ szparent.splitOnP isNewline) :
    ∀ ch ∈ line, isNewline ch = false := by
  induction szparent using lines_induction isNewline with
  | last whole clean =>
    rw [List.splitOnP_eq_singleton clean, List.mem_singleton] at member
    exact member ▸ clean
  | more first separator rest clean newline ih =>
    rw [List.splitOnP_append_cons_of_forall_mem clean separator newline] at member
    rcases List.mem_cons.mp member with rfl | later
    · exact clean
    · exact ih later

theorem isNewline_of_mem_queryLines {szparent token : List UInt8} (member : token ∈ queryLines szparent) :
    ∀ ch ∈ token, isNewline ch = false := by
  obtain ⟨line, inside, rfl⟩ := List.mem_map.mp member
  have clean := isNewline_of_mem_lines (List.mem_filter.mp inside).1
  intro ch here
  rcases mem_squeeze here with rfl | turned
  · rfl
  · obtain ⟨letter, there, rfl⟩ := List.mem_map.mp turned
    rw [isNewline_toUpper]
    exact clean letter there

theorem mem_eraseSpaces (other : ch ≠ 0x20) (member : ch ∈ line) : ch ∈ eraseSpaces line := by
  have kept {text : List UInt8} (inside : ch ∈ text) : ch ∈ text.dropWhile (· == 0x20) := by
    rw [← List.takeWhile_append_dropWhile (p := (· == (0x20 : UInt8))) (l := text)] at inside
    rcases List.mem_append.mp inside with spaces | rest
    · have space : (ch == 0x20) = true := by simpa using List.mem_takeWhile_imp spaces
      exact absurd (eq_of_beq space) other
    · exact rest
  rw [eraseSpaces, List.rdropWhile, List.mem_reverse]
  exact kept (List.mem_reverse.mpr (kept member))

theorem tokensOf_word {piece : List UInt8} (filled : eraseSpaces piece ≠ []) (pieces : List (List UInt8)) :
    tokensOf (piece :: pieces) = eraseSpaces piece :: tokensOf pieces := by
  have nonempty : piece ≠ [] := by
    rintro rfl
    exact filled rfl
  cases pieces with
  | nil => exact if_neg filled
  | cons next others =>
    rw [tokensOf_cons (List.cons_ne_nil next others), if_neg nonempty, List.singleton_append]

/-- A text that starts with a delimiter is one token. -/
theorem tokenize_delimiter (delimits : tok.contains ch = true) (other : ch ≠ 0x20) (rest : List UInt8) :
    tokenize (ch :: rest) tok false [] = some (.ok [eraseSpaces (ch :: rest)]) := by
  have nonempty : tok.isEmpty = false := by
    cases tok with
    | nil => cases delimits
    | cons => rfl
  have filled : (eraseSpaces (ch :: rest)).isEmpty = false := by
    rw [List.isEmpty_eq_false_iff]
    exact List.ne_nil_of_mem (mem_eraseSpaces other (List.mem_cons_self ..))
  have index : findFirstOf (ch :: rest) tok 0 = 0 := by
    rw [findFirstOf, List.drop_zero, List.findIdx?_cons, delimits]
    rfl
  have left : tokenizePass (ch :: rest) tok false [] { preIndex := 0, v := [] } =
      some (.leave [eraseSpaces (ch :: rest)]) := by
    simp only [tokenizePass, index, List.drop_zero, filled, Bool.false_eq_true, if_false,
      Int.lt_irrefl, List.nil_append]
  rw [tokenize, nonempty, Loop.run_leave left]
  rfl

theorem tokenize_lines {first : List UInt8} {others : List (List UInt8)} (filled : first ≠ [])
    (split : src.splitOnP (fun ch => tok.contains ch) = first :: others) (nonempty : tok ≠ [])
    (counted : src.length < 2147483648) :
    tokenize src tok false [] = some (.ok (tokensOf (first :: others))) := by
  have started : src ≠ [] := by
    rintro rfl
    exact filled (List.cons.inj split).1.symm
  have run := tokenize_run tok [] src [] counted (Nat.lt_succ_self _)
    (.inr fun delimiter rest stop same => by
      subst same
      rw [List.splitOnP_cons_eq_if_modifyHead, if_pos stop] at split
      exact filled (List.cons.inj split).1.symm)
  rw [tokenize, if_neg (by simp [started, nonempty])]
  rw [List.nil_append, List.nil_append, split] at run
  rw [List.length_nil] at run
  rw [run]
  rfl

/-- The lines of a query and the pieces they become. -/
theorem filtered_lines {szparent : List UInt8} (terminated : 0 ∉ szparent) :
    ∃ first others, szparent.splitOnP isNewline = first :: others ∧
      (filterSpacing (strupr szparent)).splitOnP isNewline =
        filterSpacing (first.map toUpper) :: others.map fun line => spacedLine (line.map toUpper) := by
  obtain ⟨first, others, lines, filtered, -⟩ := filterSpacing_lines (strupr szparent)
  obtain ⟨head, rest, split⟩ := List.exists_cons_of_ne_nil (List.splitOnP_ne_nil isNewline szparent)
  rw [strupr_text terminated, splitOnP_map toUpper isNewline_toUpper, split, List.map_cons] at lines
  obtain ⟨rfl, rfl⟩ := List.cons.inj lines
  refine ⟨head, rest, split, ?_⟩
  rw [filtered, List.map_map]
  rfl

/-- A first line of blanks leaves nothing to cut, or a delimiter in front. -/
theorem vSearchCodes_blank {szparent first : List UInt8} {others : List (List UInt8)}
    (terminated : 0 ∉ szparent) (split : szparent.splitOnP isNewline = first :: others)
    (blank : hasWord first = false) : vSearchCodes szparent ≠ some (.ok (queryLines szparent)) := by
  obtain ⟨head, rest, lines, filtered⟩ := filtered_lines terminated
  obtain ⟨rfl, rfl⟩ := List.cons.inj (lines.symm.trans split)
  have nothing : filterSpacing (head.map toUpper) = [] := by
    rw [filterSpacing_eq]
    have squeezed : squeeze isBlank 0x20 (head.map toUpper) = [] := searchCode_eq_nil_iff.mpr blank
    simp [squeezed]
  rw [nothing] at filtered
  rw [vSearchCodes]
  generalize filterSpacing (strupr szparent) = text at filtered ⊢
  cases text with
  | nil => simp [tokenize]
  | cons ch text =>
    have newline : isNewline ch = true := by
      by_contra other
      rw [List.splitOnP_cons_eq_if_modifyHead, if_neg other] at filtered
      obtain ⟨word, pieces, shape⟩ := List.exists_cons_of_ne_nil (List.splitOnP_ne_nil isNewline text)
      rw [shape] at filtered
      cases filtered
    have notSpace : ch ≠ 0x20 := by
      rintro rfl
      cases newline
    rw [tokenize_delimiter newline notSpace]
    intro same
    have codes : [eraseSpaces (ch :: text)] = queryLines szparent := by simpa using same
    have clean := isNewline_of_mem_queryLines (codes ▸ List.mem_singleton_self _)
      ch (mem_eraseSpaces notSpace (List.mem_cons_self ..))
    rw [newline] at clean
    cases clean

/-- A first line with a word is the first token, and the other lines are cut behind it. -/
theorem vSearchCodes_word {szparent first : List UInt8} {others : List (List UInt8)}
    (terminated : 0 ∉ szparent) (counted : szparent.length < 2147483648)
    (split : szparent.splitOnP isNewline = first :: others) (word : hasWord first = true) :
    vSearchCodes szparent = some (.ok
      (searchCode first :: tokensOf (others.map fun line => spacedLine (line.map toUpper)))) := by
  obtain ⟨head, rest, lines, filtered⟩ := filtered_lines terminated
  obtain ⟨rfl, rfl⟩ := List.cons.inj (lines.symm.trans split)
  have shorter : (filterSpacing (strupr szparent)).length < 2147483648 := by
    have length := filterFrom_length_le none (strupr szparent)
    rw [strupr_length] at length
    exact Nat.lt_of_le_of_lt length counted
  have erased : eraseSpaces (filterSpacing (head.map toUpper)) = searchCode head :=
    eraseSpaces_leading 0 head
  have filled : searchCode head ≠ [] := by
    rw [ne_eq, searchCode_eq_nil_iff, word]
    decide
  have nonempty : filterSpacing (head.map toUpper) ≠ [] := by
    intro empty
    rw [empty] at erased
    exact filled erased.symm
  rw [vSearchCodes, tokenize_lines nonempty filtered (List.cons_ne_nil _ _) shorter,
    tokensOf_word (erased ▸ filled), erased]

/-- The tokens are the lines with a word exactly if the first line has one and every other line
that is ended is empty or has one. -/
theorem vSearchCodes_iff (szparent : List UInt8) (terminated : 0 ∉ szparent)
    (counted : szparent.length < 2147483648) :
    vSearchCodes szparent = some (.ok (queryLines szparent)) ↔ Readable szparent := by
  obtain ⟨first, others, split⟩ := List.exists_cons_of_ne_nil (List.splitOnP_ne_nil isNewline szparent)
  cases word : hasWord first with
  | false =>
    refine iff_of_false (vSearchCodes_blank terminated split word) fun readable => ?_
    have head := readable.1
    rw [split, List.head?_cons, Option.any_some, word] at head
    cases head
  | true =>
    have readable : Readable szparent ↔ ∀ line ∈ others.dropLast, line = [] ∨ hasWord line = true := by
      rw [Readable, split, List.head?_cons, Option.any_some, word, eq_self, true_and]
      cases others with
      | nil => exact iff_of_true (List.forall_mem_nil _) (List.forall_mem_nil _)
      | cons next others =>
        rw [List.dropLast_cons_of_ne_nil (List.cons_ne_nil next others), List.forall_mem_cons]
        exact and_iff_right (.inr word)
    rw [vSearchCodes_word terminated counted split word, queryLines, split, readable, ← tokensOf_lines,
      List.filter_cons_of_pos word, Option.some.injEq, Except.ok.injEq]
    exact List.cons_inj_right _

/-- `ldr r0` and `bl`, with an empty line between them. -/
theorem vSearchCodes_two :
    vSearchCodes [0x6C, 0x64, 0x72, 0x09, 0x72, 0x30, 0x20, 0x0D, 0x0A, 0x0D, 0x0A, 0x20, 0x62, 0x6C] =
      some (.ok (queryLines
        [0x6C, 0x64, 0x72, 0x09, 0x72, 0x30, 0x20, 0x0D, 0x0A, 0x0D, 0x0A, 0x20, 0x62, 0x6C])) :=
  (vSearchCodes_iff [0x6C, 0x64, 0x72, 0x09, 0x72, 0x30, 0x20, 0x0D, 0x0A, 0x0D, 0x0A, 0x20, 0x62, 0x6C]
    (by decide) (by decide)).mpr (by decide)

/-- An empty line in front makes one token of the whole query, a line of blanks an empty
token, and a query of blanks is thrown out. -/
theorem vSearchCodes_misreads :
    (vSearchCodes [0x0A, 0x62, 0x0A, 0x63] = some (.ok [[0x0A, 0x42, 0x0A, 0x43]]) ∧
        queryLines [0x0A, 0x62, 0x0A, 0x63] = [[0x42], [0x43]]) ∧
      (vSearchCodes [0x62, 0x0A, 0x20, 0x0A, 0x63] = some (.ok [[0x42], [], [0x43]]) ∧
        queryLines [0x62, 0x0A, 0x20, 0x0A, 0x63] = [[0x42], [0x43]]) ∧
      vSearchCodes [0x20] = some (.error "tokenize: empty string") ∧ queryLines [0x20] = [] := by
  refine ⟨⟨?_, ?_⟩, ⟨?_, ?_⟩, ?_, ?_⟩ <;> decide

/-- The line as the snapshot stores it. -/
def storedLine (line : List UInt8) : List UInt8 :=
  strupr (filterSpacing line)

/-- What a line must not have to stand for itself as a query. -/
def Literal (line : List UInt8) : Prop :=
  ∀ ch ∈ line, ch ≠ 0 ∧ isNewline ch = false ∧ ch ≠ 0x2A ∧ ch ≠ 0x3F

theorem Literal.terminated (literal : Literal line) : 0 ∉ line :=
  fun zero => (literal 0 zero).1 rfl

theorem vSearchCodes_line (literal : Literal line) (word : hasWord line = true)
    (counted : line.length < 2147483648) :
    vSearchCodes line = some (.ok [searchCode line]) :=
  vSearchCodes_word literal.terminated counted
    (List.splitOnP_eq_singleton fun ch member => (literal ch member).2.1) word

theorem storedLine_eq (literal : Literal line) (word : hasWord line = true) :
    storedLine line = searchCode line ++ if endsBlank line = true then [0x20] else [] := by
  have terminated : 0 ∉ filterSpacing line := by
    intro zero
    rcases mem_filterSpacing zero with space | inside
    · cases space
    · exact literal.terminated inside
  have turned : searchCode line = (squeeze isBlank 0x20 line).map toUpper :=
    squeeze_map toUpper isBlank_toUpper rfl line
  have filled : squeeze isBlank 0x20 line ≠ [] := by
    intro empty
    rw [empty] at turned
    rw [searchCode_eq_nil_iff.mp turned] at word
    cases word
  rw [storedLine, strupr_text terminated, filterSpacing_eq, List.map_append, ← turned]
  simp only [ne_eq, filled, not_false_eq_true, true_and]
  split <;> rfl

theorem Literal.code (literal : Literal line) : Literal (searchCode line) := by
  intro ch member
  rcases mem_squeeze member with rfl | turned
  · decide
  · obtain ⟨letter, inside, rfl⟩ := List.mem_map.mp turned
    obtain ⟨terminated, newline, star, question⟩ := literal letter inside
    refine ⟨?_, (isNewline_toUpper letter).trans newline, ?_, ?_⟩
    · exact mt (toUpper_eq_iff (.inl (by decide))).mp terminated
    · exact mt (toUpper_eq_iff (.inl (by decide))).mp star
    · exact mt (toUpper_eq_iff (.inl (by decide))).mp question

/-- A token without marks matches exactly the lines that are the same but for case. -/
theorem matchingString_literal {lpszSour lpszMatch : List UInt8} (sourTerminated : 0 ∉ lpszSour)
    (literal : Literal lpszMatch) :
    matchingString lpszSour lpszMatch false = some true ↔
      lpszSour.map toLower = lpszMatch.map toLower := by
  have plain : Plain lpszMatch := fun marks =>
    (literal 0x3F (marks.subset (List.mem_cons_of_mem _ (List.mem_cons_self ..)))).2.2.2 rfl
  have symbols : lpszMatch.map symbol = lpszMatch.map .literal :=
    List.map_congr_left fun ch member => by
      rw [symbol, if_neg (literal ch member).2.2.1, if_neg (literal ch member).2.2.2]
  have globs : Globs false lpszSour lpszMatch ↔ lpszSour.map toLower = lpszMatch.map toLower := by
    rw [Globs, symbols, Search.Glob.matches_literals_iff, ← List.forall₂_eq_eq_eq,
      List.forall₂_map_left_iff, List.forall₂_map_right_iff]
    exact Iff.rfl
  obtain ⟨bIsMatched, ran, right, complete⟩ :=
    matchingString_answers false sourTerminated literal.terminated
  rw [ran, Option.some.injEq, ← globs]
  exact ⟨right, complete plain⟩

/-- The query is one token, and the token matches the stored line. -/
def FindsItself (line : List UInt8) : Prop :=
  ∃ token, vSearchCodes line = some (.ok [token]) ∧ matchingString (storedLine line) token false = some true

/-- A listing line finds itself exactly if no blank ends it. -/
theorem findsItself_iff (line : List UInt8) (literal : Literal line) (word : hasWord line = true)
    (counted : line.length < 2147483648) : FindsItself line ↔ endsBlank line = false := by
  have token := vSearchCodes_line literal word counted
  have stored := storedLine_eq literal word
  have terminated : 0 ∉ storedLine line := by
    rw [stored]
    intro zero
    rcases List.mem_append.mp zero with inside | space
    · exact literal.code.terminated inside
    · split at space
      · cases List.mem_singleton.mp space
      · cases space
  have matched : FindsItself line ↔ (storedLine line).map toLower = (searchCode line).map toLower := by
    rw [← matchingString_literal terminated literal.code]
    constructor
    · rintro ⟨other, parsed, holds⟩
      have same : searchCode line = other := by simpa [token] using parsed
      rwa [same]
    · exact fun holds => ⟨searchCode line, token, holds⟩
  rw [matched, stored]
  cases endsBlank line with
  | false => exact iff_of_true (by simp) rfl
  | true =>
    refine iff_of_false (fun same => ?_) (by decide)
    have length := congrArg List.length same
    simp at length

/-- `add r0, r1`. -/
theorem findsItself_add : FindsItself [0x61, 0x64, 0x64, 0x09, 0x72, 0x30, 0x2C, 0x20, 0x72, 0x31] :=
  (findsItself_iff [0x61, 0x64, 0x64, 0x09, 0x72, 0x30, 0x2C, 0x20, 0x72, 0x31]
    (List.forall_iff_forall_mem.mp (by decide)) (by decide) (by decide)).mpr (by decide)

/-- The space behind `nop` is stored, and the query comes without it. -/
theorem findsItself_fails :
    Literal [0x6E, 0x6F, 0x70, 0x20] ∧ hasWord [0x6E, 0x6F, 0x70, 0x20] = true ∧
      vSearchCodes [0x6E, 0x6F, 0x70, 0x20] = some (.ok [[0x4E, 0x4F, 0x50]]) ∧
      storedLine [0x6E, 0x6F, 0x70, 0x20] = [0x4E, 0x4F, 0x50, 0x20] ∧
      matchingString [0x4E, 0x4F, 0x50, 0x20] [0x4E, 0x4F, 0x50] false = some false ∧
      ¬ FindsItself [0x6E, 0x6F, 0x70, 0x20] := by
  have parsed : vSearchCodes [0x6E, 0x6F, 0x70, 0x20] = some (.ok [[0x4E, 0x4F, 0x50]]) := by decide
  have stored : storedLine [0x6E, 0x6F, 0x70, 0x20] = [0x4E, 0x4F, 0x50, 0x20] := by decide
  have missed : matchingString [0x4E, 0x4F, 0x50, 0x20] [0x4E, 0x4F, 0x50] false = some false := by decide
  refine ⟨List.forall_iff_forall_mem.mp (by decide), by decide, parsed, stored, missed, ?_⟩
  rintro ⟨token, read, matched⟩
  have same : [0x4E, 0x4F, 0x50] = token := by simpa [parsed] using read
  rw [stored, ← same, missed] at matched
  cases matched

end IDAPlugins.FindCode
