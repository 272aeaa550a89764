import IDAPlugins.Loop
import IDAPlugins.Overlay
import IDAPlugins.PatchArm.Lines

namespace IDAPlugins.PatchArm

/-! # Talking to the assembler

`WriteSrcFile` prints the text for the assembler into a local array, `MyWinExec` copies
what the assembler prints into a buffer of its caller, and `Str_Find_str` looks there for
the word `Error`. `none` is an access outside an array.
-/

def ascii (text : String) : List UInt8 :=
  text.toList.map fun c => UInt8.ofNat c.toNat

/-- What `%s` prints of `g_StaticData`. -/
def g_StaticData : List UInt8 :=
  ascii ".globl _start\n.align 2\n_start:\n.code "

def markerLine : List UInt8 :=
  ascii "\n.byte 0x12,0x34,0x56,0x78,0x90,0x12,0x34,0x56,0xFF,0xFF,0xFF,0xFF"

/-- `16 * (2 - g_nType)` as `%d` prints it. -/
def codeSize : Mode → List UInt8
  | .arm => ascii "32"
  | .thumb => ascii "16"

def srcText (build : Build) (lpInData : List UInt8) : List UInt8 :=
  match build with
  | .ea64 => lpInData ++ markerLine
  | .ea32 g_nType => g_StaticData ++ codeSize g_nType ++ [0x0A] ++ lpInData ++ markerLine

/-- `sprintf` stores the text with its zero into 4096 bytes. -/
def writeSrcFile (build : Build) (lpInData : List UInt8) : Option (List UInt8) :=
  if (srcText build lpInData).length < 4096 then some (srcText build lpInData) else none

structure Reading where
  lpOutBuf : List UInt8
  sum : Nat

/-- A chunk that `ReadFile` gives is copied whole if it starts inside the buffer. -/
def readChunk (nLen : Nat) (state : Reading) (chunk : List UInt8) : Option Reading :=
  if state.sum < nLen then
    (Overlay.put nLen state.lpOutBuf state.sum chunk).map fun lpOutBuf =>
      { lpOutBuf, sum := state.sum + chunk.length }
  else
    some { state with sum := state.sum + chunk.length }

/-- The buffer, zero before, behind the loop of `MyWinExec`. -/
def myWinExec (nLen : Nat) (chunks : List (List UInt8)) : Option (List UInt8) :=
  (chunks.foldlM (readChunk nLen) { lpOutBuf := List.replicate nLen 0, sum := 0 }).map
    (·.lpOutBuf)

def strlen (memory : List UInt8) : Option Nat :=
  memory.idxOf? 0

/-- One pass of `Str_Find_str`: `memcpy` reads `len` bytes, also behind the zero. -/
def findPass (memory FindStr : List UInt8) (retIndex : Int) (i : Nat) : Option Int :=
  if i + FindStr.length ≤ memory.length then
    some (if (memory.drop i).take FindStr.length = FindStr then i else retIndex)
  else none

def strFindStr (memory FindStr : List UInt8) : Option Int := do
  let SrcSize ← strlen memory
  (List.range SrcSize).foldlM (findPass memory FindStr) (-1)

variable {nLen : Nat} {chunks : List (List UInt8)} {buffer done : List UInt8}

/-- The state behind some output. -/
def filled (nLen : Nat) (done : List UInt8) : Reading where
  lpOutBuf := done.take nLen ++ List.replicate (nLen - done.length) 0
  sum := done.length

/-- Only a chunk that starts inside the buffer and ends behind it does harm. -/
theorem readChunk_filled (chunk : List UInt8) :
    readChunk nLen (filled nLen done) chunk =
      if done.length < nLen ∧ nLen < done.length + chunk.length then none
      else some (filled nLen (done ++ chunk)) := by
  have length : (done ++ chunk).length = done.length + chunk.length := List.length_append
  have lpOutBuf : (filled nLen done).lpOutBuf =
      done.take nLen ++ List.replicate (nLen - done.length) 0 := rfl
  have sum : (filled nLen done).sum = done.length := rfl
  by_cases inside : done.length < nLen
  · rw [readChunk, if_pos (sum ▸ inside), lpOutBuf, sum, List.take_of_length_le (Nat.le_of_lt inside)]
    by_cases longer : nLen < done.length + chunk.length
    · have fails : Overlay.put nLen (done ++ List.replicate (nLen - done.length) 0) done.length
          chunk = none := by
        rw [← Option.not_isSome_iff_eq_none, Overlay.put_isSome_iff]
        intro room
        exact absurd (room nLen (Nat.le_of_lt inside) longer).2 (Nat.lt_irrefl nLen)
      rw [fails, if_pos ⟨inside, longer⟩, Option.map_none]
    · have split : List.replicate (nLen - done.length) (0 : UInt8) =
          List.replicate chunk.length 0 ++ List.replicate (nLen - (done ++ chunk).length) 0 := by
        rw [List.replicate_append_replicate]
        congr 1
        omega
      have room : done.length + (List.replicate chunk.length (0 : UInt8)).length ≤ nLen := by
        rw [List.length_replicate]
        omega
      rw [split, Overlay.put_replaces List.length_replicate.symm room, if_neg (by omega),
        Option.map_some, filled, List.take_of_length_le (by omega), ← length, List.append_assoc]
  · have full : nLen ≤ done.length := Nat.le_of_not_lt inside
    rw [readChunk, if_neg (sum ▸ inside), if_neg (by omega), lpOutBuf, sum, filled,
      List.take_append_of_le_length full, Nat.sub_eq_zero_of_le full,
      Nat.sub_eq_zero_of_le (by omega : nLen ≤ (done ++ chunk).length), length]

/-- No chunk does harm when the output fits, or some of the first chunks fill the buffer
to its last byte. -/
def Harmless (nLen : Nat) (done : List UInt8) (chunks : List (List UInt8)) : Prop :=
  nLen ≤ done.length ∨ done.length + chunks.flatten.length ≤ nLen ∨
    ∃ front, front <+: chunks ∧ done.length + front.flatten.length = nLen

theorem harmless_cons (chunk : List UInt8) :
    Harmless nLen done (chunk :: chunks) ↔
      ¬(done.length < nLen ∧ nLen < done.length + chunk.length) ∧
        Harmless nLen (done ++ chunk) chunks := by
  rw [Harmless, Harmless, List.flatten_cons, List.length_append, List.length_append]
  constructor
  · rintro (full | fits | ⟨front, start, exact⟩)
    · exact ⟨by omega, Or.inl (by omega)⟩
    · exact ⟨by omega, Or.inr (Or.inl (by omega))⟩
    · cases front with
      | nil =>
        -- the buffer is full already
        rw [List.flatten_nil, List.length_nil] at exact
        exact ⟨by omega, Or.inl (by omega)⟩
      | cons first front =>
        obtain ⟨rfl, further⟩ := List.cons_prefix_cons.mp start
        rw [List.flatten_cons, List.length_append] at exact
        exact ⟨by omega, Or.inr (Or.inr ⟨front, further, by omega⟩)⟩
  · rintro ⟨kept, full | fits | ⟨front, start, exact⟩⟩
    · by_cases before : nLen ≤ done.length
      · exact Or.inl before
      · refine Or.inr (Or.inr ⟨[chunk], (List.prefix_append [chunk] chunks), ?_⟩)
        rw [List.flatten_singleton]
        omega
    · exact Or.inr (Or.inl (by omega))
    · refine Or.inr (Or.inr ⟨chunk :: front, List.cons_prefix_cons.mpr ⟨rfl, start⟩, ?_⟩)
      rw [List.flatten_cons, List.length_append]
      omega

theorem foldlM_readChunk (chunks : List (List UInt8)) (state : Reading) :
    chunks.foldlM (readChunk nLen) (filled nLen done) = some state ↔
      Harmless nLen done chunks ∧ state = filled nLen (done ++ chunks.flatten) := by
  induction chunks generalizing done with
  | nil =>
    have harmless : Harmless nLen done [] := by
      rcases Nat.le_total nLen done.length with full | fits
      · exact Or.inl full
      · exact Or.inr (Or.inl fits)
    rw [List.foldlM_nil, List.flatten_nil, List.append_nil]
    constructor
    · rintro ⟨⟩
      exact ⟨harmless, rfl⟩
    · rintro ⟨-, rfl⟩
      rfl
  | cons chunk chunks ih =>
    rw [List.foldlM_cons, readChunk_filled, harmless_cons, List.flatten_cons, ← List.append_assoc,
      and_assoc, ← ih]
    split
    · rename_i harm
      simp [harm]
    · rename_i kept
      simp only [Option.bind_eq_bind, Option.bind_some, kept, not_false_eq_true, true_and]

/-- What a program prints comes into the buffer, as far as it goes and with zeros behind it,
exactly when it fits or its first chunks end with the buffer. In any other run a store lies
outside. -/
theorem myWinExec_iff :
    myWinExec nLen chunks = some buffer ↔
      (chunks.flatten.length ≤ nLen ∨
          ∃ front, front <+: chunks ∧ front.flatten.length = nLen) ∧
        buffer = chunks.flatten.take nLen ++ List.replicate (nLen - chunks.flatten.length) 0 := by
  have start : filled nLen [] = { lpOutBuf := List.replicate nLen 0, sum := 0 } := by
    simp [filled]
  have harmless : Harmless nLen [] chunks ↔ chunks.flatten.length ≤ nLen ∨
      ∃ front, front <+: chunks ∧ front.flatten.length = nLen := by
    simp only [Harmless, List.length_nil, Nat.zero_add]
    constructor
    · rintro (empty | rest)
      · refine Or.inr ⟨[], List.nil_prefix, ?_⟩
        rw [List.flatten_nil, List.length_nil]
        omega
      · exact rest
    · exact Or.inr
  rw [myWinExec, ← start, Option.map_eq_some_iff]
  simp only [foldlM_readChunk, harmless, List.nil_append]
  constructor
  · rintro ⟨state, ⟨kept, rfl⟩, rfl⟩
    exact ⟨kept, rfl⟩
  · rintro ⟨kept, rfl⟩
    exact ⟨_, ⟨kept, rfl⟩, rfl⟩

variable {memory text FindStr : List UInt8}

/-- The index of the last occurrence, or −1. -/
structure LastIndex (text FindStr : List UInt8) (retIndex : Int) : Prop where
  last : ∀ j : Nat, FindStr <+: text.drop j → (j : Int) ≤ retIndex
  place : retIndex = -1 ∨ ∃ i : Nat, retIndex = i ∧ FindStr <+: text.drop i

theorem strlen_text (plain : 0 ∉ text) (rest : List UInt8) :
    strlen (text ++ 0 :: rest) = some text.length := by
  induction text with
  | nil => simp [strlen, List.idxOf?_cons]
  | cons ch text ih =>
    obtain ⟨other, plain⟩ := not_or.mp (List.mem_cons.not.mp plain)
    have differs : (ch == 0) = false := beq_eq_false_iff_ne.mpr (Ne.symm other)
    rw [strlen, List.cons_append, List.idxOf?_cons, differs, ← strlen, ih plain]
    rfl

/-- The string at the start of the memory. -/
def cString (memory : List UInt8) : List UInt8 :=
  memory.takeWhile (· != 0)

theorem cString_plain (memory : List UInt8) : 0 ∉ cString memory := by
  intro member
  have other := List.mem_takeWhile_imp member
  exact absurd other (by decide)

theorem cString_split (ends : 0 ∈ memory) : ∃ rest, memory = cString memory ++ 0 :: rest := by
  induction memory with
  | nil => cases ends
  | cons ch memory ih =>
    by_cases zero : ch = 0
    · exact ⟨memory, by rw [zero]; rfl⟩
    · obtain ⟨rest, split⟩ := ih ((List.mem_cons.mp ends).resolve_left (Ne.symm zero))
      refine ⟨rest, ?_⟩
      rw [cString, List.takeWhile_cons_of_pos (by simpa using zero), List.cons_append, ← cString,
        ← split]

/-- A word without a zero is not found across the end of a string. -/
theorem found_iff (nonzero : 0 ∉ FindStr) (rest : List UInt8) {i : Nat} (inside : i < text.length) :
    ((text ++ 0 :: rest).drop i).take FindStr.length = FindStr ↔ FindStr <+: text.drop i := by
  rw [← List.prefix_iff_eq_take.trans eq_comm, List.drop_append_of_le_length (Nat.le_of_lt inside)]
  constructor
  · intro start
    rcases Nat.lt_or_ge (text.drop i).length FindStr.length with longer | shorter
    · have zero : FindStr[(text.drop i).length]? = some 0 := by
        obtain ⟨behind, whole⟩ := start
        have place := congrArg (·[(text.drop i).length]?) whole
        simp only [List.getElem?_append_left longer, List.getElem?_append_right (Nat.le_refl _),
          Nat.sub_self, List.getElem?_cons_zero] at place
        exact place
      exact absurd (List.mem_of_getElem? zero) nonzero
    · exact List.prefix_of_prefix_length_le start (List.prefix_append _ _) shorter
  · intro start
    exact start.trans (List.prefix_append _ _)

/-- The passes over the first characters, when the last of them may still be read. -/
theorem foldlM_findPass (nonzero : 0 ∉ FindStr) (rest : List UInt8) {count : Nat} (inside : count ≤ text.length)
    (room : count = 0 ∨ count + FindStr.length ≤ (text ++ 0 :: rest).length + 1) :
    ∃ retIndex, (List.range count).foldlM (findPass (text ++ 0 :: rest) FindStr) (-1) =
        some retIndex ∧
      (∀ j < count, FindStr <+: text.drop j → (j : Int) ≤ retIndex) ∧
      (retIndex = -1 ∨ ∃ i : Nat, retIndex = i ∧ i < count ∧ FindStr <+: text.drop i) := by
  induction count with
  | zero => exact ⟨-1, rfl, fun j bound => absurd bound (Nat.not_lt_zero j), Or.inl rfl⟩
  | succ count ih =>
    obtain ⟨retIndex, ran, last, place⟩ := ih (by omega) (by omega)
    rw [List.range_succ, List.foldlM_append, ran]
    have reads : count + FindStr.length ≤ (text ++ 0 :: rest).length := by omega
    simp only [List.foldlM_cons, List.foldlM_nil, Option.bind_eq_bind, Option.bind_some, findPass,
      if_pos reads, found_iff nonzero rest inside, Option.pure_def]
    by_cases here : FindStr <+: text.drop count
    · refine ⟨count, by rw [if_pos here], fun j bound _ => ?_, Or.inr ⟨count, rfl, by omega, here⟩⟩
      exact Int.ofNat_le.mpr (Nat.le_of_lt_succ bound)
    · refine ⟨retIndex, by rw [if_neg here], fun j bound start => ?_, ?_⟩
      · rcases Nat.lt_or_eq_of_le (Nat.le_of_lt_succ bound) with before | same
        · exact last j before start
        · exact absurd (same ▸ start) here
      · exact place.imp_right fun ⟨i, same, bound, start⟩ => ⟨i, same, by omega, start⟩

theorem LastIndex.unique {first second : Int} (found : LastIndex text FindStr first)
    (also : LastIndex text FindStr second) : first = second := by
  have le {first second : Int} (found : LastIndex text FindStr first)
      (also : LastIndex text FindStr second) : first ≤ second := by
    rcases found.place with absent | ⟨i, same, here⟩
    · rcases also.place with absent' | ⟨i, same, -⟩ <;> omega
    · exact same ▸ also.last i here
  exact Int.le_antisymm (le found also) (le also found)

/-- `Str_Find_str` gives the last index of a word in a string, when there is room behind
the string for the last comparison. -/
theorem strFindStr_iff (nonzero : 0 ∉ FindStr) (filled : FindStr ≠ []) (retIndex : Int) :
    strFindStr memory FindStr = some retIndex ↔
      0 ∈ memory ∧
        (cString memory = [] ∨ (cString memory).length + FindStr.length ≤ memory.length + 1) ∧
        LastIndex (cString memory) FindStr retIndex := by
  by_cases ends : 0 ∈ memory
  · obtain ⟨rest, split⟩ := cString_split ends
    have plain := cString_plain memory
    generalize cString memory = text at split plain ⊢
    subst split
    rw [strFindStr, strlen_text plain, Option.bind_eq_bind, Option.bind_some]
    by_cases room : text = [] ∨ text.length + FindStr.length ≤ (text ++ 0 :: rest).length + 1
    · obtain ⟨index, ran, last, place⟩ := foldlM_findPass nonzero rest (Nat.le_refl _)
        (room.imp_left fun empty => by rw [empty, List.length_nil])
      have found : LastIndex text FindStr index := by
        refine ⟨fun j start => last j ?_ start, place.imp_right fun ⟨i, same, _, start⟩ => ⟨i, same, start⟩⟩
        by_contra outside
        rw [List.drop_eq_nil_of_le (Nat.le_of_not_lt outside)] at start
        exact filled (List.prefix_nil.mp start)
      rw [ran, Option.some.injEq]
      exact ⟨fun same => ⟨ends, room, same ▸ found⟩, fun right => found.unique right.2.2⟩
    · have fails : (List.range text.length).foldlM (findPass (text ++ 0 :: rest) FindStr) (-1) =
          none := by
        obtain ⟨nonempty, short⟩ := not_or.mp room
        obtain ⟨count, length⟩ : ∃ count, text.length = count + 1 :=
          Nat.exists_eq_succ_of_ne_zero fun empty => nonempty (List.eq_nil_of_length_eq_zero empty)
        -- the pass for the last character reads behind the memory
        have last (index : Int) : findPass (text ++ 0 :: rest) FindStr index count = none :=
          if_neg (by omega)
        rw [length, List.range_succ, List.foldlM_append]
        cases (List.range count).foldlM (findPass (text ++ 0 :: rest) FindStr) (-1) with
        | none => rfl
        | some index => simp [last]
      rw [fails]
      exact iff_of_false (by simp) fun right => room right.2.1
  · have none : strFindStr memory FindStr = none := by
      rw [strFindStr, strlen, List.idxOf?_eq_none_iff.mpr ends]
      rfl
    rw [none]
    exact iff_of_false (by simp) fun right => ends right.1

theorem cString_length_lt_iff : (cString memory).length < memory.length ↔ 0 ∈ memory := by
  constructor
  · intro shorter
    by_contra absent
    have whole : cString memory = memory :=
      List.takeWhile_eq_self_iff.mpr fun ch member => by
        simpa using fun zero : ch = 0 => absent (zero ▸ member)
    rw [whole] at shorter
    exact Nat.lt_irrefl _ shorter
  · intro ends
    obtain ⟨rest, split⟩ := cString_split ends
    have length := congrArg List.length split
    rw [List.length_append, List.length_cons] at length
    omega

theorem cString_append_zeros (output : List UInt8) (count : Nat) :
    cString (output ++ List.replicate count 0) = cString output := by
  induction output with
  | nil => cases count <;> rfl
  | cons ch output ih =>
    by_cases zero : ch = 0
    · rw [zero]
      rfl
    · rw [cString, cString, List.cons_append, List.takeWhile_cons_of_pos (by simpa using zero),
        List.takeWhile_cons_of_pos (by simpa using zero), ← cString, ← cString, ih]

/-- The search comes to an end exactly when the output stays in the buffer and leaves room for
the zero and the last comparison, and then gives the last place of the word in what was
printed. -/
theorem console_search_iff (nonzero : 0 ∉ FindStr) (filled : FindStr ≠ []) (retIndex : Int) :
    ((myWinExec nLen chunks).bind fun buffer => strFindStr buffer FindStr) = some retIndex ↔
      (chunks.flatten.length ≤ nLen ∨ ∃ front, front <+: chunks ∧ front.flatten.length = nLen) ∧
        (cString (chunks.flatten.take nLen)).length < nLen ∧
        (cString (chunks.flatten.take nLen) = [] ∨
          (cString (chunks.flatten.take nLen)).length + FindStr.length ≤ nLen + 1) ∧
        LastIndex (cString (chunks.flatten.take nLen)) FindStr retIndex := by
  have length : (chunks.flatten.take nLen ++
      List.replicate (nLen - chunks.flatten.length) (0 : UInt8)).length = nLen := by
    rw [List.length_append, List.length_take, List.length_replicate]
    omega
  have zero := @cString_length_lt_iff
    (chunks.flatten.take nLen ++ List.replicate (nLen - chunks.flatten.length) 0)
  have search := @strFindStr_iff
    (chunks.flatten.take nLen ++ List.replicate (nLen - chunks.flatten.length) 0) FindStr
    nonzero filled retIndex
  rw [cString_append_zeros, length] at zero search
  rw [← zero] at search
  simp only [Option.bind_eq_some_iff, myWinExec_iff]
  constructor
  · rintro ⟨buffer, ⟨kept, rfl⟩, found⟩
    exact ⟨kept, search.mp found⟩
  · rintro ⟨kept, found⟩
    exact ⟨_, ⟨kept, rfl⟩, search.mpr found⟩

/-- The second of two complaints is found, over the end of a chunk. -/
theorem console_search_complaints :
    ((myWinExec 64 [ascii "Error: a\nEr", ascii "ror: b"]).bind fun buffer =>
      strFindStr buffer errorText) = some 9 := by
  refine (console_search_iff (by decide) (by decide) 9).mpr
    ⟨Or.inl (by decide), by decide, Or.inr (by decide), fun j start => ?_, Or.inr ⟨9, rfl, by decide⟩⟩
  by_contra far
  have short := start.length_le
  rw [List.length_drop] at short
  have length : (cString ([ascii "Error: a\nEr", ascii "ror: b"].flatten.take 64)).length = 17 := by
    decide
  have word : errorText.length = 5 := rfl
  have few : j = 10 ∨ j = 11 ∨ j = 12 := by omega
  rcases few with rfl | rfl | rfl <;> exact absurd start (by decide)

end IDAPlugins.PatchArm
