import IDAPlugins.CopyString.Widths

namespace IDAPlugins.CopyString

open LittleEndian

/-! # Reading a string

`ReadString` copies a string of the database, in one of three encodings, into the buffer
of 0x1000 bytes that `IDAP_run` fills with zeros and prints. The other encodings take
the way over blocks of their own, and what follows those in memory may be read.
-/

structure Database where
  get_byte : Nat → UInt8
  get_word : Nat → UInt16

/-- What lies in memory behind the blocks that `ReadString` and `Utf8ToGB2312` allocate,
zeros among it. -/
structure Heap where
  behindBytes : List UInt8
  behindWords : List UInt16
  behindUnits : UInt8
  bytesEnd : 0 ∈ behindBytes
  wordsEnd : 0 ∈ behindWords

/-- `strlen`, and `wcslen` on 16-bit units; `none` runs off the memory. -/
def strlen {α : Type} [DecidableEq α] (nul : α) (memory : List α) : Option Nat :=
  memory.idxOf? nul

/-- One pass of the loop that each encoding has: a unit other than zero is stored, the
number stored so far being `i`. -/
def readPass {α : Type} [DecidableEq α] (nul : α) (get : Nat → α) (lpTmpBuf : List α) :
    Option (Loop.Pass (List α) (List α)) :=
  let chTmp := get lpTmpBuf.length
  if chTmp ≠ nul ∧ lpTmpBuf.length < 0x1000 then
    some (.again (lpTmpBuf ++ [chTmp]))
  else
    some (.leave lpTmpBuf)

def readUnits {α : Type} [DecidableEq α] (nul : α) (get : Nat → α) : Option (List α) :=
  Loop.run (readPass nul get) 0x1001 []

/-- The block of 0x1000 zeros behind what was stored in it, and the memory behind. -/
def blockOf {α : Type} (nul : α) (stored behind : List α) : List α :=
  stored ++ List.replicate (0x1000 - stored.length) nul ++ behind

/-- The bytes that `ReadString` stores from the start of `lpOutBuf` on. -/
def readString (tables : CodeTables) (db : Database) (heap : Heap) (g_Index : Nat) (nAddres : Nat) :
    Option (List UInt8) :=
  match g_Index with
  | 0 => do
    let lpTmpBuf ← readUnits 0 fun i => db.get_byte (nAddres + i)
    let nLen ← strlen 0 (blockOf 0 lpTmpBuf heap.behindBytes)
    utf8ToGB2312 tables (blockOf 0 lpTmpBuf heap.behindBytes) nLen heap.behindUnits
  | 1 => readUnits 0 fun i => db.get_byte (nAddres + i)
  | 2 => do
    let lpTmpBuf ← readUnits 0 fun i => db.get_word (nAddres + i * 2)
    let nLen ← strlen 0 (blockOf 0 lpTmpBuf heap.behindWords)
    unicodeToGB2132 tables ((blockOf 0 lpTmpBuf heap.behindWords).take nLen)
  | _ => some []

/-- Whatever lies behind its blocks, `ReadString` stores fewer bytes than the buffer has,
and leaves a zero in it. -/
def Fits (tables : CodeTables) (db : Database) (g_Index nAddres : Nat) : Prop :=
  ∀ heap, ∃ stored lpOutBuf, readString tables db heap g_Index nAddres = some stored ∧
    stored.length < 0x1000 ∧
    Overlay.put 0x1000 (List.replicate 0x1000 0) 0 stored = some lpOutBuf ∧ 0 ∈ lpOutBuf

/-- The first zero is unit `n`. -/
def EndsAt {α : Type} (nul : α) (get : Nat → α) (n : Nat) : Prop :=
  get n = nul ∧ ∀ i < n, get i ≠ nul

def Roomy (db : Database) (g_Index nAddres : Nat) : Prop :=
  match g_Index with
  | 0 => ∃ n < 0x1000, EndsAt 0 (fun i => db.get_byte (nAddres + i)) n ∧
      (n = 0xFFF → overfull ((List.range n).map fun i => db.get_byte (nAddres + i)) = false)
  | 1 => ∃ n < 0x1000, EndsAt 0 (fun i => db.get_byte (nAddres + i)) n
  | 2 => ∃ n < 0x1000, EndsAt 0 (fun i => db.get_word (nAddres + i * 2)) n ∧
      n + ((List.range n).countP fun i => 0x100 ≤ db.get_word (nAddres + i * 2)) < 0x1000
  | _ => True

section Units

variable {α : Type} {nul : α} {get : Nat → α}

theorem forall_mem_map_range {n : Nat} (other : ∀ i < n, get i ≠ nul) :
    ∀ unit ∈ (List.range n).map get, unit ≠ nul := by
  intro unit member
  obtain ⟨i, bound, rfl⟩ := List.mem_map.mp member
  exact other i (List.mem_range.mp bound)

/-- The first zero is where the loop stops, if it is among the first 0x1000 units. -/
theorem endsAt_unique {n k : Nat} (first : EndsAt nul get n) (other : ∀ i < k, get i ≠ nul)
    (ended : k < 0x1000 → get k = nul) (short : n < 0x1000) (few : k ≤ 0x1000) : k = n := by
  rcases Nat.lt_trichotomy k n with before | same | after
  · exact absurd (ended (by omega)) (first.2 k before)
  · exact same
  · exact absurd first.1 (other n after)

theorem blockOf_full {front : List α} (full : front.length = 0x1000) (behind : List α) :
    blockOf nul front behind = front ++ behind := by
  rw [blockOf, full, Nat.sub_self, List.replicate_zero, List.append_nil]

variable [DecidableEq α]

/-- The loop stores the units in front of a zero, at most 0x1000 of them. -/
theorem readUnits_run (nul : α) (get : Nat → α) :
    ∃ stored, readUnits nul get = some stored ∧ ∃ n ≤ 0x1000, stored = (List.range n).map get ∧
      (∀ i < n, get i ≠ nul) ∧ (n < 0x1000 → get n = nul) := by
  have sound : Loop.Sound (readPass nul get)
      (fun stored => stored = (List.range stored.length).map get ∧ stored.length ≤ 0x1000 ∧
        ∀ i < stored.length, get i ≠ nul)
      (fun stored => 0x1000 - stored.length)
      (fun stored => ∃ n ≤ 0x1000, stored = (List.range n).map get ∧ (∀ i < n, get i ≠ nul) ∧
        (n < 0x1000 → get n = nul)) := by
    intro stored inside
    obtain ⟨same, few, other⟩ := inside
    by_cases more : get stored.length ≠ nul ∧ stored.length < 0x1000
    · refine .inl ⟨_, if_pos more, ⟨?_, ?_, ?_⟩, ?_⟩
      · rw [List.length_append, List.length_singleton, List.range_succ, List.map_append, ← same]
        rfl
      · rw [List.length_append, List.length_singleton]
        exact more.2
      · rw [List.length_append, List.length_singleton]
        intro i before
        rcases Nat.lt_succ_iff_lt_or_eq.mp before with earlier | rfl
        · exact other i earlier
        · exact more.1
      · simp only [List.length_append, List.length_singleton]
        omega
    · refine .inr ⟨stored, if_neg more, stored.length, few, same, other, ?_⟩
      intro room
      by_contra further
      exact more ⟨further, room⟩
  exact Loop.run_total sound
    ⟨rfl, Nat.zero_le _, fun i none => absurd none (Nat.not_lt_zero i)⟩ (by simp)

theorem strlen_append {front : List α} (other : ∀ unit ∈ front, unit ≠ nul) (behind : List α) :
    strlen nul (front ++ nul :: behind) = some front.length := by
  induction front with
  | nil => simp [strlen, List.idxOf?_cons]
  | cons unit rest ih =>
    rw [List.forall_mem_cons] at other
    rw [strlen] at ih ⊢
    rw [List.cons_append, List.idxOf?_cons, ih other.2]
    simp [other.1]

theorem strlen_blockOf {front : List α} (short : front.length < 0x1000)
    (other : ∀ unit ∈ front, unit ≠ nul) (behind : List α) :
    strlen nul (blockOf nul front behind) = some front.length := by
  obtain ⟨more, room⟩ : ∃ more, 0x1000 - front.length = more + 1 := ⟨0x1000 - front.length - 1, by omega⟩
  have ended := strlen_append other (List.replicate more nul ++ behind)
  rw [blockOf, room, List.replicate_succ, List.append_assoc]
  exact ended

theorem strlen_full {front : List α} (full : front.length = 0x1000)
    (other : ∀ unit ∈ front, unit ≠ nul) {behind : List α} (ended : nul ∈ behind) :
    ∃ nLen, strlen nul (blockOf nul front behind) = some nLen ∧ 0x1000 ≤ nLen ∧
      nLen ≤ (blockOf nul front behind).length := by
  obtain ⟨before, rest, rfl, clean⟩ := List.eq_append_cons_of_mem ended
  have whole : ∀ unit ∈ front ++ before, unit ≠ nul := by
    intro unit member
    rcases List.mem_append.mp member with inside | later
    · exact other unit inside
    · exact fun same => clean (same ▸ later)
  have length := strlen_append whole rest
  rw [List.append_assoc] at length
  rw [blockOf_full full]
  refine ⟨_, length, ?_, ?_⟩
  · rw [List.length_append, full]
    exact Nat.le_add_right _ _
  · rw [List.length_append, List.length_append, List.length_append]
    omega

end Units

theorem put_short {stored : List UInt8} (short : stored.length < 0x1000) :
    ∃ lpOutBuf, Overlay.put 0x1000 (List.replicate 0x1000 0) 0 stored = some lpOutBuf ∧
      0 ∈ lpOutBuf := by
  have cells : List.replicate 0x1000 (0 : UInt8) =
      [] ++ (List.replicate stored.length 0 ++ List.replicate (0x1000 - stored.length) 0) := by
    rw [List.nil_append, List.replicate_append_replicate, Nat.add_sub_cancel' (Nat.le_of_lt short)]
  have written : Overlay.put 0x1000 (List.replicate 0x1000 0) 0 stored =
      some ([] ++ (stored ++ List.replicate (0x1000 - stored.length) 0)) := by
    rw [cells]
    exact Overlay.put_replaces List.length_replicate.symm
      (by rw [List.length_replicate, List.length_nil]; omega)
  refine ⟨_, written, List.mem_append_right _ (List.mem_append_right _ ?_)⟩
  exact List.mem_replicate.mpr ⟨by omega, rfl⟩

theorem fits_iff {tables : CodeTables} {db : Database} {g_Index nAddres : Nat} :
    Fits tables db g_Index nAddres ↔ ∀ heap, ∃ stored,
      readString tables db heap g_Index nAddres = some stored ∧ stored.length < 0x1000 := by
  constructor
  · intro fits heap
    obtain ⟨stored, lpOutBuf, read, short, -⟩ := fits heap
    exact ⟨stored, read, short⟩
  · intro fits heap
    obtain ⟨stored, read, short⟩ := fits heap
    obtain ⟨lpOutBuf, written, ended⟩ := put_short short
    exact ⟨stored, lpOutBuf, read, short, written, ended⟩

/-- Memory in which these bytes, and then a zero, follow the text. -/
def Heap.followedBy (bytes : List UInt8) : Heap where
  behindBytes := bytes ++ [0]
  behindWords := [0]
  behindUnits := 0
  bytesEnd := List.mem_append_right _ (List.mem_singleton_self 0)
  wordsEnd := List.mem_singleton_self 0

section Cases

variable (tables : CodeTables) {db : Database} {nAddres : Nat}

theorem byteAt_append_right (front rest : List UInt8) (i : Nat) :
    byteAt (front ++ rest) (front.length + i) = byteAt rest i := by
  rw [byteAt, byteAt, List.getD_eq_getElem?_getD, List.getD_eq_getElem?_getD,
    List.getElem?_append_right (Nat.le_add_right _ _), Nat.add_sub_cancel_left]

theorem readString_utf8 {text : List UInt8} (heap : Heap) (short : text.length < 0x1000)
    (other : ∀ byte ∈ text, byte ≠ 0)
    (read : readUnits 0 (fun i => db.get_byte (nAddres + i)) = some text) :
    ∃ stored, readString tables db heap 0 nAddres = some stored ∧
      stored.length ≤ text.length + 1 ∧ (overfull text = false → stored.length ≤ text.length) ∧
      (text.length = 0xFFF → fourBits (byteAt heap.behindBytes 0) ≠ 0 → overfull text = true →
        stored.length = text.length + 1) := by
  have nLen := strlen_blockOf short other heap.behindBytes
  obtain ⟨more, room⟩ : ∃ more, 0x1000 - text.length = more + 1 := ⟨0x1000 - text.length - 1, by omega⟩
  have memory : blockOf 0 text heap.behindBytes =
      text ++ (0 :: (List.replicate more 0 ++ heap.behindBytes)) := by
    rw [blockOf, room, List.replicate_succ, List.append_assoc]
    rfl
  obtain ⟨stored, converted, -, few, plain, full⟩ := utf8ToGB2312_length tables
    (blockOf 0 text heap.behindBytes) text.length
    (by rw [memory, List.length_append]; exact Nat.le_add_right _ _)
    (by rw [memory]; exact byteAt_append_right text _ 0) heap.behindUnits
  rw [memory, List.take_left, byteAt_append_right] at full
  rw [memory, List.take_left] at plain
  refine ⟨stored, ?_, few, plain, ?_⟩
  · simp only [readString, read, nLen, Option.bind_eq_bind, Option.bind_some]
    exact converted
  · intro last beyond
    have none : more = 0 := by omega
    rw [none] at full
    exact full beyond

/-- A text in UTF-8 that fills its block may go on behind it. -/
theorem readString_utf8_full {text : List UInt8} (all : text.length = 0x1000)
    (other : ∀ byte ∈ text, byte ≠ 0)
    (read : readUnits 0 (fun i => db.get_byte (nAddres + i)) = some text) :
    ∃ heap stored, readString tables db heap 0 nAddres = some stored ∧ 0x1000 ≤ stored.length := by
  have clean : ∀ byte ∈ text ++ List.replicate 0x3000 0x41, byte ≠ 0 := by
    intro byte member
    rcases List.mem_append.mp member with inside | later
    · exact other byte inside
    · rw [(List.mem_replicate.mp later).2]
      decide
  have memory : blockOf 0 text (Heap.followedBy (List.replicate 0x3000 0x41)).behindBytes =
      text ++ List.replicate 0x3000 0x41 ++ 0 :: [] := by
    rw [blockOf_full all, List.append_assoc]
    rfl
  have nLen := strlen_append clean []
  have ended := byteAt_append_right (text ++ List.replicate 0x3000 0x41) (0 :: []) 0
  rw [Nat.add_zero] at ended
  rw [← memory] at nLen ended
  obtain ⟨stored, converted, many, -⟩ := utf8ToGB2312_length tables _ _
    (by rw [memory]; exact (List.prefix_append _ _).length_le) ended
    (Heap.followedBy (List.replicate 0x3000 0x41)).behindUnits
  rw [List.length_append, all, List.length_replicate] at many
  refine ⟨Heap.followedBy (List.replicate 0x3000 0x41), stored, ?_, by omega⟩
  simp only [readString, read, nLen, Option.bind_eq_bind, Option.bind_some]
  exact converted

theorem readString_unicode {text : List UInt16} (heap : Heap) (short : text.length < 0x1000)
    (other : ∀ unit ∈ text, unit ≠ 0)
    (read : readUnits 0 (fun i => db.get_word (nAddres + i * 2)) = some text) :
    ∃ stored, readString tables db heap 2 nAddres = some stored ∧
      stored.length = text.length + text.countP (0x100 ≤ ·) := by
  have nLen := strlen_blockOf short other heap.behindWords
  obtain ⟨stored, encoded, length⟩ := unicodeToGB2132_length tables text
  refine ⟨stored, ?_, length⟩
  simp only [readString, read, nLen, Option.bind_eq_bind, Option.bind_some]
  rw [blockOf, List.append_assoc, List.take_left]
  exact encoded

theorem readString_unicode_full {text : List UInt16} (heap : Heap) (all : text.length = 0x1000)
    (other : ∀ unit ∈ text, unit ≠ 0)
    (read : readUnits 0 (fun i => db.get_word (nAddres + i * 2)) = some text) :
    ∃ stored, readString tables db heap 2 nAddres = some stored ∧ 0x1000 ≤ stored.length := by
  obtain ⟨nLen, length, more, inMemory⟩ := strlen_full all other heap.wordsEnd
  obtain ⟨stored, encoded, units⟩ := unicodeToGB2132_length tables
    ((blockOf 0 text heap.behindWords).take nLen)
  rw [List.length_take_of_le inMemory] at units
  refine ⟨stored, ?_, by omega⟩
  simp only [readString, read, length, Option.bind_eq_bind, Option.bind_some]
  exact encoded

theorem not_endsAt {α : Type} {nul : α} {get : Nat → α} {n : Nat} (other : ∀ i < 0x1000, get i ≠ nul)
    (short : n < 0x1000) (ended : EndsAt nul get n) : False :=
  other n short ended.1

theorem fits_utf8_iff (tables : CodeTables) (db : Database) (nAddres : Nat) :
    Fits tables db 0 nAddres ↔ Roomy db 0 nAddres := by
  obtain ⟨_, read, n, few, rfl, other, ended⟩ := readUnits_run 0 fun i => db.get_byte (nAddres + i)
  have size : ((List.range n).map fun i => db.get_byte (nAddres + i)).length = n := by
    rw [List.length_map, List.length_range]
  have clean := forall_mem_map_range other
  rw [fits_iff]
  by_cases short : n < 0x1000
  · have stores (heap : Heap) := readString_utf8 tables heap
      (by rw [size]; exact short) clean read
    rw [size] at stores
    constructor
    · intro fits
      refine ⟨n, short, ⟨ended short, other⟩, fun last => ?_⟩
      by_contra full
      -- a byte that makes a cut sequence of four give two bytes
      obtain ⟨stored, run, -, -, more⟩ := stores (Heap.followedBy [0x3C])
      have length := more last (by decide) (eq_true_of_ne_false full)
      obtain ⟨again, run', fewer⟩ := fits (Heap.followedBy [0x3C])
      rw [run, Option.some.injEq] at run'
      rw [← run'] at fewer
      omega
    · rintro ⟨k, below, first, plain⟩ heap
      have same : n = k := endsAt_unique first other ended below few
      rw [← same] at plain
      obtain ⟨stored, run, atMost, exactly, -⟩ := stores heap
      refine ⟨stored, run, ?_⟩
      by_cases last : n = 0xFFF
      · have less := exactly (plain last)
        omega
      · omega
  · have all : n = 0x1000 := by omega
    rw [all] at read size clean other
    refine iff_of_false ?_ ?_
    · intro fits
      obtain ⟨heap, stored, run, many⟩ := readString_utf8_full tables size clean read
      obtain ⟨again, run', fewer⟩ := fits heap
      rw [run, Option.some.injEq] at run'
      rw [← run'] at fewer
      omega
    · rintro ⟨k, below, first, -⟩
      exact not_endsAt other below first

theorem fits_gb_iff (tables : CodeTables) (db : Database) (nAddres : Nat) :
    Fits tables db 1 nAddres ↔ Roomy db 1 nAddres := by
  obtain ⟨_, read, n, few, rfl, other, ended⟩ := readUnits_run 0 fun i => db.get_byte (nAddres + i)
  have size : ((List.range n).map fun i => db.get_byte (nAddres + i)).length = n := by
    rw [List.length_map, List.length_range]
  rw [fits_iff]
  constructor
  · intro fits
    obtain ⟨stored, run, fewer⟩ := fits (Heap.followedBy [])
    rw [readString, read, Option.some.injEq] at run
    rw [← run, size] at fewer
    exact ⟨n, fewer, ended fewer, other⟩
  · rintro ⟨k, below, first⟩ heap
    have same : n = k := endsAt_unique first other ended below few
    exact ⟨_, read, by rw [size, same]; exact below⟩

theorem fits_unicode_iff (tables : CodeTables) (db : Database) (nAddres : Nat) :
    Fits tables db 2 nAddres ↔ Roomy db 2 nAddres := by
  obtain ⟨_, read, n, few, rfl, other, ended⟩ := readUnits_run 0 fun i => db.get_word (nAddres + i * 2)
  have size : ((List.range n).map fun i => db.get_word (nAddres + i * 2)).length = n := by
    rw [List.length_map, List.length_range]
  have clean := forall_mem_map_range other
  have count : ((List.range n).map fun i => db.get_word (nAddres + i * 2)).countP (0x100 ≤ ·) =
      (List.range n).countP fun i => 0x100 ≤ db.get_word (nAddres + i * 2) := List.countP_map ..
  rw [fits_iff]
  by_cases short : n < 0x1000
  · have stores (heap : Heap) := readString_unicode tables heap
      (by rw [size]; exact short) clean read
    rw [size, count] at stores
    constructor
    · intro fits
      obtain ⟨stored, run, length⟩ := stores (Heap.followedBy [])
      obtain ⟨again, run', fewer⟩ := fits (Heap.followedBy [])
      rw [run, Option.some.injEq] at run'
      rw [← run', length] at fewer
      exact ⟨n, short, ⟨ended short, other⟩, fewer⟩
    · rintro ⟨k, below, first, room⟩ heap
      have same : n = k := endsAt_unique first other ended below few
      obtain ⟨stored, run, length⟩ := stores heap
      exact ⟨stored, run, by rw [length, same]; exact room⟩
  · have all : n = 0x1000 := by omega
    rw [all] at read size clean other
    refine iff_of_false ?_ ?_
    · intro fits
      obtain ⟨stored, run, many⟩ := readString_unicode_full tables (Heap.followedBy [])
        size clean read
      obtain ⟨again, run', fewer⟩ := fits (Heap.followedBy [])
      rw [run, Option.some.injEq] at run'
      rw [← run'] at fewer
      omega
    · rintro ⟨k, below, first, -⟩
      exact not_endsAt other below first

end Cases

/-- `ReadString` fits its buffer exactly when the string ends among its first 0x1000 units and,
in UTF-8, is not 0xFFF bytes long and overfull; of 16-bit units, when their number and the
number of those from `0x100` on are below 0x1000. -/
theorem readString_fits_iff (tables : CodeTables) (db : Database) (g_Index nAddres : Nat) :
    Fits tables db g_Index nAddres ↔ Roomy db g_Index nAddres := by
  match g_Index with
  | 0 => exact fits_utf8_iff tables db nAddres
  | 1 => exact fits_gb_iff tables db nAddres
  | 2 => exact fits_unicode_iff tables db nAddres
  | _ + 3 =>
    rw [fits_iff]
    exact iff_of_true (fun _ => ⟨[], rfl, by decide⟩) trivial

/-- No byte of the database is zero. -/
theorem readString_fails :
    ¬ Fits firstPairs { get_byte := fun _ => 0x41, get_word := fun _ => 0x4141 } 0 0 ∧
      ¬ Fits firstPairs { get_byte := fun _ => 0x41, get_word := fun _ => 0x4141 } 1 0 ∧
      ¬ Fits firstPairs { get_byte := fun _ => 0x41, get_word := fun _ => 0x4141 } 2 0 := by
  refine ⟨fun fits => ?_, fun fits => ?_, fun fits => ?_⟩
  · obtain ⟨n, -, first, -⟩ := (fits_utf8_iff ..).mp fits
    exact absurd first.1 (show (0x41 : UInt8) ≠ 0 by decide)
  · obtain ⟨n, -, first⟩ := (fits_gb_iff ..).mp fits
    exact absurd first.1 (show (0x41 : UInt8) ≠ 0 by decide)
  · obtain ⟨n, -, first, -⟩ := (fits_unicode_iff ..).mp fits
    exact absurd first.1 (show (0x4141 : UInt16) ≠ 0 by decide)

end IDAPlugins.CopyString
