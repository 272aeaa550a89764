import IDAPlugins.Loop
import IDAPlugins.TextStream
import Mathlib.Data.List.TakeWhile

namespace IDAPlugins.CommentList

open TextStream

/-! # The filter file

The filters are written one to a line. At start the plug-in reads the file back with
`fgets` and a window of 256 bytes; without a file it writes the default filters.
-/

def chars (text : String) : List UInt8 :=
  text.toList.map fun ch => UInt8.ofNat ch.toNat

def g_szDefalutFilters : List (List UInt8) :=
  ["status", "ptr", "fd", "size", "src", "dest", "s2", "domain", "type", "protocol", "addr", "len",
    "name", "in", "addr_len", "unsigned int", "nptr", "buf", "void *", "stream", "s1", "haystack",
    "needle", "path", "pid", "sig", "sysno", "int", "request", "errnum", "options", "stat_loc",
    "signo", "threadid", "writefds", "exceptfds", "readfds", "nfds", "timeout", "flags", "timer",
    "env", "val", "off", "whence", "modes", "accept", "resolved", "mode", "offset", "operation",
    "oflag", "file", "tp", "maxsize", "format", "tz", "tv", "clock_id", "nbytes", "attr",
    "mutexattr", "mutex", "abstime", "sem", "thread_return", "value", "replace", "thread2",
    "detachstate", "arg", "start_routine", "newthread", "mask", "pshared", "fd2", "string",
    "pgid", "argv", "pattern", "cmp", "namelist", "selector", "dir", "length", "maxlen", "dirp", "cmd",
    "size_t", "level", "lParam", "lcid", "item", "float", "char", "char *", "__int64"].map chars

/-- The bytes of the file behind `WriteFilterIni`. -/
def writeFilterIni (ldFilter : List (List UInt8)) : List UInt8 :=
  ldFilter.flatMap fun value => writeText value ++ writeText [0x0A]

/-- The loop that reads the filters: the stream and what it has pushed. -/
structure Reading where
  f : Stream
  ldFilterData : List (List UInt8)

/-- `szTmpBuf` behind `fgets`, up to its first zero. -/
def lineRead (text : List UInt8) : List UInt8 :=
  (fgets 255 text).1.takeWhile (· != 0)

def pushLine (szTmpBuf : List UInt8) (ldFilterData : List (List UInt8)) : List (List UInt8) :=
  if 1 < szTmpBuf.length then ldFilterData ++ [szTmpBuf.dropLast] else ldFilterData

def readPass (state : Reading) : Option (Loop.Pass Reading (List (List UInt8))) :=
  if state.f.feof then
    some (.leave state.ldFilterData)
  else
    some (.again
      { f := (fgets 255 state.f.rest).2
        ldFilterData := pushLine (lineRead state.f.rest) state.ldFilterData })

def readFilters (file : List UInt8) : Option (List (List UInt8)) :=
  Loop.run readPass (file.length + 3)
    { f := { rest := readText file, feof := false }, ldFilterData := [] }

/-- The filters of the plug-in and its file behind `IDAP_init`. -/
def idapInit : Option (List UInt8) → Option (List (List UInt8) × List UInt8)
  | none => some (g_szDefalutFilters, writeFilterIni g_szDefalutFilters)
  | some file => (readFilters file).map fun ldFilterData => (ldFilterData, file)

/-- A text that the file can hold as one line of its own. -/
structure Entry (value : List UInt8) : Prop where
  nonempty : value ≠ []
  zero_free : 0x00 ∉ value
  break_free : 0x0A ∉ value
  return_free : 0x0D ∉ value

/-- The entry fits the window with its line break, and does not end the file. -/
def Fits (value : List UInt8) : Prop :=
  value.length ≤ 254 ∧ 0x1A ∉ value

instance (value : List UInt8) : Decidable (Fits value) :=
  inferInstanceAs (Decidable (_ ∧ _))

theorem writeFilterIni_cons (value : List UInt8) (rest : List (List UInt8)) :
    writeFilterIni (value :: rest) = writeText value ++ writeText [0x0A] ++ writeFilterIni rest := by
  rfl

/-- As text the file holds the entries with a line break behind each. -/
theorem readText_writeFilterIni {ldFilter : List (List UInt8)}
    (entries : ∀ value ∈ ldFilter, Entry value) (fit : ∀ value ∈ ldFilter, Fits value) :
    readText (writeFilterIni ldFilter) = ldFilter.flatMap (· ++ [0x0A]) := by
  induction ldFilter with
  | nil => rfl
  | cons value rest ih =>
    obtain ⟨entry, entries⟩ := List.forall_mem_cons.mp entries
    obtain ⟨fits, fit⟩ := List.forall_mem_cons.mp fit
    have plain : Plain value := ⟨entry.break_free, entry.return_free, fits.2⟩
    rw [writeFilterIni_cons, writeText_of_break_free entry.break_free, List.append_assoc,
      readText_plain plain, readText_break, ih entries fit, List.flatMap_cons, List.append_assoc]
    rfl

/-- Every entry takes at least its line break. -/
theorem lines_le (ldFilter : List (List UInt8)) :
    ldFilter.length ≤ (writeFilterIni ldFilter).length := by
  induction ldFilter with
  | nil => exact Nat.le_refl _
  | cons value rest ih =>
    rw [writeFilterIni_cons, List.length_append, List.length_append, List.length_cons]
    have broken : (writeText [0x0A]).length = 2 := rfl
    omega

/-- One pass over the line of an entry that fits pushes the entry. -/
theorem readPass_line {value : List UInt8} (entry : Entry value) (fits : Fits value)
    (rest : List UInt8) (ldFilterData : List (List UInt8)) :
    readPass { f := { rest := value ++ 0x0A :: rest, feof := false }, ldFilterData } =
      some (.again { f := { rest, feof := false }, ldFilterData := ldFilterData ++ [value] }) := by
  have line := fgets_line entry.break_free rest (Nat.lt_succ_of_le fits.1)
  have stored : lineRead (value ++ 0x0A :: rest) = value ++ [0x0A] := by
    have zeroFree : ∀ ch ∈ value ++ [0x0A], (ch != 0) = true := by
      intro ch member
      rcases List.mem_append.mp member with inside | last
      · exact bne_iff_ne.mpr (ne_of_mem_of_not_mem inside entry.zero_free)
      · rw [List.mem_singleton.mp last]
        rfl
    rw [lineRead, line]
    exact List.takeWhile_eq_self_iff.mpr zeroFree
  have long : 1 < (value ++ [0x0A]).length := by
    rw [List.length_append]
    exact Nat.succ_lt_succ (List.length_pos_iff.mpr entry.nonempty)
  rw [readPass, if_neg Bool.false_ne_true, stored, pushLine, if_pos long, List.dropLast_concat, line]

/-- Over lines that fit the loop pushes every entry, and ends behind the last line. -/
theorem run_readPass {ldFilter : List (List UInt8)} (entries : ∀ value ∈ ldFilter, Entry value)
    (fit : ∀ value ∈ ldFilter, Fits value) (ldFilterData : List (List UInt8)) (fuel : Nat) :
    Loop.run readPass (fuel + 2 + ldFilter.length)
        { f := { rest := ldFilter.flatMap (· ++ [0x0A]), feof := false }, ldFilterData } =
      some (ldFilterData ++ ldFilter) := by
  induction ldFilter generalizing ldFilterData with
  | nil =>
    rw [List.append_nil]
    rfl
  | cons value rest ih =>
    obtain ⟨entry, entries⟩ := List.forall_mem_cons.mp entries
    obtain ⟨fits, fit⟩ := List.forall_mem_cons.mp fit
    have pass := readPass_line entry fits (rest.flatMap (· ++ [0x0A])) ldFilterData
    rw [List.flatMap_cons, List.append_assoc, List.singleton_append, List.length_cons,
      ← Nat.add_assoc, Loop.run_again pass, ih entries fit, List.append_assoc,
      List.singleton_append]

/-- Every filter that is read fits: the window has no room for more, and the text
stream gives no `0x1A`. -/
theorem pushLine_fits {text : List UInt8} {ldFilterData : List (List UInt8)} (free : 0x1A ∉ text)
    (fit : ∀ value ∈ ldFilterData, Fits value) :
    ∀ value ∈ pushLine (lineRead text) ldFilterData, Fits value := by
  have short : (lineRead text).length ≤ 255 :=
    Nat.le_trans (List.takeWhile_prefix _).length_le (fgets_length 255 text)
  have inside : (lineRead text).dropLast ⊆ text := by
    have stored : (fgets 255 text).1 ⊆ text :=
      fun ch member => fgets_append 255 text ▸ List.mem_append_left _ member
    exact fun ch member =>
      stored ((List.takeWhile_prefix _).subset ((List.dropLast_prefix _).subset member))
  rw [pushLine]
  split
  · intro value member
    rcases List.mem_append.mp member with before | last
    · exact fit value before
    · rw [List.mem_singleton.mp last]
      refine ⟨?_, fun member => free (inside member)⟩
      rw [List.length_dropLast]
      exact Nat.sub_le_of_le_add short
  · exact fit

/-- The reading loop ends on every file, and what it has read fits. -/
theorem readFilters_total (file : List UInt8) :
    ∃ ldFilterData, readFilters file = some ldFilterData ∧ ∀ value ∈ ldFilterData, Fits value := by
  have sound : Loop.Sound readPass
      (fun state => 0x1A ∉ state.f.rest ∧ ∀ value ∈ state.ldFilterData, Fits value)
      (fun state => if state.f.feof then 0 else state.f.rest.length + 1)
      (fun ldFilterData => ∀ value ∈ ldFilterData, Fits value) := by
    intro state ⟨free, fit⟩
    cases ended : state.f.feof with
    | true => exact Or.inr ⟨_, by rw [readPass, if_pos ended], fit⟩
    | false =>
      have goesOn : ¬state.f.feof = true := ended ▸ Bool.false_ne_true
      have kept : 0x1A ∉ (fgets 255 state.f.rest).2.rest :=
        fun member => free (fgets_append 255 state.f.rest ▸ List.mem_append_right _ member)
      refine Or.inl ⟨_, by rw [readPass, if_neg goesOn], ⟨kept, pushLine_fits free fit⟩, ?_⟩
      cases more : (fgets 255 state.f.rest).2.feof with
      | true => simp [more, ended]
      | false => simpa [more, ended] using fgets_progress state.f.rest more
  have enough : (readText file).length + 1 < file.length + 3 := by
    have shorter := readText_length file
    omega
  unfold readFilters
  exact Loop.run_total sound
    ⟨readText_free file, fun value member => absurd member List.not_mem_nil⟩ enough

/-- Entries that all fit are read back as they were written. -/
theorem idapInit_written {ldFilter : List (List UInt8)} (entries : ∀ value ∈ ldFilter, Entry value)
    (fit : ∀ value ∈ ldFilter, Fits value) :
    idapInit (some (writeFilterIni ldFilter)) = some (ldFilter, writeFilterIni ldFilter) := by
  have text := readText_writeFilterIni entries fit
  have lines := lines_le ldFilter
  have fuel : (writeFilterIni ldFilter).length + 3 =
      (writeFilterIni ldFilter).length + 1 - ldFilter.length + 2 + ldFilter.length := by omega
  rw [idapInit, readFilters, text, fuel, run_readPass entries fit]
  rfl

/-- Whatever the file holds, the filters that are read from it fit. -/
theorem idapInit_fits {file : List UInt8} {ldFilterData : List (List UInt8)}
    (read : idapInit (some file) = some (ldFilterData, file)) :
    ∀ value ∈ ldFilterData, Fits value := by
  obtain ⟨found, run, fit⟩ := readFilters_total file
  rw [idapInit, run] at read
  have same : found = ldFilterData := congrArg Prod.fst (Option.some.inj read)
  exact same ▸ fit

/-- What the plug-in reads back is what was written exactly when every entry fits the
window and has no `0x1A`. -/
theorem filterFile_roundTrip_iff (ldFilter : List (List UInt8))
    (entries : ∀ value ∈ ldFilter, Entry value) :
    idapInit (some (writeFilterIni ldFilter)) = some (ldFilter, writeFilterIni ldFilter) ↔
      ∀ value ∈ ldFilter, Fits value :=
  ⟨idapInit_fits, idapInit_written entries⟩

theorem not_mem_letters {ch : UInt8} (other : ch ≠ 0x61) (count : Nat) :
    ch ∉ List.replicate count 0x61 :=
  fun member => other (List.eq_of_mem_replicate member)

/-- The middle one is as long as an entry may be. -/
def threeFilters : List (List UInt8) :=
  [[0x61, 0x62], List.replicate 254 0x61, [0x20]]

theorem filterFile_roundTrip_three :
    idapInit (some (writeFilterIni threeFilters)) = some (threeFilters, writeFilterIni threeFilters) := by
  refine (filterFile_roundTrip_iff threeFilters fun value member => ?_).mpr fun value member => ?_
  · simp only [threeFilters, List.mem_cons, List.not_mem_nil, or_false] at member
    rcases member with rfl | rfl | rfl
    · exact ⟨by decide, by decide, by decide, by decide⟩
    · exact ⟨by decide, not_mem_letters (by decide) 254, not_mem_letters (by decide) 254,
        not_mem_letters (by decide) 254⟩
    · exact ⟨by decide, by decide, by decide, by decide⟩
  · simp only [threeFilters, List.mem_cons, List.not_mem_nil, or_false] at member
    rcases member with rfl | rfl | rfl
    · exact ⟨by decide, by decide⟩
    · exact ⟨Nat.le_of_eq List.length_replicate, not_mem_letters (by decide) 254⟩
    · exact ⟨by decide, by decide⟩

/-- An entry of 255 characters loses its last one. -/
theorem filterFile_cuts :
    Entry (List.replicate 255 0x61) ∧
      idapInit (some (writeFilterIni [List.replicate 255 0x61])) ≠
        some ([List.replicate 255 0x61], writeFilterIni [List.replicate 255 0x61]) := by
  refine ⟨⟨by decide, not_mem_letters (by decide) 255, not_mem_letters (by decide) 255,
    not_mem_letters (by decide) 255⟩, ?_⟩
  intro same
  have short := (idapInit_fits same _ (List.mem_singleton.mpr rfl)).1
  rw [List.length_replicate] at short
  exact absurd short (by decide)

set_option maxRecDepth 4000 in
/-- The filters that come with the plug-in survive their own file. -/
theorem defaults_roundTrip :
    idapInit (some (writeFilterIni g_szDefalutFilters)) = idapInit none := by
  have entries : ∀ value ∈ g_szDefalutFilters,
      value ≠ [] ∧ 0x00 ∉ value ∧ 0x0A ∉ value ∧ 0x0D ∉ value ∧ Fits value :=
    List.forall_iff_forall_mem.mp (by decide)
  refine idapInit_written (fun value member => ?_) fun value member => (entries value member).2.2.2.2
  obtain ⟨nonempty, zeroFree, breakFree, returnFree, -⟩ := entries value member
  exact ⟨nonempty, zeroFree, breakFree, returnFree⟩

end IDAPlugins.CommentList
