import IDAPlugins.AddressSpace
import IDAPlugins.Machine

namespace IDAPlugins.Dump

open Machine Segments

/-! # Dumping a range of bytes

Behind its form `KDDump` saves the bytes of a range to a file, when the first and the last
of them are loaded. `MyDump` is the same apart from the type of `size` and the box for the
start of the segment.
-/

/-- The two addresses typed and the radio button, set for `Len`. -/
structure Form (space : AddressSpace) where
  nStartAddres : Nat
  nEndAddres : Nat
  nRadio : Bool
  start_lt : nStartAddres < space.addresses
  end_lt : nEndAddres < space.addresses

/-- The answers of the user and of the system. `get_many_bytes` fills a buffer of some size.
A block of 2 GB is more than a process of 32 bits gets. -/
structure System where
  lpSavePath : Bool
  present : Bool
  askyn : Bool
  fopenWB : Bool
  qalloc : Nat → Bool
  get_many_bytes : Nat → Nat → List UInt8
  qalloc_lt : ∀ size, qalloc size = true → size < 2147483648
  filled : ∀ ea size, (get_many_bytes ea size).length = size

/-- A path is chosen, an old file there may be replaced, and the file can be opened. -/
def System.saves (system : System) : Bool :=
  system.lpSavePath && (!system.present || system.askyn) && system.fopenWB

inductive Outcome where
  | startMissing
  | endMissing
  | sizeZero
  | cancelled
  | kept
  | notOpened
  /-- The file is created, and the bytes are read to where there is no block. -/
  | fault
  | dumped (ea size : Nat) (content : List UInt8)
  deriving DecidableEq

def Outcome.file : Outcome → Option (List UInt8)
  | .dumped _ _ content => some content
  | .fault => some []
  | _ => none

def Outcome.reads : Outcome → Bool
  | .dumped _ _ _ => true
  | .fault => true
  | _ => false

/-- The block is asked for with a `size_t`, the bytes with an `ssize_t`: both have 32 bits. -/
def writeFile (system : System) (nStartAddres : Nat) (size : Int) : Outcome :=
  let count := int32 size
  if count = 0 ∨ 0 < count ∧ system.qalloc ((size + 1) % 4294967296).toNat then
    .dumped nStartAddres count.toNat (system.get_many_bytes nStartAddres count.toNat)
  else
    .fault

def save (system : System) (nStartAddres : Nat) (size : Int) : Outcome :=
  if !system.lpSavePath then
    .cancelled
  else if system.present && !system.askyn then
    .kept
  else if !system.fopenWB then
    .notOpened
  else
    writeFile system nStartAddres size

/-- `asSize` is the type of `size`. -/
def dumpRange (asSize : Nat → Int) (space : AddressSpace) (system : System)
    (nStartAddres nEndAddres : Nat) : Outcome :=
  if space.isLoaded nStartAddres && space.isLoaded (space.sub nEndAddres 1) then
    let size := asSize (space.sub nEndAddres nStartAddres)
    if 0 < size then save system nStartAddres size else .sizeZero
  else if !space.isLoaded nStartAddres then
    .startMissing
  else
    .endMissing

/-- With `Len` the second address is a length. -/
def Form.stop {space : AddressSpace} (form : Form space) (nStartAddres : Nat) : Nat :=
  if form.nRadio then (form.nEndAddres + nStartAddres) % space.addresses else form.nEndAddres

/-- `IDAP_run` of `KDDump` behind the form. With the box ticked and no segment at the
cursor it reads from a null pointer. `size` is an `asize_t`. -/
def kdDump (space : AddressSpace) (system : System) (curseg : Option Segment)
    (checkmask : Bool) (form : Form space) : Option Outcome := do
  let nStartAddres ← if checkmask then curseg.map Segment.startEA else some form.nStartAddres
  some (dumpRange (fun size => size) space system nStartAddres (form.stop nStartAddres))

/-- `IDAP_run` of `MyDump` behind the form. `size` is an `int`. -/
def myDump (space : AddressSpace) (system : System) (form : Form space) : Outcome :=
  dumpRange (fun size => int32 size) space system form.nStartAddres (form.stop form.nStartAddres)

variable {space : AddressSpace} {system : System}

namespace Form

/-- The end of the range, which may lie outside the address space. -/
def last (form : Form space) : Nat :=
  if form.nRadio then form.nStartAddres + form.nEndAddres else form.nEndAddres

def Asked (form : Form space) : Prop :=
  form.nStartAddres < form.last ∧ space.isLoaded form.nStartAddres = true ∧
    space.isLoaded (form.last - 1) = true

/-- The end that is used lies below the start, and both ends are loaded. -/
def Reversed (form : Form space) : Prop :=
  form.stop form.nStartAddres < form.nStartAddres ∧ space.isLoaded form.nStartAddres = true ∧
    space.isLoaded (space.sub (form.stop form.nStartAddres) 1) = true

end Form

/-- If a range is asked for and may be saved, the file holds its bytes. If none is asked for
there is no file, and nothing is read. -/
def Exact (system : System) (form : Form space) (outcome : Outcome) : Prop :=
  (form.Asked → system.saves = true →
      outcome.file = some
        (system.get_many_bytes form.nStartAddres (form.last - form.nStartAddres))) ∧
    (¬ form.Asked → outcome.file = none ∧ outcome.reads = false)

def System.HasRoom (system : System) (size : Nat) : Prop :=
  size < 2147483648 ∧ system.qalloc (size + 1) = true

/-- What both types of `size` have in common. -/
structure Sizing (asSize : Nat → Int) : Prop where
  residue : ∀ size : Nat, asSize size % 4294967296 = size % 4294967296
  small : ∀ size : Nat, size < 2147483648 → asSize size = size

variable {asSize : Nat → Int} {form : Form space}

theorem Sizing.asize_t : Sizing fun size => size where
  residue _ := rfl
  small _ _ := rfl

theorem Sizing.int : Sizing fun size => int32 size where
  residue size := by
    rw [int32]
    split <;> omega
  small size bound := int32_of_range (by omega) (by omega)

theorem Sizing.count (sizing : Sizing asSize) (size : Nat) :
    int32 (asSize size) = int32 size := by
  rw [int32, int32, sizing.residue]

theorem Sizing.block (sizing : Sizing asSize) (size : Nat) :
    ((asSize size + 1) % 4294967296).toNat = (size + 1) % 4294967296 := by
  have residue := sizing.residue size
  omega

theorem Form.stop_of_asked (asked : form.Asked) : form.stop form.nStartAddres = form.last := by
  have upper := space.loaded_lt _ asked.2.2
  have inside : form.last < space.addresses := by
    rw [AddressSpace.addresses]
    omega
  rw [Form.last] at *
  rw [Form.stop]
  split
  · rename_i radio
    rw [if_pos radio] at inside
    rw [Nat.add_comm, Nat.mod_eq_of_lt inside]
  · rfl

theorem Form.stop_lt (form : Form space) : form.stop form.nStartAddres < space.addresses := by
  rw [Form.stop]
  split
  · exact Nat.mod_lt _ (Nat.succ_pos _)
  · exact form.end_lt

theorem Form.Asked.loaded (asked : form.Asked) :
    space.isLoaded (space.sub (form.stop form.nStartAddres) 1) = true := by
  have positive := asked.1
  have inside := form.stop_lt
  rw [form.stop_of_asked asked] at *
  rw [space.sub_of_le (by omega) inside]
  exact asked.2.2

/-- An end above the start is the one asked for, since a sum that wraps lies below it. -/
theorem Form.asked_of_lt (higher : form.nStartAddres < form.stop form.nStartAddres)
    (start : space.isLoaded form.nStartAddres = true)
    (final : space.isLoaded (space.sub (form.stop form.nStartAddres) 1) = true) : form.Asked := by
  have inside := form.stop_lt
  rw [space.sub_of_le (by omega) inside] at final
  have same : form.stop form.nStartAddres = form.last := by
    have first := form.start_lt
    have second := form.end_lt
    rw [Form.stop] at *
    rw [Form.last]
    split
    · rename_i radio
      rw [if_pos radio] at higher
      rw [Nat.add_comm form.nStartAddres]
      apply Nat.mod_eq_of_lt
      by_contra wraps
      rw [Nat.mod_eq_sub_mod (Nat.le_of_not_lt wraps), Nat.mod_eq_of_lt (by omega)] at higher
      omega
    · rfl
  rw [same] at final higher
  exact ⟨higher, start, final⟩

theorem save_of_saves (saves : system.saves = true) (nStartAddres : Nat) (size : Int) :
    save system nStartAddres size = writeFile system nStartAddres size := by
  simp only [System.saves, Bool.and_eq_true, Bool.or_eq_true, Bool.not_eq_true'] at saves
  obtain ⟨⟨path, replaced⟩, opens⟩ := saves
  rw [save]
  rcases replaced with fresh | agreed
  · simp [path, fresh, opens]
  · simp [path, agreed, opens]

theorem save_given_up (given : system.saves = false) (nStartAddres : Nat) (size : Int) :
    (save system nStartAddres size).file = none ∧ (save system nStartAddres size).reads = false := by
  rw [save]
  split
  · exact ⟨rfl, rfl⟩
  · split
    · exact ⟨rfl, rfl⟩
    · split
      · exact ⟨rfl, rfl⟩
      · simp_all [System.saves]

/-- What is written is the whole range exactly if there is room for it. -/
theorem writeFile_file_iff (sizing : Sizing asSize) {nStartAddres size : Nat}
    (positive : 0 < size) :
    (writeFile system nStartAddres (asSize size)).file =
        some (system.get_many_bytes nStartAddres size) ↔ system.HasRoom size := by
  have length := system.filled nStartAddres
  rw [writeFile, sizing.count, sizing.block]
  constructor
  · intro whole
    split at whole
    · rename_i room
      have same := congrArg List.length (Option.some.inj whole)
      rw [length, length] at same
      have small : size < 2147483648 := by
        rw [int32] at same
        split at same <;> omega
      have count : int32 size = size := Sizing.int.small size small
      rw [count, Nat.mod_eq_of_lt (by omega)] at room
      rcases room with zero | room
      · omega
      · exact ⟨small, room.2⟩
    · have same := congrArg List.length (Option.some.inj whole)
      rw [length] at same
      exact absurd same (Nat.ne_of_lt positive)
  · intro room
    obtain ⟨small, block⟩ := room
    have count : int32 size = size := Sizing.int.small size small
    rw [count, Nat.mod_eq_of_lt (by omega), if_pos (Or.inr ⟨by omega, block⟩)]
    rfl

theorem writeFile_reads (nStartAddres : Nat) (size : Int) :
    (writeFile system nStartAddres size).reads = true := by
  rw [writeFile]
  split <;> rfl

/-- With both ends loaded a positive size leads to the file. -/
def saved (asSize : Nat → Int) (system : System) (nStartAddres size : Nat) : Outcome :=
  if 0 < asSize size then save system nStartAddres (asSize size) else .sizeZero

theorem saved_file_iff (sizing : Sizing asSize) (saves : system.saves = true)
    {nStartAddres size : Nat} (positive : 0 < size) :
    (saved asSize system nStartAddres size).file =
        some (system.get_many_bytes nStartAddres size) ↔ system.HasRoom size := by
  rw [saved]
  split
  · rw [save_of_saves saves, writeFile_file_iff sizing positive]
  · rename_i refused
    constructor
    · intro whole
      cases whole
    · intro room
      rw [sizing.small size room.1] at refused
      omega

/-- Nothing is created or read if the size is refused or the user gives up. -/
theorem saved_nothing_iff (nStartAddres size : Nat) :
    ((saved asSize system nStartAddres size).file = none ∧
        (saved asSize system nStartAddres size).reads = false) ↔
      system.saves = false ∨ ¬ 0 < asSize size := by
  rw [saved]
  split
  · rename_i positive
    cases saves : system.saves with
    | false => simp [save_given_up saves]
    | true => simp [save_of_saves saves, writeFile_reads, positive]
  · rename_i refused
    simp [Outcome.file, Outcome.reads, refused]

theorem dumpRange_missing {nStartAddres nEndAddres : Nat}
    (missing : ¬ (space.isLoaded nStartAddres = true ∧
      space.isLoaded (space.sub nEndAddres 1) = true)) :
    (dumpRange asSize space system nStartAddres nEndAddres).file = none ∧
      (dumpRange asSize space system nStartAddres nEndAddres).reads = false := by
  rw [← Bool.and_eq_true] at missing
  rw [dumpRange, if_neg missing]
  split
  · exact ⟨rfl, rfl⟩
  · exact ⟨rfl, rfl⟩

theorem dumpRange_exact_iff (sizing : Sizing asSize) (system : System) (form : Form space) :
    Exact system form
        (dumpRange asSize space system form.nStartAddres (form.stop form.nStartAddres)) ↔
      system.saves = false ∨
        (form.Asked → system.HasRoom (form.last - form.nStartAddres)) ∧
          ¬ (form.Reversed ∧
            0 < asSize (space.sub (form.stop form.nStartAddres) form.nStartAddres)) := by
  by_cases loaded : space.isLoaded form.nStartAddres = true ∧
      space.isLoaded (space.sub (form.stop form.nStartAddres) 1) = true
  · obtain ⟨start, final⟩ := loaded
    have run : dumpRange asSize space system form.nStartAddres (form.stop form.nStartAddres) =
        saved asSize system form.nStartAddres
          (space.sub (form.stop form.nStartAddres) form.nStartAddres) := by
      simp only [dumpRange, saved, start, final, Bool.and_self, if_true]
    rw [run]
    by_cases higher : form.nStartAddres < form.stop form.nStartAddres
    · have asked := form.asked_of_lt higher start final
      have straight : ¬ form.Reversed := fun reversed => Nat.lt_asymm higher reversed.1
      rw [space.sub_of_le (Nat.le_of_lt higher) form.stop_lt, form.stop_of_asked asked]
      cases saves : system.saves with
      | false => simp [Exact, asked, saves]
      | true =>
        simp [Exact, asked, saves, straight, saved_file_iff sizing saves (Nat.sub_pos_of_lt asked.1)]
    · have refused : ¬ form.Asked := by
        intro asked
        exact higher (form.stop_of_asked asked ▸ asked.1)
      simp only [Exact, refused, false_imp_iff, true_and, not_false_eq_true, true_imp_iff,
        saved_nothing_iff]
      rcases Nat.eq_or_lt_of_le (Nat.le_of_not_lt higher) with same | lower
      · -- the size is zero
        have zero : asSize (space.sub (form.stop form.nStartAddres) form.nStartAddres) = 0 := by
          rw [space.sub_of_le (Nat.le_of_eq same.symm) form.stop_lt, same, Nat.sub_self]
          exact sizing.small 0 (by decide)
        simp [zero]
      · have reversed : form.Reversed := ⟨lower, start, final⟩
        simp only [reversed, true_and]
  · have refused : ¬ form.Asked := fun asked => loaded ⟨asked.2.1, asked.loaded⟩
    have straight : ¬ form.Reversed := fun reversed => loaded reversed.2
    simp [Exact, refused, straight, dumpRange_missing loaded]

/-- `KDDump` saves the bytes asked for, or nothing, exactly if there is room for them and
the range is not reversed, or if the user gives up. -/
theorem kdDump_exact_iff (space : AddressSpace) (system : System) (curseg : Option Segment)
    (form : Form space) :
    (∃ outcome, kdDump space system curseg false form = some outcome ∧
        Exact system form outcome) ↔
      system.saves = false ∨
        (form.Asked → system.HasRoom (form.last - form.nStartAddres)) ∧ ¬ form.Reversed := by
  have positive (reversed : form.Reversed) :
      (0 : Int) < space.sub (form.stop form.nStartAddres) form.nStartAddres := by
    have wraps := AddressSpace.sub_of_lt reversed.1 (Nat.le_of_lt form.start_lt)
    have start := form.start_lt
    omega
  have sizes : form.Reversed ∧
      (0 : Int) < space.sub (form.stop form.nStartAddres) form.nStartAddres ↔ form.Reversed :=
    and_iff_left_of_imp positive
  simp only [kdDump, Bool.false_eq_true, if_false, Option.bind_eq_bind, Option.bind_some,
    Option.some.injEq, exists_eq_left']
  rw [dumpRange_exact_iff Sizing.asize_t, sizes]

/-- `MyDump` refuses a reversed range as well, if the difference is negative as an `int`. -/
theorem myDump_exact_iff (space : AddressSpace) (system : System) (form : Form space) :
    Exact system form (myDump space system form) ↔
      system.saves = false ∨
        (form.Asked → system.HasRoom (form.last - form.nStartAddres)) ∧
          ¬ (form.Reversed ∧
            0 < int32 (space.sub (form.stop form.nStartAddres) form.nStartAddres)) := by
  exact dumpRange_exact_iff Sizing.int system form

/-- The bytes from 0x1000 up to 0x2000 are loaded, in one segment. -/
def page : Segment where
  startEA := 0x1000
  endEA := 0x2000
  nonempty := by decide

def onePage : AddressSpace where
  ea64 := false
  segments := [page]
  isLoaded ea := decide (0x1000 ≤ ea ∧ ea < 0x2000)
  ascending := List.pairwise_singleton _ _
  upper curseg member := by
    rw [List.mem_singleton.mp member]
    decide
  loaded_lt ea loaded := by
    rw [decide_eq_true_eq] at loaded
    exact Nat.lt_trans loaded.2 (by decide)

/-- The user saves to a new file, and there is memory for less than 2 GB. -/
def willing : System where
  lpSavePath := true
  present := false
  askyn := false
  fopenWB := true
  qalloc size := decide (size < 2147483648)
  get_many_bytes _ size := List.replicate size 0
  qalloc_lt _ granted := of_decide_eq_true granted
  filled _ _ := List.length_replicate

def backwards : Form onePage where
  nStartAddres := 0x1800
  nEndAddres := 0x1010
  nRadio := false
  start_lt := by decide
  end_lt := by decide

theorem kdDump_backwards :
    ¬ backwards.Asked ∧
      ¬ ∃ outcome, kdDump onePage willing none false backwards = some outcome ∧
        Exact willing backwards outcome := by
  have refused : ¬ backwards.Asked := by
    intro asked
    exact absurd asked.1 (by decide)
  have fault : kdDump onePage willing none false backwards = some .fault := by decide +kernel
  refine ⟨refused, ?_⟩
  intro exactly
  obtain ⟨outcome, run, -, nothing⟩ := exactly
  cases fault.symm.trans run
  exact absurd (nothing refused).1 (by decide)

end IDAPlugins.Dump
