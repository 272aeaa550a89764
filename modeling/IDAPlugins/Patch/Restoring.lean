import IDAPlugins.Dump
import IDAPlugins.Patch.Repeating

namespace IDAPlugins.Patch

open Groups

/-! # Dumping and putting back

`KDDump` saves a range to a file, and `KDPatch` puts the file back there in `Write` mode.
In between the database may have changed.
-/

/-- What `KDDump` sees of the database. -/
structure Describes (space : Segments.AddressSpace) (db : Database) : Prop where
  ea64 : space.ea64 = db.ea64
  isLoaded : ∀ ea, space.isLoaded ea = db.isLoaded ea

/-- `get_many_bytes` reads the database. -/
def dumping (system : Dump.System) (memory : Nat → UInt8) : Dump.System :=
  { system with
    get_many_bytes := region memory
    filled := region_length memory }

/-- A file is to be written once, at an address. -/
structure PutsBack (form : Form) (nAddres : Nat) : Prop where
  szInValue : form.szInValue.filter (· ≠ 0x20) = []
  nCount : form.nCount = 1
  nWriteRadio : form.nWriteRadio = 0
  checkmask : form.checkmask % 2 ≠ 1
  nAddres : form.nAddres = nAddres

/-- The memory of one database in a range, and of another one elsewhere. -/
def restored (original changed : Nat → UInt8) (first last ea : Nat) : UInt8 :=
  if first ≤ ea ∧ ea < last then original ea else changed ea

/-- Some groups of bytes from an address on read the same from both ends. -/
def Mirrored (memory : Nat → UInt8) (first size count : Nat) : Prop :=
  ∀ j < count, ∀ i < size,
    memory (first + j * size + i) = memory (first + j * size + (size - 1 - i))

variable {space : Segments.AddressSpace} {db : Database} {system : Dump.System}
  {dumped : Dump.Form space} {form : Form} {memory : Nat → UInt8}

theorem region_getElem? (memory : Nat → UInt8) (nAddres size k : Nat) :
    (region memory nAddres size)[k]? = if k < size then some (memory (nAddres + k)) else none := by
  rw [region, List.getElem?_map]
  by_cases inside : k < size
  · rw [List.getElem?_range inside, if_pos inside, Option.map_some]
  · rw [List.getElem?_eq_none (by rw [List.length_range]; exact Nat.le_of_not_lt inside),
      if_neg inside, Option.map_none]

theorem region_part {first size start count : Nat} (inside : start + count ≤ size) :
    ((region memory first size).drop start).take count = region memory (first + start) count := by
  apply List.ext_getElem?
  intro k
  rw [List.getElem?_take, region_getElem?]
  split
  · rw [List.getElem?_drop, region_getElem?, if_pos (by omega), Nat.add_assoc]
  · rfl

theorem region_reverse_iff {first size : Nat} :
    (region memory first size).reverse = region memory first size ↔
      ∀ i < size, memory (first + i) = memory (first + (size - 1 - i)) := by
  have place (i : Nat) (inside : i < size) :
      (region memory first size).reverse[i]? = some (memory (first + (size - 1 - i))) := by
    rw [List.getElem?_reverse (by rw [region_length]; exact inside), region_length,
      region_getElem?, if_pos (by omega)]
  constructor
  · intro same i inside
    have here := place i inside
    rw [same, region_getElem?, if_pos inside] at here
    exact Option.some.inj here
  · intro mirrored
    apply List.ext_getElem?
    intro i
    by_cases inside : i < size
    · rw [place i inside, region_getElem?, if_pos inside, mirrored i inside]
    · rw [List.getElem?_eq_none (by rw [List.length_reverse, region_length]; omega),
        List.getElem?_eq_none (by rw [region_length]; omega)]

/-- The byte order leaves a region as it is exactly if its complete groups are mirrored. -/
theorem grouped_region_iff {first size length : Nat} :
    grouped size (region memory first length) = region memory first length ↔
      Mirrored memory first size (length / size) := by
  have whole := Nat.div_mul_le_self length size
  rw [grouped, region_length, reverseGroups_eq_self_iff]
  refine forall₂_congr fun j inside => ?_
  have fits : j * size + size ≤ length := by
    have bound := Nat.mul_le_mul_right size (Nat.succ_le_of_lt inside)
    rw [Nat.succ_mul] at bound
    omega
  rw [region_part fits, region_reverse_iff]

theorem written_region_eq (original changed : Nat → UInt8) (first length : Nat) :
    written changed first (region original first length) =
      restored original changed first (first + length) := by
  funext ea
  rw [written, restored]
  by_cases behind : first ≤ ea
  · rw [if_pos behind, List.getD_eq_getElem?_getD, region_getElem?, Nat.add_sub_cancel' behind]
    by_cases inside : ea < first + length
    · rw [if_pos (by omega), if_pos ⟨behind, inside⟩, Option.getD_some]
    · rw [if_neg (by omega), if_neg fun both => inside both.2, Option.getD_none]
  · rw [if_neg behind, if_neg fun both => behind both.1]

theorem kdDump_asked (asked : dumped.Asked) (saves : system.saves = true)
    (room : system.HasRoom (dumped.last - dumped.nStartAddres)) (memory : Nat → UInt8)
    (curseg : Option Segments.Segment) :
    ∃ outcome, Dump.kdDump space (dumping system memory) curseg false dumped = some outcome ∧
      outcome.file =
        some (region memory dumped.nStartAddres (dumped.last - dumped.nStartAddres)) := by
  have straight : ¬ dumped.Reversed := by
    intro reversed
    have below := reversed.1
    rw [dumped.stop_of_asked asked] at below
    exact Nat.lt_asymm asked.1 below
  have exactly := (Dump.dumpRange_exact_iff Dump.Sizing.asize_t (dumping system memory) dumped).mpr
    (.inr ⟨fun _ => room, fun reversed => straight reversed.1⟩)
  exact ⟨_, rfl, exactly.1 asked saves⟩

/-- A file put back, with the groups of the chosen byte order turned round. -/
theorem idapRun_file {bytes : List UInt8} (puts : PutsBack form nAddres) (nonempty : bytes ≠ [])
    (small : bytes.length < 1073741824) (loaded : EndsLoaded db nAddres bytes.length) :
    idapRun form (some (some bytes)) db =
      some (.ok (db.put nAddres (grouped (groupSize form.nSerializeRadio) bytes))) := by
  have address : form.address db = nAddres := by
    rw [Form.address, if_neg puts.checkmask, puts.nAddres]
  have once : { form with nCount := 1 } = form := by rw [← puts.nCount]
  have run := Given.putManyBytes_once form db (.file bytes nonempty puts.szInValue rfl)
    puts.nWriteRadio (List.length_pos_iff.mpr nonempty) small (address ▸ loaded)
  rw [once, address] at run
  rw [idapRun_eq_put, run]
  rfl

theorem Describes.endsLoaded (describes : Describes space db) (asked : dumped.Asked)
    (memory : Nat → UInt8) :
    EndsLoaded { db with memory } dumped.nStartAddres (dumped.last - dumped.nStartAddres) := by
  obtain ⟨positive, start, final⟩ := asked
  refine ⟨(describes.isLoaded _).symm.trans start, ?_⟩
  have final : db.isLoaded (dumped.last - 1) = true := (describes.isLoaded _).symm.trans final
  have inside := db.loaded_lt _ final
  have place : dumped.nStartAddres + (dumped.last - dumped.nStartAddres) + words db.ea64 - 1 =
      dumped.last - 1 + words db.ea64 := by omega
  show db.isLoaded ((_ + _ + words db.ea64 - 1) % words db.ea64) = true
  rw [place, Nat.add_mod_right, Nat.mod_eq_of_lt inside]
  exact final

/-- A dump put back once and its memory, in a database with any bytes. -/
theorem putBack_memory {bytes : List UInt8} (describes : Describes space db) (asked : dumped.Asked)
    (small : dumped.last - dumped.nStartAddres < 1073741824)
    (puts : PutsBack form dumped.nStartAddres)
    (length : bytes.length = dumped.last - dumped.nStartAddres) (memory : Nat → UInt8) :
    idapRun form (some (some bytes)) { db with memory } =
      some (.ok { db with
        memory := written memory dumped.nStartAddres (grouped (groupSize form.nSerializeRadio) bytes) }) := by
  have positive : 0 < bytes.length := length ▸ Nat.sub_pos_of_lt asked.1
  have loaded := describes.endsLoaded asked memory
  rw [← length] at loaded small
  exact idapRun_file puts (List.length_pos_iff.mp positive) small loaded

/-- Put back into the database, a dump gives the range its bytes again and leaves all others as
they have become, exactly if the complete groups of the byte order read the same from both
ends. -/
theorem dump_putBack_iff (describes : Describes space db) (asked : dumped.Asked)
    (saves : system.saves = true) (room : system.HasRoom (dumped.last - dumped.nStartAddres))
    (small : dumped.last - dumped.nStartAddres < 1073741824)
    (puts : PutsBack form dumped.nStartAddres) (curseg : Option Segments.Segment) :
    ∃ outcome content,
      Dump.kdDump space (dumping system db.memory) curseg false dumped = some outcome ∧
        outcome.file = some content ∧ ∀ changed, ∃ after,
          idapRun form (some (some content)) { db with memory := changed } = some (.ok after) ∧
            (after.memory = restored db.memory changed dumped.nStartAddres dumped.last ↔
              Mirrored db.memory dumped.nStartAddres (groupSize form.nSerializeRadio)
                ((dumped.last - dumped.nStartAddres) / groupSize form.nSerializeRadio)) := by
  obtain ⟨outcome, ran, content⟩ := kdDump_asked asked saves room db.memory curseg
  refine ⟨outcome, _, ran, content, fun changed => ⟨_, putBack_memory describes asked small puts
    (region_length _ _ _) changed, ?_⟩⟩
  have bounds : dumped.nStartAddres + (dumped.last - dumped.nStartAddres) = dumped.last :=
    Nat.add_sub_cancel' (Nat.le_of_lt asked.1)
  have whole := written_region_eq db.memory changed dumped.nStartAddres
    (dumped.last - dumped.nStartAddres)
  rw [bounds] at whole
  rw [← grouped_region_iff, ← whole]
  constructor
  · intro same
    have read := congrArg
      (region · dumped.nStartAddres (dumped.last - dumped.nStartAddres)) same
    have first := region_written changed dumped.nStartAddres
      (grouped (groupSize form.nSerializeRadio)
        (region db.memory dumped.nStartAddres (dumped.last - dumped.nStartAddres)))
    have second := region_written changed dumped.nStartAddres
      (region db.memory dumped.nStartAddres (dumped.last - dumped.nStartAddres))
    rw [grouped_length, region_length] at first
    rw [region_length] at second
    exact first.symm.trans (read.trans second)
  · intro same
    show written _ _ _ = _
    rw [same]

/-- A page whose bytes tell their address. -/
def pageDatabase : Database where
  ea64 := false
  memory ea := UInt8.ofNat ea
  isLoaded := Dump.onePage.isLoaded
  get_screen_ea := 0x1000
  loaded_lt ea loaded := Nat.lt_trans (Dump.onePage.loaded_lt ea loaded) (by decide)

theorem pageDatabase_described : Describes Dump.onePage pageDatabase := ⟨rfl, fun _ => rfl⟩

def firstBytes : Dump.Form Dump.onePage where
  nStartAddres := 0x1000
  nEndAddres := 0x1008
  nRadio := false
  start_lt := by decide
  end_lt := by decide

theorem firstBytes_asked : firstBytes.Asked := ⟨by decide, by decide, by decide⟩

def backForm (nSerializeRadio : Nat) : Form where
  szInValue := []
  nAddres := 0x1000
  nCount := 1
  nWriteRadio := 0
  nSerializeRadio
  checkmask := 0

theorem backForm_puts (nSerializeRadio : Nat) : PutsBack (backForm nSerializeRadio) 0x1000 :=
  ⟨rfl, rfl, rfl, Nat.zero_ne_one, rfl⟩

/-- Without a byte order eight bytes come back. -/
theorem dump_putBack_page : ∃ outcome content,
    Dump.kdDump Dump.onePage (dumping Dump.willing pageDatabase.memory) none false firstBytes =
        some outcome ∧ outcome.file = some content ∧ ∀ changed, ∃ after,
      idapRun (backForm noChoice) (some (some content)) { pageDatabase with memory := changed } =
          some (.ok after) ∧
        after.memory = restored pageDatabase.memory changed 0x1000 0x1008 := by
  obtain ⟨outcome, content, ran, file, back⟩ := dump_putBack_iff pageDatabase_described
    firstBytes_asked (show Dump.willing.saves = true from rfl) ⟨by decide, by decide⟩ (by decide)
    (backForm_puts noChoice) none
  refine ⟨outcome, content, ran, file, fun changed => ?_⟩
  obtain ⟨after, patched, same⟩ := back changed
  exact ⟨after, patched, same.mpr fun j inside => absurd inside (Nat.not_lt_zero j)⟩

/-- A range that is dumped and put back, dumped again and put back with the same byte order has
its bytes again, whatever the byte order is. Nothing changes the range between the first putting
back and the second dump. -/
theorem dump_putBack_twice (describes : Describes space db) (asked : dumped.Asked)
    (saves : system.saves = true) (room : system.HasRoom (dumped.last - dumped.nStartAddres))
    (small : dumped.last - dumped.nStartAddres < 1073741824)
    (puts : PutsBack form dumped.nStartAddres) (curseg : Option Segments.Segment)
    (changed later : Nat → UInt8) :
    ∃ first firstContent after second secondContent,
      Dump.kdDump space (dumping system db.memory) curseg false dumped = some first ∧
        first.file = some firstContent ∧
        idapRun form (some (some firstContent)) { db with memory := changed } = some (.ok after) ∧
        Dump.kdDump space (dumping system after.memory) curseg false dumped = some second ∧
        second.file = some secondContent ∧
        idapRun form (some (some secondContent)) { db with memory := later } =
          some (.ok { db with
            memory := restored db.memory later dumped.nStartAddres dumped.last }) := by
  obtain ⟨first, ran, content⟩ := kdDump_asked asked saves room db.memory curseg
  have put := putBack_memory describes asked small puts
    (region_length db.memory dumped.nStartAddres (dumped.last - dumped.nStartAddres)) changed
  obtain ⟨second, again, read⟩ := kdDump_asked asked saves room
    (written changed dumped.nStartAddres (grouped (groupSize form.nSerializeRadio)
      (region db.memory dumped.nStartAddres (dumped.last - dumped.nStartAddres)))) curseg
  have bounds : dumped.nStartAddres + (dumped.last - dumped.nStartAddres) = dumped.last :=
    Nat.add_sub_cancel' (Nat.le_of_lt asked.1)
  have back := region_written changed dumped.nStartAddres
    (grouped (groupSize form.nSerializeRadio)
      (region db.memory dumped.nStartAddres (dumped.last - dumped.nStartAddres)))
  rw [grouped_length, region_length] at back
  rw [back] at read
  refine ⟨first, _, _, second, _, ran, content, put, again, read, ?_⟩
  rw [putBack_memory describes asked small puts (by rw [grouped_length, region_length]) later,
    grouped_grouped, written_region_eq, bounds]

/-- With groups of eight bytes they come back the second time. -/
theorem dump_putBack_twice_page : ∃ first firstContent after second secondContent,
    Dump.kdDump Dump.onePage (dumping Dump.willing pageDatabase.memory) none false firstBytes =
        some first ∧ first.file = some firstContent ∧
      idapRun (backForm 1) (some (some firstContent)) { pageDatabase with memory := fun _ => 0 } =
          some (.ok after) ∧
      Dump.kdDump Dump.onePage (dumping Dump.willing after.memory) none false firstBytes =
          some second ∧ second.file = some secondContent ∧
      idapRun (backForm 1) (some (some secondContent)) { pageDatabase with memory := fun _ => 0 } =
        some (.ok { pageDatabase with
          memory := restored pageDatabase.memory (fun _ => 0) 0x1000 0x1008 }) :=
  dump_putBack_twice pageDatabase_described firstBytes_asked
    (show Dump.willing.saves = true from rfl) ⟨by decide, by decide⟩ (by decide) (backForm_puts 1)
    none (fun _ => 0) (fun _ => 0)

end IDAPlugins.Patch
