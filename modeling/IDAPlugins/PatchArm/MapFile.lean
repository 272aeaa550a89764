import IDAPlugins.Loop
import IDAPlugins.PatchArm.Lines
import IDAPlugins.Search.Delimiter

namespace IDAPlugins.PatchArm

open Loop Search

/-! # Taking the code out of the assembled file

`WriteSrcFile` puts a marker of twelve bytes behind the text it has assembled, and
`MapFile` reads the code up to the first place where these bytes stand.
-/

def codeOffset : Build → Nat
  | .ea64 => 0x40
  | .ea32 _ => 0x34

def maic : List UInt8 :=
  [0x12, 0x34, 0x56, 0x78, 0x90, 0x12, 0x34, 0x56, 0xFF, 0xFF, 0xFF, 0xFF]

/-- A file with a view of the whole of it in a 32-bit address space. -/
structure MappedFile where
  bytes : List UInt8
  fits : bytes.length < 4294967296

/-- The byte at an offset into the view. The view ends with a page and not with the
file, so a comparison may read on in bytes that are not the file's. -/
def MappedFile.read (file : MappedFile) (behind : Nat → UInt8) (offset : Nat) : UInt8 :=
  file.bytes.getD offset (behind offset)

def MappedFile.memory (file : MappedFile) (behind : Nat → UInt8) (offset size : Nat) :
    List UInt8 :=
  (List.range size).map fun k => file.read behind (offset + k)

def nFileSize (build : Build) (file : MappedFile) : Nat :=
  (((file.bytes.length : Int) - codeOffset build) % 4294967296).toNat

def sentinelPass (build : Build) (file : MappedFile) (behind : Nat → UInt8)
    (dwCodeLen : Nat) : Option (Pass Nat Nat) :=
  if dwCodeLen < nFileSize build file then
    if file.memory behind (codeOffset build + dwCodeLen) maic.length = maic then
      some (.leave dwCodeLen)
    else
      some (.again (dwCodeLen + 1))
  else
    some (.leave dwCodeLen)

/-- `dwCodeLen` and the bytes copied to `lpOutBuf`. -/
def mapFile (build : Build) (file : MappedFile) (behind : Nat → UInt8) :
    Option (Nat × List UInt8) :=
  (run (sentinelPass build file behind) (nFileSize build file + 1) 0).map fun dwCodeLen =>
    (dwCodeLen, file.memory behind (codeOffset build) dwCodeLen)

variable {file : MappedFile} {before part rest : List UInt8}

/-- What the file has behind a given number of bytes is what is read there. -/
theorem MappedFile.memory_middle (behind : Nat → UInt8)
    (split : file.bytes = before ++ (part ++ rest)) :
    file.memory behind before.length part.length = part := by
  apply List.ext_getElem
  · rw [MappedFile.memory, List.length_map, List.length_range]
  · intro k inside bound
    have place : file.bytes[before.length + k]? = part[k]? := by
      rw [split, List.getElem?_append_right (Nat.le_add_right _ _), Nat.add_sub_cancel_left,
        List.getElem?_append_left bound]
    simp only [MappedFile.memory, List.getElem_map, List.getElem_range, MappedFile.read,
      List.getD_eq_getElem?_getD, place, List.getElem?_eq_getElem bound, Option.getD_some]

/-- Bytes read inside the file are a part of it. -/
theorem MappedFile.memory_prefix (behind : Nat → UInt8) (split : file.bytes = before ++ part)
    {offset size : Nat} (inside : offset + size ≤ part.length) :
    file.memory behind (before.length + offset) size <+: part.drop offset := by
  have upper : size ≤ (part.drop offset).length := by
    rw [List.length_drop]
    omega
  have sized : ((part.drop offset).take size).length = size := by
    rw [List.length_take, Nat.min_eq_left upper]
  have placed : (before ++ part.take offset).length = before.length + offset := by
    rw [List.length_append, List.length_take, Nat.min_eq_left (by omega)]
  have whole : file.bytes = (before ++ part.take offset) ++
      ((part.drop offset).take size ++ (part.drop offset).drop size) := by
    rw [List.take_append_drop, List.append_assoc, List.take_append_drop, split]
  have read := file.memory_middle behind whole
  rw [placed, sized] at read
  rw [read]
  exact List.take_prefix _ _

theorem maic_unbordered : Unbordered maic := by
  decide

theorem nFileSize_eq {build : Build} {header : List UInt8}
    (offset : header.length = codeOffset build) (layout : file.bytes = header ++ rest) :
    nFileSize build file = rest.length := by
  have fits := file.fits
  have whole : file.bytes.length = codeOffset build + rest.length := by
    rw [layout, List.length_append, offset]
  rw [nFileSize, whole]
  omega

/-- The scan does not stop in front of the marker, and stops there. -/
theorem sentinelPass_sound {build : Build} (behind : Nat → UInt8) {header w : List UInt8}
    (absent : ¬maic <:+: w) (offset : header.length = codeOffset build)
    (layout : file.bytes = header ++ (w ++ (maic ++ rest))) :
    Sound (sentinelPass build file behind) (· ≤ w.length) (w.length - ·) (· = w.length) := by
  have size := nFileSize_eq offset layout
  rw [List.length_append, List.length_append] at size
  have marked : maic.length = 12 := rfl
  intro dwCodeLen reached
  have goes : dwCodeLen < nFileSize build file := by omega
  by_cases stops : dwCodeLen = w.length
  · right
    have split : file.bytes = (header ++ w) ++ (maic ++ rest) := by
      rw [layout, List.append_assoc]
    have found := file.memory_middle behind split
    rw [List.length_append, offset, ← stops] at found
    exact ⟨dwCodeLen, by rw [sentinelPass, if_pos goes, if_pos found], stops⟩
  · left
    have earlier : dwCodeLen < w.length := Nat.lt_of_le_of_ne reached stops
    have missed : ¬file.memory behind (codeOffset build + dwCodeLen) maic.length = maic := by
      intro found
      have inside : dwCodeLen + maic.length ≤ (w ++ (maic ++ rest)).length := by
        rw [List.length_append, List.length_append]
        omega
      have start := file.memory_prefix behind layout inside
      rw [offset, found] at start
      exact maic_unbordered.not_before absent rest earlier start
    refine ⟨dwCodeLen + 1, by rw [sentinelPass, if_pos goes, if_neg missed], earlier, ?_⟩
    exact Nat.sub_succ_lt_self _ _ earlier

/-- `MapFile` takes exactly the code that stands between the header and the marker. -/
theorem mapFile_exact (build : Build) (file : MappedFile) (behind : Nat → UInt8)
    (header w rest : List UInt8) (absent : ¬maic <:+: w)
    (offset : header.length = codeOffset build)
    (layout : file.bytes = header ++ (w ++ (maic ++ rest))) :
    mapFile build file behind = some (w.length, w) := by
  have enough : w.length - 0 < nFileSize build file + 1 := by
    rw [nFileSize_eq offset layout, List.length_append]
    omega
  obtain ⟨dwCodeLen, done, exactly⟩ :=
    run_total (sentinelPass_sound behind absent offset layout) (Nat.zero_le w.length) enough
  have copied : file.memory behind (codeOffset build) w.length = w := by
    rw [← offset]
    exact file.memory_middle behind layout
  rw [mapFile, done, exactly, Option.map_some, copied]

def oneInstruction : MappedFile where
  bytes := List.replicate 0x34 0 ++ ([0x12, 0x34, 0x56, 0x78] ++ (maic ++ [0]))
  fits := by decide

theorem mapFile_one_instruction :
    mapFile (.ea32 .arm) oneInstruction (fun _ => 0) = some (4, [0x12, 0x34, 0x56, 0x78]) :=
  mapFile_exact (.ea32 .arm) oneInstruction (fun _ => 0) (List.replicate 0x34 0)
    [0x12, 0x34, 0x56, 0x78] [0] (by decide) rfl rfl

end IDAPlugins.PatchArm
