import IDAPlugins.Segments

namespace IDAPlugins.Segments

/-! # Segments and loaded bytes

What the plug-ins that work on a range of bytes ask the database for: the list of
segments, which may be empty here, and which bytes are loaded.
-/

structure AddressSpace where
  ea64 : Bool
  segments : List Segment
  isLoaded : Nat → Bool
  ascending : segments.Pairwise fun first second => first.endEA ≤ second.startEA
  upper : ∀ curseg ∈ segments, curseg.endEA ≤ badaddr ea64
  loaded_lt : ∀ ea, isLoaded ea = true → ea < badaddr ea64

namespace AddressSpace

variable {space : AddressSpace} {curseg : Segment} {ea : Nat}

/-- The number of values of an `ea_t`. -/
def addresses (space : AddressSpace) : Nat :=
  badaddr space.ea64 + 1

def sub (space : AddressSpace) (first second : Nat) : Nat :=
  (((first : Int) - second) % space.addresses).toNat

def getseg (space : AddressSpace) (ea : Nat) : Option Segment :=
  space.segments.find? fun curseg => curseg.startEA ≤ ea ∧ ea < curseg.endEA

/-- `FindSegIndex`, which gives −1 for `none`. -/
def findSegIndex (space : AddressSpace) (uAddr : Nat) : Option Nat :=
  space.segments.findIdx? fun curseg => uAddr ≥ curseg.startEA ∧ uAddr < curseg.endEA

def getnseg (space : AddressSpace) (i : Nat) : Option Segment :=
  space.segments[i]?

theorem addresses_cases (space : AddressSpace) :
    space.addresses = 4294967296 ∨ space.addresses = 18446744073709551616 := by
  cases build : space.ea64 with
  | false => exact Or.inl (by rw [addresses, build]; rfl)
  | true => exact Or.inr (by rw [addresses, build]; rfl)

theorem sub_of_le {first second : Nat} (lower : second ≤ first) (range : first < space.addresses) :
    space.sub first second = first - second := by
  rw [sub, Int.emod_eq_of_lt] <;> omega

/-- Below zero the difference wraps. -/
theorem sub_of_lt {first second : Nat} (higher : first < second)
    (range : second ≤ space.addresses) :
    space.sub first second + second = first + space.addresses := by
  have wrapped : ((first : Int) - second) % space.addresses =
      (first : Int) - second + space.addresses := by
    rw [← Int.add_emod_right, Int.emod_eq_of_lt] <;> omega
  rw [sub, wrapped]
  omega

/-- The segment found by its index is the one that `getseg` finds. -/
theorem getnseg_findSegIndex (space : AddressSpace) (ea : Nat) :
    (space.findSegIndex ea).bind space.getnseg = space.getseg ea := by
  rw [findSegIndex, getseg]
  exact List.find?_eq_bind_findIdx?_getElem?.symm

theorem getseg_mem (found : space.getseg ea = some curseg) :
    curseg ∈ space.segments ∧ curseg.startEA ≤ ea ∧ ea < curseg.endEA := by
  have contains := List.find?_some found
  exact ⟨List.mem_of_find?_eq_some found, of_decide_eq_true contains⟩

end AddressSpace

end IDAPlugins.Segments
