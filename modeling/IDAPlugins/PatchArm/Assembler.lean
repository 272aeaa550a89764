import Mathlib

namespace IDAPlugins.PatchArm

/-! # The assembly files the plugin writes

The plugin lets an external assembler encode its branches. `assemble` says what
the few directives and instructions of those files mean; an assembler is correct
when its object file holds that code behind a header of 0x34 bytes.
-/

inductive Mode where
  | arm
  | thumb
  deriving DecidableEq

/-- `B` or `BL`, with the condition field of the ARM encoding. -/
structure Mnemonic where
  link : Bool
  condition : Fin 15

inductive Label where
  | start
  | thumb
  | asmgen
  deriving DecidableEq

inductive AsmLine where
  | globl (label : Label)
  | align (exponent : Nat)
  | label (label : Label)
  | code (mode : Mode)
  | org (address : Nat)
  | branch (ord : Mnemonic) (label : Label)
  | nop
  | adrR0 (label : Label) (addend : Nat)
  | bxR0

def le16 (value : Nat) : List UInt8 :=
  [UInt8.ofNat value, UInt8.ofNat (value / 256)]

def le32 (value : Nat) : List UInt8 :=
  [UInt8.ofNat value, UInt8.ofNat (value / 256), UInt8.ofNat (value / 65536),
    UInt8.ofNat (value / 16777216)]

/-- The top byte of an ARM branch: condition and opcode. -/
def Mnemonic.opcode (ord : Mnemonic) : Nat :=
  16 * ord.condition + if ord.link then 11 else 10

def armBranch (ord : Mnemonic) (imm24 : Nat) : List UInt8 :=
  le32 (16777216 * ord.opcode + imm24)

/-- A Thumb `BL` as a pair with a combined offset, a plain `B`, or a conditional one. -/
def thumbBranch (ord : Mnemonic) (imm : Nat) : List UInt8 :=
  if ord.link then le16 (0xF000 + imm / 2048) ++ le16 (0xF800 + imm % 2048)
  else if ord.condition = 14 then le16 (0xE000 + imm)
  else le16 (0xD000 + 256 * ord.condition + imm)

/-- An offset in units, as a field of the given size holds it. -/
def field (size : Nat) (offset : Int) : Nat :=
  (offset % size).toNat

/-- The offset a branch has to cover, in bytes: the program counter runs ahead. -/
def reach (mode : Mode) (address target : Nat) : Int :=
  match mode with
  | .arm => (target : Int) - address - 8
  | .thumb => (target : Int) - address - 4

def unit (mode : Mode) : Nat :=
  match mode with
  | .arm => 4
  | .thumb => 2

/-- How many offsets the instruction can hold. A Thumb `BL` has no condition. -/
def offsets (mode : Mode) (ord : Mnemonic) : Nat :=
  match mode, ord.link, decide (ord.condition = 14) with
  | .arm, _, _ => 16777216
  | .thumb, true, true => 4194304
  | .thumb, true, false => 0
  | .thumb, false, true => 2048
  | .thumb, false, false => 256

def span (mode : Mode) (ord : Mnemonic) : Nat :=
  offsets mode ord * unit mode / 2

def InRange (mode : Mode) (ord : Mnemonic) (address target : Nat) : Prop :=
  reach mode address target % unit mode = 0 ∧ -(span mode ord : Int) ≤ reach mode address target ∧
    reach mode address target < span mode ord

instance (mode : Mode) (ord : Mnemonic) (address target : Nat) :
    Decidable (InRange mode ord address target) :=
  inferInstanceAs (Decidable (_ ∧ _ ∧ _))

def branchBytes (mode : Mode) (ord : Mnemonic) (address target : Nat) : List UInt8 :=
  match mode with
  | .arm => armBranch ord (field (offsets .arm ord) (reach .arm address target / 4))
  | .thumb => thumbBranch ord (field (offsets .thumb ord) (reach .thumb address target / 2))

def nopBytes : Mode → List UInt8
  | .arm => [0x00, 0x00, 0xA0, 0xE1]
  | .thumb => [0xC0, 0x46]

structure Location where
  mode : Mode
  address : Nat

def branchSize (mode : Mode) (ord : Mnemonic) : Nat :=
  match mode with
  | .arm => 4
  | .thumb => if ord.link then 4 else 2

def AsmLine.advance (here : Location) : AsmLine → Option Location
  | .globl _ | .label _ => some here
  | .align exponent =>
    some { here with address := (here.address + 2 ^ exponent - 1) / 2 ^ exponent * 2 ^ exponent }
  | .code mode => some { here with mode }
  | .org address => if here.address ≤ address then some { here with address } else none
  | .branch ord _ => some { here with address := here.address + branchSize here.mode ord }
  | .nop => some { here with address := here.address + unit here.mode }
  | .adrR0 _ _ => some { here with address := here.address + 4 }
  | .bxR0 => some { here with address := here.address + 4 }

def findLabel (name : Label) : Location → List AsmLine → Option Nat
  | _, [] => none
  | here, .label name' :: rest =>
    if name' = name then some here.address else findLabel name here rest
  | here, line :: rest => (line.advance here).bind fun next => findLabel name next rest

/-- The bytes of a line between two locations; both instructions of the Thumb
prologue are ARM instructions. -/
def AsmLine.encode (labels : Label → Option Nat) (here next : Location) :
    AsmLine → Option (List UInt8)
  | .globl _ | .label _ | .code _ => some []
  | .align _ | .org _ => some (List.replicate (next.address - here.address) 0)
  | .branch ord name => (labels name).bind fun target =>
    if InRange here.mode ord here.address target then
      some (branchBytes here.mode ord here.address target)
    else none
  | .nop => some (nopBytes here.mode)
  | .adrR0 name addend => (labels name).bind fun target =>
    if here.address + 8 ≤ target + addend ∧ target + addend < here.address + 8 + 256 then
      some (le32 (0xE28F0000 + (target + addend - (here.address + 8))))
    else none
  | .bxR0 => some (le32 0xE12FFF10)

def assembleFrom (labels : Label → Option Nat) : Location → List AsmLine → Option (List UInt8)
  | _, [] => some []
  | here, line :: rest => do
    let next ← line.advance here
    let bytes ← line.encode labels here next
    let tail ← assembleFrom labels next rest
    some (bytes ++ tail)

def assemble (program : List AsmLine) : Option (List UInt8) :=
  assembleFrom (fun label => findLabel label { mode := .arm, address := 0 } program)
    { mode := .arm, address := 0 } program

/-- What running the assembler gives: its console output and the object file, or
nothing when it could not be started. -/
abbrev Assembler := List AsmLine → Option (List UInt8 × List UInt8)

def errorText : List UInt8 := [0x45, 0x72, 0x72, 0x6F, 0x72]

/-- The assembler encodes what can be encoded, with the code at file offset 0x34,
and otherwise says `Error` on the console. -/
def Encodes (assembler : Assembler) : Prop :=
  ∀ program, match assemble program with
    | some code => ∃ console header trailer, ¬ errorText <:+: console ∧ header.length = 0x34 ∧
        assembler program = some (console, header ++ (code ++ trailer))
    | none => ∃ console object, errorText <:+: console ∧ assembler program = some (console, object)

def plainAssembler : Assembler := fun program =>
  match assemble program with
  | some code => some ([], List.replicate 0x34 0 ++ code)
  | none => some (errorText, [])

theorem plainAssembler_encodes : Encodes plainAssembler := by
  intro program
  unfold plainAssembler
  cases assemble program with
  | none => exact ⟨errorText, [], List.infix_refl _, rfl⟩
  | some code =>
    refine ⟨[], List.replicate 0x34 0, [], ?_, List.length_replicate, by rw [List.append_nil]⟩
    rw [List.infix_nil]
    exact List.cons_ne_nil _ _

end IDAPlugins.PatchArm
