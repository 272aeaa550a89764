import IDAPlugins.PatchArm.Assembler

namespace IDAPlugins.PatchArm

/-! # The lines of the input

`AnalyzerStr` takes the text apart with `strtok` and decides line by line what to
do. Two of its tests read the line at an index that can lie behind its end, so a
line comes with the memory behind it.
-/

/-- The memory that starts with a string, its zero and what stands behind it. -/
def readFrom (text : List UInt8) (behind : Nat → UInt8) (k : Nat) : UInt8 :=
  if k < text.length then text.getD k 0
  else if k = text.length then 0
  else behind (k - text.length - 1)

structure Token where
  text : List UInt8
  behind : Nat → UInt8

def Token.read (p : Token) (k : Nat) : UInt8 :=
  readFrom p.text p.behind k

def isBreak (ch : UInt8) : Bool :=
  ch == 0x0D || ch == 0x0A

/-- All results of `strtok` with the delimiters `"\r\n"`. The delimiter behind a
token becomes its zero; the last token may have the zero of the text. -/
def strtok (memory : Nat → UInt8) : List UInt8 → List UInt8 → List Token
  | word, [] => if word = [] then [] else [{ text := word, behind := memory }]
  | word, ch :: rest =>
    if isBreak ch then
      if word = [] then strtok memory [] rest
      else { text := word, behind := readFrom rest memory } :: strtok memory [] rest
    else
      strtok memory (word ++ [ch]) rest

def isBlank (ch : UInt8) : Bool :=
  ch == 0x20 || ch == 0x09

def Token.indent (p : Token) : Nat :=
  (p.text.takeWhile isBlank).length

def Token.line (p : Token) : List UInt8 :=
  p.text.dropWhile isBlank

/-- The two builds; only the one for 32 bits has the choice between ARM and Thumb. -/
inductive Build where
  | ea64
  | ea32 (g_nType : Mode)
  deriving DecidableEq

def Build.unit : Build → Nat
  | .ea64 => 4
  | .ea32 g_nType => PatchArm.unit g_nType

def Build.addresses : Build → Nat
  | .ea64 => 18446744073709551616
  | .ea32 _ => 4294967296

/-- What the code uses and does not hold itself. -/
structure Environment where
  /-- The memory behind the input text. -/
  memory : Nat → UInt8
  /-- The memory behind `szFilterRegTables`, as rows. -/
  rows : Nat → List UInt8
  get_name_ea : List UInt8 → Nat

def isUpper (ch : UInt8) : Bool :=
  0x41 ≤ ch && ch ≤ 0x5A

/-- The test of the 64-bit build for `BR` and `BLR`: the mnemonic is copied from
index `i` on although `lpInBuf` is already `p + i`. -/
def registerMnemonic (p : Token) : Bool :=
  let i := p.indent
  let lpInBuf := p.line
  let nLooplen := (lpInBuf.takeWhile (!isBlank ·)).length
  let szBuf := (List.range nLooplen).map fun ii =>
    if isUpper (lpInBuf.getD ii 0) then p.read (i + (i + ii)) + 0x20 else p.read (i + (i + ii))
  szBuf.getD 1 0 == 0x72 || szBuf.getD 2 0 == 0x72

def szFilterRegTables : List (List UInt8) :=
  [[0x72, 0x30], [0x72, 0x31], [0x72, 0x32], [0x72, 0x33], [0x72, 0x34], [0x72, 0x35],
    [0x72, 0x36], [0x72, 0x37], [0x72, 0x38], [0x72, 0x39], [0x73, 0x70], [0x6C, 0x72],
    [0x72, 0x31, 0x30], [0x72, 0x31, 0x31], [0x72, 0x31, 0x32]]

/-- The test of the 32-bit build for a register operand. Every character copied is
`lpInBuf[i]`, every row compared with is row `i`, and the line passes as a branch
when they agree. Without a space `strlen` reads from address 1. -/
def registerOperand (env : Environment) (p : Token) : Option Bool :=
  let i := p.indent
  (p.line.idxOf? 0x20).map fun space =>
    let lpInBuf := p.line.drop (space + 1)
    let ch := p.read (i + (space + 1) + i)
    let szBuf := (lpInBuf.filter (!isBlank ·)).map fun letter =>
      if isUpper letter then ch + 0x20 else ch
    let row := szFilterRegTables.getD i (env.rows (i - szFilterRegTables.length))
    decide (1 < szBuf.length ∧ szBuf.length < 4) && szBuf.takeWhile (· != 0) != row

def registerBranch (build : Build) (env : Environment) (p : Token) : Option Bool :=
  match build with
  | .ea64 => some (registerMnemonic p)
  | .ea32 _ => registerOperand env p

inductive LineKind where
  | blank
  | label
  | copied
  | branch
  deriving DecidableEq

def lineKind (build : Build) (env : Environment) (p : Token) : Option LineKind :=
  if p.line = [] then
    some .blank
  else if 0x3A ∈ p.line then
    some .label
  else if p.line.head? = some 0x42 ∨ p.line.head? = some 0x62 then
    (registerBranch build env p).map fun filtered => if filtered then .copied else .branch
  else
    some .copied

theorem strtok_break (memory : Nat → UInt8) (rest word : List UInt8)
    (whole : ∀ ch ∈ word, isBreak ch = false) :
    ∀ p ∈ strtok memory word rest, ∀ ch ∈ p.text, isBreak ch = false := by
  induction rest generalizing word with
  | nil =>
    intro p member
    unfold strtok at member
    split at member
    · exact absurd member List.not_mem_nil
    · rw [List.mem_singleton.mp member]
      exact whole
  | cons ch rest ih =>
    intro p member
    have empty : ∀ ch ∈ ([] : List UInt8), isBreak ch = false := fun _ absent =>
      absurd absent List.not_mem_nil
    unfold strtok at member
    split at member
    · split at member
      · exact ih [] empty p member
      · rcases List.mem_cons.mp member with rfl | later
        · exact whole
        · exact ih [] empty p later
    · rename_i plain
      refine ih (word ++ [ch]) (fun letter found => ?_) p member
      rcases List.mem_append.mp found with old | new
      · exact whole letter old
      · rw [List.mem_singleton.mp new]
        exact Bool.not_eq_true _ ▸ plain

/-- Between two tokens stands a delimiter, so there are at most half as many as
characters. -/
theorem strtok_length (memory : Nat → UInt8) (rest word : List UInt8) :
    2 * (strtok memory word rest).length ≤ rest.length + 1 + if word = [] then 0 else 1 := by
  induction rest generalizing word with
  | nil =>
    unfold strtok
    split <;> simp
  | cons ch rest ih =>
    unfold strtok
    split
    · split
      · have := ih []
        simp only [if_true, List.length_cons] at this ⊢
        omega
      · have := ih []
        simp only [if_true, List.length_cons] at this ⊢
        omega
    · have := ih (word ++ [ch])
      simp only [List.append_eq_nil_iff, List.cons_ne_self, and_false, if_false,
        List.length_cons] at this ⊢
      omega

theorem line_break {p : Token} (whole : ∀ ch ∈ p.text, isBreak ch = false) : 0x0A ∉ p.line := by
  intro member
  have broken := whole 0x0A ((List.dropWhile_sublist isBlank).subset member)
  exact absurd broken (by decide)

end IDAPlugins.PatchArm
