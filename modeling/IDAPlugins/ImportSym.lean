import Mathlib.Data.List.DropRight
import Mathlib.Data.List.Infix
import IDAPlugins.HexText

namespace IDAPlugins.ImportSym

open HexText

/-! # Importing the symbols of a kernel

`run` goes once through the lines of a symbol listing. The first symbol with `stext` in its
name sets the base address; before that the base is zero. Text symbols from the base on get
a function and a name.
-/

/-- What `run` uses of the database. `MakeFunction` and `MakeNameEx` give zero if they
fail. -/
structure Ida (σ : Type) where
  get_imagebase : σ → Nat
  set_imagebase : σ → Nat → σ
  getFunctionAttr : σ → Nat → Int
  makeFunction : σ → Nat → Nat × σ
  makeNameEx : σ → Nat → List UInt8 → Nat × σ

/-- `made` are the addresses at which a function was made, `present` those at which one was
found, `names` those that took a name; `failed` is what is printed about the others. -/
structure State (σ : Type) where
  index : Nat
  baseaddr : Nat
  db : σ
  made : List Nat
  present : List Nat
  names : List Nat
  failed : List (Nat × Nat × List UInt8)

def isSpace (ch : UInt8) : Bool := ch == 0x20 || (0x09 ≤ ch && ch ≤ 0x0D)

/-- `int(text, 16)`. Texts with a sign, a prefix or blanks do not occur in a listing. -/
def int16 (text : List UInt8) : Option Nat :=
  if text ≠ [] ∧ text.all (IsHexDigit ·) then some (hexNumber text) else none

def stext : List UInt8 := [0x73, 0x74, 0x65, 0x78, 0x74]

/-- `T` or `t` -/
def isText (type : List UInt8) : Bool := type == [0x54] || type == [0x74]

variable {σ : Type}

/-- The base of the symbol that is found first, also for the image. -/
def State.rebase (ida : Ida σ) (state : State σ) (addr : Nat) : State σ :=
  { state with
    baseaddr := addr
    db := if addr ≠ ida.get_imagebase state.db then ida.set_imagebase state.db addr else state.db }

def State.withFunction (ida : Ida σ) (state : State σ) (addr : Nat) : State σ :=
  if ida.getFunctionAttr state.db addr = -1 then
    let answer := ida.makeFunction state.db addr
    { state with
      db := answer.2
      made := if answer.1 = 0 then state.made else state.made ++ [addr] }
  else if ida.getFunctionAttr state.db addr = addr then
    { state with present := state.present ++ [addr] }
  else
    state

def State.withName (ida : Ida σ) (state : State σ) (addr : Nat) (name : List UInt8) : State σ :=
  let answer := ida.makeNameEx state.db addr name
  if answer.1 = 0 then
    { state with db := answer.2, failed := state.failed ++ [(state.index, addr, name)] }
  else
    { state with db := answer.2, names := state.names ++ [addr] }

def State.define (ida : Ida σ) (state : State σ) (addr : Nat) (name : List UInt8) : State σ :=
  let counted := { state with index := state.index + 1 }
  (counted.withFunction ida addr).withName ida addr name

/-- While the base is zero a name with `stext` in it sets it. -/
def findBase (ida : Ida σ) (state : State σ) (lstr : List (List UInt8)) (addr : Nat) :
    Option (State σ) :=
  if state.baseaddr = 0 then do
    let name ← lstr[2]?
    some (if stext <:+: name then state.rebase ida addr else state)
  else
    some state

def addSymbol (ida : Ida σ) (state : State σ) (lstr : List (List UInt8)) (addr : Nat) :
    Option (State σ) :=
  if state.baseaddr ≤ addr then do
    let type ← lstr[1]?
    if isText type then
      let name ← lstr[2]?
      some (state.define ida addr name)
    else
      some state
  else
    some state

/-- One line; `none` is an exception. -/
def readLine (ida : Ida σ) (state : State σ) (i : List UInt8) : Option (State σ) := do
  let lstr := (i.rdropWhile isSpace).splitOn 0x20
  let first ← lstr[0]?
  let addr ← int16 first
  let state ← findBase ida state lstr addr
  addSymbol ida state lstr addr

def start (db : σ) : State σ :=
  { index := 0, baseaddr := 0, db, made := [], present := [], names := [], failed := [] }

def run (ida : Ida σ) (db : σ) (lines : List (List UInt8)) : Option (State σ) :=
  lines.foldlM (readLine ida) (start db)

/-- A line of a listing: an address, a type, a name and the end of the line. -/
structure Symbol where
  digits : List UInt8
  type : UInt8
  name : List UInt8
  ending : List UInt8
  nonempty : digits ≠ []
  hex : ∀ ch ∈ digits, IsHexDigit ch
  visible : isSpace type = false
  named : name ≠ []
  plain : ∀ ch ∈ name, isSpace ch = false
  blank : ∀ ch ∈ ending, isSpace ch = true

namespace Symbol

def addr (symbol : Symbol) : Nat := hexNumber symbol.digits

def text (symbol : Symbol) : List UInt8 :=
  symbol.digits ++ 0x20 :: symbol.type :: 0x20 :: symbol.name ++ symbol.ending

def isStext (symbol : Symbol) : Bool := decide (stext <:+: symbol.name)

def isCode (symbol : Symbol) : Bool := isText [symbol.type]

end Symbol

/-- A listing with exactly one symbol for `stext`. -/
structure Listing where
  symbols : List Symbol
  one : (symbols.filter Symbol.isStext).length = 1

namespace Listing

def lines (listing : Listing) : List (List UInt8) := listing.symbols.map Symbol.text

def front (listing : Listing) : List Symbol :=
  listing.symbols.takeWhile fun symbol => !symbol.isStext

def base (listing : Listing) : Nat :=
  ((listing.symbols.filter Symbol.isStext).head?.map Symbol.addr).getD 0

end Listing

/-- The addresses of the text symbols from `stext` on. -/
def Listing.Wanted (listing : Listing) (addr : Nat) : Prop :=
  ∃ symbol ∈ listing.symbols, symbol.isCode = true ∧ listing.base ≤ symbol.addr ∧
    symbol.addr = addr

/-- Functions and names are made at the addresses wanted and at no others; where a function
begins already, none has to be made. -/
structure State.Handled (state : State σ) (Wanted : Nat → Prop) : Prop where
  created : ∀ addr ∈ state.made, Wanted addr
  functions : ∀ addr, Wanted addr → addr ∈ state.made ∨ addr ∈ state.present
  names : ∀ addr, addr ∈ state.names ↔ Wanted addr

def Imports (ida : Ida σ) (db : σ) (lines : List (List UInt8)) (Wanted : Nat → Prop) : Prop :=
  ∃ final, run ida db lines = some final ∧ final.Handled Wanted

/-- The state with the base that counts for a line. -/
def State.based (ida : Ida σ) (state : State σ) (symbol : Symbol) : State σ :=
  if state.baseaddr = 0 ∧ symbol.isStext = true then state.rebase ida symbol.addr else state

/-- The lines in front of that of `symbol` lead to `state`, the base for it being set. -/
def Meets (ida : Ida σ) (db : σ) (symbols : List Symbol) (symbol : Symbol) (state : State σ) :
    Prop :=
  ∃ front back before, symbols = front ++ symbol :: back ∧
    run ida db (front.map Symbol.text) = some before ∧ state = before.based ida symbol

/-- The database answers that there is no function, and makes one. -/
def State.Creates (ida : Ida σ) (state : State σ) (symbol : Symbol) : Prop :=
  ida.getFunctionAttr state.db symbol.addr = -1 ∧ (ida.makeFunction state.db symbol.addr).1 ≠ 0

/-- The database answers that a function begins there. -/
def State.Finds (ida : Ida σ) (state : State σ) (symbol : Symbol) : Prop :=
  ida.getFunctionAttr state.db symbol.addr = symbol.addr

/-- The database takes the name of the symbol. -/
def State.Takes (ida : Ida σ) (state : State σ) (symbol : Symbol) : Prop :=
  (ida.makeNameEx (state.withFunction ida symbol.addr).db symbol.addr symbol.name).1 ≠ 0

/-- Text symbols below `stext` in front of its line are refused, and for every address wanted
the database gives a function at one of its lines and takes a name at one. -/
structure Listing.Clear (listing : Listing) (ida : Ida σ) (db : σ) : Prop where
  early : ∀ symbol state, Meets ida db listing.front symbol state → symbol.isCode = true →
    symbol.addr < listing.base → ¬ state.Creates ida symbol ∧ ¬ state.Takes ida symbol
  functions : ∀ addr, listing.Wanted addr → ∃ symbol state,
    Meets ida db listing.symbols symbol state ∧ symbol.isCode = true ∧ symbol.addr = addr ∧
      (state.Creates ida symbol ∨ state.Finds ida symbol)
  names : ∀ addr, listing.Wanted addr → ∃ symbol state,
    Meets ida db listing.symbols symbol state ∧ symbol.isCode = true ∧ symbol.addr = addr ∧
      state.Takes ida symbol

variable {ida : Ida σ} {state : State σ} {symbol : Symbol}

theorem digits_free {digits : List UInt8} (hex : ∀ ch ∈ digits, IsHexDigit ch) :
    0x20 ∉ digits := by
  intro member
  exact absurd (hex _ member) (by decide)

/-- `rstrip` stops at the last character that is no space. -/
theorem rstrip_append {last : UInt8} (visible : isSpace last = false) (body : List UInt8)
    {ending : List UInt8} (blank : ∀ ch ∈ ending, isSpace ch = true) :
    (body ++ [last] ++ ending).rdropWhile isSpace = body ++ [last] := by
  induction ending using List.reverseRecOn with
  | nil =>
    rw [List.append_nil]
    exact List.rdropWhile_concat_neg isSpace body last (by simp [visible])
  | append_singleton ending ch ih =>
    simp only [List.forall_mem_append, List.forall_mem_singleton] at blank
    rw [← List.append_assoc, List.rdropWhile_concat_pos isSpace _ ch blank.2]
    exact ih blank.1

namespace Symbol

/-- The end of the line is removed, and no part of the name. -/
theorem stripped (symbol : Symbol) : symbol.text.rdropWhile isSpace =
    symbol.digits ++ 0x20 :: symbol.type :: 0x20 :: symbol.name := by
  have split := List.dropLast_append_getLast symbol.named
  have visible := symbol.plain _ (List.getLast_mem symbol.named)
  have strip := rstrip_append visible
    (symbol.digits ++ 0x20 :: symbol.type :: 0x20 :: symbol.name.dropLast) symbol.blank
  have body : symbol.digits ++ 0x20 :: symbol.type :: 0x20 :: symbol.name.dropLast ++
      [symbol.name.getLast symbol.named] =
        symbol.digits ++ 0x20 :: symbol.type :: 0x20 :: symbol.name := by
    simp only [List.append_assoc, List.cons_append, split]
  rw [body] at strip
  simpa only [text, List.append_assoc, List.cons_append] using strip

theorem fields (symbol : Symbol) : (symbol.text.rdropWhile isSpace).splitOn 0x20 =
    [symbol.digits, [symbol.type], symbol.name] := by
  have type : (0x20 : UInt8) ∉ [symbol.type] := by
    intro member
    have visible := symbol.visible
    rw [← List.mem_singleton.mp member] at visible
    cases visible
  have name : (0x20 : UInt8) ∉ symbol.name := by
    intro member
    cases symbol.plain _ member
  have rest : (symbol.type :: 0x20 :: symbol.name).splitOn 0x20 = [[symbol.type], symbol.name] := by
    have further := List.splitOn_append_cons_self_of_not_mem type symbol.name
    rw [List.splitOn_eq_singleton name] at further
    exact further
  rw [stripped, List.splitOn_append_cons_self_of_not_mem (digits_free symbol.hex), rest]

theorem int16_digits (symbol : Symbol) : int16 symbol.digits = some symbol.addr := by
  have hex : symbol.digits.all (IsHexDigit ·) = true :=
    List.all_eq_true.mpr fun ch member => decide_eq_true (symbol.hex ch member)
  exact if_pos ⟨symbol.nonempty, hex⟩

end Symbol

def State.take (ida : Ida σ) (state : State σ) (symbol : Symbol) : State σ :=
  let based := state.based ida symbol
  if based.baseaddr ≤ symbol.addr ∧ symbol.isCode = true then
    based.define ida symbol.addr symbol.name
  else based

theorem findBase_fields (state : State σ) (symbol : Symbol) :
    findBase ida state [symbol.digits, [symbol.type], symbol.name] symbol.addr =
      some (state.based ida symbol) := by
  by_cases zero : state.baseaddr = 0
  · by_cases found : stext <:+: symbol.name
    · simp [findBase, State.based, Symbol.isStext, zero, found]
    · simp [findBase, State.based, Symbol.isStext, zero, found]
  · simp [findBase, State.based, zero]

theorem addSymbol_fields (state : State σ) (symbol : Symbol) :
    addSymbol ida state [symbol.digits, [symbol.type], symbol.name] symbol.addr =
      some (if state.baseaddr ≤ symbol.addr ∧ symbol.isCode = true then
        state.define ida symbol.addr symbol.name else state) := by
  by_cases above : state.baseaddr ≤ symbol.addr
  · by_cases code : isText [symbol.type] = true
    · simp [addSymbol, Symbol.isCode, above, code]
    · simp [addSymbol, Symbol.isCode, above, code]
  · simp [addSymbol, above]

theorem readLine_text (state : State σ) (symbol : Symbol) :
    readLine ida state symbol.text = some (state.take ida symbol) := by
  simp only [readLine, symbol.fields, List.getElem?_cons_zero, Option.bind_eq_bind,
    Option.bind_some, symbol.int16_digits, findBase_fields, addSymbol_fields, State.take]

theorem run_eq (db : σ) (symbols : List Symbol) :
    run ida db (symbols.map Symbol.text) = some (symbols.foldl (State.take ida) (start db)) := by
  have general (state : State σ) : (symbols.map Symbol.text).foldlM (readLine ida) state =
      some (symbols.foldl (State.take ida) state) := by
    induction symbols generalizing state with
    | nil => rfl
    | cons symbol rest ih =>
      rw [List.map_cons, List.foldlM_cons, readLine_text]
      exact ih _
  exact general _

/-- A line of a symbol that passes. -/
def Passes (state : State σ) (symbol : Symbol) : Prop :=
  state.baseaddr ≤ symbol.addr ∧ symbol.isCode = true

theorem meets_iff {db : σ} {symbols : List Symbol} : Meets ida db symbols symbol state ↔
    ∃ front back, symbols = front ++ symbol :: back ∧
      state = (front.foldl (State.take ida) (start db)).based ida symbol := by
  simp only [Meets, run_eq, Option.some.injEq, exists_and_left, exists_eq_left']

/-- With a further line the lines met are the ones before and this one. -/
theorem meets_append {db : σ} {symbols : List Symbol} {last : Symbol} :
    Meets ida db (symbols ++ [last]) symbol state ↔ Meets ida db symbols symbol state ∨
      symbol = last ∧ state = (symbols.foldl (State.take ida) (start db)).based ida last := by
  simp only [meets_iff]
  constructor
  · rintro ⟨front, back, split, rfl⟩
    rcases back.eq_nil_or_concat with rfl | ⟨back, other, rfl⟩
    · obtain ⟨rfl, same⟩ := List.append_inj' split rfl
      cases same
      exact .inr ⟨rfl, rfl⟩
    · rw [List.concat_eq_append, ← List.cons_append, ← List.append_assoc] at split
      exact .inl ⟨front, back, (List.append_inj' split rfl).1, rfl⟩
  · rintro (⟨front, back, rfl, rfl⟩ | ⟨rfl, rfl⟩)
    · exact ⟨front, back ++ [last], by simp, rfl⟩
    · exact ⟨symbols, [], rfl, rfl⟩

/-- What a run writes down where an event happens is what its lines that pass have with the
event: one line writes down its own address at most. -/
theorem mem_log_iff {db : σ} {log : State σ → List Nat} {Event : State σ → Symbol → Prop}
    (empty : log (start db) = [])
    (step : ∀ (state : State σ) (symbol : Symbol) (addr : Nat),
      addr ∈ log (state.take ida symbol) ↔ addr ∈ log state ∨
        Passes (state.based ida symbol) symbol ∧ Event (state.based ida symbol) symbol ∧
          symbol.addr = addr)
    (symbols : List Symbol) (addr : Nat) :
    addr ∈ log (symbols.foldl (State.take ida) (start db)) ↔
      ∃ symbol state, Meets ida db symbols symbol state ∧ Passes state symbol ∧
        Event state symbol ∧ symbol.addr = addr := by
  induction symbols using List.reverseRecOn with
  | nil =>
    rw [List.foldl_nil, empty]
    refine iff_of_false List.not_mem_nil ?_
    rintro ⟨symbol, state, meets, -⟩
    obtain ⟨front, back, split, -⟩ := meets_iff.mp meets
    cases front with
    | nil => cases split
    | cons => cases split
  | append_singleton symbols last ih =>
    rw [List.foldl_append, List.foldl_cons, List.foldl_nil, step, ih]
    constructor
    · rintro (⟨symbol, state, meets, rest⟩ | rest)
      · exact ⟨symbol, state, meets_append.mpr (.inl meets), rest⟩
      · exact ⟨last, _, meets_append.mpr (.inr ⟨rfl, rfl⟩), rest⟩
    · rintro ⟨symbol, state, meets, rest⟩
      rcases meets_append.mp meets with meets | ⟨rfl, rfl⟩
      · exact .inl ⟨symbol, state, meets, rest⟩
      · exact .inr rest

theorem State.based_logs (ida : Ida σ) (state : State σ) (symbol : Symbol) :
    (state.based ida symbol).made = state.made ∧
      (state.based ida symbol).present = state.present ∧
      (state.based ida symbol).names = state.names := by
  rw [State.based]
  split
  · exact ⟨rfl, rfl, rfl⟩
  · exact ⟨rfl, rfl, rfl⟩

theorem State.withName_logs (ida : Ida σ) (state : State σ) (addr : Nat) (name : List UInt8) :
    (state.withName ida addr name).made = state.made ∧
      (state.withName ida addr name).present = state.present ∧
      (state.withName ida addr name).baseaddr = state.baseaddr := by
  simp only [State.withName]
  split
  · exact ⟨rfl, rfl, rfl⟩
  · exact ⟨rfl, rfl, rfl⟩

theorem State.withFunction_logs (ida : Ida σ) (state : State σ) (addr : Nat) :
    (state.withFunction ida addr).names = state.names ∧
      (state.withFunction ida addr).baseaddr = state.baseaddr := by
  simp only [State.withFunction]
  split
  · exact ⟨rfl, rfl⟩
  · split
    · exact ⟨rfl, rfl⟩
    · exact ⟨rfl, rfl⟩

theorem mem_define_made {addr : Nat} :
    addr ∈ (state.define ida symbol.addr symbol.name).made ↔
      addr ∈ state.made ∨ state.Creates ida symbol ∧ symbol.addr = addr := by
  simp only [State.define, (State.withName_logs ida _ _ _).1, State.withFunction, State.Creates]
  by_cases missing : ida.getFunctionAttr state.db symbol.addr = -1
  · by_cases refused : (ida.makeFunction state.db symbol.addr).1 = 0
    · simp [missing, refused]
    · simp [missing, refused, eq_comm]
  · by_cases begins : ida.getFunctionAttr state.db symbol.addr = symbol.addr
    · have some : ¬ (symbol.addr : Int) = -1 := by omega
      simp [begins, some]
    · simp [missing, begins]

theorem mem_define_present {addr : Nat} :
    addr ∈ (state.define ida symbol.addr symbol.name).present ↔
      addr ∈ state.present ∨ state.Finds ida symbol ∧ symbol.addr = addr := by
  simp only [State.define, (State.withName_logs ida _ _ _).2.1, State.withFunction, State.Finds]
  by_cases missing : ida.getFunctionAttr state.db symbol.addr = -1
  · have other : ¬ (-1 : Int) = symbol.addr := by omega
    simp [missing, other]
  · by_cases begins : ida.getFunctionAttr state.db symbol.addr = symbol.addr
    · have some : ¬ (symbol.addr : Int) = -1 := by omega
      simp [begins, some, eq_comm]
    · simp [missing, begins]

theorem mem_define_names {addr : Nat} :
    addr ∈ (state.define ida symbol.addr symbol.name).names ↔
      addr ∈ state.names ∨ state.Takes ida symbol ∧ symbol.addr = addr := by
  have same : (State.withFunction ida { state with index := state.index + 1 } symbol.addr).db =
      (state.withFunction ida symbol.addr).db := by
    simp only [State.withFunction]
    split
    · rfl
    · split
      · rfl
      · rfl
  simp only [State.define, State.withName, same, State.Takes]
  by_cases refused :
      (ida.makeNameEx (state.withFunction ida symbol.addr).db symbol.addr symbol.name).1 = 0
  · simp [refused, (State.withFunction_logs ida _ _).1]
  · simp [refused, (State.withFunction_logs ida _ _).1, eq_comm]

theorem State.define_baseaddr (state : State σ) (addr : Nat) (name : List UInt8) :
    (state.define ida addr name).baseaddr = state.baseaddr :=
  (State.withName_logs ida _ addr name).2.2.trans (State.withFunction_logs ida _ addr).2

theorem State.take_baseaddr (state : State σ) (symbol : Symbol) :
    (state.take ida symbol).baseaddr = (state.based ida symbol).baseaddr := by
  simp only [State.take]
  split
  · exact State.define_baseaddr _ _ _
  · rfl

/-- A line that passes defines its symbol; any other leaves what is written down alone. -/
theorem mem_take_iff {log : State σ → List Nat} {Event : State σ → Symbol → Prop}
    (based : ∀ (state : State σ) (symbol : Symbol), log (state.based ida symbol) = log state)
    (define : ∀ (state : State σ) (symbol : Symbol) (addr : Nat),
      addr ∈ log (state.define ida symbol.addr symbol.name) ↔
        addr ∈ log state ∨ Event state symbol ∧ symbol.addr = addr)
    (state : State σ) (symbol : Symbol) (addr : Nat) :
    addr ∈ log (state.take ida symbol) ↔ addr ∈ log state ∨
      Passes (state.based ida symbol) symbol ∧ Event (state.based ida symbol) symbol ∧
        symbol.addr = addr := by
  simp only [State.take]
  split
  · rename_i passes
    rw [define, based, and_iff_right (show Passes _ symbol from passes)]
  · rename_i passes
    rw [based]
    exact (or_iff_left fun event => passes event.1).symm

/-- What a run makes, finds and names: the events of the lines that pass. -/
structure Logged (ida : Ida σ) (db : σ) (symbols : List Symbol) (final : State σ) : Prop where
  made : ∀ addr, addr ∈ final.made ↔ ∃ symbol state, Meets ida db symbols symbol state ∧
    Passes state symbol ∧ state.Creates ida symbol ∧ symbol.addr = addr
  present : ∀ addr, addr ∈ final.present ↔ ∃ symbol state, Meets ida db symbols symbol state ∧
    Passes state symbol ∧ state.Finds ida symbol ∧ symbol.addr = addr
  names : ∀ addr, addr ∈ final.names ↔ ∃ symbol state, Meets ida db symbols symbol state ∧
    Passes state symbol ∧ state.Takes ida symbol ∧ symbol.addr = addr

theorem run_logs (ida : Ida σ) (db : σ) (symbols : List Symbol) :
    ∃ final, run ida db (symbols.map Symbol.text) = some final ∧
      Logged ida db symbols final := by
  refine ⟨_, run_eq db symbols, ?_, ?_, ?_⟩
  · exact mem_log_iff rfl (mem_take_iff (fun state symbol => (state.based_logs ida symbol).1)
      fun _ _ _ => mem_define_made) symbols
  · exact mem_log_iff rfl (mem_take_iff (fun state symbol => (state.based_logs ida symbol).2.1)
      fun _ _ _ => mem_define_present) symbols
  · exact mem_log_iff rfl (mem_take_iff (fun state symbol => (state.based_logs ida symbol).2.2)
      fun _ _ _ => mem_define_names) symbols

/-- Of two orders of the same lines the base is the same. -/
theorem Listing.base_perm {listing other : Listing} (perm : other.symbols.Perm listing.symbols) :
    other.base = listing.base := by
  have found := perm.filter Symbol.isStext
  obtain ⟨symbol, single⟩ := List.length_eq_one_iff.mp listing.one
  rw [single] at found
  rw [Listing.base, Listing.base, single, List.perm_singleton.mp found]

theorem Listing.wanted_perm {listing other : Listing}
    (perm : other.symbols.Perm listing.symbols) (addr : Nat) :
    other.Wanted addr ↔ listing.Wanted addr := by
  simp only [Listing.Wanted, Listing.base_perm perm, perm.mem_iff]

theorem Listing.base_of_stext (listing : Listing) (member : symbol ∈ listing.symbols)
    (found : symbol.isStext = true) : listing.base = symbol.addr := by
  obtain ⟨only, single⟩ := List.length_eq_one_iff.mp listing.one
  have kept : symbol ∈ listing.symbols.filter Symbol.isStext :=
    List.mem_filter.mpr ⟨member, found⟩
  rw [single, List.mem_singleton] at kept
  rw [Listing.base, single, kept]
  rfl

theorem Listing.mem_of_front (listing : Listing) (member : symbol ∈ listing.front) :
    symbol ∈ listing.symbols :=
  (List.takeWhile_sublist _).subset member

theorem State.based_baseaddr (state : State σ) (symbol : Symbol) :
    (state.based ida symbol).baseaddr =
      if state.baseaddr = 0 ∧ symbol.isStext = true then symbol.addr else state.baseaddr := by
  rw [State.based]
  split
  · rfl
  · rfl

/-- Behind the line of `stext` the base is its address, in front of it zero. -/
theorem Listing.foldl_baseaddr (listing : Listing) (ida : Ida σ) (db : σ) (front : List Symbol)
    (ahead : front <+: listing.symbols) :
    (front.foldl (State.take ida) (start db)).baseaddr =
      if front.any Symbol.isStext = true then listing.base else 0 := by
  induction front using List.reverseRecOn with
  | nil => rfl
  | append_singleton front symbol ih =>
    have before := ih ((List.prefix_append _ _).trans ahead)
    have member : symbol ∈ listing.symbols := ahead.subset (by simp)
    rw [List.foldl_append, List.foldl_cons, List.foldl_nil, State.take_baseaddr,
      State.based_baseaddr, before, List.any_append]
    by_cases found : symbol.isStext = true
    · rw [← listing.base_of_stext member found]
      by_cases earlier : front.any Symbol.isStext = true
      · simp [earlier]
      · simp [earlier, found]
    · simp [found]

theorem Listing.based_baseaddr (listing : Listing) (db : σ) {front back : List Symbol}
    (split : listing.symbols = front ++ symbol :: back) :
    ((front.foldl (State.take ida) (start db)).based ida symbol).baseaddr =
      if (front ++ [symbol]).any Symbol.isStext = true then listing.base else 0 := by
  have here := listing.foldl_baseaddr ida db (front ++ [symbol])
    ⟨back, by rw [split, List.append_assoc, List.singleton_append]⟩
  rwa [List.foldl_append, List.foldl_cons, List.foldl_nil, State.take_baseaddr] at here

theorem Meets.mem {db : σ} {symbols : List Symbol} (meets : Meets ida db symbols symbol state) :
    symbol ∈ symbols := by
  obtain ⟨front, back, -, rfl, -⟩ := meets
  exact List.mem_append_right _ List.mem_cons_self

theorem exists_meets (ida : Ida σ) (db : σ) {symbols : List Symbol} (member : symbol ∈ symbols) :
    ∃ state, Meets ida db symbols symbol state := by
  obtain ⟨front, back, split⟩ := List.append_of_mem member
  exact ⟨_, meets_iff.mpr ⟨front, back, split, rfl⟩⟩

/-- Where the base is not yet that of the listing, the line of `stext` is still ahead. -/
theorem Listing.meets_cases {listing : Listing} {db : σ}
    (meets : Meets ida db listing.symbols symbol state) :
    state.baseaddr = listing.base ∨ Meets ida db listing.front symbol state := by
  obtain ⟨front, back, split, rfl⟩ := meets_iff.mp meets
  by_cases found : (front ++ [symbol]).any Symbol.isStext = true
  · exact .inl ((listing.based_baseaddr db split).trans (if_pos found))
  · simp only [List.any_append, List.any_cons, List.any_nil, Bool.or_false, Bool.or_eq_true,
      not_or, Bool.not_eq_true, List.any_eq_false] at found
    refine .inr (meets_iff.mpr ⟨front, back.takeWhile fun symbol => !symbol.isStext, ?_, rfl⟩)
    have plain : ∀ other ∈ front, (!other.isStext) = true :=
      fun other member => by simpa using found.1 other member
    rw [Listing.front, split, List.takeWhile_append_of_pos plain,
      List.takeWhile_cons_of_pos (by simp [found.2])]

theorem Listing.meets_front {listing : Listing} {db : σ}
    (meets : Meets ida db listing.front symbol state) :
    Meets ida db listing.symbols symbol state ∧ state.baseaddr = 0 := by
  obtain ⟨front, back, split, rfl⟩ := meets_iff.mp meets
  have whole : listing.symbols = front ++ symbol ::
      (back ++ listing.symbols.dropWhile fun symbol => !symbol.isStext) := by
    rw [← List.cons_append, ← List.append_assoc, ← split]
    exact List.takeWhile_append_dropWhile.symm
  have plain : ¬ (front ++ [symbol]).any Symbol.isStext = true := by
    rw [List.any_eq_true]
    rintro ⟨other, member, found⟩
    have within : other ∈ listing.front := by
      rw [split, ← List.singleton_append, ← List.append_assoc]
      exact List.mem_append_left _ member
    have := List.mem_takeWhile_imp within
    simp [found] at this
  exact ⟨meets_iff.mpr ⟨front, _, whole, rfl⟩,
    (listing.based_baseaddr db whole).trans (if_neg plain)⟩

theorem Listing.base_le_of_wanted {listing : Listing} {addr : Nat} (wanted : listing.Wanted addr) :
    listing.base ≤ addr := by
  obtain ⟨symbol, -, -, lower, rfl⟩ := wanted
  exact lower

/-- A line of a symbol that is wanted passes. -/
theorem Listing.passes_of_wanted {listing : Listing} {db : σ}
    (meets : Meets ida db listing.symbols symbol state) (code : symbol.isCode = true)
    (wanted : listing.Wanted symbol.addr) : Passes state symbol := by
  refine ⟨?_, code⟩
  rcases Listing.meets_cases meets with same | early
  · exact same ▸ Listing.base_le_of_wanted wanted
  · exact (Listing.meets_front early).2 ▸ Nat.zero_le _

/-- Of a clear listing a symbol that passes and is not refused is wanted. -/
theorem Listing.Clear.wanted {listing : Listing} {db : σ} (clear : listing.Clear ida db)
    (meets : Meets ida db listing.symbols symbol state) (passes : Passes state symbol)
    (granted : state.Creates ida symbol ∨ state.Takes ida symbol) :
    listing.Wanted symbol.addr := by
  refine ⟨symbol, meets.mem, passes.2, ?_, rfl⟩
  by_contra below
  rcases Listing.meets_cases meets with same | early
  · exact below (same ▸ passes.1)
  · have refused := clear.early symbol state early passes.2 (Nat.lt_of_not_le below)
    exact granted.elim refused.1 refused.2

/-- A listing whose addresses were handled was clear. -/
theorem Logged.clear {listing : Listing} {db : σ} {final : State σ}
    (logged : Logged ida db listing.symbols final) (handled : final.Handled listing.Wanted) :
    listing.Clear ida db := by
  constructor
  · intro symbol state meets code below
    obtain ⟨meets, zero⟩ := Listing.meets_front meets
    have passes : Passes state symbol := ⟨zero ▸ Nat.zero_le _, code⟩
    have unwanted : ¬ listing.Wanted symbol.addr := fun wanted =>
      Nat.not_le_of_lt below (Listing.base_le_of_wanted wanted)
    constructor
    · intro creates
      have made := (logged.made _).mpr ⟨symbol, state, meets, passes, creates, rfl⟩
      exact unwanted (handled.created _ made)
    · intro takes
      have named := (logged.names _).mpr ⟨symbol, state, meets, passes, takes, rfl⟩
      exact unwanted ((handled.names _).mp named)
  · intro addr wanted
    rcases handled.functions addr wanted with created | found
    · obtain ⟨symbol, state, meets, passes, creates, same⟩ := (logged.made addr).mp created
      exact ⟨symbol, state, meets, passes.2, same, .inl creates⟩
    · obtain ⟨symbol, state, meets, passes, finds, same⟩ := (logged.present addr).mp found
      exact ⟨symbol, state, meets, passes.2, same, .inr finds⟩
  · intro addr wanted
    obtain ⟨symbol, state, meets, passes, takes, same⟩ :=
      (logged.names addr).mp ((handled.names addr).mpr wanted)
    exact ⟨symbol, state, meets, passes.2, same, takes⟩

/-- The addresses of a clear listing are handled. -/
theorem Listing.Clear.handled {listing : Listing} {db : σ} {final : State σ}
    (clear : listing.Clear ida db) (logged : Logged ida db listing.symbols final) :
    final.Handled listing.Wanted := by
  constructor
  · intro addr member
    obtain ⟨symbol, state, meets, passes, creates, rfl⟩ := (logged.made _).mp member
    exact clear.wanted meets passes (.inl creates)
  · intro addr wanted
    obtain ⟨symbol, state, meets, code, rfl, served⟩ := clear.functions addr wanted
    have passes := Listing.passes_of_wanted meets code wanted
    rcases served with creates | finds
    · exact .inl ((logged.made _).mpr ⟨symbol, state, meets, passes, creates, rfl⟩)
    · exact .inr ((logged.present _).mpr ⟨symbol, state, meets, passes, finds, rfl⟩)
  · intro addr
    constructor
    · intro member
      obtain ⟨symbol, state, meets, passes, takes, rfl⟩ := (logged.names _).mp member
      exact clear.wanted meets passes (.inr takes)
    · intro wanted
      obtain ⟨symbol, state, meets, code, rfl, takes⟩ := clear.names addr wanted
      have passes := Listing.passes_of_wanted meets code wanted
      exact (logged.names _).mpr ⟨symbol, state, meets, passes, takes, rfl⟩

theorem imports_self_iff (ida : Ida σ) (db : σ) (listing : Listing) :
    Imports ida db listing.lines listing.Wanted ↔ listing.Clear ida db := by
  obtain ⟨final, done, logged⟩ := run_logs ida db listing.symbols
  constructor
  · intro imports
    obtain ⟨other, ended, handled⟩ := imports
    cases done.symm.trans ended
    exact logged.clear handled
  · intro clear
    exact ⟨final, done, clear.handled logged⟩

theorem imports_congr {db : σ} {lines : List (List UInt8)} {Wanted Others : Nat → Prop}
    (same : ∀ addr, Wanted addr ↔ Others addr) :
    Imports ida db lines Wanted ↔ Imports ida db lines Others := by
  rw [show Wanted = Others from funext fun addr => propext (same addr)]

/-- The listing with one of its lines put first. -/
theorem Listing.first_perm (listing : Listing) (member : symbol ∈ listing.symbols) :
    ∃ other : Listing, other.symbols.Perm listing.symbols ∧ other.symbols.head? = some symbol := by
  obtain ⟨front, back, split⟩ := List.append_of_mem member
  have perm : (symbol :: (front ++ back)).Perm listing.symbols := by
    rw [split]
    exact List.perm_middle.symm
  have one : ((symbol :: (front ++ back)).filter Symbol.isStext).length = 1 := by
    rw [(perm.filter Symbol.isStext).length_eq]
    exact listing.one
  exact ⟨⟨symbol :: (front ++ back), one⟩, perm, rfl⟩

/-- A database that refuses nothing: it has a function at an address or makes one there, and
takes every name. -/
structure Ida.Willing (ida : Ida σ) : Prop where
  functions : ∀ db addr, ida.getFunctionAttr db addr = -1 ∧ (ida.makeFunction db addr).1 ≠ 0 ∨
    ida.getFunctionAttr db addr = addr
  names : ∀ db addr name, (ida.makeNameEx db addr name).1 ≠ 0

/-- If nothing is refused, a listing is clear exactly when no text symbol below `stext` stands
in front of its line. -/
theorem Ida.Willing.clear_iff (willing : ida.Willing) (db : σ) (listing : Listing) :
    listing.Clear ida db ↔
      ∀ symbol ∈ listing.front, symbol.isCode = true → listing.base ≤ symbol.addr := by
  constructor
  · intro clear symbol member code
    by_contra below
    obtain ⟨state, meets⟩ := exists_meets ida db member
    exact (clear.early symbol state meets code (Nat.lt_of_not_le below)).2 (willing.names _ _ _)
  · intro higher
    have met (addr : Nat) (wanted : listing.Wanted addr) : ∃ symbol state,
        Meets ida db listing.symbols symbol state ∧ symbol.isCode = true ∧ symbol.addr = addr := by
      obtain ⟨symbol, member, code, -, same⟩ := wanted
      obtain ⟨state, meets⟩ := exists_meets ida db member
      exact ⟨symbol, state, meets, code, same⟩
    constructor
    · intro symbol state meets code below
      exact absurd (higher symbol meets.mem code) (Nat.not_le_of_lt below)
    · intro addr wanted
      obtain ⟨symbol, state, meets, code, same⟩ := met addr wanted
      exact ⟨symbol, state, meets, code, same, willing.functions _ _⟩
    · intro addr wanted
      obtain ⟨symbol, state, meets, code, same⟩ := met addr wanted
      exact ⟨symbol, state, meets, code, same, willing.names _ _ _⟩

/-- If nothing is refused, all orders of the lines are clear exactly when no text symbol lies
below `stext`. -/
theorem Ida.Willing.clear_perm_iff (willing : ida.Willing) (db : σ) (listing : Listing) :
    (∀ other : Listing, other.symbols.Perm listing.symbols → other.Clear ida db) ↔
      ∀ symbol ∈ listing.symbols, symbol.isCode = true → listing.base ≤ symbol.addr := by
  constructor
  · intro always symbol member code
    by_contra below
    obtain ⟨other, perm, head⟩ := listing.first_perm member
    have plain : symbol.isStext = false := by
      by_contra found
      exact below (Nat.le_of_eq (listing.base_of_stext member (by simpa using found)))
    have early : symbol ∈ other.front := by
      obtain ⟨rest, first⟩ := List.head?_eq_some_iff.mp head
      simp [Listing.front, first, plain]
    have above := (willing.clear_iff db other).mp (always other perm) symbol early code
    exact below (Listing.base_perm perm ▸ above)
  · intro higher other perm
    apply (willing.clear_iff db other).mpr
    intro symbol member code
    rw [Listing.base_perm perm]
    exact higher symbol (perm.mem_iff.mp (other.mem_of_front member)) code

/-- An IDA that answers with an unsigned `BADADDR` never answers -1, and gets no function. -/
theorem made_eq_nil (unsigned : ∀ db addr, ida.getFunctionAttr db addr ≠ -1) (db : σ)
    (listing : Listing) : ∃ final, run ida db listing.lines = some final ∧ final.made = [] := by
  obtain ⟨final, done, logged⟩ := run_logs ida db listing.symbols
  refine ⟨final, done, List.eq_nil_iff_forall_not_mem.mpr fun addr member => ?_⟩
  obtain ⟨symbol, state, -, -, creates, -⟩ := (logged.made addr).mp member
  exact unsigned _ _ creates.1

/-- A run makes functions and names at the right addresses exactly when the listing is clear,
and for every order of the lines exactly when every order is. If nothing is refused, that
means that no text symbol lies below `stext`; where IDA never answers -1 no function is made
at all. -/
theorem imports_iff (ida : Ida σ) (db : σ) (listing : Listing) :
    (Imports ida db listing.lines listing.Wanted ↔ listing.Clear ida db) ∧
      ((∀ other : Listing, other.symbols.Perm listing.symbols →
          Imports ida db other.lines listing.Wanted) ↔
        ∀ other : Listing, other.symbols.Perm listing.symbols → other.Clear ida db) ∧
      (ida.Willing →
        ((∀ other : Listing, other.symbols.Perm listing.symbols → other.Clear ida db) ↔
          ∀ symbol ∈ listing.symbols, symbol.isCode = true → listing.base ≤ symbol.addr)) ∧
      ((∀ db addr, ida.getFunctionAttr db addr ≠ -1) →
        ∃ final, run ida db listing.lines = some final ∧ final.made = []) := by
  refine ⟨imports_self_iff ida db listing, forall₂_congr fun other perm => ?_,
    fun willing => willing.clear_perm_iff db listing, fun unsigned => made_eq_nil unsigned db listing⟩
  rw [← imports_self_iff ida db other]
  exact imports_congr fun addr => (Listing.wanted_perm perm addr).symm

/-- The symbol `a` at 1000. -/
def lower : Symbol where
  digits := [0x31, 0x30, 0x30, 0x30]
  type := 0x54
  name := [0x61]
  ending := [0x0A]
  nonempty := by decide
  hex := by decide +kernel
  visible := by decide
  named := by decide
  plain := by decide +kernel
  blank := by decide +kernel

/-- The symbol `stext` at 2000. -/
def kernelStart : Symbol where
  digits := [0x32, 0x30, 0x30, 0x30]
  type := 0x54
  name := stext
  ending := [0x0A]
  nonempty := by decide
  hex := by decide +kernel
  visible := by decide
  named := by decide
  plain := by decide +kernel
  blank := by decide +kernel

/-- The symbol `b`, data, at 800. -/
def table : Symbol where
  digits := [0x38, 0x30, 0x30]
  type := 0x64
  name := [0x62]
  ending := [0x0A]
  nonempty := by decide
  hex := by decide +kernel
  visible := by decide
  named := by decide
  plain := by decide +kernel
  blank := by decide +kernel

def lowerFirst : Listing where
  symbols := [lower, kernelStart]
  one := by decide

def lowerLast : Listing where
  symbols := [kernelStart, lower]
  one := by decide

/-- A database without functions that makes all functions and names, and answers `none` where
there is no function. -/
def emptyIda (none : Int) : Ida Nat where
  get_imagebase base := base
  set_imagebase _ base := base
  getFunctionAttr _ _ := none
  makeFunction base _ := (1, base)
  makeNameEx base _ _ := (1, base)

theorem emptyIda_willing : (emptyIda (-1)).Willing :=
  ⟨fun _ _ => .inl ⟨rfl, Nat.one_ne_zero⟩, fun _ _ _ => Nat.one_ne_zero⟩

def dataFirst : Listing where
  symbols := [table, kernelStart]
  one := by decide

def dataLast : Listing where
  symbols := [kernelStart, table]
  one := by decide

/-- Data below `stext` is left out in both orders. -/
theorem imports_dataFirst :
    Imports (emptyIda (-1)) 0 dataFirst.lines dataFirst.Wanted ∧
      Imports (emptyIda (-1)) 0 dataLast.lines dataFirst.Wanted ∧
      ∃ final, run (emptyIda 4294967295) 0 dataFirst.lines = some final ∧ final.made = [] := by
  obtain ⟨-, orders, clear, -⟩ := imports_iff (emptyIda (-1)) 0 dataFirst
  have all := orders.mpr ((clear emptyIda_willing).mpr (by decide))
  refine ⟨all dataFirst (.refl _), all dataLast (.swap table kernelStart []), ?_⟩
  exact (imports_iff (emptyIda 4294967295) 0 dataFirst).2.2.2 fun _ _ =>
    show (4294967295 : Int) ≠ -1 by decide

/-- The symbol below `stext` is imported where it comes first only; with the answer of
`BADADDR` no function is made in either order. -/
theorem lowerFirst_imports : lowerLast.symbols.Perm lowerFirst.symbols ∧
    Imports (emptyIda (-1)) 0 lowerLast.lines lowerFirst.Wanted ∧
    ¬ Imports (emptyIda (-1)) 0 lowerFirst.lines lowerFirst.Wanted ∧
    ¬ Imports (emptyIda 4294967295) 0 lowerLast.lines lowerFirst.Wanted := by
  have perm : lowerLast.symbols.Perm lowerFirst.symbols := List.Perm.swap lower kernelStart []
  have start : lowerFirst.Wanted 0x2000 :=
    ⟨kernelStart, .tail _ (.head _), by decide, by decide, by decide⟩
  refine ⟨perm, ?_, ?_, ?_⟩
  · rw [← imports_congr (Listing.wanted_perm perm), imports_self_iff, emptyIda_willing.clear_iff]
    intro symbol member
    cases member
  · rw [imports_self_iff, emptyIda_willing.clear_iff]
    intro higher
    exact absurd (higher lower (.head _) (by decide)) (by decide)
  · intro imports
    obtain ⟨final, done, handled⟩ := imports
    have none : (run (emptyIda 4294967295) 0 lowerLast.lines).map
        (fun final => (final.made, final.present)) = some ([], []) := by
      decide +kernel
    rw [done, Option.map_some, Option.some.injEq, Prod.mk.injEq] at none
    have function := handled.functions _ start
    rw [none.1, none.2] at function
    simp at function

end IDAPlugins.ImportSym
