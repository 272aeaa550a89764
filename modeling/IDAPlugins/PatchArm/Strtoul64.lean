import IDAPlugins.HexText
import IDAPlugins.Machine
import Mathlib.Data.List.TakeWhile

namespace IDAPlugins.PatchArm

open Machine

/-! # Reading an address

`strtoul64` reads a number of 64 bits and stops at the greatest one. The text is a string
without its zero; its head is the character in `c`.
-/

namespace Strtoul64

def ULLONG_MAX : Nat := 18446744073709551615

def isspace (c : UInt8) : Bool := c == 0x20 || (0x09 ≤ c && c ≤ 0x0D)

def isdigit (c : UInt8) : Bool := 0x30 ≤ c && c ≤ 0x39

def isupper (c : UInt8) : Bool := 0x41 ≤ c && c ≤ 0x5A

def isalpha (c : UInt8) : Bool := isupper c || (0x61 ≤ c && c ≤ 0x7A)

/-- The value of a character as a digit, before it is compared with the base. -/
def digit (c : UInt8) : Option Nat :=
  if isdigit c then some (c.toNat - 0x30)
  else if isalpha c then some (c.toNat - if isupper c then 0x41 - 10 else 0x61 - 10)
  else none

/-- The loop over the digits, with `acc`, `any` and the text from `c` on. -/
def accumulate (base : Nat) : Nat → Int → List UInt8 → Nat × Int × List UInt8
  | acc, any, [] => (acc, any, [])
  | acc, any, c :: s =>
    match digit c with
    | none => (acc, any, c :: s)
    | some value =>
      if base ≤ value then (acc, any, c :: s)
      else if any < 0 then accumulate base acc any s
      else if ULLONG_MAX / base < acc ∨ acc = ULLONG_MAX / base ∧ ULLONG_MAX % base < value then
        accumulate base ULLONG_MAX (-1) s
      else accumulate base (acc * base + value) 1 s

/-- The base and the text behind an `0x`. -/
def skipMark (base : Nat) (s : List UInt8) : Nat × List UInt8 :=
  match s with
  | 0x30 :: x :: rest =>
    if (base = 0 ∨ base = 16) ∧ (x = 0x78 ∨ x = 0x58) then (16, rest) else (base, s)
  | _ => (base, s)

def skipSign (s : List UInt8) : List UInt8 :=
  if s.head? = some 0x2D ∨ s.head? = some 0x2B then s.tail else s

/-- The number and the text at `endptr`. -/
def strtoul64 (nptr : List UInt8) (base : Nat) : Nat × List UInt8 :=
  let s := nptr.dropWhile isspace
  let neg := s.head? = some 0x2D
  let (base, s) := skipMark base (skipSign s)
  let base := if base = 0 then if s.head? = some 0x30 then 8 else 10 else base
  let (acc, any, rest) := accumulate base 0 0 s
  let acc := if neg ∧ 0 < any then (ULLONG_MAX + 1 - acc) % (ULLONG_MAX + 1) else acc
  (acc, if any ≠ 0 then rest else nptr)

variable {base acc : Nat} {any : Int} {digits rest blanks : List UInt8}

def IsDigit (base : Nat) (c : UInt8) : Prop :=
  ∃ value < base, digit c = some value

def number (base : Nat) (digits : List UInt8) (acc : Nat) : Nat :=
  digits.foldl (fun acc c => acc * base + (digit c).getD 0) acc

theorem le_number (positive : 0 < base) (digits : List UInt8) (acc : Nat) :
    acc ≤ number base digits acc := by
  induction digits generalizing acc with
  | nil => exact Nat.le_refl acc
  | cons c digits ih =>
    calc
      acc ≤ acc * base := Nat.le_mul_of_pos_right acc positive
      _ ≤ acc * base + (digit c).getD 0 := Nat.le_add_right _ _
      _ ≤ number base (c :: digits) acc := ih _

/-- The comparison with quotient and remainder finds just the digits that would overflow. -/
theorem overflows_iff {value : Nat} (small : value < base) :
    ULLONG_MAX / base < acc ∨ acc = ULLONG_MAX / base ∧ ULLONG_MAX % base < value ↔
      ULLONG_MAX < acc * base + value := by
  have positive : 0 < base := Nat.zero_lt_of_lt small
  have whole := Nat.div_add_mod ULLONG_MAX base
  have rem := Nat.mod_lt ULLONG_MAX positive
  rw [Nat.mul_comm] at whole
  rcases Nat.lt_trichotomy acc (ULLONG_MAX / base) with below | same | above
  · have next : (acc + 1) * base ≤ ULLONG_MAX / base * base := Nat.mul_le_mul_right base below
    rw [Nat.succ_mul] at next
    omega
  · rw [same]
    omega
  · have next : (ULLONG_MAX / base + 1) * base ≤ acc * base := Nat.mul_le_mul_right base above
    rw [Nat.succ_mul] at next
    omega

theorem accumulate_stop (stops : ∀ c, rest.head? = some c → ¬ IsDigit base c) :
    accumulate base acc any rest = (acc, any, rest) := by
  cases rest with
  | nil => rfl
  | cons c s =>
    have other := stops c rfl
    rw [accumulate]
    cases known : digit c with
    | none => rfl
    | some value =>
      have large : base ≤ value := Nat.le_of_not_lt fun small => other ⟨value, small, known⟩
      simp only [if_pos large]

theorem accumulate_saturated (all : ∀ c ∈ digits, IsDigit base c)
    (stops : ∀ c, rest.head? = some c → ¬ IsDigit base c) :
    accumulate base acc (-1) (digits ++ rest) = (acc, -1, rest) := by
  induction digits with
  | nil => exact accumulate_stop stops
  | cons c digits ih =>
    obtain ⟨⟨value, small, known⟩, all⟩ := List.forall_mem_cons.mp all
    rw [List.cons_append, accumulate, known]
    simp only [if_neg (Nat.not_le_of_lt small), Int.reduceNeg, Int.reduceLT, if_true]
    exact ih all

/-- The loop reads the number, or saturates. -/
theorem accumulate_digits (all : ∀ c ∈ digits, IsDigit base c)
    (stops : ∀ c, rest.head? = some c → ¬ IsDigit base c) (positive : 0 ≤ any)
    (bound : acc ≤ ULLONG_MAX) :
    accumulate base acc any (digits ++ rest) =
      if number base digits acc ≤ ULLONG_MAX then
        (number base digits acc, if digits = [] then any else 1, rest)
      else (ULLONG_MAX, -1, rest) := by
  induction digits generalizing acc any with
  | nil => rw [List.nil_append, accumulate_stop stops, number, List.foldl_nil, if_pos bound, if_pos rfl]
  | cons c digits ih =>
    obtain ⟨⟨value, small, known⟩, all⟩ := List.forall_mem_cons.mp all
    have step : number base (c :: digits) acc = number base digits (acc * base + value) := by
      rw [number, number, List.foldl_cons, known, Option.getD_some]
    rw [List.cons_append, accumulate, known, step]
    simp only [if_neg (Nat.not_le_of_lt small), if_neg (Int.not_lt.mpr positive), overflows_iff small,
      reduceCtorEq, if_false]
    by_cases overflow : ULLONG_MAX < acc * base + value
    · have more := le_number (Nat.zero_lt_of_lt small) digits (acc * base + value)
      rw [if_pos overflow, accumulate_saturated all stops, if_neg (by omega)]
    · rw [if_neg overflow, ih all (by decide) (Nat.le_of_not_lt overflow), ite_self]

theorem dropWhile_blanks (spaces : ∀ c ∈ blanks, isspace c = true)
    (full : ∀ c, rest.head? = some c → isspace c = false) :
    (blanks ++ rest).dropWhile isspace = rest := by
  rw [List.dropWhile_append_of_pos spaces]
  cases rest with
  | nil => rfl
  | cons c rest => exact List.dropWhile_cons_of_neg (by rw [full c rfl]; exact Bool.false_ne_true)

/-- The base that counts. Zero asks for 16 behind a mark, for 8 in front of a zero, and else
for 10. -/
def baseOf (base : Nat) (mark text : List UInt8) : Nat :=
  if base ≠ 0 then base
  else if mark ≠ [] then 16
  else if text.head? = some 0x30 then 8
  else 10

/-- A numeral: an optional sign, an optional `0x` where the base allows for it, and digits of
the base that counts up to a character that is none. -/
structure Numeral (base : Nat) (sign mark digits rest : List UInt8) : Prop where
  signed : sign = [] ∨ sign = [0x2D] ∨ sign = [0x2B]
  marked : mark = [] ∨ (base = 0 ∨ base = 16) ∧ (mark = [0x30, 0x78] ∨ mark = [0x30, 0x58])
  nonempty : digits ≠ []
  all : ∀ c ∈ digits, IsDigit (baseOf base mark digits) c
  stops : ∀ c, rest.head? = some c → ¬ IsDigit (baseOf base mark digits) c
  /-- The text is not `0` in front of an `x`. -/
  plain : mark = [] → base = 0 ∨ base = 16 → digits = [0x30] →
    rest.head? ≠ some 0x78 ∧ rest.head? ≠ some 0x58

/-- What a numeral is read as: the number, with a minus its negative modulo 2⁶⁴, and 2⁶⁴ − 1
when it is greater than that. -/
def valueOf (base : Nat) (sign digits : List UInt8) : Nat :=
  if number base digits 0 ≤ ULLONG_MAX then
    if sign = [0x2D] then (ULLONG_MAX + 1 - number base digits 0) % (ULLONG_MAX + 1)
    else number base digits 0
  else ULLONG_MAX

variable {sign mark nptr : List UInt8}

/-- A digit is neither a space nor a sign, and an `x` is no digit in hexadecimal. -/
theorem digit_plain : ∀ c, (digit c).isSome = true →
    isspace c = false ∧ c ≠ 0x2D ∧ c ≠ 0x2B := by
  exact forall_byte (by decide +kernel)

theorem x_isDigit : ∀ c, c = 0x78 ∨ c = 0x58 → ∀ value, digit c = some value → 16 ≤ value := by
  rintro c (rfl | rfl) value known <;> cases known <;> decide

theorem IsDigit.isSome {c : UInt8} (isDigit : IsDigit base c) : (digit c).isSome = true := by
  obtain ⟨value, -, known⟩ := isDigit
  rw [known]
  rfl

theorem skipSign_numeral (signed : sign = [] ∨ sign = [0x2D] ∨ sign = [0x2B])
    (plain : ∀ c, rest.head? = some c → c ≠ 0x2D ∧ c ≠ 0x2B) :
    skipSign (sign ++ rest) = rest ∧
      ((sign ++ rest).head? = some 0x2D ↔ sign = [0x2D]) := by
  rcases signed with rfl | rfl | rfl
  · have other (c : UInt8) (sign : c = 0x2D ∨ c = 0x2B) : rest.head? ≠ some c := by
      intro head
      have ⟨minus, plus⟩ := plain c head
      exact sign.elim minus plus
    rw [List.nil_append, skipSign, if_neg (not_or.mpr ⟨other _ (.inl rfl), other _ (.inr rfl)⟩)]
    exact ⟨rfl, iff_of_false (other _ (.inl rfl)) (by decide)⟩
  · exact ⟨rfl, iff_of_true rfl rfl⟩
  · exact ⟨rfl, iff_of_false (by simp) (by decide)⟩

theorem skipMark_plain {s : List UInt8} (plain : ∀ x rest, s = 0x30 :: x :: rest →
    ¬((base = 0 ∨ base = 16) ∧ (x = 0x78 ∨ x = 0x58))) : skipMark base s = (base, s) := by
  unfold skipMark
  split
  · exact if_neg (plain _ _ rfl)
  · rfl

theorem baseOf_le (asked : base = 0 ∨ base = 16) (mark text : List UInt8) :
    baseOf base mark text ≤ 16 := by
  unfold baseOf
  split_ifs <;> omega

theorem baseOf_append (filled : digits ≠ []) (base : Nat) (mark rest : List UInt8) :
    baseOf base mark (digits ++ rest) = baseOf base mark digits := by
  obtain ⟨c, tail, rfl⟩ := List.exists_cons_of_ne_nil filled
  rfl

/-- The base behind the mark, and what becomes of it if it is still zero. -/
theorem baseOf_eq (marked : mark = [] ∨ base = 0 ∨ base = 16) (text : List UInt8) :
    (if (if mark = [] then base else 16) = 0 then if text.head? = some 0x30 then 8 else 10
      else if mark = [] then base else 16) = baseOf base mark text := by
  unfold baseOf
  by_cases bare : mark = []
  · by_cases zero : base = 0 <;> simp [bare, zero]
  · rcases marked.resolve_left bare with rfl | rfl <;> simp [bare]

namespace Numeral

variable (numeral : Numeral base sign mark digits rest)
include numeral

theorem digits_cons : ∃ c tail, digits = c :: tail ∧ IsDigit (baseOf base mark digits) c := by
  obtain ⟨c, tail, split⟩ := List.exists_cons_of_ne_nil numeral.nonempty
  exact ⟨c, tail, split, numeral.all c (split ▸ List.mem_cons_self)⟩

theorem head_plain : ∀ c, (mark ++ (digits ++ rest)).head? = some c →
    isspace c = false ∧ c ≠ 0x2D ∧ c ≠ 0x2B := by
  obtain ⟨first, tail, split, isDigit⟩ := numeral.digits_cons
  intro c head
  rcases numeral.marked with rfl | ⟨-, rfl | rfl⟩
  · rw [split] at head
    exact Option.some.inj head ▸ digit_plain first isDigit.isSome
  · exact Option.some.inj head ▸ digit_plain 0x30 rfl
  · exact Option.some.inj head ▸ digit_plain 0x30 rfl

theorem skipMark_eq : skipMark base (mark ++ (digits ++ rest)) =
    (if mark = [] then base else 16, digits ++ rest) := by
  rcases numeral.marked with bare | ⟨asked, either⟩
  · rw [bare, List.nil_append, if_pos rfl]
    refine skipMark_plain fun x others whole ⟨asked, letter⟩ => ?_
    obtain ⟨first, tail, split, -⟩ := numeral.digits_cons
    rw [split, List.cons_append, List.cons.injEq] at whole
    cases tail with
    | nil =>
      have ⟨lower, upper⟩ := numeral.plain bare asked (by rw [split, whole.1])
      have next : rest.head? = some x := by
        rw [← List.nil_append rest, whole.2]
        rfl
      rcases letter with rfl | rfl
      · exact lower next
      · exact upper next
    | cons second tail =>
      obtain ⟨value, small, known⟩ := numeral.all second (by rw [split]; simp)
      have same : second = x := (List.cons.inj whole.2).1
      have large := x_isDigit x letter value (same ▸ known)
      have few := baseOf_le asked mark digits
      omega
  · rcases asked with rfl | rfl <;> rcases either with rfl | rfl <;> rfl

/-- A numeral is read to its end. -/
theorem strtoul64_eq (spaces : ∀ c ∈ blanks, isspace c = true) :
    strtoul64 (blanks ++ (sign ++ (mark ++ (digits ++ rest)))) base =
      (valueOf (baseOf base mark digits) sign digits, rest) := by
  have heads := numeral.head_plain
  have full : ∀ c, (sign ++ (mark ++ (digits ++ rest))).head? = some c → isspace c = false := by
    intro c head
    rcases numeral.signed with rfl | rfl | rfl
    · exact (heads c head).1
    · exact Option.some.inj head ▸ rfl
    · exact Option.some.inj head ▸ rfl
  obtain ⟨unsigned, neg⟩ := skipSign_numeral numeral.signed fun c head => (heads c head).2
  have used := @baseOf_eq base mark (numeral.marked.imp_right And.left) (digits ++ rest)
  rw [baseOf_append numeral.nonempty] at used
  rw [strtoul64, dropWhile_blanks spaces full]
  simp only [unsigned, neg, numeral.skipMark_eq, used, accumulate_digits numeral.all numeral.stops
    (Int.le_refl 0) (Nat.zero_le _), if_neg numeral.nonempty, valueOf]
  split
  · simp
  · simp

end Numeral

end Strtoul64

end IDAPlugins.PatchArm
