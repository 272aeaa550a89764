import IDAPlugins.Loop

namespace IDAPlugins.Image

/-! # Numbers in an image

An image is a row of bytes at an address of a 32-bit memory; places in it are counted
from there, modulo the size of the memory. A number of some bytes is read from the
lowest byte on, and a byte outside the image cannot be read. A table is read item by
item, with a fixed distance from one item to the next.
-/

def spaceSize : Nat := 4294967296

def byteIn (image : List UInt8) (offset : Nat) : Option UInt8 := image[offset % spaceSize]?

def readLe (image : List UInt8) : Nat → Nat → Option Nat
  | _, 0 => some 0
  | offset, width + 1 => do
    let byte ← byteIn image offset
    let rest ← readLe image (offset + 1) width
    some (byte.toNat + 256 * rest)

/-- All bytes of a range lie in the image. -/
def Inside (image : List UInt8) (offset width : Nat) : Prop :=
  ∀ k < width, (offset + k) % spaceSize < image.length

theorem readLe_isSome_iff (image : List UInt8) (offset width : Nat) :
    (readLe image offset width).isSome ↔ Inside image offset width := by
  induction width generalizing offset with
  | zero => simp [readLe, Inside]
  | succ width ih =>
    have split : Inside image offset (width + 1) ↔
        offset % spaceSize < image.length ∧ Inside image (offset + 1) width := by
      simp only [Inside, Nat.forall_lt_succ_left, Nat.add_zero, Nat.add_right_comm, Nat.add_assoc]
    rw [split, ← ih, readLe, byteIn]
    by_cases inside : offset % spaceSize < image.length
    · cases rest : readLe image (offset + 1) width with
      | none => simp
      | some value => simp [inside]
    · simp [inside]

/-- Two images agree on some bytes from a place on, also on where these end. -/
def SameRange (first second : List UInt8) (start size : Nat) : Prop :=
  ∀ k < size, byteIn first (start + k) = byteIn second (start + k)

instance (first second : List UInt8) (start size : Nat) :
    Decidable (SameRange first second start size) :=
  inferInstanceAs (Decidable (∀ k < size, _))

variable {first second : List UInt8} {start size offset width : Nat}

theorem SameRange.part (same : SameRange first second start size) {skip : Nat}
    (inside : skip + width ≤ size) : SameRange first second (start + skip) width := by
  intro k bound
  rw [Nat.add_assoc]
  exact same (skip + k) (by omega)

theorem SameRange.readLe (same : SameRange first second offset width) :
    readLe first offset width = readLe second offset width := by
  induction width generalizing offset with
  | zero => rfl
  | succ width ih =>
    have here := same 0 (Nat.succ_pos width)
    have there : SameRange first second (offset + 1) width := same.part (by omega)
    simp only [Nat.add_zero] at here
    simp only [Image.readLe, here, ih there]

theorem SameRange.append (front : List UInt8) (inside : start + size ≤ front.length)
    (small : front.length ≤ spaceSize) : SameRange (front ++ first) (front ++ second) start size := by
  intro k bound
  have place : (start + k) % spaceSize < front.length := by
    rw [Nat.mod_eq_of_lt (by omega)]
    omega
  rw [byteIn, byteIn, List.getElem?_append_left place, List.getElem?_append_left place]

theorem SameRange.number (same : SameRange first second start size) (skip : Nat)
    (inside : skip + width ≤ size) :
    Image.readLe first (start + skip) width = Image.readLe second (start + skip) width :=
  (same.part inside).readLe

section Tables

variable {α σ : Type}

/-- `count` items from `place` on. -/
def readEach (item : Nat → Option α) (stride : Nat) : Nat → Nat → Option (List α)
  | 0, _ => some []
  | count + 1, place => do
    let first ← item place
    let rest ← readEach item stride count (place + stride)
    some (first :: rest)

theorem readEach_add (item : Nat → Option α) (stride few more place : Nat) :
    readEach item stride (few + more) place = (readEach item stride few place).bind fun front =>
      (readEach item stride more (place + few * stride)).map (front ++ ·) := by
  induction few generalizing place with
  | zero => simp [readEach]
  | succ few ih =>
    have further : place + stride + few * stride = place + (few + 1) * stride := by
      rw [Nat.add_mul, Nat.one_mul]
      omega
    rw [Nat.succ_add, readEach, readEach, ih, further]
    cases item place with
    | none => rfl
    | some first =>
      cases readEach item stride few (place + stride) with
      | none => rfl
      | some front =>
        cases readEach item stride more (place + (few + 1) * stride) with
        | none => rfl
        | some rest => rfl

theorem readEach_succ {item : Nat → Option α} {stride count place : Nat} {items : List α}
    (read : readEach item stride (count + 1) place = some items) :
    ∃ first rest, item place = some first ∧
      readEach item stride count (place + stride) = some rest ∧ items = first :: rest := by
  simp only [readEach, Option.bind_eq_bind, Option.bind_eq_some_iff, Option.some.injEq] at read
  obtain ⟨first, here, rest, there, same⟩ := read
  exact ⟨first, rest, here, there, same.symm⟩

theorem readEach_length {item : Nat → Option α} {stride count place : Nat} {items : List α}
    (read : readEach item stride count place = some items) : items.length = count := by
  induction count generalizing place items with
  | zero =>
    cases read
    rfl
  | succ count ih =>
    obtain ⟨first, rest, here, there, rfl⟩ := readEach_succ read
    rw [List.length_cons, ih there]

theorem readEach_congr {item other : Nat → Option α} {stride count place : Nat}
    (same : ∀ k < count, item (place + k * stride) = other (place + k * stride)) :
    readEach item stride count place = readEach other stride count place := by
  induction count generalizing place with
  | zero => rfl
  | succ count ih =>
    have here : item place = other place := by simpa using same 0 (Nat.succ_pos count)
    have there : readEach item stride count (place + stride) =
        readEach other stride count (place + stride) := by
      apply ih
      intro k bound
      have next := same (k + 1) (Nat.succ_lt_succ bound)
      rw [Nat.succ_mul, Nat.add_comm (k * stride), ← Nat.add_assoc] at next
      exact next
    rw [readEach, readEach, here, there]

theorem readEach_isSome_iff (item : Nat → Option α) (stride count place : Nat) :
    (readEach item stride count place).isSome ↔
      ∀ k < count, (item (place + k * stride)).isSome := by
  induction count generalizing place with
  | zero => simp [readEach]
  | succ count ih =>
    have further : ∀ k, place + (k + 1) * stride = place + stride + k * stride := by
      intro k
      rw [Nat.succ_mul]
      omega
    simp only [Nat.forall_lt_succ_left, Nat.zero_mul, Nat.add_zero, further]
    rw [← ih, readEach]
    cases item place with
    | none => simp
    | some first =>
      cases readEach item stride count (place + stride) with
      | none => simp
      | some rest => simp

/-- A table is the same in two images that agree on its bytes. -/
theorem SameRange.readEach {item other : Nat → Option α} {stride count : Nat}
    (same : SameRange first second start size) (inside : count * stride ≤ size)
    (items : ∀ place, SameRange first second place stride → item place = other place) :
    Image.readEach item stride count start = Image.readEach other stride count start := by
  apply readEach_congr
  intro k bound
  apply items
  have within : (k + 1) * stride ≤ count * stride := Nat.mul_le_mul_right stride bound
  rw [Nat.succ_mul] at within
  exact same.part (by omega)

theorem readEach_forall {item : Nat → Option α} {stride count place : Nat} {items : List α}
    {P : α → Prop} (each : ∀ place found, item place = some found → P found)
    (read : readEach item stride count place = some items) : ∀ found ∈ items, P found := by
  induction count generalizing place items with
  | zero =>
    cases read
    simp
  | succ count ih =>
    obtain ⟨first, rest, here, there, rfl⟩ := readEach_succ read
    exact List.forall_mem_cons.mpr ⟨each place first here, ih there⟩

/-- A loop whose passes read one item each, and go on to the next place, takes the items
one after another into its state. -/
theorem times_readEach {body : σ → Option σ} (item : Nat → Option α) {stride : Nat}
    (place : σ → Nat) {take : σ → α → σ}
    (reads : ∀ state, body state = (item (place state)).map (take state))
    (goes : ∀ state found, place (take state found) = place state + stride) (count : Nat) (state : σ) :
    Loop.times body count state =
      (readEach item stride count (place state)).map (List.foldl take state) := by
  induction count generalizing state with
  | zero => rfl
  | succ count ih =>
    rw [Loop.times, readEach, reads]
    cases item (place state) with
    | none => rfl
    | some found =>
      simp only [Option.map_some, Option.bind_some, Option.bind_eq_bind]
      rw [ih, goes]
      cases readEach item stride count (place state + stride) with
      | none => rfl
      | some rest => rfl

end Tables

end IDAPlugins.Image
