import IDAPlugins.FindCode.AutoBuffer
import IDAPlugins.FindCode.Snapshot
import IDAPlugins.FindCode.Spacing
import Mathlib.Data.List.Forall2

namespace IDAPlugins.FindCode

open Machine

/-! # Building the snapshot

`CreateCodeSnapshoot` walks from instruction to instruction, appends the normalised
text of each to one buffer, and records where the text of a line with any text
starts and which address it belongs to. It asks now and then whether the dialog is
still there.
-/

/-- What the loop reads of the database: addresses from `startaddr` up to `endaddr`,
the text of the line at an address and the next instruction behind one. An address
has 64 bits in the `__EA64__` build and 32 otherwise. `stack` is what the local
`vectorTmp.dwasmaddr` holds where the loop does not set it. -/
structure Listing where
  ea64 : Bool
  startaddr : Nat
  endaddr : Nat
  disasmLine : Nat → List UInt8
  findCode : Nat → Nat
  stack : Nat → UInt32
  range : endaddr < if ea64 then 18446744073709551616 else 4294967296
  advances : ∀ iaddr, startaddr ≤ iaddr → iaddr < endaddr → iaddr < findCode iaddr
  plain : ∀ iaddr, 0 ∉ disasmLine iaddr ∧ 0x0A ∉ disasmLine iaddr

structure StrBufIndex where
  dwbufoffset : UInt32
  dwasmaddr : UInt32
  deriving DecidableEq

structure Snapshooting where
  iaddr : Nat
  asmbuf : AutoBuffer
  vectorIndex : List StrBufIndex
  nSendPlan : Int

/-- How the loop ends: at `endaddr`, because the window is gone, or because the text
does not fit in a buffer any more. -/
inductive Built where
  | built (asmbuf : AutoBuffer) (vectorIndex : List StrBufIndex)
  | closed
  | exhausted

/-- `nSendPlan` as it is compared with an unsigned number of the size of an address. -/
def Listing.unsignedPlan (listing : Listing) (nSendPlan : Int) : Nat :=
  (nSendPlan % if listing.ea64 then 18446744073709551616 else 4294967296).toNat

def Listing.plan (listing : Listing) (dwasmaddr : UInt32) : Nat :=
  (dwasmaddr * 100).toNat / (listing.endaddr - listing.startaddr)

/-- `vectorTmp.dwasmaddr` in the pass for an address. -/
def Listing.dwasmaddr (listing : Listing) (iaddr : Nat) : UInt32 :=
  if listing.disasmLine iaddr ≠ [] then UInt32.ofNat (iaddr - listing.startaddr)
  else listing.stack iaddr

/-- `m_VectorIndex` behind the first part of the body. -/
def Snapshooting.recorded (state : Snapshooting) (listing : Listing) : List StrBufIndex :=
  if listing.disasmLine state.iaddr ≠ [] then
    state.vectorIndex ++ [{ dwbufoffset := UInt32.ofNat state.asmbuf.used.length
                            dwasmaddr := listing.dwasmaddr state.iaddr }]
  else state.vectorIndex

def snapshootPass (listing : Listing) (isWindow : Nat → Bool) (state : Snapshooting) :
    Option (Loop.Pass Snapshooting Built) :=
  if state.iaddr < listing.endaddr then
    let szbuf := listing.disasmLine state.iaddr
    let vectorIndex := state.recorded listing
    let iaddr := listing.findCode state.iaddr
    match (state.asmbuf.put (filterSpacing szbuf)).bind (·.put [0x0A]) with
    | none => some (.leave .exhausted)
    | some asmbuf =>
      let plan := listing.plan (listing.dwasmaddr state.iaddr)
      if listing.unsignedPlan state.nSendPlan < plan then
        if isWindow state.iaddr then
          some (.again { iaddr, asmbuf, vectorIndex, nSendPlan := int32 plan })
        else
          some (.leave .closed)
      else
        some (.again { iaddr, asmbuf, vectorIndex, nSendPlan := state.nSendPlan })
  else
    some (.leave (.built state.asmbuf state.vectorIndex))

def emptyBuffer : AutoBuffer := .init 0x1000 0 (by decide) (by decide)

/-- The building loop. `isWindow` answers the test made behind the line at an address. -/
def buildSnapshoot (listing : Listing) (isWindow : Nat → Bool) : Option Built :=
  match emptyBuffer.put [0x0A] with
  | none => some .exhausted
  | some asmbuf =>
    Loop.run (snapshootPass listing isWindow) (listing.endaddr - listing.startaddr + 1)
      { iaddr := listing.startaddr, asmbuf, vectorIndex := [], nSendPlan := 0 }

def Listing.addressesFrom (listing : Listing) : Nat → Nat → List Nat
  | 0, _ => []
  | fuel + 1, iaddr =>
    if iaddr < listing.endaddr then
      iaddr :: listing.addressesFrom fuel (listing.findCode iaddr)
    else []

/-- The instruction addresses from one on, as `find_code` produces them. -/
def Listing.addressesAt (listing : Listing) (iaddr : Nat) : List Nat :=
  listing.addressesFrom (listing.endaddr - iaddr) iaddr

def Listing.addresses (listing : Listing) : List Nat :=
  listing.addressesAt listing.startaddr

/-- The addresses behind whose lines the loop asks for the window. -/
def Listing.asksFrom (listing : Listing) : Int → List Nat → List Nat
  | _, [] => []
  | nSendPlan, iaddr :: rest =>
    let plan := listing.plan (listing.dwasmaddr iaddr)
    if listing.unsignedPlan nSendPlan < plan then
      iaddr :: listing.asksFrom (int32 plan) rest
    else listing.asksFrom nSendPlan rest

def Listing.asks (listing : Listing) : List Nat :=
  listing.asksFrom 0 listing.addresses

def Listing.normalised (listing : Listing) (iaddr : Nat) : List UInt8 :=
  filterSpacing (listing.disasmLine iaddr)

def Listing.hasText (listing : Listing) (iaddr : Nat) : Bool :=
  !(listing.disasmLine iaddr).isEmpty

def Listing.text (listing : Listing) : List UInt8 :=
  0x0A :: putLines (listing.addresses.map listing.normalised)

/-- The text at an offset of a buffer is a whole line. -/
def LineAt (buf line : List UInt8) (offset : Nat) : Prop :=
  0 < offset ∧ charAt buf (offset - 1) = 0x0A ∧
    (buf.drop offset).takeWhile (· != 0x0A) = line ∧
    offset + line.length < buf.length ∧ charAt buf (offset + line.length) = 0x0A

/-- What a finished snapshot promises to the search. -/
structure Indexed (listing : Listing) (buf : List UInt8) (index : List StrBufIndex) : Prop where
  text : buf = listing.text
  entries : index.map (fun entry => entry.dwasmaddr.toNat) =
    (listing.addresses.filter listing.hasText).map (· - listing.startaddr)
  offsets : (index.map StrBufIndex.dwbufoffset).Pairwise (· < ·)
  addrs : (index.map StrBufIndex.dwasmaddr).Pairwise (· < ·)
  lines : ∀ entry ∈ index,
    LineAt buf (listing.normalised (listing.startaddr + entry.dwasmaddr.toNat)) entry.dwbufoffset.toNat

variable {listing : Listing} {iaddr : Nat}

theorem Listing.addressesFrom_enough {first second : Nat} (lower : listing.startaddr ≤ iaddr)
    (left : listing.endaddr - iaddr ≤ first) (right : listing.endaddr - iaddr ≤ second) :
    listing.addressesFrom first iaddr = listing.addressesFrom second iaddr := by
  induction first generalizing iaddr second with
  | zero =>
    have done : ¬ iaddr < listing.endaddr := by omega
    cases second with
    | zero => rfl
    | succ second => rw [addressesFrom, addressesFrom, if_neg done]
  | succ first ih =>
    by_cases more : iaddr < listing.endaddr
    · have next := listing.advances iaddr lower more
      obtain ⟨second, rfl⟩ := Nat.exists_eq_succ_of_ne_zero (show second ≠ 0 by omega)
      rw [addressesFrom, addressesFrom, if_pos more, if_pos more,
        ih (by omega) (by omega) (show _ ≤ second by omega)]
    · cases second with
      | zero => rw [addressesFrom, addressesFrom, if_neg more]
      | succ second => rw [addressesFrom, addressesFrom, if_neg more, if_neg more]

theorem Listing.addressesAt_more (lower : listing.startaddr ≤ iaddr) (more : iaddr < listing.endaddr) :
    listing.addressesAt iaddr = iaddr :: listing.addressesAt (listing.findCode iaddr) := by
  have next := listing.advances iaddr lower more
  obtain ⟨fuel, size⟩ := Nat.exists_eq_succ_of_ne_zero (Nat.sub_ne_zero_of_lt more)
  rw [addressesAt, size, addressesFrom, if_pos more, addressesAt]
  exact congrArg _ (addressesFrom_enough (by omega) (by omega) (Nat.le_refl _))

theorem Listing.addressesAt_done (done : ¬ iaddr < listing.endaddr) : listing.addressesAt iaddr = [] := by
  rw [addressesAt, Nat.sub_eq_zero_of_le (Nat.le_of_not_lt done)]
  rfl

theorem Listing.normalised_line (listing : Listing) (iaddr : Nat) : 0x0A ∉ listing.normalised iaddr := by
  intro member
  rcases mem_filterSpacing member with space | inside
  · exact absurd space (by decide)
  · exact (listing.plain iaddr).2 inside

/-- An address and its entry, whatever more text is appended. -/
def Records (listing : Listing) (used : List UInt8) (iaddr : Nat) (entry : StrBufIndex) : Prop :=
  entry.dwasmaddr = UInt32.ofNat (iaddr - listing.startaddr) ∧
    ∃ before after, used = before ++ 0x0A :: (listing.normalised iaddr ++ 0x0A :: after) ∧
      entry.dwbufoffset.toNat = before.length + 1

theorem Records.append {used : List UInt8} {entry : StrBufIndex}
    (records : Records listing used iaddr entry) (more : List UInt8) :
    Records listing (used ++ more) iaddr entry := by
  obtain ⟨address, before, after, rfl, offset⟩ := records
  exact ⟨address, before, after ++ more, by simp, offset⟩

/-- What the loop has done for the addresses before `state.iaddr`. -/
structure Building (listing : Listing) (state : Snapshooting) (visited : List Nat) : Prop where
  path : listing.addresses = visited ++ listing.addressesAt state.iaddr
  lower : listing.startaddr ≤ state.iaddr
  text : state.asmbuf.used = 0x0A :: putLines (visited.map listing.normalised)
  granularity : state.asmbuf.allocGranularity = 0x1000
  entries : List.Forall₂ (Records listing state.asmbuf.used) (visited.filter listing.hasText)
    state.vectorIndex
  offsets : (state.vectorIndex.map StrBufIndex.dwbufoffset).Pairwise (· < ·)
  below : ∀ entry ∈ state.vectorIndex, entry.dwbufoffset.toNat < state.asmbuf.used.length

/-- Both texts appended for a line, or neither fits. -/
theorem AutoBuffer.put_line (buffer : AutoBuffer) (line : List UInt8) :
    (∃ after, (buffer.put line).bind (·.put [0x0A]) = some after ∧
        after.used = buffer.used ++ (line ++ [0x0A]) ∧
        after.allocGranularity = buffer.allocGranularity) ∨
      (buffer.put line).bind (·.put [0x0A]) = none ∧
        2147483648 < (buffer.used ++ (line ++ [0x0A])).length + buffer.allocGranularity := by
  rcases buffer.put_cases line with ⟨first, stored, used, granularity⟩ | ⟨failed, full⟩
  · rw [stored, Option.bind_some, ← List.append_assoc, ← used, ← granularity]
    exact first.put_cases [0x0A]
  · refine .inr ⟨by rw [failed]; rfl, ?_⟩
    rw [← List.append_assoc, List.length_append]
    omega

theorem buildText_append (listing : Listing) (visited : List Nat) (iaddr : Nat) :
    0x0A :: putLines ((visited ++ [iaddr]).map listing.normalised) =
      0x0A :: putLines (visited.map listing.normalised) ++ (listing.normalised iaddr ++ [0x0A]) := by
  rw [List.map_append, putLines_append]
  simp [putLines]

/-- The line just appended is recorded where the buffer ended before. -/
theorem Building.records_last {state : Snapshooting} {visited : List Nat}
    (building : Building listing state visited) :
    ∃ before, state.asmbuf.used = before ++ [0x0A] := by
  rw [building.text]
  rcases List.eq_nil_or_concat visited with rfl | ⟨earlier, last, rfl⟩
  · exact ⟨[], rfl⟩
  · rw [List.concat_eq_append, buildText_append, ← List.append_assoc]
    exact ⟨_, rfl⟩

theorem toNat_size {buffer : AutoBuffer} :
    (UInt32.ofNat buffer.used.length).toNat = buffer.used.length := by
  have small := buffer.used_lt
  exact UInt32.toNat_ofNat_of_lt' (by simp only [UInt32.size]; omega)

theorem Building.step {state : Snapshooting} {visited : List Nat} {asmbuf : AutoBuffer}
    (building : Building listing state visited) (more : state.iaddr < listing.endaddr)
    (used : asmbuf.used =
      state.asmbuf.used ++ (listing.normalised state.iaddr ++ [0x0A]))
    (granularity : asmbuf.allocGranularity = state.asmbuf.allocGranularity) (nSendPlan : Int) :
    Building listing
      { iaddr := listing.findCode state.iaddr, asmbuf, nSendPlan, vectorIndex := state.recorded listing }
      (visited ++ [state.iaddr]) where
  path := by
    rw [building.path, Listing.addressesAt_more building.lower more, List.append_assoc]
    rfl
  lower := Nat.le_trans building.lower
    (Nat.le_of_lt (listing.advances state.iaddr building.lower more))
  text := by rw [used, building.text, buildText_append]
  granularity := granularity.trans building.granularity
  entries := by
    have kept : List.Forall₂ (Records listing asmbuf.used) (visited.filter listing.hasText)
        state.vectorIndex := by
      rw [used]
      exact building.entries.imp fun _ _ records => records.append _
    rw [List.filter_append, Snapshooting.recorded]
    by_cases filled : listing.disasmLine state.iaddr ≠ []
    · have hasText : listing.hasText state.iaddr = true := by simpa [Listing.hasText] using filled
      rw [if_pos filled, List.filter_cons_of_pos hasText, List.filter_nil]
      obtain ⟨before, ends⟩ := building.records_last
      refine List.rel_append kept (.cons ⟨if_pos filled, before, [], ?_, ?_⟩ .nil)
      · rw [used, ends, List.append_assoc]
        rfl
      · rw [toNat_size, ends, List.length_append, List.length_singleton]
    · have hasText : ¬ listing.hasText state.iaddr = true := by simpa [Listing.hasText] using filled
      rw [if_neg filled, List.filter_cons_of_neg hasText, List.filter_nil, List.append_nil]
      exact kept
  offsets := by
    rw [Snapshooting.recorded]
    split
    · rw [List.map_append, List.pairwise_append]
      refine ⟨building.offsets, List.pairwise_singleton _ _, ?_⟩
      intro first member second last
      obtain ⟨entry, inside, rfl⟩ := List.mem_map.mp member
      rw [List.map_singleton, List.mem_singleton] at last
      subst last
      rw [UInt32.lt_iff_toNat_lt, toNat_size]
      exact building.below entry inside
    · exact building.offsets
  below := by
    intro entry member
    rw [used, List.length_append, List.length_append, List.length_singleton]
    simp only [Snapshooting.recorded] at member
    split at member
    · rcases List.mem_append.mp member with earlier | last
      · have := building.below entry earlier
        omega
      · rw [List.mem_singleton.mp last, toNat_size]
        omega
    · have := building.below entry member
      omega

/-- How the loop may end, with what each ending says. -/
def Ends (listing : Listing) (isWindow : Nat → Bool) : Built → Prop
  | .built asmbuf vectorIndex =>
    (∀ iaddr ∈ listing.asks, isWindow iaddr = true) ∧
      ∃ iaddr nSendPlan, Building listing { iaddr, asmbuf, vectorIndex, nSendPlan } listing.addresses
  | .closed => ¬ ∀ iaddr ∈ listing.asks, isWindow iaddr = true
  | .exhausted => 2147483648 < listing.text.length + 0x1000

theorem Building.text_le {state : Snapshooting} {visited : List Nat}
    (building : Building listing state visited) (more : state.iaddr < listing.endaddr) :
    (state.asmbuf.used ++ (listing.normalised state.iaddr ++ [0x0A])).length ≤ listing.text.length := by
  have path := building.path
  rw [Listing.addressesAt_more building.lower more, ← List.singleton_append, ← List.append_assoc] at path
  have lines : listing.addresses.map listing.normalised = (visited ++ [state.iaddr]).map listing.normalised ++
      (listing.addressesAt (listing.findCode state.iaddr)).map listing.normalised := by
    rw [path, List.map_append]
  rw [building.text, ← buildText_append, Listing.text, lines, putLines_append, List.length_cons,
    List.length_cons, List.length_append]
  omega

/-- The window has been there at every test so far. -/
def There (listing : Listing) (isWindow : Nat → Bool) (state : Snapshooting) : Prop :=
  (∀ iaddr ∈ listing.asks, isWindow iaddr = true) ↔
    ∀ iaddr ∈ listing.asksFrom state.nSendPlan (listing.addressesAt state.iaddr), isWindow iaddr = true

theorem snapshootPass_sound (listing : Listing) (isWindow : Nat → Bool) :
    Loop.Sound (snapshootPass listing isWindow)
      (fun state => There listing isWindow state ∧ ∃ visited, Building listing state visited)
      (fun state => listing.endaddr - state.iaddr) (Ends listing isWindow) := by
  rintro state ⟨there, visited, building⟩
  by_cases more : state.iaddr < listing.endaddr
  · have next := listing.advances state.iaddr building.lower more
    rw [There, Listing.addressesAt_more building.lower more, Listing.asksFrom] at there
    rw [snapshootPass, if_pos more]
    rcases state.asmbuf.put_line (listing.normalised state.iaddr) with
      ⟨asmbuf, stored, used, granularity⟩ | ⟨failed, full⟩
    · simp only [← Listing.normalised.eq_def, stored]
      have step := building.step more used granularity
      by_cases asked : listing.unsignedPlan state.nSendPlan <
          listing.plan (listing.dwasmaddr state.iaddr)
      · simp only [if_pos asked, List.forall_mem_cons] at there ⊢
        cases answer : isWindow state.iaddr with
        | true =>
          rw [answer, eq_self, true_and] at there
          refine .inl ⟨_, rfl, ⟨?_, _, step _⟩, Nat.sub_lt_sub_left more next⟩
          simpa only [There] using there
        | false =>
          rw [answer] at there
          exact .inr ⟨.closed, rfl, fun all => absurd (there.mp all).1 Bool.false_ne_true⟩
      · simp only [if_neg asked] at there ⊢
        exact .inl ⟨_, rfl, ⟨there, _, step _⟩, Nat.sub_lt_sub_left more next⟩
    · simp only [← Listing.normalised.eq_def, failed]
      refine .inr ⟨.exhausted, rfl, ?_⟩
      rw [building.granularity] at full
      exact Nat.lt_of_lt_of_le full (Nat.add_le_add_right (building.text_le more) _)
  · rw [There, Listing.addressesAt_done more] at there
    refine .inr ⟨_, if_neg more, ?_, state.iaddr, state.nSendPlan, ?_⟩
    · exact there.mpr fun iaddr member => absurd member List.not_mem_nil
    · have path := building.path
      rw [Listing.addressesAt_done more, List.append_nil] at path
      rw [path]
      exact building

theorem buildSnapshoot_ends (listing : Listing) (isWindow : Nat → Bool) :
    ∃ outcome, buildSnapshoot listing isWindow = some outcome ∧ Ends listing isWindow outcome := by
  unfold buildSnapshoot
  rcases emptyBuffer.put_cases [0x0A] with ⟨asmbuf, stored, used, granularity⟩ | ⟨failed, full⟩
  · rw [stored]
    refine Loop.run_total (snapshootPass_sound listing isWindow) ⟨Iff.rfl, [], ?_⟩ (Nat.lt_succ_self _)
    refine ⟨rfl, Nat.le_refl _, used, granularity, .nil, .nil, ?_⟩
    exact fun entry member => absurd member List.not_mem_nil
  · exact absurd full (by decide)

theorem takeWhile_line {line : List UInt8} (whole : 0x0A ∉ line) (after : List UInt8) :
    (line ++ 0x0A :: after).takeWhile (· != 0x0A) = line := by
  rw [List.takeWhile_append_of_pos, List.takeWhile_cons_of_neg (by decide), List.append_nil]
  exact fun ch member => by simpa using fun newline : ch = 0x0A => whole (newline ▸ member)

theorem Records.lineAt {used : List UInt8} {entry : StrBufIndex}
    (records : Records listing used iaddr entry) :
    LineAt used (listing.normalised iaddr) entry.dwbufoffset.toNat := by
  obtain ⟨-, before, after, rfl, offset⟩ := records
  have start : (before ++ 0x0A :: (listing.normalised iaddr ++ 0x0A :: after)).drop (before.length + 1) =
      listing.normalised iaddr ++ 0x0A :: after := by
    rw [List.drop_length_add_append]
    rfl
  rw [offset]
  refine ⟨Nat.succ_pos _, ?_, ?_, ?_, ?_⟩
  · rw [Nat.add_sub_cancel, ← Nat.add_zero before.length, charAt_append_right]
    rfl
  · rw [start]
    exact takeWhile_line (listing.normalised_line iaddr) after
  · simp only [List.length_append, List.length_cons]
    omega
  · rw [← charAt_drop, start, ← Nat.add_zero (listing.normalised iaddr).length, charAt_append_right]
    rfl

theorem Listing.addressesFrom_lower (fuel : Nat) (lower : listing.startaddr ≤ iaddr) :
    (∀ a ∈ listing.addressesFrom fuel iaddr, iaddr ≤ a) ∧
      (listing.addressesFrom fuel iaddr).Pairwise (· < ·) := by
  induction fuel generalizing iaddr with
  | zero => exact ⟨fun a member => absurd member List.not_mem_nil, .nil⟩
  | succ fuel ih =>
    rw [addressesFrom]
    split
    · rename_i more
      have next := listing.advances iaddr lower more
      obtain ⟨above, increasing⟩ := ih (show listing.startaddr ≤ listing.findCode iaddr by omega)
      refine ⟨fun a member => ?_, .cons (fun a member => ?_) increasing⟩
      · rcases List.mem_cons.mp member with rfl | later
        · exact Nat.le_refl _
        · have := above a later
          omega
      · have := above a member
        omega
    · exact ⟨fun a member => absurd member List.not_mem_nil, .nil⟩

theorem Listing.addressesFrom_upper (listing : Listing) (fuel : Nat) :
    ∀ a ∈ listing.addressesFrom fuel iaddr, a < listing.endaddr := by
  intro a member
  induction fuel generalizing iaddr with
  | zero => cases member
  | succ fuel ih =>
    rw [addressesFrom] at member
    split at member
    · rename_i more
      rcases List.mem_cons.mp member with rfl | later
      · exact more
      · exact ih later
    · cases member

theorem Listing.addresses_lower (listing : Listing) : ∀ a ∈ listing.addresses, listing.startaddr ≤ a :=
  (listing.addressesFrom_lower _ (Nat.le_refl _)).1

theorem Listing.addresses_increasing (listing : Listing) : listing.addresses.Pairwise (· < ·) :=
  (listing.addressesFrom_lower _ (Nat.le_refl _)).2

/-- Every line with text starts less than 4 GB behind the first address; in the
32-bit build there are no others. -/
def Listing.Near (listing : Listing) : Prop :=
  ∀ iaddr ∈ listing.addresses, listing.disasmLine iaddr ≠ [] → iaddr - listing.startaddr < 4294967296

theorem Listing.mem_filter_hasText {a : Nat} :
    a ∈ listing.addresses.filter listing.hasText ↔
      a ∈ listing.addresses ∧ listing.disasmLine a ≠ [] := by
  rw [List.mem_filter]
  simp [hasText]

theorem Listing.differences_increasing (listing : Listing) :
    ((listing.addresses.filter listing.hasText).map (· - listing.startaddr)).Pairwise (· < ·) := by
  rw [List.pairwise_map]
  refine (listing.addresses_increasing.filter listing.hasText).imp_of_mem fun first second before => ?_
  have above := listing.addresses_lower _ (List.mem_filter.mp first).1
  omega

/-- Near addresses lose nothing in their entries. -/
theorem Building.paired {state : Snapshooting}
    (building : Building listing state listing.addresses) (near : listing.Near) :
    List.Forall₂ (fun a entry => a - listing.startaddr = entry.dwasmaddr.toNat ∧
        listing.startaddr ≤ a ∧ Records listing state.asmbuf.used a entry)
      (listing.addresses.filter listing.hasText) state.vectorIndex := by
  refine ((List.forall₂_and_left _ _).mpr ⟨fun a member => Listing.mem_filter_hasText.mp member,
    building.entries⟩).imp fun a entry ⟨⟨visited, filled⟩, records⟩ => ?_
  refine ⟨?_, listing.addresses_lower a visited, records⟩
  rw [records.1]
  exact (UInt32.toNat_ofNat_of_lt' (near a visited filled)).symm

/-- The loop's index is right exactly when no address is cut to 32 bits. -/
theorem Building.indexed_iff {state : Snapshooting}
    (building : Building listing state listing.addresses) :
    Indexed listing state.asmbuf.used state.vectorIndex ↔ listing.Near := by
  constructor
  · intro indexed a member filled
    have inside : a - listing.startaddr ∈
        (listing.addresses.filter listing.hasText).map (· - listing.startaddr) :=
      List.mem_map.mpr ⟨a, Listing.mem_filter_hasText.mpr ⟨member, filled⟩, rfl⟩
    rw [← indexed.entries] at inside
    obtain ⟨entry, -, same⟩ := List.mem_map.mp inside
    rw [← same]
    exact entry.dwasmaddr.toNat_lt
  · intro near
    have paired := building.paired near
    have entries : state.vectorIndex.map (fun entry => entry.dwasmaddr.toNat) =
        (listing.addresses.filter listing.hasText).map (· - listing.startaddr) := by
      have same : List.Forall₂ (· = ·)
          ((listing.addresses.filter listing.hasText).map (· - listing.startaddr))
          (state.vectorIndex.map fun entry => entry.dwasmaddr.toNat) :=
        List.forall₂_map_left_iff.mpr
          (List.forall₂_map_right_iff.mpr (paired.imp fun a entry both => both.1))
      rw [List.forall₂_eq_eq_eq] at same
      exact same.symm
    refine ⟨building.text, entries, building.offsets, ?_, ?_⟩
    · have differences := listing.differences_increasing
      rw [← entries, List.pairwise_map] at differences
      rw [List.pairwise_map]
      exact differences.imp fun before => UInt32.lt_iff_toNat_lt.mpr before
    · intro entry member
      obtain ⟨k, bound, rfl⟩ := List.getElem_of_mem member
      have length := paired.length_eq
      obtain ⟨difference, above, records⟩ := paired.get (i := k) (by omega) bound
      simp only [List.get_eq_getElem] at difference above records
      rw [← difference, Nat.add_sub_cancel' above]
      exact records.lineAt

theorem Listing.near_of_ea32 (narrow : listing.ea64 = false) : listing.Near := by
  intro a member filled
  have range := listing.range
  rw [narrow, if_neg Bool.false_ne_true] at range
  have inside := listing.addressesFrom_upper _ a member
  omega

/-- The loop ends. When it has walked over the whole listing, the buffer and the index are as
promised exactly if the lines with text all start less than 4 GB behind the first address. -/
theorem buildSnapshoot_indexed_iff (listing : Listing) (isWindow : Nat → Bool) :
    ∃ outcome, buildSnapshoot listing isWindow = some outcome ∧
      (∀ asmbuf vectorIndex, outcome = .built asmbuf vectorIndex →
        (Indexed listing asmbuf.used vectorIndex ↔ listing.Near)) ∧
      (outcome = .closed → ∃ iaddr ∈ listing.asks, isWindow iaddr = false) ∧
      (outcome = .exhausted → 2147483648 < listing.text.length + 0x1000) := by
  obtain ⟨outcome, ran, ends⟩ := buildSnapshoot_ends listing isWindow
  refine ⟨outcome, ran, ?_, ?_, ?_⟩
  · rintro asmbuf vectorIndex rfl
    obtain ⟨-, iaddr, nSendPlan, building⟩ := ends
    exact building.indexed_iff
  · rintro rfl
    simpa [Ends] using ends
  · rintro rfl
    exact ends

theorem nop_plain : 0 ∉ ([0x6E, 0x6F, 0x70] : List UInt8) ∧ 0x0A ∉ ([0x6E, 0x6F, 0x70] : List UInt8) := by
  decide

/-- Two instructions 4 GB apart in a 64-bit database. -/
def farListing : Listing where
  ea64 := true
  startaddr := 0
  endaddr := 4294967300
  disasmLine _ := [0x6E, 0x6F, 0x70]
  findCode iaddr := if iaddr < 4294967296 then 4294967296 else 18446744073709551615
  stack _ := 0
  range := by decide
  advances := by
    intro iaddr _ before
    split <;> omega
  plain _ := nop_plain

theorem farListing_addresses : farListing.addresses = [0, 4294967296] := by
  rw [Listing.addresses, Listing.addressesAt_more (Nat.le_refl _) (by decide),
    Listing.addressesAt_more (by decide) (by decide), Listing.addressesAt_done (by decide)]
  rfl

/-- Both instructions are recorded with the address `0`. -/
theorem buildSnapshoot_cuts_address :
    ∃ asmbuf vectorIndex, buildSnapshoot farListing (fun _ => true) = some (.built asmbuf vectorIndex) ∧
      vectorIndex.map StrBufIndex.dwasmaddr = [0, 0] ∧ ¬ Indexed farListing asmbuf.used vectorIndex := by
  obtain ⟨outcome, ran, ends⟩ := buildSnapshoot_ends farListing fun _ => true
  cases outcome with
  | built asmbuf vectorIndex =>
    obtain ⟨-, iaddr, nSendPlan, building⟩ := ends
    have recorded : List.Forall₂ (fun a b => a = b) (vectorIndex.map StrBufIndex.dwasmaddr)
        ((farListing.addresses.filter farListing.hasText).map UInt32.ofNat) :=
      List.forall₂_map_left_iff.mpr
        (List.forall₂_map_right_iff.mpr (building.entries.flip.imp fun entry a records => records.1))
    rw [List.forall₂_eq_eq_eq, farListing_addresses] at recorded
    have same : vectorIndex.map StrBufIndex.dwasmaddr = [0, 0] := recorded
    refine ⟨asmbuf, vectorIndex, ran, same, fun indexed => ?_⟩
    have increasing := indexed.addrs
    rw [same] at increasing
    exact absurd increasing (by decide)
  | closed =>
    exact absurd (fun _ _ => rfl) ends
  | exhausted =>
    rw [Ends, Listing.text, farListing_addresses] at ends
    exact absurd ends (by decide)

end IDAPlugins.FindCode
