import IDAPlugins.PatchArm.ClacBL

namespace IDAPlugins.PatchArm

/-! # Which branches come back right

The correction of a single byte has no borrow or carry into the next one. That is
what decides about the distances; the ARM forward branch is corrected over three
bytes and only loses the distances whose rounding leaves the range.
-/

theorem ofNat_eq_iff (first second : Nat) :
    UInt8.ofNat first = UInt8.ofNat second ↔ first % 256 = second % 256 := by
  rw [← UInt8.toNat_inj, UInt8.toNat_ofNat', UInt8.toNat_ofNat']

theorem addByte_ofNat (value : Nat) (n : Int) :
    addByte (UInt8.ofNat value) n = UInt8.ofNat (((value : Int) + n) % 256).toNat := by
  rw [addByte, UInt8.toNat_ofNat', ofNat_eq_iff]
  omega

theorem field_lt (size : Nat) (positive : 0 < size) (offset : Int) : field size offset < size := by
  have := Int.emod_lt_of_pos offset (show (0 : Int) < size by omega)
  unfold field
  omega

variable {assembler : Assembler} {ord : Mnemonic} {dwSrc dwDes : Nat}

theorem arm_back_iff (ord : Mnemonic) {imm imm' r : Nat} (small : imm < 16777216)
    (lower : r < 256) (target : (imm' : Int) = (imm - r) % 16777216) :
    (armBranch ord imm).modify 0 (addByte · (-r)) = armBranch ord imm' ↔ r ≤ imm % 256 := by
  simp only [armBranch, le32, List.modify_zero_cons, addByte_ofNat, List.cons.injEq, ofNat_eq_iff,
    and_true]
  omega

theorem rounded_back_inRange (inRange : InRange .arm ord dwSrc dwDes) :
    InRange .arm ord (rounded (dwSrc - dwDes) + 16) 16 := by
  obtain ⟨even, lower, upper⟩ := inRange
  simp only [reach, span, offsets, unit] at even lower upper
  simp only [InRange, reach, span, offsets, unit, rounded]
  omega

theorem correctedBack_arm_iff (order : dwDes ≤ dwSrc) (inRange : InRange .arm ord dwSrc dwDes) :
    correctedBack .arm ord (branchBytes .arm ord (rounded (dwSrc - dwDes) + 16) 16)
        (remainder .arm (dwSrc - dwDes)) = branchBytes .arm ord dwSrc dwDes ↔
      (dwSrc - dwDes) % 1024 ≠ 1020 := by
  obtain ⟨even, lower, upper⟩ := inRange
  simp only [reach, span, offsets, unit] at even lower upper
  have imm := field_lt 16777216 (by decide) (reach .arm (rounded (dwSrc - dwDes) + 16) 16 / 4)
  simp only [correctedBack, branchBytes, offsets]
  rw [arm_back_iff ord imm (by simp only [remainder]; omega)]
  · simp only [field, reach, rounded, remainder]
    omega
  · simp only [field, reach, rounded, remainder]
    omega

/-- The branch comes back right unless the distance leaves the rest 1020 modulo 1024. -/
theorem clacBL_arm_backward_iff (encodes : Encodes assembler) (order : dwDes ≤ dwSrc)
    (inRange : InRange .arm ord dwSrc dwDes) :
    clacBL assembler .arm dwSrc dwDes ord = (4, branchBytes .arm ord dwSrc dwDes) ↔
      (dwSrc - dwDes) % 1024 ≠ 1020 := by
  rw [clacBL_backward encodes order (rounded_back_inRange inRange), Prod.mk.injEq,
    ← correctedBack_arm_iff order inRange]
  exact and_iff_right rfl

theorem clacBL_arm_backward_rest :
    clacBL plainAssembler .arm 0x840C 0x8000 ⟨false, 14⟩ =
      (4, branchBytes .arm ⟨false, 14⟩ 0x840C 0x8000) :=
  (clacBL_arm_backward_iff plainAssembler_encodes (by decide) (by decide)).2 (by decide)

/-- `b` from 0x83FC to 0x8000 comes back as a branch to 0x8400. -/
theorem clacBL_arm_backward_fails : ¬ ∀ (assembler : Assembler) (dwSrc dwDes : Nat)
    (ord : Mnemonic), Encodes assembler → dwDes ≤ dwSrc →
      dwSrc % 4 = 0 ∧ dwDes % 4 = 0 → InRange .arm ord dwSrc dwDes →
        clacBL assembler .arm dwSrc dwDes ord = (4, branchBytes .arm ord dwSrc dwDes) := by
  intro right
  have encoded := right plainAssembler 0x83FC 0x8000 ⟨false, 14⟩ plainAssembler_encodes
    (by decide) (by decide) (by decide)
  rw [clacBL_backward plainAssembler_encodes (by decide) (by decide)] at encoded
  exact absurd encoded (by decide)

/-- A correction over three bytes is always right. -/
theorem addThree_armBranch (ord : Mnemonic) {imm imm' : Nat} {n : Int} (small : imm < 16777216)
    (target : (imm' : Int) = (imm + n) % 16777216) :
    addThree (armBranch ord imm) n = armBranch ord imm' := by
  simp only [addThree, armBranch, le32, List.getD_cons_zero, List.getD_cons_succ,
    List.take_succ_cons, List.take_zero, List.drop_succ_cons, List.drop_zero, List.cons_append,
    List.nil_append, UInt8.toNat_ofNat', List.cons.injEq, ofNat_eq_iff, and_true]
  omega

theorem rounded_ahead_inRange (inRange : InRange .arm ord dwSrc dwDes)
    (near : dwDes - dwSrc < 33554432) : InRange .arm ord 16 (rounded (dwDes - dwSrc) + 28) := by
  obtain ⟨even, lower, upper⟩ := inRange
  simp only [reach, span, offsets, unit] at even lower upper
  simp only [InRange, reach, span, offsets, unit, rounded]
  omega

theorem correctedAhead_arm (order : dwSrc < dwDes) (inRange : InRange .arm ord dwSrc dwDes) :
    correctedAhead .arm ord (branchBytes .arm ord 16 (rounded (dwDes - dwSrc) + 28))
        ((remainder .arm (dwDes - dwSrc) : Int) - 3) = branchBytes .arm ord dwSrc dwDes := by
  obtain ⟨even, lower, upper⟩ := inRange
  simp only [reach, span, offsets, unit] at even lower upper
  have imm := field_lt 16777216 (by decide) (reach .arm 16 (rounded (dwDes - dwSrc) + 28) / 4)
  simp only [correctedAhead, branchBytes, offsets]
  refine addThree_armBranch ord imm ?_
  simp only [field, reach, rounded, remainder]
  omega

/-- The branch comes back right up to the distances that are rounded beyond the range. -/
theorem clacBL_arm_forward_iff (encodes : Encodes assembler) (order : dwSrc < dwDes)
    (inRange : InRange .arm ord dwSrc dwDes) :
    clacBL assembler .arm dwSrc dwDes ord = (4, branchBytes .arm ord dwSrc dwDes) ↔
      dwDes - dwSrc < 33554432 := by
  by_cases near : dwDes - dwSrc < 33554432
  · refine iff_of_true ?_ near
    rw [clacBL_forward encodes order (rounded_ahead_inRange inRange near),
      correctedAhead_arm order inRange]
    rfl
  · have outside : ¬ InRange .arm ord 16 (rounded (dwDes - dwSrc) + 28) := by
      simp only [InRange, reach, span, offsets, unit, rounded]
      omega
    refine iff_of_false (fun same => ?_) near
    have failed := clacBL_error encodes order outside
    rw [same] at failed
    exact absurd failed (Nat.succ_ne_zero 3)

theorem clacBL_arm_forward_next :
    clacBL plainAssembler .arm 0x8000 0x8004 ⟨true, 0⟩ =
      (4, branchBytes .arm ⟨true, 0⟩ 0x8000 0x8004) :=
  (clacBL_arm_forward_iff plainAssembler_encodes (by decide) (by decide)).2 (by decide)

/-- `b` over 0x2000000 bytes, the second longest distance, comes back as an error. -/
theorem clacBL_arm_forward_fails : ¬ ∀ (assembler : Assembler) (dwSrc dwDes : Nat)
    (ord : Mnemonic), Encodes assembler → dwSrc < dwDes →
      dwSrc % 4 = 0 ∧ dwDes % 4 = 0 → InRange .arm ord dwSrc dwDes →
        clacBL assembler .arm dwSrc dwDes ord = (4, branchBytes .arm ord dwSrc dwDes) := by
  intro right
  have encoded := right plainAssembler 0x8000 0x2008000 ⟨false, 14⟩ plainAssembler_encodes
    (by decide) (by decide) (by decide)
  have failed : (clacBL plainAssembler .arm 0x8000 0x2008000 ⟨false, 14⟩).1 = 0 :=
    clacBL_error plainAssembler_encodes (by decide) (by decide)
  rw [encoded] at failed
  exact absurd failed (by decide)

theorem span_thumb (ord : Mnemonic) : span .thumb ord = offsets .thumb ord :=
  Nat.mul_div_cancel _ Nat.two_pos

theorem offsets_plain {ord : Mnemonic} (plain : ord.condition = 14) :
    offsets .thumb ord = if ord.link then 4194304 else 2048 := by
  unfold offsets
  rw [plain]
  cases ord.link <;> rfl

theorem offsets_conditional {ord : Mnemonic} (conditional : ord.condition ≠ 14) :
    offsets .thumb ord = if ord.link then 0 else 256 := by
  unfold offsets
  rw [decide_eq_false conditional]
  cases ord.link <;> rfl

theorem offsets_of_inRange {ord : Mnemonic} {dwSrc dwDes : Nat}
    (inRange : InRange .thumb ord dwSrc dwDes) :
    ord.condition = 14 ∧ (offsets .thumb ord = 4194304 ∨ offsets .thumb ord = 2048) ∨
      ord.condition ≠ 14 ∧ offsets .thumb ord = 256 := by
  by_cases plain : ord.condition = 14
  · refine .inl ⟨plain, ?_⟩
    rw [offsets_plain plain]
    cases ord.link <;> simp
  · refine .inr ⟨plain, ?_⟩
    obtain ⟨-, lower, upper⟩ := inRange
    rw [span_thumb, offsets_conditional plain] at lower upper
    rw [offsets_conditional plain]
    cases link : ord.link with
    | false => rfl
    | true =>
      simp only [link, if_true] at lower upper
      omega

/-- A byte correction of a Thumb offset is right when it needs no borrow or carry. -/
theorem thumb_corrected_iff {ord : Mnemonic} (plain : ord.condition = 14) {imm imm' : Nat} {n : Int}
    (small : imm < offsets .thumb ord) (lower : -256 < n) (upper : n < 256)
    (target : (imm' : Int) = (imm + n) % offsets .thumb ord) :
    (thumbBranch ord imm).modify (branchSize .thumb ord - 2) (addByte · n) = thumbBranch ord imm' ↔
      0 ≤ (imm % 256 : Nat) + n ∧ (imm % 256 : Nat) + n < 256 := by
  rw [offsets_plain plain] at small target
  unfold thumbBranch branchSize
  cases link : ord.link with
  | false =>
    simp only [link, Bool.false_eq_true, if_false] at small target
    simp only [Bool.false_eq_true, if_false, if_pos plain, le16, Nat.sub_self,
      List.modify_zero_cons, addByte_ofNat, List.cons.injEq, ofNat_eq_iff, and_true]
    omega
  | true =>
    simp only [link, if_true] at small target
    simp only [if_true, le16, List.cons_append, List.nil_append, List.modify_succ_cons,
      List.modify_zero_cons, Nat.reduceSub, addByte_ofNat, List.cons.injEq, ofNat_eq_iff, and_true]
    omega

/-- The offset of a conditional Thumb branch is a single byte: its correction wraps right. -/
theorem thumb_conditional_corrected {ord : Mnemonic} (conditional : ord.condition ≠ 14)
    {imm imm' : Nat} {n : Int} (small : imm < offsets .thumb ord)
    (target : (imm' : Int) = (imm + n) % offsets .thumb ord) :
    (thumbBranch ord imm).modify (branchSize .thumb ord - 2) (addByte · n) =
      thumbBranch ord imm' := by
  rw [offsets_conditional conditional] at small target
  unfold thumbBranch branchSize
  cases link : ord.link with
  | false =>
    simp only [link, Bool.false_eq_true, if_false] at small target
    simp only [Bool.false_eq_true, if_false, if_neg conditional, le16, Nat.sub_self,
      List.modify_zero_cons, addByte_ofNat, List.cons.injEq, ofNat_eq_iff, and_true]
    omega
  | true =>
    simp only [link, if_true] at small
    exact absurd small (Nat.not_lt_zero imm)

theorem thumb_backward_iff (encodes : Encodes assembler) (order : dwDes ≤ dwSrc)
    (inRange : InRange .thumb ord dwSrc dwDes) :
    clacBL assembler .thumb dwSrc dwDes ord =
        (branchSize .thumb ord, branchBytes .thumb ord dwSrc dwDes) ↔
      (ord.condition = 14 → (dwSrc - dwDes) % 512 ≠ 510) := by
  have size := offsets_of_inRange inRange
  obtain ⟨even, lower, upper⟩ := inRange
  simp only [reach, unit, span_thumb] at even lower upper
  have rounds : InRange .thumb ord (rounded (dwSrc - dwDes) + 16) 16 := by
    simp only [InRange, reach, unit, span_thumb, rounded]
    omega
  have imm := field_lt (offsets .thumb ord) (by omega)
    (reach .thumb (rounded (dwSrc - dwDes) + 16) 16 / 2)
  rw [clacBL_backward encodes order rounds, Prod.mk.injEq]
  simp only [true_and, correctedBack, branchBytes]
  rcases size with ⟨plain, size⟩ | ⟨conditional, size⟩
  · rw [thumb_corrected_iff plain imm (by simp only [remainder]; omega) (by omega)]
    · rcases size with size | size <;>
      · simp only [size, field, reach, rounded, remainder, plain, true_implies]
        omega
    · rcases size with size | size <;>
      · simp only [size, field, reach, rounded, remainder]
        omega
  · refine iff_of_true (thumb_conditional_corrected conditional imm ?_) fun plain =>
      absurd plain conditional
    simp only [size, field, reach, rounded, remainder]
    omega

theorem thumb_forward_iff (encodes : Encodes assembler) (order : dwSrc < dwDes)
    (inRange : InRange .thumb ord dwSrc dwDes) :
    clacBL assembler .thumb dwSrc dwDes ord =
        (branchSize .thumb ord, branchBytes .thumb ord dwSrc dwDes) ↔
      if ord.condition = 14 then (dwDes - dwSrc) % 512 ≠ 0 ∧ (dwDes - dwSrc) % 512 ≠ 2
      else dwDes - dwSrc < 256 := by
  have size := offsets_of_inRange inRange
  obtain ⟨even, lower, upper⟩ := inRange
  simp only [reach, unit, span_thumb] at even lower upper
  by_cases rounds : InRange .thumb ord 16 (rounded (dwDes - dwSrc) + 28)
  · have imm := field_lt (offsets .thumb ord) (by omega)
      (reach .thumb 16 (rounded (dwDes - dwSrc) + 28) / 2)
    rw [clacBL_forward encodes order rounds, Prod.mk.injEq]
    simp only [true_and, correctedAhead, branchBytes]
    obtain ⟨-, -, rounds⟩ := rounds
    simp only [reach, span_thumb, rounded] at rounds
    rcases size with ⟨plain, size⟩ | ⟨conditional, size⟩
    · rw [thumb_corrected_iff plain imm (by omega) (by simp only [remainder]; omega), if_pos plain]
      · rcases size with size | size <;>
        · simp only [size, field, reach, rounded, remainder]
          omega
      · rcases size with size | size <;>
        · simp only [size, field, reach, rounded, remainder]
          omega
    · rw [if_neg conditional]
      refine iff_of_true (thumb_conditional_corrected conditional imm ?_) (by omega)
      simp only [size, field, reach, rounded, remainder]
      omega
  · have failed := clacBL_error encodes order rounds
    simp only [InRange, reach, unit, span_thumb, rounded] at rounds
    refine iff_of_false (fun same => ?_) ?_
    · rw [same] at failed
      exact absurd failed (Nat.ne_of_gt (branchSize_pos .thumb ord))
    · rcases size with ⟨plain, size⟩ | ⟨conditional, size⟩
      · rw [if_pos plain]
        rcases size with size | size <;> omega
      · rw [if_neg conditional]
        omega

/-- The distances over which the correction of a branch is right. -/
def Correctable : Mode → Mnemonic → Nat → Nat → Prop
  | .arm, _, dwSrc, dwDes =>
    if dwDes ≤ dwSrc then (dwSrc - dwDes) % 1024 ≠ 1020 else dwDes - dwSrc < 33554432
  | .thumb, ord, dwSrc, dwDes =>
    if dwDes ≤ dwSrc then ord.condition.val = 14 → (dwSrc - dwDes) % 512 ≠ 510
    else if ord.condition.val = 14 then (dwDes - dwSrc) % 512 ≠ 0 ∧ (dwDes - dwSrc) % 512 ≠ 2
    else dwDes - dwSrc < 256

theorem clacBL_correctable {mode : Mode} (encodes : Encodes assembler)
    (inRange : InRange mode ord dwSrc dwDes) (correctable : Correctable mode ord dwSrc dwDes) :
    clacBL assembler mode dwSrc dwDes ord =
      (branchSize mode ord, branchBytes mode ord dwSrc dwDes) := by
  have unconditional : ord.condition.val = 14 ↔ ord.condition = 14 :=
    (@Fin.ext_iff 15 ord.condition 14).symm
  rcases Nat.lt_or_ge dwSrc dwDes with order | order
  · cases mode with
    | arm =>
      rw [Correctable, if_neg (Nat.not_le_of_lt order)] at correctable
      rw [clacBL_forward encodes order (rounded_ahead_inRange inRange correctable),
        correctedAhead_arm order inRange]
    | thumb =>
      rw [Correctable, if_neg (Nat.not_le_of_lt order)] at correctable
      simp only [unconditional] at correctable
      exact (thumb_forward_iff encodes order inRange).mpr correctable
  · cases mode with
    | arm =>
      rw [Correctable, if_pos order] at correctable
      rw [clacBL_backward encodes order (rounded_back_inRange inRange),
        (correctedBack_arm_iff order inRange).mpr correctable]
    | thumb =>
      rw [Correctable, if_pos order] at correctable
      rw [unconditional] at correctable
      exact (thumb_backward_iff encodes order inRange).mpr correctable

/-- A `B` or `BL` comes back right unless the distance leaves the rest 510 modulo 512 backward,
or 0 or 2 forward; a conditional `B` loses the distances whose rounding leaves the range. -/
theorem clacBL_thumb_iff (encodes : Encodes assembler) (dwSrc dwDes : Nat) (ord : Mnemonic)
    (inRange : InRange .thumb ord dwSrc dwDes) :
    clacBL assembler .thumb dwSrc dwDes ord =
        (branchSize .thumb ord, branchBytes .thumb ord dwSrc dwDes) ↔
      (dwDes ≤ dwSrc → ord.condition = 14 → (dwSrc - dwDes) % 512 ≠ 510) ∧
        (dwSrc < dwDes →
          if ord.condition = 14 then (dwDes - dwSrc) % 512 ≠ 0 ∧ (dwDes - dwSrc) % 512 ≠ 2
          else dwDes - dwSrc < 256) := by
  rcases Nat.lt_or_ge dwSrc dwDes with order | order
  · rw [thumb_forward_iff encodes order inRange]
    exact ⟨fun safe => ⟨fun back => absurd order (Nat.not_lt_of_le back), fun _ => safe⟩,
      fun both => both.2 order⟩
  · rw [thumb_backward_iff encodes order inRange]
    exact ⟨fun safe => ⟨fun _ => safe, fun ahead => absurd ahead (Nat.not_lt_of_le order)⟩,
      fun both => both.1 order⟩

theorem clacBL_thumb_pair :
    clacBL plainAssembler .thumb 0x8000 0x9010 ⟨true, 14⟩ =
      (4, branchBytes .thumb ⟨true, 14⟩ 0x8000 0x9010) :=
  (clacBL_thumb_iff plainAssembler_encodes 0x8000 0x9010 ⟨true, 14⟩ (by decide)).2
    (by decide)

/-- `b` to the next instruction comes back as a branch over 0x202 bytes. -/
theorem clacBL_thumb_fails : ¬ ∀ (assembler : Assembler) (dwSrc dwDes : Nat) (ord : Mnemonic),
    Encodes assembler → dwSrc % 2 = 0 ∧ dwDes % 2 = 0 → InRange .thumb ord dwSrc dwDes →
      clacBL assembler .thumb dwSrc dwDes ord =
        (branchSize .thumb ord, branchBytes .thumb ord dwSrc dwDes) := by
  intro right
  have encoded := right plainAssembler 0x8000 0x8002 ⟨false, 14⟩ plainAssembler_encodes
    (by decide) (by decide)
  rw [clacBL_forward plainAssembler_encodes (by decide) (by decide)] at encoded
  exact absurd encoded (by decide)

end IDAPlugins.PatchArm
