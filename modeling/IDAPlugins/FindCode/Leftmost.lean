import IDAPlugins.FindCode.Finding

namespace IDAPlugins.FindCode

open Search

/-! # Which strings are found at their first occurrence

The failure table takes a `?` further on in the string for an ordinary character. A
string is found first in every source of a length exactly if that hides no overlap.
-/

variable {lpszFind : List UInt8} {m : Nat}

/-- The first characters of a text, as a string. -/
def sourceOf (text : Nat → UInt8) (m : Nat) : List UInt8 :=
  (List.range m).map text

theorem sourceOf_length (text : Nat → UInt8) (m : Nat) : (sourceOf text m).length = m := by
  rw [sourceOf, List.length_map, List.length_range]

theorem charAt_sourceOf (text : Nat → UInt8) {i : Nat} (bound : i < m) :
    charAt (sourceOf text m) i = text i := by
  rw [charAt, List.getD_eq_getElem _ _ (by rwa [sourceOf_length])]
  simp only [sourceOf, List.getElem_map, List.getElem_range]

theorem liesAt_sourceOf {text : Nat → UInt8} {position : Nat}
    (fits : position + lpszFind.length ≤ m) (occurs : (sought lpszFind).OccursAt text position) :
    LiesAt (sourceOf text m) lpszFind position := by
  refine ⟨by rwa [sourceOf_length], fun t bound => ?_⟩
  have bound' : t < lpszFind.length := bound
  rw [charAt_sourceOf text (by omega)]
  exact occurs t bound

theorem findsFirst_nil {lpszSour : List UInt8} {nStart : Nat} (inside : nStart ≤ lpszSour.length) :
    FindsFirst lpszSour [] nStart := by
  have lies (position : Nat) : LiesAt lpszSour [] position ↔ position ≤ lpszSour.length := by
    refine and_iff_left fun t bound => ?_
    exact absurd bound (Nat.not_lt_zero t)
  refine ⟨nStart, ?_, .inr ⟨nStart, rfl, ⟨Nat.le_refl _, (lies nStart).mpr inside⟩, fun p above => above.1⟩⟩
  rw [findingString, if_neg (by omega), if_neg (by simp only [List.length_nil]; omega),
    List.length_nil, if_pos rfl]

theorem charAt_ne_zero (terminated : 0 ∉ lpszFind) {t : Nat} (bound : t < lpszFind.length) :
    charAt lpszFind t ≠ 0 := by
  rw [charAt, List.getD_eq_getElem _ _ bound]
  exact fun zero => terminated (zero ▸ List.getElem_mem bound)

/-- Another character in the place of NUL. -/
def withoutNul (other ch : UInt8) : UInt8 :=
  if ch = 0 then other else ch

theorem withoutNul_ne_zero {other : UInt8} (usable : other ≠ 0) (ch : UInt8) :
    withoutNul other ch ≠ 0 := by
  unfold withoutNul
  split
  · exact usable
  · assumption

theorem agrees_withoutNul (terminated : 0 ∉ lpszFind) (other : UInt8) {ch : UInt8} {t : Nat}
    (bound : t < lpszFind.length)
    (agrees : (sought lpszFind).agrees ch ((sought lpszFind).code t) = true) :
    (sought lpszFind).agrees (withoutNul other ch) ((sought lpszFind).code t) = true := by
  simp only [sought, Bool.or_eq_true, beq_iff_eq] at agrees ⊢
  refine agrees.imp_right fun same => ?_
  rwa [withoutNul, if_neg (same ▸ charAt_ne_zero terminated bound)]

/-- The character that stands in for NUL differs from the one that is to be missed. -/
theorem exists_other (missed : UInt8) : ∃ other : UInt8, other ≠ 0 ∧ other ≠ missed := by
  by_cases one : missed = 1
  · exact ⟨2, by decide, one ▸ by decide⟩
  · exact ⟨1, by decide, Ne.symm one⟩

/-- A hidden shift is realised by a text without NUL. -/
theorem realised_withoutNul {j k : Nat} (terminated : 0 ∉ lpszFind)
    (overlaps : (sought lpszFind).Overlaps j k) (below : k < j) (bound : j < lpszFind.length) :
    ∃ text : Nat → UInt8, (∀ i, text i ≠ 0) ∧
      (∀ t < j, (sought lpszFind).agrees (text t) ((sought lpszFind).code t) = true) ∧
      ¬ (sought lpszFind).agrees (text j) ((sought lpszFind).code j) = true ∧
      (sought lpszFind).OccursAt text (j - k) := by
  obtain ⟨text, agreed, mismatch, occurs⟩ := overlaps.realised (sought_legible lpszFind) below bound
  obtain ⟨other, usable, differs⟩ := exists_other (charAt lpszFind j)
  refine ⟨fun i => withoutNul other (text i), fun i => withoutNul_ne_zero usable _, ?_, ?_, ?_⟩
  · intro t before
    exact agrees_withoutNul terminated other (by omega) (agreed t before)
  · intro agrees
    simp only [sought, Bool.or_eq_true, beq_iff_eq, not_or] at mismatch agrees
    have same := agrees.resolve_left mismatch.1
    rw [withoutNul] at same
    split at same
    · exact differs same
    · exact mismatch.2 same
  · intro t inside
    exact agrees_withoutNul terminated other inside (occurs t inside)

/-- An entry of the table that falls short of an overlap loses an occurrence. -/
theorem noHiddenOverlap_of_findsFirst (nonempty : lpszFind ≠ []) (terminated : 0 ∉ lpszFind)
    (fits : lpszFind.length ≤ m)
    (finds : ∀ lpszSour : List UInt8, 0 ∉ lpszSour → lpszSour.length = m →
      FindsFirst lpszSour lpszFind 0) :
    (sought lpszFind).NoHiddenOverlap (m - lpszFind.length) := by
  obtain ⟨next, built, borders⟩ := sought_table nonempty
  refine noHiddenOverlap_of_covers (sought_legible lpszFind) borders ?_
  intro j k below bound near overlaps
  have bound' : j < lpszFind.length := bound
  by_contra falls
  obtain ⟨text, filled, agreed, mismatch, occurs⟩ :=
    realised_withoutNul terminated overlaps below bound'
  have length := sourceOf_length text m
  have plain : 0 ∉ sourceOf text m := by
    intro member
    obtain ⟨i, -, zero⟩ := List.mem_map.mp member
    exact filled i zero
  have lies : LiesAt (sourceOf text m) lpszFind (j - k) := liesAt_sourceOf (by omega) occurs
  have agreed' : ∀ t < j,
      (sought lpszFind).agrees (charAt (sourceOf text m) t) ((sought lpszFind).code t) = true := by
    intro t inside
    rw [charAt_sourceOf text (by omega)]
    exact agreed t inside
  have mismatch' : ¬ (sought lpszFind).agrees (charAt (sourceOf text m) j)
      ((sought lpszFind).code j) = true := by
    rwa [charAt_sourceOf text (by omega)]
  obtain ⟨result, scanned, cursor, evades, ended⟩ :=
    findingPass_ends (Evades j (j - k)) nonempty (Nat.zero_le (sourceOf text m).length)
      (sought_entails borders) (.inl ⟨rfl, by simp only; omega⟩)
      fun cursor invariant evades => evades.step (sought_compares _ _) (sought_entails borders)
        invariant bound agreed' mismatch' below (by omega)
  obtain ⟨r, searched, answer⟩ := finds (sourceOf text m) plain length
  have ran := (findingString_eq nonempty (by omega) built).trans scanned
  obtain rfl : r = result := Option.some.inj (searched.symm.trans ran)
  rcases ended with ⟨missed, -, -⟩ | ⟨position, hit, -, aligned, room, whole⟩
  · rcases answer with ⟨-, absent⟩ | ⟨place, same, -⟩
    · exact absent (j - k) (Nat.zero_le _) lies
    · omega
  · rcases answer with ⟨missed, -⟩ | ⟨place, same, least⟩
    · omega
    · have first := least.2 ⟨Nat.zero_le _, lies⟩
      have beyond := evades.passes bound mismatch' aligned whole
      omega

/-- In all sources of a length a string is found at its first occurrence from every start if
and only if it is longer than the sources or no hidden overlap of it has room in them. -/
theorem findingString_first_iff (lpszFind : List UInt8) (m : Nat) (terminated : 0 ∉ lpszFind)
    (counted : m < 2147483648) :
    (∀ lpszSour : List UInt8, 0 ∉ lpszSour → lpszSour.length = m →
        ∀ nStart ≤ m, FindsFirst lpszSour lpszFind nStart) ↔
      m < lpszFind.length ∨ (sought lpszFind).NoHiddenOverlap (m - lpszFind.length) := by
  by_cases empty : lpszFind = []
  · subst empty
    refine iff_of_true ?_ (.inr fun j k below bound => absurd bound (Nat.not_lt_zero j))
    rintro lpszSour - rfl nStart inside
    exact findsFirst_nil inside
  constructor
  · intro finds
    by_cases short : m < lpszFind.length
    · exact .inl short
    · exact .inr (noHiddenOverlap_of_findsFirst empty terminated (Nat.le_of_not_lt short)
        fun lpszSour plain length => finds lpszSour plain length 0 (Nat.zero_le m))
  · rintro (short | visible) lpszSour - rfl nStart inside
    · refine ⟨-1, findingString_short (by omega), .inl ⟨rfl, fun position after lies => ?_⟩⟩
      have room := lies.1
      omega
    · exact findsFirst_of_noHiddenOverlap empty visible

/-- `?ab` -/
theorem findingString_first_dots :
    FindsFirst [0x61, 0x61, 0x61, 0x62] [0x3F, 0x61, 0x62] 0 ∧
      FindsFirst [0x61, 0x62, 0x61, 0x63] [0x3F, 0x61, 0x62] 1 := by
  have visible : (sought [0x3F, 0x61, 0x62]).NoHiddenOverlap (4 - [0x3F, 0x61, 0x62].length) :=
    (sought [0x3F, 0x61, 0x62]).noHiddenOverlap_three (Nat.le_refl 3) rfl
  have finds := (findingString_first_iff [0x3F, 0x61, 0x62] 4 (by decide) (by decide)).mpr
    (.inr visible)
  exact ⟨finds _ (by decide) rfl 0 (by decide), finds _ (by decide) rfl 1 (by decide)⟩

/-- `a?b` lies in `aaab` at place 1; after the mismatch at the third character the scan
goes on at place 2. -/
theorem findingString_skips :
    LiesAt [0x61, 0x61, 0x61, 0x62] [0x61, 0x3F, 0x62] 1 ∧
      findingString [0x61, 0x61, 0x61, 0x62] [0x61, 0x3F, 0x62] 0 = some (-1) ∧
      ¬ FindsFirst [0x61, 0x61, 0x61, 0x62] [0x61, 0x3F, 0x62] 0 := by
  have lies : LiesAt [0x61, 0x61, 0x61, 0x62] [0x61, 0x3F, 0x62] 1 := by decide
  have missed : findingString [0x61, 0x61, 0x61, 0x62] [0x61, 0x3F, 0x62] 0 = some (-1) := by
    decide
  refine ⟨lies, missed, ?_⟩
  rintro ⟨r, searched, answer⟩
  obtain rfl : -1 = r := Option.some.inj (missed.symm.trans searched)
  rcases answer with ⟨-, absent⟩ | ⟨position, same, -⟩
  · exact absent 1 (Nat.zero_le 1) lies
  · omega

end IDAPlugins.FindCode
