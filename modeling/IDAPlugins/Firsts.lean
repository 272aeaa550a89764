import Mathlib.Data.List.Basic
import Mathlib.Data.List.Nodup
import Mathlib.Data.List.Induction
import Mathlib.Tactic.Basic

namespace IDAPlugins.Firsts

/-! # First occurrences

Among the elements of a list those whose key no earlier element has.
-/

variable {α κ : Type} [DecidableEq κ] {key : α → κ}

def firsts (key : α → κ) (items : List α) : List α :=
  (items.zipIdx.filter fun entry => key entry.1 ∉ (items.take entry.2).map key).map Prod.fst

/-- An element behind the others is a first one when its key is new. -/
theorem firsts_concat (items : List α) (item : α) :
    firsts key (items ++ [item]) =
      if key item ∈ items.map key then firsts key items else firsts key items ++ [item] := by
  have before : items.zipIdx.filter (fun entry => key entry.1 ∉ ((items ++ [item]).take entry.2).map key) =
      items.zipIdx.filter fun entry => key entry.1 ∉ (items.take entry.2).map key := by
    apply List.filter_congr
    intro entry member
    have bound : entry.2 < items.length := (List.mem_zipIdx' member).1
    rw [List.take_append_of_le_length (Nat.le_of_lt bound)]
  have position : (items ++ [item]).zipIdx = items.zipIdx ++ [(item, items.length)] := by
    rw [List.zipIdx_append, Nat.zero_add]
    rfl
  rw [firsts, position, List.filter_append, before, List.map_append]
  by_cases known : key item ∈ items.map key
  · simp [firsts, known]
  · simp [firsts, known]

theorem firsts_sublist (items : List α) : (firsts key items).Sublist items := by
  have chosen := (List.filter_sublist (p := fun entry : α × Nat =>
    key entry.1 ∉ (items.take entry.2).map key) (l := items.zipIdx)).map Prod.fst
  rwa [List.zipIdx_map_fst] at chosen

/-- No key is lost, and none is added. -/
theorem mem_keys_iff (items : List α) (k : κ) :
    k ∈ (firsts key items).map key ↔ k ∈ items.map key := by
  induction items using List.reverseRecOn with
  | nil => rfl
  | append_singleton items item ih =>
    rw [firsts_concat, List.map_append, List.mem_append]
    by_cases known : key item ∈ items.map key
    · rw [if_pos known, ih]
      constructor
      · exact Or.inl
      · intro either
        cases either with
        | inl inside => exact inside
        | inr last => exact List.mem_singleton.mp last ▸ known
    · rw [if_neg known, List.map_append, List.mem_append, ih]

theorem keys_nodup (items : List α) : ((firsts key items).map key).Nodup := by
  induction items using List.reverseRecOn with
  | nil => exact List.nodup_nil
  | append_singleton items item ih =>
    rw [firsts_concat]
    by_cases known : key item ∈ items.map key
    · rw [if_pos known]
      exact ih
    · rw [if_neg known, List.map_append]
      apply ih.append (List.nodup_singleton _)
      intro k inside last
      rw [mem_keys_iff] at inside
      exact known (List.mem_singleton.mp last ▸ inside)

theorem firsts_map {β : Type} (key : α → κ) (f : β → α) (items : List β) :
    firsts key (items.map f) = (firsts (key ∘ f) items).map f := by
  induction items using List.reverseRecOn with
  | nil => rfl
  | append_singleton items item ih =>
    rw [List.map_append, List.map_singleton, firsts_concat, firsts_concat, ih, List.map_map,
      Function.comp_apply]
    by_cases known : key (f item) ∈ items.map (key ∘ f)
    · rw [if_pos known, if_pos known]
    · rw [if_neg known, if_neg known, List.map_append, List.map_singleton]

/-- Keys that agree on which elements are alike choose the same elements. -/
theorem firsts_congr {ν : Type} [DecidableEq ν] {other : α → ν} {items : List α}
    (alike : ∀ a ∈ items, ∀ b ∈ items, key a = key b ↔ other a = other b) :
    firsts key items = firsts other items := by
  induction items using List.reverseRecOn with
  | nil => rfl
  | append_singleton items item ih =>
    have earlier := ih fun a first b second =>
      alike a (List.mem_append_left _ first) b (List.mem_append_left _ second)
    have known : key item ∈ items.map key ↔ other item ∈ items.map other := by
      simp only [List.mem_map]
      constructor
      · rintro ⟨a, member, same⟩
        exact ⟨a, member, (alike a (List.mem_append_left _ member) item (by simp)).mp same⟩
      · rintro ⟨a, member, same⟩
        exact ⟨a, member, (alike a (List.mem_append_left _ member) item (by simp)).mpr same⟩
    rw [firsts_concat, firsts_concat, earlier]
    exact if_congr known rfl rfl

/-- A coarser key chooses what a finer one chooses, up to a map that determines the
coarser one, only if no two keys of the elements are confused. -/
theorem injective_of_firsts {β ν : Type} [DecidableEq ν] (coarse : ν → κ) (fine : α → ν)
    (image : α → β) (code : β → κ) (determined : ∀ item, code (image item) = coarse (fine item))
    {items : List α}
    (same : (firsts (coarse ∘ fine) items).map image = (firsts fine items).map image)
    {a b : α} (first : a ∈ items) (second : b ∈ items) (alike : coarse (fine a) = coarse (fine b)) :
    fine a = fine b := by
  have codes : (firsts fine items).map (coarse ∘ fine) =
      (firsts (coarse ∘ fine) items).map (coarse ∘ fine) := by
    have mapped := congrArg (List.map code) same
    simp only [List.map_map, Function.comp_def, determined] at mapped
    exact mapped.symm
  have distinct : ((firsts fine items).map (coarse ∘ fine)).Nodup := codes ▸ keys_nodup items
  have chosen (item : α) (member : item ∈ items) :
      ∃ kept ∈ firsts fine items, fine kept = fine item :=
    List.mem_map.mp ((mem_keys_iff items _).mpr (List.mem_map.mpr ⟨item, member, rfl⟩))
  obtain ⟨keptA, inA, sameA⟩ := chosen a first
  obtain ⟨keptB, inB, sameB⟩ := chosen b second
  have equal := List.inj_on_of_nodup_map distinct inA inB (by
    simp only [Function.comp_apply, sameA, sameB, alike])
  rw [← sameA, ← sameB, equal]

end IDAPlugins.Firsts
