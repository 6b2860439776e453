import Mathlib.Data.List.DropRight

/-!
# Since the last reset

A history is the list of its events, the latest at the end. `since` cuts it behind its last reset.
-/

namespace History

variable {E : Type*} {isReset : E → Bool} {x y z : E} {l : List E}

/-- The events behind the last reset, or all of them. -/
def since (isReset : E → Bool) (l : List E) : List E := l.rtakeWhile fun e => !isReset e

/-- One event and later another. -/
def Then (x y : E) (l : List E) : Prop := [x, y].Sublist l

theorem Then.mem (h : Then x y l) : x ∈ l ∧ y ∈ l :=
  ⟨h.subset List.mem_cons_self, h.subset (List.mem_cons_of_mem _ List.mem_cons_self)⟩

theorem Then.append_right (h : Then x y l) (l' : List E) : Then x y (l ++ l') := h.trans (List.sublist_append_left l l')

theorem then_concat (hx : x ∈ l) : Then x y (l ++ [y]) := (List.singleton_sublist.mpr hx).append (List.Sublist.refl [y])

theorem exists_before (l : List E) : ∃ before, l = before ++ since isReset l ∧
    (before = [] ∨ ∃ front z, before = front ++ [z] ∧ isReset z = true) := by
  refine ⟨l.rdropWhile fun e => !isReset e, List.rdropWhile_append_rtakeWhile.symm, ?_⟩
  by_cases hne : (l.rdropWhile fun e => !isReset e) = []
  · exact Or.inl hne
  · have hlast := List.rdropWhile_last_not (p := fun e => !isReset e) l hne
    rw [Bool.not_eq_true', Bool.not_eq_false] at hlast
    exact Or.inr ⟨_, _, (List.dropLast_append_getLast hne).symm, hlast⟩

theorem not_isReset_of_mem_since (hx : x ∈ since isReset l) : isReset x = false := by
  have hnot := List.mem_rtakeWhile_imp hx
  exact Bool.not_eq_true' _ ▸ hnot

/-- Two events in order are split by a cut behind the first, or stand on the same side. -/
theorem then_append {l' : List E} : Then x y (l ++ l') ↔ Then x y l ∨ x ∈ l ∧ y ∈ l' ∨ Then x y l' := by
  constructor
  · intro h
    obtain ⟨front, back, heq, hfront, hback⟩ := List.sublist_append_iff.mp h
    rcases List.cons_eq_append_iff.mp heq with ⟨rfl, rfl⟩ | ⟨front', rfl, heq'⟩
    · exact Or.inr (Or.inr hback)
    · rcases List.cons_eq_append_iff.mp heq' with ⟨rfl, rfl⟩ | ⟨front'', rfl, hnil⟩
      · exact Or.inr (Or.inl ⟨List.singleton_sublist.mp hfront, List.singleton_sublist.mp hback⟩)
      · rw [(List.append_eq_nil_iff.mp hnil.symm).1] at hfront
        exact Or.inl hfront
  · rintro (h | ⟨hx, hy⟩ | h)
    · exact h.append_right l'
    · exact (List.singleton_sublist.mpr hx).append (List.singleton_sublist.mpr hy)
    · exact h.trans (List.sublist_append_right l l')

/-- What no reset has followed is still in force. -/
theorem Then.since (h : Then x y l) (hx : isReset x = false) (hkept : ∀ z, isReset z = true → ¬ Then x z l) :
    Then x y (since isReset l) := by
  obtain ⟨before, hl, hlast⟩ := @exists_before E isReset l
  have hnotMem : x ∉ before := by
    intro hmem
    rcases hlast with rfl | ⟨front, z, rfl, hz⟩
    · exact List.not_mem_nil hmem
    · rcases List.mem_append.mp hmem with hmem | hmem
      · exact hkept z hz (hl ▸ (then_concat hmem).append_right _)
      · rw [List.mem_singleton.mp hmem, hz] at hx
        cases hx
  rw [hl] at h
  rcases then_append.mp h with h | h | h
  · exact absurd h.mem.1 hnotMem
  · exact absurd h.1 hnotMem
  · exact h

/-- What a reset has followed is in force only if it has happened again. -/
theorem two_le_count [BEq E] [LawfulBEq E] (h : Then x z l) (hz : isReset z = true) (hx : x ∈ History.since isReset l) :
    2 ≤ l.count x := by
  obtain ⟨before, hl, _⟩ := @exists_before E isReset l
  have hnotMem : z ∉ History.since isReset l := by
    intro hmem
    rw [not_isReset_of_mem_since hmem] at hz
    cases hz
  have hbefore : x ∈ before := by
    rw [hl] at h
    rcases then_append.mp h with h | h | h
    · exact h.mem.1
    · exact h.1
    · exact absurd h.mem.2 hnotMem
  have hfront := List.count_pos_iff.mpr hbefore
  have hback := List.count_pos_iff.mpr hx
  rw [hl, List.count_append]
  omega

end History
