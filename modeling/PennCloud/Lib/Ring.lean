import Mathlib.Order.Bounds.Basic

/-!
# Owners on a ring

The nodes of a ring are points of a linear order read as a circle: a key belongs to the first node
after it, and past the last node to the first one of all. A node that joins takes keys from one other
node only.
-/

namespace Ring

variable {α : Type*} [LinearOrder α] {nodes : Set α} {owner owner' dest key id : α}

/-- `owner` is the first node after `key`. -/
def Owns (nodes : Set α) (owner key : α) : Prop :=
  IsLeast {n ∈ nodes | key < n} owner ∨ {n ∈ nodes | key < n} = ∅ ∧ IsLeast nodes owner

theorem Owns.mem (howns : Owns nodes owner key) : owner ∈ nodes := by
  rcases howns with hleast | ⟨_, hleast⟩
  · exact hleast.1.1
  · exact hleast.1

theorem Owns.unique (howns : Owns nodes owner key) (howns' : Owns nodes owner' key) :
    owner = owner' := by
  rcases howns with hleast | ⟨hnone, hleast⟩ <;> rcases howns' with hleast' | ⟨hnone', hleast'⟩
  · exact hleast.unique hleast'
  · exact absurd hleast.1 (hnone' ▸ Set.notMem_empty _)
  · exact absurd hleast'.1 (hnone ▸ Set.notMem_empty _)
  · exact hleast.unique hleast'

theorem Owns.congr {key' : α} (hle : key ≤ key') (hfree : ∀ n ∈ nodes, ¬ (key < n ∧ n ≤ key')) :
    Owns nodes owner key ↔ Owns nodes owner key' := by
  have hsame : {n ∈ nodes | key < n} = {n ∈ nodes | key' < n} := by
    ext n
    refine and_congr_right fun hn => ⟨fun hlt => ?_, hle.trans_lt⟩
    exact not_le.mp fun hle' => hfree n hn ⟨hlt, hle'⟩
  rw [Owns, hsame, Owns]

theorem Owns.of_below (howns : Owns nodes owner key) (hbelow : ∀ n ∈ nodes, key < n) :
    IsLeast nodes owner := by
  rcases howns with hleast | ⟨_, hleast⟩
  · exact ⟨hleast.1.1, fun n hn => hleast.2 ⟨hn, hbelow n hn⟩⟩
  · exact hleast

theorem Owns.of_above (howns : Owns nodes owner key) (habove : ∀ n ∈ nodes, n ≤ key) :
    IsLeast nodes owner := by
  rcases howns with hleast | ⟨_, hleast⟩
  · exact absurd hleast.1.2 (habove _ hleast.1.1).not_gt
  · exact hleast

/-! ### A node joins -/

/-- The keys that come to a new node: those between the node before it and itself, where the node
before the first one is the last. -/
theorem owns_insert_self_iff (hnew : id ∉ nodes) (hne : nodes.Nonempty) :
    Owns (insert id nodes) id key ↔
      (key < id ∧ ∀ n ∈ nodes, ¬ (key < n ∧ n < id)) ∨ ∀ n ∈ nodes, id < n ∧ n ≤ key := by
  constructor
  · rintro (hleast | ⟨hnone, hleast⟩)
    · refine Or.inl ⟨hleast.1.2, fun n hn hbetween => ?_⟩
      exact (hleast.2 ⟨Set.mem_insert_of_mem _ hn, hbetween.1⟩).not_gt hbetween.2
    · refine Or.inr fun n hn => ⟨?_, ?_⟩
      · refine lt_of_le_of_ne (hleast.2 (Set.mem_insert_of_mem _ hn)) ?_
        rintro rfl
        exact hnew hn
      · by_contra hlt
        have hmem : n ∈ {n ∈ insert id nodes | key < n} :=
          ⟨Set.mem_insert_of_mem _ hn, not_le.mp hlt⟩
        exact absurd hmem (hnone ▸ Set.notMem_empty _)
  · rintro (⟨hlt, hfree⟩ | hall)
    · refine Or.inl ⟨⟨Set.mem_insert _ _, hlt⟩, ?_⟩
      rintro n ⟨rfl | hn, hkey⟩
      · exact le_rfl
      · exact not_lt.mp fun hlow => hfree n hn ⟨hkey, hlow⟩
    · obtain ⟨first, hfirst⟩ := hne
      have hbelow : id ≤ key := (hall first hfirst).1.le.trans (hall first hfirst).2
      refine Or.inr ⟨Set.eq_empty_of_forall_notMem ?_, Set.mem_insert _ _, ?_⟩
      · rintro n ⟨rfl | hn, hkey⟩
        · exact hbelow.not_gt hkey
        · exact (hall n hn).2.not_gt hkey
      · rintro n (rfl | hn)
        · exact le_rfl
        · exact (hall n hn).1.le

/-- The keys below `id` among those of the owner of `id`: the ones between the node before `id` and
`id`, and all keys below the first node when `id` is above the last one. -/
theorem owns_and_lt_iff (hnew : id ∉ nodes) (hdest : Owns nodes dest id) :
    Owns nodes dest key ∧ key < id ↔
      (key < id ∧ ∀ n ∈ nodes, ¬ (key < n ∧ n < id)) ∨ ∀ n ∈ nodes, key < n ∧ n < id := by
  have hlt_of_le : ∀ n ∈ nodes, n ≤ id → n < id := by
    intro n hn hle
    refine lt_of_le_of_ne hle ?_
    rintro rfl
    exact hnew hn
  constructor
  · rintro ⟨howns, hlt⟩
    by_cases hfree : ∀ n ∈ nodes, ¬ (key < n ∧ n < id)
    · exact Or.inl ⟨hlt, hfree⟩
    refine Or.inr ?_
    push Not at hfree
    obtain ⟨n, hn, hkey, hid⟩ := hfree
    have hle : dest ≤ n := by
      rcases howns with hleast | ⟨_, hleast⟩
      · exact hleast.2 ⟨hn, hkey⟩
      · exact hleast.2 hn
    rcases hdest with hleast | ⟨hnone, hleast⟩
    · exact absurd (hleast.1.2.trans_le hle) hid.not_gt
    have habove : ∀ n ∈ nodes, n < id := by
      intro n hn
      refine hlt_of_le n hn (not_lt.mp fun hgt => ?_)
      have hmem : n ∈ {n ∈ nodes | id < n} := ⟨hn, hgt⟩
      exact absurd hmem (hnone ▸ Set.notMem_empty _)
    refine fun n' hn' => ⟨?_, habove n' hn'⟩
    rcases howns with hsucc | ⟨hnone', _⟩
    · exact hsucc.1.2.trans_le (hleast.2 hn')
    · have hmem : n ∈ {n ∈ nodes | key < n} := ⟨hn, hkey⟩
      exact absurd hmem (hnone' ▸ Set.notMem_empty _)
  · rintro (⟨hlt, hfree⟩ | hall)
    · refine ⟨(Owns.congr hlt.le fun n hn hbetween => ?_).mpr hdest, hlt⟩
      exact hfree n hn ⟨hbetween.1, hlt_of_le n hn hbetween.2⟩
    · have hleast := hdest.of_above fun n hn => (hall n hn).2.le
      refine ⟨Or.inl ⟨⟨hleast.1, (hall dest hleast.1).1⟩, fun n hn => hleast.2 hn.1⟩, ?_⟩
      exact (hall dest hleast.1).1.trans (hall dest hleast.1).2

/-- What a new node takes it takes from the owner of its own position. -/
theorem Owns.of_insert_self (hnew : id ∉ nodes) (hdest : Owns nodes dest id)
    (hmoved : Owns (insert id nodes) id key) : Owns nodes dest key := by
  rcases (owns_insert_self_iff hnew ⟨dest, hdest.mem⟩).mp hmoved with hbetween | hall
  · exact ((owns_and_lt_iff hnew hdest).mpr (Or.inl hbetween)).1
  · have hleast := hdest.of_below fun n hn => (hall n hn).1
    refine Or.inr ⟨Set.eq_empty_of_forall_notMem ?_, hleast⟩
    rintro n ⟨hn, hkey⟩
    exact (hall n hn).2.not_gt hkey

theorem Owns.of_insert (howns : Owns (insert id nodes) owner key) (hne : owner ≠ id) :
    Owns nodes owner key := by
  rcases howns with hleast | ⟨hnone, hleast⟩
  · have hmem : owner ∈ nodes := hleast.1.1.resolve_left hne
    exact Or.inl ⟨⟨hmem, hleast.1.2⟩, fun n hn => hleast.2 ⟨Set.mem_insert_of_mem _ hn.1, hn.2⟩⟩
  · have hmem : owner ∈ nodes := hleast.1.resolve_left hne
    refine Or.inr ⟨Set.eq_empty_of_forall_notMem ?_, hmem, fun n hn => hleast.2 (Or.inr hn)⟩
    rintro n ⟨hn, hkey⟩
    have hmem' : n ∈ {n ∈ insert id nodes | key < n} := ⟨Set.mem_insert_of_mem _ hn, hkey⟩
    exact absurd hmem' (hnone ▸ Set.notMem_empty _)

end Ring
