import Mathlib.Data.List.Infix

/-!
# Searching a list in a list

The first place at which a pattern stands, from a position on, and what it means to stand first.
-/

namespace Search

variable {α : Type*} [DecidableEq α] {pattern s front rest : List α} {pos p : Nat} {a : α}

/-- The first place of a pattern from a position on. -/
def find (pattern s : List α) (pos : Nat) : Option Nat :=
  (List.range (s.length + 1)).find? fun p => pos ≤ p && pattern.isPrefixOf (s.drop p)

theorem find_eq_some : find pattern s pos = some p ↔
    (pos ≤ p ∧ p ≤ s.length ∧ pattern <+: s.drop p) ∧ ∀ q, pos ≤ q → q < p → ¬ pattern <+: s.drop q := by
  rw [find, List.find?_range_eq_some]
  simp only [Bool.and_eq_true, decide_eq_true_eq, List.isPrefixOf_iff_prefix, List.mem_range, Nat.lt_succ_iff, Bool.not_eq_true',
    Bool.and_eq_false_iff, decide_eq_false_iff_not]
  constructor
  · rintro ⟨⟨hpos, hstarts⟩, hle, hfirst⟩
    refine ⟨⟨hpos, hle, hstarts⟩, fun q hq hlt hstarts' => ?_⟩
    rcases hfirst q hlt with hnot | hnot
    · exact hnot hq
    · rw [List.isPrefixOf_iff_prefix.mpr hstarts'] at hnot
      cases hnot
  · rintro ⟨⟨hpos, hle, hstarts⟩, hfirst⟩
    refine ⟨⟨hpos, hstarts⟩, hle, fun q hlt => ?_⟩
    by_cases hq : pos ≤ q
    · exact Or.inr (eq_false_of_ne_true fun heq => hfirst q hq hlt (List.isPrefixOf_iff_prefix.mp heq))
    · exact Or.inl hq

theorem find_eq_none : find pattern s pos = none ↔ ∀ p, pos ≤ p → p ≤ s.length → ¬ pattern <+: s.drop p := by
  rw [find, List.find?_eq_none]
  simp only [List.mem_range, Nat.lt_succ_iff, Bool.and_eq_true, decide_eq_true_eq, List.isPrefixOf_iff_prefix, not_and]
  exact ⟨fun h p hpos hle => h p hle hpos, fun h p hle hpos => h p hpos hle⟩

theorem find_append (pattern front rest : List α) :
    find pattern (front ++ rest) front.length = (find pattern rest 0).map (front.length + ·) := by
  cases hfind : find pattern rest 0 with
  | none =>
      rw [find_eq_none] at hfind
      refine find_eq_none.mpr fun p hpos hle hstarts => hfind (p - front.length) (Nat.zero_le _) ?_ ?_
      · rw [List.length_append] at hle
        omega
      · rwa [List.drop_append, List.drop_eq_nil_of_le hpos, List.nil_append] at hstarts
  | some p =>
      obtain ⟨⟨_, hle, hstarts⟩, hfirst⟩ := find_eq_some.mp hfind
      refine find_eq_some.mpr ⟨⟨Nat.le_add_right _ _, ?_, ?_⟩, fun q hq (hlt : q < front.length + p) hstarts' => ?_⟩
      · rw [List.length_append]
        exact Nat.add_le_add_left hle _
      · rwa [← List.drop_drop, List.drop_left]
      · rw [List.drop_append, List.drop_eq_nil_of_le hq, List.nil_append] at hstarts'
        exact hfirst (q - front.length) (Nat.zero_le _) (by omega) hstarts'

theorem find_of_notMem (hs : a ∉ s.drop pos) : find [a] s pos = none := by
  refine find_eq_none.mpr fun p hpos _ hstarts => hs ?_
  exact List.drop_subset_drop_left s hpos (hstarts.subset List.mem_cons_self)

theorem find_cons (hpos : pos ≤ front.length) (hfront : a ∉ front.drop pos) (rest : List α) :
    find [a] (front ++ a :: rest) pos = some front.length := by
  refine find_eq_some.mpr ⟨⟨hpos, ?_, ?_⟩, fun q hq hlt hstarts => hfront ?_⟩
  · rw [List.length_append]
    exact Nat.le_add_right _ _
  · rw [List.drop_left]
    exact List.prefix_append [a] rest
  · rw [List.drop_append_of_le_length hlt.le] at hstarts
    have hne : front.drop q ≠ [] := fun heq => absurd (List.drop_eq_nil_iff.mp heq) (by omega)
    have hmem : a ∈ front.drop q := by
      cases hdrop : front.drop q with
      | nil => exact absurd hdrop hne
      | cons b back =>
          rw [hdrop, List.cons_append] at hstarts
          exact (List.cons_prefix_cons.mp hstarts).1 ▸ List.mem_cons_self
    exact List.drop_subset_drop_left front hq hmem

/-! ### Standing first -/

/-- The pattern stands behind `front`, and nowhere before. -/
def First (pattern s front rest : List α) : Prop :=
  s = front ++ (pattern ++ rest) ∧ ∀ front' rest', s = front' ++ (pattern ++ rest') → front.length ≤ front'.length

theorem find_eq_none_iff_infix : find pattern s 0 = none ↔ ¬ pattern <:+: s := by
  rw [find_eq_none]
  constructor
  · rintro h ⟨front, rest, rfl⟩
    refine h front.length (Nat.zero_le _) ?_ ?_
    · rw [List.append_assoc, List.length_append]
      omega
    · rw [List.append_assoc, List.drop_left]
      exact List.prefix_append _ _
  · intro h p _ _ hstarts
    exact h (hstarts.isInfix.trans (List.drop_suffix p s).isInfix)

theorem find_eq_some_iff_first : find pattern s 0 = some p ↔ ∃ front rest, front.length = p ∧ First pattern s front rest := by
  rw [find_eq_some]
  constructor
  · rintro ⟨⟨_, hle, rest, hrest⟩, hfirst⟩
    have hlength : (s.take p).length = p := List.length_take_of_le hle
    refine ⟨s.take p, rest, hlength, by rw [hrest, List.take_append_drop], fun front' rest' heq => ?_⟩
    by_contra hlt
    refine hfirst front'.length (Nat.zero_le _) (by omega) ⟨rest', ?_⟩
    rw [heq, List.drop_left]
  · rintro ⟨front, rest, rfl, rfl, hfirst⟩
    refine ⟨⟨Nat.zero_le _, ?_, rest, List.drop_left.symm⟩, fun q _ hlt hstarts => ?_⟩
    · rw [List.length_append]
      exact Nat.le_add_right _ _
    · obtain ⟨rest', hrest'⟩ := hstarts
      have hle := hfirst ((front ++ (pattern ++ rest)).take q) rest' (by rw [hrest', List.take_append_drop])
      have htake := List.length_take_le q (front ++ (pattern ++ rest))
      omega

end Search
