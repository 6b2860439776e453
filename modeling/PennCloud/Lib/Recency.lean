import Mathlib.Data.List.Basic

/-!
# Least recently used

Keys in the order of their last uses. Using a key puts it at the end, and leaves the order of the others
as it was, so that the first key is always the one whose last use is oldest.
-/

namespace Recency

variable {α : Type*} [DecidableEq α] {uses l l' : List α} {a b k : α}

/-- In a history that begins with the latest use, the last use of `a` comes before that of `b`. -/
def Older (uses : List α) (a b : α) : Prop := uses.idxOf b < uses.idxOf a

/-- From the least to the most recently used. -/
def Sorted (uses l : List α) : Prop := l.Pairwise (Older uses)

theorem older_cons_self (ha : a ≠ k) : Older (k :: uses) a k := by
  rw [Older, List.idxOf_cons_self, List.idxOf_cons_ne _ ha.symm]
  exact Nat.succ_pos _

theorem older_cons_of_ne (ha : a ≠ k) (hb : b ≠ k) : Older (k :: uses) a b ↔ Older uses a b := by
  rw [Older, Older, List.idxOf_cons_ne _ ha.symm, List.idxOf_cons_ne _ hb.symm]
  exact Nat.succ_lt_succ_iff

theorem older_cons_cons : Older (k :: k :: uses) a b ↔ Older (k :: uses) a b := by
  by_cases ha : a = k
  · subst ha
    rw [Older, Older, List.idxOf_cons_self, List.idxOf_cons_self]
    simp
  · by_cases hb : b = k
    · subst hb
      exact iff_of_true (older_cons_self ha) (older_cons_self ha)
    · exact older_cons_of_ne ha hb

theorem Sorted.of_twice (h : Sorted (k :: k :: uses) l) : Sorted (k :: uses) l :=
  List.Pairwise.imp (fun hab => older_cons_cons.mp hab) h

theorem Sorted.of_cons (h : Sorted uses (a :: l)) : Sorted uses l := (List.pairwise_cons.mp h).2

theorem Sorted.older (h : Sorted uses (a :: l)) (hb : b ∈ l) : Older uses a b :=
  (List.pairwise_cons.mp h).1 b hb

theorem Sorted.other (h : Sorted uses l) (hk : k ∉ l) : Sorted (k :: uses) l := by
  refine List.Pairwise.imp_of_mem (fun {a b} ha hb hab => ?_) h
  have hne : ∀ c ∈ l, c ≠ k := fun c hc heq => hk (heq ▸ hc)
  exact (older_cons_of_ne (hne a ha) (hne b hb)).mpr hab

theorem Sorted.concat (h : Sorted uses l) (hk : k ∉ l) : Sorted (k :: uses) (l ++ [k]) := by
  refine List.pairwise_append.mpr ⟨h.other hk, List.pairwise_singleton _ _, fun a ha b hb => ?_⟩
  obtain rfl := List.mem_singleton.mp hb
  exact older_cons_self fun heq => hk (heq ▸ ha)

theorem Sorted.use (h : Sorted uses (l ++ k :: l')) (hk : k ∉ l ++ l') : Sorted (k :: uses) (l ++ l' ++ [k]) := by
  have hrest : Sorted uses (l ++ l') := h.sublist (List.Sublist.append_left (List.sublist_cons_self k l') l)
  exact hrest.concat hk

end Recency
