import Std.Data.ExtTreeMap
import Mathlib.Data.List.Perm.Basic
import Mathlib.Data.List.Nodup
import Mathlib.Algebra.BigOperators.Group.List.Basic
import Mathlib.Algebra.GroupWithZero.Nat

/-!
# Sums over sorted maps

The entries of an extensional tree map, taken as a list, change by one element when a key is
inserted or erased, up to order. Sums over the entries follow.
-/

namespace SortedMap

open Std

variable {α β : Type*} {cmp : α → α → Ordering} [TransCmp cmp] [LawfulEqCmp cmp]
  {m : ExtTreeMap α β cmp} {k : α} {v : β}

theorem nodup_toList (m : ExtTreeMap α β cmp) : m.toList.Nodup := by
  refine (ExtTreeMap.distinct_keys_toList (t := m)).imp ?_
  rintro a b hne rfl
  exact hne ReflCmp.compare_self

theorem getElem?_erase_eq (m : ExtTreeMap α β cmp) (k k' : α) [DecidableEq α] :
    (m.erase k)[k']? = if k = k' then none else m[k']? := by
  rw [ExtTreeMap.getElem?_erase]
  simp only [LawfulEqCmp.compare_eq_iff_eq]

theorem getElem?_insert_eq (m : ExtTreeMap α β cmp) (k k' : α) (v : β) [DecidableEq α] :
    (m.insert k v)[k']? = if k = k' then some v else m[k']? := by
  rw [ExtTreeMap.getElem?_insert]
  simp only [LawfulEqCmp.compare_eq_iff_eq]

theorem toList_perm_of_getElem? (hk : m[k]? = some v) :
    m.toList.Perm ((k, v) :: (m.erase k).toList) := by
  classical
  refine (List.perm_ext_iff_of_nodup (nodup_toList m) ?_).mpr ?_
  · refine List.nodup_cons.mpr ⟨?_, nodup_toList _⟩
    rw [ExtTreeMap.mem_toList_iff_getElem?_eq_some, getElem?_erase_eq, if_pos rfl]
    exact Option.some_ne_none _ ∘ Eq.symm
  · rintro ⟨k', v'⟩
    rw [List.mem_cons, ExtTreeMap.mem_toList_iff_getElem?_eq_some,
      ExtTreeMap.mem_toList_iff_getElem?_eq_some, getElem?_erase_eq, Prod.mk.injEq]
    by_cases heq : k = k'
    · subst heq
      simp [hk, eq_comm]
    · simp [heq, Ne.symm heq]

theorem erase_insert (m : ExtTreeMap α β cmp) (k : α) (v : β) : (m.insert k v).erase k = m.erase k := by
  classical
  refine ExtTreeMap.ext_getElem? fun k' => ?_
  rw [getElem?_erase_eq, getElem?_erase_eq, getElem?_insert_eq]
  split <;> rfl

theorem insert_erase (m : ExtTreeMap α β cmp) (k : α) (v : β) : (m.erase k).insert k v = m.insert k v := by
  classical
  refine ExtTreeMap.ext_getElem? fun k' => ?_
  rw [getElem?_insert_eq, getElem?_insert_eq, getElem?_erase_eq]
  split <;> rfl

theorem erase_eq_self (hk : m[k]? = none) : m.erase k = m := by
  classical
  refine ExtTreeMap.ext_getElem? fun k' => ?_
  rw [getElem?_erase_eq]
  split
  · next heq => rw [← heq, hk]
  · rfl

theorem toList_insert_perm (m : ExtTreeMap α β cmp) (k : α) (v : β) :
    (m.insert k v).toList.Perm ((k, v) :: (m.erase k).toList) := by
  classical
  have hperm := toList_perm_of_getElem? (m := m.insert k v) (k := k) (v := v)
    (by rw [getElem?_insert_eq, if_pos rfl])
  rwa [erase_insert] at hperm

/-! ### Entry by entry -/

theorem getElem?_foldl_erase {γ : Type*} [DecidableEq α] (f : γ → α) (l : List γ) (m : ExtTreeMap α β cmp) (k : α) :
    (l.foldl (fun m e => m.erase (f e)) m)[k]? = if k ∈ l.map f then none else m[k]? := by
  induction l generalizing m with
  | nil => simp
  | cons e l ih =>
      rw [List.foldl_cons, ih, getElem?_erase_eq]
      by_cases heq : k = f e
      · simp [heq]
      · have hmem : k ∈ (e :: l).map f ↔ k ∈ l.map f := by simp [heq]
        rw [if_neg (Ne.symm heq)]
        exact if_congr hmem.symm rfl rfl

theorem foldl_erase_toList (m : ExtTreeMap α β cmp) : m.toList.foldl (fun m e => m.erase e.1) m = ∅ := by
  classical
  refine ExtTreeMap.ext_getElem? fun k => ?_
  rw [getElem?_foldl_erase Prod.fst, ExtTreeMap.getElem?_empty]
  split
  · rfl
  · next hnotMem =>
      cases hk : m[k]? with
      | none => rfl
      | some v => exact absurd (List.mem_map.mpr ⟨(k, v), ExtTreeMap.mem_toList_iff_getElem?_eq_some.mpr hk, rfl⟩) hnotMem

theorem getElem?_foldl_insert [DecidableEq α] {l : List (α × β)} {m' : ExtTreeMap α β cmp}
    (hl : ∀ e ∈ l, m'[e.1]? = some e.2) (m : ExtTreeMap α β cmp) (k : α) :
    (l.foldl (fun m e => m.insert e.1 e.2) m)[k]? = if k ∈ l.map Prod.fst then m'[k]? else m[k]? := by
  induction l generalizing m with
  | nil => simp
  | cons e l ih =>
      rw [List.foldl_cons, ih fun e he => hl e (List.mem_cons_of_mem _ he), getElem?_insert_eq]
      by_cases heq : k = e.1
      · simp [heq, hl e List.mem_cons_self]
      · have hmem : k ∈ (e :: l).map Prod.fst ↔ k ∈ l.map Prod.fst := by simp [heq]
        rw [if_neg (Ne.symm heq)]
        exact if_congr hmem.symm rfl rfl

theorem foldl_insert_toList (m : ExtTreeMap α β cmp) :
    m.toList.foldl (fun m e => m.insert e.1 e.2) (∅ : ExtTreeMap α β cmp) = m := by
  classical
  refine ExtTreeMap.ext_getElem? fun k => ?_
  rw [getElem?_foldl_insert fun e he => ExtTreeMap.mem_toList_iff_getElem?_eq_some.mp he]
  split
  · rfl
  · next hnotMem =>
      cases hk : m[k]? with
      | none => exact ExtTreeMap.getElem?_empty
      | some v => exact absurd (List.mem_map.mpr ⟨(k, v), ExtTreeMap.mem_toList_iff_getElem?_eq_some.mpr hk, rfl⟩) hnotMem

/-! ### Lists under the keys -/

section Extend

variable {γ : Type*} {m : ExtTreeMap α (List γ) cmp}

/-- An entry whose list goes behind the one its key already has. -/
def extend (m : ExtTreeMap α (List γ) cmp) (e : α × List γ) : ExtTreeMap α (List γ) cmp :=
  m.insert e.1 (m.getD e.1 [] ++ e.2)

omit [LawfulEqCmp cmp] in
theorem extend_of_none {e : α × List γ} (hnone : m[e.1]? = none) : extend m e = m.insert e.1 e.2 := by
  rw [extend, ExtTreeMap.getD_eq_getD_getElem?, hnone, Option.getD_none, List.nil_append]

theorem extend_extend (m : ExtTreeMap α (List γ) cmp) (k : α) (l l' : List γ) :
    extend (extend m (k, l)) (k, l') = extend m (k, l ++ l') := by
  classical
  refine ExtTreeMap.ext_getElem? fun k' => ?_
  rw [extend, extend, extend, getElem?_insert_eq, getElem?_insert_eq, getElem?_insert_eq,
    ExtTreeMap.getD_eq_getD_getElem?, getElem?_insert_eq, if_pos rfl, Option.getD_some, List.append_assoc]
  split <;> rfl

theorem foldl_extend_eq {l : List (α × List γ)} (hnodup : (l.map Prod.fst).Nodup) (hnew : ∀ e ∈ l, m[e.1]? = none) :
    l.foldl extend m = l.foldl (fun m e => m.insert e.1 e.2) m := by
  classical
  induction l generalizing m with
  | nil => rfl
  | cons e l ih =>
      rw [List.map_cons, List.nodup_cons] at hnodup
      rw [List.foldl_cons, List.foldl_cons, extend_of_none (hnew e List.mem_cons_self), ih hnodup.2]
      intro e' he'
      rw [getElem?_insert_eq, if_neg, hnew e' (List.mem_cons_of_mem _ he')]
      exact fun heq => hnodup.1 (heq ▸ List.mem_map_of_mem (f := Prod.fst) he')

theorem foldl_extend_toList (m : ExtTreeMap α (List γ) cmp) : m.toList.foldl extend ∅ = m := by
  have hnodup : (m.toList.map Prod.fst).Nodup := by
    rw [ExtTreeMap.map_fst_toList_eq_keys]
    exact ExtTreeMap.nodup_keys
  rw [foldl_extend_eq hnodup fun e _ => ExtTreeMap.getElem?_empty, foldl_insert_toList]

end Extend

/-! ### Sums -/

/-- The sum of a number attached to each entry. -/
def sum (f : α → β → Nat) (m : ExtTreeMap α β cmp) : Nat :=
  (m.toList.map fun e => f e.1 e.2).sum

variable {f : α → β → Nat}

theorem sum_of_getElem? (hk : m[k]? = some v) : sum f m = f k v + sum f (m.erase k) := by
  rw [sum, ((toList_perm_of_getElem? hk).map _).sum_eq, List.map_cons, List.sum_cons, sum]

theorem sum_insert (m : ExtTreeMap α β cmp) (k : α) (v : β) :
    sum f (m.insert k v) = f k v + sum f (m.erase k) := by
  rw [sum, ((toList_insert_perm m k v).map _).sum_eq, List.map_cons, List.sum_cons, sum]

theorem sum_insert_of_none (hk : m[k]? = none) : sum f (m.insert k v) = f k v + sum f m := by
  rw [sum_insert, erase_eq_self hk]

theorem sum_congr {g : α → β → Nat} (hfg : ∀ k v, m[k]? = some v → f k v = g k v) : sum f m = sum g m := by
  rw [sum, sum]
  refine congrArg List.sum (List.map_congr_left fun e he => hfg e.1 e.2 ?_)
  exact ExtTreeMap.mem_toList_iff_getElem?_eq_some.mp he

omit [LawfulEqCmp cmp] in
theorem sum_eq_keys (g : α → Nat) (m : ExtTreeMap α β cmp) : sum (fun k _ => g k) m = (m.keys.map g).sum := by
  rw [sum, ← ExtTreeMap.map_fst_toList_eq_keys, List.map_map]
  rfl

theorem sum_keys_congr {γ : Type*} {m' : ExtTreeMap α γ cmp} (g : α → Nat) (hkeys : ∀ k, k ∈ m ↔ k ∈ m') :
    sum (fun k _ => g k) m = sum (fun k _ => g k) m' := by
  have hperm : m.keys.Perm m'.keys := by
    refine (List.perm_ext_iff_of_nodup ExtTreeMap.nodup_keys ExtTreeMap.nodup_keys).mpr fun k => ?_
    rw [ExtTreeMap.mem_keys, ExtTreeMap.mem_keys, hkeys]
  rw [sum_eq_keys, sum_eq_keys, (hperm.map g).sum_eq]

omit [LawfulEqCmp cmp] in
@[simp]
theorem sum_empty : sum f (∅ : ExtTreeMap α β cmp) = 0 := by
  have hnil : (∅ : ExtTreeMap α β cmp).toList = [] := by simp
  rw [sum, hnil]
  rfl

theorem le_sum (hk : m[k]? = some v) : f k v ≤ sum f m := by
  rw [sum_of_getElem? hk]
  exact Nat.le_add_right _ _

end SortedMap
