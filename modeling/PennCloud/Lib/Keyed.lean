import Mathlib.Data.List.Basic
import Mathlib.Data.List.Infix
import Mathlib.Logic.Function.Basic

/-!
# Steps that stay with one key

A state has a value for each key, and a step reads and writes the value of its own key only. What a key has after a series of steps
depends on the steps for that key alone, in their order. Series that agree for each key lead to the same state, however the keys are
mixed.
-/

namespace Keyed

variable {K V A : Type*} (key : A → Option K) (step : (K → V) → A → K → V)

/-- A step leaves the values of the other keys alone, and what it makes of the value of its own key depends on nothing else. -/
structure Local : Prop where
  other : ∀ s a k, key a ≠ some k → step s a k = s k
  own : ∀ s t a k, key a = some k → s k = t k → step s a k = step t a k

variable [DecidableEq K]

/-- The steps for one key. -/
def only (k : K) (l : List A) : List A := l.filter fun a => key a = some k

variable {key} {step} {k : K} {a : A} {l l' : List A} {s t : K → V}

@[simp]
theorem only_nil : only key k [] = [] := rfl

theorem only_append : only key k (l ++ l') = only key k l ++ only key k l' := List.filter_append ..

theorem only_cons_of_pos (ha : key a = some k) : only key k (a :: l) = a :: only key k l :=
  List.filter_cons_of_pos (by simpa using ha)

theorem only_cons_of_neg (ha : key a ≠ some k) : only key k (a :: l) = only key k l :=
  List.filter_cons_of_neg (by simpa using ha)

theorem only_concat {k' : K} (ha : key a = some k) :
    only key k' (l ++ [a]) = if k = k' then only key k' l ++ [a] else only key k' l := by
  rw [only_append]
  split
  · next heq => rw [only_cons_of_pos (heq ▸ ha), only_nil]
  · next hne =>
      have hother : key a ≠ some k' := fun hk => hne (Option.some.inj (ha.symm.trans hk))
      rw [only_cons_of_neg hother, only_nil, List.append_nil]

theorem mem_only : a ∈ only key k l ↔ a ∈ l ∧ key a = some k := by simp [only]

theorem only_of_forall (hl : ∀ a ∈ l, key a = some k) : only key k l = l := by
  unfold only
  rw [List.filter_eq_self]
  simpa using hl

theorem only_of_forall_ne (hl : ∀ a ∈ l, key a ≠ some k) : only key k l = [] := by
  unfold only
  rw [List.filter_eq_nil_iff]
  simpa using hl

/-- What stands somewhere among the steps for one key stands behind the same ones in the series. -/
theorem exists_split {front back : List A} (h : only key k l = front ++ a :: back) :
    ∃ before after, l = before ++ a :: after ∧ only key k before = front := by
  unfold only at h ⊢
  obtain ⟨before, rest, rfl, hbefore, hrest⟩ := List.filter_eq_append_iff.mp h
  obtain ⟨skipped, after, rfl, hskipped, _, _⟩ := List.filter_eq_cons_iff.mp hrest
  refine ⟨before ++ skipped, after, (List.append_assoc ..).symm, ?_⟩
  rw [List.filter_append, hbefore, List.filter_eq_nil_iff.mpr hskipped, List.append_nil]

/-- The value of a key after a series is its value after the steps for that key. -/
theorem Local.foldl_only (h : Local key step) (hs : s k = t k) (l : List A) :
    l.foldl step s k = (only key k l).foldl step t k := by
  induction l generalizing s t with
  | nil => exact hs
  | cons a l ih =>
      by_cases ha : key a = some k
      · rw [only_cons_of_pos ha]
        apply ih
        exact h.own s t a k ha hs
      · rw [only_cons_of_neg ha]
        apply ih
        calc
          step s a k = s k := h.other s a k ha
          _ = t k := hs

/-- Series that agree for a key give it the same value. -/
theorem Local.foldl_congr (h : Local key step) (hs : s k = t k) (hl : only key k l = only key k l') :
    l.foldl step s k = l'.foldl step t k := by
  calc
    l.foldl step s k = (only key k l).foldl step s k := h.foldl_only rfl l
    _ = (only key k l').foldl step s k := by rw [hl]
    _ = l'.foldl step t k := (h.foldl_only hs.symm l').symm

/-- A series that is put together key by key has for each key what was put there. -/
theorem only_flatMap {keys : List K} {f : K → List A} (hnodup : keys.Nodup) (hf : ∀ k, ∀ a ∈ f k, key a = some k) (k : K) :
    only key k (keys.flatMap f) = if k ∈ keys then f k else [] := by
  induction keys with
  | nil => rfl
  | cons first keys ih =>
      rw [List.nodup_cons] at hnodup
      rw [List.flatMap_cons, only_append, ih hnodup.2]
      by_cases hfirst : k = first
      · subst hfirst
        rw [only_of_forall (hf k), if_neg hnodup.1, if_pos List.mem_cons_self, List.append_nil]
      · have hnone : only key k (f first) = [] := by
          apply only_of_forall_ne
          intro a ha heq
          rw [hf first a ha] at heq
          exact hfirst (Option.some.inj heq).symm
        rw [hnone, List.nil_append]
        simp [hfirst]

/-- What comes first for a key comes first in some initial part of the series. -/
theorem exists_take {front : List A} (hfront : front <+: only key k l) : ∃ n, only key k (l.take n) = front := by
  induction l generalizing front with
  | nil =>
      rw [only_nil, List.prefix_nil] at hfront
      subst hfront
      exact ⟨0, rfl⟩
  | cons a l ih =>
      by_cases ha : key a = some k
      · rw [only_cons_of_pos ha] at hfront
        cases front with
        | nil => exact ⟨0, rfl⟩
        | cons b front =>
            obtain ⟨rfl, hrest⟩ := List.cons_prefix_cons.mp hfront
            obtain ⟨n, hn⟩ := ih hrest
            use n + 1
            rw [List.take_succ_cons, only_cons_of_pos ha, hn]
      · rw [only_cons_of_neg ha] at hfront
        obtain ⟨n, hn⟩ := ih hfront
        use n + 1
        rw [List.take_succ_cons, only_cons_of_neg ha, hn]

/-! ### Keys that are kept in several places -/

section Places

variable {P : Type*} [DecidableEq P] {home : K → P} {default : V} {p : P}

/-- What of a state is kept in a place: the values of the keys that are at home there. -/
def part (home : K → P) (default : V) (s : K → V) (p : P) : K → V := fun k => if home k = p then s k else default

/-- The place where the key is at home takes the step. -/
theorem Local.step_part (h : Local key step) (ha : key a = some k) :
    step (part home default s (home k)) a = part home default (step s a) (home k) := by
  funext k'
  by_cases hk : k' = k
  · subst hk
    have hsame : part home default s (home k') k' = s k' := if_pos rfl
    calc
      step (part home default s (home k')) a k' = step s a k' := h.own _ _ a k' ha hsame
      _ = part home default (step s a) (home k') k' := (if_pos rfl).symm
  · have hne : key a ≠ some k' := by
      rw [ha]
      exact fun heq => hk (Option.some.inj heq).symm
    unfold part
    rw [h.other _ a k' hne, h.other _ a k' hne]

omit [DecidableEq K] in
/-- The other places do not notice. -/
theorem Local.part_step_of_ne (h : Local key step) (ha : key a = some k) (hne : home k ≠ p) :
    part home default (step s a) p = part home default s p := by
  funext k'
  unfold part
  split
  · next hhome =>
      apply h.other
      rw [ha]
      rintro heq
      obtain rfl := Option.some.inj heq
      exact hne hhome
  · rfl

end Places

end Keyed
