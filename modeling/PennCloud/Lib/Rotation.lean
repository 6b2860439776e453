import Mathlib.Data.List.Rotate
import Mathlib.Data.List.TakeWhile

/-!
# Going round a list

A cursor goes round the elements of a list and stops at the first with a property. What it has passed moves behind
the rest, so that as many stops as there are such elements come to each of them once.
-/

namespace Rotation

variable {α : Type*} {p : α → Bool} {l front back : List α} {a : α} {n : Nat}

/-- The first element with the property, and the list that begins behind it. -/
def stop (p : α → Bool) (l : List α) : Option (α × List α) :=
  match l.dropWhile (!p ·) with
  | [] => none
  | a :: back => some (a, back ++ l.takeWhile (!p ·) ++ [a])

/-- The elements of the first `n` stops. -/
def stops (p : α → Bool) : Nat → List α → List α
  | 0, _ => []
  | n + 1, l =>
      match stop p l with
      | none => []
      | some (a, l) => a :: stops p n l

theorem stop_append (hfront : ∀ b ∈ front, p b = false) (ha : p a = true) :
    stop p (front ++ a :: back) = some (a, back ++ front ++ [a]) := by
  have hpass : ∀ b ∈ front, (!p b) = true := fun b hb => by rw [hfront b hb]; rfl
  rw [stop, List.dropWhile_append_of_pos hpass, List.takeWhile_append_of_pos hpass]
  simp [ha]

theorem stop_of_none (hnone : ∀ a ∈ l, p a = false) : stop p l = none := by
  have hdrop : l.dropWhile (!p ·) = [] := by
    rw [List.dropWhile_eq_nil_iff]
    exact fun a ha => by rw [hnone a ha]; rfl
  rw [stop, hdrop]

theorem exists_split (hsome : ∃ a ∈ l, p a = true) :
    ∃ front a back, l = front ++ a :: back ∧ (∀ b ∈ front, p b = false) ∧ p a = true := by
  induction l with
  | nil =>
      obtain ⟨a, hmem, _⟩ := hsome
      exact absurd hmem List.not_mem_nil
  | cons b l ih =>
      cases hb : p b with
      | true => exact ⟨[], b, l, rfl, fun _ hmem => absurd hmem List.not_mem_nil, hb⟩
      | false =>
          obtain ⟨a, hmem, ha⟩ := hsome
          rcases List.mem_cons.mp hmem with rfl | hmem
          · rw [hb] at ha
            cases ha
          · obtain ⟨front, a, back, rfl, hfront, ha⟩ := ih ⟨a, hmem, ha⟩
            refine ⟨b :: front, a, back, rfl, fun c hc => ?_, ha⟩
            rcases List.mem_cons.mp hc with rfl | hc
            · exact hb
            · exact hfront c hc

theorem stop_eq_none : stop p l = none ↔ ∀ a ∈ l, p a = false := by
  constructor
  · intro hstop a ha
    by_contra hp
    obtain ⟨front, b, back, rfl, hfront, hb⟩ := exists_split ⟨a, ha, eq_true_of_ne_false hp⟩
    rw [stop_append hfront hb] at hstop
    cases hstop
  · exact stop_of_none

theorem stop_eq_some {l' : List α} (hstop : stop p l = some (a, l')) :
    ∃ front back, l = front ++ a :: back ∧ (∀ b ∈ front, p b = false) ∧ p a = true ∧ l' = back ++ front ++ [a] := by
  have hsome : ∃ b ∈ l, p b = true := by
    by_contra hnone
    rw [stop_of_none fun b hb => eq_false_of_ne_true fun hp => hnone ⟨b, hb, hp⟩] at hstop
    cases hstop
  obtain ⟨front, b, back, rfl, hfront, hb⟩ := exists_split hsome
  rw [stop_append hfront hb] at hstop
  obtain ⟨rfl, rfl⟩ := Prod.mk.inj (Option.some.inj hstop)
  exact ⟨front, back, rfl, hfront, hb, rfl⟩

theorem stop_congr {q : α → Bool} (h : ∀ a ∈ l, p a = q a) : stop p l = stop q l := by
  cases hstop : stop p l with
  | none =>
      rw [stop_of_none]
      exact fun a ha => (h a ha).symm.trans (stop_eq_none.mp hstop a ha)
  | some found =>
      obtain ⟨front, back, rfl, hfront, ha, hnext⟩ := stop_eq_some hstop
      rw [stop_append, ← hnext]
      · intro b hb
        rw [← h b (List.mem_append_left _ hb), hfront b hb]
      · rw [← h found.1 (List.mem_append_right _ List.mem_cons_self), ha]

/-- An element with the property that the cursor does not stop at gets closer to it. -/
theorem idxOf_stop_lt [DecidableEq α] {b : α} {l' : List α} (ha : a ∈ l) (hp : p a = true) (hstop : stop p l = some (b, l'))
    (hne : a ≠ b) : l'.idxOf a < l.idxOf a := by
  obtain ⟨front, back, rfl, hfront, _, rfl⟩ := stop_eq_some hstop
  have hpassed : a ∉ front := by
    intro hmem
    rw [hfront a hmem] at hp
    cases hp
  have hback : a ∈ back := by
    rcases List.mem_append.mp ha with hmem | hmem
    · exact absurd hmem hpassed
    · exact (List.mem_cons.mp hmem).resolve_left hne
  calc (back ++ front ++ [b]).idxOf a = back.idxOf a := by
        rw [List.append_assoc, List.idxOf_append_of_mem hback]
    _ < front.length + (back.idxOf a + 1) := by omega
    _ = (front ++ b :: back).idxOf a := by
        rw [List.idxOf_append_of_notMem hpassed, List.idxOf_cons_ne back hne.symm]

theorem stops_eq_take (hn : n ≤ (l.filter p).length) : stops p n l = (l.filter p).take n := by
  induction n generalizing l with
  | zero => rw [stops, List.take_zero]
  | succ n ih =>
      have hsome : ∃ a ∈ l, p a = true := by
        obtain ⟨a, ha⟩ := List.exists_mem_of_length_pos (by omega : 0 < (l.filter p).length)
        exact ⟨a, (List.mem_filter.mp ha).1, (List.mem_filter.mp ha).2⟩
      obtain ⟨front, a, back, rfl, hfront, ha⟩ := exists_split hsome
      have hpassed : front.filter p = [] := by
        rw [List.filter_eq_nil_iff]
        exact fun b hb => by rw [hfront b hb]; exact Bool.false_ne_true
      have hfilter : (front ++ a :: back).filter p = a :: back.filter p := by
        rw [List.filter_append, hpassed, List.nil_append, List.filter_cons_of_pos ha]
      have hnext : (back ++ front ++ [a]).filter p = back.filter p ++ [a] := by
        rw [List.filter_append, List.filter_append, hpassed, List.append_nil, List.filter_cons_of_pos ha, List.filter_nil]
      rw [hfilter, List.length_cons] at hn
      have hrest := ih (l := back ++ front ++ [a]) (by rw [hnext, List.length_append]; omega)
      rw [hnext, List.take_append_of_le_length (by omega)] at hrest
      rw [stops, stop_append hfront ha, hfilter, List.take_succ_cons, ← hrest]

end Rotation
