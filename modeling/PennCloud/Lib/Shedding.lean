import Mathlib.Algebra.GroupWithZero.Nat
import Mathlib.Data.List.Basic

/-!
# Making room in a queue

A queue is a list, its oldest element first. What is used moves to the end; what is dropped to make
room is dropped from the front, and no more than it takes.
-/

namespace Shedding

variable {α β : Type*} {w : α → Nat} {room : Int} {q front rest : List α} {a : α}

def touch [DecidableEq α] (q : List α) (a : α) : List α := q.erase a ++ [a]

theorem touch_append [DecidableEq α] (ha : a ∉ front) : touch (front ++ a :: rest) a = front ++ rest ++ [a] := by
  rw [touch, List.erase_append_right _ ha, List.erase_cons_head]

def weight (w : α → Nat) (q : List α) : Nat := (q.map w).sum

/-- What has to go until the rest weighs no more than `room`. -/
def shed (w : α → Nat) (room : Int) : List α → List α
  | [] => []
  | a :: q => if (weight w (a :: q) : Int) ≤ room then [] else a :: shed w room q

/-- What may stay. -/
def kept (w : α → Nat) (room : Int) : List α → List α
  | [] => []
  | a :: q => if (weight w (a :: q) : Int) ≤ room then a :: q else kept w room q

theorem weight_cons (w : α → Nat) (a : α) (q : List α) : weight w (a :: q) = w a + weight w q := rfl

theorem weight_append (w : α → Nat) (q q' : List α) : weight w (q ++ q') = weight w q + weight w q' := by
  rw [weight, List.map_append, List.sum_append, weight, weight]

theorem weight_congr {w' : α → Nat} (h : ∀ a ∈ q, w' a = w a) : weight w' q = weight w q := by
  rw [weight, weight, List.map_congr_left h]

theorem weight_map (w : β → Nat) (f : α → β) (q : List α) : weight w (q.map f) = weight (fun a => w (f a)) q := by
  rw [weight, List.map_map]
  rfl

theorem shed_append_kept (w : α → Nat) (room : Int) (q : List α) : shed w room q ++ kept w room q = q := by
  induction q with
  | nil => rfl
  | cons a q ih =>
      rw [shed, kept]
      split
      · rfl
      · rw [List.cons_append, ih]

theorem weight_kept_le (hroom : 0 ≤ room) : (weight w (kept w room q) : Int) ≤ room := by
  induction q with
  | nil => exact hroom
  | cons a q ih =>
      rw [kept]
      split
      · next hfits => exact hfits
      · exact ih

theorem shed_of_le (hfits : (weight w q : Int) ≤ room) : shed w room q = [] := by
  cases q with
  | nil => rfl
  | cons a q => exact if_pos hfits

theorem kept_of_le (hfits : (weight w q : Int) ≤ room) : kept w room q = q := by
  cases q with
  | nil => rfl
  | cons a q => exact if_pos hfits

theorem shed_of_lt (hlarge : room < (weight w (a :: q) : Int)) : shed w room (a :: q) = a :: shed w room q :=
  if_neg (Int.not_le.mpr hlarge)

theorem kept_of_lt (hlarge : room < (weight w (a :: q) : Int)) : kept w room (a :: q) = kept w room q :=
  if_neg (Int.not_le.mpr hlarge)

/-- No shorter part of the front would have made room. -/
theorem shed_shortest (hq : q = front ++ rest) (hfits : (weight w rest : Int) ≤ room) :
    (shed w room q).length ≤ front.length := by
  induction front generalizing q with
  | nil =>
      rw [List.nil_append] at hq
      exact Nat.le_of_eq (congrArg List.length (shed_of_le (hq ▸ hfits)))
  | cons a front ih =>
      rw [hq, List.cons_append, shed]
      split
      · exact Nat.zero_le _
      · exact Nat.succ_le_succ (ih rfl)

theorem shed_congr {w' : α → Nat} (h : ∀ a ∈ q, w' a = w a) : shed w' room q = shed w room q := by
  induction q with
  | nil => rfl
  | cons a q ih => rw [shed, shed, weight_congr h, ih fun b hb => h b (List.mem_cons_of_mem a hb)]

theorem kept_congr {w' : α → Nat} (h : ∀ a ∈ q, w' a = w a) : kept w' room q = kept w room q := by
  induction q with
  | nil => rfl
  | cons a q ih => rw [kept, kept, weight_congr h, ih fun b hb => h b (List.mem_cons_of_mem a hb)]

end Shedding
