import Mathlib.Data.List.Basic

/-!
# Numbered messages that wait to be acknowledged

A sender numbers its messages from one on, keeps each until it is acknowledged and may send what is left
again. Acknowledgements come in any order and more than once.
-/

namespace Outbox

variable {μ : Type*} (number : μ → Int)

/-- The numbers are one, two, three and so on. -/
def Numbered (sent : List μ) : Prop := sent.map number = (List.range sent.length).map fun i : Nat => (i : Int) + 1

/-- The messages that have not been acknowledged. -/
def waiting (sent : List μ) (acked : List Int) : List μ := sent.filter fun m => number m ∉ acked

variable {number} {sent : List μ} {acked : List Int} {m : μ} {n : Int}

theorem numbered_nil : Numbered number ([] : List μ) := rfl

theorem Numbered.concat (h : Numbered number sent) (hm : number m = sent.length + 1) :
    Numbered number (sent ++ [m]) := by
  rw [Numbered, List.map_append, h, List.length_append, List.length_singleton, List.range_succ, List.map_append,
    List.map_singleton, List.map_singleton, hm]

theorem Numbered.increasing (h : Numbered number sent) : sent.Pairwise (number · < number ·) := by
  rw [← List.pairwise_map, h, List.pairwise_map]
  exact List.pairwise_lt_range.imp fun hlt => by omega

theorem Numbered.mem_iff (h : Numbered number sent) :
    (∃ m ∈ sent, number m = n) ↔ 1 ≤ n ∧ n ≤ sent.length := by
  rw [← List.mem_map, h, List.mem_map]
  constructor
  · rintro ⟨i, hi, rfl⟩
    rw [List.mem_range] at hi
    omega
  · rintro ⟨hlow, hhigh⟩
    exact ⟨(n - 1).toNat, List.mem_range.mpr (by omega), by omega⟩

theorem waiting_nil : waiting number ([] : List μ) acked = [] := rfl

theorem waiting_concat (hm : number m ∉ acked) : waiting number (sent ++ [m]) acked = waiting number sent acked ++ [m] := by
  rw [waiting, List.filter_append, List.filter_cons_of_pos (by simpa using hm), List.filter_nil, waiting]

theorem waiting_ack : waiting number sent (acked ++ [n]) = (waiting number sent acked).filter fun m => number m ≠ n := by
  rw [waiting, waiting, List.filter_filter]
  refine List.filter_congr fun m _ => ?_
  simp [and_comm]

theorem Numbered.increasing_waiting (h : Numbered number sent) :
    (waiting number sent acked).Pairwise (number · < number ·) :=
  h.increasing.sublist List.filter_sublist

end Outbox
