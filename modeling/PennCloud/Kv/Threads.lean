import PennCloud.Kv.Process
import PennCloud.Lib.Run

/-!
# The threads of connections

The loop of `worker` of `kvstore.cc` around its rounds. Other threads run between two rounds, so that each round has a node of its
own. A `recv` that returns 0 ends no round: once the peer has closed, the loop goes on as it is. So does the loop of `migrate_worker`,
which takes over the files of users from another node.
-/

namespace PennCloud.Chunkserver

/-- What a `recv` returns, with the node as it then is and the depth that its handler may recurse to. -/
structure Arrival where
  chunk : Str
  received : chunk ≠ []
  node : Chunkserver
  fuel : Nat

variable (commFd : Int)

/-- A round that sets `isQuit`. The greeting of the secondary goes on before the test. -/
def Arrival.Quits (a : Arrival) : Prop :=
  cstr a.chunk ≠ "S\r\n".toList ∧ (commFd ≠ a.node.secondaryFd ∨ parseCommand (cstr a.chunk) = .ok "quit".toList)

instance (a : Arrival) : Decidable (a.Quits commFd) := inferInstanceAs (Decidable (_ ∧ _))

/-- What stands behind the loop, for `active_threads` and `thread_counter` as they then are. -/
def workerEnd (activeThreads : List Int) (threadCounter : Int) : Except Fault (List Int × Int) := do
  let activeThreads ← activeThreadManager commFd activeThreads
  .ok (activeThreads, threadCounter - 1)

/-- `worker` for as many rounds, over what is received before the peer closes. -/
def workerLoop (activeThreads : List Int) (threadCounter : Int) : Nat → List Arrival → Except Fault (List Int × Int)
  | 0, _ => .error .outOfFuel
  | n + 1, [] => workerLoop activeThreads threadCounter n []
  | n + 1, a :: arrivals => do
      let _ ← a.node.worker a.fuel commFd a.chunk
      if a.Quits commFd then workerEnd commFd activeThreads threadCounter
      else workerLoop activeThreads threadCounter n arrivals

/-! ### The thread of a migration -/

variable {commFd} {activeThreads : List Int} {threadCounter : Int} {a : Arrival} {arrivals : List Arrival}

/-- The handler of a round returns. -/
def Arrival.Returns (commFd : Int) (a : Arrival) : Prop := ∃ t, a.node.worker a.fuel commFd a.chunk = .ok t

/-- Once the peer has closed there is no way out. -/
theorem workerLoop_closed (commFd : Int) (activeThreads : List Int) (threadCounter : Int) (n : Nat) :
    workerLoop commFd activeThreads threadCounter n [] = .error .outOfFuel := by
  induction n with
  | zero => rfl
  | succ n ih => rw [workerLoop, ih]

theorem workerLoop_quits (hquits : a.Quits commFd) (hreturns : a.Returns commFd) (n : Nat) :
    workerLoop commFd activeThreads threadCounter (n + 1) (a :: arrivals) = workerEnd commFd activeThreads threadCounter := by
  obtain ⟨t, ht⟩ := hreturns
  rw [workerLoop, ht, Run.ok_bind, if_pos hquits]

theorem workerLoop_goes_on (hquits : ¬ a.Quits commFd) (hreturns : a.Returns commFd) (n : Nat) :
    workerLoop commFd activeThreads threadCounter (n + 1) (a :: arrivals) =
      workerLoop commFd activeThreads threadCounter n arrivals := by
  obtain ⟨t, ht⟩ := hreturns
  rw [workerLoop, ht, Run.ok_bind, if_neg hquits]

/-- A handler that does not return keeps the loop. -/
theorem Arrival.returns_of_workerLoop {n : Nat} {behind : List Int × Int}
    (hrun : workerLoop commFd activeThreads threadCounter (n + 1) (a :: arrivals) = .ok behind) : a.Returns commFd := by
  rw [workerLoop] at hrun
  obtain ⟨t, ht, _⟩ := Run.bind_eq_ok.mp hrun
  exact ⟨t, ht⟩

/-- The vector is searched up to the descriptor or to a zero. -/
theorem activeThreadManager_returns_iff :
    (∃ activeThreads', activeThreadManager commFd activeThreads = .ok activeThreads') ↔ commFd ∈ activeThreads ∨ 0 ∈ activeThreads := by
  induction activeThreads with
  | nil =>
      constructor
      · rintro ⟨_, hrun⟩
        cases hrun
      · rintro (hmem | hmem) <;> exact absurd hmem List.not_mem_nil
  | cons fd activeThreads ih =>
      rw [activeThreadManager]
      by_cases hzero : fd = 0
      · rw [if_pos hzero]
        exact iff_of_true ⟨_, rfl⟩ (Or.inr (hzero ▸ List.mem_cons_self))
      by_cases hfound : fd = commFd
      · rw [if_neg hzero, if_pos hfound]
        exact iff_of_true ⟨_, rfl⟩ (Or.inl (hfound ▸ List.mem_cons_self))
      have hothers : commFd ∈ fd :: activeThreads ∨ 0 ∈ fd :: activeThreads ↔ commFd ∈ activeThreads ∨ 0 ∈ activeThreads := by
        simp [Ne.symm hfound, Ne.symm hzero]
      rw [if_neg hzero, if_neg hfound, hothers, ← ih]
      cases activeThreadManager commFd activeThreads with
      | error fault =>
          constructor
          · rintro ⟨_, hrun⟩
            cases hrun
          · rintro ⟨_, hrun⟩
            cases hrun
      | ok behind => exact iff_of_true ⟨_, rfl⟩ ⟨behind, rfl⟩

theorem workerEnd_returns_iff :
    (∃ activeThreads', workerEnd commFd activeThreads threadCounter = .ok (activeThreads', threadCounter - 1)) ↔
      commFd ∈ activeThreads ∨ 0 ∈ activeThreads := by
  rw [← activeThreadManager_returns_iff]
  constructor
  · rintro ⟨_, hrun⟩
    obtain ⟨behind, hbehind, _⟩ := Run.bind_eq_ok.mp hrun
    exact ⟨behind, hbehind⟩
  · rintro ⟨behind, hbehind⟩
    exact ⟨behind, by rw [workerEnd, hbehind, Run.ok_bind]⟩

/-- The loop is left in a round before the peer closes that sets `isQuit`, when the handlers up to it return. -/
theorem workerLoop_eq_ok_iff {behind : List Int × Int} :
    (∃ n, workerLoop commFd activeThreads threadCounter n arrivals = .ok behind) ↔
      workerEnd commFd activeThreads threadCounter = .ok behind ∧
        ∃ front a back, arrivals = front ++ a :: back ∧ a.Quits commFd ∧ ∀ b ∈ front ++ [a], b.Returns commFd := by
  induction arrivals with
  | nil =>
      constructor
      · rintro ⟨n, hrun⟩
        rw [workerLoop_closed] at hrun
        cases hrun
      · rintro ⟨_, front, a, back, hsplit, _⟩
        exact absurd hsplit.symm (List.append_ne_nil_of_right_ne_nil front (List.cons_ne_nil a back))
  | cons first arrivals ih =>
      constructor
      · rintro ⟨n, hrun⟩
        obtain _ | n := n
        · cases hrun
        have hreturns := Arrival.returns_of_workerLoop hrun
        by_cases hquits : first.Quits commFd
        · rw [workerLoop_quits hquits hreturns] at hrun
          exact ⟨hrun, [], first, arrivals, rfl, hquits, List.forall_mem_singleton.mpr hreturns⟩
        · rw [workerLoop_goes_on hquits hreturns] at hrun
          obtain ⟨hends, front, a, back, rfl, hquits, hall⟩ := ih.mp ⟨n, hrun⟩
          exact ⟨hends, first :: front, a, back, rfl, hquits, List.forall_mem_cons.mpr ⟨hreturns, hall⟩⟩
      · rintro ⟨hends, front, a, back, hsplit, hquits, hall⟩
        cases front with
        | nil =>
            obtain ⟨rfl, rfl⟩ := List.cons.inj hsplit
            exact ⟨1, (workerLoop_quits hquits (List.forall_mem_singleton.mp hall) 0).trans hends⟩
        | cons b front =>
            obtain ⟨rfl, rfl⟩ := List.cons.inj hsplit
            obtain ⟨hreturns, hall⟩ := List.forall_mem_cons.mp hall
            by_cases hfirst : first.Quits commFd
            · exact ⟨1, (workerLoop_quits hfirst hreturns 0).trans hends⟩
            · obtain ⟨n, hrun⟩ := ih.mpr ⟨hends, front, a, back, rfl, hquits, hall⟩
              exact ⟨n + 1, (workerLoop_goes_on hfirst hreturns n).trans hrun⟩

/-- The thread ends iff one of the rounds before the peer closes sets `isQuit`, the handlers up to it return, and the search in
`active_threads` stops within the vector. -/
theorem workerLoop_leaves_iff (commFd : Int) (activeThreads : List Int) (threadCounter : Int) (arrivals : List Arrival) :
    (∃ n activeThreads', workerLoop commFd activeThreads threadCounter n arrivals = .ok (activeThreads', threadCounter - 1)) ↔
      (commFd ∈ activeThreads ∨ 0 ∈ activeThreads) ∧
        ∃ front a back, arrivals = front ++ a :: back ∧ a.Quits commFd ∧ ∀ b ∈ front ++ [a], b.Returns commFd := by
  rw [exists_comm, ← @workerEnd_returns_iff commFd activeThreads threadCounter]
  simp only [workerLoop_eq_ok_iff, exists_and_right]

/-- The secondary greets, forwards nothing and quits. -/
def greetsAndQuits : List Arrival :=
  [⟨"S\r\n".toList, List.cons_ne_nil _ _, fresh 10 true 0, 1⟩, ⟨"done u,1\r\n".toList, List.cons_ne_nil _ _, fresh 10 true 7, 1⟩,
    ⟨"quit\r\n".toList, List.cons_ne_nil _ _, fresh 10 true 7, 1⟩]

theorem workerLoop_leaves_iff_secondary : ∃ n activeThreads, workerLoop 7 [5, 7] 2 n greetsAndQuits = .ok (activeThreads, 2 - 1) := by
  have hquits : Arrival.Quits 7 ⟨"quit\r\n".toList, List.cons_ne_nil _ _, fresh 10 true 7, 1⟩ := by decide
  refine (workerLoop_leaves_iff 7 [5, 7] 2 greetsAndQuits).mpr ⟨by decide, _ :: [_], _, [], rfl, hquits, fun b hb => ?_⟩
  simp only [List.cons_append, List.nil_append, List.mem_cons, List.not_mem_nil, or_false] at hb
  rcases hb with rfl | rfl | rfl
  · exact ⟨_, rfl⟩
  · exact ⟨_, rfl⟩
  · exact ⟨_, rfl⟩

/-- The probe of the master leaves a thread behind. -/
theorem not_workerLoop_probe : ¬ ∃ n activeThreads, workerLoop 7 [7] 1 n [] = .ok (activeThreads, 0) := by
  rintro ⟨n, activeThreads, hrun⟩
  rw [workerLoop_closed] at hrun
  cases hrun

end PennCloud.Chunkserver
