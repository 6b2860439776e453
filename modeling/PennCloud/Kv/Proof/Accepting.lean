import PennCloud.Kv.Process
import PennCloud.Kv.Proof.Roles
import PennCloud.Lib.Run

/-!
# Who is a primary

Whenever `main` tests `thread_counter`, it is the number of the threads that serve a connection. So a secondary becomes a primary at the
first test for which some connection has not ended, and stays one. A connection over which nothing has come does not end; the test
after it makes a primary of the node.
-/

namespace PennCloud.Process

open Run

variable {p p' : Process} {node : Chunkserver} {events front back : List Event} {event : Event} {fd fd' : Int}
  {activeThreads activeThreads' : List Int}

/-! ### The vector of the descriptors -/

theorem activeThreadManager_of_mem (hopen : 0 ∉ activeThreads) (hmem : fd ∈ activeThreads) :
    activeThreadManager fd activeThreads = .ok (activeThreads.erase fd) := by
  induction activeThreads with
  | nil => exact absurd hmem List.not_mem_nil
  | cons first activeThreads ih =>
      rw [List.mem_cons, not_or] at hopen
      rw [activeThreadManager, if_neg (Ne.symm hopen.1)]
      by_cases heq : first = fd
      · rw [if_pos heq, heq, List.erase_cons_head]
      · rw [if_neg heq, ih hopen.2 ((List.mem_cons.mp hmem).resolve_left (Ne.symm heq)), List.erase_cons_tail (by simpa using heq)]
        rfl

/-- A descriptor that is not in the vector is looked for behind its end. -/
theorem activeThreadManager_of_notMem (hopen : 0 ∉ activeThreads) (hmem : fd ∉ activeThreads) :
    activeThreadManager fd activeThreads = .error .overrun := by
  induction activeThreads with
  | nil => rfl
  | cons first activeThreads ih =>
      rw [List.mem_cons, not_or] at hopen hmem
      rw [activeThreadManager, if_neg (Ne.symm hopen.1), if_neg (Ne.symm hmem.1), ih hopen.2 hmem.2]
      rfl

/-! ### The threads -/

/-- The descriptors of the connections that are served. -/
def descriptors (p : Process) : List Int := p.workers.map Worker.commFd

/-- A thread that is started and not yet in the vector. -/
def Place.absent : Place → List Int
  | .entering fd => [fd]
  | _ => []

/-- A thread that is started and not yet counted. -/
def Place.uncounted : Place → Int
  | .entering _ => 1
  | .counting => 1
  | _ => 0

/-- The descriptor that `accept` has returned. -/
def Place.Fresh (served : List Int) : Place → Prop
  | .creating fd => 0 < fd ∧ fd ∉ served
  | _ => True

/-- How the vector and the counter stand to the threads. -/
structure Orderly (p : Process) : Prop where
  distinct : p.descriptors.Nodup
  positive : ∀ fd ∈ p.descriptors, 0 < fd
  fresh : p.place.Fresh p.descriptors
  vector : p.descriptors = p.activeThreads ++ p.place.absent
  counter : p.threadCounter + p.place.uncounted = p.workers.length + p.closing.length + p.ending

theorem Orderly.notMem_zero (h : Orderly p) : 0 ∉ p.activeThreads := by
  intro hmem
  have hpositive := h.positive 0 (h.vector ▸ List.mem_append_left _ hmem)
  exact absurd hpositive (Int.lt_irrefl 0)

theorem Orderly.mem_activeThreads_iff (h : Orderly p) (hfd : fd ∈ p.descriptors) :
    fd ∈ p.activeThreads ↔ p.place ≠ .entering fd := by
  have hdistinct := h.distinct
  have hmem := hfd
  rw [h.vector] at hdistinct hmem
  constructor
  · intro hactive hplace
    rw [hplace] at hdistinct
    exact (List.nodup_append.mp hdistinct).2.2 fd hactive fd (List.mem_singleton_self fd) rfl
  · intro hplace
    rcases List.mem_append.mp hmem with hactive | habsent
    · exact hactive
    · cases hwhere : p.place with
      | entering fd' =>
          rw [hwhere] at habsent hplace
          exact absurd (congrArg Place.entering (List.mem_singleton.mp habsent).symm) hplace
      | testing | accepting | creating _ | counting =>
          rw [hwhere] at habsent
          exact absurd habsent List.not_mem_nil

/-- A thread can leave the vector exactly when `main` has put it there. -/
theorem Orderly.manager_iff (h : Orderly p) (hfd : fd ∈ p.descriptors) :
    (∃ activeThreads, activeThreadManager fd p.activeThreads = .ok activeThreads) ↔ p.place ≠ .entering fd := by
  rw [← h.mem_activeThreads_iff hfd]
  constructor
  · rintro ⟨activeThreads, hmanager⟩
    by_contra hnot
    rw [activeThreadManager_of_notMem h.notMem_zero hnot] at hmanager
    cases hmanager
  · intro hmem
    exact ⟨_, activeThreadManager_of_mem h.notMem_zero hmem⟩

theorem orderly_start (node : Chunkserver) : Orderly (start node) :=
  ⟨List.nodup_nil, fun _ hmem => absurd hmem List.not_mem_nil, trivial, rfl, rfl⟩

theorem descriptors_map (workers : List Worker) (fd : Int) (isQuit : Bool) :
    (workers.map fun worker => if worker.commFd = fd then (⟨fd, isQuit⟩ : Worker) else worker).map Worker.commFd =
      workers.map Worker.commFd := by
  rw [List.map_map]
  apply List.map_congr_left
  intro worker _
  rw [Function.comp_apply]
  split
  · next heq => exact heq.symm
  · rfl

theorem descriptors_filter (workers : List Worker) (fd : Int) :
    (workers.filter fun worker => worker.commFd ≠ fd).map Worker.commFd = (workers.map Worker.commFd).filter (· ≠ fd) := by
  rw [List.filter_map]
  rfl

theorem Orderly.descriptors_erase (h : Orderly p) (fd : Int) :
    (p.workers.filter fun worker => worker.commFd ≠ fd).map Worker.commFd = p.descriptors.erase fd := by
  rw [descriptors_filter, h.distinct.erase_eq_filter]
  apply List.filter_congr
  intro fd' _
  by_cases heq : fd' = fd <;> simp [heq]

theorem Orderly.length_filter (h : Orderly p) (hworker : fd ∈ p.descriptors) :
    (p.workers.filter fun worker => worker.commFd ≠ fd).length + 1 = p.workers.length := by
  have hdescriptors := h.descriptors_erase fd
  calc
    (p.workers.filter fun worker => worker.commFd ≠ fd).length + 1 = (p.descriptors.erase fd).length + 1 := by
      rw [← hdescriptors, List.length_map]
    _ = p.descriptors.length := by
      rw [List.length_erase_of_mem hworker]
      have hpos := List.length_pos_of_mem hworker
      omega
    _ = p.workers.length := List.length_map ..

theorem Orderly.removed (h : Orderly p) (hworker : fd ∈ p.descriptors)
    (hmanager : activeThreadManager fd p.activeThreads = .ok activeThreads) :
    Orderly { p with
      workers := p.workers.filter fun worker => worker.commFd ≠ fd
      activeThreads := activeThreads
      closing := p.closing ++ [fd] } := by
  have hplace : p.place ≠ .entering fd := (h.manager_iff hworker).mp ⟨_, hmanager⟩
  have hactive : fd ∈ p.activeThreads := (h.mem_activeThreads_iff hworker).mpr hplace
  have hdistinct := h.distinct
  have hvector := h.vector
  have hcounter := h.counter
  rw [activeThreadManager_of_mem h.notMem_zero hactive] at hmanager
  obtain rfl := Except.ok.inj hmanager
  have hdescriptors := h.descriptors_erase fd
  have hkept : ∀ fd' ∈ p.descriptors.erase fd, fd' ∈ p.descriptors := fun fd' hmem => List.mem_of_mem_erase hmem
  constructor
  · change ((p.workers.filter fun worker => worker.commFd ≠ fd).map Worker.commFd).Nodup
    rw [hdescriptors]
    exact hdistinct.erase fd
  · change ∀ fd' ∈ (p.workers.filter fun worker => worker.commFd ≠ fd).map Worker.commFd, 0 < fd'
    rw [hdescriptors]
    exact fun fd' hmem => h.positive fd' (hkept fd' hmem)
  · change p.place.Fresh ((p.workers.filter fun worker => worker.commFd ≠ fd).map Worker.commFd)
    rw [hdescriptors]
    have hfresh := h.fresh
    cases hwhere : p.place with
    | creating fd' =>
        rw [hwhere] at hfresh
        exact ⟨hfresh.1, fun hmem => hfresh.2 (hkept fd' hmem)⟩
    | testing | accepting | entering _ | counting => trivial
  · change (p.workers.filter fun worker => worker.commFd ≠ fd).map Worker.commFd = p.activeThreads.erase fd ++ p.place.absent
    rw [hdescriptors, hvector, List.erase_append_left _ hactive]
  · have hlength := h.length_filter hworker
    change p.threadCounter + p.place.uncounted =
      (p.workers.filter fun worker => worker.commFd ≠ fd).length + ((p.closing ++ [fd]).length : Int) + p.ending
    rw [List.length_append, List.length_singleton]
    omega

theorem Orderly.closed (h : Orderly p) (hclosing : fd ∈ p.closing) :
    Orderly { p with closing := p.closing.erase fd, ending := p.ending + 1 } := by
  refine ⟨h.distinct, h.positive, h.fresh, h.vector, ?_⟩
  have hcounter := h.counter
  have hlength := List.length_erase_of_mem hclosing
  have hpos := List.length_pos_of_mem hclosing
  change p.threadCounter + p.place.uncounted = p.workers.length + ((p.closing.erase fd).length : Int) + ((p.ending + 1 : Nat) : Int)
  omega

theorem Orderly.uncounted {ending : Nat} (h : Orderly p) (hending : p.ending = ending + 1) :
    Orderly { p with ending := ending, threadCounter := p.threadCounter - 1 } := by
  refine ⟨h.distinct, h.positive, h.fresh, h.vector, ?_⟩
  have hcounter := h.counter
  change p.threadCounter - 1 + p.place.uncounted = p.workers.length + p.closing.length + (ending : Int)
  omega

theorem Orderly.step (h : Orderly p) (hstep : Step p event p') : Orderly p' := by
  obtain ⟨hdistinct, hpositive, hfresh, hvector, hcounter⟩ := h
  cases hstep with
  | tested hplace =>
      rw [hplace] at hvector hcounter
      exact ⟨hdistinct, hpositive, trivial, hvector, hcounter⟩
  | accepted hplace hfd hnew hclosed =>
      rw [hplace] at hvector hcounter
      refine ⟨hdistinct, hpositive, ⟨hfd, fun hmem => ?_⟩, hvector, hcounter⟩
      obtain ⟨worker, hworker, heq⟩ := List.mem_map.mp hmem
      exact hnew worker hworker heq
  | @created fd hplace =>
      rw [hplace] at hfresh hvector hcounter
      have hdescriptors : (p.workers ++ [(⟨fd, false⟩ : Worker)]).map Worker.commFd = p.descriptors ++ [fd] := List.map_append
      refine ⟨?_, ?_, trivial, ?_, ?_⟩
      · rw [descriptors, hdescriptors, List.nodup_append]
        refine ⟨hdistinct, List.nodup_singleton fd, fun fd' hmem fd'' hmem' => ?_⟩
        rintro rfl
        exact hfresh.2 (List.mem_singleton.mp hmem' ▸ hmem)
      · intro fd' hmem
        rw [descriptors, hdescriptors] at hmem
        rcases List.mem_append.mp hmem with hmem | hmem
        · exact hpositive fd' hmem
        · exact List.mem_singleton.mp hmem ▸ hfresh.1
      · have hactive : p.descriptors = p.activeThreads := hvector.trans (List.append_nil _)
        rw [descriptors, hdescriptors, hactive]
        rfl
      · have hcount : p.threadCounter + 0 = p.workers.length + p.closing.length + p.ending := hcounter
        change p.threadCounter + 1 = ((p.workers ++ [(⟨fd, false⟩ : Worker)]).length : Int) + p.closing.length + p.ending
        rw [List.length_append, List.length_singleton]
        omega
  | @entered fd hplace =>
      rw [hplace] at hvector hcounter
      exact ⟨hdistinct, hpositive, trivial, hvector.trans (List.append_nil _).symm, hcounter⟩
  | counted hplace =>
      rw [hplace] at hvector hcounter
      exact ⟨hdistinct, hpositive, trivial, hvector, (Int.add_zero _).trans hcounter⟩
  | @received fd chunk fuel node hworker hchunk hrun =>
      have hsame := descriptors_map p.workers fd (quits p.node fd (cstr chunk))
      refine ⟨?_, ?_, ?_, ?_, ?_⟩
      · rw [descriptors, hsame]
        exact hdistinct
      · rw [descriptors, hsame]
        exact hpositive
      · rw [descriptors, hsame]
        exact hfresh
      · rw [descriptors, hsame]
        exact hvector
      · rw [List.length_map]
        exact hcounter
  | removed hworker hmanager =>
      exact Orderly.removed ⟨hdistinct, hpositive, hfresh, hvector, hcounter⟩ (List.mem_map.mpr ⟨_, hworker, rfl⟩) hmanager
  | closed hclosing => exact Orderly.closed ⟨hdistinct, hpositive, hfresh, hvector, hcounter⟩ hclosing
  | uncounted hending => exact Orderly.uncounted ⟨hdistinct, hpositive, hfresh, hvector, hcounter⟩ hending
  | executed hrun => exact ⟨hdistinct, hpositive, hfresh, hvector, hcounter⟩
  | checkpointed hrun => exact ⟨hdistinct, hpositive, hfresh, hvector, hcounter⟩

theorem orderly_of_runs (hrun : Runs Step (start node) events p) : Orderly p :=
  hrun.invariant (P := fun _ p => Orderly p) (orderly_start node) fun _ _ _ _ h hstep => h.step hstep

/-! ### What has happened -/

def Event.change : Event → Int
  | .created _ => 1
  | .uncounted => -1
  | _ => 0

/-- The threads that serve a connection, and those that have not yet counted themselves out. -/
def threads (p : Process) : Int := p.workers.length + p.closing.length + p.ending

/-- The connections that have been taken up and have not ended. -/
def connections (events : List Event) : Int := events.foldl (fun count event => count + event.change) 0

theorem threads_nonneg (p : Process) : 0 ≤ p.threads := by
  unfold threads
  omega

theorem connections_snoc (events : List Event) (event : Event) : connections (events ++ [event]) = connections events + event.change := by
  simp [connections]

theorem Orderly.threads_step (h : Orderly p) (hstep : Step p event p') : p'.threads = p.threads + event.change := by
  cases hstep with
  | created hplace =>
      simp only [threads, Event.change, List.length_append, List.length_singleton]
      omega
  | received hworker hchunk hrun =>
      simp only [threads, Event.change, List.length_map]
      omega
  | @removed fd activeThreads hworker hmanager =>
      have hlength : (p.workers.filter fun worker => worker.commFd ≠ fd).length + 1 = p.workers.length :=
        h.length_filter (List.mem_map.mpr ⟨_, hworker, rfl⟩)
      simp only [threads, Event.change, List.length_append, List.length_singleton]
      omega
  | closed hclosing =>
      have hlength := List.length_erase_of_mem hclosing
      have hpos := List.length_pos_of_mem hclosing
      simp only [threads, Event.change]
      omega
  | uncounted hending =>
      simp only [threads, Event.change]
      omega
  | tested | accepted | entered | counted | executed | checkpointed => exact (Int.add_zero _).symm

theorem threads_of_runs (hrun : Runs Step (start node) events p) : p.threads = connections events := by
  refine (hrun.invariant (P := fun events p => Orderly p ∧ p.threads = connections events) ⟨orderly_start node, rfl⟩ ?_).2
  rintro events p event p' ⟨h, hthreads⟩ hstep
  exact ⟨h.step hstep, by rw [connections_snoc, h.threads_step hstep, hthreads]⟩

/-- At some test a connection was being served. -/
def Promoted (events : List Event) : Prop := ∃ front back, events = front ++ .tested :: back ∧ 0 < connections front

theorem promoted_snoc_tested : Promoted (events ++ [.tested]) ↔ Promoted events ∨ 0 < connections events := by
  constructor
  · rintro ⟨front, back, heq, hpos⟩
    rcases List.eq_nil_or_concat back with rfl | ⟨back, last, rfl⟩
    · obtain ⟨rfl, _⟩ := List.append_inj' heq rfl
      exact Or.inr hpos
    · rw [List.concat_eq_append, ← List.cons_append, ← List.append_assoc] at heq
      exact Or.inl ⟨front, back, (List.append_inj' heq rfl).1, hpos⟩
  · rintro (⟨front, back, rfl, hpos⟩ | hpos)
    · exact ⟨front, back ++ [.tested], by simp, hpos⟩
    · exact ⟨events, [], rfl, hpos⟩

theorem promoted_snoc_of_ne (hne : event ≠ .tested) : Promoted (events ++ [event]) ↔ Promoted events := by
  constructor
  · rintro ⟨front, back, heq, hpos⟩
    rcases List.eq_nil_or_concat back with rfl | ⟨back, last, rfl⟩
    · exact absurd (List.cons.inj (List.append_inj' heq rfl).2).1 hne
    · rw [List.concat_eq_append, ← List.cons_append, ← List.append_assoc] at heq
      exact ⟨front, back, (List.append_inj' heq rfl).1, hpos⟩
  · rintro ⟨front, back, rfl, hpos⟩
    exact ⟨front, back ++ [event], by simp, hpos⟩

theorem role_of_runs (hrun : Runs Step (start node) events p) :
    p.node.lru.isPrimary = true ↔ node.lru.isPrimary = true ∨ Promoted events := by
  refine (hrun.invariant (P := fun events p => (Orderly p ∧ p.threads = connections events) ∧
    (p.node.lru.isPrimary = true ↔ node.lru.isPrimary = true ∨ Promoted events)) ⟨⟨orderly_start node, rfl⟩, ?_⟩ ?_).2
  · constructor
    · exact Or.inl
    · rintro (hprimary | ⟨front, back, heq, _⟩)
      · exact hprimary
      · exact absurd heq.symm (List.append_ne_nil_of_right_ne_nil _ (List.cons_ne_nil _ _))
  rintro events p event p' ⟨⟨h, hthreads⟩, hrole⟩ hstep
  refine ⟨⟨h.step hstep, by rw [connections_snoc, h.threads_step hstep, hthreads]⟩, ?_⟩
  have hkept (hne : event ≠ .tested) (hsame : p'.node.lru.isPrimary = p.node.lru.isPrimary) :
      p'.node.lru.isPrimary = true ↔ node.lru.isPrimary = true ∨ Promoted (events ++ [event]) := by
    rw [hsame, promoted_snoc_of_ne hne]
    exact hrole
  cases hstep with
  | tested hplace =>
      have hcounter := h.counter
      rw [hplace] at hcounter
      have hcount : p.threadCounter = connections events := ((Int.add_zero _).symm.trans hcounter).trans hthreads
      have hnonneg : 0 ≤ connections events := hthreads ▸ threads_nonneg p
      change (p.node.lru.isPrimary || p.threadCounter != 0) = true ↔ _
      rw [Bool.or_eq_true, hrole, promoted_snoc_tested, bne_iff_ne, hcount, or_assoc]
      apply or_congr Iff.rfl
      apply or_congr Iff.rfl
      omega
  | received hworker hchunk hrun => exact hkept nofun (Chunkserver.role_worker hrun)
  | executed hrun => exact hkept nofun (Chunkserver.role_psWorker hrun)
  | checkpointed hrun => exact hkept nofun (Chunkserver.role_checkpointing hrun)
  | accepted | created | entered | counted | removed | closed | uncounted => exact hkept nofun rfl

/-! ### Silent connections -/

/-- Nothing has come over the connection. -/
def Silent (fd : Int) (events : List Event) : Prop := ∀ chunk, .received fd chunk ∉ events

theorem Silent.left (h : Silent fd (front ++ back)) : Silent fd front := fun chunk hmem => h chunk (List.mem_append_left _ hmem)

/-- No thread of the connection has left its loop. -/
def Stays (fd : Int) (workers : List Worker) : Prop := ∀ worker ∈ workers, worker.commFd = fd → worker.isQuit = false

/-- A silent connection that has been taken up is served. -/
theorem stays_step {workers : List Worker} (hstep : Step p event p') (hworkers : p.workers = workers) (hsilent : Silent fd [event])
    (hstays : Stays fd workers) : Stays fd p'.workers ∧ (⟨fd, false⟩ ∈ workers ∨ event = .created fd → ⟨fd, false⟩ ∈ p'.workers) := by
  subst hworkers
  cases hstep with
  | @created fd' hplace =>
      constructor
      · intro worker hworker hfd
        rcases List.mem_append.mp hworker with hworker | hworker
        · exact hstays worker hworker hfd
        · rw [List.mem_singleton.mp hworker]
      · rintro (hworker | heq)
        · exact List.mem_append_left _ hworker
        · obtain rfl := Event.created.inj heq
          exact List.mem_append_right _ (List.mem_singleton_self _)
  | @received fd' chunk fuel node hworker hchunk hrun =>
      have hne : fd ≠ fd' := by
        rintro rfl
        exact hsilent chunk (List.mem_singleton_self _)
      constructor
      · intro worker hworker hfd
        obtain ⟨worker', hworker', rfl⟩ := List.mem_map.mp hworker
        by_cases heq : worker'.commFd = fd'
        · rw [if_pos heq] at hfd
          exact absurd hfd.symm hne
        · rw [if_neg heq] at hfd ⊢
          exact hstays worker' hworker' hfd
      · rintro (hworker | heq)
        · exact List.mem_map.mpr ⟨_, hworker, if_neg hne⟩
        · cases heq
  | @removed fd' activeThreads hworker hmanager =>
      have hne : fd ≠ fd' := by
        rintro rfl
        exact absurd (hstays _ hworker rfl) nofun
      constructor
      · exact fun worker hworker hfd => hstays worker (List.mem_of_mem_filter hworker) hfd
      · rintro (hworker | heq)
        · exact List.mem_filter.mpr ⟨hworker, by simpa using hne⟩
        · cases heq
  | tested | accepted | entered | counted | closed | uncounted | executed | checkpointed =>
      refine ⟨hstays, ?_⟩
      rintro (hworker | heq)
      · exact hworker
      · cases heq

theorem silent_of_runs (hrun : Runs Step (start node) events p) :
    Silent fd events → Stays fd p.workers ∧ (.created fd ∈ events → ⟨fd, false⟩ ∈ p.workers) := by
  refine hrun.invariant (P := fun events p =>
    Silent fd events → Stays fd p.workers ∧ (.created fd ∈ events → ⟨fd, false⟩ ∈ p.workers))
    (fun _ => ⟨fun _ hmem => absurd hmem List.not_mem_nil, fun hmem => absurd hmem List.not_mem_nil⟩) ?_
  intro events p event p' h hstep hsilent
  obtain ⟨hstays, hserved⟩ := h hsilent.left
  obtain ⟨hstays', hserved'⟩ := stays_step hstep rfl (fun chunk hmem => hsilent chunk (List.mem_append_right _ hmem)) hstays
  refine ⟨hstays', fun hmem => hserved' ?_⟩
  rw [List.mem_append, List.mem_singleton] at hmem
  exact hmem.imp hserved Eq.symm

/-! ### Runs -/

/-- Over every run of the process: the tests see the number of the connections that have not ended, so the node is a primary exactly
when it was started as one or some test saw a connection, which it does after every connection over which nothing has come. A thread that
ends is found in the vector exactly when `main` has come to enter it. -/
theorem primary_of_runs (hrun : Runs Step (start node) events p) :
    (p.place = .testing → p.threadCounter = connections events) ∧
      (p.node.lru.isPrimary = true ↔ node.lru.isPrimary = true ∨ Promoted events) ∧
      (∀ front back fd, events = front ++ .tested :: back → .created fd ∈ front → Silent fd front → p.node.lru.isPrimary = true) ∧
      ∀ worker ∈ p.workers, (∃ activeThreads, activeThreadManager worker.commFd p.activeThreads = .ok activeThreads) ↔
        p.place ≠ .entering worker.commFd := by
  have h := orderly_of_runs hrun
  refine ⟨?_, role_of_runs hrun, ?_, fun worker hworker => h.manager_iff (List.mem_map_of_mem hworker)⟩
  · intro hplace
    have hcounter := h.counter
    rw [hplace] at hcounter
    exact ((Int.add_zero _).symm.trans hcounter).trans (threads_of_runs hrun)
  · rintro front back fd rfl hcreated hsilent
    obtain ⟨q, hfront, _⟩ := hrun.exists_mid
    have hworker := (silent_of_runs hfront hsilent).2 hcreated
    have hpos := List.length_pos_of_mem hworker
    have hthreads := threads_of_runs hfront
    unfold threads at hthreads
    exact (role_of_runs hrun).mpr (Or.inr ⟨front, back, rfl, by omega⟩)

/-- A connection comes and ends, and another one comes. -/
def comesAndEnds : List Event :=
  [.tested, .accepted 5, .created 5, .entered 5, .counted] ++ [.tested, .received 5 "quit\r\n".toList, .removed 5, .closed 5,
    .accepted 6, .created 6, .uncounted, .entered 6, .counted]

/-- The test while the first connection is open makes a primary of the node, and it stays one when that connection has ended. -/
theorem primary_of_runs_connection : ∃ p, Runs Step (start (.boot 1000 false 0 ⟨fun _ => ∅, none⟩)) comesAndEnds p ∧
    p.threadCounter = connections comesAndEnds ∧ p.node.lru.isPrimary = true ∧
      ∃ activeThreads, activeThreadManager 6 p.activeThreads = .ok activeThreads := by
  have hopen : ∀ worker ∈ ([] : List Worker), worker.commFd ≠ (5 : Int) := nofun
  have hfirst : Runs Step (start (.boot 1000 false 0 ⟨fun _ => ∅, none⟩)) [.tested, .accepted 5, .created 5, .entered 5, .counted] _ :=
    .snoc (.snoc (.snoc (.snoc (.snoc .nil (.tested rfl)) (.accepted rfl (by decide) hopen List.not_mem_nil)) (.created rfl))
      (.entered rfl)) (.counted rfl)
  have htested := hfirst.snoc (.tested rfl)
  have hquit := htested.snoc (@Step.received _ 5 "quit\r\n".toList 0 _ (List.mem_singleton_self _) (by decide) rfl)
  have hremoved := hquit.snoc (.removed (List.mem_singleton_self _) rfl)
  have hclosed := hremoved.snoc (.closed (List.mem_singleton_self _))
  have hcreated := (hclosed.snoc (@Step.accepted _ 6 rfl (by decide) nofun List.not_mem_nil)).snoc (.created rfl)
  have hlast := ((hcreated.snoc (.uncounted rfl)).snoc (.entered rfl)).snoc (.counted rfl)
  obtain ⟨hcounter, _, hprimary, hmanager⟩ := primary_of_runs hlast
  refine ⟨_, hlast, hcounter rfl, hprimary [.tested, .accepted 5, .created 5, .entered 5, .counted] _ 5 rfl ?_ ?_, ?_⟩
  · simp
  · intro chunk
    simp
  · exact (hmanager ⟨6, false⟩ (List.mem_singleton_self _)).mpr nofun

end PennCloud.Process
