import PennCloud.Kv.Proof.Changes

/-!
# Contents survive eviction

Step by step the cache does to its contents what the store does, whoever is in memory, as long as each
step evicts nobody or evicts from a list in order. Evicting from a list that still has the node of an
erased user takes away the node of the user that came after it under the same name.
-/

namespace PennCloud.LRUCache

open DList Std

variable {s s' t : LRUCache} {user filename value u : Str} {fuel : Nat} {commFd seqNum capacity : Int}
  {isPrimary : Bool} {ops : List Op} {op : Op}

/-! ### One step -/

/-- The command evicts nobody. -/
def InPlace (s : LRUCache) : Op → Prop
  | .put user _ value _ _ => s.Refused user value ∨ s.PutsInPlace user value
  | .get user _ _ => s.Roomy user
  | .cput user _ _ _ _ _ => s.Roomy user
  | .dele user _ _ _ _ => s.Roomy user
  | .rename user _ _ _ _ => s.Roomy user

/-- The arguments keep rows readable and counters exact. -/
def Suitable (s : LRUCache) : Op → Prop
  | .put _ filename value _ _ => ',' ∉ filename ∧ ',' ∉ value
  | .get _ _ _ => True
  | .cput user filename oldValue newValue _ _ => s.Exchanges user filename oldValue newValue
  | .dele _ _ _ _ _ => True
  | .rename user oldFilename newFilename _ _ =>
      s.view user oldFilename ≠ none → s.FreeName user oldFilename newFilename

/-- The step evicts nobody, or evicts from a list that holds exactly the residents. -/
def Preserving (s : LRUCache) (op : Op) : Prop := s.Suitable op ∧ (s.InPlace op ∨ s.InOrder)

instance (s : LRUCache) (user : Str) : Decidable (s.Roomy user) :=
  inferInstanceAs (Decidable (_ → _))

instance (s : LRUCache) (user value : Str) : Decidable (s.PutsInPlace user value) :=
  inferInstanceAs (Decidable (_ ∧ _))

instance (s : LRUCache) : (op : Op) → Decidable (s.InPlace op)
  | .put user _ value _ _ => inferInstanceAs (Decidable (s.Refused user value ∨ s.PutsInPlace user value))
  | .get user _ _ => inferInstanceAs (Decidable (s.Roomy user))
  | .cput user _ _ _ _ _ => inferInstanceAs (Decidable (s.Roomy user))
  | .dele user _ _ _ _ => inferInstanceAs (Decidable (s.Roomy user))
  | .rename user _ _ _ _ => inferInstanceAs (Decidable (s.Roomy user))

instance (s : LRUCache) (user filename oldValue newValue : Str) :
    Decidable (s.Exchanges user filename oldValue newValue) :=
  inferInstanceAs (Decidable (_ → _))

instance (s : LRUCache) (user filename newFilename : Str) : Decidable (s.FreeName user filename newFilename) :=
  inferInstanceAs (Decidable (_ ∧ _))

instance (s : LRUCache) : (op : Op) → Decidable (s.Suitable op)
  | .put _ filename value _ _ => inferInstanceAs (Decidable (',' ∉ filename ∧ ',' ∉ value))
  | .get _ _ _ => isTrue trivial
  | .cput user filename oldValue newValue _ _ =>
      inferInstanceAs (Decidable (s.Exchanges user filename oldValue newValue))
  | .dele _ _ _ _ _ => isTrue trivial
  | .rename user oldFilename newFilename _ _ =>
      inferInstanceAs (Decidable (s.view user oldFilename ≠ none → s.FreeName user oldFilename newFilename))

/-- A good state with the contents of a store. -/
structure Holds (s : LRUCache) (capacity : Int) (store : Store) : Prop where
  good : s.Good
  filesOf : s.filesOf = store
  capacity : s.capacity = capacity

theorem Becomes.holds {files : Map Str} (h : Becomes s s' user files) :
    Holds s' s.capacity (Function.update s.filesOf user files) := by
  refine ⟨h.good, funext fun u => ?_, h.capacity⟩
  rw [h.filesOf, Function.update_apply]
  simp only [eq_comm]

theorem Becomes.holds_self (h : Becomes s s' user (s.filesOf user)) : Holds s' s.capacity s.filesOf := by
  have hholds := h.holds
  rwa [Function.update_eq_self] at hholds

theorem Good.exec_put (h : s.Good) (hname : ',' ∉ filename) (hvalue : ',' ∉ value)
    (hroom : s.InPlace (.put user filename value commFd seqNum) ∨ s.InOrder) :
    ∃ depth, ∀ fuel, Delivers
      (depth ≤ fuel ∧ (s.InPlace (.put user filename value commFd seqNum) ∨ s.Spare s.tablets))
      (put fuel s user filename value commFd true seqNum)
      (fun s' => Holds s' s.capacity
        (Store.step s.capacity s.filesOf (.put user filename value commFd seqNum))) := by
  by_cases hrefused : s.Refused user value
  · refine ⟨1, fun fuel => (h.put_refused hrefused).mono (fun hfuel => hfuel.1) fun s' hs' => ?_⟩
    have hquota := h.refused_iff.mp hrefused
    rw [Store.step, if_neg (by omega)]
    exact hs'.holds_self
  · have hquota : (total (s.filesOf user) : Int) + value.length < s.capacity :=
      Int.not_le.mp fun hle => hrefused (h.refused_iff.mpr hle)
    have hplace : s.PutsInPlace user value ∨ s.InOrder :=
      hroom.imp_left fun hplace => hplace.resolve_left hrefused
    obtain ⟨depth, hloop⟩ := h.putLoop hquota hname hvalue hplace
    refine ⟨depth, fun fuel => ?_⟩
    have hput : put fuel s user filename value commFd true seqNum =
        LRUCache.putLoop fuel s user filename value commFd true seqNum := by
      rw [put, putWith, if_neg fun hlarge => hrefused (Or.inl hlarge)]
    rw [hput, Store.step, if_pos hquota]
    refine (hloop fuel commFd seqNum).mono (fun hfuel => ⟨hfuel.1, ?_⟩) fun s' hs' => hs'.holds
    exact hfuel.2.imp_left fun hplace => hplace.resolve_left hrefused

theorem Good.exec (h : s.Good) (hop : s.Preserving op) :
    ∃ depth, ∀ fuel, Delivers (depth ≤ fuel ∧ (s.InPlace op ∨ s.Spare s.tablets)) (s.exec fuel op)
      (fun s' => Holds s' s.capacity (Store.step s.capacity s.filesOf op)) := by
  obtain ⟨hsuitable, hroom⟩ := hop
  cases op with
  | put user filename value commFd seqNum => exact h.exec_put hsuitable.1 hsuitable.2 hroom
  | get user filename commFd =>
      obtain ⟨depth, hload⟩ := h.loadable hroom
      exact ⟨depth, fun fuel => (h.get hload).mono id fun s' hs' => hs'.holds_self⟩
  | cput user filename oldValue newValue commFd seqNum =>
      obtain ⟨depth, hload⟩ := h.loadable hroom
      refine ⟨depth, fun fuel => (h.cput hload hsuitable).mono id fun s' hs' => ?_⟩
      rw [Store.step]
      by_cases hview : s.view user filename = some oldValue
      · obtain ⟨_, _, hquota, _⟩ := hsuitable hview
        rw [if_pos hview] at hs'
        rw [if_pos ⟨hview, by omega⟩]
        exact hs'.holds
      · rw [if_neg hview] at hs'
        rw [if_neg fun hboth => hview hboth.1]
        exact hs'.holds_self
  | dele user filename commFd seqNum isMigration =>
      obtain ⟨depth, hload⟩ := h.loadable hroom
      exact ⟨depth, fun fuel => (h.dele hload).mono id fun s' hs' => hs'.holds⟩
  | rename user oldFilename newFilename commFd seqNum =>
      obtain ⟨depth, hload⟩ := h.loadable hroom
      refine ⟨depth, fun fuel => (h.rename hload hsuitable).mono id fun s' hs' => ?_⟩
      rw [Store.step]
      have hget : (s.filesOf user)[oldFilename]? = s.view user oldFilename := rfl
      rw [hget]
      cases hview : s.view user oldFilename with
      | none =>
          rw [hview] at hs'
          exact hs'.holds_self
      | some value =>
          rw [hview] at hs'
          exact hs'.holds

/-! ### Runs -/

theorem filesOf_fresh (u : Str) : (fresh capacity isPrimary).filesOf u = ∅ :=
  filesOf_unknown ⟨ExtTreeMap.getElem?_empty, ExtTreeMap.getElem?_empty⟩

theorem good_fresh (hnonneg : 0 ≤ capacity) (hsmall : capacity ≤ intMax) :
    (fresh capacity isPrimary).Good where
  sound := by
    refine ⟨tidy_init, ⟨?_, ?_⟩, hnonneg, hsmall, fun u r hu => ?_, fun u hu => ?_, 0, ⟨rfl, rfl⟩, by decide⟩
    · rintro r (rfl | ⟨i, hi, _⟩)
      · exact ⟨.tail, rfl, Or.inl rfl⟩
      · exact absurd hi (Nat.not_lt_zero i)
    · rintro r (rfl | ⟨i, hi, _⟩)
      · exact ⟨.head, rfl, Or.inl rfl⟩
      · exact absurd hi (Nat.not_lt_zero i)
    · exact absurd hu (by simp [fresh, init])
    · exact absurd ExtTreeMap.getElem?_empty hu
  exact := by
    have htotal : (fresh capacity isPrimary).residentTotal = 0 := by
      simp [residentTotal, weigh, fresh, init]
    rw [Exact, htotal]
    rfl
  sized u := by
    rw [filesOf_fresh, total_empty]
    exact ⟨rfl, hnonneg⟩

/-- After a run without loss the cache holds what the store holds. -/
theorem holds_of_run (hnonneg : 0 ≤ capacity) (hsmall : capacity ≤ intMax)
    (hrun : Run.Runs (Steps Preserving) (fresh capacity isPrimary) ops s) (hfilled : ¬ s.Filled) :
    Holds s capacity (Store.after capacity ops) := by
  have hboth : s.Filled ∨ Holds s capacity (Store.after capacity ops) := by
    refine hrun.invariant (P := fun ops s => s.Filled ∨ Holds s capacity (Store.after capacity ops)) ?_ ?_
    · exact Or.inr ⟨good_fresh hnonneg hsmall, funext filesOf_fresh, rfl⟩
    · rintro ops t op t' ht ⟨hop, fuel, hexec⟩
      rcases ht with hfull | ht
      · exact Or.inl (hfull.exec hexec)
      · by_cases hfull : t'.Filled
        · exact Or.inl hfull
        · obtain ⟨depth, hdelivers⟩ := ht.good.exec hop
          have hholds := (hdelivers fuel).right t' hexec hfull
          rw [ht.capacity, ht.filesOf, ← Store.after_concat] at hholds
          exact Or.inr hholds
  exact hboth.resolve_left hfilled

/-- In every state of such a run every stored value can be read, and no command faults. -/
theorem reads_of_run (hnonneg : 0 ≤ capacity) (hsmall : capacity ≤ intMax)
    (hrun : Run.Runs (Steps Preserving) (fresh capacity isPrimary) ops s) (hfilled : ¬ s.Filled) :
    (∀ u f w, (Store.after capacity ops u)[f]? = some w → s.Roomy u ∨ s.InOrder →
      (∀ fuel commFd found s', s.getHelper fuel u f commFd = .ok (found, s') → ¬ s'.Filled →
        found = some w) ∧
      (s.Roomy u ∨ s.Spare s.tablets → ∃ depth, ∀ fuel commFd, depth ≤ fuel →
        ∃ s', s.getHelper fuel u f commFd = .ok (some w, s'))) ∧
    ∀ op, s.Preserving op → s.InPlace op ∨ s.Spare s.tablets →
      ∃ depth, ∀ fuel, depth ≤ fuel → ∃ s', s.exec fuel op = .ok s' := by
  have hholds := holds_of_run hnonneg hsmall hrun hfilled
  refine ⟨fun u f w hstored hroom => ?_, fun op hop hspare => ?_⟩
  · have hview : s.view u f = some w := by rw [view, hholds.filesOf, hstored]
    obtain ⟨depth, hload⟩ := hholds.good.loadable hroom
    rw [← hview]
    refine ⟨fun fuel commFd found s' hget hfull => ?_, fun hspare => ⟨depth, fun fuel commFd hfuel => ?_⟩⟩
    · exact ((hholds.good.getHelper hload).2 found s' hget hfull).1
    · obtain ⟨s', hget, _⟩ := (hholds.good.getHelper hload).1 ⟨hfuel, hspare⟩
      exact ⟨s', hget⟩
  · obtain ⟨depth, hdelivers⟩ := hholds.good.exec hop
    refine ⟨depth, fun fuel hfuel => ?_⟩
    obtain ⟨s', hexec, _⟩ := (hdelivers fuel).returns ⟨hfuel, hspare⟩
    exact ⟨s', hexec⟩

/-! ### An eviction and a loss -/

theorem Ordered.inOrder (h : s.Ordered) : s.InOrder := by
  obtain ⟨l, hlist, hlists⟩ := h.agrees
  exact ⟨l, hlist.forward, hlists⟩

/-- A put for a user nobody has heard of. -/
def FirstPut (s : LRUCache) : Op → Prop
  | .put user filename value _ _ => s.Unknown user ∧ ',' ∉ filename ∧ ',' ∉ value
  | _ => False

instance (s : LRUCache) : (op : Op) → Decidable (s.FirstPut op)
  | .put user filename value _ _ =>
      inferInstanceAs (Decidable (s.Unknown user ∧ ',' ∉ filename ∧ ',' ∉ value))
  | .get _ _ _ => isFalse id
  | .cput _ _ _ _ _ _ => isFalse id
  | .dele _ _ _ _ _ => isFalse id
  | .rename _ _ _ _ _ => isFalse id

theorem undisturbed_of_firstPut (hop : s.FirstPut op) : s.Undisturbed op := by
  cases op with
  | put => exact Or.inr hop.1
  | get => exact absurd hop id
  | cput => exact absurd hop id
  | dele => exact absurd hop id
  | rename => exact absurd hop id

theorem preserving_of_firstPut (hordered : s.Ordered) (hop : s.FirstPut op) : s.Preserving op := by
  cases op with
  | put => exact ⟨hop.2, Or.inr hordered.inOrder⟩
  | get => exact absurd hop id
  | cput => exact absurd hop id
  | dele => exact absurd hop id
  | rename => exact absurd hop id

/-- Such puts leave the list in order, so that evicting for them loses nothing. -/
theorem preserving_of_firstPuts (hrun : Run.Runs (Steps FirstPut) (fresh capacity isPrimary) ops s) :
    Run.Runs (Steps Preserving) (fresh capacity isPrimary) ops s ∧ s.InOrder := by
  have hboth : Run.Runs (Steps Preserving) (fresh capacity isPrimary) ops s ∧ s.Ordered := by
    refine hrun.invariant (P := fun ops s => Run.Runs (Steps Preserving) (fresh capacity isPrimary) ops s ∧
      s.Ordered) ⟨.nil, ordered_init⟩ ?_
    rintro ops t op t' ⟨hrun, hordered⟩ ⟨hop, fuel, hexec⟩
    exact ⟨hrun.snoc ⟨preserving_of_firstPut hordered hop, fuel, hexec⟩,
      hordered.exec (undisturbed_of_firstPut hop) hexec⟩
  exact ⟨hboth.1, hboth.2.inOrder⟩

/-- The third user's value evicts the first user, whose file is still found. -/
theorem reads_of_run_three_puts : ∃ s : LRUCache, s.virmemMeta["u".toList]? ≠ none ∧
    ∃ depth, ∀ fuel commFd, depth ≤ fuel →
      ∃ s', s.getHelper fuel "u".toList "f".toList commFd = .ok (some "abc".toList, s') := by
  have hends : endsIn FirstPut 5 (fresh 10 true) [.put "u".toList "f".toList "abc".toList 3 0,
      .put "v".toList "g".toList "ddddd".toList 3 0, .put "w".toList "h".toList "eeee".toList 3 0]
      (fun s => decide (s.virmemMeta["u".toList]? = some [[0, 0, 6]] ∧ s.chunkInfo .virtualMemory = [0, 6] ∧
        s.weigh (fun files => (rowOf files).length) s.tablets = 15)) = true := by
    decide +kernel
  obtain ⟨s, hfirst, hstate⟩ := runs_of_endsIn hends
  obtain ⟨hvirmem, hinfo, hweigh⟩ := of_decide_eq_true hstate
  obtain ⟨hpreserving, hinOrder⟩ := preserving_of_firstPuts hfirst
  have hfilled : ¬ s.Filled := not_filled_of_chunkInfo hinfo
  have hspare : s.Spare s.tablets := ⟨6, hinfo, by rw [hweigh]; decide⟩
  have hreads := (reads_of_run (by decide) (by decide) hpreserving hfilled).1
  refine ⟨s, by rw [hvirmem]; exact Option.some_ne_none _, ?_⟩
  exact (hreads "u".toList "f".toList "abc".toList (by decide) (Or.inr hinOrder)).2 (Or.inr hspare)

/-- The nodes that `next` leads to. -/
def reached (s : LRUCache) : Nat → Ref → List Ref
  | 0, _ => []
  | n + 1, r =>
      match s.links.next r with
      | none => []
      | some x => if x = .tail then [] else x :: s.reached n x

/-- They are a list, and it holds exactly the residents. -/
def Tracked (s : LRUCache) : Prop :=
  let l := s.reached s.nodes .head
  ((Ref.head :: Ref.tail :: l).Nodup ∧ Path s.links.next .head l .tail ∧ s.links.prev .tail = some (l.getLastD .head)) ∧
    (∀ r ∈ l, s.tablets[(s.heap r).key]? = some r) ∧ ∀ u ∈ s.tablets.keys, ∃ r ∈ l, s.tablets[u]? = some r

instance (s : LRUCache) : Decidable s.Tracked := inferInstanceAs (Decidable (_ ∧ _))

theorem Tracked.inOrder (h : s.Tracked) : s.InOrder := by
  obtain ⟨⟨hnodup, hpath, hlast⟩, hlisted, hall⟩ := h
  refine ⟨_, ⟨hnodup, hpath, hlast⟩, fun r => ⟨hlisted r, fun hresident => ?_⟩⟩
  have hmem : (s.heap r).key ∈ s.tablets.keys := by
    rw [ExtTreeMap.mem_keys, ExtTreeMap.mem_iff_isSome_getElem?, hresident]
    rfl
  obtain ⟨r', hr', hsame⟩ := hall _ hmem
  exact Option.some.inj (hresident.symm.trans hsame) ▸ hr'

/-- What can be decided of a step that evicts in order or evicts nobody. -/
def Keeping (s : LRUCache) (op : Op) : Prop := s.Suitable op ∧ (s.InPlace op ∨ s.Tracked)

instance (s : LRUCache) (op : Op) : Decidable (s.Keeping op) := inferInstanceAs (Decidable (_ ∧ _))

theorem Keeping.preserving (h : s.Keeping op) : s.Preserving op := ⟨h.1, h.2.imp_right Tracked.inOrder⟩

/-- Put, get and dele with names and values that have no comma. -/
def PutGetDele : Op → Prop
  | .put _ filename value _ _ => ',' ∉ filename ∧ ',' ∉ value
  | .get _ _ _ => True
  | .dele _ _ _ _ _ => True
  | _ => False

/-- An erased user comes back; its old node is evicted later and takes the new node's tablets entry
with it. -/
theorem not_reads_recreated :
    ¬ ∀ (ops : List Op) s, Run.Runs (Steps fun _ op => PutGetDele op) (fresh 10 true) ops s → ¬ s.Filled →
      ∀ u f w, (Store.after 10 ops u)[f]? = some w →
        ∃ fuel s', s.getHelper fuel u f 3 = .ok (some w, s') := by
  intro hall
  have hends : endsIn (fun _ _ => True) 5 (fresh 10 true) [.put "u".toList "f".toList "a".toList 3 0,
      .dele "u".toList "f".toList 3 0 false, .put "u".toList "f".toList "bcd".toList 3 0,
      .put "v".toList "g".toList "xxxxx".toList 3 0, .get "u".toList "f".toList 3, .put "w".toList "h".toList "yyyy".toList 3 0]
      (fun s => decide (s.tablets["u".toList]? = none ∧ s.virmemMeta["u".toList]? = some [[0, 0, 0]] ∧
        s.chunkInfo .virtualMemory = [0, 8] ∧ readRow s.disk .virtualMemory [[0, 0, 0]] = .ok [])) = true := by
    decide +kernel
  obtain ⟨s, hsteps, hstate⟩ := runs_of_endsIn_all PutGetDele hends (by simp [PutGetDele])
  obtain ⟨habsent, hvirmem, hinfo, hread⟩ := of_decide_eq_true hstate
  have hfilled : ¬ s.Filled := not_filled_of_chunkInfo hinfo
  obtain ⟨fuel, s', hget⟩ := hall _ s hsteps hfilled "u".toList "f".toList "bcd".toList (by decide)
  have hknown : ¬ (s.tablets["u".toList]? = none ∧ s.virmemMeta["u".toList]? = none) := by
    rw [hvirmem]
    simp
  rw [getHelper_of_known hknown, fetched, ExtTreeMap.contains_eq_isSome_getElem?, hvirmem] at hget
  obtain ⟨t, hload, hlook⟩ := Run.bind_eq_ok.mp hget
  obtain ⟨row, hrow, hrestore⟩ := Run.bind_eq_ok.mp hload
  have hrecords : (s.metaOf .virtualMemory).getD "u".toList [] = [[0, 0, 0]] := by
    rw [ExtTreeMap.getD_eq_getD_getElem?]
    exact congrArg (Option.getD · []) hvirmem
  rw [hrecords] at hrow
  obtain rfl : row = [] := (Except.ok.inj (hread.symm.trans hrow)).symm
  obtain rfl := Except.ok.inj hrestore
  have hnull : (s.clearMetadata .virtualMemory "u".toList).tablets["u".toList]? = none := habsent
  rw [lookUp, hnull] at hlook
  exact absurd hlook (by simp [deref, bind, Except.bind])

end PennCloud.LRUCache
