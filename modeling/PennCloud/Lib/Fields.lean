import Mathlib.Data.List.TakeWhile

/-!
# Fields ended by a separator

A loop that searches the first separator, takes what stands before it and erases both reads a list
off as the fields that a separator ends, and leaves the part after the last separator. Nothing is
lost that way, and joining fields that contain no separator is undone by it.
-/

namespace Fields

variable {α : Type*} [DecidableEq α]

/-- Split at the first separator, if there is one. -/
def cut (d : α) (s : List α) : Option (List α × List α) :=
  match s.dropWhile (· != d) with
  | [] => none
  | _ :: rest => some (s.takeWhile (· != d), rest)

/-- The fields that a separator ends. -/
def pieces (d : α) (s : List α) : List (List α) := (s.splitOn d).dropLast

/-- What follows the last separator. -/
def remainder (d : α) (s : List α) : List α := (s.splitOn d).getLastD []

/-- The fields one after another, each ended by a separator. -/
def terminate (d : α) (fields : List (List α)) : List α := fields.flatMap (· ++ [d])

variable {d : α} {s rest field : List α}

theorem cut_append (hfield : d ∉ field) : cut d (field ++ d :: rest) = some (field, rest) := by
  have hne : ∀ a ∈ field, (a != d) = true := by
    intro a ha
    simpa using fun heq : a = d => hfield (heq ▸ ha)
  rw [cut, List.dropWhile_append_of_pos hne, List.takeWhile_append_of_pos hne]
  simp

theorem cut_eq_none : cut d s = none ↔ d ∉ s := by
  constructor
  · intro hcut hmem
    obtain ⟨front, back, rfl, hfront⟩ := List.eq_append_cons_of_mem hmem
    rw [cut_append hfront] at hcut
    exact Option.some_ne_none _ hcut
  · intro hnotMem
    have hne : ∀ a ∈ s, (a != d) = true := by
      intro a ha
      simpa using fun heq : a = d => hnotMem (heq ▸ ha)
    rw [cut, List.dropWhile_eq_nil_iff.mpr hne]

theorem cut_eq_some : cut d s = some (field, rest) ↔ s = field ++ d :: rest ∧ d ∉ field := by
  constructor
  · intro hcut
    have hmem : d ∈ s := by
      by_contra hnotMem
      rw [cut_eq_none.mpr hnotMem] at hcut
      exact Option.some_ne_none _ hcut.symm
    obtain ⟨front, back, rfl, hfront⟩ := List.eq_append_cons_of_mem hmem
    rw [cut_append hfront, Option.some.injEq, Prod.mk.injEq] at hcut
    obtain ⟨rfl, rfl⟩ := hcut
    exact ⟨rfl, hfront⟩
  · rintro ⟨rfl, hfield⟩
    exact cut_append hfield

/-! ### The loop, one round at a time -/

theorem pieces_append_cons (hfield : d ∉ field) :
    pieces d (field ++ d :: rest) = field :: pieces d rest := by
  rw [pieces, List.splitOn_append_cons_self_of_not_mem hfield,
    List.dropLast_cons_of_ne_nil (List.splitOn_ne_nil d rest), pieces]

theorem remainder_append_cons (hfield : d ∉ field) :
    remainder d (field ++ d :: rest) = remainder d rest := by
  rw [remainder, List.splitOn_append_cons_self_of_not_mem hfield, remainder]
  cases hsplit : rest.splitOn d with
  | nil => exact absurd hsplit (List.splitOn_ne_nil d rest)
  | cons a as => rw [List.getLastD_cons, List.getLastD_cons, List.getLastD_cons]

theorem pieces_of_notMem (hs : d ∉ s) : pieces d s = [] := by
  rw [pieces, List.splitOn_eq_singleton hs, List.dropLast_singleton]

theorem remainder_of_notMem (hs : d ∉ s) : remainder d s = s := by
  rw [remainder, List.splitOn_eq_singleton hs, List.getLastD_cons, List.getLastD_nil]

@[simp]
theorem pieces_nil : pieces d [] = [] := pieces_of_notMem List.not_mem_nil

omit [DecidableEq α] in
@[simp]
theorem terminate_nil : terminate d [] = [] := rfl

omit [DecidableEq α] in
@[simp]
theorem terminate_cons (field : List α) (fields : List (List α)) :
    terminate d (field :: fields) = field ++ d :: terminate d fields := by
  simp [terminate]

omit [DecidableEq α] in
theorem terminate_append (fields fields' : List (List α)) :
    terminate d (fields ++ fields') = terminate d fields ++ terminate d fields' :=
  List.flatMap_append

theorem terminate_pieces_append (s : List α) :
    terminate d (pieces d s) ++ remainder d s = s ∧ (∀ p ∈ pieces d s, d ∉ p) ∧
      d ∉ remainder d s := by
  induction hlen : s.length using Nat.strongRecOn generalizing s with
  | _ n ih =>
      by_cases hmem : d ∈ s
      · obtain ⟨front, back, rfl, hfront⟩ := List.eq_append_cons_of_mem hmem
        have hback : back.length < n := by
          rw [← hlen, List.length_append, List.length_cons]
          omega
        obtain ⟨hjoin, hpieces, hrest⟩ := ih back.length hback back rfl
        rw [pieces_append_cons hfront, remainder_append_cons hfront, terminate_cons]
        refine ⟨by rw [List.append_assoc, List.cons_append, hjoin], ?_, hrest⟩
        intro p hp
        rcases List.mem_cons.mp hp with rfl | hp
        · exact hfront
        · exact hpieces p hp
      · rw [pieces_of_notMem hmem, remainder_of_notMem hmem]
        exact ⟨rfl, fun p hp => absurd hp List.not_mem_nil, hmem⟩

theorem notMem_of_mem_pieces {p : List α} (hp : p ∈ pieces d s) : d ∉ p :=
  (terminate_pieces_append s).2.1 p hp

theorem mem_of_mem_pieces {p : List α} {a : α} (hp : p ∈ pieces d s) (ha : a ∈ p) : a ∈ s := by
  rw [← (terminate_pieces_append (d := d) s).1, terminate, List.mem_append, List.mem_flatMap]
  exact Or.inl ⟨p, hp, List.mem_append_left _ ha⟩

/-! ### Joining fields without separators -/

theorem pieces_terminate_append {fields : List (List α)} (hfields : ∀ p ∈ fields, d ∉ p) :
    pieces d (terminate d fields ++ rest) = fields ++ pieces d rest := by
  induction fields with
  | nil => rfl
  | cons field fields ih =>
      have hfield : d ∉ field := hfields field List.mem_cons_self
      rw [terminate_cons, List.append_assoc, List.cons_append, pieces_append_cons hfield,
        ih fun p hp => hfields p (List.mem_cons_of_mem _ hp), List.cons_append]

theorem remainder_terminate_append {fields : List (List α)} (hfields : ∀ p ∈ fields, d ∉ p) :
    remainder d (terminate d fields ++ rest) = remainder d rest := by
  induction fields with
  | nil => rfl
  | cons field fields ih =>
      have hfield : d ∉ field := hfields field List.mem_cons_self
      rw [terminate_cons, List.append_assoc, List.cons_append, remainder_append_cons hfield,
        ih fun p hp => hfields p (List.mem_cons_of_mem _ hp)]

theorem pieces_terminate {fields : List (List α)} (hfields : ∀ p ∈ fields, d ∉ p) :
    pieces d (terminate d fields) = fields := by
  have happend : pieces d (terminate d fields ++ []) = fields ++ pieces d [] :=
    pieces_terminate_append hfields
  simpa using happend

/-! ### Entries that begin with a separator -/

omit [DecidableEq α] in
theorem flatMap_cons_eq_terminate_append (front : List (List α)) (last : List α) :
    (front ++ [last]).flatMap (d :: ·) = terminate d ([] :: front) ++ last := by
  induction front with
  | nil => simp
  | cons field front ih => simpa using congrArg (field ++ ·) ih

theorem pieces_flatMap_cons {entries : List (List α)} (hne : entries ≠ []) (hentries : ∀ e ∈ entries, d ∉ e) :
    (pieces d (entries.flatMap (d :: ·))).drop 1 ++ [remainder d (entries.flatMap (d :: ·))] = entries := by
  obtain ⟨front, last, rfl⟩ : ∃ front last, entries = front ++ [last] :=
    ⟨_, _, (List.dropLast_concat_getLast hne).symm⟩
  have hfront : ∀ e ∈ [] :: front, d ∉ e := by
    intro e he
    rcases List.mem_cons.mp he with rfl | he
    · exact List.not_mem_nil
    · exact hentries e (List.mem_append_left _ he)
  have hlast : d ∉ last := hentries last (List.mem_append_right _ List.mem_cons_self)
  rw [flatMap_cons_eq_terminate_append, pieces_terminate_append hfront, remainder_terminate_append hfront,
    pieces_of_notMem hlast, remainder_of_notMem hlast, List.append_nil, List.drop_succ_cons, List.drop_zero]

end Fields
