import Mathlib.Data.List.Basic
import Mathlib.Data.List.Nodup
import Mathlib.Logic.Function.Basic

/-!
# Doubly linked lists between two sentinels

Nodes carry a `next` and a `prev` pointer, either of which may be null. `Path` follows one of the two
from a node to another. A list is linked forwards when `next` leads from the head through its nodes
to the tail and the tail points back at the last of them; it is well formed when `prev` leads back
through the same nodes. The operations are the pointer assignments that move a node to the tail,
take a node out and drop the first node.
-/

namespace DList

variable {R : Type*}

structure Links (R : Type*) where
  next : R → Option R
  prev : R → Option R

/-- Following `f` from `a` visits exactly the nodes of the list, then arrives at `b`. -/
def Path (f : R → Option R) : R → List R → R → Prop
  | a, [], b => f a = some b
  | a, x :: l, b => f a = some x ∧ Path f x l b

instance decidablePath [DecidableEq R] (f : R → Option R) (b : R) : (a : R) → (l : List R) → Decidable (Path f a l b)
  | a, [] => inferInstanceAs (Decidable (f a = some b))
  | a, x :: l =>
      have : Decidable (Path f x l b) := decidablePath f b x l
      inferInstanceAs (Decidable (f a = some x ∧ Path f x l b))

/-- `next` runs from the head through the list to the tail, and the tail points back at its end. -/
structure Forward (L : Links R) (head tail : R) (l : List R) : Prop where
  nodup : (head :: tail :: l).Nodup
  path : Path L.next head l tail
  last : L.prev tail = some (l.getLastD head)

/-- Both directions visit the list, one in order and one in reverse. -/
structure WellFormed (L : Links R) (head tail : R) (l : List R) : Prop where
  nodup : (head :: tail :: l).Nodup
  path : Path L.next head l tail
  back : Path L.prev tail l.reverse head

/-- No pointer that an operation follows from a sentinel or from a node of `A` is null, and it leads
to a node of `A` or to the other sentinel. -/
structure Pointed (L : Links R) (head tail : R) (A : R → Prop) : Prop where
  next : ∀ r, r = head ∨ A r → ∃ x, L.next r = some x ∧ (x = tail ∨ A x)
  prev : ∀ r, r = tail ∨ A r → ∃ x, L.prev r = some x ∧ (x = head ∨ A x)

/-! ### Paths -/

theorem Path.append {f : R → Option R} {a b x : R} {l l' : List R} :
    Path f a (l ++ x :: l') b ↔ Path f a l x ∧ Path f x l' b := by
  induction l generalizing a with
  | nil => rfl
  | cons y l ih =>
      rw [List.cons_append, Path, Path, ih, and_assoc]

theorem Path.concat {f : R → Option R} {a b x : R} {l : List R} :
    Path f a (l ++ [x]) b ↔ Path f a l x ∧ f x = some b :=
  Path.append

/-- A path only looks at the pointers of its start and its nodes. -/
theorem Path.congr {f g : R → Option R} {a a' b : R} {l : List R} (hstart : f a = g a')
    (hfg : ∀ x ∈ l, f x = g x) (hpath : Path f a l b) : Path g a' l b := by
  induction l generalizing a a' with
  | nil => exact hstart.symm.trans hpath
  | cons x l ih =>
      refine ⟨hstart.symm.trans hpath.1, ih (hfg x List.mem_cons_self) ?_ hpath.2⟩
      exact fun y hy => hfg y (List.mem_cons_of_mem _ hy)

theorem Path.last_eq {f : R → Option R} {a b : R} {l : List R} (hpath : Path f a l b) :
    f (l.getLastD a) = some b := by
  induction l generalizing a with
  | nil => exact hpath
  | cons x l ih =>
      rw [List.getLastD_cons]
      exact ih hpath.2

theorem Path.unique {f : R → Option R} {a b : R} {l l' : List R} (hpath : Path f a l b)
    (hpath' : Path f a l' b) (hl : b ∉ l) (hl' : b ∉ l') : l = l' := by
  induction l generalizing a l' with
  | nil =>
      cases l' with
      | nil => rfl
      | cons y l' =>
          have heq : b = y := Option.some.inj (hpath.symm.trans hpath'.1)
          exact absurd (heq ▸ List.mem_cons_self) hl'
  | cons x l ih =>
      cases l' with
      | nil =>
          have heq : b = x := Option.some.inj (hpath'.symm.trans hpath.1)
          exact absurd (heq ▸ List.mem_cons_self) hl
      | cons y l' =>
          obtain rfl : x = y := Option.some.inj (hpath.1.symm.trans hpath'.1)
          rw [ih hpath.2 hpath'.2 (fun h => hl (List.mem_cons_of_mem _ h))
            (fun h => hl' (List.mem_cons_of_mem _ h))]

section Update

variable [DecidableEq R] {f : R → Option R} {a b x y : R} {l l' : List R}

theorem Path.update {v : Option R} (hx : x ∉ a :: l) (hpath : Path f a l b) :
    Path (Function.update f x v) a l b := by
  have hne : ∀ y ∈ a :: l, f y = Function.update f x v y := by
    intro y hy
    have hne : y ≠ x := fun heq => hx (heq ▸ hy)
    rw [Function.update_of_ne hne]
  exact hpath.congr (hne a List.mem_cons_self) fun y hy => hne y (List.mem_cons_of_mem _ hy)

theorem Path.update_last (hnodup : (a :: l).Nodup) (hpath : Path f a l b) :
    Path (Function.update f (l.getLastD a) (some y)) a l y := by
  induction l generalizing a with
  | nil =>
      rw [List.getLastD_nil, Path, Function.update_self]
  | cons x l ih =>
      rw [List.getLastD_cons]
      have hne : a ≠ l.getLastD x := by
        intro heq
        exact (List.nodup_cons.mp hnodup).1 (heq ▸ List.getLastD_mem_cons)
      refine ⟨?_, ih (List.nodup_cons.mp hnodup).2 hpath.2⟩
      rw [Function.update_of_ne hne]
      exact hpath.1

theorem Path.bypass (hnodup : (a :: (l ++ x :: l')).Nodup) (hpath : Path f a (l ++ x :: l') b)
    (hxy : f x = some y) : Path (Function.update f (l.getLastD a) (some y)) a (l ++ l') b := by
  obtain ⟨hfront, hback⟩ := Path.append.mp hpath
  have hsplit : (a :: l).Nodup ∧ (x :: l').Nodup ∧ ∀ z ∈ a :: l, z ∉ x :: l' := by
    rw [← List.cons_append, List.nodup_append] at hnodup
    exact ⟨hnodup.1, hnodup.2.1, fun z hz hz' => hnodup.2.2 z hz z hz' rfl⟩
  cases l' with
  | nil =>
      obtain rfl : y = b := Option.some.inj (hxy.symm.trans hback)
      rw [List.append_nil]
      exact hfront.update_last hsplit.1
  | cons z l' =>
      obtain rfl : y = z := Option.some.inj (hxy.symm.trans hback.1)
      refine Path.append.mpr ⟨hfront.update_last hsplit.1, hback.2.update ?_⟩
      intro hmem
      exact hsplit.2.2 _ List.getLastD_mem_cons (List.mem_cons_of_mem _ hmem)

end Update

/-! ### Operations -/

section Operations

variable [DecidableEq R] {L : Links R} {head tail x p n : R} {l l' : List R}

/-- Make `x` the node before the tail, behind `p`. -/
def Links.moveToTail (L : Links R) (tail x p : R) : Links R where
  next := Function.update (Function.update L.next p (some x)) x (some tail)
  prev := Function.update (Function.update L.prev x (some p)) tail (some x)

/-- Link `p` and `n` to each other. -/
def Links.bypass (L : Links R) (p n : R) : Links R where
  next := Function.update L.next p (some n)
  prev := Function.update L.prev n (some p)

theorem Links.moveToTail_next : (L.moveToTail tail x p).next =
    Function.update (Function.update L.next p (some x)) x (some tail) := rfl

theorem Links.moveToTail_prev : (L.moveToTail tail x p).prev =
    Function.update (Function.update L.prev x (some p)) tail (some x) := rfl

theorem Links.bypass_next : (L.bypass p n).next = Function.update L.next p (some n) := rfl

theorem Links.bypass_prev : (L.bypass p n).prev = Function.update L.prev n (some p) := rfl

omit [DecidableEq R] in
theorem WellFormed.forward (h : WellFormed L head tail l) : Forward L head tail l := by
  refine ⟨h.nodup, h.path, ?_⟩
  cases hrev : l.reverse with
  | nil =>
      rw [List.reverse_eq_nil_iff.mp hrev]
      have hback := h.back
      rw [hrev] at hback
      exact hback
  | cons x r =>
      have hl : l = r.reverse ++ [x] := by rw [← List.reverse_reverse l, hrev, List.reverse_cons]
      have hback := h.back
      rw [hrev] at hback
      rw [hl, List.getLastD_concat]
      exact hback.1

omit [DecidableEq R] in
theorem Forward.head_notMem (h : Forward L head tail l) : head ∉ tail :: l :=
  (List.nodup_cons.mp h.nodup).1

omit [DecidableEq R] in
theorem Forward.tail_notMem (h : Forward L head tail l) : tail ∉ head :: l := by
  have htail := (List.nodup_cons.mp (List.nodup_cons.mp h.nodup).2).1
  intro hmem
  rcases List.mem_cons.mp hmem with heq | hmem
  · exact h.head_notMem (heq ▸ List.mem_cons_self)
  · exact htail hmem

omit [DecidableEq R] in
theorem Forward.nodup_nodes (h : Forward L head tail l) : l.Nodup :=
  (List.nodup_cons.mp (List.nodup_cons.mp h.nodup).2).2

omit [DecidableEq R] in
theorem Forward.getLastD_ne_tail (h : Forward L head tail l) : l.getLastD head ≠ tail :=
  fun heq => h.tail_notMem (heq ▸ List.getLastD_mem_cons)

omit [DecidableEq R] in
private theorem nodup_concat (hnodup : (head :: tail :: l).Nodup) (hx : x ∉ head :: tail :: l) :
    (head :: tail :: (l ++ [x])).Nodup := by
  rw [← List.cons_append, ← List.cons_append, List.nodup_append]
  refine ⟨hnodup, List.nodup_singleton x, ?_⟩
  rintro y hy z hz rfl
  exact hx (List.mem_singleton.mp hz ▸ hy)

omit [DecidableEq R] in
private theorem nodup_head (hnodup : (head :: tail :: l).Nodup) : (head :: l).Nodup :=
  hnodup.sublist (List.Sublist.cons_cons head (List.sublist_cons_self tail l))

private theorem path_moveToTail (hnodup : (head :: tail :: l).Nodup)
    (hpath : Path L.next head l tail) (hx : x ∉ head :: tail :: l) :
    Path (L.moveToTail tail x (l.getLastD head)).next head (l ++ [x]) tail := by
  refine Path.concat.mpr ⟨?_, by rw [Links.moveToTail_next, Function.update_self]⟩
  refine (hpath.update_last (nodup_head hnodup)).update ?_
  intro hmem
  exact hx ((List.Sublist.cons_cons head (List.sublist_cons_self tail l)).subset hmem)

theorem Forward.moveToTail (h : Forward L head tail l) (hx : x ∉ head :: tail :: l) :
    Forward (L.moveToTail tail x (l.getLastD head)) head tail (l ++ [x]) := by
  refine ⟨nodup_concat h.nodup hx, path_moveToTail h.nodup h.path hx, ?_⟩
  rw [List.getLastD_concat, Links.moveToTail_prev, Function.update_self]

/-- Moving the last node to the tail once more keeps the list, although the node's own `prev` is lost. -/
theorem Forward.moveToTail_last (h : Forward L head tail (l ++ [x])) :
    Forward (L.moveToTail tail x x) head tail (l ++ [x]) := by
  have hlast : (L.moveToTail tail x x).prev tail = some x := by
    rw [Links.moveToTail_prev, Function.update_self]
  refine ⟨h.nodup, ?_, by rw [List.getLastD_concat, hlast]⟩
  obtain ⟨hfront, _⟩ := Path.concat.mp h.path
  have hnotMem : x ∉ head :: l := by
    intro hmem
    have hnodup := nodup_head h.nodup
    rw [← List.cons_append, List.nodup_append] at hnodup
    exact hnodup.2.2 x hmem x (List.mem_singleton.mpr rfl) rfl
  refine Path.concat.mpr ⟨(hfront.update hnotMem).update hnotMem, ?_⟩
  rw [Links.moveToTail_next, Function.update_self]

theorem Forward.bypass_first (h : Forward L head tail (x :: l)) (hn : L.next x = some n) :
    Forward (L.bypass head n) head tail l := by
  have hnodup := h.nodup.sublist ((List.sublist_cons_self x l).cons_cons tail |>.cons_cons head)
  have hpath : Path (L.bypass head n).next head l tail :=
    Path.bypass (l := []) (nodup_head h.nodup) h.path hn
  refine ⟨hnodup, hpath, ?_⟩
  cases l with
  | nil =>
      obtain rfl : n = tail := Option.some.inj (hn.symm.trans h.path.2)
      rw [List.getLastD_nil, Links.bypass_prev, Function.update_self]
  | cons y l =>
      obtain rfl : n = y := Option.some.inj (hn.symm.trans h.path.2.1)
      have hne : tail ≠ n := fun heq =>
        h.tail_notMem (heq ▸ List.mem_cons_of_mem _ (List.mem_cons_of_mem _ List.mem_cons_self))
      rw [List.getLastD_cons, Links.bypass_prev, Function.update_of_ne hne, h.last, List.getLastD_cons,
        List.getLastD_cons]

theorem WellFormed.moveToTail (h : WellFormed L head tail l) (hx : x ∉ head :: tail :: l) :
    WellFormed (L.moveToTail tail x (l.getLastD head)) head tail (l ++ [x]) := by
  refine ⟨nodup_concat h.nodup hx, path_moveToTail h.nodup h.path hx, ?_⟩
  have htail : x ≠ tail := fun heq => hx (heq ▸ List.mem_cons_of_mem _ List.mem_cons_self)
  rw [List.reverse_concat]
  refine ⟨by rw [Links.moveToTail_prev, Function.update_self], ?_⟩
  refine h.back.congr ?_ ?_
  · rw [h.forward.last, Links.moveToTail_prev, Function.update_of_ne htail, Function.update_self]
  · intro y hy
    have hmem : y ∈ l := List.mem_reverse.mp hy
    have hyx : y ≠ x := fun heq =>
      hx (heq ▸ List.mem_cons_of_mem _ (List.mem_cons_of_mem _ hmem))
    have hyt : y ≠ tail := fun heq =>
      h.forward.tail_notMem (heq ▸ List.mem_cons_of_mem _ hmem)
    rw [Links.moveToTail_prev, Function.update_of_ne hyt, Function.update_of_ne hyx]

omit [DecidableEq R] in
theorem WellFormed.neighbours (h : WellFormed L head tail (l ++ x :: l')) :
    L.prev x = some (l.getLastD head) ∧ L.next x = some (l'.headD tail) := by
  constructor
  · have hback := h.back
    rw [List.reverse_append, List.reverse_cons, List.append_assoc, List.singleton_append] at hback
    have hpath := (Path.append.mp hback).2
    cases hrev : l.reverse with
    | nil =>
        rw [hrev] at hpath
        rw [List.reverse_eq_nil_iff.mp hrev]
        exact hpath
    | cons y r =>
        rw [hrev] at hpath
        have hl : l = r.reverse ++ [y] := by
          rw [← List.reverse_reverse l, hrev, List.reverse_cons]
        rw [hl, List.getLastD_concat]
        exact hpath.1
  · have hpath := (Path.append.mp h.path).2
    cases l' with
    | nil => exact hpath
    | cons y l' => exact hpath.1

theorem WellFormed.bypass (h : WellFormed L head tail (l ++ x :: l')) :
    WellFormed (L.bypass (l.getLastD head) (l'.headD tail)) head tail (l ++ l') := by
  obtain ⟨hprev, hnext⟩ := h.neighbours
  have hsub : List.Sublist (l ++ l') (l ++ x :: l') :=
    (List.sublist_cons_self x l').append_left l
  refine ⟨h.nodup.sublist ((hsub.cons_cons tail).cons_cons head), ?_, ?_⟩
  · exact Path.bypass (nodup_head h.nodup) h.path hnext
  · have hback := h.back
    rw [List.reverse_append, List.reverse_cons, List.append_assoc, List.singleton_append] at hback
    have hnodup : (tail :: (l'.reverse ++ x :: l.reverse)).Nodup := by
      have heq : l'.reverse ++ x :: l.reverse = (l ++ x :: l').reverse := by simp
      rw [heq, List.nodup_cons, List.mem_reverse, List.nodup_reverse]
      exact List.nodup_cons.mp (List.nodup_cons.mp h.nodup).2
    have hlast : l'.reverse.getLastD tail = l'.headD tail := by
      cases l' with
      | nil => rfl
      | cons y l' => rw [List.reverse_cons, List.getLastD_concat, List.headD_cons]
    rw [List.reverse_append]
    have hpath := Path.bypass hnodup hback hprev
    rw [hlast] at hpath
    exact hpath

/-! ### Pointers outside the list -/

omit [DecidableEq R] in
theorem Forward.congr {L' : Links R} (h : Forward L head tail l)
    (hnext : ∀ r ∈ head :: l, L.next r = L'.next r) (hprev : L.prev tail = L'.prev tail) :
    Forward L' head tail l := by
  refine ⟨h.nodup, ?_, hprev ▸ h.last⟩
  exact h.path.congr (hnext head List.mem_cons_self) fun r hr =>
    hnext r (List.mem_cons_of_mem _ hr)

omit [DecidableEq R] in
theorem WellFormed.congr {L' : Links R} (h : WellFormed L head tail l)
    (hnext : ∀ r ∈ head :: l, L.next r = L'.next r) (hprev : ∀ r ∈ tail :: l, L.prev r = L'.prev r) :
    WellFormed L' head tail l := by
  refine ⟨h.nodup, ?_, ?_⟩
  · exact h.path.congr (hnext head List.mem_cons_self) fun r hr =>
      hnext r (List.mem_cons_of_mem _ hr)
  · exact h.back.congr (hprev tail List.mem_cons_self) fun r hr =>
      hprev r (List.mem_cons_of_mem _ (List.mem_reverse.mp hr))

variable {A A' : R → Prop}

omit [DecidableEq R] in
theorem Pointed.congr {L' : Links R} (h : Pointed L head tail A)
    (hnext : ∀ r, r = head ∨ A r → L.next r = L'.next r)
    (hprev : ∀ r, r = tail ∨ A r → L.prev r = L'.prev r) : Pointed L' head tail A :=
  ⟨fun r hr => hnext r hr ▸ h.next r hr, fun r hr => hprev r hr ▸ h.prev r hr⟩

theorem Pointed.moveToTail (h : Pointed L head tail A) (hA : ∀ r, A' r ↔ A r ∨ r = x)
    (hp : L.prev tail = some p) : Pointed (L.moveToTail tail x p) head tail A' := by
  have hx : A' x := (hA x).mpr (Or.inr rfl)
  have hp' : p = head ∨ A' p := by
    obtain ⟨q, hq, hqA⟩ := h.prev tail (Or.inl rfl)
    obtain rfl := Option.some.inj (hp.symm.trans hq)
    exact hqA.imp_right fun hA' => (hA p).mpr (Or.inl hA')
  constructor
  · intro r hr
    rw [Links.moveToTail_next]
    by_cases hrx : r = x
    · exact ⟨tail, by rw [hrx, Function.update_self], Or.inl rfl⟩
    · rw [Function.update_of_ne hrx]
      by_cases hrp : r = p
      · exact ⟨x, by rw [hrp, Function.update_self], Or.inr hx⟩
      · rw [Function.update_of_ne hrp]
        have hrA : r = head ∨ A r := hr.imp_right fun h => ((hA r).mp h).resolve_right hrx
        obtain ⟨y, hy, hyA⟩ := h.next r hrA
        exact ⟨y, hy, hyA.imp_right fun h => (hA y).mpr (Or.inl h)⟩
  · intro r hr
    rw [Links.moveToTail_prev]
    by_cases hrt : r = tail
    · exact ⟨x, by rw [hrt, Function.update_self], Or.inr hx⟩
    · rw [Function.update_of_ne hrt]
      by_cases hrx : r = x
      · exact ⟨p, by rw [hrx, Function.update_self], hp'⟩
      · rw [Function.update_of_ne hrx]
        have hrA : A r := ((hA r).mp (hr.resolve_left hrt)).resolve_right hrx
        obtain ⟨y, hy, hyA⟩ := h.prev r (Or.inr hrA)
        exact ⟨y, hy, hyA.imp_right fun h => (hA y).mpr (Or.inl h)⟩

theorem Pointed.bypass (h : Pointed L head tail A) (hp : p = head ∨ A p) (hn : n = tail ∨ A n) :
    Pointed (L.bypass p n) head tail A := by
  constructor
  · intro r hr
    rw [Links.bypass_next]
    by_cases hrp : r = p
    · exact ⟨n, by rw [hrp, Function.update_self], hn⟩
    · rw [Function.update_of_ne hrp]
      exact h.next r hr
  · intro r hr
    rw [Links.bypass_prev]
    by_cases hrn : r = n
    · exact ⟨p, by rw [hrn, Function.update_self], hp⟩
    · rw [Function.update_of_ne hrn]
      exact h.prev r hr

end Operations

end DList
