import Mathlib.Logic.Basic

/-!
# Runs that may fault

Sequencing in `Except` succeeds when both parts do, and a fold over a list keeps what each of its
steps keeps. `Runs` are the sequences of steps of a labelled relation, with the labels in order.
-/

namespace Run

universe u

variable {ε γ : Type*} {α β σ : Type u}

theorem bind_eq_ok {x : Except ε α} {f : α → Except ε β} {b : β} :
    x >>= f = .ok b ↔ ∃ a, x = .ok a ∧ f a = .ok b := by
  cases x with
  | error e => simp [bind, Except.bind]
  | ok a => simp [bind, Except.bind]

@[simp]
theorem ok_bind (a : α) (f : α → Except ε β) : (.ok a : Except ε α) >>= f = f a := rfl

theorem exists_bind_ok {x : Except ε α} {f : α → β} : (∃ b, (x >>= fun a => .ok (f a)) = .ok b) ↔ ∃ a, x = .ok a := by
  cases x with
  | error e => simp [bind, Except.bind]
  | ok a => simp [bind, Except.bind]

theorem bind_congr {x : Except ε α} {f g : α → Except ε β} (h : ∀ a, x = .ok a → f a = g a) :
    x >>= f = x >>= g := by
  cases x with
  | error e => rfl
  | ok a => exact h a rfl

theorem bind_ne_error {x : Except ε α} {f : α → Except ε β} {e : ε} (hx : x ≠ .error e)
    (hf : ∀ a, x = .ok a → f a ≠ .error e) : x >>= f ≠ .error e := by
  cases x with
  | error e' =>
      intro hbind
      obtain rfl : e' = e := Except.error.inj hbind
      exact hx rfl
  | ok a => exact hf a rfl

theorem mapM_eq_ok {f : γ → Except ε β} {g : γ → β} {l : List γ} (hf : ∀ a ∈ l, f a = .ok (g a)) :
    l.mapM f = .ok (l.map g) := by
  induction l with
  | nil => rfl
  | cons a l ih =>
      rw [List.mapM_cons, hf a List.mem_cons_self, ok_bind, ih fun b hb => hf b (List.mem_cons_of_mem _ hb), ok_bind]
      rfl

theorem foldlM_ne_error {f : σ → γ → Except ε σ} {e : ε} (hf : ∀ s a, f s a ≠ .error e) (l : List γ) (s : σ) :
    l.foldlM f s ≠ .error e := by
  induction l generalizing s with
  | nil => exact fun h => by cases h
  | cons a l ih =>
      rw [List.foldlM_cons]
      exact bind_ne_error (hf s a) fun t _ => ih t

theorem foldlM_invariant {f : σ → γ → Except ε σ} {P : σ → Prop} {l : List γ} {s s' : σ}
    (hstep : ∀ s a s', a ∈ l → P s → f s a = .ok s' → P s') (hs : P s)
    (hrun : l.foldlM f s = .ok s') : P s' := by
  induction l generalizing s with
  | nil =>
      obtain rfl : s = s' := Except.ok.inj hrun
      exact hs
  | cons a l ih =>
      rw [List.foldlM_cons] at hrun
      obtain ⟨t, hfirst, hrest⟩ := bind_eq_ok.mp hrun
      exact ih (fun s b s' hb => hstep s b s' (List.mem_cons_of_mem _ hb))
        (hstep s a t List.mem_cons_self hs hfirst) hrest

/-! ### What every result is like -/

/-- If the run succeeds, its result is one of these. -/
def Yields (P : α → Prop) (x : Except ε α) : Prop := ∀ a, x = .ok a → P a

theorem Yields.ok {P : α → Prop} {a : α} (h : P a) : Yields P (.ok a : Except ε α) := by
  intro b hb
  rwa [← Except.ok.inj hb]

theorem Yields.bind {P : β → Prop} {x : Except ε α} {f : α → Except ε β} (h : ∀ a, x = .ok a → Yields P (f a)) :
    Yields P (x >>= f) := by
  intro b hb
  obtain ⟨a, hx, hf⟩ := bind_eq_ok.mp hb
  exact h a hx b hf

/-! ### Two runs side by side -/

/-- Both succeed with related results, or both fault in the same way. -/
inductive Related (R : α → β → Prop) : Except ε α → Except ε β → Prop where
  | ok {a : α} {b : β} : R a b → Related R (.ok a) (.ok b)
  | error (e : ε) : Related R (.error e) (.error e)

theorem Related.exists_ok {R : α → β → Prop} {x : Except ε α} {y : Except ε β} {a : α} (h : Related R x y)
    (hx : x = .ok a) : ∃ b, y = .ok b ∧ R a b := by
  cases h with
  | ok hab => exact ⟨_, rfl, Except.ok.inj hx ▸ hab⟩
  | error e => cases hx

theorem Related.bind {α' β' : Type u} {R : α → β → Prop} {Q : α' → β' → Prop} {x : Except ε α} {y : Except ε β}
    {f : α → Except ε α'} {g : β → Except ε β'} (h : Related R x y) (hf : ∀ a b, R a b → Related Q (f a) (g b)) :
    Related Q (x >>= f) (y >>= g) := by
  cases h with
  | ok hab => exact hf _ _ hab
  | error e => exact .error e

theorem Related.after {α' β' : Type u} {Q : α' → β' → Prop} {x : Except ε α} {f : α → Except ε α'}
    {g : α → Except ε β'} (hf : ∀ a, Related Q (f a) (g a)) : Related Q (x >>= f) (x >>= g) := by
  cases x with
  | error e => exact .error e
  | ok a => exact hf a

theorem Related.foldlM {R : σ → σ → Prop} {f g : σ → γ → Except ε σ} (hf : ∀ s t a, R s t → Related R (f s a) (g t a))
    {s t : σ} (hs : R s t) (l : List γ) : Related R (l.foldlM f s) (l.foldlM g t) := by
  induction l generalizing s t with
  | nil => exact .ok hs
  | cons a l ih =>
      rw [List.foldlM_cons, List.foldlM_cons]
      exact (hf s t a hs).bind fun s' t' hs' => ih hs'

/-! ### Labelled steps -/

/-- One step after another, with their labels. -/
inductive Runs {S L : Type*} (step : S → L → S → Prop) (s : S) : List L → S → Prop where
  | nil : Runs step s [] s
  | snoc {as : List L} {t t' : S} {a : L} : Runs step s as t → step t a t' → Runs step s (as ++ [a]) t'

theorem Runs.invariant {S L : Type*} {step : S → L → S → Prop} {P : List L → S → Prop} {s t : S}
    {as : List L} (hs : P [] s)
    (hstep : ∀ as t a t', P as t → step t a t' → P (as ++ [a]) t') (hrun : Runs step s as t) :
    P as t := by
  induction hrun with
  | nil => exact hs
  | snoc _ hlast ih => exact hstep _ _ _ _ ih hlast

theorem Runs.cons {S L : Type*} {step : S → L → S → Prop} {s t t' : S} {a : L} {as : List L}
    (hfirst : step s a t) (hrun : Runs step t as t') : Runs step s (a :: as) t' := by
  induction hrun with
  | nil => exact .snoc .nil hfirst
  | snoc _ hlast ih => exact .snoc ih hlast

theorem Runs.append {S L : Type*} {step : S → L → S → Prop} {s t t' : S} {as bs : List L}
    (hrun : Runs step s as t) (hrun' : Runs step t bs t') : Runs step s (as ++ bs) t' := by
  induction hrun' with
  | nil => rwa [List.append_nil]
  | snoc _ hlast ih =>
      rw [← List.append_assoc]
      exact .snoc ih hlast

theorem Runs.exists_mid {S L : Type*} {step : S → L → S → Prop} {s t : S} {as bs : List L} (hrun : Runs step s (as ++ bs) t) :
    ∃ mid, Runs step s as mid ∧ Runs step mid bs t := by
  generalize hall : as ++ bs = all at hrun
  induction hrun generalizing bs with
  | nil =>
      obtain ⟨rfl, rfl⟩ := List.append_eq_nil_iff.mp hall
      exact ⟨s, .nil, .nil⟩
  | @snoc front t t' a hfront hlast ih =>
      rcases List.eq_nil_or_concat bs with rfl | ⟨back, b, rfl⟩
      · rw [List.append_nil] at hall
        exact ⟨t', hall ▸ .snoc hfront hlast, .nil⟩
      · rw [List.concat_eq_append, ← List.append_assoc] at hall
        obtain ⟨hfronts, hb⟩ := List.append_inj' hall rfl
        obtain rfl := (List.cons.inj hb).1
        obtain ⟨mid, hbefore, hafter⟩ := ih hfronts
        exact ⟨mid, hbefore, List.concat_eq_append ▸ .snoc hafter hlast⟩

theorem Runs.eq_of_nil {S L : Type*} {step : S → L → S → Prop} {s t : S} (hrun : Runs step s [] t) : t = s := by
  generalize hall : ([] : List L) = all at hrun
  cases hrun with
  | nil => rfl
  | snoc => exact absurd hall.symm (List.append_ne_nil_of_right_ne_nil _ (List.cons_ne_nil _ []))

theorem Runs.of_singleton {S L : Type*} {step : S → L → S → Prop} {s t : S} {a : L} (hrun : Runs step s [a] t) : step s a t := by
  generalize hall : [a] = all at hrun
  cases hrun with
  | nil => cases hall
  | snoc hfront hlast =>
      obtain ⟨hfronts, hlasts⟩ := @List.append_inj' _ [] _ _ _ hall rfl
      obtain rfl := (List.cons.inj hlasts).1
      rw [← hfronts] at hfront
      exact hfront.eq_of_nil ▸ hlast

theorem Runs.mono {S L : Type*} {step step' : S → L → S → Prop} {s t : S} {as : List L}
    (hstep : ∀ s a t, step s a t → step' s a t) (hrun : Runs step s as t) : Runs step' s as t := by
  induction hrun with
  | nil => exact .nil
  | snoc _ hlast ih => exact .snoc ih (hstep _ _ _ hlast)

/-- A fold is a run. -/
theorem Runs.of_foldlM {f : σ → γ → Except ε σ} {step : σ → γ → σ → Prop} {as : List γ} {s s' : σ}
    (hstep : ∀ a ∈ as, ∀ s s', f s a = .ok s' → step s a s') (hrun : as.foldlM f s = .ok s') :
    Runs step s as s' := by
  induction as generalizing s with
  | nil =>
      obtain rfl := Except.ok.inj hrun
      exact .nil
  | cons a as ih =>
      rw [List.foldlM_cons] at hrun
      obtain ⟨t, hfirst, hrest⟩ := bind_eq_ok.mp hrun
      exact .cons (hstep a List.mem_cons_self s t hfirst)
        (ih (fun b hb => hstep b (List.mem_cons_of_mem a hb)) hrest)

end Run
