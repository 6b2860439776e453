import PennCloud.Str

/-!
# Numbers in texts

`to_string` and the readers `stoi` and `atoi` agree, whatever stands behind the number, as long as it
is no digit.
-/

namespace PennCloud

variable {n : Int} {k : Nat} {rest : Str}

/-- The text behind a number does not go on with a digit. -/
def EndsNumber (rest : Str) : Prop := ∀ c, rest.head? = some c → c.isDigit = false

theorem endsNumber_nil : EndsNumber [] := fun c hc => by simp at hc

theorem endsNumber_cons {c : Char} (hc : c.isDigit = false) : EndsNumber (c :: rest) := by
  intro d hd
  obtain rfl := Option.some.inj hd
  exact hc

theorem isDigit_of_mem_digits {c : Char} (hc : c ∈ Nat.toDigits 10 k) : c.isDigit = true :=
  Nat.isDigit_of_mem_toDigits (by decide) (by decide) hc

theorem takeWhile_digits (hrest : EndsNumber rest) :
    (Nat.toDigits 10 k ++ rest).takeWhile Char.isDigit = Nat.toDigits 10 k := by
  rw [List.takeWhile_append_of_pos fun c hc => isDigit_of_mem_digits hc]
  cases rest with
  | nil => simp
  | cons c rest => rw [List.takeWhile_cons_of_neg (by simp [hrest c rfl]), List.append_nil]

theorem digits_eq_cons (k : Nat) : ∃ c cs, Nat.toDigits 10 k = c :: cs ∧ c.isDigit = true := by
  cases hdigits : Nat.toDigits 10 k with
  | nil => exact absurd hdigits Nat.toDigits_ne_nil
  | cons c cs => exact ⟨c, cs, rfl, isDigit_of_mem_digits (hdigits ▸ List.mem_cons_self)⟩

theorem isSpace_of_isDigit {c : Char} (hc : c.isDigit = true) : isSpace c = false := by
  rw [Bool.eq_false_iff]
  intro hspace
  simp only [isSpace, Bool.or_eq_true, decide_eq_true_eq] at hspace
  rcases hspace with ((((rfl | rfl) | rfl) | rfl) | rfl) | rfl
  all_goals exact absurd hc (by decide)

theorem splitSign_of_isDigit {c : Char} (hc : c.isDigit = true) (cs : Str) :
    splitSign (c :: cs) = (false, c :: cs) := by
  unfold splitSign
  split
  · next heq => exact absurd ((List.cons.inj heq).1 ▸ hc) (by decide)
  · next heq => exact absurd ((List.cons.inj heq).1 ▸ hc) (by decide)
  · rfl

theorem leadingInt_toStr (hrest : EndsNumber rest) : leadingInt (toStr n ++ rest) = some n := by
  have hread : Nat.ofDigitChars 10 (Nat.toDigits 10 n.natAbs) 0 = n.natAbs :=
    Nat.ofDigitChars_toDigits (by decide) (by decide)
  rw [toStr]
  split
  · next hneg =>
      have hspaces : ('-' :: Nat.toDigits 10 n.natAbs ++ rest).dropWhile isSpace =
          '-' :: (Nat.toDigits 10 n.natAbs ++ rest) := List.dropWhile_cons_of_neg (by decide)
      simp only [leadingInt, hspaces, splitSign, takeWhile_digits hrest, if_neg Nat.toDigits_ne_nil, hread,
        if_true]
      exact congrArg some (by omega)
  · next hnonneg =>
      obtain ⟨c, cs, hdigits, hc⟩ := digits_eq_cons n.natAbs
      have hspaces : (Nat.toDigits 10 n.natAbs ++ rest).dropWhile isSpace = Nat.toDigits 10 n.natAbs ++ rest := by
        rw [hdigits]
        exact List.dropWhile_cons_of_neg (by simp [isSpace_of_isDigit hc])
      have hsign : splitSign (Nat.toDigits 10 n.natAbs ++ rest) = (false, Nat.toDigits 10 n.natAbs ++ rest) := by
        rw [hdigits]
        exact splitSign_of_isDigit hc (cs ++ rest)
      simp only [leadingInt, hspaces, hsign, takeWhile_digits hrest, if_neg Nat.toDigits_ne_nil, hread,
        Bool.false_eq_true, if_false]
      exact congrArg some (by omega)

theorem stoi_toStr (hrest : EndsNumber rest) (hlow : -intMax - 1 ≤ n) (hhigh : n ≤ intMax) :
    stoi (toStr n ++ rest) = .ok n := by
  rw [stoi, leadingInt_toStr hrest]
  exact if_pos ⟨hlow, hhigh⟩

theorem leadingInt_toStr_nil (n : Int) : leadingInt (toStr n) = some n := by
  have hread := leadingInt_toStr (n := n) endsNumber_nil
  rwa [List.append_nil] at hread

theorem atoi_toStr (h : IsInt n) : atoi (toStr n) = n := by
  obtain ⟨hlow, hhigh⟩ := h
  have hlong : strtol (toStr n) = n := by
    rw [strtol, leadingInt_toStr_nil, Option.getD_some]
    simp only [intMax] at hlow hhigh
    omega
  rw [atoi, hlong, toInt32_of_range hlow hhigh]

theorem mem_toStr {c : Char} (hc : c ∈ toStr n) : c.isDigit = true ∨ c = '-' := by
  rw [toStr] at hc
  split at hc
  · exact (List.mem_cons.mp hc).symm.imp_left isDigit_of_mem_digits
  · exact Or.inl (isDigit_of_mem_digits hc)

theorem notMem_toStr {c : Char} (hdigit : c.isDigit = false) (hminus : c ≠ '-') : c ∉ toStr n := by
  intro hc
  rcases mem_toStr hc with hc | hc
  · exact absurd hc (by simp [hdigit])
  · exact hminus hc

end PennCloud
