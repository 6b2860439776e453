import PennCloud.Kv.Proof.Requests

/-!
# The arguments of a command

The loop of `parse_line` takes one field after another off the string, and what is left is the last argument, with all its commas.
-/

namespace PennCloud.Chunkserver

variable {s field rest : Str} {numOfArgs : Nat}

theorem find_of_cut_none (h : Fields.cut ',' s = none) : Search.find [','] s 0 = none :=
  Search.find_of_notMem (Fields.cut_eq_none.mp h)

theorem find_of_cut_some (h : Fields.cut ',' s = some (field, rest)) :
    Search.find [','] s 0 = some field.length ∧ substr s 0 field.length = .ok field ∧ s.drop (field.length + 1) = rest := by
  obtain ⟨rfl, hfield⟩ := Fields.cut_eq_some.mp h
  refine ⟨Search.find_cons (Nat.zero_le _) hfield rest, ?_, ?_⟩
  · rw [substr, if_neg (Nat.not_lt_zero _), List.drop_zero, List.take_left]
  · rw [← List.drop_drop, List.drop_left]
    rfl

theorem parseLoop_eq {k counter n : Nat} (hcounter : counter + k + 1 = numOfArgs) (hn : s.length < n) (arguments : List Str) :
    parseLoop numOfArgs n s arguments counter = .ok (arguments ++ takeFields k s) := by
  induction k generalizing s arguments counter n with
  | zero =>
      obtain ⟨n, rfl⟩ := Nat.exists_eq_succ_of_ne_zero (Nat.ne_zero_of_lt hn)
      have hlast : ¬ counter ≠ numOfArgs - 1 := by omega
      rw [parseLoop, takeFields]
      split
      · rfl
      · exact if_neg hlast
  | succ k ih =>
      obtain ⟨n, rfl⟩ := Nat.exists_eq_succ_of_ne_zero (Nat.ne_zero_of_lt hn)
      rw [parseLoop, takeFields]
      cases hcut : Fields.cut ',' s with
      | none => rw [find_of_cut_none hcut]
      | some cut =>
          obtain ⟨field, rest⟩ := cut
          obtain ⟨hfind, hsubstr, hdrop⟩ := find_of_cut_some hcut
          obtain ⟨rfl, -⟩ := Fields.cut_eq_some.mp hcut
          have hshort : rest.length < n := by
            simp only [List.length_append, List.length_cons] at hn
            omega
          rw [hfind]
          dsimp only
          rw [if_pos (show counter ≠ numOfArgs - 1 by omega), hsubstr, Run.ok_bind, hdrop, ih (by omega) hshort, List.append_assoc]
          rfl

/-! ### The fields -/

theorem takeFields_ne_nil (k : Nat) (s : Str) : takeFields k s ≠ [] := by
  cases k with
  | zero => exact List.cons_ne_nil s []
  | succ k =>
      rw [takeFields]
      split
      · exact List.cons_ne_nil s []
      · exact List.cons_ne_nil _ _

theorem length_takeFields (k : Nat) (s : Str) : (takeFields k s).length = min (k + 1) (s.count ',' + 1) := by
  induction k generalizing s with
  | zero =>
      rw [takeFields, List.length_singleton]
      omega
  | succ k ih =>
      rw [takeFields]
      cases hcut : Fields.cut ',' s with
      | none =>
          rw [List.count_eq_zero.mpr (Fields.cut_eq_none.mp hcut), List.length_singleton]
          omega
      | some cut =>
          obtain ⟨rfl, hfield⟩ := Fields.cut_eq_some.mp hcut
          rw [List.length_cons, ih, List.count_append, List.count_eq_zero.mpr hfield, List.count_cons_self]
          omega

theorem intercalate_takeFields (k : Nat) (s : Str) : [','].intercalate (takeFields k s) = s := by
  induction k generalizing s with
  | zero => exact List.intercalate_singleton
  | succ k ih =>
      rw [takeFields]
      cases hcut : Fields.cut ',' s with
      | none => exact List.intercalate_singleton
      | some cut =>
          obtain ⟨rfl, -⟩ := Fields.cut_eq_some.mp hcut
          dsimp only
          rw [List.intercalate_cons_of_ne_nil (takeFields_ne_nil k _), ih]
          simp

theorem notMem_takeFields (k : Nat) (s : Str) : ∀ i (hi : i < (takeFields k s).length), i ≠ k → ',' ∉ (takeFields k s)[i] := by
  induction k generalizing s with
  | zero =>
      intro i hi hne
      exact absurd (Nat.lt_one_iff.mp hi) hne
  | succ k ih =>
      rw [takeFields]
      cases hcut : Fields.cut ',' s with
      | none =>
          intro i hi _
          obtain rfl := Nat.lt_one_iff.mp hi
          exact Fields.cut_eq_none.mp hcut
      | some cut =>
          intro i hi hne
          cases i with
          | zero => exact (Fields.cut_eq_some.mp hcut).2
          | succ i => exact ih cut.2 i (Nat.lt_of_succ_lt_succ hi) fun heq => hne (congrArg Nat.succ heq)

/-- The arguments of a line: as many as there are fields, but no more than are asked for, and the line is theirs with its commas. -/
theorem parseLineInto_spec (s : Str) (arguments : List Str) (hargs : 1 ≤ numOfArgs) :
    ∃ args, parseLineInto s arguments numOfArgs = .ok (arguments ++ args) ∧ args = parseLine s numOfArgs ∧
      args.length = min numOfArgs (s.count ',' + 1) ∧ [','].intercalate args = s ∧
        ∀ i (hi : i < args.length), i + 1 ≠ numOfArgs → ',' ∉ args[i] := by
  obtain ⟨k, rfl⟩ := Nat.exists_eq_add_of_le' hargs
  refine ⟨takeFields k s, parseLoop_eq (by omega) (Nat.lt_succ_self _) arguments, rfl, length_takeFields k s,
    intercalate_takeFields k s, fun i hi hne => notMem_takeFields k s i hi (by omega)⟩

theorem parseLineInto_spec_three : ∃ args, parseLineInto "u,f,a,b".toList [] 3 = .ok ([] ++ args) ∧ args = parseLine "u,f,a,b".toList 3 ∧
    args.length = min 3 ("u,f,a,b".toList.count ',' + 1) ∧ [','].intercalate args = "u,f,a,b".toList ∧
      ∀ i (hi : i < args.length), i + 1 ≠ 3 → ',' ∉ args[i] :=
  parseLineInto_spec "u,f,a,b".toList [] (by decide)

end PennCloud.Chunkserver
