import PennCloud.Frontend.Proof.Lines

/-!
# A stream read to its end

One call of `read_rep_line` after another takes a stream apart. Each byte goes to a line, belongs to a line end, or
is the one that the reader takes off behind a `\r` and forgets. So the lines are those of the stream exactly when no
byte is forgotten, which the lengths alone decide.
-/

namespace PennCloud

variable {line text rest : Str}

/-- `read_rep_line`, with what it leaves of the stream unless it has met the end. -/
def readRepCall : Str → Str → Str × Option Str
  | line, '\r' :: '\n' :: rest => (line, some rest)
  | line, '\r' :: _ :: rest => readRepCall (line ++ ['\r']) rest
  | line, c :: rest => readRepCall (line ++ [c]) rest
  | line, [] => (line, none)

theorem readRepLine_eq_call (line text : Str) :
    readRepLine line text = ((readRepCall line text).1, (readRepCall line text).2.getD []) := by
  fun_induction readRepCall line text with
  | case1 line rest => rfl
  | case2 line c rest hc ih => rw [readRepLine_return hc, ih]
  | case3 line c rest hbreak hreturn ih =>
      rw [readRepLine, ih]
      · exact hbreak
      · exact hreturn
  | case4 line => rfl

/-- The lines of one call after another, up to the call that meets the end of the stream. -/
def readToEnd : Nat → Str → Except Fault (List Str)
  | 0, _ => .error .outOfFuel
  | fuel + 1, stream =>
      match readRepCall [] stream with
      | (line, some rest) => do
          let lines ← readToEnd fuel rest
          .ok (line :: lines)
      | (line, none) => .ok [line]

/-- The lines that `\r\n` separates. -/
def crlfSegments (stream : Str) : List Str := (crlfSplit stream).1 ++ [(crlfSplit stream).2]

/-- Behind every `\r` stands a `\n` or the end of the stream. -/
def NoStray (stream : Str) : Prop := ∀ front c back, stream = front ++ '\r' :: c :: back → c = '\n'

theorem noStray_nil : NoStray [] := fun front c back heq => by simp at heq

theorem NoStray.cons {c : Char} (hc : c = '\r' → ∀ c' back, text = c' :: back → c' = '\n') (h : NoStray text) :
    NoStray (c :: text) := by
  intro front c' back heq
  cases front with
  | nil =>
      obtain ⟨rfl, htext⟩ := List.cons.inj heq
      exact hc rfl c' back htext
  | cons c'' front => exact h front c' back (List.cons.inj heq).2

theorem NoStray.of_append (front : Str) (h : NoStray (front ++ text)) : NoStray text :=
  fun front' c back heq => h (front ++ front') c back (by rw [heq, List.append_assoc])

/-! ### Lengths -/

/-- The bytes of a line and of its line end, counted for all lines. -/
def spread (lines : List Str) : Nat := (lines.map fun line => line.length + 2).sum

theorem spread_segments (stream : Str) : spread (crlfSegments stream) = stream.length + 2 := by
  have hlines (lines : List Str) : (lines.flatMap (· ++ "\r\n".toList)).length = spread lines := by
    rw [List.length_flatMap, spread]
    exact congrArg List.sum (List.map_congr_left fun line _ => List.length_append)
  have hjoin := congrArg List.length (crlfSplit_join stream)
  rw [List.length_append, hlines] at hjoin
  rw [crlfSegments, spread, List.map_append, List.sum_append, ← spread, List.map_singleton, List.sum_singleton]
  omega

/-- A call shows no more bytes than it takes, and as many only if it forgets none. -/
theorem readRepCall_length (front text : Str) : ∃ read left, readRepCall front text = (front ++ read, left) ∧
    read.length + (left.elim 0 fun rest => rest.length + 2) ≤ text.length ∧
      (read.length + (left.elim 0 fun rest => rest.length + 2) = text.length →
        (∀ rest, left = some rest → NoStray rest) → NoStray text) := by
  fun_induction readRepCall front text with
  | case1 front rest =>
      refine ⟨[], some rest, by rw [List.append_nil], by simp, fun _ hrest => ?_⟩
      have hline : NoStray ('\n' :: rest) := (hrest rest rfl).cons fun heq => absurd heq (by decide)
      exact hline.cons fun _ c back heq => (List.cons.inj heq).1.symm
  | case2 front c rest hc ih =>
      obtain ⟨read, left, hread, hle, _⟩ := ih
      refine ⟨'\r' :: read, left, by rw [hread, List.append_assoc, List.singleton_append], ?_, fun heq => ?_⟩
      all_goals simp only [List.length_cons] at *; omega
  | case3 front c rest hbreak hreturn ih =>
      obtain ⟨read, left, hread, hle, hall⟩ := ih
      refine ⟨c :: read, left, by rw [hread, List.append_assoc, List.singleton_append], ?_, fun heq hrest => ?_⟩
      · simp only [List.length_cons]
        omega
      · refine (hall (by simp only [List.length_cons] at heq; omega) hrest).cons fun hc c' back hback => ?_
        exact absurd hback (hreturn c' back hc)
  | case4 front => exact ⟨[], none, by rw [List.append_nil], le_rfl, fun _ _ => noStray_nil⟩

theorem exists_readToEnd (stream : Str) : ∃ lines, (∀ fuel, stream.length < fuel → readToEnd fuel stream = .ok lines) ∧
    spread lines ≤ stream.length + 2 ∧ (spread lines = stream.length + 2 → NoStray stream) := by
  induction hlength : stream.length using Nat.strongRecOn generalizing stream with
  | _ n ih =>
      subst hlength
      obtain ⟨read, left, hread, hle, hall⟩ := readRepCall_length [] stream
      rw [List.nil_append] at hread
      cases left with
      | none =>
          refine ⟨[read], fun fuel hfuel => ?_, ?_, fun heq => hall ?_ fun _ hrest => absurd hrest nofun⟩
          · obtain ⟨fuel, rfl⟩ := Nat.exists_eq_succ_of_ne_zero (Nat.ne_zero_of_lt hfuel)
            rw [readToEnd, hread]
          all_goals simp [spread] at *; omega
      | some rest =>
          simp only [Option.elim_some] at hle hall
          obtain ⟨lines, hlines, hspread, hstray⟩ := ih rest.length (by omega) rest rfl
          have hsum : spread (read :: lines) = read.length + 2 + spread lines := by simp [spread]
          refine ⟨read :: lines, fun fuel hfuel => ?_, by omega, fun heq => ?_⟩
          · obtain ⟨fuel, rfl⟩ := Nat.exists_eq_succ_of_ne_zero (Nat.ne_zero_of_lt hfuel)
            rw [readToEnd, hread]
            dsimp only
            rw [hlines fuel (by omega)]
            rfl
          · refine hall (by omega) fun rest' hrest => ?_
            obtain rfl := Option.some.inj hrest
            exact hstray (by omega)

/-! ### Lines -/

theorem readRepCall_last (htext : NoStray text) (hbreak : NoBreak text) (front : Str) :
    readRepCall front text = (front ++ text, none) := by
  fun_induction readRepCall front text with
  | case1 front rest => exact absurd rfl (hbreak [] rest)
  | case2 front c rest hc _ => exact absurd (htext [] c rest rfl) hc
  | case3 front c rest _ _ ih =>
      rw [ih (NoStray.of_append [c] htext) hbreak.of_cons, List.append_assoc, List.singleton_append]
  | case4 front => rw [List.append_nil]

theorem readRepCall_append (hline : '\r' ∉ line) (front rest : Str) :
    readRepCall front (line ++ '\r' :: '\n' :: rest) = (front ++ line, some rest) := by
  induction line generalizing front with
  | nil =>
      rw [List.append_nil]
      rfl
  | cons c line ih =>
      have hc : c ≠ '\r' := fun heq => hline (heq ▸ List.mem_cons_self)
      rw [List.cons_append, readRepCall, ih fun hmem => hline (List.mem_cons_of_mem c hmem), List.append_assoc,
        List.singleton_append]
      · exact fun _ heq => absurd heq hc
      · exact fun _ _ heq => absurd heq hc

/-- No `\r` of a line is followed by a byte of the line or by the line end. -/
theorem NoStray.notMem_line (h : NoStray (line ++ '\r' :: '\n' :: rest)) (hline : NoBreak line) : '\r' ∉ line := by
  intro hmem
  obtain ⟨front, back, rfl, _⟩ := List.eq_append_cons_of_mem hmem
  cases back with
  | nil => exact absurd (h front '\r' ('\n' :: rest) (by simp)) (by decide)
  | cons c back =>
      obtain rfl := h front c (back ++ '\r' :: '\n' :: rest) (by simp)
      exact hline front back rfl

theorem NoStray.readToEnd {stream : Str} (h : NoStray stream) {fuel : Nat} (hfuel : stream.length < fuel) :
    PennCloud.readToEnd fuel stream = .ok (crlfSegments stream) := by
  induction fuel generalizing stream with
  | zero => exact absurd hfuel (Nat.not_lt_zero _)
  | succ fuel ih =>
      rcases exists_line stream with hnone | ⟨line, rest, hline, rfl⟩
      · rw [PennCloud.readToEnd, readRepCall_last h hnone, crlfSegments, crlfSplit_of_noBreak hnone]
        rfl
      · have hrest : NoStray rest := NoStray.of_append (line ++ ['\r', '\n']) (by simpa using h)
        have hshort : rest.length < fuel := by
          simp only [List.length_append, List.length_cons] at hfuel
          omega
        rw [PennCloud.readToEnd, readRepCall_append (h.notMem_line hline)]
        dsimp only
        rw [ih hrest hshort, crlfSegments, crlfSegments, crlfSplit_append hline]
        rfl

/-- The calls come to the end of the stream, and show its lines exactly when behind every `\r` stands a `\n` or
nothing. -/
theorem readToEnd_iff (stream : Str) : ∃ lines, (∀ fuel, stream.length < fuel → readToEnd fuel stream = .ok lines) ∧
    (lines = crlfSegments stream ↔ NoStray stream) := by
  obtain ⟨lines, hlines, _, hstray⟩ := exists_readToEnd stream
  refine ⟨lines, hlines, fun heq => hstray (heq ▸ spread_segments stream), fun h => ?_⟩
  have hread := hlines (stream.length + 1) (Nat.lt_succ_self _)
  rw [h.readToEnd (Nat.lt_succ_self _)] at hread
  exact (Except.ok.inj hread).symm

/-- The byte between two `\r` is not in any line. -/
theorem not_readToEnd_stray : ¬ ∀ stream : Str, ∃ fuel, readToEnd fuel stream = .ok (crlfSegments stream) := by
  intro hall
  obtain ⟨fuel, hread⟩ := hall "a\rb\r\n".toList
  have hlines : ∀ fuel, readToEnd fuel "a\rb\r\n".toList = .ok ["a\r".toList, []] ∨
      readToEnd fuel "a\rb\r\n".toList = .error .outOfFuel := by
    intro fuel
    match fuel with
    | 0 => exact Or.inr rfl
    | 1 => exact Or.inr rfl
    | fuel + 2 => exact Or.inl rfl
  rcases hlines fuel with heq | heq
  · rw [heq] at hread
    exact absurd (Except.ok.inj hread) (by decide)
  · rw [heq] at hread
    cases hread

end PennCloud
