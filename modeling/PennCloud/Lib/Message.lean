import PennCloud.Lib.Search

/-!
# Messages of a head and a body

The head of a message is a list of lines, each with an ending behind it, and one more ending. A reader that takes lines up to the
first empty one finds the head that was written exactly when no line is empty and no ending starts inside a line.
-/

namespace Message

variable {α : Type*} {ending line text rest : List α} {lines : List (List α)} {n : Nat}

/-- The text of a head. -/
def head (ending : List α) (lines : List (List α)) : List α := lines.flatMap (· ++ ending) ++ ending

/-- No ending starts inside the line. -/
def Whole (ending line : List α) : Prop := ∀ pos < line.length, ¬ ending <+: (line ++ ending).drop pos

theorem whole_nil : Whole ending [] := fun _ hpos => absurd hpos (Nat.not_lt_zero _)

theorem drop_line {pos : Nat} (hpos : pos < line.length) :
    ending <+: (line ++ (ending ++ rest)).drop pos ↔ ending <+: (line ++ ending).drop pos := by
  have hsplit : (line ++ (ending ++ rest)).drop pos = (line ++ ending).drop pos ++ rest := by
    rw [← List.append_assoc, List.drop_append_of_le_length]
    rw [List.length_append]
    omega
  rw [hsplit]
  constructor
  · intro hstarts
    refine List.prefix_of_prefix_length_le hstarts (List.prefix_append _ _) ?_
    rw [List.length_drop, List.length_append]
    omega
  · intro hstarts
    exact hstarts.trans (List.prefix_append _ _)

/-- An ending that does not end as it starts can only stand in a line as a whole. -/
theorem whole_iff (hending : ending ≠ []) (hborder : ∀ k, 0 < k → k < ending.length → ¬ ending.drop k <+: ending) :
    Whole ending line ↔ ¬ ending <:+: line := by
  constructor
  · rintro hwhole ⟨front, back, rfl⟩
    refine hwhole front.length ?_ ?_
    · rw [List.length_append, List.length_append]
      have hpos := List.length_pos_iff.mpr hending
      omega
    · rw [List.append_assoc, List.append_assoc, List.drop_left]
      exact List.prefix_append _ _
  · intro hnot pos hpos hstarts
    rw [List.drop_append_of_le_length hpos.le] at hstarts
    by_cases hlength : ending.length ≤ (line.drop pos).length
    · have hshorter := List.prefix_of_prefix_length_le hstarts (List.prefix_append _ _) hlength
      exact hnot (hshorter.isInfix.trans (List.drop_suffix pos line).isInfix)
    · have hshorter := List.prefix_of_prefix_length_le (List.prefix_append (line.drop pos) ending) hstarts (by omega)
      have hback : ending.drop (line.drop pos).length <+: ending := by
        obtain ⟨back, hback⟩ := hshorter
        rw [← hback, List.drop_left, hback]
        rwa [← hback, List.prefix_append_right_inj, hback] at hstarts
      refine hborder _ ?_ (by omega) hback
      rw [List.length_drop]
      omega

theorem head_nil : head ending [] = ending := List.nil_append ending

theorem head_cons : head ending (line :: lines) = line ++ (ending ++ head ending lines) := by
  rw [head, head, List.flatMap_cons, List.append_assoc, List.append_assoc]

theorem length_le_head (hlines : ∀ line ∈ lines, line ≠ []) : lines.length ≤ (head ending lines).length := by
  induction lines with
  | nil => exact Nat.zero_le _
  | cons line lines ih =>
      obtain ⟨hline, hlines⟩ := List.forall_mem_cons.mp hlines
      have hpos : 0 < line.length := List.length_pos_iff.mpr hline
      have hle := ih hlines
      rw [head_cons, List.length_append, List.length_append, List.length_cons]
      omega

/-! ### The reader -/

variable [DecidableEq α]

/-- The first line of a text, and what stands behind its ending. -/
def cutLine (ending text : List α) : Option (List α × List α) :=
  (Search.find ending text 0).map fun pos => (text.take pos, text.drop (pos + ending.length))

/-- The rounds of a reader: the lines up to the first empty one, and what stands behind it. -/
def readLines (ending : List α) : Nat → List α → Option (List (List α) × List α)
  | 0, _ => none
  | n + 1, text => do
      let (line, rest) ← cutLine ending text
      if line = [] then some ([], rest)
      else do
        let (lines, left) ← readLines ending n rest
        some (line :: lines, left)

/-- The head of a text, and what stands behind it. Each line takes at least one element. -/
def readHead (ending text : List α) : Option (List (List α) × List α) := readLines ending (text.length + 1) text

theorem cutLine_eq_some : cutLine ending text = some (line, rest) ↔ text = line ++ (ending ++ rest) ∧ Whole ending line := by
  rw [cutLine, Option.map_eq_some_iff]
  constructor
  · rintro ⟨pos, hfind, heq⟩
    obtain ⟨⟨_, hle, back, hback⟩, hfirst⟩ := Search.find_eq_some.mp hfind
    obtain ⟨rfl, rfl⟩ := Prod.mk.inj heq
    have htext : text = text.take pos ++ (ending ++ text.drop (pos + ending.length)) := by
      rw [← List.drop_drop, ← hback, List.drop_left, hback, List.take_append_drop]
    refine ⟨htext, fun q hq hstarts => hfirst q (Nat.zero_le _) ?_ ?_⟩
    · rw [List.length_take] at hq
      omega
    · rw [htext]
      exact (drop_line hq).mpr hstarts
  · rintro ⟨rfl, hwhole⟩
    refine ⟨line.length, Search.find_eq_some.mpr ⟨⟨Nat.zero_le _, ?_, ?_⟩, fun q _ hq => ?_⟩, ?_⟩
    · rw [List.length_append]
      exact Nat.le_add_right _ _
    · rw [List.drop_left]
      exact List.prefix_append _ _
    · rw [drop_line hq]
      exact hwhole q hq
    · rw [List.take_left, ← List.drop_drop, List.drop_left, List.drop_left]

theorem readLines_head (hlines : ∀ line ∈ lines, line ≠ [] ∧ Whole ending line) (hn : lines.length < n) (rest : List α) :
    readLines ending n (head ending lines ++ rest) = some (lines, rest) := by
  induction lines generalizing n with
  | nil =>
      obtain ⟨n, rfl⟩ := Nat.exists_eq_succ_of_ne_zero (Nat.ne_zero_of_lt hn)
      have hcut : cutLine ending (head ending [] ++ rest) = some ([], rest) :=
        cutLine_eq_some.mpr ⟨by rw [head_nil, List.nil_append], whole_nil⟩
      simp [readLines, hcut]
  | cons line lines ih =>
      obtain ⟨n, rfl⟩ := Nat.exists_eq_succ_of_ne_zero (Nat.ne_zero_of_lt hn)
      obtain ⟨⟨hne, hwhole⟩, hlines⟩ := List.forall_mem_cons.mp hlines
      have hcut : cutLine ending (head ending (line :: lines) ++ rest) = some (line, head ending lines ++ rest) := by
        apply cutLine_eq_some.mpr
        rw [head_cons, List.append_assoc, List.append_assoc]
        exact ⟨rfl, hwhole⟩
      have hrest := ih hlines (Nat.lt_of_succ_lt_succ hn)
      simp [readLines, hcut, hne, hrest]

theorem head_of_readLines (h : readLines ending n text = some (lines, rest)) :
    text = head ending lines ++ rest ∧ ∀ line ∈ lines, line ≠ [] ∧ Whole ending line := by
  induction n generalizing text lines rest with
  | zero => cases h
  | succ n ih =>
      rw [readLines, Option.bind_eq_bind, Option.bind_eq_some_iff] at h
      obtain ⟨⟨line, back⟩, hcut, h⟩ := h
      obtain ⟨rfl, hwhole⟩ := cutLine_eq_some.mp hcut
      by_cases hline : line = []
      · subst hline
        dsimp only at h
        rw [if_pos rfl] at h
        obtain ⟨rfl, rfl⟩ := Prod.mk.inj (Option.some.inj h)
        rw [head_nil]
        exact ⟨rfl, nofun⟩
      · dsimp only at h
        rw [if_neg hline, Option.bind_eq_bind, Option.bind_eq_some_iff] at h
        obtain ⟨⟨lines', left⟩, hread, h⟩ := h
        obtain ⟨rfl, rfl⟩ := Prod.mk.inj (Option.some.inj h)
        obtain ⟨rfl, hlines⟩ := ih hread
        refine ⟨?_, List.forall_mem_cons.mpr ⟨⟨hline, hwhole⟩, hlines⟩⟩
        rw [head_cons, List.append_assoc, List.append_assoc]

/-- The reader finds a head exactly where one was written whose lines it can tell apart. -/
theorem readHead_eq_some : readHead ending text = some (lines, rest) ↔
    text = head ending lines ++ rest ∧ ∀ line ∈ lines, line ≠ [] ∧ Whole ending line := by
  constructor
  · exact head_of_readLines
  · rintro ⟨rfl, hlines⟩
    refine readLines_head hlines ?_ rest
    have hle := @length_le_head _ ending lines fun line hline => (hlines line hline).1
    rw [List.length_append]
    omega

end Message
