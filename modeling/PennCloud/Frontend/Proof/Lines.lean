import PennCloud.Frontend.Store
import PennCloud.Lib.Run

/-!
# Where a reply ends

The reader takes a byte off behind every `\r`, and keeps it only when it is the `\n` of a line end. So it reads a
line as it is exactly when no other `\r` stands in it, and then it stops at the line it looks for. Behind the end of
the stream it reads empty lines without end.
-/

namespace PennCloud

variable {line last text rest ending : Str} {lines : List Str}

/-! ### Lines -/

/-- The text has no line end. -/
def NoBreak (text : Str) : Prop := ∀ front back, text ≠ front ++ '\r' :: '\n' :: back

/-- The lines of a text that `\r\n` ends, and what stands behind the last of them. -/
def crlfSplit : Str → List Str × Str
  | '\r' :: '\n' :: rest => ([] :: (crlfSplit rest).1, (crlfSplit rest).2)
  | c :: rest =>
      match crlfSplit rest with
      | ([], last) => ([], c :: last)
      | (line :: lines, last) => ((c :: line) :: lines, last)
  | [] => ([], [])

theorem noBreak_nil : NoBreak [] := fun front back heq => by simp at heq

theorem noBreak_of_notMem (htext : '\r' ∉ text) : NoBreak text := by
  rintro front back rfl
  exact htext (List.mem_append_right _ List.mem_cons_self)

theorem NoBreak.of_cons {c : Char} (h : NoBreak (c :: text)) : NoBreak text :=
  fun front back heq => h (c :: front) back (by rw [heq, List.cons_append])

theorem NoBreak.cons {c : Char} (hc : c ≠ '\r') (h : NoBreak text) : NoBreak (c :: text) := by
  intro front back heq
  cases front with
  | nil => exact hc (List.cons.inj heq).1
  | cons c' front => exact h front back (List.cons.inj heq).2

theorem NoBreak.append (hline : '\r' ∉ line) (h : NoBreak text) : NoBreak (line ++ text) := by
  induction line with
  | nil => exact h
  | cons c line ih =>
      rw [List.mem_cons, not_or] at hline
      exact (ih hline.2).cons (Ne.symm hline.1)

theorem NoBreak.head_ne (h : NoBreak ('\r' :: text)) : text.head? ≠ some '\n' := by
  intro hhead
  obtain ⟨back, rfl⟩ := List.head?_eq_some_iff.mp hhead
  exact h [] back rfl

theorem crlfSplit_cons {c : Char} (hbreak : c = '\r' → rest.head? ≠ some '\n') : crlfSplit (c :: rest) =
    match crlfSplit rest with
    | ([], last) => ([], c :: last)
    | (line :: lines, last) => ((c :: line) :: lines, last) := by
  rw [crlfSplit]
  rintro rest' rfl rfl
  exact hbreak rfl rfl

theorem crlfSplit_of_noBreak (h : NoBreak text) : crlfSplit text = ([], text) := by
  induction text with
  | nil => rfl
  | cons c text ih => rw [crlfSplit_cons fun hc => by subst hc; exact h.head_ne, ih h.of_cons]

theorem crlfSplit_append (h : NoBreak line) :
    crlfSplit (line ++ '\r' :: '\n' :: rest) = (line :: (crlfSplit rest).1, (crlfSplit rest).2) := by
  induction line with
  | nil => rfl
  | cons c line ih =>
      have hbreak (hc : c = '\r') : (line ++ '\r' :: '\n' :: rest).head? ≠ some '\n' := by
        subst hc
        cases line with
        | nil => simp
        | cons c' line => exact h.head_ne
      rw [List.cons_append, crlfSplit_cons hbreak, ih h.of_cons]

theorem exists_line (text : Str) : NoBreak text ∨ ∃ line rest, NoBreak line ∧ text = line ++ '\r' :: '\n' :: rest := by
  induction text with
  | nil => exact Or.inl noBreak_nil
  | cons c text ih =>
      by_cases hbreak : c = '\r' ∧ text.head? = some '\n'
      · obtain ⟨rfl, hhead⟩ := hbreak
        obtain ⟨rest, rfl⟩ := List.head?_eq_some_iff.mp hhead
        exact Or.inr ⟨[], rest, noBreak_nil, rfl⟩
      · have hcons {line : Str} (hline : NoBreak line) (hhead : line.head? = some '\n' → text.head? = some '\n') :
            NoBreak (c :: line) := by
          rintro front back heq
          cases front with
          | nil =>
              obtain ⟨rfl, rfl⟩ := List.cons.inj heq
              exact hbreak ⟨rfl, hhead rfl⟩
          | cons c' front => exact hline front back (List.cons.inj heq).2
        rcases ih with hnone | ⟨line, rest, hline, rfl⟩
        · exact Or.inl (hcons hnone id)
        · refine Or.inr ⟨c :: line, rest, hcons hline fun hhead => ?_, rfl⟩
          obtain ⟨line, rfl⟩ := List.head?_eq_some_iff.mp hhead
          rfl

theorem crlfSplit_join (text : Str) :
    (crlfSplit text).1.flatMap (· ++ "\r\n".toList) ++ (crlfSplit text).2 = text := by
  induction hlength : text.length using Nat.strongRecOn generalizing text with
  | _ n ih =>
      subst hlength
      rcases exists_line text with hnone | ⟨line, rest, hline, rfl⟩
      · rw [crlfSplit_of_noBreak hnone]
        rfl
      · rw [crlfSplit_append hline, List.flatMap_cons, List.append_assoc, ih rest.length (by simp; omega) rest rfl,
          List.append_assoc]
        rfl

/-- What stands behind a line end alone decides what stands behind the last one. -/
theorem crlfSplit_last (front rest : Str) : (crlfSplit (front ++ '\r' :: '\n' :: rest)).2 = (crlfSplit rest).2 := by
  induction hlength : front.length using Nat.strongRecOn generalizing front with
  | _ n ih =>
      subst hlength
      rcases exists_line front with hnone | ⟨line, front, hline, rfl⟩
      · rw [crlfSplit_append hnone]
      · rw [List.append_assoc, List.cons_append, List.cons_append, crlfSplit_append hline]
        exact ih front.length (by simp; omega) front rfl

/-- Every `\r` in the text is that of a line end. -/
def Paired (text : Str) : Prop := ∀ front back, text = front ++ '\r' :: back → back.head? = some '\n'

theorem paired_of_noBreak (h : NoBreak text) : Paired text ↔ '\r' ∉ text := by
  constructor
  · intro hpaired hmem
    obtain ⟨front, back, rfl, _⟩ := List.eq_append_cons_of_mem hmem
    obtain ⟨back, rfl⟩ := List.head?_eq_some_iff.mp (hpaired front back rfl)
    exact h front back rfl
  · rintro hmem front back rfl
    exact absurd (List.mem_append_right _ List.mem_cons_self) hmem

theorem paired_of_notMem (htext : '\r' ∉ text) : Paired text := (paired_of_noBreak (noBreak_of_notMem htext)).mpr htext

theorem paired_append (hline : NoBreak line) :
    Paired (line ++ '\r' :: '\n' :: rest) ↔ '\r' ∉ line ∧ Paired rest := by
  constructor
  · intro h
    refine ⟨fun hmem => ?_, fun front back heq => ?_⟩
    · obtain ⟨front, back, rfl, _⟩ := List.eq_append_cons_of_mem hmem
      have hhead := h front (back ++ '\r' :: '\n' :: rest) (by simp)
      cases back with
      | nil => exact absurd hhead (by simp)
      | cons c back =>
          obtain rfl : c = '\n' := Option.some.inj hhead
          exact hline front back rfl
    · exact h (line ++ '\r' :: '\n' :: front) back (by rw [heq]; simp)
  · rintro ⟨hmem, hrest⟩ front back heq
    rcases List.append_eq_append_iff.mp heq with ⟨middle, rfl, htail⟩ | ⟨middle, rfl, htail⟩
    · rcases middle with _ | ⟨c, _ | ⟨c', middle⟩⟩
      · obtain ⟨_, rfl⟩ := List.cons.inj htail
        rfl
      · obtain ⟨_, htail⟩ := List.cons.inj htail
        exact absurd (List.cons.inj htail).1 (by decide)
      · obtain ⟨_, htail⟩ := List.cons.inj htail
        exact hrest middle back (List.cons.inj htail).2
    · cases middle with
      | nil =>
          obtain ⟨_, rfl⟩ := List.cons.inj htail
          rfl
      | cons c middle =>
          obtain ⟨rfl, _⟩ := List.cons.inj htail
          exact absurd (List.mem_append_right _ List.mem_cons_self) hmem

/-- A text is read as it is exactly when no line of it holds another `\r`. -/
theorem paired_iff (text : Str) :
    Paired text ↔ (∀ line ∈ (crlfSplit text).1, '\r' ∉ line) ∧ '\r' ∉ (crlfSplit text).2 := by
  induction hlength : text.length using Nat.strongRecOn generalizing text with
  | _ n ih =>
      subst hlength
      rcases exists_line text with hnone | ⟨line, rest, hline, rfl⟩
      · rw [paired_of_noBreak hnone, crlfSplit_of_noBreak hnone]
        simp
      · rw [paired_append hline, crlfSplit_append hline, ih rest.length (by simp; omega) rest rfl, List.forall_mem_cons,
          and_assoc]

/-! ### Reading a line -/

theorem readRepLine_cons {c : Char} (hc : c ≠ '\r') (line rest : Str) :
    readRepLine line (c :: rest) = readRepLine (line ++ [c]) rest := by
  rw [readRepLine]
  · exact fun _ heq => absurd heq hc
  · exact fun _ _ heq => absurd heq hc

/-- The byte behind a `\r` is lost. -/
theorem readRepLine_return {c : Char} (hc : c ≠ '\n') (line rest : Str) :
    readRepLine line ('\r' :: c :: rest) = readRepLine (line ++ ['\r']) rest := by
  rw [readRepLine]
  exact hc

theorem readRepLine_append (hline : '\r' ∉ line) (front rest : Str) :
    readRepLine front (line ++ '\r' :: '\n' :: rest) = (front ++ line, rest) := by
  induction line generalizing front with
  | nil =>
      rw [List.append_nil]
      rfl
  | cons c line ih =>
      have hc : c ≠ '\r' := fun heq => hline (heq ▸ List.mem_cons_self)
      rw [List.cons_append, readRepLine_cons hc, ih fun hmem => hline (List.mem_cons_of_mem c hmem), List.append_assoc]
      rfl

theorem exists_readRepLine (front text : Str) : ∃ read rest, readRepLine front text = (front ++ read, rest) := by
  fun_induction readRepLine front text with
  | case1 front rest => exact ⟨[], rest, by rw [List.append_nil]⟩
  | case2 front c rest hc ih =>
      obtain ⟨read, rest', hread⟩ := ih
      exact ⟨'\r' :: read, rest', by rw [hread, List.append_assoc, List.singleton_append]⟩
  | case3 front c rest hbreak hreturn ih =>
      obtain ⟨read, rest', hread⟩ := ih
      exact ⟨c :: read, rest', by rw [hread, List.append_assoc, List.singleton_append]⟩
  | case4 front => exact ⟨[], [], by rw [List.append_nil]⟩

/-- What is read of a line with another `\r` in it is shorter, or runs past the line end. -/
theorem readRepLine_disturbed (hline : NoBreak line) (hmem : '\r' ∈ line) (front rest : Str) :
    ∃ read rest', readRepLine front (line ++ '\r' :: '\n' :: rest) = (front ++ read, rest') ∧
      (read.length < line.length ∨ ¬ NoBreak read) := by
  induction hlength : line.length using Nat.strongRecOn generalizing line front with
  | _ n ih =>
      subst hlength
      have hlonger {c : Char} {line read : Str} (h : read.length < line.length ∨ ¬ NoBreak read) :
          (c :: read).length < (c :: line).length ∨ ¬ NoBreak (c :: read) :=
        h.imp (fun hlt => by simpa using hlt) (mt NoBreak.of_cons)
      match line, hline, hmem with
      | c :: line, hline, hmem =>
          by_cases hc : c = '\r'
          · subst hc
            match line, hline with
            | [], _ =>
                obtain ⟨read, rest', hread⟩ := exists_readRepLine (front ++ ['\r'] ++ ['\n']) rest
                refine ⟨'\r' :: '\n' :: read, rest', ?_, Or.inr fun h => h [] read rfl⟩
                rw [List.singleton_append, readRepLine_return (by decide), readRepLine_cons (by decide), hread]
                simp
            | c' :: line, hline =>
                have hc' : c' ≠ '\n' := by
                  rintro rfl
                  exact hline.head_ne rfl
                rw [List.cons_append, List.cons_append, readRepLine_return hc']
                by_cases hmem' : '\r' ∈ line
                · obtain ⟨read, rest', hread, hshort⟩ :=
                    ih line.length (by rw [List.length_cons, List.length_cons]; omega) hline.of_cons.of_cons hmem' (front ++ ['\r']) rfl
                  refine ⟨'\r' :: read, rest', by rw [hread, List.append_assoc, List.singleton_append], ?_⟩
                  exact (hlonger hshort).imp_left fun hlt => hlt.trans (by simp)
                · refine ⟨'\r' :: line, rest, ?_, Or.inl (by simp)⟩
                  rw [readRepLine_append hmem', List.append_assoc, List.singleton_append]
          · have hmem' : '\r' ∈ line := (List.mem_cons.mp hmem).resolve_left (Ne.symm hc)
            obtain ⟨read, rest', hread, hshort⟩ :=
              ih line.length (by simp) hline.of_cons hmem' (front ++ [c]) rfl
            refine ⟨c :: read, rest', ?_, hlonger hshort⟩
            rw [List.cons_append, readRepLine_cons hc, hread, List.append_assoc, List.singleton_append]

/-! ### Reading a reply -/

/-- The line that ends every reply, without its line end. -/
def done : Str := "!!!DONE!!!".toList

/-- The line that ends every reply. -/
def doneLine : Str := done ++ "\r\n".toList

theorem notMem_done : '\r' ∉ done := by decide

theorem readRepLine_front (hline : '\r' ∉ line) (front rest : Str) :
    readRepLine front (line ++ rest) = readRepLine (front ++ line) rest := by
  induction line generalizing front with
  | nil => rw [List.nil_append, List.append_nil]
  | cons c line ih =>
      have hc : c ≠ '\r' := fun heq => hline (heq ▸ List.mem_cons_self)
      rw [List.cons_append, readRepLine_cons hc, ih fun hmem => hline (List.mem_cons_of_mem c hmem), List.append_assoc,
        List.singleton_append]

theorem readRepLine_last (hlast : NoBreak last) (hending : '\r' ∉ ending) :
    (readRepLine [] (last ++ doneLine)).1 = ending ↔ last ++ done = ending := by
  by_cases hmem : '\r' ∈ last
  · refine iff_of_false (fun heq => hending ?_) fun heq => hending (heq ▸ List.mem_append_left _ hmem)
    obtain ⟨front, back, rfl, hfront⟩ := List.eq_append_cons_of_mem hmem
    have hnext : ∃ c rest, back ++ doneLine = c :: rest ∧ c ≠ '\n' := by
      cases back with
      | nil => exact ⟨'!', _, rfl, by decide⟩
      | cons c back =>
          refine ⟨c, back ++ doneLine, rfl, ?_⟩
          rintro rfl
          exact hlast front back rfl
    obtain ⟨c, rest, hrest, hc⟩ := hnext
    rw [List.append_assoc, List.cons_append, hrest, readRepLine_front hfront, readRepLine_return hc] at heq
    obtain ⟨read, rest', hread⟩ := exists_readRepLine ([] ++ front ++ ['\r']) rest
    rw [hread] at heq
    rw [← heq]
    simp
  · have hall : '\r' ∉ last ++ done := fun h => (List.mem_append.mp h).elim hmem notMem_done
    have hread : readRepLine [] ((last ++ done) ++ '\r' :: '\n' :: []) = ([] ++ (last ++ done), []) :=
      readRepLine_append hall [] []
    rw [List.append_assoc] at hread
    rw [show last ++ doneLine = last ++ (done ++ '\r' :: '\n' :: []) from rfl, hread, List.nil_append]

theorem readRepLine_line (hline : NoBreak line) : (readRepLine [] (line ++ '\r' :: '\n' :: rest)).1 = line ↔ '\r' ∉ line := by
  constructor
  · intro heq hmem
    obtain ⟨read, rest', hread, hshort⟩ := readRepLine_disturbed hline hmem [] rest
    rw [hread, List.nil_append] at heq
    dsimp only at heq
    subst heq
    exact hshort.elim (Nat.lt_irrefl _) fun hbreak => hbreak hline
  · intro hmem
    rw [readRepLine_append hmem]
    rfl

/-- The reader sees the lines of the text, and none of them is the one it stops at. -/
structure Legible (ending text : Str) : Prop where
  lines : ∀ line ∈ (crlfSplit text).1, '\r' ∉ line ∧ line ≠ ending
  last : (crlfSplit text).2 ++ done = ending

theorem legible_append (hline : NoBreak line) :
    Legible ending (line ++ '\r' :: '\n' :: rest) ↔ ('\r' ∉ line ∧ line ≠ ending) ∧ Legible ending rest := by
  constructor
  · rintro ⟨hlines, hlast⟩
    rw [crlfSplit_append hline] at hlines hlast
    obtain ⟨hfirst, hrest⟩ := List.forall_mem_cons.mp hlines
    exact ⟨hfirst, hrest, hlast⟩
  · rintro ⟨hfirst, hlines, hlast⟩
    refine ⟨?_, ?_⟩
    · rw [crlfSplit_append hline]
      exact List.forall_mem_cons.mpr ⟨hfirst, hlines⟩
    · rw [crlfSplit_append hline]
      exact hlast

/-- Every `\r` of the text is that of a line end, and no line is the one that the reader stops at. -/
structure Undisturbed (ending text : Str) : Prop where
  paired : Paired text
  lines : ∀ line ∈ (crlfSplit text).1, line ≠ ending

theorem legible_iff (hending : '\r' ∉ ending) :
    Legible ending text ↔ Undisturbed ending text ∧ (crlfSplit text).2 ++ done = ending := by
  constructor
  · rintro ⟨hlines, hlast⟩
    refine ⟨⟨(paired_iff text).mpr ⟨fun line hline => (hlines line hline).1, fun hmem => ?_⟩,
      fun line hline => (hlines line hline).2⟩, hlast⟩
    exact hending (hlast ▸ List.mem_append_left _ hmem)
  · rintro ⟨⟨hpaired, hlines⟩, hlast⟩
    exact ⟨fun line hline => ⟨((paired_iff text).mp hpaired).1 line hline, hlines line hline⟩, hlast⟩

theorem repLines_eq_iff (hending : '\r' ∉ ending) (text : Str) :
    (∃ fuel, repLines fuel ending (text ++ doneLine) = .ok (crlfSplit text).1) ↔ Legible ending text := by
  induction hlength : text.length using Nat.strongRecOn generalizing text with
  | _ n ih =>
      subst hlength
      rcases exists_line text with hlast | ⟨line, rest, hline, rfl⟩
      · rw [crlfSplit_of_noBreak hlast]
        have hlegible : Legible ending text ↔ (readRepLine [] (text ++ doneLine)).1 = ending := by
          rw [readRepLine_last hlast hending]
          exact ⟨fun h => by simpa [crlfSplit_of_noBreak hlast] using h.last,
            fun h => ⟨by simp [crlfSplit_of_noBreak hlast], by simpa [crlfSplit_of_noBreak hlast] using h⟩⟩
        rw [hlegible]
        constructor
        · rintro ⟨_ | fuel, hrun⟩
          · cases hrun
          · rw [repLines] at hrun
            dsimp only at hrun
            split at hrun
            · next heq => exact heq
            · obtain ⟨rep, _, hrep⟩ := Run.bind_eq_ok.mp hrun
              exact absurd (Except.ok.inj hrep) (List.cons_ne_nil _ _)
        · intro heq
          refine ⟨1, ?_⟩
          rw [repLines]
          exact if_pos heq
      · have hih := ih rest.length (by simp; omega) rest rfl
        rw [crlfSplit_append hline, legible_append hline, ← hih, List.append_assoc, List.cons_append, List.cons_append]
        constructor
        · rintro ⟨_ | fuel, hrun⟩
          · cases hrun
          · rw [repLines] at hrun
            dsimp only at hrun
            split at hrun
            · exact absurd (Except.ok.inj hrun) (List.cons_ne_nil _ _).symm
            · next hne =>
                obtain ⟨rep, hrep, heq⟩ := Run.bind_eq_ok.mp hrun
                obtain ⟨hfirst, rfl⟩ := List.cons.inj (Except.ok.inj heq)
                have hmem := (readRepLine_line hline).mp hfirst
                rw [readRepLine_append hmem, List.nil_append] at hne hrep
                exact ⟨⟨hmem, hne⟩, fuel, hrep⟩
        · rintro ⟨⟨hmem, hne⟩, fuel, hrep⟩
          refine ⟨fuel + 1, ?_⟩
          rw [repLines, readRepLine_append hmem, List.nil_append]
          dsimp only
          rw [if_neg hne, hrep]
          rfl

/-- The line that the loop for a message stops at. -/
def endingOf (message : Str) : Str := if message.take 7 = "getlist".toList then ',' :: done else done

/-- The first line is compared with both endings. -/
structure Ends (ending text : Str) : Prop where
  alone : (crlfSplit text).1 = [] → (crlfSplit text).2 = [] ∨ (crlfSplit text).2 ++ done = ending
  first : (crlfSplit text).1.head? ≠ some done
  legible : (crlfSplit text).1 ≠ [] → Legible ending text

theorem ends_done (text : Str) : Ends done text ↔ Legible done text := by
  constructor
  · intro h
    by_cases hlines : (crlfSplit text).1 = []
    · refine ⟨by simp [hlines], (h.alone hlines).elim (fun hlast => ?_) id⟩
      rw [hlast, List.nil_append]
    · exact h.legible hlines
  · intro h
    refine ⟨fun _ => Or.inr h.last, fun hhead => ?_, fun _ => h⟩
    exact (h.lines done (List.mem_of_head? hhead)).2 rfl

theorem ends_append (hline : NoBreak line) : Ends ending (line ++ '\r' :: '\n' :: rest) ↔
    line ≠ done ∧ '\r' ∉ line ∧ line ≠ ending ∧ Legible ending rest := by
  have hsplit : (crlfSplit (line ++ '\r' :: '\n' :: rest)).1 = line :: (crlfSplit rest).1 := by
    rw [crlfSplit_append hline]
  constructor
  · intro h
    have hfirst := h.first
    rw [hsplit, List.head?_cons, ne_eq, Option.some.injEq] at hfirst
    obtain ⟨⟨hreturn, hne⟩, hrest⟩ := (legible_append hline).mp (h.legible (by rw [hsplit]; exact List.cons_ne_nil _ _))
    exact ⟨hfirst, hreturn, hne, hrest⟩
  · rintro ⟨hfirst, hreturn, hne, hrest⟩
    refine ⟨fun hnil => ?_, ?_, fun _ => (legible_append hline).mpr ⟨⟨hreturn, hne⟩, hrest⟩⟩
    · rw [hsplit] at hnil
      exact absurd hnil (List.cons_ne_nil _ _)
    · rw [hsplit, List.head?_cons, ne_eq, Option.some.injEq]
      exact hfirst

theorem readRep_eq (fuel : Nat) (message stream : Str) : readRep fuel message stream =
    if (readRepLine [] stream).1 = done then .ok []
    else if (readRepLine [] stream).1 = endingOf message then .ok []
    else repLines fuel (endingOf message) (readRepLine [] stream).2 >>=
      fun rep => .ok ((readRepLine [] stream).1 :: rep) := rfl

/-- The reader returns the lines of a reply exactly when they end where it looks. -/
theorem readRep_eq_iff (message text : Str) :
    (∃ fuel, readRep fuel message (text ++ doneLine) = .ok (crlfSplit text).1) ↔ Ends (endingOf message) text := by
  have hending : '\r' ∉ endingOf message := by
    rw [endingOf]
    split <;> decide
  have hrun := fun fuel stream => readRep_eq fuel message stream
  rcases exists_line text with hlast | ⟨line, rest, hline, rfl⟩
  · have hsplit := crlfSplit_of_noBreak hlast
    have hends : Ends (endingOf message) text ↔ (readRepLine [] (text ++ doneLine)).1 = done ∨
        (readRepLine [] (text ++ doneLine)).1 = endingOf message := by
      rw [readRepLine_last hlast notMem_done, readRepLine_last hlast hending]
      constructor
      · intro h
        have halone := h.alone (by rw [hsplit])
        rw [hsplit] at halone
        exact halone.imp_left List.append_left_eq_self.mpr
      · intro h
        refine ⟨fun _ => ?_, by simp [hsplit], fun hne => absurd (by rw [hsplit]) hne⟩
        rw [hsplit]
        exact h.imp_left fun heq => List.append_left_eq_self.mp heq
    rw [hends, hsplit]
    constructor
    · rintro ⟨fuel, hread⟩
      rw [hrun] at hread
      split at hread
      · next heq => exact Or.inl heq
      split at hread
      · next heq => exact Or.inr heq
      · obtain ⟨rep, _, hrep⟩ := Run.bind_eq_ok.mp hread
        exact absurd (Except.ok.inj hrep) (List.cons_ne_nil _ _)
    · intro hcase
      refine ⟨0, ?_⟩
      rw [hrun]
      rcases hcase with heq | heq
      · exact if_pos heq
      · rw [if_pos heq, ite_self]
  · rw [ends_append hline, crlfSplit_append hline, ← repLines_eq_iff hending, List.append_assoc, List.cons_append,
      List.cons_append]
    constructor
    · rintro ⟨fuel, hread⟩
      rw [hrun] at hread
      split at hread
      · exact absurd (Except.ok.inj hread) (List.cons_ne_nil _ _).symm
      split at hread
      · exact absurd (Except.ok.inj hread) (List.cons_ne_nil _ _).symm
      · next hdone hne =>
          obtain ⟨rep, hrep, heq⟩ := Run.bind_eq_ok.mp hread
          obtain ⟨hfirst, rfl⟩ := List.cons.inj (Except.ok.inj heq)
          have hmem := (readRepLine_line hline).mp hfirst
          rw [readRepLine_append hmem, List.nil_append] at hdone hne hrep
          exact ⟨hdone, hmem, hne, fuel, hrep⟩
    · rintro ⟨hdone, hmem, hne, fuel, hrep⟩
      refine ⟨fuel, ?_⟩
      rw [hrun, readRepLine_append hmem, List.nil_append]
      dsimp only
      rw [if_neg hdone, if_neg hne, hrep]
      rfl

/-! ### Lines put together -/

/-- The lines of a text, the unfinished last one too. -/
def linesOf (text : Str) : List Str := (crlfSplit text).1 ++ [(crlfSplit text).2]

def joinLines (lines : List Str) : Str := lines.flatMap (· ++ "\r\n".toList)

theorem joinLines_cons (line : Str) (lines : List Str) (rest : Str) :
    joinLines (line :: lines) ++ rest = line ++ '\r' :: '\n' :: (joinLines lines ++ rest) := by
  rw [joinLines, List.flatMap_cons, List.append_assoc, List.append_assoc]
  rfl

theorem joinLines_append (lines lines' : List Str) : joinLines (lines ++ lines') = joinLines lines ++ joinLines lines' :=
  List.flatMap_append

theorem joinLines_linesOf (text : Str) : joinLines (linesOf text) = text ++ "\r\n".toList := by
  have hjoin : joinLines (crlfSplit text).1 ++ (crlfSplit text).2 = text := crlfSplit_join text
  have hlast : joinLines [(crlfSplit text).2] = (crlfSplit text).2 ++ "\r\n".toList := List.flatMap_singleton ..
  rw [linesOf, joinLines_append, hlast, ← List.append_assoc, hjoin]

theorem linesOf_append (hline : NoBreak line) : linesOf (line ++ '\r' :: '\n' :: rest) = line :: linesOf rest := by
  rw [linesOf, crlfSplit_append hline]
  rfl

theorem noBreak_of_mem_linesOf (text : Str) : ∀ line ∈ linesOf text, NoBreak line := by
  induction hlength : text.length using Nat.strongRecOn generalizing text with
  | _ n ih =>
      subst hlength
      rcases exists_line text with hlast | ⟨line, rest, hline, rfl⟩
      · rw [linesOf, crlfSplit_of_noBreak hlast]
        exact List.forall_mem_singleton.mpr hlast
      · rw [linesOf_append hline]
        exact List.forall_mem_cons.mpr ⟨hline, ih rest.length (by simp; omega) rest rfl⟩

theorem Paired.notMem_linesOf (h : Paired text) (hline : line ∈ linesOf text) : '\r' ∉ line := by
  obtain ⟨hlines, hlast⟩ := (paired_iff text).mp h
  rcases List.mem_append.mp hline with hmem | hmem
  · exact hlines line hmem
  · rw [List.mem_singleton.mp hmem]
    exact hlast

/-- A reader gets the lines back that were sent, in as many rounds. -/
theorem repLines_joinLines {fuel : Nat} (hlines : ∀ line ∈ lines, '\r' ∉ line ∧ line ≠ ending) (hlast : '\r' ∉ last)
    (hending : last ++ done = ending) (hfuel : lines.length < fuel) :
    repLines fuel ending (joinLines lines ++ (last ++ doneLine)) = .ok lines := by
  induction lines generalizing fuel with
  | nil =>
      obtain ⟨n, rfl⟩ := Nat.exists_eq_add_of_lt hfuel
      have hread : (readRepLine [] (joinLines [] ++ (last ++ doneLine))).1 = ending :=
        (readRepLine_last (noBreak_of_notMem hlast) (hending ▸ fun hmem =>
          (List.mem_append.mp hmem).elim hlast notMem_done)).mpr hending
      rw [repLines]
      exact if_pos hread
  | cons line lines ih =>
      obtain ⟨⟨hreturn, hne⟩, hlines⟩ := List.forall_mem_cons.mp hlines
      rw [List.length_cons] at hfuel
      obtain ⟨n, rfl⟩ : ∃ n, fuel = n + 1 := ⟨fuel - 1, by omega⟩
      rw [joinLines_cons, repLines, readRepLine_append hreturn]
      dsimp only
      rw [List.nil_append, if_neg hne, ih hlines (by omega)]
      rfl

theorem readRep_joinLines {fuel : Nat} {message : Str}
    (hlines : ∀ l ∈ line :: lines, '\r' ∉ l ∧ l ≠ endingOf message) (hfirst : line ≠ done) (hlast : '\r' ∉ last)
    (hending : last ++ done = endingOf message) (hfuel : lines.length < fuel) :
    readRep fuel message (joinLines (line :: lines) ++ (last ++ doneLine)) = .ok (line :: lines) := by
  obtain ⟨⟨hreturn, hne⟩, hlines⟩ := List.forall_mem_cons.mp hlines
  rw [joinLines_cons, readRep_eq, readRepLine_append hreturn]
  dsimp only
  rw [List.nil_append, if_neg hfirst, if_neg hne, repLines_joinLines hlines hlast hending hfuel]
  rfl

end PennCloud
