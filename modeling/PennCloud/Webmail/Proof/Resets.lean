import PennCloud.Lib.History
import PennCloud.Lib.Run
import PennCloud.Webmail.Server

/-!
# Mail transactions

A sender is accepted once on a connection, and a recipient only behind a sender, so that `DATA` finds both in the history.
A reset clears neither flag: what it should have ended is still in force, and cannot be started again.
-/

namespace PennCloud.Webmail

open History

/-- The handler of a command, and whether it has answered that all is well. -/
abbrev Entry := Handler × Bool

def mailed : Entry := (.mail, true)

def recipient : Entry := (.rcpt, true)

def IsReset (entry : Entry) : Bool := entry.1 = .rset

/-- A command in an environment, and what the history keeps of it. -/
def Step (digest : Str → Fin 16 → Fin 256) (s : Session) (entry : Entry) (s' : Session) : Prop :=
  s.connected ∧ ∃ behind exist left command outcome, s.step digest behind exist left command = .ok (s', outcome) ∧
    entry = (s.handler behind command.buf, outcome.replies.contains okResp)

/-- A sender has been accepted, and then a recipient. -/
def Prepared (history : List Entry) : Prop := Then mailed recipient history

/-- A reset has come behind an accepted sender. -/
def Abandoned (history : List Entry) : Prop := ∃ entry, IsReset entry = true ∧ Then mailed entry history

variable {digest : Str → Fin 16 → Fin 256} {s s' : Session} {entry : Entry} {history : List Entry} {buf : Str}
  {behind : String → Str}

/-! ### One command -/

/-- Who has passed the tests of `worker`. -/
theorem handler_flags (s : Session) (behind : String → Str) (buf : Str) : (s.handler behind buf = .mail → s.mailFlag = 0) ∧
    (s.handler behind buf = .rcpt → s.mailFlag = 1) ∧ (s.handler behind buf = .data → s.rcptFlag = 1) := by
  unfold Session.handler
  split_ifs with hhelo hmail hrcpt hdata
  · exact ⟨nofun, nofun, nofun⟩
  · exact ⟨fun _ => hmail.2.2, nofun, nofun⟩
  · exact ⟨nofun, fun _ => hrcpt.2.2, nofun⟩
  · exact ⟨nofun, nofun, fun _ => hdata.2⟩
  all_goals exact ⟨nofun, nofun, nofun⟩

theorem handleMail_ok {mailFlag flag : Int} {resp : Str} (hrun : handleMail buf mailFlag = .ok (flag, resp)) :
    flag = 1 ∧ resp = okResp ∨ flag = mailFlag ∧ resp ≠ okResp := by
  obtain ⟨domainBuffer, _, hrun⟩ := Run.bind_eq_ok.mp hrun
  split at hrun
  · cases hrun
  · split at hrun
    · obtain ⟨_, _, hrun⟩ := Run.bind_eq_ok.mp hrun
      cases hrun
      exact Or.inl ⟨rfl, rfl⟩
    · cases hrun
      exact Or.inr ⟨rfl, by decide⟩

theorem handleRcpt_ok {exist : Str → Bool} {rcptFlag flag : Int} {resp : Str}
    (hrun : handleRcpt exist buf rcptFlag = .ok (flag, resp)) :
    flag = 1 ∧ resp = okResp ∨ flag = rcptFlag ∧ resp ≠ okResp := by
  obtain ⟨domainBuffer, _, hrun⟩ := Run.bind_eq_ok.mp hrun
  split at hrun
  · cases hrun
  · split at hrun
    · obtain ⟨hostName, _, hrun⟩ := Run.bind_eq_ok.mp hrun
      split at hrun
      · cases hrun
        exact Or.inl ⟨rfl, rfl⟩
      · cases hrun
        exact Or.inr ⟨rfl, by decide⟩
    · cases hrun
      exact Or.inl ⟨rfl, rfl⟩

/-- All that a command does to the two flags. -/
theorem step_cases (h : Step digest s entry s') :
    entry = mailed ∧ s.mailFlag = 0 ∧ s'.mailFlag = 1 ∧ s'.rcptFlag = s.rcptFlag ∨
      entry = recipient ∧ s.mailFlag = 1 ∧ s'.mailFlag = 1 ∧ s'.rcptFlag = 1 ∨
      entry ≠ mailed ∧ s'.mailFlag = s.mailFlag ∧ s'.rcptFlag = s.rcptFlag := by
  obtain ⟨_, behind, exist, left, command, outcome, hstep, rfl⟩ := h
  obtain ⟨hmail, hrcpt, _⟩ := handler_flags s behind command.buf
  unfold Session.step at hstep
  split at hstep
  case h_2 heq =>
    obtain ⟨⟨flag, resp⟩, hhandle, hstep⟩ := Run.bind_eq_ok.mp hstep
    cases hstep
    rw [heq]
    rcases handleMail_ok hhandle with ⟨rfl, rfl⟩ | ⟨rfl, hresp⟩
    · exact Or.inl ⟨by decide, hmail heq, rfl, rfl⟩
    · refine Or.inr (Or.inr ⟨fun hentry => hresp ?_, rfl, rfl⟩)
      have haccepted := (Prod.mk.inj hentry).2
      exact (List.mem_singleton.mp (List.contains_iff_mem.mp haccepted)).symm
  case h_3 heq =>
    obtain ⟨⟨flag, resp⟩, hhandle, hstep⟩ := Run.bind_eq_ok.mp hstep
    cases hstep
    rw [heq]
    rcases handleRcpt_ok hhandle with ⟨rfl, rfl⟩ | ⟨rfl, _⟩
    · exact Or.inr (Or.inl ⟨by decide, hrcpt heq, hrcpt heq, rfl⟩)
    · exact Or.inr (Or.inr ⟨nofun, rfl, rfl⟩)
  case h_5 heq =>
    rw [heq]
    split at hstep <;> cases hstep <;> exact Or.inr (Or.inr ⟨nofun, rfl, rfl⟩)
  all_goals
    next heq =>
      cases hstep
      rw [heq]
      exact Or.inr (Or.inr ⟨nofun, rfl, rfl⟩)

/-! ### Histories -/

/-- The flags against the history. -/
structure Recorded (history : List Entry) (s : Session) : Prop where
  mail : s.mailFlag = history.count mailed
  once : history.count mailed ≤ 1
  rcpt : s.rcptFlag = 1 → Prepared history

theorem recorded_start : Recorded [] start := ⟨rfl, by decide, nofun⟩

theorem Recorded.step (h : Recorded history s) (hstep : Step digest s entry s') : Recorded (history ++ [entry]) s' := by
  have hcount : (history ++ [entry]).count mailed = history.count mailed + if entry = mailed then 1 else 0 := by
    rw [List.count_append, List.count_singleton]
    simp only [beq_iff_eq]
  have hmail := h.mail
  have honce := h.once
  rcases step_cases hstep with ⟨rfl, hflag, hflag', hrcpt⟩ | ⟨rfl, hflag, hflag', _⟩ | ⟨hne, hflag', hrcpt⟩
  · rw [if_pos rfl] at hcount
    refine ⟨by omega, by omega, fun hset => (h.rcpt (hrcpt ▸ hset)).append_right _⟩
  · rw [if_neg (by decide)] at hcount
    refine ⟨by omega, by omega, fun _ => then_concat (List.count_pos_iff.mp ?_)⟩
    omega
  · rw [if_neg hne] at hcount
    refine ⟨by omega, by omega, fun hset => (h.rcpt (hrcpt ▸ hset)).append_right _⟩

theorem recorded_of_run (hrun : Run.Runs (Step digest) start history s) : Recorded history s :=
  hrun.invariant (P := Recorded) recorded_start fun _ _ _ _ h hstep => h.step hstep

/-- Whatever stands behind the arrays, `DATA` is handled behind a sender and a recipient that the last reset has not undone, exactly
when no reset has come behind an accepted sender. -/
theorem prepared_since_iff (hrun : Run.Runs (Step digest) start history s) (hdata : s.handler behind buf = .data) :
    Prepared (since IsReset history) ↔ ¬ Abandoned history := by
  have hrecorded := recorded_of_run hrun
  have hprepared := hrecorded.rcpt ((handler_flags s behind buf).2.2 hdata)
  constructor
  · rintro hsince ⟨reset, hreset, hthen⟩
    have htwo := two_le_count hthen hreset hsince.mem.1
    have honce := hrecorded.once
    omega
  · intro hkept
    exact hprepared.since (by decide) fun reset hreset hthen => hkept ⟨reset, hreset, hthen⟩

/-! ### Two connections -/

/-- A NUL stands behind each array. -/
def terminated (_ : String) : Str := []

/-- The command of a line that no mail follows. -/
def line (text : String) : Command := ⟨text.toList, [], []⟩

/-- The state once a sender and a recipient have been accepted. -/
def ready : Session := ⟨true, 1, 1, 1, (∅ : Std.ExtTreeSet Str).insert []⟩

theorem runs_ready (digest : Str → Fin 16 → Fin 256) :
    Run.Runs (Step digest) start [(.helo, false), mailed, recipient] ready := by
  have hhelo : Step digest start (.helo, false) ⟨true, 1, 0, 0, ∅⟩ :=
    ⟨rfl, terminated, fun _ => true, [], line "HELO tester\r\n", _, rfl, by decide +kernel⟩
  have hmail : Step digest ⟨true, 1, 0, 0, ∅⟩ mailed ⟨true, 1, 1, 0, ∅⟩ :=
    ⟨rfl, terminated, fun _ => true, [], line "MAIL FROM:<a@localhost.com>\r\n", _, rfl, by decide +kernel⟩
  have hrcpt : Step digest ⟨true, 1, 1, 0, ∅⟩ recipient ready :=
    ⟨rfl, terminated, fun _ => true, [], line "RCPT TO:<b@localhost.com>\r\n", _, rfl, by decide +kernel⟩
  exact .snoc (.snoc (.snoc .nil hhelo) hmail) hrcpt

theorem prepared_since_ready : Prepared (since IsReset [(.helo, false), mailed, recipient]) := by
  have hdata : ready.handler terminated "DATA\r\n".toList = .data := by decide +kernel
  have hnone : ∀ entry ∈ [(.helo, false), mailed, recipient], IsReset entry = false := by decide
  refine (prepared_since_iff (runs_ready fun _ _ => 0) hdata).mpr ?_
  rintro ⟨entry, hreset, hthen⟩
  rw [hnone entry hthen.mem.2] at hreset
  cases hreset

/-- The sender and the recipient are those of a transaction that a reset has ended. -/
theorem not_prepared_since : ¬ ∀ (digest : Str → Fin 16 → Fin 256) (history : List Entry) (s : Session)
    (behind : String → Str) (buf : Str), Run.Runs (Step digest) start history s → s.handler behind buf = .data → Prepared (since IsReset history) := by
  intro hall
  have hreset : Step (fun _ _ => 0) ready (.rset, true) { ready with rcvrList := ∅ } :=
    ⟨rfl, terminated, fun _ => true, [], line "RSET\r\n", _, rfl, by decide +kernel⟩
  have hprepared := hall _ _ _ terminated "DATA\r\n".toList ((runs_ready fun _ _ => 0).snoc hreset) (by decide +kernel)
  have hmem := hprepared.mem.1
  revert hmem
  decide

end PennCloud.Webmail
