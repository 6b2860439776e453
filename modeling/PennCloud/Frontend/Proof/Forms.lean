import PennCloud.Frontend.Mail
import PennCloud.Kv.Proof.Requests
import PennCloud.Lib.Run

/-!
# Forms

What `split` and `replace_all` leave of a text, and the encoding that a browser sends a form in. A byte that the
decoder has restored looks like one that was sent as it is: decoded before it is split, a form falls apart at the
bytes of its values as well.
-/

namespace PennCloud

variable {text field rest source target : Str} {c d : Char}

/-! ### Splitting -/

theorem mem_split (hfield : field ∈ split text d) (hc : c ∈ field) : c ∈ text := by
  have hjoin := (Fields.terminate_pieces_append (d := d) text).1
  rw [← hjoin]
  rcases List.mem_append.mp hfield with hpiece | hlast
  · refine List.mem_append_left _ (List.mem_flatMap.mpr ⟨field, hpiece, List.mem_append_left _ hc⟩)
  · split at hlast
    · exact absurd hlast List.not_mem_nil
    · rw [List.mem_singleton.mp hlast] at hc
      exact List.mem_append_right _ hc

theorem split_append (hfield : d ∉ field) (rest : Str) : split (field ++ d :: rest) d = field :: split rest d := by
  rw [split, Fields.pieces_append_cons hfield, Fields.remainder_append_cons hfield]
  rfl

theorem split_of_notMem (htext : d ∉ text) (hne : text ≠ []) : split text d = [text] := by
  rw [split, Fields.pieces_of_notMem htext, Fields.remainder_of_notMem htext]
  exact if_neg hne

theorem split_nil (d : Char) : split [] d = [] := by
  rw [split, Fields.pieces_nil, Fields.remainder_of_notMem List.not_mem_nil]
  rfl

theorem split_cons (hc : c ≠ d) (text : Str) : split (c :: text) d = (c :: (split text d).headD []) :: (split text d).tail := by
  by_cases hmem : d ∈ text
  · obtain ⟨front, back, rfl, hfront⟩ := List.eq_append_cons_of_mem hmem
    rw [split_append hfront, ← List.cons_append, split_append fun hmem => ?_]
    · rfl
    · exact (List.mem_cons.mp hmem).elim (fun heq => hc heq.symm) hfront
  · rw [split_of_notMem (fun hmem' => (List.mem_cons.mp hmem').elim (fun heq => hc heq.symm) hmem) (List.cons_ne_nil c text)]
    cases text with
    | nil => rw [split_nil]; rfl
    | cons c' text => rw [split_of_notMem hmem (List.cons_ne_nil c' text)]; rfl

theorem mem_of_atIdx {α : Type} {l : List α} {n : Nat} {a : α} (h : atIdx l n = .ok a) : a ∈ l := by
  rw [atIdx] at h
  split at h
  · next b hb => exact Except.ok.inj h ▸ List.mem_of_getElem? hb
  · cases h

theorem cstr_append_of_mem {front : Str} (hfront : '\x00' ∈ front) (rest : Str) : cstr (front ++ rest) = cstr front := by
  obtain ⟨before, after, rfl, hbefore⟩ := List.eq_append_cons_of_mem hfront
  rw [List.append_assoc, Chunkserver.cstr_append hbefore, Chunkserver.cstr_append hbefore]
  rfl

/-- The NUL at the end of a buffer is not shown. -/
theorem cstr_append_nul (text : Str) : cstr (text ++ ['\x00']) = cstr text := by
  by_cases htext : '\x00' ∈ text
  · exact cstr_append_of_mem htext _
  · rw [Chunkserver.cstr_append htext, Chunkserver.cstr_of_notMem htext]
    exact List.append_nil text

theorem mem_of_mem_cstr (hc : c ∈ cstr text) : c ∈ text := List.takeWhile_subset _ hc

/-! ### Replacing -/

theorem findStr_eq (source rest : Str) : findStr source rest = (Search.find source rest 0).getD npos := by
  rw [findStr, Search.find]
  simp

theorem findStr_append (hfield : c ∉ field) (rest : Str) : findStr [c] (field ++ c :: rest) = field.length := by
  rw [findStr_eq, Search.find_cons (Nat.zero_le _) (show c ∉ field.drop 0 from hfield)]
  rfl

namespace Frontend

/-! ### The encoding of a form -/

/-- The bytes that a form shows as they are. -/
def isUnreserved (c : Char) : Bool := c.isAlphanum || c = '*' || c = '-' || c = '.' || c = '_'

def percent (n : Nat) : Str := ['%', (Nat.digitChar (n / 16)).toUpper, (Nat.digitChar (n % 16)).toUpper]

def urlencodeChar (c : Char) : Str :=
  if c = ' ' then ['+'] else if isUnreserved c then [c] else percent c.toNat

def urlencode (s : Str) : Str := s.flatMap urlencodeChar

theorem urlDecode_cons (hc : c ≠ '%') (ii : Int) (rest : Str) : urlDecode ii (c :: rest) = c :: urlDecode ii rest := by
  rw [urlDecode] <;> simp [hc]

theorem length_urlencode (text : Str) : text.length ≤ (urlencode text).length := by
  induction text with
  | nil => exact le_rfl
  | cons c text ih =>
      have hone : 1 ≤ (urlencodeChar c).length := by
        rw [urlencodeChar]
        split
        · exact le_rfl
        split
        · exact le_rfl
        · exact Nat.le_add_left 1 2
      rw [urlencode, List.flatMap_cons, List.length_append, List.length_cons]
      exact Nat.add_comm .. ▸ Nat.add_le_add hone ih

/-! ### Forms -/

/-- A form as it is sent, by the names and the values of its fields. -/
def form : List (Str × Str) → Str
  | [] => []
  | [field] => field.1 ++ '=' :: field.2
  | field :: fields => field.1 ++ '=' :: field.2 ++ '&' :: form fields

variable {fields : List (Str × Str)}

/-- A form is read as a C string, and what is read of it ends before a NUL. -/
theorem notMem_credentials {req : Request} {user pwd : Str} (h : Site.credentials req = .ok (user, pwd)) :
    '\x00' ∉ user ∧ '\x00' ∉ pwd := by
  obtain ⟨field, hfield, h⟩ := Run.bind_eq_ok.mp h
  obtain ⟨user', huser, h⟩ := Run.bind_eq_ok.mp h
  obtain ⟨field', hfield', h⟩ := Run.bind_eq_ok.mp h
  obtain ⟨pwd', hpwd, h⟩ := Run.bind_eq_ok.mp h
  obtain ⟨rfl, rfl⟩ := Prod.mk.inj (Except.ok.inj h)
  constructor
  · intro hmem
    exact Chunkserver.notMem_cstr req.body (mem_split (mem_of_atIdx hfield) (mem_split (mem_of_atIdx huser) hmem))
  · intro hmem
    exact Chunkserver.notMem_cstr req.body (mem_split (mem_of_atIdx hfield') (mem_split (mem_of_atIdx hpwd) hmem))

end Frontend

end PennCloud
