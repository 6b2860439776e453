import PennCloud.Frontend.Proof.Forms

/-!
# Strings in place

`replace_all` works on the string while it searches it, and `url_decode` goes over it by an index that jumps. Both come to an end on
every string, and do what the functions say that the pages are modelled with.
-/

namespace PennCloud

variable {source target str front rest : Str} {n p : Nat}

/-! ### Replacing -/

theorem replaceLoop_none (h : Search.find source rest 0 = none) (front : Str) (n : Nat) :
    replaceLoop source target (n + 1) (front ++ rest) front.length = .ok (front ++ rest) := by
  rw [replaceLoop, Search.find_append, h]
  rfl

/-- A round replaces the first occurrence, and goes on behind what it has put there. -/
theorem replaceLoop_first {before behind : Str} (h : Search.First source rest before behind) (front : Str) (n : Nat) :
    replaceLoop source target (n + 1) (front ++ rest) front.length =
      replaceLoop source target n ((front ++ before ++ target) ++ behind) (front ++ before ++ target).length := by
  have hfind : Search.find source rest 0 = some before.length := Search.find_eq_some_iff_first.mpr ⟨before, behind, rfl, h⟩
  obtain ⟨rfl, -⟩ := h
  have htake : (front ++ (before ++ (source ++ behind))).take (front.length + before.length) = front ++ before := by
    rw [← List.append_assoc, ← List.length_append, List.take_left]
  have hdrop : (front ++ (before ++ (source ++ behind))).drop (front.length + before.length + source.length) = behind := by
    rw [← List.drop_drop, ← List.append_assoc, ← List.length_append, List.drop_left, List.drop_left]
  rw [replaceLoop, Search.find_append, hfind]
  dsimp only [Option.map_some]
  rw [htake, hdrop, List.length_append, List.length_append]

theorem length_lt_of_first {before behind : Str} (hsource : source ≠ []) (h : Search.First source rest before behind) :
    behind.length < rest.length := by
  have hpositive := List.length_pos_iff.mpr hsource
  rw [h.1, List.length_append, List.length_append]
  omega

/-- Whatever stands in front, the loop comes to the same end. -/
theorem exists_replaceLoop (hsource : source ≠ []) (target rest : Str) :
    ∃ result, ∀ front n, rest.length < n → replaceLoop source target n (front ++ rest) front.length = .ok (front ++ result) := by
  induction hlength : rest.length using Nat.strongRecOn generalizing rest with
  | _ m ih =>
      subst hlength
      cases hfind : Search.find source rest 0 with
      | none =>
          refine ⟨rest, fun front n hn => ?_⟩
          obtain ⟨n, rfl⟩ := Nat.exists_eq_succ_of_ne_zero (Nat.ne_zero_of_lt hn)
          exact replaceLoop_none hfind front n
      | some p =>
          obtain ⟨before, behind, -, hfirst⟩ := Search.find_eq_some_iff_first.mp hfind
          have hshort := length_lt_of_first hsource hfirst
          obtain ⟨result, hresult⟩ := ih behind.length hshort behind rfl
          refine ⟨before ++ (target ++ result), fun front n hn => ?_⟩
          obtain ⟨n, rfl⟩ := Nat.exists_eq_succ_of_ne_zero (Nat.ne_zero_of_lt hn)
          rw [replaceLoop_first hfirst, hresult _ n (by omega), List.append_assoc, List.append_assoc]

/-- Replacing comes to an end: nothing changes without an occurrence, and the first one is replaced and the rest as if it stood alone. -/
theorem replaceInPlace_spec (source target str : Str) : ∃ result, replaceInPlace str source target = .ok result ∧
    (source = [] → result = str) ∧ (source ≠ [] → ¬ source <:+: str → result = str) ∧
      (source ≠ [] → ∀ before behind, Search.First source str before behind →
        ∃ result', replaceInPlace behind source target = .ok result' ∧ result = before ++ (target ++ result')) := by
  by_cases hsource : source = []
  · exact ⟨str, if_pos hsource, fun _ => rfl, fun hne => absurd hsource hne, fun hne => absurd hsource hne⟩
  · have hrun (str : Str) : replaceInPlace str source target = replaceLoop source target (str.length + 1) ([] ++ str) ([] : Str).length :=
      if_neg hsource
    obtain ⟨result, hresult⟩ := exists_replaceLoop hsource target str
    have hstr := hresult [] (str.length + 1) (Nat.lt_succ_self _)
    refine ⟨result, (hrun str).trans hstr, fun hnil => absurd hnil hsource, fun _ hnone => ?_, fun _ before behind hfirst => ?_⟩
    · rw [replaceLoop_none (Search.find_eq_none_iff_infix.mpr hnone)] at hstr
      exact (Except.ok.inj hstr).symm
    · obtain ⟨result', hresult'⟩ := exists_replaceLoop hsource target behind
      refine ⟨result', (hrun behind).trans (hresult' [] _ (Nat.lt_succ_self _)), ?_⟩
      rw [replaceLoop_first hfirst, hresult' _ _ (length_lt_of_first hsource hfirst)] at hstr
      have hsame : [] ++ before ++ target ++ result' = [] ++ result := Except.ok.inj hstr
      rw [List.nil_append, List.nil_append, List.append_assoc] at hsame
      exact hsame.symm

/-- The pages are modelled with what the loop comes to. -/
theorem replaceInPlace_eq (source target : Str) (hsize : str.length ≤ npos) :
    replaceInPlace str source target = .ok (replaceAll str source target) := by
  by_cases hsource : source = []
  · rw [replaceInPlace, replaceAll, if_pos hsource, if_pos hsource]
  · have hloop (n : Nat) (front rest : Str) (hn : rest.length ≤ n) (hsize : rest.length ≤ npos) :
        replaceLoop source target (n + 1) (front ++ rest) front.length = .ok (front ++ replaceFrom source target n rest) := by
      induction n generalizing front rest with
      | zero =>
          obtain rfl := List.length_eq_zero_iff.mp (Nat.le_zero.mp hn)
          refine replaceLoop_none (Search.find_eq_none_iff_infix.mpr fun hinfix => hsource ?_) front 0
          exact List.infix_nil.mp hinfix
      | succ n ih =>
          rw [replaceFrom, findStr_eq]
          cases hfind : Search.find source rest 0 with
          | none =>
              rw [Option.getD_none, if_pos rfl]
              exact replaceLoop_none hfind front (n + 1)
          | some p =>
              obtain ⟨before, behind, rfl, hfirst⟩ := Search.find_eq_some_iff_first.mp hfind
              have hshort := length_lt_of_first hsource hfirst
              have hinside : before.length < rest.length := by
                have hpositive := List.length_pos_iff.mpr hsource
                rw [hfirst.1, List.length_append, List.length_append]
                omega
              rw [replaceLoop_first hfirst, ih _ behind (by omega) (by omega), Option.getD_some,
                if_neg (by omega), hfirst.1, List.take_left, ← List.drop_drop, List.drop_left, List.drop_left, List.append_assoc,
                List.append_assoc, List.append_assoc]
    rw [replaceInPlace, replaceAll, if_neg hsource, if_neg hsource]
    exact hloop str.length [] str le_rfl hsize

namespace Frontend

/-! ### Decoding -/

variable {hi lo c : Char} {ii : Int} {s encoding ret : Str}

/-- A text with each byte as it is, or as its two hexadecimal digits behind a `%`. -/
inductive Encodes : Str → Str → Prop where
  | nil : Encodes [] []
  | itself {c : Char} {s encoding : Str} : c ≠ '%' → Encodes s encoding → Encodes (c :: s) (c :: encoding)
  | escape {c hi lo : Char} {s encoding : Str} : hexValue hi = some (c.toNat / 16) → hexValue lo = some (c.toNat % 16) →
      Encodes s encoding → Encodes (c :: s) ('%' :: hi :: lo :: encoding)

theorem hexValue_lt {n : Nat} (h : hexValue c = some n) : n < 16 := by
  have hbetween (a b : Char) (hlow : a ≤ c) (hhigh : c ≤ b) : a.toNat ≤ c.toNat ∧ c.toNat ≤ b.toNat := ⟨hlow, hhigh⟩
  rw [hexValue] at h
  split at h
  · next hdigit =>
      have hrange := Char.isDigit_iff_toNat.mp hdigit
      have hzero : '0'.toNat = 48 ∧ '9'.toNat = 57 := by decide
      have hvalue : c.toNat - 48 = n := Option.some.inj h
      omega
  · split at h
    · next hletter =>
        have hrange := hbetween 'a' 'f' hletter.1 hletter.2
        have hvalue : c.toNat - 97 + 10 = n := Option.some.inj h
        have ha : 'a'.toNat = 97 ∧ 'f'.toNat = 102 := by decide
        omega
    · split at h
      · next hletter =>
          have hrange := hbetween 'A' 'F' hletter.1 hletter.2
          have hvalue : c.toNat - 65 + 10 = n := Option.some.inj h
          have ha : 'A'.toNat = 65 ∧ 'F'.toNat = 70 := by decide
          omega
      · cases h

theorem ne_of_hexValue {d : Char} {n : Nat} (h : hexValue c = some n) (hd : hexValue d = none) : c ≠ d := by
  rintro rfl
  rw [hd] at h
  cases h

theorem splitSign_cons (hminus : c ≠ '-') (hplus : c ≠ '+') (s : Str) : splitSign (c :: s) = (false, c :: s) := by
  rw [splitSign]
  · exact fun _ heq => hminus (List.cons.inj heq).1
  · exact fun _ heq => hplus (List.cons.inj heq).1

theorem scanHex_digits {high low : Nat} (hhigh : hexValue hi = some high) (hlow : hexValue lo = some low) :
    scanHex [hi, lo] = some ((16 * high + low : Nat) : Int) := by
  have hblank : isSpace hi = false := by
    simp only [isSpace, Bool.or_eq_false_iff, decide_eq_false_iff_not]
    refine ⟨⟨⟨⟨⟨?_, ?_⟩, ?_⟩, ?_⟩, ?_⟩, ?_⟩
    all_goals exact ne_of_hexValue hhigh (by decide)
  have hminus : hi ≠ '-' := ne_of_hexValue hhigh (by decide)
  have hplus : hi ≠ '+' := ne_of_hexValue hhigh (by decide)
  rw [scanHex, List.dropWhile_cons_of_neg (by simp [hblank]), splitSign_cons hminus hplus]
  simp [hhigh, hlow]

theorem toChar_toNat (hc : c.toNat < 256) : toChar c.toNat = c := by
  rw [toChar, Int.emod_eq_of_lt (by omega) (by omega), Int.toNat_natCast, Char.ofNat_toNat]

theorem Encodes.urlDecode (h : Encodes s encoding) (ii : Int) : Frontend.urlDecode ii encoding = s := by
  induction h generalizing ii with
  | nil => rfl
  | itself hc _ ih => rw [urlDecode_cons hc, ih]
  | @escape c hi lo s encoding hhigh hlow _ ih =>
      have hc : c.toNat < 256 := by
        have hbound := hexValue_lt hhigh
        omega
      have hsplit : 16 * (c.toNat / 16) + c.toNat % 16 = c.toNat := Nat.div_add_mod _ 16
      rw [Frontend.urlDecode, scanHex_digits hhigh hlow, Option.getD_some, hsplit, toChar_toNat hc, ih]

/-! ### The index -/

theorem dropWhile_append_cons {p : Char → Bool} (hc : p c = false) (front rest : Str) :
    (front ++ c :: rest).dropWhile p = front.dropWhile p ++ c :: rest := by
  induction front with
  | nil => exact List.dropWhile_cons_of_neg (by simp [hc])
  | cons d front ih =>
      rw [List.cons_append, List.dropWhile_cons, List.dropWhile_cons, ih]
      split <;> rfl

theorem takeWhile_append_cons {p : Char → Bool} (hc : p c = false) (front rest : Str) :
    (front ++ c :: rest).takeWhile p = front.takeWhile p := by
  induction front with
  | nil => exact List.takeWhile_cons_of_neg (by simp [hc])
  | cons d front ih => rw [List.cons_append, List.takeWhile_cons, List.takeWhile_cons, ih]

theorem splitSign_append_nul (front rest : Str) :
    splitSign (front ++ '\x00' :: rest) = ((splitSign front).1, (splitSign front).2 ++ '\x00' :: rest) := by
  cases front with
  | nil => rfl
  | cons c front =>
      by_cases hminus : c = '-'
      · subst hminus
        rfl
      · by_cases hplus : c = '+'
        · subst hplus
          rfl
        · rw [List.cons_append, splitSign_cons hminus hplus, splitSign_cons hminus hplus]
          rfl

theorem scanHex_cstr (s : Str) : scanHex (cstr s) = scanHex s := by
  by_cases hnul : '\x00' ∈ s
  · obtain ⟨front, rest, rfl, hfront⟩ := List.eq_append_cons_of_mem hnul
    have hcstr : cstr (front ++ '\x00' :: rest) = front := by
      rw [Chunkserver.cstr_append hfront]
      exact List.append_nil front
    rw [hcstr, scanHex, scanHex, dropWhile_append_cons (by decide), splitSign_append_nul]
    dsimp only
    rw [takeWhile_append_cons (by decide)]
  · rw [Chunkserver.cstr_of_notMem hnul]

/-- From an index on, the loop decodes what stands there. -/
theorem decodeLoop_eq {i n : Nat} (hn : str.length < i + n) (hpositive : 0 < n) (ii : Int) (ret : Str) :
    decodeLoop str n i ii ret = .ok (ret ++ urlDecode ii (str.drop i)) := by
  induction n generalizing i ii ret with
  | zero => exact absurd hpositive (lt_irrefl 0)
  | succ n ih =>
      rw [decodeLoop]
      cases hdrop : str.drop i with
      | nil =>
          rw [List.getElem?_eq_none (List.drop_eq_nil_iff.mp hdrop), urlDecode, List.append_nil]
      | cons c rest =>
          have hinside : i < str.length := by
            have hlength := congrArg List.length hdrop
            rw [List.length_drop, List.length_cons] at hlength
            omega
          obtain ⟨hc, hrest⟩ := List.cons.inj ((List.drop_eq_getElem_cons hinside).symm.trans hdrop)
          rw [List.getElem?_eq_getElem hinside, hc]
          dsimp only
          by_cases hpercent : c = '%'
          · subst hpercent
            rw [if_pos rfl, substr, if_neg (by omega), Run.ok_bind, hrest, scanHex_cstr, ih (by omega) (by omega),
              show i + 3 = i + 1 + 2 from rfl, ← List.drop_drop, hrest, List.append_assoc]
            -- A text that ends in an escape has one byte or none behind the `%`.
            cases rest with
            | nil => rfl
            | cons a rest => cases rest <;> rfl
          · rw [if_neg hpercent, ih (by omega) (by omega), hrest, urlDecode_cons hpercent, List.append_assoc]
            rfl

/-- Every text is decoded, and an encoding is decoded to what it is an encoding of. -/
theorem urlDecodeLoop_spec (ii : Int) : (∀ str, urlDecodeLoop ii str = .ok (urlDecode ii str)) ∧
    ∀ s encoding, Encodes s encoding → urlDecodeLoop ii encoding = .ok s := by
  have hrun (str : Str) : urlDecodeLoop ii str = .ok (urlDecode ii str) := decodeLoop_eq (by omega) (Nat.succ_pos _) ii []
  refine ⟨hrun, fun s encoding hencodes => ?_⟩
  rw [hrun, hencodes.urlDecode]

end Frontend

end PennCloud
