import Mathlib.Data.List.Basic
import VaultSync.Toml.Parser
import VaultSync.Toml.Printer

/-! Strings that are written and read back. A string is written in one of five forms, and whatever
characters it has, the form that was chosen for it is read as that string again. -/
namespace VaultSync.Toml

variable {c quote : Char} {cs ws rest : List Char} {run fuel : Nat}

/-! ### Characters -/

/-- A character that stands for itself in strings. The reader of each form says which quotes and
backslashes do not. -/
def IsRaw (c : Char) : Prop :=
  c = '\t' ∨ (' ' ≤ c ∧ c ≤ '~') ∨ beyondAscii c = true

theorem isRaw_of_not_control (h : ¬ (c.toNat < 32 ∨ c.toNat = 127)) : IsRaw c := by
  have hLow : ' ' ≤ c ↔ 32 ≤ c.toNat := Iff.rfl
  have hHigh : c ≤ '~' ↔ c.toNat ≤ 126 := Iff.rfl
  rw [IsRaw, hLow, hHigh, beyondAscii, decide_eq_true_iff]
  omega

theorem isRaw_of_needsEscape (h : needsEscape c = false) (hNewline : c ≠ '\n') : IsRaw c := by
  by_cases hTab : c = '\t'
  · exact .inl hTab
  · refine isRaw_of_not_control fun hControl => ?_
    simp [needsEscape, hTab, hNewline, hControl] at h

namespace IsRaw

theorem ne_newline (h : IsRaw c) : c ≠ '\n' := by
  rintro rfl
  revert h
  unfold IsRaw
  decide

theorem ne_return (h : IsRaw c) : c ≠ '\r' := by
  rintro rfl
  revert h
  unfold IsRaw
  decide

theorem isPlain (h : IsRaw c) (hQuote : c ≠ '"') (hEscape : c ≠ '\\') : isPlain c = true := by
  rcases h with rfl | h | h
  · rfl
  · simp [Toml.isPlain, h, hQuote, hEscape]
  · simp [Toml.isPlain, h]

theorem isLiteral (h : IsRaw c) (hQuote : c ≠ '\'') : isLiteral c = true := by
  rcases h with rfl | h | h
  · rfl
  · simp [Toml.isLiteral, h, hQuote]
  · simp [Toml.isLiteral, h]

end IsRaw

/-! ### Escapes -/

theorem codePoint?_control : ∀ n < 128,
    codePoint? ['0', '0', Text.upperHexDigit (n / 16), Text.upperHexDigit (n % 16)] = some (Char.ofNat n) := by
  decide

/-- The escape of a character is read as that character. -/
theorem escape?_of_escapeOf? {long : Bool} {written : List Char} (h : escapeOf? long c = some written) :
    ∃ body, written = '\\' :: body ∧ ∀ rest, escape? (body ++ rest) = some (c, rest) := by
  unfold escapeOf? at h
  split at h
  · exact ⟨['b'], (Option.some.inj h).symm, fun _ => rfl⟩
  · exact ⟨['t'], (Option.some.inj h).symm, fun _ => rfl⟩
  · split at h
    · cases h
    · exact ⟨['n'], (Option.some.inj h).symm, fun _ => rfl⟩
  · exact ⟨['f'], (Option.some.inj h).symm, fun _ => rfl⟩
  · exact ⟨['r'], (Option.some.inj h).symm, fun _ => rfl⟩
  · exact ⟨['\\'], (Option.some.inj h).symm, fun _ => rfl⟩
  · split at h
    · rename_i hControl
      refine ⟨_, (Option.some.inj h).symm, fun rest => ?_⟩
      have hCode := codePoint?_control c.toNat (by omega)
      rw [Char.ofNat_toNat] at hCode
      simp only [List.cons_append, List.nil_append, escape?, hCode, Option.map_some]
    · cases h

/-- What has no escape is no control character, unless it is a line break among several lines. -/
theorem raw_of_escapeOf?_eq_none {long : Bool} (h : escapeOf? long c = none) :
    c ≠ '\\' ∧ (IsRaw c ∨ long = true ∧ c = '\n') := by
  unfold escapeOf? at h
  split at h
  any_goals cases h
  · split at h
    · rename_i hLong
      exact ⟨by decide, .inr ⟨hLong, rfl⟩⟩
    · cases h
  · rename_i hEscape
    split at h
    · cases h
    · rename_i hControl
      exact ⟨hEscape, .inl (isRaw_of_not_control hControl)⟩

/-! ### Strings in one line -/

/-- An escape stands for its character. -/
theorem basicString?_escape {body : List Char} (h : escape? (body ++ rest) = some (c, rest)) :
    basicString? ('\\' :: (body ++ rest)) = (basicString? rest).map fun r => (c :: r.1, r.2) := by
  rw [basicString?]
  split
  · rename_i hNone
    rw [h] at hNone
    cases hNone
  · rename_i hSome
    rw [h] at hSome
    cases hSome
    rfl

theorem basicString?_plain (h : isPlain c = true) (hQuote : c ≠ '"') (hEscape : c ≠ '\\') :
    basicString? (c :: rest) = (basicString? rest).map fun r => (c :: r.1, r.2) := by
  rw [basicString?]
  · rw [if_pos h]
  · exact hQuote
  · exact hEscape

/-- The escaped characters of a text are read back as the text. -/
theorem basicString?_escapeChars (cs rest : List Char) :
    basicString? (escapeChars false 0 cs ++ '"' :: rest) = some (cs, rest) := by
  -- character by character: a quote is always escaped here, so the first one that is not ends the string
  induction cs with
  | nil => simp [escapeChars, basicString?]
  | cons c cs ih =>
      rw [escapeChars]
      split
      · rename_i hQuote
        subst hQuote
        have hRead : escape? (['"'] ++ (escapeChars false 0 cs ++ '"' :: rest)) =
            some ('"', escapeChars false 0 cs ++ '"' :: rest) := rfl
        have hString := basicString?_escape hRead
        rw [ih] at hString
        exact hString
      · rename_i hQuote
        cases hEscape : escapeOf? false c with
        | some written =>
            obtain ⟨body, rfl, hRead⟩ := escape?_of_escapeOf? hEscape
            rw [Option.getD_some, List.cons_append, List.cons_append, List.append_assoc,
              basicString?_escape (hRead _), ih]
            rfl
        | none =>
            obtain ⟨hBackslash, hRaw | ⟨hLong, -⟩⟩ := raw_of_escapeOf?_eq_none hEscape
            · rw [Option.getD_none, List.singleton_append, List.cons_append,
                basicString?_plain (hRaw.isPlain hQuote hBackslash) hQuote hBackslash, ih]
              rfl
            · cases hLong

/-- A literal string is read as it stands. -/
theorem literalString?_raw (hRaw : ∀ c ∈ cs, IsRaw c) (hQuote : '\'' ∉ cs) (rest : List Char) :
    literalString? (cs ++ '\'' :: rest) = some (cs, rest) := by
  induction cs with
  | nil => rfl
  | cons c cs ih =>
      rw [List.mem_cons, not_or] at hQuote
      have hLiteral := (hRaw c List.mem_cons_self).isLiteral (Ne.symm hQuote.1)
      rw [List.cons_append, literalString?, if_pos hLiteral,
        ih (fun d hd => hRaw d (List.mem_cons_of_mem _ hd)) hQuote.2]
      · rfl
      · exact Ne.symm hQuote.1

/-! ### Strings over several lines -/

/-- What the characters of a string over several lines are written as, behind a number of quotes. At most
two quotes stand in a row. -/
inductive Spelled (quote : Char) : Nat → List Char → List Char → Prop
  | nil (run : Nat) : Spelled quote run [] []
  | quote {run : Nat} {cs ws : List Char} (h : run < 2) (tail : Spelled quote (run + 1) cs ws) :
    Spelled quote run (quote :: cs) (quote :: ws)
  | newline {run : Nat} {cs ws : List Char} (tail : Spelled quote 0 cs ws) :
    Spelled quote run ('\n' :: cs) ('\n' :: ws)
  | raw {run : Nat} {c : Char} {cs ws : List Char} (hRaw : IsRaw c) (hQuote : c ≠ quote)
    (hEscape : ¬ (c = '\\' ∧ quote = '"')) (tail : Spelled quote 0 cs ws) :
    Spelled quote run (c :: cs) (c :: ws)
  | escape {run : Nat} {c : Char} {body cs ws : List Char} (hQuote : quote = '"')
    (hRead : ∀ rest, escape? (body ++ rest) = some (c, rest)) (tail : Spelled quote 0 cs ws) :
    Spelled quote run (c :: cs) ('\\' :: (body ++ ws))

namespace Spelled

theorem length_le (h : Spelled quote run cs ws) : cs.length ≤ ws.length := by
  induction h with
  | nil => exact Nat.le_refl 0
  | quote _ _ ih => exact Nat.succ_le_succ ih
  | newline _ ih => exact Nat.succ_le_succ ih
  | raw _ _ _ _ ih => exact Nat.succ_le_succ ih
  | escape _ _ _ ih =>
      simp only [List.length_cons, List.length_append]
      omega

/-- The quotes in front go on to the end, or there are too few of them to close the string. -/
theorem quotes_cases (hQuote : quote = '"' ∨ quote = '\'') (h : Spelled quote run cs ws) (hRun : run ≤ 2) :
    (∃ k ≤ 2, cs = List.replicate k quote ∧ ws = List.replicate k quote) ∨
      ∀ more, ((ws ++ more).takeWhile (· == quote)).length < 3 := by
  have hOther {run : Nat} {c : Char} {ws : List Char} (hNe : c ≠ quote) (hRun : run ≤ 2) (more : List Char) :
      run + ((c :: ws ++ more).takeWhile (· == quote)).length < 3 := by
    simp [hNe]
    omega
  -- Quotes that stand before count as well, or the induction would not go through.
  suffices hStronger : (∃ k, run + k ≤ 2 ∧ cs = List.replicate k quote ∧ ws = List.replicate k quote) ∨
      ∀ more, run + ((ws ++ more).takeWhile (· == quote)).length < 3 by
    refine hStronger.imp (fun ⟨k, hk, hEqs⟩ => ⟨k, by omega, hEqs⟩) fun hFew more => ?_
    have := hFew more
    omega
  induction h with
  | nil run => exact .inl ⟨0, hRun, rfl, rfl⟩
  | quote hLess _ ih =>
      refine (ih hLess).imp ?_ fun hFew more => ?_
      · rintro ⟨k, hk, rfl, rfl⟩
        exact ⟨k + 1, by omega, rfl, rfl⟩
      · have := hFew more
        simp only [List.cons_append, List.takeWhile_cons, beq_self_eq_true, if_true, List.length_cons]
        omega
  | newline => exact .inr (hOther (by rcases hQuote with rfl | rfl <;> decide) hRun)
  | raw _ hNe => exact .inr (hOther hNe hRun)
  | escape => exact .inr (hOther (by rcases hQuote with rfl | rfl <;> decide) hRun)

end Spelled

theorem closingQuotes?_replicate {k : Nat} (hk : k ≤ 2) (hRest : rest.head? ≠ some quote) :
    closingQuotes? quote (List.replicate k quote ++ quote :: quote :: quote :: rest) =
      some (List.replicate k quote, rest) := by
  have hQuotes : List.replicate k quote ++ quote :: quote :: quote :: rest =
      List.replicate (k + 3) quote ++ rest := by
    rw [List.replicate_add, List.append_assoc]
    rfl
  have hRun : (List.replicate (k + 3) quote ++ rest).takeWhile (· == quote) =
      List.replicate (k + 3) quote := by
    rw [List.takeWhile_append_of_pos (by simp)]
    cases rest with
    | nil => simp
    | cons c rest =>
        have hNe : (c == quote) = false := by simpa using hRest
        simp [hNe]
  have hKept : min k 2 = k := Nat.min_eq_left hk
  rw [closingQuotes?, hQuotes, hRun]
  simp [hKept]

theorem closingQuotes?_eq_none (h : ((ws ++ rest).takeWhile (· == quote)).length < 3) :
    closingQuotes? quote (ws ++ rest) = none := by
  rw [closingQuotes?]
  exact if_pos h

section

variable (hNone : closingQuotes? quote (c :: rest) = none)

include hNone in
/-- A quote that does not close the string belongs to it. -/
theorem longString?_quote (hQuote : quote = '"' ∨ quote = '\'') (hSame : c = quote) :
    longString? quote (fuel + 1) (c :: rest) =
      (longString? quote fuel rest).map fun r => (quote :: r.1, r.2) := by
  rw [longString?.eq_def]
  simp only [hNone]
  subst hSame
  rcases hQuote with rfl | rfl <;> simp

include hNone in
theorem longString?_newline (hSame : c = '\n') :
    longString? quote (fuel + 1) (c :: rest) =
      (longString? quote fuel rest).map fun r => ('\n' :: r.1, r.2) := by
  subst hSame
  rw [longString?.eq_def]
  simp only [hNone]

include hNone in
/-- In a long string a raw character stands for itself. -/
theorem longString?_raw (hRaw : IsRaw c) (hQuote : c ≠ quote) (hEscape : ¬ (c = '\\' ∧ quote = '"')) :
    longString? quote (fuel + 1) (c :: rest) =
      (longString? quote fuel rest).map fun r => (c :: r.1, r.2) := by
  rw [longString?.eq_def]
  simp only [hNone]
  split
  · cases ‹c :: rest = []›
  · exact absurd (List.cons.inj ‹c :: rest = _›).1 hRaw.ne_newline
  · exact absurd (List.cons.inj ‹c :: rest = _›).1 hRaw.ne_return
  · obtain ⟨rfl, rfl⟩ := List.cons.inj ‹c :: rest = _›
    rw [if_neg hQuote, if_neg hEscape]
    exact if_pos hRaw

end

theorem longString?_escape {body : List Char} (hNone : closingQuotes? '"' ('\\' :: (body ++ rest)) = none)
    (hRead : escape? (body ++ rest) = some (c, rest)) :
    longString? '"' (fuel + 1) ('\\' :: (body ++ rest)) =
      (longString? '"' fuel rest).map fun r => (c :: r.1, r.2) := by
  rw [longString?.eq_def]
  simp only [hNone]
  simp [hRead]

/-- What is spelled over several lines is read back. -/
theorem longString?_of_spelled (hQuote : quote = '"' ∨ quote = '\'') (h : Spelled quote run cs ws)
    (hRun : run ≤ 2) (hRest : rest.head? ≠ some quote) (hFuel : cs.length < fuel) :
    longString? quote fuel (ws ++ quote :: quote :: quote :: rest) = some (cs, rest) := by
  induction fuel generalizing run cs ws with
  | zero => cases hFuel
  | succ fuel ih =>
      -- only quotes can end the string, and up to two of them may belong to the text before the three
      rcases h.quotes_cases hQuote hRun with ⟨k, hk, rfl, rfl⟩ | hFew
      · rw [longString?.eq_def]
        simp only [closingQuotes?_replicate hk hRest]
      · have hNone := closingQuotes?_eq_none (hFew (quote :: quote :: quote :: rest))
        cases h with
        | nil =>
            have hThree := hFew (quote :: quote :: quote :: rest)
            simp only [List.nil_append, List.takeWhile_cons, beq_self_eq_true, if_true,
              List.length_cons] at hThree
            omega
        | quote hTwo tail =>
            rw [List.cons_append] at hNone ⊢
            rw [longString?_quote hNone hQuote rfl,
              ih tail hTwo (Nat.lt_of_succ_lt_succ hFuel)]
            rfl
        | newline tail =>
            rw [List.cons_append] at hNone ⊢
            rw [longString?_newline hNone rfl,
              ih tail (Nat.zero_le 2) (Nat.lt_of_succ_lt_succ hFuel)]
            rfl
        | raw hRaw hNe hEscape tail =>
            rw [List.cons_append] at hNone ⊢
            rw [longString?_raw hNone hRaw hNe hEscape,
              ih tail (Nat.zero_le 2) (Nat.lt_of_succ_lt_succ hFuel)]
            rfl
        | escape hDouble hRead tail =>
            subst hDouble
            rw [List.cons_append, List.append_assoc] at hNone ⊢
            rw [longString?_escape hNone (hRead _), ih tail (Nat.zero_le 2) (Nat.lt_of_succ_lt_succ hFuel)]
            rfl

/-- A line break that was put in front of a string is left out again. -/
theorem skipNewline_of_spelled (hQuote : quote = '"' ∨ quote = '\'') (h : Spelled quote run cs ws)
    (hNewline : '\n' ∉ cs) : skipNewline (ws ++ quote :: rest) = ws ++ quote :: rest := by
  have hKept {c : Char} {cs : List Char} (hFeed : c ≠ '\n') (hReturn : c ≠ '\r') :
      skipNewline (c :: cs) = c :: cs := by
    simp [skipNewline, newline?, hFeed, hReturn]
  have hQuoteKept (cs : List Char) : skipNewline (quote :: cs) = quote :: cs := by
    rcases hQuote with rfl | rfl <;> exact hKept (by decide) (by decide)
  cases h with
  | nil => exact hQuoteKept rest
  | quote => exact hQuoteKept _
  | newline => exact absurd List.mem_cons_self hNewline
  | raw hRaw => exact hKept hRaw.ne_newline hRaw.ne_return
  | escape => exact hKept (by decide) (by decide)

/-! ### What is spelled -/

/-- Escaping never leaves three quotes in a row. -/
theorem spelled_escapeChars (hRun : run ≤ 2) (cs : List Char) :
    Spelled '"' run cs (escapeChars true run cs) := by
  -- the run counts the quotes just before, and the third in a row is escaped
  induction cs generalizing run with
  | nil => exact .nil run
  | cons c cs ih =>
      rw [escapeChars]
      split
      · rename_i hQuote
        subst hQuote
        simp only [if_true]
        have hRead (rest : List Char) : escape? (['"'] ++ rest) = some ('"', rest) := rfl
        split
        · exact .escape rfl hRead (ih (Nat.zero_le 2))
        · rename_i hTwo
          exact .quote (by omega) (ih (by omega))
      · rename_i hQuote
        cases hEscape : escapeOf? true c with
        | some written =>
            obtain ⟨body, rfl, hRead⟩ := escape?_of_escapeOf? hEscape
            exact .escape rfl hRead (ih (Nat.zero_le 2))
        | none =>
            obtain ⟨hBackslash, hRaw | ⟨-, rfl⟩⟩ := raw_of_escapeOf?_eq_none hEscape
            · exact .raw hRaw hQuote (fun h => hBackslash h.1) (ih (Nat.zero_le 2))
            · exact .newline (ih (Nat.zero_le 2))

/-- One more character of a run, with the longest run so far. -/
def countRun (c : Char) (counts : Nat × Nat) (x : Char) : Nat × Nat :=
  if x = c then (counts.1 + 1, max counts.2 (counts.1 + 1)) else (0, counts.2)

theorem longestRun_eq (c : Char) (cs : List Char) : longestRun c cs = (cs.foldl (countRun c) (0, 0)).2 := rfl

theorem le_foldl_countRun (c : Char) (cs : List Char) (counts : Nat × Nat) :
    counts.2 ≤ (cs.foldl (countRun c) counts).2 := by
  induction cs generalizing counts with
  | nil => exact Nat.le_refl _
  | cons x cs ih =>
      refine Nat.le_trans ?_ (ih (countRun c counts x))
      rw [countRun]
      split
      · exact Nat.le_max_left _ _
      · exact Nat.le_refl _

theorem notMem_of_longestRun (h : longestRun c cs = 0) : c ∉ cs := by
  rw [longestRun_eq] at h
  generalize (0, 0) = counts at h
  induction cs generalizing counts with
  | nil => exact List.not_mem_nil
  | cons x cs ih =>
      rw [List.mem_cons, not_or]
      refine ⟨?_, ih _ h⟩
      rintro rfl
      have hOne := le_foldl_countRun c cs (countRun c counts c)
      rw [List.foldl_cons] at h
      rw [h, countRun, if_pos rfl] at hOne
      have := Nat.le_max_right counts.2 (counts.1 + 1)
      omega

/-- Characters stand for themselves where no more than two quotes are in a row. -/
theorem spelled_of_longestRun (hRaw : ∀ c ∈ cs, c ≠ '\n' → IsRaw c) (h : longestRun '\'' cs ≤ 2) :
    Spelled '\'' 0 cs cs := by
  rw [longestRun_eq] at h
  -- the count of quotes just before has to be general for the induction, and so has the longest so far
  suffices hStronger : ∀ run best, (cs.foldl (countRun '\'') (run, best)).2 ≤ 2 → Spelled '\'' run cs cs from
    hStronger 0 0 h
  clear h
  intro run best h
  induction cs generalizing run best with
  | nil => exact .nil run
  | cons c cs ih =>
      have hTail : ∀ d ∈ cs, d ≠ '\n' → IsRaw d := fun d hd => hRaw d (List.mem_cons_of_mem _ hd)
      have hLongest := le_foldl_countRun '\'' cs (countRun '\'' (run, best) c)
      rw [List.foldl_cons] at h
      by_cases hQuote : c = '\''
      · subst hQuote
        rw [countRun, if_pos rfl] at h hLongest
        have hTwo : run + 1 ≤ 2 := Nat.le_trans (Nat.le_max_right best (run + 1)) (Nat.le_trans hLongest h)
        exact .quote hTwo (ih hTail _ _ h)
      · rw [countRun, if_neg hQuote] at h
        by_cases hNewline : c = '\n'
        · subst hNewline
          exact .newline (ih hTail _ _ h)
        · exact .raw (hRaw c List.mem_cons_self hNewline) hQuote (fun hEscape => absurd hEscape.2 (by decide))
            (ih hTail _ _ h)

/-! ### The form that is chosen -/

/-- A line break in front, if the string has one. -/
def leading (cs : List Char) : List Char :=
  if cs.contains '\n' then ['\n'] else []

theorem skipNewline_leading (hQuote : quote = '"' ∨ quote = '\'') (h : Spelled quote run cs ws) :
    skipNewline (leading cs ++ (ws ++ quote :: rest)) = ws ++ quote :: rest := by
  rw [leading]
  split
  · rfl
  · rename_i hNewline
    exact skipNewline_of_spelled hQuote h (by simpa using hNewline)

/-- A string over several lines behind its opening quotes. -/
theorem longString?_leading (hQuote : quote = '"' ∨ quote = '\'') (h : Spelled quote 0 cs ws)
    (hRest : rest.head? ≠ some quote) :
    let behind := leading cs ++ (ws ++ quote :: quote :: quote :: rest)
    longString? quote (behind.length + 1) (skipNewline behind) = some (cs, rest) := by
  intro behind
  have hLength := h.length_le
  rw [skipNewline_leading hQuote h]
  refine longString?_of_spelled hQuote h (Nat.zero_le 2) hRest ?_
  simp only [behind, List.length_append]
  omega

theorem exists_head_escapeChars (c : Char) (cs : List Char) :
    ∃ d ds, escapeChars false 0 (c :: cs) = d :: ds ∧ d ≠ '"' := by
  rw [escapeChars]
  split
  · exact ⟨'\\', _, rfl, by decide⟩
  · rename_i hQuote
    cases hEscape : escapeOf? false c with
    | some written =>
        obtain ⟨body, rfl, -⟩ := escape?_of_escapeOf? hEscape
        exact ⟨'\\', _, rfl, by decide⟩
    | none => exact ⟨c, _, rfl, hQuote⟩

/-- A basic string is read back, with whatever follows it. -/
theorem string?_basic (cs : List Char) (hRest : rest.head? ≠ some '"') :
    string? ('"' :: (escapeChars false 0 cs ++ '"' :: rest)) = some (String.ofList cs, rest) := by
  rw [string?, basicString?_escapeChars]
  · rfl
  · -- Two more quotes would open a string over several lines.
    intro more hMore
    cases cs with
    | nil =>
        obtain rfl : rest = '"' :: more := (List.cons.inj hMore).2
        exact hRest rfl
    | cons c cs =>
        obtain ⟨d, ds, hHead, hQuote⟩ := exists_head_escapeChars c cs
        rw [hHead] at hMore
        exact hQuote (List.cons.inj hMore).1

/-- A literal string is read back, with whatever follows it. -/
theorem string?_literal (hRaw : ∀ c ∈ cs, IsRaw c) (hQuote : '\'' ∉ cs) (hRest : rest.head? ≠ some '\'') :
    string? ('\'' :: (cs ++ '\'' :: rest)) = some (String.ofList cs, rest) := by
  rw [string?, literalString?_raw hRaw hQuote]
  · rfl
  · intro more hMore
    cases cs with
    | nil =>
        obtain rfl : rest = '\'' :: more := (List.cons.inj hMore).2
        exact hRest rfl
    | cons c cs => exact hQuote ((List.cons.inj hMore).1 ▸ List.mem_cons_self)

theorem string?_long (h : Spelled '"' 0 cs ws) (hRest : rest.head? ≠ some '"') :
    string? ('"' :: '"' :: '"' :: (leading cs ++ (ws ++ '"' :: '"' :: '"' :: rest))) =
      some (String.ofList cs, rest) := by
  rw [string?, longString?_leading (.inl rfl) h hRest]
  rfl

theorem string?_longLiteral (h : Spelled '\'' 0 cs ws) (hRest : rest.head? ≠ some '\'') :
    string? ('\'' :: '\'' :: '\'' :: (leading cs ++ (ws ++ '\'' :: '\'' :: '\'' :: rest))) =
      some (String.ofList cs, rest) := by
  rw [string?, longString?_leading (.inr rfl) h hRest]
  rfl

/-- A string that was written is read back, whatever its characters are. -/
theorem string?_writeString (s : String) (hDouble : rest.head? ≠ some '"') (hSingle : rest.head? ≠ some '\'') :
    string? ((writeString s).toList ++ rest) = some (s, rest) := by
  have hText : String.ofList s.toList = s := String.ofList_toList
  have hOne : "\"".toList = ['"'] ∧ "'".toList = ['\''] := ⟨rfl, rfl⟩
  have hThree : "\"\"\"".toList = ['"', '"', '"'] ∧ "'''".toList = ['\'', '\'', '\''] := ⟨rfl, rfl⟩
  have hLeading : (if s.toList.contains '\n' then "\n" else "").toList = leading s.toList := by
    rw [leading]
    split <;> rfl
  have hRaw (hControl : ¬ s.toList.any needsEscape = true) : ∀ c ∈ s.toList, c ≠ '\n' → IsRaw c := by
    rw [List.any_eq_true, not_exists] at hControl
    exact fun c hc => isRaw_of_needsEscape (by simpa [hc] using hControl c)
  have hBasic := string?_basic s.toList hDouble
  have hLong := string?_long (spelled_escapeChars (Nat.zero_le 2) s.toList) hDouble
  rw [hText] at hBasic hLong
  -- each form that may be chosen is read back under the condition it is chosen for
  rw [writeString]
  generalize (if s.toList.contains '\n' then "\n" else "") = start at hLeading ⊢
  split
  · simpa [hOne] using hBasic
  split
  · rename_i hForm
    have hNewline : '\n' ∉ s.toList := by simpa using hForm.2.2
    have hLiteral := string?_literal (fun c hc => hRaw hForm.1 c hc fun hFeed => hNewline (hFeed ▸ hc))
      (notMem_of_longestRun hForm.2.1) hSingle
    simpa [hOne, hText] using hLiteral
  split
  · simpa [hThree, hLeading] using hLong
  split
  · rename_i hForm
    have hLiteral := string?_longLiteral (spelled_of_longestRun (hRaw hForm.1) hForm.2) hSingle
    simpa [hThree, hLeading, hText] using hLiteral
  split
  · simpa [hThree, hLeading] using hLong
  · simpa [hOne] using hBasic

end VaultSync.Toml
