import Mathlib.Data.List.TakeWhile
import VaultSync.Proofs.Toml.Strings

/-! Values that are written and read back, in the place where a document has them: behind the sign of equality,
with a line break after them. -/
namespace VaultSync.Toml

variable {cs rest : List Char}

/-- A run goes on to the first member that does not belong to it. -/
theorem takeWhile_append_stop {p : Char → Bool} (hRun : ∀ c ∈ cs, p c = true)
    (hStop : ∀ c ∈ rest.head?, p c = false) : (cs ++ rest).takeWhile p = cs := by
  rw [List.takeWhile_append_of_pos hRun]
  cases rest with
  | nil => exact List.append_nil cs
  | cons c rest => rw [List.takeWhile_cons_of_neg (by simp [hStop c rfl]), List.append_nil]

/-! ### Decimal digits -/

/-- Only decimal digits, and at least one. -/
structure IsDecimal (cs : List Char) : Prop where
  nonempty : cs ≠ []
  digits : ∀ c ∈ cs, c.isDigit = true

namespace IsDecimal

theorem notMem {c : Char} (h : IsDecimal cs) (hOther : c.isDigit = false) : c ∉ cs := by
  intro hc
  rw [h.digits c hc] at hOther
  cases hOther

theorem isTokenChar (h : IsDecimal cs) : ∀ c ∈ cs, isTokenChar c = true := by
  intro c hc
  simp [Toml.isTokenChar, Char.isAlphanum, h.digits c hc]

theorem digitRun? (h : IsDecimal cs) : digitRun? Char.isDigit cs = some cs := by
  obtain ⟨hNonempty, hDigits⟩ := h
  induction cs with
  | nil => exact absurd rfl hNonempty
  | cons c cs ih =>
      have hFirst := hDigits c List.mem_cons_self
      cases cs with
      | nil => rw [Toml.digitRun?, if_pos hFirst]
      | cons d cs =>
          have hRest := ih (List.cons_ne_nil d cs) fun e he => hDigits e (List.mem_cons_of_mem c he)
          have hUnderscore : d ≠ '_' := by
            rintro rfl
            exact absurd (hDigits '_' (by simp)) (by decide)
          rw [Toml.digitRun?, if_pos hFirst, hRest]
          · rfl
          · exact List.cons_ne_nil d cs
          · exact fun _ hSame => hUnderscore (List.cons.inj hSame).1

theorem isDate_eq_false (h : IsDecimal cs) : isDate cs = false := by
  unfold isDate
  split
  · exact absurd (by simp) (h.notMem (show '-'.isDigit = false from rfl))
  · rfl

theorem isTime_eq_false (h : IsDecimal cs) : isTime cs = false := by
  unfold isTime
  split
  · exact absurd (by simp) (h.notMem (show ':'.isDigit = false from rfl))
  · rfl

theorem sign_eq (h : IsDecimal cs) : sign cs = (false, cs) := by
  unfold sign
  split
  · exact absurd (by simp) (h.notMem (show '-'.isDigit = false from rfl))
  · exact absurd (by simp) (h.notMem (show '+'.isDigit = false from rfl))
  · rfl

theorem isDateTime_eq_false (h : IsDecimal cs) : isDateTime cs = false := by
  have hFront : IsDecimal (cs.take 10) := by
    refine ⟨?_, fun c hc => h.digits c (List.mem_of_mem_take hc)⟩
    have := List.length_pos_iff.2 h.nonempty
    intro hNil
    rw [List.take_eq_nil_iff] at hNil
    exact h.nonempty (hNil.resolve_left (by decide))
  rw [isDateTime, h.isDate_eq_false, h.isTime_eq_false, hFront.isDate_eq_false]
  rfl

theorem isFloat_eq_false (h : IsDecimal cs) : isFloat cs = false := by
  have hWhole : (cs.takeWhile fun c => c.isDigit || c == '_') = cs := by
    refine List.takeWhile_eq_self_iff.2 fun c hc => ?_
    simp [h.digits c hc]
  have hWord {word : List Char} (hLetter : ∃ c ∈ word, c.isDigit = false) : cs ≠ word := by
    rintro rfl
    obtain ⟨c, hc, hOther⟩ := hLetter
    exact h.notMem hOther hc
  have hInf : cs ≠ ['i', 'n', 'f'] := hWord ⟨'i', by simp, rfl⟩
  have hNan : cs ≠ ['n', 'a', 'n'] := hWord ⟨'n', by simp, rfl⟩
  rw [isFloat, h.sign_eq]
  simp only [hInf, hNan, or_self, if_false, hWhole, List.drop_length]
  cases decimal? cs <;> rfl

end IsDecimal

/-! ### Whole numbers -/

theorem isDecimal_toDigits (n : Nat) : IsDecimal (Nat.toDigits 10 n) :=
  ⟨Nat.toDigits_ne_nil, fun _ hc => Nat.isDigit_of_mem_toDigits (by decide) (by decide) hc⟩

/-- Zero is the only number whose first digit is zero. -/
theorem head?_toDigits {n : Nat} (h : (Nat.toDigits 10 n).head? = some '0') : n = 0 := by
  induction n using Nat.strongRecOn with
  | ind n ih =>
      by_cases hShort : n < 10
      · have hDigits : ∀ d < 10, [d.digitChar].head? = some '0' → d = 0 := by decide
        rw [Nat.toDigits_of_lt_base hShort] at h
        exact hDigits n hShort h
      · rw [Nat.toDigits_of_base_le (by decide) (by omega), List.head?_append_of_ne_nil] at h
        · have hZero := ih (n / 10) (by omega) h
          omega
        · exact Nat.toDigits_ne_nil

theorem valueOf_eq (h : ∀ c ∈ cs, c.isDigit = true) (init : Nat) :
    cs.foldl (fun n c => n * 10 + (Text.hexValue? c).getD 0) init = Nat.ofDigitChars 10 cs init := by
  induction cs generalizing init with
  | nil => rfl
  | cons c cs ih =>
      have hDigit : '0' ≤ c ∧ c ≤ '9' := by
        have hFirst := h c List.mem_cons_self
        rwa [Char.isDigit, Bool.and_eq_true, decide_eq_true_iff, decide_eq_true_iff] at hFirst
      rw [List.foldl_cons, Nat.ofDigitChars_cons, ih fun d hd => h d (List.mem_cons_of_mem c hd),
        Text.hexValue?, if_pos hDigit, Nat.mul_comm]
      rfl

/-- The digits of a number are read back as the number. -/
theorem decimal?_toDigits (n : Nat) : decimal? (Nat.toDigits 10 n) = some n := by
  have hDecimal := isDecimal_toDigits n
  have hValue : valueOf 10 (Nat.toDigits 10 n) = n := by
    rw [valueOf, valueOf_eq hDecimal.digits, Nat.ofDigitChars_toDigits (by decide) (by decide)]
  unfold decimal?
  split
  · rename_i hDigits
    have hZero := head?_toDigits (congrArg List.head? hDigits)
    subst hZero
    rw [Nat.toDigits_zero] at hDigits
    cases hDigits
  · rw [hDecimal.digitRun?, Option.map_some, hValue]

theorem integer?_toDigits {n : Nat} (h : n ≤ 9223372036854775807) :
    integer? (Nat.toDigits 10 n) = some (n : Int) := by
  have hDecimal := isDecimal_toDigits n
  unfold integer?
  split
  · rename_i hDigits
    exact absurd (by simp [hDigits]) (hDecimal.notMem (show 'x'.isDigit = false from rfl))
  · rename_i hDigits
    exact absurd (by simp [hDigits]) (hDecimal.notMem (show 'o'.isDigit = false from rfl))
  · rename_i hDigits
    exact absurd (by simp [hDigits]) (hDecimal.notMem (show 'b'.isDigit = false from rfl))
  · rw [hDecimal.sign_eq]
    simp only [decimal?_toDigits, bind, Option.bind, inRange]
    exact if_pos (by omega)

/-- A number that was written is read back. -/
theorem readScalar?_toString {n : Nat} (h : n ≤ 9223372036854775807)
    (hRest : ∀ c ∈ rest.head?, isTokenChar c = false) :
    readScalar? ((toString n).toList ++ rest) = some (.integer n, rest) := by
  have hDecimal := isDecimal_toDigits n
  have hDigits : (toString n).toList = Nat.toDigits 10 n := by
    rw [Nat.toString_eq_ofList_toDigits, String.toList_ofList]
  have hToken : (Nat.toDigits 10 n ++ rest).takeWhile isTokenChar = Nat.toDigits 10 n :=
    takeWhile_append_stop hDecimal.isTokenChar hRest
  have hWord {word : List Char} (hLetter : ∃ c ∈ word, c.isDigit = false) : Nat.toDigits 10 n ≠ word := by
    intro hWord
    obtain ⟨c, hc, hOther⟩ := hLetter
    exact hDecimal.notMem hOther (hWord ▸ hc)
  have hScalar : scalar? (Nat.toDigits 10 n) = some (.integer n) := by
    rw [scalar?, if_neg (hWord ⟨'t', by simp, rfl⟩), if_neg (hWord ⟨'f', by simp, rfl⟩),
      hDecimal.isDateTime_eq_false, hDecimal.isFloat_eq_false, integer?_toDigits h]
    rfl
  rw [readScalar?, hDigits, hToken, List.drop_left, hDecimal.isDate_eq_false]
  simp only [hScalar, bind, Option.bind]
  rfl

/-! ### Written values -/

/-- What is written is read as a value at the end of a line, and does not begin with a blank. -/
structure Reads (written : String) (value : Value) : Prop where
  visible : ∀ rest, skipBlanks (written.toList ++ '\n' :: rest) = written.toList ++ '\n' :: rest
  value : ∀ rest, value? maxDepth (written.toList ++ '\n' :: rest) = some (value, '\n' :: rest)

/-- Only what begins with a quote is read as a string. -/
theorem exists_quote_of_string? {r : String × List Char} (h : string? cs = some r) :
    ∃ quote rest, cs = quote :: rest ∧ (quote = '"' ∨ quote = '\'') := by
  unfold string? at h
  split at h
  · exact ⟨_, _, rfl, .inl rfl⟩
  · exact ⟨_, _, rfl, .inr rfl⟩
  · exact ⟨_, _, rfl, .inl rfl⟩
  · exact ⟨_, _, rfl, .inr rfl⟩
  · cases h

/-- A string is read back in whichever of the four forms it was written. -/
theorem reads_writeString (s : String) : Reads (writeString s) (.string s) := by
  have hString (rest : List Char) : string? ((writeString s).toList ++ '\n' :: rest) = some (s, '\n' :: rest) :=
    string?_writeString s (by simp) (by simp)
  refine ⟨fun rest => ?_, fun rest => ?_⟩ <;>
    obtain ⟨quote, behind, hFront, hQuote⟩ := exists_quote_of_string? (hString rest)
  · rw [hFront]
    rcases hQuote with rfl | rfl <;> rfl
  · have hValue : value? maxDepth (quote :: behind) =
        (string? (quote :: behind)).map fun r => (.string r.1, r.2) := by
      rcases hQuote with rfl | rfl <;> rfl
    rw [hFront, hValue, ← hFront, hString]
    rfl

/-- A number is read back. -/
theorem reads_toString {n : Nat} (h : n ≤ 9223372036854775807) : Reads (toString n) (.integer n) := by
  have hScalar (rest : List Char) : readScalar? ((toString n).toList ++ '\n' :: rest) =
      some (.integer n, '\n' :: rest) := readScalar?_toString h (by simp; decide)
  have hDigits : (toString n).toList = Nat.toDigits 10 n := by
    rw [Nat.toString_eq_ofList_toDigits, String.toList_ofList]
  obtain ⟨hNonempty, hDecimal⟩ := isDecimal_toDigits n
  rw [← hDigits] at hNonempty hDecimal
  obtain ⟨c, cs, hFront⟩ := List.exists_cons_of_ne_nil hNonempty
  have hDigit : c.isDigit = true := hDecimal c (hFront ▸ List.mem_cons_self)
  have hOther {d : Char} (hd : d.isDigit = false) : c ≠ d := by
    rintro rfl
    rw [hDigit] at hd
    cases hd
  refine ⟨fun rest => ?_, fun rest => ?_⟩
  · rw [hFront, skipBlanks, List.cons_append, List.dropWhile_cons_of_neg]
    simp [hOther (show ' '.isDigit = false from rfl), hOther (show '\t'.isDigit = false from rfl)]
  -- a value that starts with a digit is none of those told by their first character
  · rw [← hScalar rest, hFront, maxDepth, List.cons_append, value?]
    · exact fun _ hSame => hOther (show '"'.isDigit = false from rfl) (List.cons.inj hSame).1
    · exact fun _ hSame => hOther (show '\''.isDigit = false from rfl) (List.cons.inj hSame).1
    · exact fun _ hSame => hOther (show '['.isDigit = false from rfl) (List.cons.inj hSame).1
    · exact fun _ hSame => hOther (show '\x7b'.isDigit = false from rfl) (List.cons.inj hSame).1

end VaultSync.Toml
