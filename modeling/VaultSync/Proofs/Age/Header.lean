import VaultSync.Age.Header
import VaultSync.Proofs.Encoding.Base64

/-! Headers are read back: each stanza with its words and its body, whatever stands behind the header. -/
namespace VaultSync.Age

/-! ### Words and lines -/

theorem expect_append (expected rest : List Char) : expect expected (expected ++ rest) = .ok rest := by
  induction expected with
  | nil => rfl
  | cons e es ih => rw [List.cons_append, expect, if_pos rfl, ih]

/-- A word that can stand in a stanza. -/
def IsWord (word : List Char) : Prop :=
  word ≠ [] ∧ ∀ c ∈ word, isWordChar c = true

/-- Bytes in base 64 are a word. -/
theorem isWord_encode {bytes : ByteArray} (h : bytes.size ≠ 0) : IsWord (Base64.encode bytes) := by
  refine ⟨?_, fun c hc => ?_⟩
  · rw [← List.length_pos_iff, Base64.encode, Base64.length_encodeChars, Bytes.length_toList]
    omega
  · have hWordChars : ∀ n < 64, isWordChar (Base64.charOf n) = true := by decide
    obtain ⟨n, hn, rfl⟩ := Base64.isDigit_of_mem hc
    exact hWordChars n hn

/-- A word is taken up to the first other character. -/
theorem takeWord_append {word : List Char} (h : IsWord word) {c : Char} (hEnd : isWordChar c = false)
    (rest : List Char) : takeWord (word ++ c :: rest) = .ok (word, c :: rest) := by
  have hEmpty : word.isEmpty = false := by
    rw [← Bool.not_eq_true, List.isEmpty_iff]
    exact h.1
  have hTake : (word ++ c :: rest).takeWhile isWordChar = word := by
    rw [List.takeWhile_append_of_pos h.2, List.takeWhile_cons_of_neg (by simp [hEnd]), List.append_nil]
  have hDrop : (word ++ c :: rest).dropWhile isWordChar = c :: rest := by
    rw [List.dropWhile_append_of_pos h.2, List.dropWhile_cons_of_neg (by simp [hEnd])]
  simp [takeWord, hTake, hDrop, hEmpty]

/-- The words of a line are taken one after the other. -/
theorem takeWords_append {word : List Char} {words : List (List Char)} (hWord : IsWord word)
    (hWords : ∀ w ∈ words, IsWord w) {fuel : Nat} (hFuel : words.length ≤ fuel) (rest : List Char) :
    takeWords (fuel + 1) (word ++ (words.flatMap (fun w => ' ' :: w) ++ '\n' :: rest)) =
      .ok (word :: words, rest) := by
  induction words generalizing word fuel with
  | nil =>
      have hEnd : isWordChar '\n' = false := rfl
      rw [List.flatMap_nil, List.nil_append, takeWords, takeWord_append hWord hEnd]
      rfl
  | cons next words ih =>
      obtain ⟨fuel, rfl⟩ := Nat.exists_eq_succ_of_ne_zero (Nat.ne_of_gt (Nat.zero_lt_of_lt hFuel))
      have hEnd : isWordChar ' ' = false := rfl
      have hRest := ih (hWords next List.mem_cons_self) (fun w hw => hWords w (List.mem_cons_of_mem _ hw))
        (Nat.le_of_succ_le_succ hFuel)
      rw [List.flatMap_cons, List.append_assoc, List.cons_append, takeWords, takeWord_append hWord hEnd]
      simp only [bind, Except.bind, hRest]
      rfl

theorem takeBodyLine_append {line : List Char} (h : ∀ c ∈ line, Base64.IsDigit c) (rest : List Char) :
    takeBodyLine (line ++ '\n' :: rest) = .ok (line, rest) := by
  let isDigit := fun c => (Base64.valueOf? c).isSome
  have hDigits : ∀ c ∈ line, isDigit c = true := fun c hc => (h c hc).isSome
  have hEnd : ¬ isDigit '\n' = true := by decide
  have hTake : (line ++ '\n' :: rest).takeWhile isDigit = line := by
    rw [List.takeWhile_append_of_pos hDigits, List.takeWhile_cons_of_neg hEnd, List.append_nil]
  have hDrop : (line ++ '\n' :: rest).dropWhile isDigit = '\n' :: rest := by
    rw [List.dropWhile_append_of_pos hDigits, List.dropWhile_cons_of_neg hEnd]
  simp only [takeBodyLine, hDrop, hTake, isDigit]

/-- A short line ends the body of a stanza. -/
theorem takeBody_short {line : List Char} (h : ∀ c ∈ line, Base64.IsDigit c)
    (hShort : line.length < bodyColumns) (fuel : Nat) (rest : List Char) :
    takeBody (fuel + 1) (line ++ '\n' :: rest) = .ok (line, rest) := by
  rw [takeBody, takeBodyLine_append h]
  simp only [bind, Except.bind, hShort, if_true]
  rfl

/-- A full line is followed by the rest of the body. -/
theorem takeBody_full {line : List Char} (h : ∀ c ∈ line, Base64.IsDigit c)
    (hFull : line.length = bodyColumns) {fuel : Nat} {cs more rest : List Char}
    (hRest : takeBody fuel cs = .ok (more, rest)) :
    takeBody (fuel + 1) (line ++ '\n' :: cs) = .ok (line ++ more, rest) := by
  rw [takeBody, takeBodyLine_append h]
  simp only [bind, Except.bind, hFull, Nat.lt_irrefl, if_false, hRest]
  rfl

/-- A body is read back from its lines. -/
theorem takeBody_wrapLines {cs : List Char} (h : ∀ c ∈ cs, Base64.IsDigit c) {columns fuel : Nat}
    (hColumns : columns = bodyColumns) (hLength : cs.length ≤ fuel) {fuel' : Nat}
    (hFuel : (Text.wrapLines columns fuel cs).length ≤ fuel') (rest : List Char) :
    takeBody (fuel' + 1) ((Text.wrapLines columns fuel cs).flatMap (· ++ ['\n']) ++ rest) =
      .ok (cs, rest) := by
  -- the writer cuts off full lines while it has them, and the reader takes the same ones
  induction fuel generalizing cs fuel' with
  | zero =>
      obtain rfl : cs = [] := List.length_eq_zero_iff.1 (Nat.le_zero.1 hLength)
      exact takeBody_short h (by decide) fuel' rest
  | succ fuel ih =>
      rw [Text.wrapLines] at hFuel ⊢
      by_cases hShort : cs.length < columns
      · rw [if_pos hShort]
        simpa using takeBody_short h (hColumns ▸ hShort) fuel' rest
      · rw [if_neg hShort] at hFuel ⊢
        have hPositive : 0 < columns := hColumns ▸ (by decide : 0 < bodyColumns)
        have hFull : (cs.take columns).length = bodyColumns := by
          rw [List.length_take, ← hColumns]
          omega
        have hTail : (cs.drop columns).length ≤ fuel := by
          rw [List.length_drop]
          omega
        obtain ⟨fuel', rfl⟩ := Nat.exists_eq_succ_of_ne_zero (Nat.ne_of_gt (Nat.zero_lt_of_lt hFuel))
        have hRest := ih (fun c hc => h c (List.mem_of_mem_drop hc)) hTail (Nat.le_of_succ_le_succ hFuel)
        rw [List.flatMap_cons, List.append_assoc, List.append_assoc, List.singleton_append,
          takeBody_full (fun c hc => h c (List.mem_of_mem_take hc)) hFull hRest, List.take_append_drop]

/-! ### Stanzas -/

/-- A stanza whose words can be written. -/
structure Stanza.WellFormed (stanza : Stanza) : Prop where
  tag : IsWord stanza.tag
  args : ∀ arg ∈ stanza.args, IsWord arg

theorem length_le_flatMap {α : Type} {f : α → List Char} (h : ∀ a, f a ≠ []) (as : List α) :
    as.length ≤ (as.flatMap f).length := by
  induction as with
  | nil => exact Nat.zero_le _
  | cons a as ih =>
      have := List.length_pos_iff.2 (h a)
      rw [List.flatMap_cons, List.length_append, List.length_cons]
      omega

/-- A stanza is read back. -/
theorem takeStanza_encode {stanza : Stanza} (h : stanza.WellFormed) (rest : List Char) :
    takeStanza false (stanza.encode ++ rest) = .ok (stanza, rest) := by
  let lines := Text.wrapLines bodyColumns (Base64.encode stanza.body).length (Base64.encode stanza.body)
  let behind := lines.flatMap (· ++ ['\n']) ++ rest
  have hText : stanza.encode ++ rest = ['-', '>', ' '] ++
      (stanza.tag ++ (stanza.args.flatMap (fun w => ' ' :: w) ++ '\n' :: behind)) := by
    simp [Stanza.encode, behind, lines]
  have hWords : takeWords ((stanza.tag ++ (stanza.args.flatMap (fun w => ' ' :: w) ++ '\n' :: behind)).length + 1)
      (stanza.tag ++ (stanza.args.flatMap (fun w => ' ' :: w) ++ '\n' :: behind)) =
      .ok (stanza.tag :: stanza.args, behind) := by
    refine takeWords_append h.tag h.args ?_ behind
    have := length_le_flatMap (f := fun w : List Char => ' ' :: w) (by simp) stanza.args
    simp only [List.length_append]
    omega
  have hBody : takeBody (behind.length + 1) behind = .ok (Base64.encode stanza.body, rest) := by
    refine takeBody_wrapLines (fun c hc => Base64.isDigit_of_mem hc) rfl (Nat.le_refl _) ?_ rest
    have := length_le_flatMap (f := fun line : List Char => line ++ ['\n']) (by simp) lines
    rw [List.length_append]
    exact Nat.le_add_right_of_le this
  rw [hText, takeStanza, expect_append]
  simp only [bind, Except.bind, hWords, Bool.false_eq_true, if_false, hBody, Base64.decode?_encode]
  rfl

theorem takeStanza_dashes (rest : List Char) :
    takeStanza false ('-' :: '-' :: rest) = .error .malformed := rfl

/-- Stanzas are read back up to the dashes behind them. -/
theorem takeStanzas_encode {stanzas : List Stanza} (h : ∀ s ∈ stanzas, s.WellFormed) {fuel : Nat}
    (hFuel : stanzas.length ≤ fuel) (rest : List Char) :
    takeStanzas false (fuel + 1) (stanzas.flatMap Stanza.encode ++ '-' :: '-' :: rest) =
      .ok (stanzas, '-' :: '-' :: rest) := by
  induction stanzas generalizing fuel with
  | nil =>
      rw [List.flatMap_nil, List.nil_append, takeStanzas, takeStanza_dashes]
  | cons stanza stanzas ih =>
      obtain ⟨fuel, rfl⟩ := Nat.exists_eq_succ_of_ne_zero (Nat.ne_of_gt (Nat.zero_lt_of_lt hFuel))
      rw [List.flatMap_cons, List.append_assoc, takeStanzas, takeStanza_encode (h stanza List.mem_cons_self)]
      simp only [bind, Except.bind, ih (fun s hs => h s (List.mem_cons_of_mem _ hs))
        (Nat.le_of_succ_le_succ hFuel)]
      rfl

/-! ### Headers -/

/-- A header that can be written. -/
structure Header.WellFormed (header : Header) : Prop where
  nonempty : header.stanzas ≠ []
  stanzas : ∀ stanza ∈ header.stanzas, stanza.WellFormed
  mac : header.mac.size = 32

theorem Header.WellFormed.length_mac {header : Header} (h : header.WellFormed) :
    (Base64.encode header.mac).length = macColumns := by
  rw [Base64.encode, Base64.length_encodeChars, Bytes.length_toList, h.mac]
  rfl

/-- The length of a header is that of its stanzas and of the line of its code. -/
theorem Header.WellFormed.length_encode {header : Header} (h : header.WellFormed) :
    header.encode.length = (encodeStanzas header.stanzas).length + (macColumns + 2) := by
  rw [Header.encode, List.length_append, List.length_append, List.length_append, h.length_mac,
    List.length_singleton, List.length_singleton]
  omega

/-- A header is read back, and what stands behind it is left. -/
theorem readHeader_encode {header : Header} (h : header.WellFormed) (rest : List Char) :
    readHeader (header.encode ++ rest) = .ok (.header header rest) := by
  let behind := ' ' :: (Base64.encode header.mac ++ '\n' :: rest)
  have hText : header.encode ++ rest = magic ++ ((version ++ ['\n']) ++
      (header.stanzas.flatMap Stanza.encode ++ '-' :: '-' :: ('-' :: behind))) := by
    simp [Header.encode, encodeStanzas, behind]
  -- each stanza takes a character at least, so the length of the text is fuel enough for them
  have hStanzas : takeStanzas false
      ((header.stanzas.flatMap Stanza.encode ++ '-' :: '-' :: ('-' :: behind)).length + 1)
      (header.stanzas.flatMap Stanza.encode ++ '-' :: '-' :: ('-' :: behind)) =
      .ok (header.stanzas, '-' :: '-' :: ('-' :: behind)) := by
    refine takeStanzas_encode h.stanzas ?_ _
    have := length_le_flatMap (f := Stanza.encode) (by simp [Stanza.encode]) header.stanzas
    rw [List.length_append]
    omega
  have hEmpty : header.stanzas.isEmpty = false := by
    rw [← Bool.not_eq_true, List.isEmpty_iff]
    exact h.nonempty
  have hDashes : expect ['-', '-', '-', ' '] ('-' :: '-' :: ('-' :: behind)) =
      .ok (Base64.encode header.mac ++ '\n' :: rest) := expect_append ['-', '-', '-', ' '] _
  have hLong : ¬ (Base64.encode header.mac ++ '\n' :: rest).length < macColumns := by
    rw [List.length_append, h.length_mac]
    omega
  have hFields : takeFields false ((version ++ ['\n']) ++
      (header.stanzas.flatMap Stanza.encode ++ '-' :: '-' :: ('-' :: behind))) = .ok (header, rest) := by
    rw [takeFields, expect_append]
    simp only [bind, Except.bind, hStanzas, hEmpty, Bool.false_eq_true, if_false, hDashes, hLong]
    rw [← h.length_mac, List.take_left, List.drop_left, Base64.decode?_encode]
    rfl
  rw [hText, readHeader, expect_append]
  simp only [bind, Except.bind, hFields]
  rfl

/-! ### Characters -/

theorem IsWord.ascii {word : List Char} (h : IsWord word) : Bytes.IsAscii word := by
  intro c hc
  have := h.2 c hc
  simp only [isWordChar, Bool.and_eq_true, decide_eq_true_eq] at this
  omega

theorem Stanza.WellFormed.ascii_encode {stanza : Stanza} (h : stanza.WellFormed) :
    Bytes.IsAscii stanza.encode := by
  have hWords : Bytes.IsAscii ((stanza.tag :: stanza.args).flatMap fun w => ' ' :: w) := by
    refine .flatMap fun w hw => Bytes.IsAscii.append (by decide : Bytes.IsAscii [' ']) (IsWord.ascii ?_)
    rcases List.mem_cons.1 hw with rfl | hw
    · exact h.tag
    · exact h.args w hw
  have hBody : Bytes.IsAscii (Base64.encode stanza.body) := fun c hc => (Base64.isDigit_of_mem hc).ascii
  have hLines := hBody.wrapLines bodyColumns (Base64.encode stanza.body).length
  exact .append (.append (.append (by decide) hWords) (by decide))
    (.flatMap fun line hLine => .append (hLines line hLine) (by decide))

/-- A header is written in ASCII, so its characters are its bytes. -/
theorem Header.WellFormed.ascii_encode {header : Header} (h : header.WellFormed) :
    Bytes.IsAscii header.encode := by
  have hStanzas : Bytes.IsAscii (header.stanzas.flatMap Stanza.encode) :=
    .flatMap fun stanza hStanza => (h.stanzas stanza hStanza).ascii_encode
  have hMac : Bytes.IsAscii (Base64.encode header.mac) := fun c hc => (Base64.isDigit_of_mem hc).ascii
  exact .append (.append (.append (.append (.append (by decide) hStanzas) (by decide)) (by decide)) hMac)
    (by decide)

end VaultSync.Age
