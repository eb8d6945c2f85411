import Mathlib.Data.List.Basic
import Mathlib.Data.List.Induction
import Mathlib.Data.List.TakeWhile
import VaultSync.Proofs.Text.Split

/-! Lines of a text, and blanks around a line. A text that is put together line by line has these lines, and a line
keeps what stands between the blanks at its two ends. -/
namespace VaultSync.Text

/-! ### The end of a list -/

section

variable {α β : Type} {p : α → Bool} {q : β → Bool}

theorem dropEndWhile_concat (xs : List α) (x : α) :
    dropEndWhile p (xs ++ [x]) = if p x then dropEndWhile p xs else xs ++ [x] := by
  rw [dropEndWhile, List.reverse_append, List.reverse_singleton, List.singleton_append, List.dropWhile_cons]
  split
  · rfl
  · rw [List.reverse_cons, List.reverse_reverse]

/-- What counts for nothing at the end is dropped. -/
theorem dropEndWhile_append {ys : List α} (h : ∀ y ∈ ys, p y = true) (xs : List α) :
    dropEndWhile p (xs ++ ys) = dropEndWhile p xs := by
  induction ys using List.reverseRecOn with
  | nil => rw [List.append_nil]
  | append_singleton ys y ih =>
      rw [← List.append_assoc, dropEndWhile_concat, if_pos (h y (by simp))]
      exact ih fun z hz => h z (List.mem_append_left _ hz)

/-- What is spelled member by member loses the same end as its spelling, if a member is dropped exactly
when its last sign is. -/
theorem dropEndWhile_flatMap {spell : β → List α} {bs : List β}
    (hDropped : ∀ b ∈ bs, q b = true → ∀ a ∈ spell b, p a = true)
    (hKept : ∀ b ∈ bs, q b = false → ∃ front last, spell b = front ++ [last] ∧ p last = false) :
    dropEndWhile p (bs.flatMap spell) = (dropEndWhile q bs).flatMap spell := by
  induction bs using List.reverseRecOn with
  | nil => rfl
  | append_singleton bs b ih =>
      have hMem : b ∈ bs ++ [b] := List.mem_append_right bs (List.mem_singleton.2 rfl)
      rw [dropEndWhile_concat, List.flatMap_append, List.flatMap_singleton]
      cases hLast : q b with
      | true =>
          rw [dropEndWhile_append (hDropped b hMem hLast), if_pos rfl]
          exact ih (fun c hc => hDropped c (List.mem_append_left _ hc))
            fun c hc => hKept c (List.mem_append_left _ hc)
      | false =>
          obtain ⟨front, last, hSpell, hStays⟩ := hKept b hMem hLast
          rw [if_neg Bool.false_ne_true, List.flatMap_append, List.flatMap_singleton, hSpell,
            ← List.append_assoc, dropEndWhile_concat, hStays, if_neg Bool.false_ne_true]

end

/-! ### Lines of a text -/

/-- A text without a line feed is one line. -/
theorem lineChars_of_notMem {cs : List Char} (hNone : '\n' ∉ cs) (h : cs ≠ []) : lineChars cs = [cs] := by
  rw [lineChars, splitChars_of_notMem hNone]
  cases cs with
  | nil => exact absurd rfl h
  | cons c cs => rfl

/-- A line break divides a line from those behind it. -/
theorem lineChars_append {line : List Char} (hNone : '\n' ∉ line) (rest : List Char) :
    lineChars (line ++ '\n' :: rest) = dropReturn line :: lineChars rest := by
  obtain ⟨parts, last, hParts⟩ : ∃ parts last, splitChars '\n' rest = parts ++ [last] := by
    obtain h | ⟨parts, last, h⟩ := List.eq_nil_or_concat' (splitChars '\n' rest)
    · exact absurd h (splitChars_ne_nil rest)
    · exact ⟨parts, last, h⟩
  rw [lineChars, lineChars, splitChars_append, splitChars_of_notMem hNone, hParts, ← List.append_assoc,
    List.getLast?_concat, List.getLast?_concat, List.dropLast_concat, List.dropLast_concat]
  cases last <;> rfl

/-- Rows that are ended by line breaks are the first lines of a text. -/
theorem lineChars_rows {rows : List (List Char)} (h : ∀ row ∈ rows, '\n' ∉ row) (rest : List Char) :
    lineChars (rows.flatMap (· ++ ['\n']) ++ rest) = rows.map dropReturn ++ lineChars rest := by
  induction rows with
  | nil => rfl
  | cons row rows ih =>
      have hRow : '\n' ∉ row := h row List.mem_cons_self
      rw [List.flatMap_cons, List.append_assoc, List.append_assoc, List.singleton_append, lineChars_append hRow,
        ih fun other hOther => h other (List.mem_cons_of_mem row hOther)]
      rfl

/-! ### Blanks around a line -/

/-- What begins with a character that is not blank keeps it. -/
theorem dropEndWhile_cons {α : Type} {p : α → Bool} {x : α} (h : p x = false) (xs : List α) :
    dropEndWhile p (x :: xs) = x :: dropEndWhile p xs := by
  induction xs using List.reverseRecOn with
  | nil => simp [dropEndWhile, h]
  | append_singleton xs y ih =>
      rw [← List.cons_append, dropEndWhile_concat, dropEndWhile_concat]
      split
      · exact ih
      · rfl

theorem trimChars_cons {c : Char} (h : isBlank c = false) (cs : List Char) :
    trimChars (c :: cs) = c :: dropEndWhile isBlank cs := by
  rw [trimChars, List.dropWhile_cons_of_neg (by simp [h]), dropEndWhile_cons h]

theorem trimChars_of_forall {cs : List Char} (h : ∀ c ∈ cs, isBlank c = false) : trimChars cs = cs := by
  have hKeeps (ds : List Char) (hMem : ∀ d ∈ ds, d ∈ cs) : ds.dropWhile isBlank = ds := by
    rw [List.dropWhile_eq_self_iff]
    intro hLength
    rw [h _ (hMem _ (List.getElem_mem hLength))]
    exact Bool.false_ne_true
  rw [trimChars, hKeeps cs fun _ hd => hd, dropEndWhile, hKeeps _ fun _ hd => List.mem_reverse.1 hd,
    List.reverse_reverse]

/-- Blanks in front of a line and behind it do not count. -/
theorem trimChars_surround {front back : List Char} (hFront : ∀ c ∈ front, isBlank c = true)
    (hBack : ∀ c ∈ back, isBlank c = true) (cs : List Char) : trimChars (front ++ cs ++ back) = trimChars cs := by
  rw [trimChars, List.append_assoc, List.dropWhile_append_of_pos hFront]
  by_cases hBlank : ∀ c ∈ cs, isBlank c = true
  · rw [List.dropWhile_append_of_pos hBlank, List.dropWhile_eq_nil_iff.2 hBack, trimChars,
      List.dropWhile_eq_nil_iff.2 hBlank]
  · have hSome : cs.dropWhile isBlank ≠ [] := fun hNil => hBlank (List.dropWhile_eq_nil_iff.1 hNil)
    rw [List.dropWhile_append, if_neg (by simpa using hSome), dropEndWhile_append hBack, trimChars]

/-- The carriage return before a line break is a blank at the end of its line. -/
theorem trimChars_dropReturn (cs : List Char) : trimChars (dropReturn cs) = trimChars cs := by
  rw [dropReturn]
  split
  · rename_i hLast
    obtain ⟨front, rfl⟩ := List.getLast?_eq_some_iff.1 hLast
    have hReturn : ∀ c ∈ ['\r'], isBlank c = true := List.forall_mem_singleton.2 rfl
    have hTrim : trimChars ([] ++ front ++ ['\r']) = trimChars front := trimChars_surround (by simp) hReturn front
    rw [List.dropLast_concat]
    exact hTrim.symm
  · rfl

/-- A line that is the last one of a text, or is ended by a line break, comes first, up to blanks. -/
theorem exists_head_lineChars {line ending : List Char} (hBreak : '\n' ∉ line) (hSome : line ≠ [])
    (hEnding : ending = [] ∨ ∃ more, ending = '\n' :: more) :
    ∃ row after, lineChars (line ++ ending) = row :: after ∧ trimChars row = trimChars line := by
  rcases hEnding with rfl | ⟨more, rfl⟩
  · rw [List.append_nil]
    exact ⟨line, [], lineChars_of_notMem hBreak hSome, rfl⟩
  · exact ⟨dropReturn line, lineChars more, lineChars_append hBreak more, trimChars_dropReturn line⟩

end VaultSync.Text
