import VaultSync.Text.Blank

/-! Splitting a text at a separator. A separator between two texts divides their parts, and a text
without one is a single part, so written paths can be taken apart where they were put together. -/
namespace VaultSync.Text

variable {sep : Char}

theorem splitChars_ne_nil (cs : List Char) : splitChars sep cs ≠ [] := by
  cases cs with
  | nil => simp [splitChars]
  | cons c cs =>
      rw [splitChars]
      split
      · simp
      · split <;> simp

/-- A text without the separator is one part. -/
theorem splitChars_of_notMem {cs : List Char} (h : sep ∉ cs) : splitChars sep cs = [cs] := by
  induction cs with
  | nil => rfl
  | cons c cs ih =>
      rw [List.mem_cons, not_or] at h
      rw [splitChars, if_neg (Ne.symm h.1), ih h.2]

/-- Between two texts a separator divides the parts of the one from those of the other. -/
theorem splitChars_append (cs ds : List Char) :
    splitChars sep (cs ++ sep :: ds) = splitChars sep cs ++ splitChars sep ds := by
  induction cs with
  | nil => simp [splitChars]
  | cons c cs ih =>
      rw [List.cons_append, splitChars, splitChars]
      split
      · rw [ih, List.cons_append]
      · rw [ih]
        cases hParts : splitChars sep cs with
        | nil => exact absurd hParts (splitChars_ne_nil cs)
        | cons part parts => rfl

/-- No part of a text has the separator in it. -/
theorem notMem_of_mem_splitChars {cs part : List Char} (h : part ∈ splitChars sep cs) :
    sep ∉ part := by
  induction cs generalizing part with
  | nil => simp_all [splitChars]
  | cons c cs ih =>
      rw [splitChars] at h
      split at h
      · rcases List.mem_cons.1 h with rfl | h
        · simp
        · exact ih h
      · rename_i hSep
        cases hParts : splitChars sep cs with
        | nil => exact absurd hParts (splitChars_ne_nil cs)
        | cons first parts =>
            rw [hParts] at h ih
            rcases List.mem_cons.1 h with rfl | h
            · simpa [Ne.symm hSep] using ih List.mem_cons_self
            · exact ih (List.mem_cons_of_mem _ h)

/-- What stands behind the last separator belongs to the last part. -/
theorem splitChars_append_of_notMem (cs : List Char) {more : List Char} (h : sep ∉ more) :
    ∃ front last, splitChars sep cs = front ++ [last] ∧
      splitChars sep (cs ++ more) = front ++ [last ++ more] := by
  induction cs with
  | nil => exact ⟨[], [], rfl, splitChars_of_notMem h⟩
  | cons c cs ih =>
      obtain ⟨front, last, hParts, hMore⟩ := ih
      rw [List.cons_append, splitChars, splitChars, hParts, hMore]
      split
      · exact ⟨[] :: front, last, rfl, rfl⟩
      · cases front with
        | nil => exact ⟨[], c :: last, rfl, rfl⟩
        | cons first front => exact ⟨(c :: first) :: front, last, rfl, rfl⟩

theorem splitOnChar_of_notMem {s : String} (h : sep ∉ s.toList) : splitOnChar sep s = [s] := by
  rw [splitOnChar, splitChars_of_notMem h, List.map_singleton, String.ofList_toList]

theorem notMem_of_mem_splitOnChar {s part : String} (h : part ∈ splitOnChar sep s) : sep ∉ part.toList := by
  obtain ⟨chars, hChars, rfl⟩ := List.mem_map.1 h
  rw [String.toList_ofList]
  exact notMem_of_mem_splitChars hChars

/-- The parts of a path that was put together with a slash in the middle. -/
theorem splitOnChar_slash (s t : String) :
    splitOnChar '/' (s ++ "/" ++ t) = splitOnChar '/' s ++ splitOnChar '/' t := by
  have hSlash : "/".toList = ['/'] := rfl
  rw [splitOnChar, String.toList_append, String.toList_append, hSlash, List.append_assoc,
    List.singleton_append, splitChars_append, List.map_append]
  rfl

end VaultSync.Text
