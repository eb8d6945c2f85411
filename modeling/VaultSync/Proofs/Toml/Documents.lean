import VaultSync.Proofs.Toml.Values

/-! Documents that are written and read back. A document of sections with plain names is read line by line, and
gives one table for each section. -/
namespace VaultSync.Toml

variable {name key written : String} {value : Value} {members done : List (String × Value)} {front root : Table}
  {reading : Reading} {path : List String} {fuel : Nat} {rest behind : List Char} {c : Char} {cs : List Char}

/-! ### Tables -/

namespace Table

theorem lookup_concat (hNew : name ∉ front.map (·.1)) :
    (front ++ [(name, value)]).lookup name = some value := by
  induction front with
  | nil => simp
  | cons entry front ih =>
      rw [List.map_cons, List.mem_cons, not_or] at hNew
      rw [List.cons_append, List.lookup_cons, beq_false_of_ne hNew.1]
      exact ih hNew.2

theorem lookup_of_notMem (hNew : name ∉ front.map (·.1)) : front.lookup name = none := by
  rw [List.lookup_eq_none_iff]
  intro entry hEntry
  have hOther : name ≠ entry.1 := fun hSame => hNew (hSame ▸ List.mem_map_of_mem hEntry)
  simpa using hOther

/-- A key that is new stands at the end. -/
theorem set_new (hNew : name ∉ front.map (·.1)) (value : Value) :
    front.set name value = front ++ [(name, value)] := by
  rw [set, if_neg]
  rw [List.any_eq_true]
  rintro ⟨entry, hEntry, hSame⟩
  exact hNew (List.mem_map.2 ⟨entry, hEntry, of_decide_eq_true hSame⟩)

/-- The value at the end is replaced. -/
theorem set_last (hNew : name ∉ front.map (·.1)) (old value : Value) :
    set (front ++ [(name, old)]) name value = front ++ [(name, value)] := by
  have hFront : front.map (fun entry => if entry.1 = name then (name, value) else entry) = front := by
    refine (List.map_congr_left fun entry hEntry => if_neg ?_).trans (List.map_id front)
    rintro rfl
    exact hNew (List.mem_map_of_mem hEntry)
  rw [set, if_pos (by simp), List.map_append, hFront]
  simp

theorem openTable_new (hNew : name ∉ front.map (·.1)) :
    openTable front [] name = some (front ++ [(name, .table .header [])]) := by
  rw [openTable, modifyAt, lookup_of_notMem hNew, ← set_new hNew]

/-- A key is added to the table that was opened last. -/
theorem addUnder_last (hNew : name ∉ front.map (·.1)) (hKey : key ∉ members.map (·.1)) (value : Value) :
    addUnder (front ++ [(name, .table .header members)]) [name] [] key value =
      some (front ++ [(name, .table .header (members ++ [(key, value)]))]) := by
  have hFree : ¬ members.any (·.1 = key) = true := by
    rw [List.any_eq_true]
    rintro ⟨entry, hEntry, hSame⟩
    exact hKey (List.mem_map.2 ⟨entry, hEntry, of_decide_eq_true hSame⟩)
  have hAdd : addPath .header members [] key value = some (members ++ [(key, value)]) := by
    rw [addPath, modifyAt, if_neg (by simp), if_neg hFree]
  rw [addUnder, modifyAt, lookup_concat hNew]
  simp [modifyAt, hAdd, set_last hNew]

end Table

/-! ### Keys -/

/-- A key that stands without quotes. -/
structure IsBare (key : String) : Prop where
  nonempty : key.toList ≠ []
  plain : ∀ c ∈ key.toList, isBareKeyChar c = true

instance (key : String) : Decidable (IsBare key) :=
  decidable_of_iff (key.toList ≠ [] ∧ key.toList.all isBareKeyChar = true)
    ⟨fun h => ⟨h.1, List.all_eq_true.1 h.2⟩, fun h => ⟨h.nonempty, List.all_eq_true.2 h.plain⟩⟩

theorem IsBare.exists_head (h : IsBare key) : ∃ c cs, key.toList = c :: cs ∧ isBareKeyChar c = true := by
  obtain ⟨c, cs, hKey⟩ := List.exists_cons_of_ne_nil h.nonempty
  exact ⟨c, cs, hKey, h.plain c (hKey ▸ List.mem_cons_self)⟩

theorem ne_of_isBareKeyChar {d : Char} (h : isBareKeyChar c = true) (hd : isBareKeyChar d = false) : c ≠ d := by
  rintro rfl
  rw [h] at hd
  cases hd

theorem skipBlanks_of_visible (hSpace : c ≠ ' ') (hTab : c ≠ '\t') : skipBlanks (c :: cs) = c :: cs := by
  rw [skipBlanks, List.dropWhile_cons_of_neg]
  simp [hSpace, hTab]

/-- A bare key is read up to the first character that does not belong to it. -/
theorem keyPart?_bare (h : IsBare key) (hStop : ∀ c ∈ rest.head?, isBareKeyChar c = false) :
    keyPart? (skipBlanks (key.toList ++ rest)) = some (key, rest) := by
  obtain ⟨c, cs, hKey, hBare⟩ := h.exists_head
  have hRun : (key.toList ++ rest).takeWhile isBareKeyChar = key.toList := takeWhile_append_stop h.plain hStop
  have hOther {d : Char} (hd : isBareKeyChar d = false) : c ≠ d := ne_of_isBareKeyChar hBare hd
  rw [hKey, List.cons_append, skipBlanks_of_visible (hOther rfl) (hOther rfl), keyPart?, ← List.cons_append,
    ← hKey, hRun]
  · simp [h.nonempty]
  · exact fun _ hSame => hOther rfl (List.cons.inj hSame).1
  · exact fun _ hSame => hOther rfl (List.cons.inj hSame).1

/-- A plain key has one part, and blanks behind it are skipped. -/
theorem key?_bare (h : IsBare key) (hStop : ∀ c ∈ rest.head?, isBareKeyChar c = false)
    (hBehind : skipBlanks rest = behind) (hDot : behind.head? ≠ some '.') :
    key? (key.toList ++ rest) = some ([], key, behind) := by
  have hParts : keyParts? (maxDepth - 1) (key.toList ++ rest) = some ([key], behind) := by
    rw [maxDepth, keyParts?, keyPart?_bare h hStop]
    simp only [bind, Option.bind, hBehind]
    split
    · exact absurd rfl hDot
    · rfl
  rw [key?, hParts]
  rfl

/-! ### Lines -/

/-- A character that a line with something in it begins with. -/
def IsLineStart (c : Char) : Prop :=
  c ≠ ' ' ∧ c ≠ '\t' ∧ c ≠ '#' ∧ c ≠ '\n' ∧ c ≠ '\r'

theorem skipLines_of_start (h : IsLineStart c) (fuel : Nat) : skipLines fuel (c :: cs) = c :: cs := by
  cases fuel with
  | zero => rfl
  | succ fuel =>
      have hComment : skipComment (c :: cs) = c :: cs := by simp [skipComment, h.2.2.1]
      have hNewline : newline? (c :: cs) = none := by simp [newline?, h.2.2.2]
      rw [skipLines, skipBlanks_of_visible h.1 h.2.1, hComment, hNewline]

theorem skipSpace_newline (cs : List Char) : skipSpace ('\n' :: cs) = skipSpace cs := rfl

theorem lines?_blank (fuel : Nat) (reading : Reading) (cs : List Char) :
    lines? fuel reading ('\n' :: cs) = lines? fuel reading cs := by
  cases fuel with
  | zero => rfl
  | succ fuel => rw [lines?.eq_def, lines?.eq_def]; simp only [skipSpace_newline]

theorem lines?_nil (fuel : Nat) (reading : Reading) : lines? (fuel + 1) reading [] = some reading := rfl

/-- A header opens its table. -/
theorem lines?_header (h : IsBare name) (hOpen : reading.root.openTable [] name = some root) :
    lines? (fuel + 1) reading ('[' :: (name.toList ++ ']' :: '\n' :: rest)) =
      lines? fuel ⟨root, [name]⟩ rest := by
  have hStart : IsLineStart '[' := by unfold IsLineStart; decide
  obtain ⟨c, cs, hName, hBare⟩ := h.exists_head
  have hKey := key?_bare h (show ∀ c ∈ (']' :: '\n' :: rest).head?, isBareKeyChar c = false by simp; rfl) rfl
    (by simp [skipBlanks])
  have hHeader : header? reading (name.toList ++ ']' :: '\n' :: rest) =
      some (⟨root, [name]⟩, '\n' :: rest) := by
    rw [hName] at hKey ⊢
    rw [List.cons_append] at hKey ⊢
    rw [header?, hKey]
    · simp [bind, Option.bind, hOpen, skipBlanks]
    · exact fun _ hSame => ne_of_isBareKeyChar hBare rfl (List.cons.inj hSame).1
  rw [lines?, skipSpace, skipLines_of_start hStart]
  simp only [hHeader, bind, Option.bind]
  rfl

/-- A key and its value are added to the table that is open. -/
theorem lines?_member (h : IsBare key) (hReads : Reads written value)
    (hAdd : reading.root.addUnder reading.current [] key value = some root) :
    lines? (fuel + 1) reading (key.toList ++ ' ' :: '=' :: ' ' :: (written.toList ++ '\n' :: rest)) =
      lines? fuel { reading with root } rest := by
  obtain ⟨c, cs, hHead, hBare⟩ := h.exists_head
  have hOther {d : Char} (hd : isBareKeyChar d = false) : c ≠ d := ne_of_isBareKeyChar hBare hd
  have hStart : IsLineStart c := ⟨hOther rfl, hOther rfl, hOther rfl, hOther rfl, hOther rfl⟩
  let line := written.toList ++ '\n' :: rest
  have hBehind : skipBlanks (' ' :: '=' :: ' ' :: line) = '=' :: ' ' :: line := rfl
  have hKey := key?_bare h
    (show ∀ c ∈ (' ' :: '=' :: ' ' :: line).head?, isBareKeyChar c = false by simp; rfl) hBehind (by simp)
  have hSkip : skipBlanks (' ' :: line) = line := hReads.visible rest
  have hMember : member? reading (key.toList ++ ' ' :: '=' :: ' ' :: line) =
      some ({ reading with root }, '\n' :: rest) := by
    rw [member?, hKey]
    simp only [bind, Option.bind, hSkip]
    simp only [line, hReads.value, hAdd]
    rfl
  -- the key starts the line with a character that is neither blank nor the start of anything else
  change lines? (fuel + 1) reading (key.toList ++ ' ' :: '=' :: ' ' :: line) = _
  rw [hHead] at hMember ⊢
  rw [List.cons_append] at hMember ⊢
  rw [lines?, skipSpace, skipLines_of_start hStart]
  split
  · cases ‹c :: _ = []›
  · exact absurd (List.cons.inj ‹c :: _ = '[' :: _›).1 (hOther rfl)
  · simp only [hMember, bind, Option.bind]
    rfl

/-! ### Sections -/

/-- A key, what its value is written as, and the value. -/
structure Member where
  key : String
  written : String
  value : Value

namespace Member

def text (m : Member) : List Char :=
  m.key.toList ++ ' ' :: '=' :: ' ' :: (m.written.toList ++ ['\n'])

def entry (m : Member) : String × Value :=
  (m.key, m.value)

end Member

/-- Members with different plain keys, each of which is read back. -/
structure Readable (members : List Member) : Prop where
  distinct : (members.map (·.key)).Nodup
  bare : ∀ m ∈ members, IsBare m.key
  reads : ∀ m ∈ members, Reads m.written m.value

/-- The members behind a header are added to its table, one after the other. -/
theorem lines?_members {members : List Member} (hNew : name ∉ front.map (·.1))
    (hDistinct : (done.map (·.1) ++ members.map (·.key)).Nodup) (hBare : ∀ m ∈ members, IsBare m.key)
    (hReads : ∀ m ∈ members, Reads m.written m.value) :
    lines? (fuel + members.length) ⟨front ++ [(name, .table .header done)], [name]⟩
        (members.flatMap Member.text ++ rest) =
      lines? fuel ⟨front ++ [(name, .table .header (done ++ members.map Member.entry))], [name]⟩ rest := by
  induction members generalizing done with
  | nil => simp
  | cons m members ih =>
      have hKey : m.key ∉ done.map (·.1) := fun hDone =>
        (List.nodup_append.1 hDistinct).2.2 m.key hDone m.key List.mem_cons_self rfl
      have hLine : (m :: members).flatMap Member.text ++ rest = m.key.toList ++ ' ' :: '=' :: ' ' ::
          (m.written.toList ++ '\n' :: (members.flatMap Member.text ++ rest)) := by
        simp [Member.text]
      rw [hLine, List.length_cons, ← Nat.add_assoc,
        lines?_member (hBare m List.mem_cons_self) (hReads m List.mem_cons_self)
          (Table.addUnder_last hNew hKey m.value), ih]
      · simp [Member.entry]
      · simpa using hDistinct
      · exact fun other hOther => hBare other (List.mem_cons_of_mem m hOther)
      · exact fun other hOther => hReads other (List.mem_cons_of_mem m hOther)

/-- A section with its members, as characters. -/
def sectionText (s : String × List Member) : List Char :=
  '[' :: (s.1.toList ++ ']' :: '\n' :: s.2.flatMap Member.text)

/-- The table of a section. -/
def sectionEntry (s : String × List Member) : String × Value :=
  (s.1, .table .header (s.2.map Member.entry))

/-- A section is its header and its members, line by line. -/
theorem toList_writeSection (s : String × List Member) :
    (writeSection s.1 (s.2.map fun m => (m.key, m.written))).toList = sectionText s := by
  have hEqual : " = ".toList = [' ', '=', ' '] ∧ "\n".toList = ['\n'] := ⟨rfl, rfl⟩
  have hHeader : "[".toList = ['['] ∧ "]\n".toList = [']', '\n'] := ⟨rfl, rfl⟩
  have hMember (m : Member) : (m.key ++ " = " ++ m.written ++ "\n").toList = m.text := by
    simp [Member.text, hEqual]
  simp [writeSection, sectionText, hHeader, String.toList_join, List.flatMap_map, List.map_map, hMember]

/-- A header and the members behind it give one table. -/
theorem lines?_section {s : String × List Member} {current : List String} (hNew : s.1 ∉ front.map (·.1))
    (hBare : IsBare s.1) (hReadable : Readable s.2) :
    lines? (fuel + s.2.length + 1) ⟨front, current⟩ (sectionText s ++ rest) =
      lines? fuel ⟨front ++ [sectionEntry s], [s.1]⟩ rest := by
  have hText : sectionText s ++ rest =
      '[' :: (s.1.toList ++ ']' :: '\n' :: (s.2.flatMap Member.text ++ rest)) := by
    simp [sectionText]
  rw [hText, lines?_header hBare (Table.openTable_new hNew)]
  exact lines?_members hNew (by simpa using hReadable.distinct) hReadable.bare hReadable.reads

theorem length_le_sectionText (s : String × List Member) : s.2.length + 1 ≤ (sectionText s).length := by
  have hMembers : s.2.length ≤ (s.2.flatMap Member.text).length := by
    induction s.2 with
    | nil => exact Nat.zero_le _
    | cons m members ih =>
        simp only [List.flatMap_cons, List.length_append, List.length_cons, Member.text]
        omega
  simp only [sectionText, List.length_cons, List.length_append]
  omega

/-- Sections with different names follow each other, with an empty line in between. -/
theorem lines?_sections {sections : List (String × List Member)} (front : Table) (current : List String)
    (hDistinct : (front.map (·.1) ++ sections.map (·.1)).Nodup)
    (hSections : ∀ s ∈ sections, IsBare s.1 ∧ Readable s.2)
    (hFuel : (['\n'].intercalate (sections.map sectionText)).length < fuel) :
    (lines? fuel ⟨front, current⟩ (['\n'].intercalate (sections.map sectionText))).map (·.root) =
      some (front ++ sections.map sectionEntry) := by
  -- the tables read so far stand in `front`, under names that do not come again
  induction sections generalizing front current fuel with
  | nil =>
      obtain ⟨fuel, rfl⟩ := Nat.exists_eq_add_one_of_ne_zero (Nat.ne_zero_of_lt hFuel)
      simp [lines?_nil]
  | cons s sections ih =>
      have hNew : s.1 ∉ front.map (·.1) := fun hFront =>
        (List.nodup_append.1 hDistinct).2.2 s.1 hFront s.1 List.mem_cons_self rfl
      obtain ⟨hBare, hReadable⟩ := hSections s List.mem_cons_self
      have hRest (current : List String) (fuel : Nat)
          (hFuel : (['\n'].intercalate (sections.map sectionText)).length < fuel) :
          (lines? fuel ⟨front ++ [sectionEntry s], current⟩ (['\n'].intercalate (sections.map sectionText))).map
            (·.root) = some (front ++ (s :: sections).map sectionEntry) := by
        rw [ih _ current (by simpa [sectionEntry] using hDistinct)
          (fun t ht => hSections t (List.mem_cons_of_mem s ht)) hFuel, List.append_assoc]
        rfl
      have hLines := length_le_sectionText s
      cases sections with
      | nil =>
          rw [List.map_singleton, List.intercalate_singleton] at hFuel ⊢
          obtain ⟨more, rfl⟩ : ∃ more, fuel = more + 1 + s.2.length + 1 :=
            ⟨fuel - s.2.length - 2, by omega⟩
          rw [← List.append_nil (sectionText s), lines?_section hNew hBare hReadable]
          exact hRest [s.1] (more + 1) (by simp)
      | cons t sections =>
          rw [List.map_cons, List.map_cons, List.intercalate_cons_cons] at hFuel ⊢
          rw [List.map_cons] at hRest
          rw [List.length_append, List.length_append, List.length_singleton] at hFuel
          obtain ⟨more, rfl⟩ : ∃ more, fuel = more + s.2.length + 1 := ⟨fuel - s.2.length - 1, by omega⟩
          rw [List.append_assoc, lines?_section hNew hBare hReadable, List.singleton_append, lines?_blank]
          exact hRest [s.1] more (by omega)

/-- A document of sections with different plain names is read as their tables, in their order. -/
theorem parse?_writeSections {sections : List (String × List Member)} (hDistinct : (sections.map (·.1)).Nodup)
    (hSections : ∀ s ∈ sections, IsBare s.1 ∧ Readable s.2) :
    parse? (writeSections (sections.map fun s => (s.1, s.2.map fun m => (m.key, m.written)))) =
      some (sections.map sectionEntry) := by
  have hText : (writeSections (sections.map fun s => (s.1, s.2.map fun m => (m.key, m.written)))).toList =
      ['\n'].intercalate (sections.map sectionText) := by
    have hFeed : "\n".toList = ['\n'] := rfl
    simp [writeSections, hFeed, List.map_map, Function.comp_def, toList_writeSection]
  have hMark (rest : List Char) : ['\n'].intercalate (sections.map sectionText) ≠ '\ufeff' :: rest := by
    cases sections with
    | nil => simp
    | cons s sections =>
        cases sections with
        | nil => simp [sectionText]
        | cons t sections => simp [sectionText]
  have hLines := lines?_sections [] [] (by simpa using hDistinct) hSections
    (Nat.lt_succ_self (['\n'].intercalate (sections.map sectionText)).length)
  rw [parse?, hText]
  split
  · exact absurd ‹_› (hMark _)
  · exact hLines

end VaultSync.Toml
