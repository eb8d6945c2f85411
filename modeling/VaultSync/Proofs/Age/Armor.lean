import VaultSync.Age.Armor
import VaultSync.Proofs.Encoding.Base64

/-! Armor is read back: groups of four symbols give their bytes, and lines theirs, up to the marker behind
the last line. -/
namespace VaultSync.Age.Armor

open Bytes (codes IsAscii)
open Base64 (IsDigit padded)

/-! ### Groups -/

section Groups

variable {digits : List Char} {padding : Nat}

theorem code_ne_padding (h : ∀ c ∈ digits, IsDigit c) : ∀ b ∈ codes digits, decide (b ≠ 61) = true := by
  intro b hb
  obtain ⟨c, hc, rfl⟩ := List.mem_map.1 hb
  refine decide_eq_true fun hPadding => (h c hc).ne.2.1 ?_
  exact (Bytes.code_inj (h c hc).ascii (by decide)).1 (hPadding : _ = UInt8.ofNat '='.toNat)

theorem takeWhile_group (h : ∀ c ∈ digits, IsDigit c) :
    (codes digits ++ List.replicate padding 61).takeWhile (· ≠ 61) = codes digits := by
  rw [List.takeWhile_append_of_pos (code_ne_padding h), List.takeWhile_replicate]
  simp

theorem dropWhile_group (h : ∀ c ∈ digits, IsDigit c) :
    (codes digits ++ List.replicate padding 61).dropWhile (· ≠ 61) = List.replicate padding 61 := by
  rw [List.dropWhile_append_of_pos (code_ne_padding h), List.dropWhile_replicate]
  simp

theorem badByteIn_group (h : ∀ c ∈ digits, IsDigit c) {last : Bool}
    (hPadding : padding = 0 ∨ (last = true ∧ 2 ≤ digits.length)) (offset : Nat) :
    badByteIn last offset (codes digits ++ List.replicate padding 61) = none := by
  have hDigits : (codes digits).findIdx?
      (fun b => (Base64.valueOf? (Char.ofNat b.toNat)).isNone) = none := by
    rw [List.findIdx?_eq_none_iff]
    intro b hb
    obtain ⟨c, hc, rfl⟩ := List.mem_map.1 hb
    rw [Bytes.ofNat_code (h c hc).ascii]
    have := (h c hc).isSome
    simpa [Option.isSome_iff_ne_none] using this
  rw [badByteIn, takeWhile_group h, dropWhile_group h]
  simp only [hDigits]
  rcases hPadding with rfl | ⟨rfl, hLong⟩
  · rfl
  · simp [codes, hLong]

theorem decodeGroups_group (h : ∀ c ∈ digits, IsDigit c) {a b c d : UInt8} {rest : List UInt8}
    (hGroup : [a, b, c, d] = codes digits ++ List.replicate padding 61)
    (hPadding : padding = 0 ∨ (rest.isEmpty = true ∧ 2 ≤ digits.length)) {bytes : List UInt8}
    (hBytes : Base64.decodeChars? digits = some bytes) (offset : Nat) :
    decodeGroups offset (a :: b :: c :: d :: rest) =
      (decodeGroups (offset + 4) rest).map (bytes ++ ·) := by
  have hDigits : IsAscii digits := fun c hc => (h c hc).ascii
  rw [decodeGroups, hGroup, badByteIn_group h hPadding, takeWhile_group h]
  simp only [Bytes.map_ofNat_codes hDigits, hBytes]
  cases decodeGroups (offset + 4) rest <;> rfl

end Groups

/-- Padded base64 is decoded to the bytes it was written for. -/
theorem decodeGroups_padded (bytes : List UInt8) (offset : Nat) :
    decodeGroups offset (codes (padded bytes)) = .ok bytes := by
  induction bytes using Base64.encodeChars.induct generalizing offset with
  | case1 x y z rest ih =>
      have hSplit : padded (x :: y :: z :: rest) = Base64.encodeChars [x, y, z] ++ padded rest :=
        Base64.padded_append (by simp : [x, y, z].length % 3 = 0) rest
      rw [hSplit, Bytes.codes_append]
      refine (decodeGroups_group (fun c hc => Base64.isDigit_of_mem hc) (List.append_nil _).symm
        (.inl rfl) (Base64.decodeChars?_encodeChars [x, y, z]) offset).trans ?_
      exact congrArg (Except.map ([x, y, z] ++ ·)) (ih (offset + 4))
  | case2 x y =>
      exact decodeGroups_group (fun c hc => Base64.isDigit_of_mem hc)
        (rfl : _ = codes (Base64.encodeChars [x, y]) ++ List.replicate 1 61)
        (.inr ⟨rfl, by simp [Base64.encodeChars]⟩) (Base64.decodeChars?_encodeChars [x, y]) offset
  | case3 x =>
      exact decodeGroups_group (fun c hc => Base64.isDigit_of_mem hc)
        (rfl : _ = codes (Base64.encodeChars [x]) ++ List.replicate 2 61)
        (.inr ⟨rfl, by simp [Base64.encodeChars]⟩) (Base64.decodeChars?_encodeChars [x]) offset
  | case4 => rfl

/-! ### Lines -/

/-- A line as it is written. -/
structure IsLine (line : List Char) : Prop where
  ascii : IsAscii line
  unbroken : '\n' ∉ line
  unreturned : '\r' ∉ line

namespace IsLine

variable {line : List Char} {lead tail : List UInt8}

theorem ne_of_mem (h : IsLine line) {b : UInt8} (hb : b ∈ codes line) : b ≠ 10 ∧ b ≠ 13 := by
  obtain ⟨c, hc, rfl⟩ := List.mem_map.1 hb
  have hAscii := h.ascii c hc
  constructor
  · intro hBreak
    obtain rfl : c = '\n' := (Bytes.code_inj hAscii (by decide)).1 hBreak
    exact h.unbroken hc
  · intro hReturn
    obtain rfl : c = '\r' := (Bytes.code_inj hAscii (by decide)).1 hReturn
    exact h.unreturned hc

/-- A line is taken up to its line feed. -/
theorem takeLine_append (h : ∀ b ∈ tail, b ≠ 10) (rest : List UInt8) :
    takeLine (tail ++ 10 :: rest) = (tail ++ [10], rest) := by
  have hTake : (tail ++ 10 :: rest).takeWhile (· ≠ 10) = tail := by
    rw [List.takeWhile_append_of_pos (fun b hb => decide_eq_true (h b hb)),
      List.takeWhile_cons_of_neg (by decide), List.append_nil]
  rw [takeLine]
  simp only [hTake, List.drop_left]

/-- The line break is cut off, and no carriage return with it. -/
theorem chomp_append (h : ∀ b ∈ lead, b ≠ 13) : chomp (lead ++ [10]) = lead := by
  have hReverse : (lead ++ [10]).reverse = 10 :: lead.reverse := by simp
  rw [chomp, hReverse]
  cases hLast : lead.reverse with
  | nil => simpa using hLast.symm
  | cons b front =>
      have hReturn : b ≠ 13 := h b (List.mem_reverse.1 (hLast ▸ List.mem_cons_self))
      have hWhole : (b :: front).reverse = lead := by rw [← hLast, List.reverse_reverse]
      split
      · rename_i hParts
        exact absurd (by simpa using hParts : b = 13 ∧ _).1 hReturn
      · rename_i hParts
        obtain rfl : b :: front = _ := by simpa using hParts
        exact hWhole
      · rename_i hParts
        exact absurd rfl (hParts _)

theorem isText (h : IsLine line) (hLine : lead ++ tail = codes line) :
    (String.fromUTF8? (tail ++ [10]).toByteArray).isNone = false := by
  have hTail : tail = codes (line.drop lead.length) := by
    rw [codes, List.map_drop, ← codes, ← hLine, List.drop_left]
  have hBytes : (tail ++ [10]).toByteArray = Bytes.ofChars (line.drop lead.length ++ ['\n']) := by
    rw [hTail]
    exact congrArg List.toByteArray (Bytes.codes_append _ ['\n']).symm
  have hAscii : IsAscii (line.drop lead.length ++ ['\n']) :=
    .append (fun c hc => h.ascii c (List.mem_of_mem_drop hc)) (by decide)
  rw [hBytes, Bytes.fromUTF8?_ofChars hAscii]
  rfl

end IsLine

section Lines

variable {line : List Char} {lead tail : List UInt8}

theorem isLine_endMarker : IsLine endMarker.toList :=
  ⟨by decide, by decide, by decide⟩

theorem codes_endMarker : endMarker.toUTF8.toList = codes endMarker.toList := by
  rw [← Bytes.toList_ofChars, ← Bytes.toUTF8_ofList isLine_endMarker.ascii, String.ofList_toList]

/-- Behind the end marker nothing is read. -/
theorem readLines_end (hLine : lead ++ tail = codes endMarker.toList) (fuel : Nat) (short : Bool) :
    readLines (fuel + 1) short lead (tail ++ [10]) = ([], none) := by
  have hPlain {b : UInt8} (hb : b ∈ lead ++ tail) := isLine_endMarker.ne_of_mem (hLine ▸ hb)
  rw [readLines, IsLine.takeLine_append (fun b hb => (hPlain (List.mem_append_right _ hb)).1) []]
  simp only [isLine_endMarker.isText hLine, Bool.false_eq_true, if_false]
  rw [← List.append_assoc, IsLine.chomp_append fun b hb => (hPlain hb).2, hLine, codes_endMarker, if_pos rfl]
  rfl

/-- A line of the body gives its bytes. -/
theorem readLines_line (h : IsLine line) (hLine : lead ++ tail = codes line)
    (hMarker : line ≠ endMarker.toList) (hGroups : line.length % 4 = 0) (hColumns : line.length ≤ columns)
    {decoded more : List UInt8} {fault : Option Fault} (hDecoded : decodeGroups 0 (codes line) = .ok decoded)
    {fuel : Nat} {rest : List UInt8}
    (hRest : readLines fuel (line.length < columns) [] rest = (more, fault)) :
    readLines (fuel + 1) false lead (tail ++ 10 :: rest) = (decoded ++ more, fault) := by
  have hPlain {b : UInt8} (hb : b ∈ lead ++ tail) := h.ne_of_mem (hLine ▸ hb)
  have hLength : (codes line).length = line.length := List.length_map _
  have hOther : codes line ≠ endMarker.toUTF8.toList := by
    rwa [codes_endMarker, Ne, Bytes.codes_inj h.ascii isLine_endMarker.ascii]
  rw [readLines, IsLine.takeLine_append fun b hb => (hPlain (List.mem_append_right _ hb)).1]
  simp only [h.isText hLine, Bool.false_eq_true, if_false]
  rw [← List.append_assoc, IsLine.chomp_append fun b hb => (hPlain hb).2, hLine, if_neg hOther, hLength,
    if_neg (by omega), if_neg (by omega), hDecoded]
  simp only [hRest]

end Lines

/-! ### The whole body -/

/-- The lines of a body with their line breaks, and the marker that ends them. -/
def written (fuel : Nat) (bytes : List UInt8) : List Char :=
  ((Text.wrapLines columns fuel (padded bytes)).filter (· ≠ [])).flatMap (· ++ ['\n']) ++
    (endMarker.toList ++ ['\n'])

theorem written_nil (fuel : Nat) : written fuel [] = endMarker.toList ++ ['\n'] := by
  cases fuel <;> rfl

/-- The bytes of a full line. -/
def lineBytes : Nat := 48

theorem padded_take_drop (bytes : List UInt8) :
    padded bytes = padded (bytes.take lineBytes) ++ padded (bytes.drop lineBytes) := by
  by_cases hLong : lineBytes ≤ bytes.length
  · have hFull : (bytes.take lineBytes).length % 3 = 0 := by
      rw [List.length_take, Nat.min_eq_left hLong]
      rfl
    rw [Base64.padded_of_full hFull, ← Base64.padded_append hFull, List.take_append_drop]
  · rw [List.drop_eq_nil_of_le (by omega), List.take_of_length_le (by omega)]
    exact (List.append_nil _).symm

theorem padded_ne_nil {bytes : List UInt8} (h : bytes ≠ []) : padded bytes ≠ [] := by
  have hPositive := List.length_pos_iff.2 h
  rw [← List.length_pos_iff, Base64.length_padded]
  omega

/-- The body is written one line of bytes at a time. -/
theorem written_of_ne_nil {bytes : List UInt8} (h : bytes ≠ []) (fuel : Nat) :
    written (fuel + 1) bytes =
      padded (bytes.take lineBytes) ++ '\n' :: written fuel (bytes.drop lineBytes) := by
  have hPositive := List.length_pos_iff.2 h
  have hTake : bytes.take lineBytes ≠ [] := by
    rw [← List.length_pos_iff, List.length_take, lineBytes]
    omega
  have hLength := Base64.length_padded bytes
  rw [written, Text.wrapLines]
  -- fewer characters than a line means no more bytes than a line, since both come in whole groups
  by_cases hShort : (padded bytes).length < columns
  · have hBytes : bytes.length ≤ lineBytes := by
      rw [columns] at hShort
      rw [lineBytes]
      omega
    rw [if_pos hShort, List.drop_eq_nil_of_le hBytes, List.take_of_length_le hBytes, written_nil]
    simp [padded_ne_nil h]
  · have hFull : (padded (bytes.take lineBytes)).length = columns := by
      rw [Base64.length_padded, List.length_take, lineBytes]
      rw [columns] at hShort ⊢
      omega
    have hParts := padded_take_drop bytes
    rw [if_neg hShort, written]
    rw [hParts, ← hFull, List.take_left, List.drop_left]
    simp [padded_ne_nil hTake, hFull]

/-- A line of the body is one that the reader takes. -/
theorem isLine_padded (bytes : List UInt8) : IsLine (padded bytes) where
  ascii c hc := by
    rcases Base64.isDigit_of_mem_padded hc with hDigit | rfl
    · exact hDigit.ascii
    · decide
  unbroken hBreak := by
    rcases Base64.isDigit_of_mem_padded hBreak with hDigit | hPadding
    · exact hDigit.ne.1 rfl
    · exact absurd hPadding (by decide)
  unreturned hReturn := by
    rcases Base64.isDigit_of_mem_padded hReturn with hDigit | hPadding
    · exact hDigit.ne.2.2.2 rfl
    · exact absurd hPadding (by decide)

/-- No line of the body looks like the end marker. -/
theorem padded_ne_endMarker (bytes : List UInt8) : padded bytes ≠ endMarker.toList := by
  intro h
  have hDash : '-' ∈ padded bytes := h ▸ (by decide)
  rcases Base64.isDigit_of_mem_padded hDash with hDigit | hPadding
  · exact hDigit.ne.2.2.1 rfl
  · exact absurd hPadding (by decide)

/-- A list in front of another one that is longer. -/
theorem exists_tail {lead rest front back : List UInt8} (h : lead ++ rest = front ++ back)
    (hLength : lead.length ≤ front.length) : ∃ tail, lead ++ tail = front ∧ rest = tail ++ back := by
  obtain ⟨tail, rfl, rfl⟩ | ⟨tail, rfl, rfl⟩ := List.append_eq_append_iff.1 h
  · exact ⟨tail, rfl, rfl⟩
  · obtain rfl : tail = [] := by
      rw [List.length_append] at hLength
      exact List.length_eq_zero_iff.1 (by omega)
    exact ⟨[], by simp, by simp⟩

section Body

variable {bytes lead rest : List UInt8} {fuel fuel' : Nat} {short : Bool}

theorem readLines_nil (hText : lead ++ rest = codes (written fuel [])) (hLead : lead.length ≤ 1)
    (hFuel : 0 < fuel') : readLines fuel' short lead rest = ([], none) := by
  obtain ⟨fuel', rfl⟩ := Nat.exists_eq_succ_of_ne_zero (Nat.ne_of_gt hFuel)
  rw [written_nil, Bytes.codes_append] at hText
  obtain ⟨tail, hLine, rfl⟩ := exists_tail hText (Nat.le_trans hLead (by decide))
  exact readLines_end hLine fuel' short

/-- The lines of a body give its bytes, also when a byte of the first one was taken before. -/
theorem readLines_written (hText : lead ++ rest = codes (written fuel bytes)) (hLead : lead.length ≤ 1)
    (hShort : short = true → bytes = []) (hBytes : bytes.length ≤ fuel) (hFuel : bytes.length < fuel') :
    readLines fuel' short lead rest = (bytes, none) := by
  -- A step takes one line off what was written. Only the first step sees a `lead`, and `short` is set
  -- by the last line, behind which no bytes are left.
  induction fuel generalizing bytes lead rest short fuel' with
  | zero =>
      obtain rfl : bytes = [] := List.length_eq_zero_iff.1 (Nat.le_zero.1 hBytes)
      exact readLines_nil hText hLead hFuel
  | succ fuel ih =>
      by_cases hEmpty : bytes = []
      · subst hEmpty
        exact readLines_nil hText hLead hFuel
      · obtain ⟨fuel', rfl⟩ := Nat.exists_eq_succ_of_ne_zero (Nat.ne_of_gt (Nat.zero_lt_of_lt hFuel))
        obtain rfl : short = false := Bool.eq_false_iff.2 fun h => hEmpty (hShort h)
        have hPositive := List.length_pos_iff.2 hEmpty
        have hLength := Base64.length_padded (bytes.take lineBytes)
        rw [List.length_take, lineBytes] at hLength
        rw [written_of_ne_nil hEmpty, Bytes.codes_append] at hText
        have hLine : lead.length ≤ (codes (padded (bytes.take lineBytes))).length := by
          rw [codes, List.length_map, lineBytes, hLength]
          omega
        obtain ⟨tail, hTail, rfl⟩ := exists_tail hText hLine
        have hBehind : decide ((padded (bytes.take lineBytes)).length < columns) = true →
            bytes.drop lineBytes = [] := by
          intro hLess
          rw [decide_eq_true_iff, lineBytes, hLength, columns] at hLess
          exact List.drop_eq_nil_of_le (by rw [lineBytes]; omega)
        have hFewer : (bytes.drop lineBytes).length < bytes.length := by
          rw [List.length_drop, lineBytes]
          omega
        have hRest := @ih _ [] _ fuel' _ (List.nil_append _) (Nat.zero_le 1) hBehind
          (Nat.le_of_lt_succ (Nat.lt_of_lt_of_le hFewer hBytes))
          (Nat.lt_of_lt_of_le hFewer (Nat.le_of_lt_succ hFuel))
        refine (readLines_line (isLine_padded _) hTail (padded_ne_endMarker _) ?_ ?_
          (decodeGroups_padded _ 0) hRest).trans ?_
        · rw [lineBytes, hLength]
          omega
        · rw [lineBytes, hLength, columns]
          omega
        · rw [List.take_append_drop]

end Body

/-! ### Files -/

/-- An armored file is its begin marker, the body and the end marker. -/
theorem encode_eq (bytes : ByteArray) : encode bytes = String.ofList (beginMarker.toList ++ '\n' ::
    written (Base64.encodePadded bytes).length bytes.toList) := by
  rw [← String.toList_inj]
  simp [encode, written, Base64.encodePadded_eq]

theorem ascii_written (fuel : Nat) (bytes : List UInt8) : IsAscii (written fuel bytes) := by
  refine .append (.flatMap fun line hLine => .append ?_ (by decide)) (isLine_endMarker.ascii.append (by decide))
  exact (isLine_padded bytes).ascii.wrapLines columns fuel line (List.mem_filter.1 hLine).1

theorem toList_toUTF8_encode (bytes : ByteArray) : (encode bytes).toUTF8.toList =
    codes beginMarker.toList ++ 10 :: codes (written (Base64.encodePadded bytes).length bytes.toList) := by
  have hAscii : IsAscii (beginMarker.toList ++ ['\n']) := by decide
  rw [encode_eq, List.append_cons, Bytes.toUTF8_ofList (hAscii.append (ascii_written _ _)), Bytes.toList_ofChars,
    Bytes.codes_append, Bytes.codes_append, List.append_assoc]
  rfl

/-- The written body is at least as long as the bytes, so its length is fuel enough to read them. -/
theorem length_le_written {bytes : List UInt8} {fuel : Nat} (h : bytes.length ≤ fuel) :
    bytes.length ≤ (written fuel bytes).length := by
  induction fuel generalizing bytes with
  | zero => exact Nat.le_trans h (Nat.zero_le _)
  | succ fuel ih =>
      by_cases hEmpty : bytes = []
      · subst hEmpty
        exact Nat.zero_le _
      · have hPositive := List.length_pos_iff.2 hEmpty
        have hRest := @ih (bytes.drop lineBytes) (by rw [List.length_drop, lineBytes]; omega)
        rw [written_of_ne_nil hEmpty, List.length_append, List.length_cons, Base64.length_padded,
          List.length_take]
        rw [List.length_drop] at hRest
        omega

theorem codes_beginMarker : beginMarker.toUTF8.toList = codes beginMarker.toList := by
  rw [← Bytes.toList_ofChars, ← Bytes.toUTF8_ofList (by decide), String.ofList_toList]

/-- Behind the first marker the lines are read, the first byte of them with the marker. -/
theorem read_of_marker {file : ByteArray} {c : Char} {cs : List Char} {decoded : List UInt8}
    {fault : Option Fault} (hFile : file.toList = codes beginMarker.toList ++ 10 :: codes (c :: cs))
    (hFirst : c.toNat < 128)
    (hLines : readLines ((codes cs).length + 2) false (codes [c]) (codes cs) = (decoded, fault)) :
    read file = ⟨decoded.toByteArray, fault⟩ := by
  have hLead : (String.singleton (Char.ofNat (UInt8.ofNat c.toNat).toNat)).toUTF8.toList = codes [c] := by
    have hAscii : IsAscii [c] := by simpa [IsAscii] using hFirst
    rw [Bytes.ofNat_code hFirst, ← Bytes.toList_ofChars, ← Bytes.toUTF8_ofList hAscii]
    rfl
  have hLong : ¬ file.toList.length < beginMarker.toUTF8.toList.length + 2 := by
    rw [hFile, codes_beginMarker]
    simp [codes]
  have hTake : file.toList.take beginMarker.toUTF8.toList.length = beginMarker.toUTF8.toList := by
    rw [hFile, codes_beginMarker, List.take_left]
  have hDrop : file.toList.drop beginMarker.toUTF8.toList.length =
      10 :: UInt8.ofNat c.toNat :: codes cs := by
    rw [hFile, codes_beginMarker, List.drop_left]
    rfl
  rw [read]
  simp only [hLong, if_false, hTake, ne_eq, not_true_eq_false, hDrop, hLead, hLines]

/-- What is written in armor is read back. -/
theorem read_encode (bytes : ByteArray) : read (encode bytes).toUTF8 = ⟨bytes, none⟩ := by
  have hFuel : bytes.toList.length ≤ (Base64.encodePadded bytes).length := by
    rw [Base64.encodePadded_eq, Base64.length_padded]
    omega
  have hAscii := ascii_written (Base64.encodePadded bytes).length bytes.toList
  have hLength := length_le_written hFuel
  have hFile := toList_toUTF8_encode bytes
  cases hWritten : written (Base64.encodePadded bytes).length bytes.toList with
  | nil => simp [written] at hWritten
  | cons c cs =>
      rw [hWritten] at hFile hLength hAscii
      have hLines : readLines ((codes cs).length + 2) false (codes [c]) (codes cs) = (bytes.toList, none) := by
        refine readLines_written (congrArg codes hWritten).symm (Nat.le_refl 1) (fun h => ?_) hFuel ?_
        · cases h
        · rw [List.length_cons] at hLength
          rw [codes, List.length_map]
          omega
      rw [read_of_marker hFile (hAscii c List.mem_cons_self) hLines, Bytes.toByteArray_toList]

end VaultSync.Age.Armor
