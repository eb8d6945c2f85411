import VaultSync.Cli.Terminal
import VaultSync.Proofs.Text.Ascii
import VaultSync.Proofs.Text.Lines

/-! Lines of input. A line break is a single byte that is in no other character, so the bytes of a text are
read line by line as the text itself is divided. -/
namespace VaultSync

namespace Text

/-! ### Typed lines -/

/-- The carriage returns at the end of a line stand before its line break. -/
def isReturn (c : Char) : Bool :=
  c = '\r'

/-- One carriage return more or less at the end is trimmed all the same. -/
theorem dropEndWhile_dropReturn (line : List Char) :
    dropEndWhile isReturn (dropReturn line) = dropEndWhile isReturn line := by
  rw [dropReturn]
  split
  · rename_i hLast
    obtain ⟨front, rfl⟩ := List.getLast?_eq_some_iff.1 hLast
    rw [List.dropLast_concat, dropEndWhile_concat, if_pos (by rfl)]
  · rfl

/-- The lines of a text without all carriage returns at their ends. -/
def typedLines (cs : List Char) : List String :=
  (lineChars cs).map fun line => String.ofList (dropEndWhile isReturn line)

example : typedLines "a\r\n\n\rb".toList = ["a", "", "\rb"] := by decide

end Text

/-! ### Bytes of a text -/

namespace Bytes

/-- The bytes of characters. -/
def utf8 (cs : List Char) : List UInt8 :=
  cs.flatMap String.utf8EncodeChar

theorem utf8_append (cs ds : List Char) : utf8 (cs ++ ds) = utf8 cs ++ utf8 ds :=
  List.flatMap_append

theorem toList_toUTF8 (text : String) : text.toUTF8.toList = utf8 text.toList := by
  have hBytes : text.toUTF8 = (utf8 text.toList).toByteArray := by
    rw [← String.ofList_toList (s := text), String.toList_ofList]
    exact String.toByteArray_ofList
  rw [hBytes, toList_toByteArray]

theorem toByteArray_utf8 (cs : List Char) : (utf8 cs).toByteArray = (String.ofList cs).toUTF8 :=
  String.toByteArray_ofList.symm

/-- The bytes of a character that is not an ASCII character are not ASCII characters. -/
theorem le_of_mem_utf8EncodeChar {c : Char} (hWide : 128 ≤ c.toNat) {b : UInt8}
    (h : b ∈ String.utf8EncodeChar c) : 128 ≤ b.toNat := by
  have hRange : c.val.toNat < 1114112 := by
    have hValid := c.valid
    simp only [UInt32.isValidChar, Nat.isValidChar] at hValid
    omega
  have hWide' : ¬ c.val.toNat ≤ 127 := by
    have hVal : c.toNat = c.val.toNat := rfl
    omega
  rw [String.utf8EncodeChar] at h
  simp only [if_neg hWide'] at h
  split at h
  · simp only [List.mem_cons, List.not_mem_nil, or_false] at h
    rcases h with rfl | rfl <;> simp only [UInt8.toNat_ofNat'] <;> omega
  · split at h
    · simp only [List.mem_cons, List.not_mem_nil, or_false] at h
      rcases h with rfl | rfl | rfl <;> simp only [UInt8.toNat_ofNat'] <;> omega
    · simp only [List.mem_cons, List.not_mem_nil, or_false] at h
      rcases h with rfl | rfl | rfl | rfl <;> simp only [UInt8.toNat_ofNat'] <;> omega

/-- A byte of an ASCII character is that of no other character. -/
theorem mem_utf8EncodeChar_iff {c d : Char} (hAscii : d.toNat < 128) :
    UInt8.ofNat d.toNat ∈ String.utf8EncodeChar c ↔ c = d := by
  refine ⟨fun h => ?_, fun h => ?_⟩
  · by_cases hWide : 128 ≤ c.toNat
    · have hByte := le_of_mem_utf8EncodeChar hWide h
      rw [UInt8.toNat_ofNat', Nat.mod_eq_of_lt (by omega)] at hByte
      omega
    · rw [utf8EncodeChar_of_ascii (by omega), List.mem_singleton] at h
      exact ((code_inj hAscii (by omega)).1 h).symm
  · rw [h, utf8EncodeChar_of_ascii hAscii]
    exact List.mem_singleton.2 rfl

/-- An ASCII character stands among the bytes only where it stands in the text. -/
theorem notMem_utf8 {cs : List Char} {d : Char} (hAscii : d.toNat < 128) (h : d ∉ cs) :
    UInt8.ofNat d.toNat ∉ utf8 cs := by
  intro hMem
  obtain ⟨c, hc, hByte⟩ := List.mem_flatMap.1 hMem
  exact h ((mem_utf8EncodeChar_iff hAscii).1 hByte ▸ hc)

end Bytes

/-! ### Reading lines -/

namespace Cli.Machine

open Bytes (utf8)
open Text (typedLines)

/-- A line goes to its line feed. -/
theorem splitLine_append {line : List UInt8} (hNone : 10 ∉ line) (rest : List UInt8) :
    splitLine (line ++ 10 :: rest) = (line ++ [10], rest) := by
  induction line with
  | nil => rfl
  | cons b line ih =>
      rw [List.mem_cons, not_or] at hNone
      rw [List.cons_append, splitLine, if_neg (Ne.symm hNone.1), ih hNone.2]
      rfl

/-- Input without a line feed is one line. -/
theorem splitLine_of_notMem {line : List UInt8} (hNone : 10 ∉ line) : splitLine line = (line, []) := by
  induction line with
  | nil => rfl
  | cons b line ih =>
      rw [List.mem_cons, not_or] at hNone
      rw [splitLine, if_neg (Ne.symm hNone.1), ih hNone.2]

/-- A line loses its carriage returns, byte by byte as character by character. -/
theorem dropEndWhile_utf8 {line : List Char} (hNone : '\n' ∉ line) :
    Text.dropEndWhile isLineBreak (utf8 line) = utf8 (Text.dropEndWhile Text.isReturn line) := by
  refine Text.dropEndWhile_flatMap (fun c _ hReturn b hb => ?_) fun c hc hOther => ?_
  · obtain rfl : c = '\r' := of_decide_eq_true hReturn
    rw [Bytes.utf8EncodeChar_of_ascii (by decide), List.mem_singleton] at hb
    exact hb ▸ rfl
  · have hNil : String.utf8EncodeChar c ≠ [] := by simp
    refine ⟨_, _, (List.dropLast_append_getLast hNil).symm, ?_⟩
    have hMem := List.getLast_mem hNil
    generalize (String.utf8EncodeChar c).getLast hNil = b at hMem
    have hFeed : b ≠ 10 := by
      rintro rfl
      exact hNone ((Bytes.mem_utf8EncodeChar_iff (d := '\n') (by decide)).1 hMem ▸ hc)
    have hReturn : b ≠ 13 := by
      rintro rfl
      exact of_decide_eq_false hOther ((Bytes.mem_utf8EncodeChar_iff (d := '\r') (by decide)).1 hMem)
    simp [isLineBreak, hFeed, hReturn]

/-- The first line is read without the line break. -/
theorem firstLine_eq {input : List UInt8} {text : List Char} (h : input ≠ [])
    (hLine : Text.dropEndWhile isLineBreak (splitLine input).1 = utf8 text) :
    firstLine input = .ok (some (String.ofList text)) := by
  rw [firstLine, if_neg h, hLine, Bytes.toByteArray_utf8, fromUTF8?_toUTF8]

/-- Reading a text takes its first line off. -/
theorem readLine_utf8 {m : Machine} {cs : List Char} (hInput : m.input = utf8 cs) :
    ∃ rest, typedLines rest = (typedLines cs).tail ∧
      m.readLine = (.ok (typedLines cs).head?, { m with input := utf8 rest }) := by
  rw [readLine, hInput]
  -- a line feed is one byte that no other character has, so lines of bytes are lines of text
  by_cases hBreak : '\n' ∈ cs
  · obtain ⟨line, rest, rfl, hNone⟩ := List.eq_append_cons_of_mem hBreak
    have hBytes : utf8 (line ++ '\n' :: rest) = utf8 line ++ 10 :: utf8 rest := Bytes.utf8_append _ _
    have hSplit := splitLine_append (Bytes.notMem_utf8 (d := '\n') (by decide) hNone) (utf8 rest)
    have hFirst : firstLine (utf8 line ++ 10 :: utf8 rest) =
        .ok (some (String.ofList (Text.dropEndWhile Text.isReturn line))) := by
      refine firstLine_eq (by simp) ?_
      rw [hSplit, Text.dropEndWhile_append (by simp [isLineBreak]), dropEndWhile_utf8 hNone]
    have hLines : typedLines (line ++ '\n' :: rest) =
        String.ofList (Text.dropEndWhile Text.isReturn line) :: typedLines rest := by
      rw [typedLines, Text.lineChars_append hNone, List.map_cons, Text.dropEndWhile_dropReturn]
      rfl
    exact ⟨rest, by rw [hLines, List.tail_cons], by rw [hBytes, hFirst, hSplit, hLines, List.head?_cons]⟩
  · cases cs with
    | nil => exact ⟨[], rfl, rfl⟩
    | cons c cs =>
        have hNonempty : utf8 (c :: cs) ≠ [] := by simp [utf8]
        have hSplit := splitLine_of_notMem (Bytes.notMem_utf8 (d := '\n') (by decide) hBreak)
        have hFirst := firstLine_eq hNonempty (by rw [hSplit]; exact dropEndWhile_utf8 hBreak)
        have hLines : typedLines (c :: cs) =
            [String.ofList (Text.dropEndWhile Text.isReturn (c :: cs))] := by
          rw [typedLines, Text.lineChars_of_notMem hBreak (List.cons_ne_nil c cs), List.map_singleton]
        exact ⟨[], by rw [hLines]; rfl, by rw [hFirst, hSplit, hLines]; rfl⟩

end Cli.Machine

end VaultSync
