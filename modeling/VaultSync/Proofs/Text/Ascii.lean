import VaultSync.Proofs.Bytes

/-! ASCII text as bytes. Each character of an ASCII text is one byte, whether the text
is encoded or its characters are taken as bytes. -/
namespace VaultSync

/-- Bytes that were made of a text give the text again. -/
theorem fromUTF8?_toUTF8 (text : String) : String.fromUTF8? text.toUTF8 = some text := by
  simp [String.fromUTF8?, text.isValidUTF8, String.fromUTF8]

namespace Bytes

/-- ASCII characters as bytes. -/
def codes (cs : List Char) : List UInt8 :=
  cs.map fun c => UInt8.ofNat c.toNat

theorem codes_append (cs ds : List Char) : codes (cs ++ ds) = codes cs ++ codes ds :=
  List.map_append

theorem toList_ofChars (cs : List Char) : (ofChars cs).toList = codes cs :=
  toList_toByteArray _

theorem length_toChars (b : ByteArray) : (toChars b).length = b.size := by
  rw [toChars, List.length_map, length_toList]

theorem toChars_append (a b : ByteArray) : toChars (a ++ b) = toChars a ++ toChars b := by
  rw [toChars, toList_append, List.map_append]
  rfl

/-- Every character is an ASCII character. -/
def IsAscii (cs : List Char) : Prop :=
  ∀ c ∈ cs, c.toNat < 128

instance (cs : List Char) : Decidable (IsAscii cs) :=
  List.decidableBAll _ cs

theorem IsAscii.append {cs ds : List Char} (h : IsAscii cs) (h' : IsAscii ds) : IsAscii (cs ++ ds) := by
  intro c hc
  exact (List.mem_append.1 hc).elim (h c) (h' c)

theorem IsAscii.flatMap {α : Type} {f : α → List Char} {as : List α} (h : ∀ a ∈ as, IsAscii (f a)) :
    IsAscii (as.flatMap f) := by
  intro c hc
  obtain ⟨a, ha, hc⟩ := List.mem_flatMap.1 hc
  exact h a ha c hc

theorem IsAscii.wrapLines {cs : List Char} (h : IsAscii cs) (columns fuel : Nat) :
    ∀ line ∈ Text.wrapLines columns fuel cs, IsAscii line := by
  induction fuel generalizing cs with
  | zero =>
      intro line hLine
      obtain rfl := List.mem_singleton.1 hLine
      exact h
  | succ fuel ih =>
      intro line hLine
      rw [Text.wrapLines] at hLine
      split at hLine
      · obtain rfl := List.mem_singleton.1 hLine
        exact h
      · rcases List.mem_cons.1 hLine with rfl | hLine
        · exact fun c hc => h c (List.mem_of_mem_take hc)
        · exact ih (fun c hc => h c (List.mem_of_mem_drop hc)) line hLine

/-- An ASCII character is read back from its byte. -/
theorem ofNat_code {c : Char} (h : c.toNat < 128) : Char.ofNat (UInt8.ofNat c.toNat).toNat = c := by
  simp [Nat.mod_eq_of_lt (show c.toNat < 256 by omega)]

/-- ASCII characters are told apart by their bytes. -/
theorem code_inj {c d : Char} (hc : c.toNat < 128) (hd : d.toNat < 128) :
    UInt8.ofNat c.toNat = UInt8.ofNat d.toNat ↔ c = d := by
  refine ⟨fun h => ?_, fun h => h ▸ rfl⟩
  rw [← ofNat_code hc, h, ofNat_code hd]

theorem map_ofNat_codes {cs : List Char} (h : IsAscii cs) :
    ((codes cs).map fun b => Char.ofNat b.toNat) = cs := by
  rw [codes, List.map_map]
  exact (List.map_congr_left fun c hc => ofNat_code (h c hc)).trans (List.map_id cs)

/-- ASCII texts are told apart by their bytes. -/
theorem codes_inj {cs ds : List Char} (hc : IsAscii cs) (hd : IsAscii ds) :
    codes cs = codes ds ↔ cs = ds := by
  refine ⟨fun h => ?_, fun h => h ▸ rfl⟩
  rw [← map_ofNat_codes hc, h, map_ofNat_codes hd]

theorem toChars_ofChars {cs : List Char} (h : IsAscii cs) : toChars (ofChars cs) = cs := by
  rw [toChars, toList_ofChars, map_ofNat_codes h]

theorem utf8EncodeChar_of_ascii {c : Char} (h : c.toNat < 128) :
    String.utf8EncodeChar c = [UInt8.ofNat c.toNat] := by
  have hShort : c.val.toNat ≤ 127 := Nat.le_of_lt_succ h
  rw [String.utf8EncodeChar, if_pos hShort]
  rfl

/-- The encoding of an ASCII text has its characters for bytes. -/
theorem toUTF8_ofList {cs : List Char} (h : IsAscii cs) : (String.ofList cs).toUTF8 = ofChars cs := by
  have hBytes : (String.ofList cs).toUTF8 = (cs.flatMap String.utf8EncodeChar).toByteArray :=
    String.toByteArray_ofList
  have hEach : cs.flatMap String.utf8EncodeChar = cs.map fun c => UInt8.ofNat c.toNat := by
    clear hBytes
    induction cs with
    | nil => rfl
    | cons c cs ih =>
        rw [List.flatMap_cons, utf8EncodeChar_of_ascii (h c List.mem_cons_self),
          ih fun d hd => h d (List.mem_cons_of_mem c hd)]
        rfl
  rw [hBytes, ofChars, hEach]

/-- ASCII bytes are a text. -/
theorem fromUTF8?_ofChars {cs : List Char} (h : IsAscii cs) :
    String.fromUTF8? (ofChars cs) = some (String.ofList cs) := by
  rw [← toUTF8_ofList h, fromUTF8?_toUTF8]

end Bytes

end VaultSync
