import VaultSync.Encoding.Base64
import VaultSync.Proofs.Text.Ascii

/-! Base 64 texts give their bytes back, with padding and without. -/
namespace VaultSync.Base64

/-- A character of the alphabet. -/
def IsDigit (c : Char) : Prop :=
  ∃ n < 64, c = charOf n

theorem valueOf?_charOf {n : Nat} (h : n < 64) : valueOf? (charOf n) = some n := by
  have : ∀ n < 64, valueOf? (charOf n) = some n := by decide
  exact this n h

theorem IsDigit.isSome {c : Char} (h : IsDigit c) : (valueOf? c).isSome = true := by
  obtain ⟨n, hn, rfl⟩ := h
  rw [valueOf?_charOf hn]
  rfl

theorem IsDigit.ascii {c : Char} (h : IsDigit c) : c.toNat < 128 := by
  have : ∀ n < 64, (charOf n).toNat < 128 := by decide
  obtain ⟨n, hn, rfl⟩ := h
  exact this n hn

/-- A digit is no line break, no padding and no mark. -/
theorem IsDigit.ne {c : Char} (h : IsDigit c) : c ≠ '\n' ∧ c ≠ '=' ∧ c ≠ '-' ∧ c ≠ '\r' := by
  have : ∀ n < 64, charOf n ≠ '\n' ∧ charOf n ≠ '=' ∧ charOf n ≠ '-' ∧ charOf n ≠ '\r' := by decide
  obtain ⟨n, hn, rfl⟩ := h
  exact this n hn

/-- Only digits of the alphabet are written. -/
theorem isDigit_of_mem {bytes : List UInt8} {c : Char} (h : c ∈ encodeChars bytes) : IsDigit c := by
  fun_induction encodeChars bytes with
  | case1 x y z rest n ih =>
      have hx := x.toNat_lt
      have hy := y.toNat_lt
      have hz := z.toNat_lt
      simp only [List.mem_cons] at h
      rcases h with rfl | rfl | rfl | rfl | h
      · exact ⟨_, by omega, rfl⟩
      · exact ⟨_, Nat.mod_lt _ (by decide), rfl⟩
      · exact ⟨_, Nat.mod_lt _ (by decide), rfl⟩
      · exact ⟨_, Nat.mod_lt _ (by decide), rfl⟩
      · exact ih h
  | case2 x y n =>
      have hx := x.toNat_lt
      have hy := y.toNat_lt
      simp only [List.mem_cons, List.not_mem_nil, or_false] at h
      rcases h with rfl | rfl | rfl
      · exact ⟨_, by omega, rfl⟩
      · exact ⟨_, Nat.mod_lt _ (by decide), rfl⟩
      · exact ⟨_, Nat.mod_lt _ (by decide), rfl⟩
  | case3 x n =>
      have hx := x.toNat_lt
      simp only [List.mem_cons, List.not_mem_nil, or_false] at h
      rcases h with rfl | rfl
      · exact ⟨_, by omega, rfl⟩
      · exact ⟨_, Nat.mod_lt _ (by decide), rfl⟩
  | case4 => cases h

/-- Three bytes take four digits, the last group only as many as it needs. -/
theorem length_encodeChars (bytes : List UInt8) :
    (encodeChars bytes).length = (4 * bytes.length + 2) / 3 := by
  fun_induction encodeChars bytes with
  | case1 x y z rest n ih =>
      simp only [List.length_cons, ih]
      omega
  | case2 x y n => simp
  | case3 x n => simp
  | case4 => rfl

theorem ofNat_eq {n : Nat} {byte : UInt8} (h : n % 256 = byte.toNat) : UInt8.ofNat n = byte :=
  UInt8.toNat_inj.1 (by simpa using h)

/-- Bytes are read back from their digits. -/
theorem decodeChars?_encodeChars (bytes : List UInt8) : decodeChars? (encodeChars bytes) = some bytes := by
  -- a group is one number on both sides; a last group of one or two bytes leaves bits that are zero
  fun_induction encodeChars bytes with
  | case1 x y z rest n ih =>
      have hx := x.toNat_lt
      have hy := y.toNat_lt
      have hz := z.toNat_lt
      have hn : n = x.toNat * 65536 + y.toNat * 256 + z.toNat := rfl
      clear_value n
      have hJoin : n / 262144 * 262144 + n / 4096 % 64 * 4096 + n / 64 % 64 * 64 + n % 64 = n := by omega
      rw [decodeChars?, valueOf?_charOf (by omega), valueOf?_charOf (Nat.mod_lt _ (by decide)),
        valueOf?_charOf (Nat.mod_lt _ (by decide)), valueOf?_charOf (Nat.mod_lt _ (by decide)), ih]
      simp only [bind, Option.bind, pure, hJoin]
      rw [ofNat_eq (show n / 65536 % 256 = x.toNat by omega),
        ofNat_eq (show n / 256 % 256 = y.toNat by omega), ofNat_eq (show n % 256 = z.toNat by omega)]
  | case2 x y n =>
      have hx := x.toNat_lt
      have hy := y.toNat_lt
      have hn : n = x.toNat * 1024 + y.toNat * 4 := rfl
      clear_value n
      have hJoin : n / 4096 * 4096 + n / 64 % 64 * 64 + n % 64 = n := by omega
      rw [decodeChars?, valueOf?_charOf (by omega), valueOf?_charOf (Nat.mod_lt _ (by decide)),
        valueOf?_charOf (Nat.mod_lt _ (by decide))]
      simp only [bind, Option.bind, pure, hJoin]
      rw [if_pos (by omega), ofNat_eq (show n / 1024 % 256 = x.toNat by omega),
        ofNat_eq (show n / 4 % 256 = y.toNat by omega)]
  | case3 x n =>
      have hx := x.toNat_lt
      have hn : n = x.toNat * 16 := rfl
      clear_value n
      have hJoin : n / 64 * 64 + n % 64 = n := by omega
      rw [decodeChars?, valueOf?_charOf (by omega), valueOf?_charOf (Nat.mod_lt _ (by decide))]
      simp only [bind, Option.bind, pure, hJoin]
      rw [if_pos (by omega), ofNat_eq (show n / 16 % 256 = x.toNat by omega)]
  | case4 => rfl

/-- What was encoded is decoded. -/
theorem decode?_encode (bytes : ByteArray) : decode? (encode bytes) = some bytes := by
  rw [decode?, encode, decodeChars?_encodeChars, Option.map_some, Bytes.toByteArray_toList]

/-! ### Padding -/

/-- Bytes as digits, with padding to a multiple of four characters. -/
def padded (bytes : List UInt8) : List Char :=
  encodeChars bytes ++ List.replicate ((4 - (encodeChars bytes).length % 4) % 4) '='

theorem encodePadded_eq (bytes : ByteArray) : encodePadded bytes = padded bytes.toList := rfl

theorem isDigit_of_mem_padded {bytes : List UInt8} {c : Char} (h : c ∈ padded bytes) :
    IsDigit c ∨ c = '=' := by
  rcases List.mem_append.1 h with h | h
  · exact .inl (isDigit_of_mem h)
  · exact .inr (List.eq_of_mem_replicate h)

theorem length_padded (bytes : List UInt8) : (padded bytes).length = 4 * ((bytes.length + 2) / 3) := by
  rw [padded, List.length_append, List.length_replicate, length_encodeChars]
  omega

/-- Whole groups need no padding. -/
theorem padded_of_full {bytes : List UInt8} (h : bytes.length % 3 = 0) : padded bytes = encodeChars bytes := by
  have hNone : (4 - (encodeChars bytes).length % 4) % 4 = 0 := by
    rw [length_encodeChars]
    omega
  rw [padded, hNone]
  exact List.append_nil _

/-- Whole groups are encoded independently of what follows. -/
theorem encodeChars_append {front : List UInt8} (h : front.length % 3 = 0) (back : List UInt8) :
    encodeChars (front ++ back) = encodeChars front ++ encodeChars back := by
  fun_induction encodeChars front with
  | case1 x y z rest n ih =>
      have hRest : rest.length % 3 = 0 := by
        simp only [List.length_cons] at h
        omega
      simp only [List.cons_append, encodeChars, ih hRest, n]
  | case2 x y n => simp at h
  | case3 x n => simp at h
  | case4 => rfl

theorem padded_append {front : List UInt8} (h : front.length % 3 = 0) (back : List UInt8) :
    padded (front ++ back) = encodeChars front ++ padded back := by
  have hBack : (encodeChars (front ++ back)).length % 4 = (encodeChars back).length % 4 := by
    have hFront : (encodeChars front).length % 4 = 0 := by
      rw [length_encodeChars]
      omega
    rw [encodeChars_append h, List.length_append]
    omega
  rw [padded, hBack, encodeChars_append h, List.append_assoc]
  rfl

end VaultSync.Base64
