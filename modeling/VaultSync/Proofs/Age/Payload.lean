import VaultSync.Age.Payload
import VaultSync.Proofs.Crypto.Sealed

/-! Payloads are read back chunk by chunk. A last chunk that is full looks like one in the middle, so what
is read of it also depends on what its tag happens to be; texts with such an end are left out. -/
namespace VaultSync.Age.Payload

open Crypto

/-- The last chunk of a text is not full. -/
def EndsShort (plain : ByteArray) : Prop :=
  plain.size % chunkSize = 0 → plain.size = 0

variable {key plain : ByteArray} {fuel index : Nat}

/-- A last chunk that is not full ends the payload. -/
theorem decryptFrom_last (h : plain.size < chunkSize) :
    decryptFrom key none (fuel + 1) index false (Sealed.encrypt key (nonce index true) plain) =
      .ok plain := by
  have hSize := Sealed.size_encrypt key (nonce index true) plain
  have hShort : (Sealed.encrypt key (nonce index true) plain).size < sealedSize := by
    rw [hSize, sealedSize]
    omega
  have hNonempty : (Sealed.encrypt key (nonce index true) plain).isEmpty = false := by
    simp [ByteArray.isEmpty, hSize]
  rw [decryptFrom, if_pos hShort]
  simp only [hNonempty, Sealed.decrypt?_encrypt, Bool.false_eq_true, if_false]

/-- A full chunk is opened and the rest read on. -/
theorem decryptFrom_middle {rest : ByteArray} (h : plain.size = chunkSize) :
    decryptFrom key none (fuel + 1) index false (Sealed.encrypt key (nonce index false) plain ++ rest) =
      (decryptFrom key none fuel (index + 1) false rest).map (plain ++ ·) := by
  have hSize : (Sealed.encrypt key (nonce index false) plain).size = sealedSize := by
    rw [Sealed.size_encrypt, h, sealedSize]
  have hChunk := Bytes.slice_append (Sealed.encrypt key (nonce index false) plain) rest
  have hRest := Bytes.drop_append (Sealed.encrypt key (nonce index false) plain) rest
  rw [hSize] at hChunk hRest
  have hFull : ¬ (Sealed.encrypt key (nonce index false) plain ++ rest).size < sealedSize := by
    rw [ByteArray.size_append, hSize]
    omega
  rw [decryptFrom, if_neg hFull]
  simp only [hChunk, hRest, Sealed.decrypt?_encrypt, Bool.false_eq_true, if_false]
  cases decryptFrom key none fuel (index + 1) false rest <;> rfl

/-- The chunks are opened in the order they were sealed, one for one. -/
theorem decryptFrom_encryptFrom {fuel' : Nat} (hShort : EndsShort plain)
    (hFuel : plain.size / chunkSize < fuel) (hFuel' : fuel ≤ fuel') :
    decryptFrom key none fuel' index false (encryptFrom key fuel index plain) = .ok plain := by
  -- Writer and reader go on by one chunk at a time, and the reader has the fuel to follow.
  induction fuel generalizing fuel' index plain with
  | zero => exact absurd hFuel (Nat.not_lt_zero _)
  | succ fuel ih =>
      obtain ⟨fuel', rfl⟩ : ∃ n, fuel' = n + 1 := ⟨fuel' - 1, by omega⟩
      rw [encryptFrom]
      by_cases hLast : plain.size ≤ chunkSize
      · rw [if_pos hLast]
        refine decryptFrom_last (Nat.lt_of_le_of_ne hLast fun hFull => ?_)
        have hZero := hShort (by rw [hFull, Nat.mod_self])
        rw [hFull] at hZero
        exact absurd hZero (by decide)
      · have hRestSize := Bytes.size_drop plain chunkSize
        have hPositive : 0 < chunkSize := by decide
        have hSplit : plain.size = plain.size - chunkSize + chunkSize := by omega
        have hRest : EndsShort (Bytes.drop plain chunkSize) := by
          intro hMod
          rw [hRestSize] at hMod ⊢
          have := hShort (by rw [hSplit, Nat.add_mod_right, hMod])
          omega
        have hCount : (Bytes.drop plain chunkSize).size / chunkSize < fuel := by
          rw [hSplit, Nat.add_div_right _ hPositive] at hFuel
          rw [hRestSize]
          omega
        rw [if_neg hLast, decryptFrom_middle (Bytes.size_slice (by omega)), ih hRest hCount (by omega)]
        exact congrArg Except.ok (Bytes.slice_append_drop plain chunkSize)

theorem le_size_encryptFrom (hFuel : plain.size / chunkSize < fuel) :
    plain.size / chunkSize * sealedSize ≤ (encryptFrom key fuel index plain).size + sealedSize := by
  -- one sealed chunk of slack pays for the last chunk, which need not be full
  induction fuel generalizing index plain with
  | zero => exact absurd hFuel (Nat.not_lt_zero _)
  | succ fuel ih =>
      rw [encryptFrom]
      by_cases hLast : plain.size ≤ chunkSize
      · have hOne : plain.size / chunkSize ≤ 1 := Nat.div_le_of_le_mul (by omega)
        have := Nat.mul_le_mul_right sealedSize hOne
        omega
      · have hDiv : plain.size / chunkSize = (plain.size - chunkSize) / chunkSize + 1 := by
          rw [← Nat.add_div_right _ (by decide : 0 < chunkSize), Nat.sub_add_cancel (by omega)]
        have hCount : (Bytes.drop plain chunkSize).size / chunkSize < fuel := by
          rw [Bytes.size_drop]
          omega
        have hRest : (Bytes.drop plain chunkSize).size / chunkSize * sealedSize ≤
            (encryptFrom key fuel (index + 1) (Bytes.drop plain chunkSize)).size + sealedSize := ih hCount
        rw [Bytes.size_drop] at hRest
        rw [if_neg hLast, ByteArray.size_append, Sealed.size_encrypt, Bytes.size_slice (by omega), hDiv,
          Nat.succ_mul]
        have hSealed : chunkSize + 16 = sealedSize := rfl
        omega

/-- A payload is decrypted to the text that was encrypted. -/
theorem decrypt_encrypt (key : ByteArray) (h : EndsShort plain) :
    decrypt key ⟨encrypt key plain, none⟩ = .ok plain := by
  have hSize : plain.size / chunkSize * sealedSize ≤ (encrypt key plain).size + sealedSize :=
    le_size_encryptFrom (Nat.lt_succ_self _)
  have hCount : plain.size / chunkSize ≤ (encrypt key plain).size / sealedSize + 1 := by
    have := Nat.div_le_div_right (c := sealedSize) hSize
    rwa [Nat.mul_div_cancel _ (by decide), Nat.add_div_right _ (by decide)] at this
  exact decryptFrom_encryptFrom h (Nat.lt_succ_self _) (by dsimp only; omega)

end VaultSync.Age.Payload
