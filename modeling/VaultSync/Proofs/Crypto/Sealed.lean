import VaultSync.Crypto.Sealed
import VaultSync.Proofs.Text.Ascii

/-! Sealed messages open under the key and the nonce that sealed them. The key stream is laid over a message
byte by byte, so that laying it over twice gives the message. -/
namespace VaultSync.Crypto

namespace ChaCha20

theorem size_pushLE (b : ByteArray) (w : UInt32) : (Bytes.pushLE b w).size = b.size + 4 := by
  simp [Bytes.pushLE]

theorem size_doubleRound (s : Array UInt32) : (doubleRound s).size = s.size := by
  simp [doubleRound, quarterRound]

/-- A block of the key stream has sixty-four bytes. -/
theorem size_block (key nonce : ByteArray) (counter : UInt32) : (block key nonce counter).size = 64 := by
  have hRounds (s : Array UInt32) (rounds : List Nat) :
      (rounds.foldl (fun s _ => doubleRound s) s).size = s.size := by
    induction rounds generalizing s with
    | nil => rfl
    | cons round rounds ih => rw [List.foldl_cons, ih, size_doubleRound]
  have hWords (b : ByteArray) (words : List UInt32) :
      (words.foldl Bytes.pushLE b).size = b.size + 4 * words.length := by
    induction words generalizing b with
    | nil => rfl
    | cons w words ih =>
        rw [List.foldl_cons, ih, size_pushLE, List.length_cons]
        omega
  rw [block, ← Array.foldl_toList, hWords]
  simp [hRounds, start]

/-- The bytes that are laid over a message. -/
def keyStream (key nonce : ByteArray) (counter blocks : Nat) : List UInt8 :=
  (List.range blocks).flatMap fun i => (block key nonce (UInt32.ofNat (counter + i))).toList

/-- The key stream has 64 bytes for each block. -/
theorem length_keyStream (key nonce : ByteArray) (counter blocks : Nat) :
    (keyStream key nonce counter blocks).length = 64 * blocks := by
  simp [keyStream, List.length_flatMap, Bytes.length_toList, size_block, List.map_const', Nat.mul_comm]

theorem zipWith_append {f : UInt8 → UInt8 → UInt8} (xs ys zs : List UInt8) :
    List.zipWith f xs (ys ++ zs) = List.zipWith f xs ys ++ List.zipWith f (xs.drop ys.length) zs := by
  induction ys generalizing xs with
  | nil => simp
  | cons y ys ih =>
      cases xs with
      | nil => simp
      | cons x xs => simp [ih]

theorem zipWith_take {f : UInt8 → UInt8 → UInt8} (xs ys : List UInt8) :
    List.zipWith f (xs.take ys.length) ys = List.zipWith f xs ys := by
  induction ys generalizing xs with
  | nil => simp
  | cons y ys ih =>
      cases xs with
      | nil => simp
      | cons x xs => simp [ih]

/-- A message under the key stream, byte by byte. -/
theorem toList_apply (key nonce : ByteArray) (counter : Nat) (message : ByteArray) :
    (apply key nonce counter message).toList =
      List.zipWith (· ^^^ ·) message.toList (keyStream key nonce counter ((message.size + 63) / 64)) := by
  have hBlocks (blocks : Nat) :
      ((List.range blocks).foldl (fun out i => out ++ Bytes.xor (Bytes.slice message (64 * i) 64)
        (block key nonce (UInt32.ofNat (counter + i)))) ByteArray.empty).toList =
      List.zipWith (· ^^^ ·) message.toList (keyStream key nonce counter blocks) := by
    -- each block is added behind the others, to the piece of the message at its place
    induction blocks with
    | zero => simp [keyStream, Bytes.toList_eq]
    | succ blocks ih =>
        have hLength : (block key nonce (UInt32.ofNat (counter + blocks))).toList.length = 64 := by
          rw [Bytes.length_toList, size_block]
        have hXor (a b : ByteArray) : (Bytes.xor a b).toList = List.zipWith (· ^^^ ·) a.toList b.toList := by
          simp [Bytes.xor, Bytes.zipWith, Bytes.toList_eq]
        have hStream : keyStream key nonce counter (blocks + 1) = keyStream key nonce counter blocks ++
            (block key nonce (UInt32.ofNat (counter + blocks))).toList := by
          simp [keyStream, List.range_succ]
        rw [List.range_succ, List.foldl_append, List.foldl_cons, List.foldl_nil, Bytes.toList_append, ih,
          hXor, Bytes.toList_slice, hStream, zipWith_append, length_keyStream]
        congr 1
        rw [← hLength, zipWith_take]
  exact hBlocks _

theorem size_apply (key nonce : ByteArray) (counter : Nat) (message : ByteArray) :
    (apply key nonce counter message).size = message.size := by
  rw [← Bytes.length_toList, toList_apply, List.length_zipWith, length_keyStream, Bytes.length_toList]
  omega

/-- Laid over twice, the key stream gives the message. -/
theorem apply_apply (key nonce : ByteArray) (counter : Nat) (message : ByteArray) :
    apply key nonce counter (apply key nonce counter message) = message := by
  have hTwice (xs ys : List UInt8) (h : xs.length ≤ ys.length) :
      List.zipWith (· ^^^ ·) (List.zipWith (· ^^^ ·) xs ys) ys = xs := by
    induction xs generalizing ys with
    | nil => simp
    | cons x xs ih =>
        cases ys with
        | nil => simp at h
        | cons y ys =>
            simp only [List.zipWith_cons_cons, UInt8.xor_assoc, UInt8.xor_self, UInt8.xor_zero]
            rw [ih ys (by simpa using h)]
  refine Bytes.eq_of_toList ?_
  rw [toList_apply, toList_apply, size_apply, hTwice]
  rw [length_keyStream, Bytes.length_toList]
  omega

end ChaCha20

namespace Sealed

theorem size_tagOf (key nonce ciphertext : ByteArray) : (tagOf key nonce ciphertext).size = 16 := by
  simp [tagOf, tag, Bytes.ofNatLE, ← ByteArray.size_data]

/-- Sealing adds the tag. -/
theorem size_encrypt (key nonce message : ByteArray) :
    (encrypt key nonce message).size = message.size + 16 := by
  rw [encrypt, ByteArray.size_append, size_tagOf, ChaCha20.size_apply]

/-- What was sealed is opened. -/
theorem decrypt?_encrypt (key nonce message : ByteArray) :
    decrypt? key nonce (encrypt key nonce message) = some message := by
  have hSize := size_encrypt key nonce message
  have hLength : (ChaCha20.apply key nonce 1 message).toList.length = message.size := by
    rw [Bytes.length_toList, ChaCha20.size_apply]
  have hText : Bytes.slice (encrypt key nonce message) 0 message.size =
      ChaCha20.apply key nonce 1 message := by
    refine Bytes.eq_of_toList ?_
    rw [Bytes.toList_slice, encrypt, Bytes.toList_append, List.drop_zero, ← hLength, List.take_left]
  have hTag : Bytes.drop (encrypt key nonce message) message.size =
      tagOf key nonce (ChaCha20.apply key nonce 1 message) := by
    refine Bytes.eq_of_toList ?_
    rw [Bytes.toList_drop, encrypt, Bytes.toList_append, ← hLength, List.drop_left]
  rw [decrypt?, if_neg (by omega)]
  simp only [hSize, Nat.add_sub_cancel, hText, hTag, if_true, ChaCha20.apply_apply]

end Sealed

end VaultSync.Crypto
