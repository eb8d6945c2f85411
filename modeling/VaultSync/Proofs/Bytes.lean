import VaultSync.Proofs.Keys.Fingerprint

/-! Byte strings as lists, and the parts of them. -/
namespace VaultSync.Bytes

theorem toList_toByteArray (bytes : List UInt8) : bytes.toByteArray.toList = bytes := by
  rw [toList_eq]
  simp

theorem toByteArray_toList (b : ByteArray) : b.toList.toByteArray = b := by
  rw [toList_eq]
  exact ByteArray.ext (by simp)

theorem eq_of_toList {a b : ByteArray} (h : a.toList = b.toList) : a = b := by
  rw [← toByteArray_toList a, h, toByteArray_toList]

theorem toList_append (a b : ByteArray) : (a ++ b).toList = a.toList ++ b.toList := by
  simp [toList_eq]

theorem toList_extract (b : ByteArray) (start stop : Nat) :
    (b.extract start stop).toList = (b.toList.drop start).take (stop - start) := by
  simp [toList_eq, List.extract_eq_take_drop]

theorem toList_slice (b : ByteArray) (start length : Nat) :
    (slice b start length).toList = (b.toList.drop start).take length := by
  rw [slice, toList_extract, Nat.add_sub_cancel_left]

theorem toList_drop (b : ByteArray) (start : Nat) : (drop b start).toList = b.toList.drop start := by
  rw [drop, toList_extract, List.take_of_length_le (Nat.le_of_eq (by rw [List.length_drop, length_toList]))]

/-- Bytes are their front and their rest. -/
theorem slice_append_drop (b : ByteArray) (n : Nat) : slice b 0 n ++ drop b n = b := by
  refine eq_of_toList ?_
  rw [toList_append, toList_slice, toList_drop, List.drop_zero, List.take_append_drop]

theorem slice_append (a b : ByteArray) : slice (a ++ b) 0 a.size = a := by
  refine eq_of_toList ?_
  rw [toList_slice, toList_append, List.drop_zero, ← length_toList, List.take_left]

/-- What stands between two parts is cut out as it is. -/
theorem slice_append_middle (a b c : ByteArray) : slice (a ++ b ++ c) a.size b.size = b := by
  refine eq_of_toList ?_
  rw [toList_slice, toList_append, toList_append, List.append_assoc, ← length_toList, ← length_toList,
    List.drop_left, List.take_left]

theorem drop_append (a b : ByteArray) : drop (a ++ b) a.size = b := by
  refine eq_of_toList ?_
  rw [toList_drop, toList_append, ← length_toList, List.drop_left]

theorem size_slice {b : ByteArray} {n : Nat} (h : n ≤ b.size) : (slice b 0 n).size = n := by
  rw [← length_toList, toList_slice, List.drop_zero, List.length_take, length_toList]
  omega

theorem size_drop (b : ByteArray) (n : Nat) : (drop b n).size = b.size - n := by
  rw [← length_toList, toList_drop, List.length_drop, length_toList]

end VaultSync.Bytes
