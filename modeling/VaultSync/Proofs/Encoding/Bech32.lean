import Mathlib.Data.List.GetD
import Mathlib.Data.List.Induction
import Mathlib.Data.Nat.Bitwise
import VaultSync.Encoding.Bech32
import VaultSync.Proofs.Keys.Fingerprint

/-! Bech32 texts give their data back. Groups of bits can be taken apart and put together in another
width, and the checksum is linear, so the last six digits can make it what it has to be. -/
namespace VaultSync.Bech32

/-! ### Groups of bits -/

/-- The bits of a group, the most significant first. -/
def bitsOf (width group : Nat) : List Bool :=
  (List.range width).map fun i => group.testBit (width - 1 - i)

/-- The number that bits stand for, the most significant first. -/
def value (bits : List Bool) : Nat :=
  bits.foldl (fun n bit => 2 * n + if bit then 1 else 0) 0

/-- Bits in groups, the last one filled up with zeros. -/
def pack (width : Nat) (bits : List Bool) : List Nat :=
  (List.range ((bits.length + width - 1) / width)).map fun k =>
    value ((List.range width).map fun i => bits.getD (k * width + i) false)

theorem regroup_eq (fromBits toBits : Nat) (groups : List Nat) :
    regroup fromBits toBits groups = pack toBits (groups.flatMap (bitsOf fromBits)) := by
  simp only [regroup, pack, value, List.foldl_map]
  rfl

theorem length_bitsOf (width group : Nat) : (bitsOf width group).length = width := by
  simp [bitsOf]

/-- One bit more is the lowest one. -/
theorem bitsOf_succ (width group : Nat) :
    bitsOf (width + 1) group = bitsOf width (group / 2) ++ [decide (group % 2 = 1)] := by
  rw [bitsOf, List.range_succ, List.map_append, bitsOf]
  congr 1
  · refine List.map_congr_left fun i hi => ?_
    have hIndex : width + 1 - 1 - i = (width - 1 - i) + 1 := by
      have := List.mem_range.1 hi
      omega
    rw [hIndex, Nat.testBit_succ]
  · simp [Nat.testBit_zero]

theorem value_concat (bits : List Bool) (bit : Bool) :
    value (bits ++ [bit]) = 2 * value bits + if bit then 1 else 0 := by
  simp [value]

/-- The bits of a group stand for the group. -/
theorem value_bitsOf {width group : Nat} (h : group < 2 ^ width) : value (bitsOf width group) = group := by
  induction width generalizing group with
  | zero =>
      obtain rfl : group = 0 := by simpa using h
      rfl
  | succ width ih =>
      rw [bitsOf_succ, value_concat, ih (by rw [Nat.pow_succ] at h; omega)]
      rcases Nat.mod_two_eq_zero_or_one group with hBit | hBit <;> simp [hBit] <;> omega

/-- A number has the bits that it was made of. -/
theorem bitsOf_value (bits : List Bool) : bitsOf bits.length (value bits) = bits := by
  induction bits using List.reverseRecOn with
  | nil => rfl
  | append_singleton bits bit ih =>
      have hHalf : value (bits ++ [bit]) / 2 = value bits := by
        rw [value_concat]
        cases bit
        · simp
        · rw [if_pos rfl]
          omega
      have hLast : decide (value (bits ++ [bit]) % 2 = 1) = bit := by
        rw [value_concat]
        cases bit <;> simp
      rw [List.length_append, List.length_singleton, bitsOf_succ, hHalf, hLast, ih]

/-- A number of so many bits stays below the power of two. -/
theorem value_lt (bits : List Bool) : value bits < 2 ^ bits.length := by
  induction bits using List.reverseRecOn with
  | nil => decide
  | append_singleton bits bit ih =>
      rw [value_concat, List.length_append, List.length_singleton, Nat.pow_succ]
      split <;> omega

variable {width : Nat}

theorem lt_of_mem_pack {bits : List Bool} {group : Nat} (h : group ∈ pack width bits) :
    group < 2 ^ width := by
  obtain ⟨k, -, rfl⟩ := List.mem_map.1 h
  simpa using value_lt ((List.range width).map fun i => bits.getD (k * width + i) false)

theorem pack_nil (hWidth : 0 < width) : pack width [] = [] := by
  have hNone : (0 + width - 1) / width = 0 := Nat.div_eq_of_lt (by omega)
  rw [pack, List.length_nil, hNone, List.range_zero, List.map_nil]

/-- A full group in front is packed by itself. -/
theorem pack_append (hWidth : 0 < width) {chunk : List Bool} (hChunk : chunk.length = width)
    (rest : List Bool) : pack width (chunk ++ rest) = value chunk :: pack width rest := by
  have hCount : ((chunk ++ rest).length + width - 1) / width =
      (rest.length + width - 1) / width + 1 := by
    rw [List.length_append, hChunk, show width + rest.length + width - 1 =
      (rest.length + width - 1) + width by omega, Nat.add_div_right _ hWidth]
  rw [pack, hCount, List.range_succ_eq_map, List.map_cons, List.map_map, pack]
  congr 1
  · congr 1
    refine List.ext_getElem (by simp [hChunk]) fun i hi _ => ?_
    have hIndex : i < chunk.length := by simpa [hChunk] using hi
    simp [List.getElem?_append_left, hIndex]
  · refine List.map_congr_left fun k _ => ?_
    refine congrArg value (List.map_congr_left fun i _ => ?_)
    have hIndex : (k + 1) * width + i = chunk.length + (k * width + i) := by
      rw [hChunk, Nat.succ_mul]
      omega
    rw [Nat.succ_eq_add_one, hIndex, List.getD_append_right _ _ _ _ (by omega), Nat.add_sub_cancel_left]

/-- Less than a group is filled up. -/
theorem pack_short {bits : List Bool} (hNonempty : bits ≠ []) (hShort : bits.length ≤ width) :
    pack width bits = [value (bits ++ List.replicate (width - bits.length) false)] := by
  have hLength : 0 < bits.length := List.length_pos_iff.2 hNonempty
  have hCount : (bits.length + width - 1) / width = 1 :=
    Nat.div_eq_of_lt_le (by omega) (by omega)
  rw [pack, hCount, List.range_one, List.map_singleton]
  congr 2
  refine List.ext_getElem (by simp; omega) fun i hi _ => ?_
  by_cases hIndex : i < bits.length
  · simp [hIndex]
  · simp [List.getElem_append, hIndex]

/-- Packed bits are the bits themselves, filled up with less than a group of zeros. -/
theorem flatMap_bitsOf_pack (hWidth : 0 < width) (bits : List Bool) :
    ∃ fill < width, (pack width bits).flatMap (bitsOf width) = bits ++ List.replicate fill false := by
  induction hLength : bits.length using Nat.strongRecOn generalizing bits with
  | _ length ih =>
      by_cases hFull : width ≤ bits.length
      · have hChunk : (bits.take width).length = width := by simp [hFull]
        obtain ⟨fill, hFill, hRest⟩ := ih (bits.drop width).length
          (by rw [List.length_drop]; omega) _ rfl
        refine ⟨fill, hFill, ?_⟩
        have hBits : bitsOf width (value (bits.take width)) = bits.take width := by
          have := bitsOf_value (bits.take width)
          rwa [hChunk] at this
        conv_lhs => rw [← List.take_append_drop width bits]
        rw [pack_append hWidth hChunk, List.flatMap_cons, hRest, hBits, ← List.append_assoc,
          List.take_append_drop]
      · by_cases hNonempty : bits = []
        · subst hNonempty
          exact ⟨0, hWidth, by rw [pack_nil hWidth]; rfl⟩
        · have hLength := List.length_pos_iff.2 hNonempty
          refine ⟨width - bits.length, by omega, ?_⟩
          have hBits := bitsOf_value (bits ++ List.replicate (width - bits.length) false)
          rw [List.length_append, List.length_replicate, Nat.add_sub_cancel' (by omega)] at hBits
          rw [pack_short hNonempty (by omega), List.flatMap_singleton, hBits]

/-- Groups of bits are packed as they are, and what follows them on its own. -/
theorem pack_flatMap_bitsOf (hWidth : 0 < width) {groups : List Nat} (h : ∀ g ∈ groups, g < 2 ^ width)
    (rest : List Bool) :
    pack width (groups.flatMap (bitsOf width) ++ rest) = groups ++ pack width rest := by
  induction groups with
  | nil => rfl
  | cons g groups ih =>
      rw [List.flatMap_cons, List.append_assoc, pack_append hWidth (length_bitsOf width g),
        value_bitsOf (h g List.mem_cons_self), ih fun g hg => h g (List.mem_cons_of_mem _ hg),
        List.cons_append]

theorem value_replicate_false (n : Nat) : value (List.replicate n false) = 0 := by
  induction n with
  | zero => rfl
  | succ n ih => rw [List.replicate_succ', value_concat, ih]; rfl

/-- Bytes that were regrouped into digits come back from the digits. -/
theorem toBytes?_regroup (bytes : ByteArray) :
    toBytes? (regroup 8 5 (bytes.toList.map UInt8.toNat)) = some bytes := by
  let groups := bytes.toList.map UInt8.toNat
  have hGroups : ∀ g ∈ groups, g < 2 ^ 8 := by
    intro g hg
    obtain ⟨byte, -, rfl⟩ := List.mem_map.1 hg
    exact byte.toNat_lt
  obtain ⟨fill, hFill, hBits⟩ := flatMap_bitsOf_pack (show 0 < 5 by decide) (groups.flatMap (bitsOf 8))
  have hLength : (pack 5 (groups.flatMap (bitsOf 8))).length * 5 = groups.length * 8 + fill := by
    simpa [length_bitsOf, List.length_flatMap, List.map_const', Nat.mul_comm] using
      congrArg List.length hBits
  -- what is left over after the last whole byte are the bits that were filled in
  have hZeros : ∀ n ∈ pack 8 (List.replicate fill false), n = 0 := by
    by_cases hNone : fill = 0
    · subst hNone
      simp [pack]
    · rw [pack_short (by simp [hNone]) (by rw [List.length_replicate]; omega), List.replicate_append_replicate,
        value_replicate_false]
      simp
  have hPacked : regroup 5 8 (regroup 8 5 groups) = groups ++ pack 8 (List.replicate fill false) := by
    rw [regroup_eq, regroup_eq, hBits, pack_flatMap_bitsOf (by decide) hGroups]
  have hSpare (n : Nat) : (n * 8 + fill) % 8 = fill := by omega
  have hWhole (n : Nat) : (n * 8 + fill) / 8 = n := by omega
  rw [toBytes?, hPacked, regroup_eq, hLength, hSpare, hWhole, if_neg (Nat.not_le.2 hFill),
    List.drop_left, List.take_left, if_neg (by simpa using hZeros)]
  have hBack : groups.map UInt8.ofNat = bytes.data.toList := by
    simp [groups, Bytes.toList_eq, Function.comp_def]
  rw [hBack]
  congr 1
  exact ByteArray.ext (by simp)

/-! ### The checksum -/

/-- Taking in a digit is linear in the state and the digit. -/
theorem checkStep_xor (a b d e : Nat) :
    checkStep (a ^^^ b) (d ^^^ e) = checkStep a d ^^^ checkStep b e := by
  have hFold (p q : Nat → Bool) (g : Nat → Nat) (indices : List Nat) (x y : Nat) :
      indices.foldl (fun c i => if (p i ^^ q i) then c ^^^ g i else c) (x ^^^ y) =
        indices.foldl (fun c i => if p i then c ^^^ g i else c) x ^^^
          indices.foldl (fun c i => if q i then c ^^^ g i else c) y := by
    induction indices generalizing x y with
    | nil => rfl
    | cons i indices ih =>
        simp only [List.foldl_cons]
        rw [← ih]
        congr 1
        cases p i <;> cases q i
        · rfl
        · simp only [Bool.false_xor, Bool.false_eq_true, if_true, if_false]
          ac_rfl
        · simp only [Bool.xor_false, Bool.false_eq_true, if_true, if_false]
          ac_rfl
        · have hTwice : x ^^^ g i ^^^ (y ^^^ g i) = x ^^^ y ^^^ (g i ^^^ g i) := by ac_rfl
          simp [hTwice]
  have hNext : (((a ^^^ b) &&& 0x1ffffff) <<< 5) ^^^ (d ^^^ e) =
      (((a &&& 0x1ffffff) <<< 5) ^^^ d) ^^^ (((b &&& 0x1ffffff) <<< 5) ^^^ e) := by
    rw [Nat.and_xor_distrib_right, Nat.shiftLeft_xor_distrib]
    ac_rfl
  simp only [checkStep, Nat.shiftRight_xor_distrib, Nat.testBit_xor, hNext]
  exact hFold _ _ _ _ _ _

/-- The check is linear: digits combine as the states do. -/
theorem foldl_checkStep_xor {ds es : List Nat} (h : ds.length = es.length) (a b : Nat) :
    (List.zipWith (· ^^^ ·) ds es).foldl checkStep (a ^^^ b) =
      ds.foldl checkStep a ^^^ es.foldl checkStep b := by
  induction ds generalizing es a b with
  | nil =>
      obtain rfl : es = [] := List.length_eq_zero_iff.1 h.symm
      rfl
  | cons d ds ih =>
      cases es with
      | nil => cases h
      | cons e es =>
          simp only [List.zipWith_cons_cons, List.foldl_cons, checkStep_xor]
          exact ih (Nat.succ.inj h) _ _

/-- A state of the check fits in thirty bits. -/
theorem checkStep_lt {digit : Nat} (h : digit < 2 ^ 30) (state : Nat) : checkStep state digit < 2 ^ 30 := by
  have hFold (p : Nat → Bool) (indices : List Nat) {x : Nat} (hx : x < 2 ^ 30) :
      indices.foldl (fun c i => if p i then c ^^^ generators.getD i 0 else c) x < 2 ^ 30 := by
    have hGenerator : ∀ i, generators.getD i 0 < 2 ^ 30 := by
      intro i
      by_cases hi : i < generators.length
      · have : ∀ i < generators.length, generators.getD i 0 < 2 ^ 30 := by decide
        exact this i hi
      · rw [List.getD_eq_default _ _ (Nat.not_lt.1 hi)]
        decide
    induction indices generalizing x with
    | nil => exact hx
    | cons i indices ih =>
        rw [List.foldl_cons]
        refine ih ?_
        split
        · exact Nat.xor_lt_two_pow hx (hGenerator i)
        · exact hx
  refine hFold _ _ (Nat.xor_lt_two_pow ?_ h)
  have hMask : state &&& 0x1ffffff < 2 ^ 25 :=
    Nat.lt_of_le_of_lt Nat.and_le_right (by decide)
  rw [Nat.shiftLeft_eq]
  omega

/-- A short state only moves up when a digit is taken in. -/
theorem checkStep_short {n : Nat} (h : n < 2 ^ 30) : checkStep (n / 32) (n % 32) = n := by
  have hTop : (n / 32) >>> 25 = 0 := by
    rw [Nat.shiftRight_eq_div_pow]
    omega
  have hMask : n / 32 &&& 0x1ffffff = n / 32 := by
    rw [show (0x1ffffff : Nat) = 2 ^ 25 - 1 from rfl, Nat.and_two_pow_sub_one_eq_mod]
    omega
  have hJoin : (n / 32) <<< 5 ^^^ n % 32 = n := by
    refine Nat.eq_of_testBit_eq fun i => ?_
    have hSplit := Nat.testBit_two_pow_mul_add (n / 32) (Nat.mod_lt n (show 0 < 2 ^ 5 by decide)) i
    rw [Nat.testBit_xor, Nat.testBit_shiftLeft]
    rw [show 2 ^ 5 * (n / 32) + n % 2 ^ 5 = n by omega] at hSplit
    rw [hSplit]
    by_cases hLow : i < 5
    · simp [hLow, Nat.not_le.2 hLow]
    · have hHigh : (n % 32).testBit i = false :=
        Nat.testBit_lt_two_pow (Nat.lt_of_lt_of_le (Nat.mod_lt n (by decide))
          (Nat.pow_le_pow_right (n := 2) (by decide) (show 5 ≤ i by omega)))
      simp [hLow, hHigh, Nat.not_lt.1 hLow]
  simp only [checkStep, hTop, hMask, hJoin, Nat.zero_testBit, Bool.false_eq_true, if_false]
  rfl

/-- The digits of a checksum. -/
def sumDigits (sum : Nat) : List Nat :=
  (List.range 6).map fun i => (sum >>> (5 * (5 - i))) % 32

/-- The six digits of a checksum bring the check from zero to the checksum. -/
theorem foldl_sumDigits {sum : Nat} (h : sum < 2 ^ 30) : (sumDigits sum).foldl checkStep 0 = sum := by
  have hStep (n m : Nat) (hNext : n = m + 5) :
      checkStep (sum >>> n) ((sum >>> m) % 32) = sum >>> m := by
    have hShift : sum >>> n = (sum >>> m) / 32 := by
      rw [hNext, Nat.shiftRight_add, Nat.shiftRight_eq_div_pow _ 5]
    rw [hShift]
    exact checkStep_short (Nat.lt_of_le_of_lt (Nat.shiftRight_le _ _) h)
  have hNone : sum >>> 30 = 0 := by
    rw [Nat.shiftRight_eq_div_pow]
    omega
  have hDigits : sumDigits sum = [(sum >>> 25) % 32, (sum >>> 20) % 32, (sum >>> 15) % 32,
      (sum >>> 10) % 32, (sum >>> 5) % 32, sum % 32] := rfl
  have hFirst : checkStep 0 ((sum >>> 25) % 32) = sum >>> 25 := by
    simpa only [hNone] using hStep 30 25 rfl
  have hLast : checkStep (sum >>> 5) (sum % 32) = sum := hStep 5 0 rfl
  rw [hDigits]
  simp only [List.foldl_cons, List.foldl_nil]
  rw [hFirst, hStep 25 20 rfl, hStep 20 15 rfl, hStep 15 10 rfl, hStep 10 5 rfl, hLast]

/-- With the digits of its checksum behind it, a text checks. -/
theorem check_sumDigits (digits : List Nat) :
    check (digits ++ sumDigits (check (digits ++ List.replicate 6 0) ^^^ 1)) = 1 := by
  have hLast : check (digits ++ List.replicate 6 0) < 2 ^ 30 := by
    rw [check, List.replicate_succ', ← List.append_assoc, List.foldl_append, List.foldl_cons,
      List.foldl_nil]
    exact checkStep_lt (by decide) _
  have hSum : check (digits ++ List.replicate 6 0) ^^^ 1 < 2 ^ 30 :=
    Nat.xor_lt_two_pow hLast (by decide)
  have hLength : (List.replicate 6 0).length =
      (sumDigits (check (digits ++ List.replicate 6 0) ^^^ 1)).length := by simp [sumDigits]
  have hLinear := foldl_checkStep_xor hLength (check digits) 0
  rw [foldl_sumDigits hSum, Nat.xor_zero] at hLinear
  have hZeros (es : List Nat) (n : Nat) (h : es.length = n) :
      List.zipWith (· ^^^ ·) (List.replicate n 0) es = es := by
    subst h
    induction es with
    | nil => rfl
    | cons e es ih => simp [List.replicate_succ, ih]
  rw [hZeros _ 6 (by simp [sumDigits])] at hLinear
  have hWhole : (List.replicate 6 0).foldl checkStep (check digits) =
      check (digits ++ List.replicate 6 0) := by
    rw [check, check, List.foldl_append]
  rw [check, List.foldl_append]
  rw [hWhole] at hLinear
  rw [show digits.foldl checkStep 1 = check digits from rfl, hLinear, ← Nat.xor_assoc, Nat.xor_self,
    Nat.zero_xor]

/-! ### Texts -/

/-- A name that encoding leaves as it is: it is neither empty nor too long and has no capitals. -/
structure IsPlainName (name : String) : Prop where
  nonempty : name.toList ≠ []
  short : name.toList.length ≤ maxNameLength
  visible : ∀ c ∈ name.toList, 33 ≤ c.toNat ∧ c.toNat ≤ 126
  small : ∀ c ∈ name.toList, ¬ ('A' ≤ c ∧ c ≤ 'Z')

/-- A digit is found again by its character, which is neither a capital nor the separator. -/
theorem charOf_digit {digit : Nat} (h : digit < 32) :
    valueOf? (charOf digit) = some digit ∧ charOf digit ≠ '1' ∧
      ¬ ('A' ≤ charOf digit ∧ charOf digit ≤ 'Z') := by
  have : ∀ digit < 32, valueOf? (charOf digit) = some digit ∧ charOf digit ≠ '1' ∧
      ¬ ('A' ≤ charOf digit ∧ charOf digit ≤ 'Z') := by decide
  exact this digit h

/-- A text with a plain name is visible and has no capitals. -/
theorem plain_of_mem {name : String} (hName : IsPlainName name) {digits : List Nat}
    (hDigits : ∀ d ∈ digits, d < 32) {c : Char} (h : c ∈ name.toList ++ '1' :: digits.map charOf) :
    (33 ≤ c.toNat ∧ c.toNat ≤ 126) ∧ ¬ ('A' ≤ c ∧ c ≤ 'Z') := by
  rcases List.mem_append.1 h with h | h
  · exact ⟨hName.visible c h, hName.small c h⟩
  · rcases List.mem_cons.1 h with rfl | h
    · decide
    · have hVisible : ∀ d < 32, 33 ≤ (charOf d).toNat ∧ (charOf d).toNat ≤ 126 := by decide
      obtain ⟨d, hd, rfl⟩ := List.mem_map.1 h
      exact ⟨hVisible d (hDigits d hd), (charOf_digit (hDigits d hd)).2.2⟩

theorem mapM_valueOf? {digits : List Nat} (h : ∀ d ∈ digits, d < 32) :
    (digits.map charOf).mapM valueOf? = some digits := by
  induction digits with
  | nil => rfl
  | cons d digits ih =>
      rw [List.map_cons, List.mapM_cons, (charOf_digit (h d List.mem_cons_self)).1,
        ih fun e he => h e (List.mem_cons_of_mem _ he)]
      rfl

/-- The separator is no digit, so the last one ends the name. -/
theorem separator_notMem {digits : List Nat} (h : ∀ d ∈ digits, d < 32) : '1' ∉ digits.map charOf := by
  intro hMem
  obtain ⟨d, hd, hChar⟩ := List.mem_map.1 hMem
  exact (charOf_digit (h d hd)).2.1 hChar

/-- A text is taken apart at its last separator. -/
theorem split_at_last (front : List Char) {tail : List Char} (h : '1' ∉ tail) :
    (front ++ '1' :: tail).reverse.takeWhile (· ≠ '1') = tail.reverse ∧
      ((front ++ '1' :: tail).reverse.drop (tail.reverse.length + 1)).reverse = front := by
  have hReverse : (front ++ '1' :: tail).reverse = tail.reverse ++ '1' :: front.reverse := by simp
  rw [hReverse]
  constructor
  · rw [List.takeWhile_append_of_pos]
    · simp
    · intro c hc
      refine decide_eq_true fun hEq => h ?_
      rwa [hEq, List.mem_reverse] at hc
  · rw [← List.drop_drop, List.drop_left]
    simp

theorem dropLast_sum (data : List Nat) {sum : List Nat} (h : sum.length = 6) :
    (data ++ sum).dropLast.dropLast.dropLast.dropLast.dropLast.dropLast = data := by
  match sum, h with
  | [a, b, c, d, e, f], _ => simp [List.dropLast_cons_of_ne_nil]

/-- A text with a plain name, the separator and digits that check gives its name and its data. -/
theorem decode?_of_check {name : String} (hName : IsPlainName name) {data sum : List Nat}
    (hData : ∀ d ∈ data ++ sum, d < 32) (hSum : sum.length = 6)
    (hCheck : check (expand name.toList ++ (data ++ sum)) = 1) :
    decode? (String.ofList (name.toList ++ '1' :: (data ++ sum).map charOf)) = some (name, data) := by
  let digits := data ++ sum
  let cs := name.toList ++ '1' :: digits.map charOf
  have hSmall : ∀ c ∈ cs, ¬ ('A' ≤ c ∧ c ≤ 'Z') := fun c hc => (plain_of_mem hName hData hc).2
  have hNoUpper : (cs.any fun c => 'A' ≤ c && c ≤ 'Z') = false := by
    rw [List.any_eq_false]
    intro c hc
    simpa using hSmall c hc
  have hLower : cs.map Text.lowerAscii = cs := by
    refine (List.map_congr_left fun c hc => ?_).trans (List.map_id cs)
    rw [Text.lowerAscii, if_neg (hSmall c hc), id]
  obtain ⟨hTail, hFront⟩ : cs.reverse.takeWhile (· ≠ '1') = (digits.map charOf).reverse ∧
      (cs.reverse.drop ((digits.map charOf).reverse.length + 1)).reverse = name.toList :=
    split_at_last name.toList (separator_notMem hData)
  have hLengths : (digits.map charOf).reverse.length ≠ cs.length := by
    simp [cs]
    omega
  have hSizes : ¬ (name.toList.isEmpty = true ∨ maxNameLength < name.toList.length ∨
      (digits.map charOf).reverse.length < 6) := by
    have := hName.short
    simp [hName.nonempty, digits, hSum]
    omega
  have hVisible : (name.toList.any fun c => decide (c.toNat < 33) || decide (126 < c.toNat)) = false := by
    rw [List.any_eq_false]
    intro c hc
    have := hName.visible c hc
    simp
    omega
  have hDrop : digits.dropLast.dropLast.dropLast.dropLast.dropLast.dropLast = data := dropLast_sum data hSum
  have hDigits : (digits.map charOf).mapM valueOf? = some digits := mapM_valueOf? hData
  have hChecked : check (expand name.toList ++ digits) = 1 := hCheck
  change decode? (String.ofList cs) = some (name, data)
  rw [decode?]
  simp only [String.toList_ofList, hNoUpper, hLower, hTail, hFront, Bool.and_false, Bool.false_eq_true,
    if_false, hLengths, hSizes, hVisible, List.reverse_reverse, hDigits, bind, Option.bind, hChecked,
    if_true, hDrop, pure, String.ofList_toList]

/-- An encoded text is its name, the separator, the regrouped bytes and six digits that make the check come out.
-/
theorem encode_digits (name : String) (bytes : ByteArray) :
    ∃ sum : List Nat, sum.length = 6 ∧
      (∀ d ∈ regroup 8 5 (bytes.toList.map UInt8.toNat) ++ sum, d < 32) ∧
      check (expand name.toList ++ (regroup 8 5 (bytes.toList.map UInt8.toNat) ++ sum)) = 1 ∧
      encode name bytes = String.ofList
        (name.toList ++ '1' :: (regroup 8 5 (bytes.toList.map UInt8.toNat) ++ sum).map charOf) := by
  have hCheck := check_sumDigits (expand name.toList ++ regroup 8 5 (bytes.toList.map UInt8.toNat))
  rw [List.append_assoc (expand _) _ (sumDigits _)] at hCheck
  refine ⟨_, by simp [sumDigits], ?_, hCheck, rfl⟩
  intro d hd
  rcases List.mem_append.1 hd with hd | hd
  · rw [regroup_eq] at hd
    exact lt_of_mem_pack hd
  · obtain ⟨i, -, rfl⟩ := List.mem_map.1 hd
    exact Nat.mod_lt _ (by decide)

/-- Encoded bytes are decoded to their name and digits. -/
theorem decode?_encode {name : String} (hName : IsPlainName name) (bytes : ByteArray) :
    decode? (encode name bytes) = some (name, regroup 8 5 (bytes.toList.map UInt8.toNat)) := by
  obtain ⟨sum, hSum, hDigits, hCheck, hEncode⟩ := encode_digits name bytes
  rw [hEncode, decode?_of_check hName hDigits hSum hCheck]

theorem name_prefix_encode (name : String) (bytes : ByteArray) :
    name.toList <+: (encode name bytes).toList := by
  rw [encode, String.toList_ofList]
  exact List.prefix_append _ _

theorem plain_of_mem_encode {name : String} (hName : IsPlainName name) {bytes : ByteArray} {c : Char}
    (h : c ∈ (encode name bytes).toList) :
    (33 ≤ c.toNat ∧ c.toNat ≤ 126) ∧ ¬ ('A' ≤ c ∧ c ≤ 'Z') := by
  obtain ⟨sum, -, hDigits, -, hEncode⟩ := encode_digits name bytes
  rw [hEncode, String.toList_ofList] at h
  exact plain_of_mem hName hDigits h

/-! ### Capitals -/

/-- A character is a small letter, and read back from its capital, or is left as it is. -/
theorem upperAscii_cases (c : Char) :
    (('a' ≤ c ∧ c ≤ 'z') ∧ Text.lowerAscii (Text.upperAscii c) = c ∧
      ('A' ≤ Text.upperAscii c ∧ Text.upperAscii c ≤ 'Z')) ∨
    (¬ ('a' ≤ c ∧ c ≤ 'z') ∧ Text.upperAscii c = c) := by
  by_cases hSmall : 'a' ≤ c ∧ c ≤ 'z'
  · refine .inl ⟨hSmall, ?_⟩
    have hAll : ∀ n < 123, 97 ≤ n → Text.lowerAscii (Text.upperAscii (Char.ofNat n)) = Char.ofNat n ∧
        ('A' ≤ Text.upperAscii (Char.ofNat n) ∧ Text.upperAscii (Char.ofNat n) ≤ 'Z') := by decide
    have hRange : 97 ≤ c.toNat ∧ c.toNat < 123 :=
      ⟨hSmall.1, Nat.lt_succ_of_le hSmall.2⟩
    have := hAll c.toNat hRange.2 hRange.1
    rwa [Char.ofNat_toNat] at this
  · exact .inr ⟨hSmall, if_neg hSmall⟩

/-- A text without capitals means the same when it is written in capitals. -/
theorem decode?_upper {cs : List Char} (h : ∀ c ∈ cs, ¬ ('A' ≤ c ∧ c ≤ 'Z')) :
    decode? (String.ofList (cs.map Text.upperAscii)) = decode? (String.ofList cs) := by
  have hLower : (cs.map Text.upperAscii).map Text.lowerAscii = cs.map Text.lowerAscii := by
    rw [List.map_map]
    refine List.map_congr_left fun c hc => ?_
    rcases upperAscii_cases c with ⟨-, hBack, -⟩ | ⟨-, hSame⟩
    · exact hBack.trans (if_neg (h c hc)).symm
    · exact congrArg Text.lowerAscii hSame
  have hNoUpper : (cs.any fun c => 'A' ≤ c && c ≤ 'Z') = false := by
    rw [List.any_eq_false]
    intro c hc
    simpa using h c hc
  have hNoLower : ((cs.map Text.upperAscii).any fun c => 'a' ≤ c && c ≤ 'z') = false := by
    rw [List.any_eq_false]
    intro d hd
    obtain ⟨c, hc, rfl⟩ := List.mem_map.1 hd
    rcases upperAscii_cases c with ⟨-, -, hUpper⟩ | ⟨hOther, hSame⟩
    · have hBelow : ¬ 'a' ≤ Text.upperAscii c := fun hAbove =>
        absurd (Char.le_trans hAbove hUpper.2) (by decide)
      simp [hBelow]
    · rw [hSame]
      simpa using hOther
  simp only [decode?, String.toList_ofList, hLower, hNoUpper, hNoLower, Bool.and_false, Bool.false_and]

theorem visible_upperAscii {c : Char} (h : 33 ≤ c.toNat ∧ c.toNat ≤ 126) :
    33 ≤ (Text.upperAscii c).toNat ∧ (Text.upperAscii c).toNat ≤ 126 := by
  rcases upperAscii_cases c with ⟨-, -, hUpper⟩ | ⟨-, hSame⟩
  · exact ⟨Nat.le_trans (by decide) hUpper.1, Nat.le_trans hUpper.2 (by decide)⟩
  · rwa [hSame]

end VaultSync.Bech32
