import FlexRaft.StripeFormat

namespace FlexRaft

variable {n m : Nat}

theorem map_toDecimal (n : Nat) : (toDecimal n).map (fun b => Char.ofNat b.toNat) = Nat.toDigits 10 n := by
  have back : ∀ c ∈ Nat.toDigits 10 n, Char.ofNat (UInt8.ofNat c.toNat).toNat = c := by
    intro c member
    have digit : c.isDigit = true := Nat.isDigit_of_mem_toDigits (by decide) (by decide) member
    have small : c.toNat < 256 := by
      have upper : c.toNat ≤ 57 := (Char.isDigit_iff_toNat.mp digit).2
      omega
    rw [UInt8.toNat_ofNat', Nat.mod_eq_of_lt small, Char.ofNat_toNat]
  rw [toDecimal, List.map_map]
  exact (List.map_congr_left back).trans (List.map_id _)

theorem isDigit_of_mem_toDecimal {b : UInt8} (member : b ∈ toDecimal n) : (Char.ofNat b.toNat).isDigit = true := by
  refine Nat.isDigit_of_mem_toDigits (by decide) (by decide) (?_ : _ ∈ Nat.toDigits 10 n)
  rw [← map_toDecimal]
  exact List.mem_map_of_mem member

theorem toDecimal_append_inj {rest rest' : Slice}
    (same : toDecimal n ++ (ascii "/" ++ rest) = toDecimal m ++ (ascii "/" ++ rest')) : toDecimal n = toDecimal m ∧ rest = rest' := by
  have front (n : Nat) (rest : Slice) : (toDecimal n ++ (ascii "/" ++ rest)).takeWhile (· ≠ 47) = toDecimal n := by
    rw [List.takeWhile_append_of_pos, show ascii "/" ++ rest = 47 :: rest from rfl]
    · simp
    · intro b member
      have digit := isDigit_of_mem_toDecimal member
      refine decide_eq_true fun slash => ?_
      rw [slash] at digit
      revert digit
      decide
  have first : toDecimal n = toDecimal m := by rw [← front n rest, same, front]
  rw [first] at same
  exact ⟨first, List.append_cancel_left (List.append_cancel_left same)⟩

theorem toDecimal_inj (same : toDecimal n = toDecimal m) : n = m := by
  have digits : Nat.toDigits 10 n = Nat.toDigits 10 m := by rw [← map_toDecimal, same, map_toDecimal]
  rw [← Nat.ofDigitChars_ten_toDigits (n := n), digits, Nat.ofDigitChars_ten_toDigits]

theorem toDecimal_ne_minus (n : Nat) (rest : Slice) : toDecimal n ≠ ascii "-" ++ rest := by
  intro same
  have digit := isDigit_of_mem_toDecimal (same ▸ List.mem_append_left rest List.mem_cons_self)
  revert digit
  decide

theorem intToDecimal_inj (bound : n < UInt32.size) (bound' : m < UInt32.size)
    (same : intToDecimal n = intToDecimal m) : n = m := by
  unfold UInt32.size at bound bound'
  unfold intToDecimal at same
  split at same
  · split at same
    · exact toDecimal_inj same
    · exact absurd same (toDecimal_ne_minus _ _)
  · split at same
    · exact absurd same.symm (toDecimal_ne_minus _ _)
    · have negated := toDecimal_inj (List.append_cancel_left same)
      omega

section Keys

variable {groupId : Nat} {userKey userKey' : Slice} {stripeId fragId fragId' groupId' : Nat}

theorem fragDbKey_inj (bound : fragId < UInt32.size) (bound' : fragId' < UInt32.size)
    (same : fragDbKey groupId stripeId fragId = fragDbKey groupId stripeId fragId') : fragId = fragId' :=
  intToDecimal_inj bound bound' (List.append_cancel_left same)

theorem eq_of_fragDbKey_eq {stripeId' : Nat} (bound : fragId < UInt32.size)
    (bound' : fragId' < UInt32.size) (same : fragDbKey groupId stripeId fragId = fragDbKey groupId' stripeId' fragId') :
    groupId = groupId' ∧ stripeId = stripeId' ∧ fragId = fragId' := by
  simp only [fragDbKey, List.append_assoc, List.append_cancel_left_eq] at same
  obtain ⟨group, same⟩ := toDecimal_append_inj same
  obtain ⟨stripe, same⟩ := toDecimal_append_inj same
  exact ⟨toDecimal_inj group, toDecimal_inj stripe, intToDecimal_inj bound bound' same⟩

theorem eq_of_stripeMetaDbKey_eq (same : stripeMetaDbKey groupId userKey = stripeMetaDbKey groupId' userKey') :
    groupId = groupId' ∧ userKey = userKey' := by
  simp only [stripeMetaDbKey, List.append_assoc, List.append_cancel_left_eq] at same
  exact (toDecimal_append_inj same).imp_left toDecimal_inj

theorem stripeMetaDbKey_inj : stripeMetaDbKey groupId userKey = stripeMetaDbKey groupId userKey' ↔ userKey = userKey' := by
  simp [stripeMetaDbKey]

theorem fragDbKey_ne_stripeMetaDbKey (groupId' stripeId fragId : Nat) :
    fragDbKey groupId' stripeId fragId ≠ stripeMetaDbKey groupId userKey := by
  simp [fragDbKey, stripeMetaDbKey, ascii]

theorem makeStripePrimaryKey_ne_stripeMetaDbKey (groupId' : Nat) :
    makeStripePrimaryKey groupId' userKey' ≠ stripeMetaDbKey groupId userKey := by
  simp [makeStripePrimaryKey, stripeMetaDbKey, ascii]

theorem makeStripePrimaryKey_ne_fragDbKey (groupId' stripeId fragId : Nat) :
    makeStripePrimaryKey groupId userKey ≠ fragDbKey groupId' stripeId fragId := by
  simp [makeStripePrimaryKey, fragDbKey, ascii]

theorem makeFragIndexKey_ne_stripeMetaDbKey (groupId' fragId : Nat) :
    makeFragIndexKey groupId' fragId ≠ stripeMetaDbKey groupId userKey := by
  simp [makeFragIndexKey, stripeMetaDbKey, ascii]

theorem makeFragIndexKey_ne_fragDbKey (groupId groupId' stripeId fragId fragId' : Nat) :
    makeFragIndexKey groupId fragId ≠ fragDbKey groupId' stripeId fragId' := by
  simp [makeFragIndexKey, fragDbKey, ascii]

end Keys

end FlexRaft
