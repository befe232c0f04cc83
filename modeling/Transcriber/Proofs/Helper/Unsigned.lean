import Mathlib.Data.Int.Bitwise
import Transcriber.Helper.Shift

/-!
# The shift and words of 32 bits

The shift works on whole numbers of any size, and lets one bit stand for all bits from the 31st on.  For
a number that fits into a word of 32 bits this is the sign, so the shift is that of the word.  For larger
numbers it is that of their lowest 32 bits just if the 31st of these is what the higher ones come to.

* `right_shifts_word` — where the shift is that of a word.
-/

namespace Transcriber.Shift

/-- The bit of a number at a position, its sign counted as bits without end. -/
theorem testBit_eq_decide (value : Int) (n : Nat) : value.testBit n = decide (value / 2 ^ n % 2 = 1) := by
  have hpos : (0 : Int) < 2 ^ n := Int.pow_pos (by decide)
  cases value with
  | ofNat m =>
    rw [Int.testBit, Nat.testBit_eq_decide_div_mod_eq, decide_eq_decide, ← Int.natCast_inj]
    simp
  | negSucc m =>
    rw [Int.testBit, Nat.testBit_eq_decide_div_mod_eq, ← decide_not, decide_eq_decide,
      Int.negSucc_ediv _ hpos]
    have hcast : ((m / 2 ^ n : Nat) : Int) = (m : Int) / 2 ^ n := by simp
    change _ ↔ -((m : Int) / 2 ^ n + 1) % 2 = 1
    omega

/-- The lowest 32 bits of a number: 31 bits, and the one above them. -/
theorem lowest_eq (value : Int) :
    value % 2 ^ 32 = value % 2 ^ 31 + (if value.testBit 31 then 1 else 0) * 2 ^ 31 := by
  rw [testBit_eq_decide]
  simp only [decide_eq_true_eq]
  split <;> omega

variable {n : Nat}

theorem lowest_div (value : Int) (hn : n ≤ 31) : value % 2 ^ 32 / 2 ^ n
      = value % 2 ^ 31 / 2 ^ n + (if value.testBit 31 then 2 ^ (31 - n) else 0) := by
  have hpos : (2 : Int) ^ n ≠ 0 := Int.ne_of_gt (Int.pow_pos (by decide))
  have hsplit : (2 : Int) ^ 31 = 2 ^ (31 - n) * 2 ^ n := by
    rw [← Int.pow_add, Nat.sub_add_cancel hn]
  rw [lowest_eq, hsplit, ← Int.mul_assoc, Int.add_mul_ediv_right _ _ hpos, ← hsplit]
  cases value.testBit 31 <;> simp

/-! ## Masks -/

theorem testBit_without (m k i : Nat) : (m ^^^ (m &&& k)).testBit i = (m.testBit i && !k.testBit i) := by
  rw [Nat.testBit_xor, Nat.testBit_and]
  cases m.testBit i <;> cases k.testBit i <;> rfl

/-- The mask of a shift has all bits below the 31st but the last one. -/
theorem testBit_mask {i : Nat} (hi : i ≠ 0) : Nat.testBit 0x7FFFFFFE i = decide (i < 31) := by
  have hone : Nat.testBit 1 i = false := by
    rw [Bool.eq_false_iff]
    exact fun h => hi (Nat.testBit_one_eq_true_iff_self_eq_zero.1 h)
  have hmask : (0x7FFFFFFE : Nat) = 2 ^ 31 - (1 + 1) := rfl
  rw [hmask, Nat.testBit_two_pow_sub_succ (by decide), hone, Bool.not_false, Bool.and_true]

/-- A shift by at least one bit does not see that the mask leaves out the last one. -/
theorem land_mask_div (value : Int) (hpos : 1 ≤ n) :
    land value 0x7FFFFFFE / 2 ^ n = value % 2 ^ 31 / 2 ^ n := by
  cases value with
  | ofNat m =>
    have hbits : (m &&& 0x7FFFFFFE) / 2 ^ n = m % 2 ^ 31 / 2 ^ n := by
      refine Nat.eq_of_testBit_eq fun i => ?_
      rw [Nat.testBit_div_two_pow, Nat.testBit_div_two_pow, Nat.testBit_and, Nat.testBit_mod_two_pow,
        testBit_mask (by omega), Bool.and_comm]
    exact_mod_cast congrArg Int.ofNat hbits
  | negSucc m =>
    have hbits : (0x7FFFFFFE ^^^ (0x7FFFFFFE &&& m)) / 2 ^ n = (2 ^ 31 - (m % 2 ^ 31 + 1)) / 2 ^ n := by
      refine Nat.eq_of_testBit_eq fun i => ?_
      rw [Nat.testBit_div_two_pow, Nat.testBit_div_two_pow, testBit_without, testBit_mask (by omega),
        Nat.testBit_two_pow_sub_succ (Nat.mod_lt _ (by decide)), Nat.testBit_mod_two_pow]
      cases decide (i + n < 31) <;> rfl
    have hrest : Int.negSucc m % 2 ^ 31 = ((2 ^ 31 - (m % 2 ^ 31 + 1) : Nat) : Int) := by
      rw [Int.negSucc_emod _ (by decide)]
      omega
    rw [hrest]
    exact_mod_cast congrArg Int.ofNat hbits

/-- A number has a bit from the 31st on, its sign included, just if it does not fit into 31 bits. -/
theorem land_lowest_iff {value : Int} : land value lowest ≠ 0 ↔ ¬ (0 ≤ value ∧ value < 2 ^ 31) := by
  have hlowest : lowest = .negSucc (2 ^ 31 - 1) := rfl
  rw [hlowest]
  cases value with
  | ofNat m =>
    have hzero : m ^^^ (m &&& (2 ^ 31 - 1)) = 0 ↔ m < 2 ^ 31 := by
      rw [Nat.xor_eq_zero_iff, Nat.and_two_pow_sub_one_eq_mod]
      omega
    change ((m ^^^ (m &&& (2 ^ 31 - 1)) : Nat) : Int) ≠ 0 ↔ ¬ (0 ≤ (m : Int) ∧ (m : Int) < 2 ^ 31)
    rw [Ne, Int.natCast_eq_zero, hzero]
    omega
  | negSucc m =>
    refine iff_of_true (by exact nofun) fun h => ?_
    omega

/-- A bit above a number is added to it. -/
theorem lor_above {s : Nat} {k : Nat} (h : s < 2 ^ k) : lor s (2 ^ k) = s + 2 ^ k := by
  have hbits : s ||| 2 ^ k = s + 2 ^ k := by
    rw [Nat.or_comm, Nat.add_comm]
    simpa using (Nat.two_pow_add_eq_or_of_lt h 1).symm
  have hcast : ((2 : Int) ^ k) = ((2 ^ k : Nat) : Int) := by simp
  rw [hcast]
  change ((s ||| 2 ^ k : Nat) : Int) = _
  rw [hbits, Int.natCast_add]

/-- The bit that stands for all higher ones comes down by as many places as the others. -/
theorem highest_div (hpos : 1 ≤ n) (hle : n ≤ 31) : (0x40000000 : Int) / 2 ^ (n - 1) = 2 ^ (31 - n) := by
  have hsplit : (0x40000000 : Int) = 2 ^ (31 - n) * 2 ^ (n - 1) := by
    rw [← Int.pow_add, show 31 - n + (n - 1) = 30 by omega]
    rfl
  rw [hsplit, Int.mul_ediv_cancel _ (Int.ne_of_gt (Int.pow_pos (by decide)))]

/-! ## The shift -/

theorem right_eq (value : Int) (hpos : 1 ≤ n) (hle : n ≤ 31) :
    right value n
      = .ok (value % 2 ^ 31 / 2 ^ n + if land value lowest ≠ 0 then 2 ^ (31 - n) else 0) := by
  have hlow : 0 ≤ value % 2 ^ 31 := Int.emod_nonneg _ (by decide)
  have hhigh : value % 2 ^ 31 < 2 ^ 31 := Int.emod_lt_of_pos _ (by decide)
  have hzero : ¬ ((n : Int) == 0) = true := by
    rw [beq_iff_eq]
    omega
  rw [right, if_neg hzero]
  by_cases hlast : n = 31
  · subst hlast
    rw [if_pos (by rfl), Int.ediv_eq_zero_of_lt hlow hhigh]
    simp
  · have hother : ¬ ((n : Int) == 31) = true := by
      rw [beq_iff_eq]
      omega
    have hcount : ¬ (decide ((n : Int) < 0) || decide (31 < (n : Int))) = true := by
      rw [Bool.or_eq_true, decide_eq_true_eq, decide_eq_true_eq]
      omega
    have hback : ((n : Int) - 1).toNat = n - 1 := by omega
    rw [if_neg hother, if_neg hcount, Int.toNat_natCast, hback]
    change Except.ok (if land value lowest != 0
      then lor (land value 0x7FFFFFFE / 2 ^ n) (0x40000000 / 2 ^ (n - 1)) else land value 0x7FFFFFFE / 2 ^ n) = _
    rw [land_mask_div value hpos, highest_div hpos hle]
    simp only [bne_iff_ne]
    split
    case isFalse => rw [Int.add_zero]
    case isTrue =>
      -- What is shifted has become smaller than the bit above it.
      have hpower : (0 : Int) < 2 ^ n := Int.pow_pos (by decide)
      obtain ⟨s, hs⟩ := Int.eq_ofNat_of_zero_le (Int.ediv_nonneg hlow (Int.le_of_lt hpower))
      have hbelow : value % 2 ^ 31 / 2 ^ n < 2 ^ (31 - n) := by
        refine Int.ediv_lt_of_lt_mul hpower ?_
        rwa [← Int.pow_add, Nat.sub_add_cancel hle]
      rw [hs] at hbelow ⊢
      rw [lor_above (by exact_mod_cast hbelow)]

/-- The shift by 1 to 31 bits is that of the lowest 32 bits just if one bit may stand for all above it. -/
theorem right_eq_lowest_iff (value : Int) (hpos : 1 ≤ n) (hle : n ≤ 31) :
    right value n = .ok (value % 2 ^ 32 / 2 ^ n) ↔ 0 ≤ value ∧ value < 2 ^ 31 ∨ value.testBit 31 := by
  have hne : (2 : Int) ^ (31 - n) ≠ 0 := Int.ne_of_gt (Int.pow_pos (by decide))
  rw [right_eq value hpos hle, lowest_div value hle, Except.ok.injEq, Int.add_right_inj]
  cases hbit : value.testBit 31 with
  | true =>
    have hhigh : land value lowest ≠ 0 := by
      rw [testBit_eq_decide, decide_eq_true_eq] at hbit
      rw [land_lowest_iff]
      omega
    simp [hhigh]
  | false =>
    simp only [Bool.false_eq_true, if_false, or_false, ite_eq_right_iff, hne, imp_false]
    rw [land_lowest_iff, not_not]

/-- The shift fails for the counts that a word does not have.  By 0 bits it gives the number itself, and by
1 to 31 bits the lowest 32 bits of the number without the lowest ones of these, just if the number fits
into 31 bits or has the 31st.  On numbers that fit into a word it is the unsigned shift of the word. -/
theorem right_shifts_word (value : Int) :
    (∀ bits : Int, right value bits = .error .shiftCount ↔ bits < 0 ∨ 31 < bits)
      ∧ right value 0 = .ok value
      ∧ (∀ n : Nat, 1 ≤ n → n ≤ 31 → (right value n = .ok (value % 2 ^ 32 / 2 ^ n)
        ↔ 0 ≤ value ∧ value < 2 ^ 31 ∨ value.testBit 31))
      ∧ (-2 ^ 31 ≤ value → value < 2 ^ 31 → ∀ n : Nat, n ≤ 31 →
        right value n = .ok (BitVec.ofInt 32 value >>> n).toInt) := by
  refine ⟨fun bits => ?_, rfl, fun n => right_eq_lowest_iff value, fun hlow hhigh n hn => ?_⟩
  · rw [right]
    split
    case isTrue hzero =>
      rw [beq_iff_eq] at hzero
      exact iff_of_false nofun (by omega)
    case isFalse =>
      split
      case isTrue hlast =>
        rw [beq_iff_eq] at hlast
        exact iff_of_false nofun (by omega)
      case isFalse =>
        split
        case isTrue hcount =>
          rw [Bool.or_eq_true, decide_eq_true_eq, decide_eq_true_eq] at hcount
          exact iff_of_true rfl hcount
        case isFalse hcount =>
          rw [Bool.or_eq_true, decide_eq_true_eq, decide_eq_true_eq] at hcount
          exact iff_of_false nofun hcount
  · rw [BitVec.toInt_ushiftRight]
    split
    case isTrue hzero =>
      subst hzero
      rw [BitVec.toInt_ofInt, Int.bmod_eq_of_le (by omega) (by omega)]
      rfl
    case isFalse hpos =>
      rw [(right_eq_lowest_iff value (by omega) hn).2, BitVec.toNat_ofInt, Nat.shiftRight_eq_div_pow]
      · rw [Int.natCast_ediv, Int.toNat_of_nonneg (Int.emod_nonneg _ (by decide))]
        rfl
      · rw [testBit_eq_decide, decide_eq_true_eq]
        omega

end Transcriber.Shift
