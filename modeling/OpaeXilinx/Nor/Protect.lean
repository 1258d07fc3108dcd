import OpaeXilinx.Nor.Storage

/-!
# Protected portions

What `stm_lock` and `stm_unlock` decide to write into the status register, in terms of the locations
that the chip protects.  As the comment of the source says, the size is a power of two.
-/

namespace OpaeXilinx.Nor

open OpaeXilinx.Base

variable {nor : SpiNor} {sr old new : Byte} {ofs len x : Nat}

theorem and_srBp_eq_zero : ∀ sr : Byte, sr &&& srBp = 0 ↔ blockProtect sr = 0 := by
  decide +kernel

theorem and_srBp_toNat : ∀ sr : Byte, (sr &&& srBp).toNat = 4 * blockProtect sr := by
  decide +kernel

theorem pow_of_srBp : ∀ sr : Byte, ((sr &&& srBp ^^^ srBp) >>> 2).toNat = 7 - blockProtect sr := by
  decide +kernel

theorem and_srTb_ne_zero : ∀ sr : Byte, sr &&& srTb ≠ 0 ↔ sr.getLsbD 5 = true := by
  decide +kernel

/-- What the difference of logarithms makes of the block protect bits. -/
theorem blockProtect_val : ∀ pow : Byte, pow.toNat < 32 → (srBp - pow <<< 2) &&& ~~~srBp = 0 →
    pow.toNat ≤ 7 ∧ blockProtect (srBp - pow <<< 2) = 7 - pow.toNat := by
  decide +kernel

theorem blockProtect_or {set : Byte} (other : blockProtect set = 0) (status : Byte) :
    blockProtect (status ||| set) = blockProtect status := by
  have none : (set.extractLsb' 2 3 : BitVec 3) = 0 := BitVec.eq_of_toNat_eq other
  rw [blockProtect, BitVec.extractLsb'_or, none, BitVec.ofNat_eq_ofNat, BitVec.or_zero,
    blockProtect]

theorem blockProtect_and {kept : Byte} (all : blockProtect kept = 7) (status : Byte) :
    blockProtect (status &&& kept) = blockProtect status := by
  have every : (kept.extractLsb' 2 3 : BitVec 3) = BitVec.allOnes 3 := BitVec.eq_of_toNat_eq all
  rw [blockProtect, BitVec.extractLsb'_and, every, BitVec.and_allOnes, blockProtect]

theorem blockProtect_merge (old val : Byte) :
    blockProtect (old &&& ~~~srBp &&& ~~~srTb ||| val) = blockProtect val := by
  have cleared : (~~~srBp).extractLsb' 2 3 = 0#3 := by decide
  rw [blockProtect, BitVec.extractLsb'_or, BitVec.extractLsb'_and, BitVec.extractLsb'_and, cleared,
    BitVec.and_zero, BitVec.zero_and, BitVec.zero_or, blockProtect]

theorem protectedLen_le (size : Nat) (sr : Byte) : protectedLen size sr ≤ size := by
  rw [protectedLen]
  split
  · exact Nat.zero_le _
  · exact Nat.div_le_self ..

/-- More in the block protect bits protects more. -/
theorem protectedLen_mono {size : Nat} (more : blockProtect old ≤ blockProtect new) :
    protectedLen size old ≤ protectedLen size new := by
  simp only [protectedLen]
  by_cases none : blockProtect old = 0
  · rw [if_pos none]
    exact Nat.zero_le _
  · rw [if_neg none, if_neg (by omega)]
    apply Nat.div_le_div_left
    · exact Nat.pow_le_pow_right (by decide) (by omega)
    · exact Nat.two_pow_pos _

theorem protects_bottom (bottom : nor.bottom sr = true) :
    nor.protects sr x = true ↔ x < protectedLen nor.size sr := by
  rw [SpiNor.protects, if_pos bottom, decide_eq_true_eq]

theorem protects_top (top : nor.bottom sr = false) :
    nor.protects sr x = true ↔ nor.size - protectedLen nor.size sr ≤ x ∧ x < nor.size := by
  rw [SpiNor.protects, if_neg (by rw [top]; decide), decide_eq_true_eq]

/-- A larger portion on the same side covers a smaller one. -/
theorem protects_mono (side : nor.bottom new = nor.bottom old)
    (more : blockProtect old ≤ blockProtect new) (covered : nor.protects old x = true) :
    nor.protects new x = true := by
  have longer : protectedLen nor.size old ≤ protectedLen nor.size new := protectedLen_mono more
  cases bottom : nor.bottom old with
  | true =>
      rw [protects_bottom bottom] at covered
      rw [protects_bottom (side.trans bottom)]
      exact Nat.lt_of_lt_of_le covered longer
  | false =>
      rw [protects_top bottom] at covered
      rw [protects_top (side.trans bottom)]
      exact ⟨Nat.le_trans (Nat.sub_le_sub_left longer _) covered.1, covered.2⟩

/-- The range that the source calculates is the protected portion. -/
theorem stmGetLockedRange_spec (nor : SpiNor) (sr : Byte) (x : Nat) :
    (stmGetLockedRange nor sr).ofs ≤ x ∧
      x < (stmGetLockedRange nor sr).ofs + (stmGetLockedRange nor sr).len ↔
    nor.protects sr x = true := by
  have small := protectedLen_le nor.size sr
  rw [stmGetLockedRange]
  split
  case isTrue none =>
    have empty : protectedLen nor.size sr = 0 := by
      rw [protectedLen, if_pos ((and_srBp_eq_zero sr).mp none)]
    rw [SpiNor.protects, empty]
    split
    · simp
    · simp only [decide_eq_true_eq]
      omega
  case isFalse some =>
    have portion :
      nor.size >>> ((sr &&& srBp ^^^ srBp) >>> 2).toNat = protectedLen nor.size sr := by
      rw [pow_of_srBp, protectedLen, if_neg fun none => some ((and_srBp_eq_zero sr).mpr none),
        Nat.shiftRight_eq_div_pow]
    simp only [portion]
    have side : (nor.hasSrTb = true ∧ sr &&& srTb ≠ 0) ↔ nor.bottom sr = true := by
      rw [and_srTb_ne_zero, SpiNor.bottom, Bool.and_eq_true]
    cases bottom : nor.bottom sr with
    | true =>
        rw [if_pos (side.mpr bottom), protects_bottom bottom]
        simp
    | false =>
        have top : ¬ (nor.hasSrTb = true ∧ sr &&& srTb ≠ 0) := by
          rw [side, bottom]
          decide
        rw [if_neg top, protects_top bottom]
        simp only
        omega

/-- The range begins at the bottom or ends at the top. -/
theorem stmGetLockedRange_ends (nor : SpiNor) (sr : Byte) :
    (stmGetLockedRange nor sr).ofs = 0 ∨
      (stmGetLockedRange nor sr).ofs + (stmGetLockedRange nor sr).len = nor.size := by
  rw [stmGetLockedRange]
  split
  · exact .inl rfl
  · simp only
    split
    · exact .inl rfl
    · apply Or.inr
      apply Nat.sub_add_cancel
      rw [Nat.shiftRight_eq_div_pow]
      exact Nat.div_le_self ..

/-- The interval is protected as a whole. -/
def SpiNor.Covers (nor : SpiNor) (sr : Byte) (ofs len : Nat) : Prop :=
  ∀ x, ofs ≤ x → x < ofs + len → nor.protects sr x = true

/-- The test of the source for a locked region says whether all of it is protected. -/
theorem stmIsLockedSr_iff : stmIsLockedSr nor ofs len sr = true ↔ nor.Covers sr ofs len := by
  have range := stmGetLockedRange_spec nor sr
  rw [stmIsLockedSr, stmCheckLockStatusSr]
  split
  case isTrue empty =>
    apply iff_of_true rfl
    exact fun x low high => absurd high (by omega)
  case isFalse some =>
    simp only [if_true, decide_eq_true_eq]
    constructor
    · intro inside x low high
      rw [← range]
      omega
    · intro covers
      have first := (range ofs).mpr (covers ofs (Nat.le_refl _) (by omega))
      have last := (range (ofs + len - 1)).mpr (covers _ (by omega) (by omega))
      omega

/-- The test for an unlocked region says whether none of it is protected. -/
theorem stmIsUnlockedSr_iff (inside : ofs + len ≤ nor.size) :
    stmIsUnlockedSr nor ofs len sr = true ↔ nor.Free sr ofs len := by
  have range := stmGetLockedRange_spec nor sr
  have ends := stmGetLockedRange_ends nor sr
  rw [stmIsUnlockedSr, stmCheckLockStatusSr]
  split
  case isTrue empty =>
    apply iff_of_true rfl
    exact fun x low high => absurd high (by omega)
  case isFalse some =>
    simp only [Bool.false_eq_true, if_false, decide_eq_true_eq]
    constructor
    · intro outside x low high
      rw [← Bool.not_eq_true, ← range]
      omega
    · intro free
      apply Decidable.byContradiction
      intro overlaps
      generalize (stmGetLockedRange nor sr).ofs = rangeOfs at range ends overlaps
      generalize (stmGetLockedRange nor sr).len = rangeLen at range ends overlaps
      have within := (range (max ofs rangeOfs)).mp (by omega)
      rw [free _ (by omega) (by omega)] at within
      cases within

/-! ## Locking -/

/-- The length that `stm_lock` wants to end up locked. -/
def SpiNor.lockLen (nor : SpiNor) (old : Byte) (ofs len : Nat) : Nat :=
  if stmIsLockedSr nor (ofs + len) (nor.size - (ofs + len)) old then nor.size - ofs else ofs + len

/-- The block protect bits of a portion that is `2 ^ pow` times smaller than the flash. -/
def SpiNor.portion (nor : SpiNor) (order : Nat) : Byte :=
  srBp - (BitVec.ofNat 8 (Nat.log2 nor.size) - BitVec.ofNat 8 order) <<< 2

/-- The status register that `stm_lock` wants. -/
def SpiNor.lockedStatus (nor : SpiNor) (old : Byte) (ofs len : Nat) : Byte :=
  old &&& ~~~srBp &&& ~~~srTb ||| nor.portion (Nat.log2 (nor.lockLen old ofs len)) ||| srSrwd |||
    (if stmIsLockedSr nor (ofs + len) (nor.size - (ofs + len)) old then 0 else srTb)

theorem stmLockStatus_eq : stmLockStatus nor ofs len old =
    (if stmIsLockedSr nor ofs len old then .ok none
    else if (nor.hasSrTb && stmIsLockedSr nor 0 ofs old) = false ∧
        stmIsLockedSr nor (ofs + len) (nor.size - (ofs + len)) old = false then .error .einval
    else if nor.portion (Nat.log2 (nor.lockLen old ofs len)) &&& ~~~srBp ≠ 0 then .error .einval
    else if nor.portion (Nat.log2 (nor.lockLen old ofs len)) &&& srBp = 0 then .error .einval
    else if nor.lockedStatus old ofs len = old then .ok none
    else if (nor.lockedStatus old ofs len &&& srBp).toNat < (old &&& srBp).toNat then .error .einval
    else .ok (some (nor.lockedStatus old ofs len))) :=
  rfl

/-- What `stm_lock` has found out when it does not fail. -/
theorem stmLockStatus_cases {out : Option Byte} (result : stmLockStatus nor ofs len old = .ok out) :
    (stmIsLockedSr nor ofs len old = true ∧ out = none) ∨
      (stmIsLockedSr nor ofs len old = false ∧
        (stmIsLockedSr nor (ofs + len) (nor.size - (ofs + len)) old = true ∨
          nor.hasSrTb = true ∧ stmIsLockedSr nor 0 ofs old = true) ∧
        nor.portion (Nat.log2 (nor.lockLen old ofs len)) &&& ~~~srBp = 0 ∧
        nor.portion (Nat.log2 (nor.lockLen old ofs len)) &&& srBp ≠ 0 ∧
        (out = none ∧ nor.lockedStatus old ofs len = old ∨
          out = some (nor.lockedStatus old ofs len) ∧
            blockProtect old ≤ blockProtect (nor.lockedStatus old ofs len))) := by
  rw [stmLockStatus_eq] at result
  split at result
  case isTrue already =>
    cases result
    exact .inl ⟨already, rfl⟩
  case isFalse unlocked =>
    rw [Bool.not_eq_true] at unlocked
    split at result
    case isTrue => cases result
    case isFalse possible =>
      split at result
      case isTrue => cases result
      case isFalse small =>
        split at result
        case isTrue => cases result
        case isFalse some =>
          have side : stmIsLockedSr nor (ofs + len) (nor.size - (ofs + len)) old = true ∨
              nor.hasSrTb = true ∧ stmIsLockedSr nor 0 ofs old = true := by
            rw [← Bool.and_eq_true]
            cases top : stmIsLockedSr nor (ofs + len) (nor.size - (ofs + len)) old with
            | true => exact .inl rfl
            | false =>
                apply Or.inr
                cases bottom : nor.hasSrTb && stmIsLockedSr nor 0 ofs old with
                | true => rfl
                | false => exact absurd ⟨bottom, top⟩ possible
          apply Or.inr
          have fits := Decidable.not_not.mp small
          split at result
          case isTrue same =>
            cases result
            exact ⟨unlocked, side, fits, some, .inl ⟨rfl, same⟩⟩
          case isFalse =>
            split at result
            case isTrue => cases result
            case isFalse more =>
              cases result
              refine ⟨unlocked, side, fits, some, .inr ⟨rfl, ?_⟩⟩
              rw [and_srBp_toNat, and_srBp_toNat] at more
              have least := Nat.le_of_not_lt more
              exact Nat.le_of_mul_le_mul_left least (by decide)

/-- The block protect bits of a power of two. -/
theorem blockProtect_portion {exponent order : Nat} (size : nor.size = 2 ^ exponent)
    (fits : order ≤ exponent) (valid : nor.portion order &&& ~~~srBp = 0) :
    exponent - order ≤ 7 ∧ blockProtect (nor.portion order) = 7 - (exponent - order) := by
  have small : exponent < 32 := by
    have bound := nor.size_lt
    rw [size] at bound
    exact (Nat.pow_lt_pow_iff_right (by decide)).mp bound
  have pow : (BitVec.ofNat 8 (Nat.log2 nor.size) - BitVec.ofNat 8 order).toNat =
      exponent - order := by
    rw [size, Nat.log2_two_pow, BitVec.toNat_sub, BitVec.toNat_ofNat, BitVec.toNat_ofNat]
    omega
  have value := blockProtect_val _ (by omega) valid
  rwa [pow] at value

/-- The portion that they stand for. -/
theorem protectedLen_portion {exponent order : Nat} (size : nor.size = 2 ^ exponent)
    (fits : order ≤ exponent) (valid : nor.portion order &&& ~~~srBp = 0)
    (bits : blockProtect new = blockProtect (nor.portion order)) :
    protectedLen nor.size new = if blockProtect new = 0 then 0 else 2 ^ order := by
  obtain ⟨few, value⟩ := blockProtect_portion size fits valid
  rw [← bits] at value
  rw [protectedLen]
  by_cases none : blockProtect new = 0
  · rw [if_pos none, if_pos none]
  · have exact : 7 - blockProtect new = exponent - order := by omega
    rw [if_neg none, if_neg none, exact, size, Nat.pow_div (Nat.sub_le ..) (by decide),
      Nat.sub_sub_self fits]

theorem blockProtect_lockedStatus (nor : SpiNor) (old : Byte) (ofs len : Nat) :
    blockProtect (nor.lockedStatus old ofs len) =
    blockProtect (nor.portion (Nat.log2 (nor.lockLen old ofs len))) := by
  rw [SpiNor.lockedStatus]
  split
  · rw [blockProtect_or (by decide), blockProtect_or (by decide), blockProtect_merge]
  · rw [blockProtect_or (by decide), blockProtect_or (by decide), blockProtect_merge]

/-- Bit 5 of a status that is put together tells the side. -/
theorem merge_getLsbD (old kept set : Byte) {val : Byte} (valid : val &&& ~~~srBp = 0) :
    ((old &&& ~~~srBp &&& ~~~srTb ||| val) &&& kept ||| set).getLsbD 5 = set.getLsbD 5 := by
  have clear : val.getLsbD 5 = false := by
    have bit := congrArg (BitVec.getLsbD · 5) valid
    simpa [srBp] using bit
  rw [BitVec.getLsbD_or, BitVec.getLsbD_and, BitVec.getLsbD_or, clear]
  simp [srTb]

theorem lockedStatus_getLsbD
    (valid : nor.portion (Nat.log2 (nor.lockLen old ofs len)) &&& ~~~srBp = 0) :
    (nor.lockedStatus old ofs len).getLsbD 5 =
      !stmIsLockedSr nor (ofs + len) (nor.size - (ofs + len)) old := by
  have merged := merge_getLsbD old (BitVec.allOnes 8)
    (srSrwd ||| (if stmIsLockedSr nor (ofs + len) (nor.size - (ofs + len)) old then 0
      else srTb)) valid
  rw [BitVec.and_allOnes, ← BitVec.or_assoc] at merged
  rw [SpiNor.lockedStatus, merged]
  split
  case isTrue top => rw [top]; decide
  case isFalse bottom =>
    rw [Bool.not_eq_true] at bottom
    rw [bottom]
    decide

/-- What a lock request makes of the protection, for a flash whose size is a power of two: nothing
else is locked, nothing is unlocked unless the side changes, and all of the region is locked only if
it was or if its far end is a power of two away from the side. -/
structure Locks (nor : SpiNor) (old new : Byte) (ofs len : Nat) : Prop where
  only : ∀ x, nor.protects new x = true →
    nor.protects old x = true ∨ ofs ≤ x ∧ x < ofs + len
  keeps : nor.bottom new = nor.bottom old →
    ∀ x, nor.protects old x = true → nor.protects new x = true
  whole : nor.Covers new ofs len ↔
    nor.Covers old ofs len ∨ ∃ order, nor.lockLen old ofs len = 2 ^ order

section Lock

variable {exponent : Nat} (size : nor.size = 2 ^ exponent) (inside : ofs + len ≤ nor.size)
  (pos : 0 < len)
  (side : stmIsLockedSr nor (ofs + len) (nor.size - (ofs + len)) old = true ∨
    nor.hasSrTb = true ∧ stmIsLockedSr nor 0 ofs old = true)
  (valid : nor.portion (Nat.log2 (nor.lockLen old ofs len)) &&& ~~~srBp = 0)
  (some : nor.portion (Nat.log2 (nor.lockLen old ofs len)) &&& srBp ≠ 0)

include size inside pos valid some

/-- The wanted portion is the largest power of two that is not too long. -/
theorem protectedLen_lockedStatus :
    protectedLen nor.size (nor.lockedStatus old ofs len) =
      2 ^ Nat.log2 (nor.lockLen old ofs len) := by
  have bits := blockProtect_lockedStatus nor old ofs len
  have nonempty : nor.lockLen old ofs len ≠ 0 := by
    rw [SpiNor.lockLen]
    split <;> omega
  have bound : nor.lockLen old ofs len ≤ 2 ^ exponent := by
    rw [SpiNor.lockLen, ← size]
    split <;> omega
  have fits : Nat.log2 (nor.lockLen old ofs len) ≤ exponent := by
    have least := Nat.le_trans (Nat.log2_self_le nonempty) bound
    exact (Nat.pow_le_pow_iff_right (by decide)).mp least
  rw [protectedLen_portion size fits valid bits, if_neg]
  rw [bits, ← and_srBp_eq_zero]
  exact some

include side

/-- The wanted portion lies in the region or in what is locked. -/
theorem lockedStatus_only (covered : nor.protects (nor.lockedStatus old ofs len) x = true) :
    nor.protects old x = true ∨ ofs ≤ x ∧ x < ofs + len := by
  have portion := protectedLen_lockedStatus size inside pos valid some
  have bit := lockedStatus_getLsbD valid
  have least : 2 ^ Nat.log2 (nor.lockLen old ofs len) ≤ nor.lockLen old ofs len := by
    apply Nat.log2_self_le
    rw [SpiNor.lockLen]
    split <;> omega
  cases top : stmIsLockedSr nor (ofs + len) (nor.size - (ofs + len)) old with
  | true =>
      have wanted : nor.lockLen old ofs len = nor.size - ofs := by rw [SpiNor.lockLen, if_pos top]
      have upper : nor.bottom (nor.lockedStatus old ofs len) = false := by
        rw [SpiNor.bottom, bit, top]
        simp
      rw [protects_top upper, portion] at covered
      rw [wanted] at least covered
      by_cases within : x < ofs + len
      · exact .inr ⟨by omega, within⟩
      · exact .inl (stmIsLockedSr_iff.mp top x (by omega) (by omega))
  | false =>
      have wanted : nor.lockLen old ofs len = ofs + len := by
        rw [SpiNor.lockLen, if_neg (by rw [top]; decide)]
      obtain ⟨has, below⟩ := side.resolve_left (by rw [top]; decide)
      have lower : nor.bottom (nor.lockedStatus old ofs len) = true := by
        rw [SpiNor.bottom, bit, top, has]
        rfl
      rw [protects_bottom lower, portion] at covered
      rw [wanted] at least covered
      by_cases within : ofs ≤ x
      · exact .inr ⟨within, by omega⟩
      · exact .inl (stmIsLockedSr_iff.mp below x (Nat.zero_le _) (by omega))

theorem lockedStatus_covers : nor.Covers (nor.lockedStatus old ofs len) ofs len ↔
    ∃ order, nor.lockLen old ofs len = 2 ^ order := by
  have portion := protectedLen_lockedStatus size inside pos valid some
  have bit := lockedStatus_getLsbD valid
  have least : 2 ^ Nat.log2 (nor.lockLen old ofs len) ≤ nor.lockLen old ofs len := by
    apply Nat.log2_self_le
    rw [SpiNor.lockLen]
    split <;> omega
  have power : (∃ order, nor.lockLen old ofs len = 2 ^ order) ↔
      nor.lockLen old ofs len ≤ 2 ^ Nat.log2 (nor.lockLen old ofs len) := by
    constructor
    · rintro ⟨order, same⟩
      rw [same, Nat.log2_two_pow]
    · intro most
      exact ⟨_, Nat.le_antisymm most least⟩
  rw [power]
  clear power
  cases top : stmIsLockedSr nor (ofs + len) (nor.size - (ofs + len)) old with
  | true =>
      have wanted : nor.lockLen old ofs len = nor.size - ofs := by rw [SpiNor.lockLen, if_pos top]
      have upper : nor.bottom (nor.lockedStatus old ofs len) = false := by
        rw [SpiNor.bottom, bit, top]
        simp
      rw [wanted] at least portion ⊢
      constructor
      · intro covers
        have first := covers ofs (Nat.le_refl _) (by omega)
        rw [protects_top upper, portion] at first
        omega
      · intro most x low high
        rw [protects_top upper, portion]
        omega
  | false =>
      have wanted : nor.lockLen old ofs len = ofs + len := by
        rw [SpiNor.lockLen, if_neg (by rw [top]; decide)]
      obtain ⟨has, below⟩ := side.resolve_left (by rw [top]; decide)
      have lower : nor.bottom (nor.lockedStatus old ofs len) = true := by
        rw [SpiNor.bottom, bit, top, has]
        rfl
      rw [wanted] at least portion ⊢
      constructor
      · intro covers
        have last := covers (ofs + len - 1) (by omega) (by omega)
        rw [protects_bottom lower, portion] at last
        omega
      · intro most x low high
        rw [protects_bottom lower, portion]
        omega

end Lock

theorem Locks.same (nor : SpiNor) {status : Byte} (covers : nor.Covers status ofs len) :
    Locks nor status status ofs len where
  only := fun _ held => .inl held
  keeps := fun _ _ held => held
  whole := by
    constructor
    · exact .inl
    · exact fun _ => covers

/-- What `stm_lock` decides on does to the protection what a lock request is for. -/
theorem stmLockStatus_spec {exponent : Nat} (size : nor.size = 2 ^ exponent)
    (inside : ofs + len ≤ nor.size) (pos : 0 < len) {out : Option Byte}
    (result : stmLockStatus nor ofs len old = .ok out) :
    Locks nor old (out.getD old) ofs len := by
  rcases stmLockStatus_cases result with ⟨already, rfl⟩ | ⟨unlocked, side, valid, some, outcome⟩
  · exact Locks.same nor (stmIsLockedSr_iff.mp already)
  · have only := fun x => lockedStatus_only (x := x) size inside pos side valid some
    have covers := lockedStatus_covers size inside pos side valid some
    rcases outcome with ⟨rfl, same⟩ | ⟨rfl, more⟩
    · rw [same] at only covers
      constructor
      · exact only
      · exact fun _ _ held => held
      · show nor.Covers old ofs len ↔ _
        rw [covers, or_self]
    · constructor
      · exact only
      · exact fun side x => protects_mono side more
      · have uncovered : ¬ nor.Covers old ofs len := by
          rw [← stmIsLockedSr_iff, unlocked]
          decide
        exact covers.trans (or_iff_right uncovered).symm

/-! ## Unlocking -/

theorem orderBase2_le_iff {n order : Nat} : orderBase2 n ≤ order ↔ n ≤ 2 ^ order := by
  have one : 1 ≤ 2 ^ order := Nat.one_le_two_pow
  rw [orderBase2]
  split
  case isTrue small => exact iff_of_true (Nat.zero_le _) (by omega)
  case isFalse large =>
    rw [Nat.add_one_le_iff, Nat.log2_lt (by omega)]
    omega

/-- The length that `stm_unlock` wants to stay locked. -/
def SpiNor.keepLen (nor : SpiNor) (old : Byte) (ofs len : Nat) : Nat :=
  if stmIsUnlockedSr nor 0 ofs old then nor.size - (ofs + len) else ofs

/-- The block protect bits that `stm_unlock` wants. -/
def SpiNor.keptPortion (nor : SpiNor) (old : Byte) (ofs len : Nat) : Byte :=
  if nor.keepLen old ofs len = 0 then 0 else nor.portion (orderBase2 (nor.keepLen old ofs len))

/-- The status register that `stm_unlock` wants. -/
def SpiNor.unlockedStatus (nor : SpiNor) (old : Byte) (ofs len : Nat) : Byte :=
  (old &&& ~~~srBp &&& ~~~srTb ||| nor.keptPortion old ofs len) &&&
    (if nor.keepLen old ofs len = 0 then ~~~srSrwd else BitVec.allOnes 8) |||
    (if stmIsUnlockedSr nor 0 ofs old then 0 else srTb)

theorem stmUnlockStatus_eq : stmUnlockStatus nor ofs len old =
    (if stmIsUnlockedSr nor ofs len old then .ok none
    else if (nor.hasSrTb && stmIsUnlockedSr nor (ofs + len) (nor.size - (ofs + len)) old) = false ∧
        stmIsUnlockedSr nor 0 ofs old = false then .error .einval
    else if nor.keptPortion old ofs len &&& ~~~srBp ≠ 0 then .error .einval
    else if nor.unlockedStatus old ofs len = old then .ok none
    else if (old &&& srBp).toNat < (nor.unlockedStatus old ofs len &&& srBp).toNat then
      .error .einval
    else .ok (some (nor.unlockedStatus old ofs len))) :=
  rfl

/-- What `stm_unlock` has found out when it does not fail. -/
theorem stmUnlockStatus_cases {out : Option Byte}
    (result : stmUnlockStatus nor ofs len old = .ok out) :
    (stmIsUnlockedSr nor ofs len old = true ∧ out = none) ∨
      (stmIsUnlockedSr nor ofs len old = false ∧
        (stmIsUnlockedSr nor 0 ofs old = true ∨ nor.hasSrTb = true ∧
          stmIsUnlockedSr nor (ofs + len) (nor.size - (ofs + len)) old = true) ∧
        nor.keptPortion old ofs len &&& ~~~srBp = 0 ∧
        (out = none ∧ nor.unlockedStatus old ofs len = old ∨
          out = some (nor.unlockedStatus old ofs len) ∧
            blockProtect (nor.unlockedStatus old ofs len) ≤ blockProtect old)) := by
  rw [stmUnlockStatus_eq] at result
  split at result
  case isTrue already =>
    cases result
    exact .inl ⟨already, rfl⟩
  case isFalse held =>
    rw [Bool.not_eq_true] at held
    split at result
    case isTrue => cases result
    case isFalse possible =>
      split at result
      case isTrue => cases result
      case isFalse small =>
        have side : stmIsUnlockedSr nor 0 ofs old = true ∨ nor.hasSrTb = true ∧
            stmIsUnlockedSr nor (ofs + len) (nor.size - (ofs + len)) old = true := by
          rw [← Bool.and_eq_true]
          cases top : stmIsUnlockedSr nor 0 ofs old with
          | true => exact .inl rfl
          | false =>
              apply Or.inr
              cases bottom : nor.hasSrTb &&
                stmIsUnlockedSr nor (ofs + len) (nor.size - (ofs + len)) old with
              | true => rfl
              | false => exact absurd ⟨bottom, top⟩ possible
        apply Or.inr
        have fits := Decidable.not_not.mp small
        split at result
        case isTrue same =>
          cases result
          exact ⟨held, side, fits, .inl ⟨rfl, same⟩⟩
        case isFalse =>
          split at result
          case isTrue => cases result
          case isFalse less =>
            cases result
            refine ⟨held, side, fits, .inr ⟨rfl, ?_⟩⟩
            rw [and_srBp_toNat, and_srBp_toNat] at less
            have most := Nat.le_of_not_lt less
            exact Nat.le_of_mul_le_mul_left most (by decide)

theorem blockProtect_unlockedStatus (nor : SpiNor) (old : Byte) (ofs len : Nat) :
    blockProtect (nor.unlockedStatus old ofs len) =
    blockProtect (nor.keptPortion old ofs len) := by
  have side : blockProtect (if stmIsUnlockedSr nor 0 ofs old then 0 else srTb) = 0 := by
    split <;> decide
  have kept :
      blockProtect (if nor.keepLen old ofs len = 0 then ~~~srSrwd else BitVec.allOnes 8) = 7 := by
    split <;> decide
  rw [SpiNor.unlockedStatus, blockProtect_or side, blockProtect_and kept, blockProtect_merge]

theorem unlockedStatus_getLsbD (valid : nor.keptPortion old ofs len &&& ~~~srBp = 0) :
    (nor.unlockedStatus old ofs len).getLsbD 5 = !stmIsUnlockedSr nor 0 ofs old := by
  rw [SpiNor.unlockedStatus, merge_getLsbD _ _ _ valid]
  split
  case isTrue top => rw [top]; decide
  case isFalse bottom =>
    rw [Bool.not_eq_true] at bottom
    rw [bottom]
    decide

/-- What an unlock request makes of the protection, for a flash whose size is a power of two:
nothing is locked unless the side changes, what is not asked for stays locked if it is more than the
smallest portion can tell, and all of the region is unlocked only if it was or if what is to stay
locked is a power of two or too small. -/
structure Unlocks (nor : SpiNor) (old new : Byte) (ofs len : Nat) : Prop where
  only : nor.bottom new = nor.bottom old →
    ∀ x, nor.protects new x = true → nor.protects old x = true
  keeps : nor.size / 128 < nor.keepLen old ofs len →
    ∀ x, nor.protects old x = true → x < ofs ∨ ofs + len ≤ x → nor.protects new x = true
  whole : nor.Free new ofs len ↔ nor.Free old ofs len ∨ nor.keepLen old ofs len ≤ nor.size / 128 ∨
    ∃ order, nor.keepLen old ofs len = 2 ^ order

theorem Unlocks.same (nor : SpiNor) {status : Byte} (free : nor.Free status ofs len) :
    Unlocks nor status status ofs len where
  only := fun _ _ held => held
  keeps := fun _ _ held _ => held
  whole := by
    constructor
    · exact .inl
    · exact fun _ => free

section Unlock

variable {exponent : Nat} (size : nor.size = 2 ^ exponent) (inside : ofs + len ≤ nor.size)
  (valid : nor.keptPortion old ofs len &&& ~~~srBp = 0)

include size inside valid

/-- The wanted portion is the smallest power of two that is long enough, or nothing. -/
theorem protectedLen_unlockedStatus :
    protectedLen nor.size (nor.unlockedStatus old ofs len) =
      if nor.keepLen old ofs len ≤ nor.size / 128 then 0
      else 2 ^ orderBase2 (nor.keepLen old ofs len) := by
  have bits := blockProtect_unlockedStatus nor old ofs len
  have bound : nor.keepLen old ofs len ≤ 2 ^ exponent := by
    rw [SpiNor.keepLen, ← size]
    split <;> omega
  by_cases nothing : nor.keepLen old ofs len = 0
  · rw [SpiNor.keptPortion, if_pos nothing] at bits
    rw [nothing, if_pos (Nat.zero_le _), protectedLen, bits]
    rfl
  · rw [SpiNor.keptPortion, if_neg nothing] at bits valid
    have fits := orderBase2_le_iff.mpr bound
    obtain ⟨few, value⟩ := blockProtect_portion size fits valid
    rw [protectedLen_portion size fits valid bits, bits, value]
    have smallest : 7 - (exponent - orderBase2 (nor.keepLen old ofs len)) = 0 ↔
        nor.keepLen old ofs len ≤ nor.size / 128 := by
      by_cases large : 7 ≤ exponent
      · have portion : nor.size / 128 = 2 ^ (exponent - 7) := by
          rw [size, show 128 = 2 ^ 7 from rfl, Nat.pow_div large (by decide)]
        rw [portion, ← orderBase2_le_iff]
        omega
      · have none : nor.size / 128 = 0 := by
          rw [size, Nat.div_eq_of_lt]
          exact Nat.lt_of_lt_of_le (Nat.pow_lt_pow_right (by decide) (Nat.lt_of_not_le large))
            (by decide)
        omega
    simp only [smallest]

variable (side : stmIsUnlockedSr nor 0 ofs old = true ∨ nor.hasSrTb = true ∧
  stmIsUnlockedSr nor (ofs + len) (nor.size - (ofs + len)) old = true)

include side

omit size inside in
/-- What stays protected lies beside the region, or reaches into it. -/
theorem protects_unlockedStatus : nor.protects (nor.unlockedStatus old ofs len) x = true ↔
    if stmIsUnlockedSr nor 0 ofs old then
      nor.size - protectedLen nor.size (nor.unlockedStatus old ofs len) ≤ x ∧ x < nor.size
    else x < protectedLen nor.size (nor.unlockedStatus old ofs len) := by
  have bit := unlockedStatus_getLsbD valid
  cases top : stmIsUnlockedSr nor 0 ofs old with
  | true =>
      rw [if_pos rfl, protects_top]
      rw [SpiNor.bottom, bit, top]
      simp
  | false =>
      obtain ⟨has, _⟩ := side.resolve_left (by rw [top]; decide)
      rw [if_neg (by decide), protects_bottom]
      rw [SpiNor.bottom, bit, top, has]
      rfl

theorem unlockedStatus_keeps (more : nor.size / 128 < nor.keepLen old ofs len)
    (held : nor.protects old x = true) (outside : x < ofs ∨ ofs + len ≤ x) :
    nor.protects (nor.unlockedStatus old ofs len) x = true := by
  have portion := protectedLen_unlockedStatus size inside valid
  have least := orderBase2_le_iff.mp (Nat.le_refl (orderBase2 (nor.keepLen old ofs len)))
  have within : x < nor.size := by
    have small := protectedLen_le nor.size old
    cases bottom : nor.bottom old with
    | true => exact Nat.lt_of_lt_of_le ((protects_bottom bottom).mp held) small
    | false => exact ((protects_top bottom).mp held).2
  rw [protects_unlockedStatus valid side, portion, if_neg (Nat.not_le.mpr more)]
  rw [SpiNor.keepLen] at least more ⊢
  cases top : stmIsUnlockedSr nor 0 ofs old with
  | true =>
      have below := (stmIsUnlockedSr_iff (by omega)).mp top
      have above : ofs ≤ x := by
        apply Decidable.byContradiction
        intro low
        rw [below x (Nat.zero_le _) (by omega)] at held
        cases held
      simp only [top, if_true] at least more ⊢
      omega
  | false =>
      have above := (stmIsUnlockedSr_iff (by omega)).mp (side.resolve_left (by rw [top]; decide)).2
      have below : x < ofs + len := by
        apply Decidable.byContradiction
        intro high
        rw [above x (by omega) (by omega)] at held
        cases held
      simp only [top, Bool.false_eq_true, if_false] at least more ⊢
      omega

/-- The region is free if the portion is not longer than what is to stay locked. -/
theorem unlockedStatus_free (pos : 0 < len) :
    nor.Free (nor.unlockedStatus old ofs len) ofs len ↔
      protectedLen nor.size (nor.unlockedStatus old ofs len) ≤ nor.keepLen old ofs len := by
  have small := protectedLen_le nor.size (nor.unlockedStatus old ofs len)
  rw [SpiNor.keepLen]
  cases top : stmIsUnlockedSr nor 0 ofs old with
  | true =>
      rw [if_pos rfl]
      constructor
      · intro free
        have last := free (ofs + len - 1) (by omega) (by omega)
        rw [← Bool.not_eq_true, protects_unlockedStatus valid side, if_pos top] at last
        omega
      · intro short x low high
        rw [← Bool.not_eq_true, protects_unlockedStatus valid side, if_pos top]
        omega
  | false =>
      rw [if_neg (by decide)]
      constructor
      · intro free
        have first := free ofs (Nat.le_refl _) (by omega)
        rw [← Bool.not_eq_true, protects_unlockedStatus valid side,
          if_neg (by rw [top]; decide)] at first
        omega
      · intro short x low high
        rw [← Bool.not_eq_true, protects_unlockedStatus valid side, if_neg (by rw [top]; decide)]
        omega

theorem unlockedStatus_whole (pos : 0 < len) :
    nor.Free (nor.unlockedStatus old ofs len) ofs len ↔
      nor.keepLen old ofs len ≤ nor.size / 128 ∨ ∃ order, nor.keepLen old ofs len = 2 ^ order := by
  have least := orderBase2_le_iff.mp (Nat.le_refl (orderBase2 (nor.keepLen old ofs len)))
  rw [unlockedStatus_free size inside valid side pos, protectedLen_unlockedStatus size inside valid]
  by_cases little : nor.keepLen old ofs len ≤ nor.size / 128
  · rw [if_pos little]
    exact iff_of_true (Nat.zero_le _) (.inl little)
  · rw [if_neg little, or_iff_right little]
    constructor
    · intro most
      exact ⟨_, Nat.le_antisymm least most⟩
    · rintro ⟨order, power⟩
      rw [power]
      exact Nat.pow_le_pow_right (by decide) (orderBase2_le_iff.mpr (Nat.le_refl _))

end Unlock

/-- What `stm_unlock` decides on does to the protection what an unlock request is for. -/
theorem stmUnlockStatus_spec {exponent : Nat} (size : nor.size = 2 ^ exponent)
    (inside : ofs + len ≤ nor.size) (pos : 0 < len) {out : Option Byte}
    (result : stmUnlockStatus nor ofs len old = .ok out) :
    Unlocks nor old (out.getD old) ofs len := by
  rcases stmUnlockStatus_cases result with ⟨already, rfl⟩ | ⟨held, side, valid, outcome⟩
  · exact Unlocks.same nor ((stmIsUnlockedSr_iff inside).mp already)
  · have keeps := fun more x => unlockedStatus_keeps (x := x) size inside valid side more
    have whole := unlockedStatus_whole size inside valid side pos
    rcases outcome with ⟨rfl, same⟩ | ⟨rfl, less⟩
    · rw [same] at whole
      constructor
      · exact fun _ _ held => held
      · exact fun _ _ held _ => held
      · show nor.Free old ofs len ↔ _
        rw [whole, or_self]
    · constructor
      · exact fun side x => protects_mono side.symm less
      · exact keeps
      · have covered : ¬ nor.Free old ofs len := by
          rw [← stmIsUnlockedSr_iff inside, held]
          decide
        exact whole.trans (or_iff_right covered).symm

end OpaeXilinx.Nor
