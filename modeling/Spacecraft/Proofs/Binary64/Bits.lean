import Spacecraft.Proofs.Binary64.Special
import Spacecraft.Numeric.Binary64

/-!
# A float and its bit pattern

A `Float` is a valid binary64 bit pattern, and the model keeps one pattern for NaN. Packing
what a valid pattern unpacks to gives the pattern back, so a float is the float of its own
bits (`ofBits_toBits`) and is fixed by its unpacked form (`eq_of_view_eq`). Reading the
pattern as a natural, unpacking is a statement about its exponent and fraction fields
(`view_eq_fields`); from it follow the facts about `decode` that writing and reading a float
rest on: every finite float decodes, to a mantissa and exponent binary64 holds, and the bit
pattern these spell is the float's own (`ofBitsNat_decode`).
-/

namespace Spacecraft.Binary64

open Float.Model UnpackedFloat

theorem toBitVec_ofBitVec (v : BitVec 1) : (Sign.ofBitVec v).toBitVec = v := by
  revert v
  decide

/-- A bit pattern is its sign, exponent and mantissa fields put back together. -/
theorem packComponents_unpack (b : BitVec Format.binary64.numBits) :
    packComponents .binary64 (Sign.ofBitVec (unpackSign b)) (unpackExponent b)
      (unpackMantissa b) = b := by
  simp only [packComponents, toBitVec_ofBitVec, unpackSign, unpackExponent, unpackMantissa,
    BitVec.extractLsb]
  ext i hi
  grind

theorem packComponents_of_fields {b : BitVec Format.binary64.numBits}
    {e : BitVec Format.binary64.exponentBits} {m : BitVec Format.binary64.mantissaBitsWithoutImplicit}
    (he : unpackExponent b = e) (hm : unpackMantissa b = m) :
    packComponents .binary64 (Sign.ofBitVec (unpackSign b)) e m = b := by
  rw [← he, ← hm]
  exact packComponents_unpack b

/-- Packing what a valid bit pattern unpacks to gives the pattern back. -/
theorem pack_unpack {b : BitVec Format.binary64.numBits} (hv : Format.binary64.Valid b) :
    pack .binary64 (unpack .binary64 b) = b := by
  have hbias : Format.binary64.exponentBias = 1023 := rfl
  have hlt : (unpackMantissa b).toNat < 2 ^ 52 := (unpackMantissa b).isLt
  have hE : (unpackExponent b).toNat < 2 ^ 11 := (unpackExponent b).isLt
  unfold UnpackedFloat.unpack
  dsimp only
  split
  · -- the top exponent: an infinity, or the canonical NaN that validity asks for
    rename_i htop
    split
    · exact packComponents_of_fields htop ‹_›
    · exact (hv.eq_packedNaN htop ‹_›).symm
  · split
    · rename_i hzero
      split
      · exact packComponents_of_fields hzero ‹_›
      · -- a subnormal: its mantissa is below the implicit bit
        rename_i hm
        have hpos : 0 < (unpackMantissa b).toNat := by
          rcases Nat.eq_zero_or_pos (unpackMantissa b).toNat with h | h
          · exact absurd (BitVec.toNat_inj.mp (by simpa using h)) hm
          · exact h
        have hE0 : (unpackExponent b).toNat = 0 := by rw [hzero]; rfl
        have hlog : (unpackMantissa b).toNat.log2 < 52 := (Nat.log2_lt (by omega)).2 hlt
        unfold UnpackedFloat.pack
        simp only [hbias, hE0]
        rw [if_neg (by decide), if_neg (by change ¬ _ = 53; omega)]
        exact packComponents_of_fields hzero (by rw [BitVec.ofNat_toNat, BitVec.setWidth_eq])
    · -- a normal value: the implicit bit puts the mantissa's top bit at 52
      rename_i htop hzero
      have hne0 : (unpackExponent b).toNat ≠ 0 := fun h => hzero (BitVec.toNat_inj.mp (by simpa using h))
      have hnetop : (unpackExponent b).toNat ≠ 2047 :=
        fun h => htop (BitVec.toNat_inj.mp (by simpa using h))
      have hm : (BitVec.ofNat 1 1 ++ unpackMantissa b).toNat = 2 ^ 52 + (unpackMantissa b).toNat :=
        implicit_bit _
      have hlog : (BitVec.ofNat 1 1 ++ unpackMantissa b).toNat.log2 = 52 := by
        rw [hm]
        apply Nat.le_antisymm
        · exact Nat.lt_succ_iff.1 ((Nat.log2_lt (by omega)).2 (by omega))
        · exact (Nat.le_log2 (by omega)).2 (by omega)
      unfold UnpackedFloat.pack
      simp only [hbias, hlog]
      rw [if_neg (by omega), if_pos (by decide)]
      refine packComponents_of_fields ?_ ?_
      · apply BitVec.eq_of_toNat_eq
        simp only [BitVec.toNat_ofNat]
        omega
      · apply BitVec.eq_of_toNat_eq
        rw [BitVec.toNat_ofNat, hm]
        change _ = (2 ^ 52 + (unpackMantissa b).toNat) % 2 ^ 52
        omega

/-- A float is the float of its own bits. -/
theorem ofBits_toBits (x : Float) : Float.ofBits x.toBits = x := by
  obtain ⟨⟨bits, hv⟩⟩ := x
  show Float.ofModel (Float.Model.pack (UnpackedFloat.unpack .binary64 bits.toBitVec)) = _
  simp only [Float.Model.pack, pack_unpack hv, UInt64.ofBitVec_toBitVec]


/-- A float is the float of its bit pattern read as a natural. -/
theorem ofBitsNat_toNat (x : Float) : ofBitsNat x.toBits.toNat = x := by
  have hb : x.toBits.toNat.toUInt64 = x.toBits := UInt64.toNat.inj (by simp)
  rw [ofBitsNat, hb, ofBits_toBits]

/-! ## The fields of a bit pattern -/

theorem exponent_toNat (b : BitVec Format.binary64.numBits) :
    (@unpackExponent .binary64 b).toNat = b.toNat / 2 ^ 52 % 2048 := by
  simp [unpackExponent, Nat.shiftRight_eq_div_pow]

theorem mantissa_toNat (b : BitVec Format.binary64.numBits) :
    (@unpackMantissa .binary64 b).toNat = b.toNat % 2 ^ 52 := by
  simp [unpackMantissa]


theorem exponent_eq_top_iff (b : BitVec Format.binary64.numBits) :
    unpackExponent b = -(BitVec.ofNat Format.binary64.exponentBits 1) ↔ b.toNat / 2 ^ 52 % 2048 = 2047 := by
  rw [← BitVec.toNat_inj, exponent_toNat]
  simp

theorem exponent_eq_zero_iff (b : BitVec Format.binary64.numBits) :
    unpackExponent b = BitVec.ofNat Format.binary64.exponentBits 0 ↔ b.toNat / 2 ^ 52 % 2048 = 0 := by
  rw [← BitVec.toNat_inj, exponent_toNat]
  simp

theorem mantissa_eq_zero_iff (b : BitVec Format.binary64.numBits) :
    unpackMantissa b = BitVec.ofNat Format.binary64.mantissaBitsWithoutImplicit 0 ↔ b.toNat % 2 ^ 52 = 0 := by
  rw [← BitVec.toNat_inj, mantissa_toNat]
  simp

theorem sign_eq (b : BitVec Format.binary64.numBits) :
    Sign.ofBitVec (unpackSign b) =
      if signBit ≤ b.toNat then .negative else .positive := by
  have hb : b.toNat < 2 ^ 64 := b.isLt
  have hs : (unpackSign b).toNat = b.toNat / 2 ^ 63 := by
    simp [unpackSign, Nat.shiftRight_eq_div_pow]
    omega
  have hz : unpackSign b = BitVec.ofNat 1 0 ↔ b.toNat < signBit := by
    rw [← BitVec.toNat_inj, hs]
    simp only [signBit, BitVec.toNat_ofNat]
    omega
  unfold Sign.ofBitVec
  by_cases h : b.toNat < signBit
  · rw [if_pos (hz.2 h), if_neg (by omega)]
  · rw [if_neg (mt hz.1 h), if_pos (by omega)]


/-- The unpacked form of a float, read off its bit pattern as a natural: the exponent field,
the fraction field and the sign bit. -/
theorem view_eq_fields (x : Float) :
    view x =
      let b := x.toBits.toNat
      let s : Sign := if signBit ≤ b then .negative else .positive
      if b / 2 ^ 52 % 2048 = 2047 then (if b % 2 ^ 52 = 0 then .infinity s else .notANumber)
      else if b / 2 ^ 52 % 2048 = 0 then
        (if hF : b % 2 ^ 52 = 0 then .zero s else .finite s (b % 2 ^ 52) (-1074) (by omega))
      else .finite s (b % 2 ^ 52 + 2 ^ 52) ((b / 2 ^ 52 % 2048 : Nat) - 1075) (by positivity) := by
  have hbias : Format.binary64.exponentBias = 1023 := rfl
  have hs := sign_eq x.toModel.toBits.toBitVec
  have he := exponent_toNat x.toModel.toBits.toBitVec
  have hm := mantissa_toNat x.toModel.toBits.toBitVec
  have htop := exponent_eq_top_iff x.toModel.toBits.toBitVec
  have hzero := exponent_eq_zero_iff x.toModel.toBits.toBitVec
  have hfrac := mantissa_eq_zero_iff x.toModel.toBits.toBitVec
  have hx : x.toModel.toBits.toBitVec.toNat = x.toBits.toNat := rfl
  rw [hx] at hs he hm htop hzero hfrac
  unfold view Float.Model.unpack UnpackedFloat.unpack
  dsimp only
  -- the right side is decided on the fields first, then unpacking is split to match it
  by_cases hE : x.toBits.toNat / 2 ^ 52 % 2048 = 2047
  · rw [if_pos hE]
    split
    next ht =>
      split
      next hz => rw [if_pos (hfrac.1 hz), hs]
      next hz => rw [if_neg (fun h => hz (hfrac.2 h))]
    next ht => exact absurd (htop.2 hE) ht
  · rw [if_neg hE]
    split
    next ht => exact absurd (htop.1 ht) hE
    next ht =>
      by_cases hZ : x.toBits.toNat / 2 ^ 52 % 2048 = 0
      · rw [if_pos hZ]
        split
        next hz =>
          split
          next hf => rw [dif_pos (hfrac.1 hf), hs]
          next hf =>
            rw [dif_neg (fun h => hf (hfrac.2 h)), hs]
            congr 1
            rw [he, hbias, hZ]
            rfl
        next hz => exact absurd (hzero.2 hZ) hz
      · rw [if_neg hZ]
        split
        next hz => exact absurd (hzero.1 hz) hZ
        next hz =>
          rw [hs]
          congr 1
          · rw [implicit_bit, hm]
            omega
          · rw [he, hbias]
            rfl

/-! ## A float through its unpacked form -/

/-- Packing the unpacked form of a float gives the float back. -/
theorem ofModel_pack_view (x : Float) : Float.ofModel (Float.Model.pack (view x)) = x :=
  ofBits_toBits x

/-- Two floats with the same unpacked form are equal. -/
theorem eq_of_view_eq {x y : Float} (h : view x = view y) : x = y := by
  rw [← ofModel_pack_view x, ← ofModel_pack_view y, h]

/-- Every NaN is the one NaN `0.0 / 0.0`: the model keeps a single NaN pattern. -/
theorem eq_nan_of_isNaN {x : Float} (h : x.isNaN = true) : x = 0.0 / 0.0 := by
  apply eq_of_view_eq
  change (view x).isNaN = true at h
  have hnan : view (0.0 / 0.0 : Float) = .notANumber := rfl
  rw [hnan]
  cases hv : view x <;> simp_all [UnpackedFloat.isNaN]

/-- An infinity is the infinity of its side of zero. -/
theorem eq_signedInf {x : Float} (h : x.isInf = true) : x = signedInf (decide (x < 0.0)) := by
  change (view x).isInf = true at h
  have h0 : view (0.0 : Float) = .zero .positive := rfl
  have hne : view x ≠ .notANumber := by
    intro hv
    rw [hv] at h
    cases h
  have hlt := lt_iff_rank hne (y := 0.0) (by rw [h0]; exact UnpackedFloat.noConfusion)
  rw [h0, rank_zero] at hlt
  apply eq_of_view_eq
  cases hv : view x with
  | infinity s =>
    rw [hv] at hlt
    cases s with
    | negative =>
      rw [decide_eq_true (hlt.2 (neg_lt_zero.2 infRank_pos))]
      rfl
    | positive =>
      rw [decide_eq_false (fun hl => by simpa [rank] using (hlt.1 hl).trans infRank_pos)]
      rfl
  | _ =>
    rw [hv] at h
    cases h

/-! ## Decoding -/

section Decode

variable {x : Float} {d : Dyadic}

/-- Decoding reads the fields of the bit pattern: the top exponent is no finite value, the
least one is subnormal, and the others carry the implicit bit. -/
theorem decode_eq (x : Float) :
    decode x =
      let b := x.toBits.toNat
      if b / 2 ^ 52 % 2048 = 2047 then none
      else if b / 2 ^ 52 % 2048 = 0 then some ⟨signBit ≤ b, b % 2 ^ 52, -1074⟩
      else some ⟨signBit ≤ b, b % 2 ^ 52 + 2 ^ 52, ((b / 2 ^ 52 % 2048 : Nat) : Int) - 1075⟩ := by
  simp only [decode, Nat.pow_eq, ge_iff_le]

/-- A float that is neither NaN nor infinite decodes to a dyadic value. -/
theorem decode_isSome (hn : x.isNaN = false) (hi : x.isInf = false) : ∃ d, decode x = some d := by
  change (view x).isNaN = false at hn
  change (view x).isInf = false at hi
  rw [decode_eq]
  by_cases hE : x.toBits.toNat / 2 ^ 52 % 2048 = 2047
  · -- the top exponent unpacks to an infinity or NaN
    rw [view_eq_fields] at hn hi
    dsimp only at hn hi
    rw [if_pos hE] at hn hi
    by_cases hF : x.toBits.toNat % 2 ^ 52 = 0
    · rw [if_pos hF] at hi
      cases hi
    · rw [if_neg hF] at hn
      cases hn
  · dsimp only
    rw [if_neg hE]
    split <;> exact ⟨_, rfl⟩

/-- Decoding gives a mantissa and an exponent binary64 holds. -/
theorem canonical_of_decode (h : decode x = some d) : Canonical d.mant d.exp := by
  rw [decode_eq] at h
  dsimp only at h
  split at h
  · cases h
  · split at h <;> cases h <;> refine ⟨⟨?_, ?_, ?_⟩, ?_⟩ <;> dsimp only <;> omega

/-- The sign of a decoded value is the sign bit. -/
theorem neg_of_decode (h : decode x = some d) : d.neg = signBitSet x := by
  rw [decode_eq] at h
  dsimp only at h
  split at h
  · cases h
  · split at h <;> cases h <;> simp [signBitSet]

/-- A finite float is the float of the bit pattern its decoded sign, mantissa and exponent
spell, in the form rounding writes a result. -/
theorem ofBitsNat_decode (h : decode x = some d) :
    ofBitsNat (if d.neg then (d.exp + 1074).toNat * 2 ^ 52 + d.mant + signBit
      else (d.exp + 1074).toNat * 2 ^ 52 + d.mant) = x := by
  have hlt : x.toBits.toNat < 2 ^ 64 := x.toBits.toNat_lt
  conv_rhs => rw [← ofBitsNat_toNat x]
  congr 1
  rw [decode_eq] at h
  dsimp only at h
  split at h
  · cases h
  · split at h <;> cases h <;> dsimp only
    all_goals
      by_cases hs : signBit ≤ x.toBits.toNat
      · rw [if_pos (decide_eq_true hs)]
        unfold signBit at hs ⊢
        omega
      · rw [if_neg (fun h => hs (of_decide_eq_true h))]
        unfold signBit at hs
        omega

/-- A decoded value is zero exactly when the float equals zero. -/
theorem beq_zero_iff (h : decode x = some d) : (x == 0.0) = true ↔ d.mant = 0 := by
  have h0 : (0.0 : Float) = 0 := by decide
  rw [h0, ← isZero_iff_beq_zero, IsZero, view_eq_fields]
  rw [decode_eq] at h
  dsimp only at h ⊢
  split at h
  · cases h
  · rename_i hE
    rw [if_neg hE]
    split at h
    · rename_i hZ
      cases h
      rw [if_pos hZ]
      split
      · rename_i hF
        exact ⟨fun _ => hF, fun _ => ⟨_, rfl⟩⟩
      · rename_i hF
        exact ⟨fun ⟨_, hs⟩ => (by cases hs), fun h => absurd h hF⟩
    · rename_i hZ
      cases h
      rw [if_neg hZ]
      exact ⟨fun ⟨_, hs⟩ => (by cases hs), fun h => by dsimp only at h; omega⟩

/-- A decoded zero is the zero of its sign. -/
theorem signedZero_decode (h : decode x = some d) (hm : d.mant = 0) : signedZero d.neg = x := by
  have hb := ofBitsNat_decode h
  have he : d.exp = -1074 := by
    have := canonical_of_decode h
    rcases this.normal with h52 | he
    · omega
    · exact he
  rw [hm, he] at hb
  unfold signedZero
  have hz : ofBitsNat 0 = 0.0 := by decide
  split <;> simp_all

end Decode

end Spacecraft.Binary64
