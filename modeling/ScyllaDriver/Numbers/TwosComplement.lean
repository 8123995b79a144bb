import ScyllaDriver.Numbers.Gmp

/-!
# Two's complement codec of Varint and Decimal

`export_twos_complement` and `import_twos_complement` of `NumberParser.c`.

The encoder has one branch per sign. For a negative number it sizes the
buffer from the bit length of the magnitude and takes one byte less when
`mpz_scan1` finds the lowest set bit just below a byte boundary. That test is
meant for the numbers `-2 ^ (8 * m - 1)`, which need no extra byte; but it
looks at the lowest bit only, so it also catches every other odd multiple of
`2 ^ (8 * m - 1)` of the same byte length. There the number added to `z` is
too small, the sum stays negative, and `mpz_export` drops its sign.

The main result says that these multiples are the only numbers the codec
does not carry.
-/

namespace ScyllaDriver
namespace Numbers

open Positional

/-- What `export_twos_complement` hands back: the buffer and `*size`. -/
structure Exported where
  bytes : List Byte
  size : Nat
deriving DecidableEq

/-- Bytes reserved for a negative number before the power-of-two test. -/
def negativeWidth (z : Int) : Nat :=
  mpzSizeinbase2 z / 8 + 1

/-- Bytes reserved for a negative number after the power-of-two test. For
`n = 1` the `size_t` difference `8 * (n - 1) - 1` wraps to `2 ^ 64 - 1`, which
is no bit index; over the integers it is `-1`, which is none either. -/
def adjustedWidth (z : Int) : Nat :=
  let n := negativeWidth z
  if (mpzScan1 z : Int) = 8 * ((n : Int) - 1) - 1 then n - 1 else n

/-- `export_twos_complement`. -/
def exportTwosComplement (z : Int) : Exported :=
  if z = 0 then
    ⟨[0], 1⟩
  else if z < 0 then
    let temp := z + 2 ^ (8 * adjustedWidth z)
    let bytes := mpzExport temp
    ⟨bytes, bytes.length⟩
  else
    -- one byte more than the magnitude, so that the top bit stays clear
    ⟨0 :: mpzExport z, (mpzSizeinbase2 z + 7) / 8 + 1⟩

/-- `import_twos_complement` of the first `size` bytes of a buffer. -/
def importTwosComplement (data : List Byte) (size : Nat) : Int :=
  let number := mpzImport (data.take size)
  if (data.headD 0).toNat &&& 0x80 = 0x80 then
    number - 2 ^ (8 * size)
  else
    number

/-- Decode what the encoder produced. -/
def reimport (z : Int) : Int :=
  importTwosComplement (exportTwosComplement z).bytes (exportTwosComplement z).size

theorem and_0x80_eq_iff (b : Byte) : b.toNat &&& 0x80 = 0x80 ↔ 128 ≤ b.toNat := by
  have h : ∀ n : Fin 256, n.val &&& 0x80 = 0x80 ↔ 128 ≤ n.val := by
    decide +kernel
  exact h ⟨b.toNat, UInt8.toNat_lt b⟩

/-- Decoding an exported magnitude only depends on whether the magnitude
reaches half of the range its byte count spans. -/
theorem importTwosComplement_mpzExport {t : Int} (ht : t ≠ 0) :
    importTwosComplement (mpzExport t) (mpzExport t).length =
      if 128 * 256 ^ ((digits 256 t.natAbs).length - 1) ≤ t.natAbs then
        (t.natAbs : Int) - 2 ^ (8 * (digits 256 t.natAbs).length)
      else
        (t.natAbs : Int) := by
  have hne : t.natAbs ≠ 0 := by
    simpa using ht
  obtain ⟨d, ds, hds, -⟩ := digits_eq_cons 256 hne
  have hlt : ∀ x ∈ d :: ds, x < 256 := by
    intro x hx
    exact digits_lt (by decide) x (hds ▸ hx)
  have hd : d < 256 := hlt d (by simp)
  have hhead : ((mpzExport t).headD 0).toNat = d := by
    simp only [mpzExport, hds, List.map_cons, List.headD_cons]
    simpa using Nat.mod_eq_of_lt hd
  have htop :=
    le_head_iff (b := 256) (by decide) (d := d) (fun x hx => hlt x (List.mem_cons_of_mem _ hx)) 128
  rw [← hds, value_digits] at htop
  have hlen : (digits 256 t.natAbs).length - 1 = ds.length := by
    simp [hds]
  simp only [importTwosComplement, List.take_length, mpzImport_mpzExport, and_0x80_eq_iff]
  simp only [hhead, htop, hlen, mpzExport_length]

theorem pow_256 (k : Nat) : 256 ^ k = 2 ^ (8 * k) := by
  rw [pow_mul]
  norm_num

/-- A sum that fills exactly `n` bytes and reaches half of them decodes to the
negative number it stands for. -/
theorem importTwosComplement_wrapped {n : Nat} (hn : 1 ≤ n) {t : Int}
    (hlow : (2 : Int) ^ (8 * n - 1) ≤ t) (hhigh : t < 2 ^ (8 * n)) :
    importTwosComplement (mpzExport t) (mpzExport t).length = t - 2 ^ (8 * n) := by
  have hpos : (0 : Int) < 2 ^ (8 * n - 1) := by
    positivity
  have habs : (t.natAbs : Int) = t := by
    omega
  have hlow' : 2 ^ (8 * n - 1) ≤ t.natAbs := by
    have h : (2 : Int) ^ (8 * n - 1) ≤ (t.natAbs : Int) := by
      rw [habs]
      exact hlow
    exact_mod_cast h
  have hhigh' : t.natAbs < 2 ^ (8 * n) := by
    have h : (t.natAbs : Int) < 2 ^ (8 * n) := by
      rw [habs]
      exact hhigh
    exact_mod_cast h
  obtain ⟨k, rfl⟩ : ∃ k, n = k + 1 := ⟨n - 1, by omega⟩
  have hhalf : 128 * 256 ^ k = 2 ^ (8 * (k + 1) - 1) := by
    rw [pow_256]
    have h : 8 * (k + 1) - 1 = 7 + 8 * k := by omega
    rw [h, pow_add]
    norm_num
  have hlen : (digits 256 t.natAbs).length = k + 1 := by
    apply digits_length_eq (by decide)
    · have h : 256 ^ k ≤ 128 * 256 ^ k := Nat.le_mul_of_pos_left _ (by decide)
      omega
    · rw [pow_256]
      exact hhigh'
  rw [importTwosComplement_mpzExport (by omega), hlen]
  simp only [Nat.add_sub_cancel, hhalf, hlow', if_true, habs]

theorem exportTwosComplement_size (z : Int) :
    (exportTwosComplement z).size = (exportTwosComplement z).bytes.length := by
  unfold exportTwosComplement
  split_ifs with hz hneg
  · rfl
  · rfl
  · -- a magnitude of `s` bits takes `(s + 7) / 8` bytes
    have hs : 1 ≤ mpzSizeinbase2 z := by
      have h := natAbs_lt_pow_mpzSizeinbase2 hz
      by_contra h0
      have h0' : mpzSizeinbase2 z = 0 := by omega
      rw [h0'] at h
      simp at h
      omega
    have hlow :=
      pow_le_natAbs_of_lt_mpzSizeinbase2 hz (k := mpzSizeinbase2 z - 1) (by omega)
    have hhigh := natAbs_lt_pow_mpzSizeinbase2 hz
    obtain ⟨k, hk⟩ : ∃ k, (mpzSizeinbase2 z + 7) / 8 = k + 1 :=
      ⟨(mpzSizeinbase2 z + 7) / 8 - 1, by omega⟩
    have hlen : (digits 256 z.natAbs).length = k + 1 := by
      apply digits_length_eq (by decide)
      · rw [pow_256]
        refine le_trans ?_ hlow
        exact Nat.pow_le_pow_right (by decide) (by omega)
      · rw [pow_256]
        refine lt_of_lt_of_le hhigh ?_
        exact Nat.pow_le_pow_right (by decide) (by omega)
    simp [mpzExport_length, hlen, hk]

theorem reimport_zero : reimport 0 = 0 := by
  decide

variable {z : Int}

theorem reimport_pos (hz : 0 < z) : reimport z = z := by
  have hbytes : (exportTwosComplement z).bytes = 0 :: mpzExport z := by
    simp [exportTwosComplement, hz.ne', not_lt.mpr hz.le]
  unfold reimport
  rw [exportTwosComplement_size, hbytes]
  simp [importTwosComplement, abs_of_pos hz]

theorem natAbs_lt_half (hz : z < 0) : z.natAbs < 2 ^ (8 * negativeWidth z - 1) := by
  refine lt_of_lt_of_le (natAbs_lt_pow_mpzSizeinbase2 hz.ne) ?_
  apply Nat.pow_le_pow_right (by decide)
  unfold negativeWidth
  omega

theorem reimport_neg (hz : z < 0) :
    reimport z =
      importTwosComplement (mpzExport (z + 2 ^ (8 * adjustedWidth z)))
        (mpzExport (z + 2 ^ (8 * adjustedWidth z))).length := by
  simp [reimport, exportTwosComplement, hz, hz.ne]

theorem reimport_of_adjustedWidth_eq (hz : z < 0) (hw : adjustedWidth z = negativeWidth z) :
    reimport z = z := by
  have hlt := natAbs_lt_half hz
  have hn : 1 ≤ negativeWidth z := by
    unfold negativeWidth
    omega
  have hhalf : (2 : Int) ^ (8 * negativeWidth z) =
      2 ^ (8 * negativeWidth z - 1) + 2 ^ (8 * negativeWidth z - 1) := by
    have h : 8 * negativeWidth z = (8 * negativeWidth z - 1) + 1 := by omega
    rw [h, pow_succ]
    simp only [Nat.add_sub_cancel]
    ring
  have hltI : -z < 2 ^ (8 * negativeWidth z - 1) := by
    have h : (z.natAbs : Int) < 2 ^ (8 * negativeWidth z - 1) := by
      exact_mod_cast hlt
    omega
  rw [reimport_neg hz, hw, importTwosComplement_wrapped hn (by omega) (by omega)]
  omega

/-- The negative numbers the encoder takes for a negative power of two by
mistake: an odd factor from 3 to 255 in front of `2 ^ (8 * m - 1)`. -/
def MistakenPower (z : Int) : Prop :=
  ∃ m c : Nat,
    1 ≤ m ∧ c % 2 = 1 ∧ 3 ≤ c ∧ c < 256 ∧ z = -((c : Int) * 2 ^ (8 * m - 1))

/-- The test fires exactly on odd multiples of `2 ^ (8 * m - 1)` that fit the
reserved width. -/
theorem adjustedWidth_cases (hz : z < 0) :
    adjustedWidth z = negativeWidth z ∨
      ∃ m c : Nat,
        1 ≤ m ∧ c % 2 = 1 ∧ c < 256 ∧ adjustedWidth z = m ∧ z.natAbs = c * 2 ^ (8 * m - 1) := by
  by_cases hscan : (mpzScan1 z : Int) = 8 * ((negativeWidth z : Int) - 1) - 1
  · right
    obtain ⟨c, hodd, hc⟩ := natAbs_eq_odd_mul_pow_mpzScan1 hz.ne
    have hm : 1 ≤ negativeWidth z - 1 := by omega
    have hk : mpzScan1 z = 8 * (negativeWidth z - 1) - 1 := by omega
    have hlt := natAbs_lt_half hz
    refine ⟨negativeWidth z - 1, c, hm, hodd, ?_, ?_, by rw [hc, hk]⟩
    · -- the reserved width bounds the odd factor
      rw [hc, hk] at hlt
      have hsplit : 8 * negativeWidth z - 1 = 8 + (8 * (negativeWidth z - 1) - 1) := by omega
      rw [hsplit, pow_add] at hlt
      exact lt_of_mul_lt_mul_right hlt (by positivity)
    · simp [adjustedWidth, hscan]
  · left
    simp [adjustedWidth, hscan]

theorem adjustedWidth_of_odd_mul (hz : z < 0) {m c : Nat} (hm : 1 ≤ m) (hodd : c % 2 = 1)
    (hc : c < 256) (hzc : z.natAbs = c * 2 ^ (8 * m - 1)) : adjustedWidth z = m := by
  have hscan := mpzScan1_eq hodd hzc
  have hlow : 2 ^ (8 * m - 1) ≤ z.natAbs := by
    rw [hzc]
    exact Nat.le_mul_of_pos_left _ (by omega)
  have hhigh : z.natAbs < 2 ^ (8 * m + 7) := by
    have hsplit : 8 * m + 7 = 8 + (8 * m - 1) := by omega
    rw [hzc, hsplit, pow_add]
    exact Nat.mul_lt_mul_of_pos_right hc (by positivity)
  have hsize : mpzSizeinbase2 z = z.natAbs.size := by
    simp [mpzSizeinbase2, hz.ne]
  have h₁ : 8 * m - 1 < mpzSizeinbase2 z := by
    rw [hsize]
    exact Nat.lt_size.mpr hlow
  have h₂ : mpzSizeinbase2 z ≤ 8 * m + 7 := by
    rw [hsize]
    exact Nat.size_le.mpr hhigh
  have hwidth : negativeWidth z = m + 1 := by
    unfold negativeWidth
    omega
  have hfire : (mpzScan1 z : Int) = 8 * ((negativeWidth z : Int) - 1) - 1 := by
    rw [hscan, hwidth]
    omega
  simp [adjustedWidth, hfire, hwidth]

/-- A true negative power `-2 ^ (8 * m - 1)` survives in one byte less. -/
theorem reimport_power (hz : z < 0) {m : Nat} (hm : 1 ≤ m) (hw : adjustedWidth z = m)
    (hzm : z.natAbs = 2 ^ (8 * m - 1)) : reimport z = z := by
  have hzI : z = -(2 : Int) ^ (8 * m - 1) := by
    have h : (z.natAbs : Int) = 2 ^ (8 * m - 1) := by
      exact_mod_cast hzm
    omega
  have hhalf : (2 : Int) ^ (8 * m) = 2 ^ (8 * m - 1) + 2 ^ (8 * m - 1) := by
    have h : 8 * m = (8 * m - 1) + 1 := by omega
    rw [h, pow_succ]
    simp only [Nat.add_sub_cancel]
    ring
  have hpos : (0 : Int) < 2 ^ (8 * m - 1) := by
    positivity
  rw [reimport_neg hz, hw, importTwosComplement_wrapped hm (by omega) (by omega)]
  omega

/-- No mistaken power survives: the exported magnitude is `c - 2` times the
power, and no sign correction by a power of 256 leads back to `z`. -/
theorem reimport_ne_of_mistakenPower (h : MistakenPower z) : reimport z ≠ z := by
  obtain ⟨m, c, hm, hodd, hlow, hhigh, rfl⟩ := h
  have hpos : (0 : Int) < 2 ^ (8 * m - 1) := by
    positivity
  have hneg : -((c : Int) * 2 ^ (8 * m - 1)) < 0 := by
    have : (0 : Int) < (c : Int) * 2 ^ (8 * m - 1) := by
      positivity
    omega
  have habs : (-((c : Int) * 2 ^ (8 * m - 1))).natAbs = c * 2 ^ (8 * m - 1) := by
    rw [Int.natAbs_neg, Int.natAbs_mul, Int.natAbs_pow]
    simp
  have hw := adjustedWidth_of_odd_mul hneg hm hodd hhigh habs
  have hdouble : (2 : Int) ^ (8 * m) = 2 * 2 ^ (8 * m - 1) := by
    have h : 8 * m = (8 * m - 1) + 1 := by omega
    rw [h, pow_succ]
    simp only [Nat.add_sub_cancel]
    ring
  have hsum : -((c : Int) * 2 ^ (8 * m - 1)) + 2 ^ (8 * m) =
      -(((c - 2 : Nat) : Int) * 2 ^ (8 * m - 1)) := by
    rw [hdouble, Nat.cast_sub (by omega)]
    push_cast
    ring
  have hsumAbs : (-(((c - 2 : Nat) : Int) * 2 ^ (8 * m - 1))).natAbs =
      (c - 2) * 2 ^ (8 * m - 1) := by
    rw [Int.natAbs_neg, Int.natAbs_mul, Int.natAbs_pow]
    simp
  have hsumPos : 0 < (c - 2) * 2 ^ (8 * m - 1) := by
    have : 0 < c - 2 := by omega
    positivity
  rw [reimport_neg hneg, hw, hsum, importTwosComplement_mpzExport (by omega), hsumAbs]
  split_ifs with htop
  · -- the decoder subtracts `256 ^ k`, so `c - 1` would be a power of 256
    intro heq
    have hmul : ((c : Int) - 1) * 2 ^ (8 * m) =
        2 ^ (8 * (digits 256 ((c - 2) * 2 ^ (8 * m - 1))).length) := by
      rw [Nat.cast_mul, Nat.cast_sub (by omega)] at heq
      push_cast at heq
      rw [hdouble]
      linarith
    generalize (digits 256 ((c - 2) * 2 ^ (8 * m - 1))).length = k at hmul
    have hmulN : (c - 1) * 2 ^ (8 * m) = 2 ^ (8 * k) := by
      have hcast : (((c - 1) * 2 ^ (8 * m) : Nat) : Int) = ((2 ^ (8 * k) : Nat) : Int) := by
        rw [Nat.cast_mul, Nat.cast_sub (by omega)]
        push_cast
        exact hmul
      exact_mod_cast hcast
    rcases Nat.lt_or_ge m k with hk | hk
    · have hsplit : 8 * k = 8 * (k - m) + 8 * m := by omega
      rw [hsplit, pow_add] at hmulN
      have hc := Nat.eq_of_mul_eq_mul_right (by positivity) hmulN
      have hbig : 2 ^ 8 ≤ 2 ^ (8 * (k - m)) := Nat.pow_le_pow_right (by decide) (by omega)
      omega
    · have hle : 2 ^ (8 * k) ≤ 2 ^ (8 * m) := Nat.pow_le_pow_right (by decide) (by omega)
      have hge : 2 * 2 ^ (8 * m) ≤ (c - 1) * 2 ^ (8 * m) := Nat.mul_le_mul_right _ (by omega)
      have : 0 < 2 ^ (8 * m) := by positivity
      omega
  · intro heq
    omega

theorem reimport_of_not_mistakenPower (hgood : ¬ MistakenPower z) : reimport z = z := by
  rcases lt_trichotomy z 0 with hneg | rfl | hpos
  · rcases adjustedWidth_cases hneg with hw | ⟨m, c, hm, hodd, hc, hw, hz⟩
    · exact reimport_of_adjustedWidth_eq hneg hw
    · by_cases h3 : 3 ≤ c
      · refine absurd ⟨m, c, hm, hodd, h3, hc, ?_⟩ hgood
        have hzI : (z.natAbs : Int) = (c : Int) * 2 ^ (8 * m - 1) := by
          exact_mod_cast hz
        omega
      · have hc1 : c = 1 := by omega
        subst hc1
        rw [Nat.one_mul] at hz
        exact reimport_power hneg hm hw hz
  · exact reimport_zero
  · exact reimport_pos hpos

/--
The codec carries an integer exactly when it is not one of the mistaken
powers.
-/
theorem reimport_eq_iff
    (z : Int) :
    reimport z = z ↔ ¬ MistakenPower z := by
  constructor
  · intro h hbad
    exact reimport_ne_of_mistakenPower hbad h
  · exact reimport_of_not_mistakenPower

/-- `-384` is `-3 * 2 ^ 7`: it is written as the single byte `0x80` and read
back as `-128`. -/
theorem reimport_neg_384 :
    exportTwosComplement (-384) = ⟨[0x80], 1⟩ ∧
      reimport (-384) = -128 ∧
      ¬ ∀ z : Int, reimport z = z := by
  have h : reimport (-384) = -128 := by
    decide +kernel
  refine ⟨by decide +kernel, h, ?_⟩
  intro hall
  have := hall (-384)
  omega

end Numbers
end ScyllaDriver
