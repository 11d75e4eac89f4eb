import RangeAudit.Proofs.Enclosure
import RangeAudit.Proofs.Operation

open RangeAudit.Interval (leastWord greatestWord between)
open Set (Icc)

namespace RangeAudit

variable {a b c d n w x y z : Int} {memory? : Option Nat} {f : Failure}

theorem Interval.contains_point (h : x = y) : (point (.int x)).contains y :=
  contains_between.2 ⟨h.le, h.ge⟩

namespace Number

theorem natPow_eq (base exponent : Nat) : natPow base exponent = base ^ exponent := by
  unfold natPow
  split
  · rename_i h
    rcases Nat.le_one_iff_eq_zero_or_eq_one.1 h with rfl | rfl
    · exact (zero_pow_eq exponent).symm
    · simp
  · rfl

theorem shiftRightInt_eq (n : Int) (hy : 0 ≤ y) : shiftRightInt n y = .ok (n >>> y.toNat) := by
  rw [shiftRightInt, if_neg hy.not_gt, Int.shiftRight_eq_div_pow]
  split
  · rename_i h
    have hlt : n.natAbs < 2 ^ y.toNat :=
      Nat.lt_log2_self.trans (Nat.pow_lt_pow_right (by decide) h)
    split
    · rw [Int.ediv_eq_neg_one_of_neg_of_le (by omega) (by omega)]
    · rw [Int.ediv_eq_zero_of_lt (by omega) (by omega)]
  · rw [Int.fdiv_eq_ediv_of_nonneg _ (by positivity)]
    rfl

end Number

namespace Corners

theorem mod_contains (ha : 0 ≤ a) (hx : x ∈ Icc a b) (hy : y ∈ Icc c d) (hpos : 0 < y)
    (hword : x % y ≤ greatestWord) :
    (mod ⟨.int a, .int b, .int c, .int d⟩).contains (x % y) := by
  have hv : IsWord (x % y) := ⟨Int.emod_nonneg x hpos.ne', hword⟩
  obtain ⟨size, hsize⟩ : ∃ size, greatestWord < size ∧ b < size ∧ d < size :=
    ⟨max greatestWord (max b d) + 1, by omega, by omega, by omega⟩
  exact (mod_encloses hx.2 hy.2 (ha.trans hx.1) hpos hv hsize.1 hsize.2.1 hsize.2.2).contains

theorem pow_isBidirectedOn (ha : 0 ≤ a) (t : Set Int) :
    IsBidirectedOn (fun x y => x ^ y.toNat) (Icc a b) t where
  left y _ := .inl fun x hx z _ h => pow_le_pow_left₀ (ha.trans hx.1) h y.toNat
  right x hx := by
    rcases (ha.trans hx.1).eq_or_lt with rfl | hpos
    · exact .inr fun y _ z _ h => pow_le_pow_of_le_one le_rfl zero_le_one (Int.toNat_le_toNat h)
    · exact .inl fun y _ z _ h => pow_le_pow_right₀ hpos (Int.toNat_le_toNat h)

theorem power?_int (hx : 0 ≤ x) (hy : 0 ≤ y) :
    power? (.int x) (.int y) = some (x ^ y.toNat) := by
  have hpow : Number.powInt? (.int x) (.int y) = some (x ^ y.toNat) := by
    rw [Number.powInt?]
    simp only [Number.toInt?, Number.natPow_eq]
    rw [Int.natCast_pow, Int.toNat_of_nonneg hx]
  simp [power?, isInfinite, hx, hy, hpow]

theorem powers_coversWords (ha : 0 ≤ a) (hab : a ≤ b) (hc : 0 ≤ c) (hcd : c ≤ d) :
    (powers ⟨.int a, .int b, .int c, .int d⟩).CoversWords
      (Set.image2 (fun x y => x ^ y.toNat) (Icc a b) (Icc c d)) := by
  have hb : 0 ≤ b := ha.trans hab
  have hd : 0 ≤ d := hc.trans hcd
  obtain ⟨m, n, hm, hn, hull⟩ :=
    hull_int (a ^ c.toNat) [a ^ d.toNat, b ^ c.toNat, b ^ d.toNat]
  have hpowers : powers ⟨.int a, .int b, .int c, .int d⟩ =
      between (.int (max m leastWord)) (.int (min n greatestWord)) := by
    rw [← hull, powers, power?_int ha hc, power?_int ha hd, power?_int hb hc, power?_int hb hd]
    rfl
  rw [hpowers]
  exact (Interval.IsSaturatedHull.of_corners (pow_isBidirectedOn ha _) hab hcd hm hn).coversWords

theorem pow_int (left : Interval) :
    pow ⟨.int a, .int b, .int c, .int d⟩ left =
      if a = 0 ∧ b = 0 then
        if 0 < c then .point 0 else if c = 0 ∧ d = 0 then .point 1 else .unsignedWord
      else if a = 1 ∧ b = 1 then .point 1
      else if c = 0 ∧ d = 0 then .point 1
      else if c = 1 ∧ d = 1 then left
      else powers ⟨.int a, .int b, .int c, .int d⟩ := by
  simp [pow, divisorIsZero]

theorem pow_contains (ha : 0 ≤ a) (hc : 0 ≤ c) (hx : x ∈ Icc a b) (hy : y ∈ Icc c d)
    (hword : x ^ y.toNat ≤ greatestWord) :
    (pow ⟨.int a, .int b, .int c, .int d⟩ (between (.int a) (.int b))).contains (x ^ y.toNat) := by
  have hx0 : 0 ≤ x := ha.trans hx.1
  have hpow : 0 ≤ x ^ y.toNat := pow_nonneg hx0 _
  obtain ⟨hax, hxb⟩ := hx
  obtain ⟨hcy, hyd⟩ := hy
  rw [pow_int]
  split
  · obtain rfl : x = 0 := by omega
    split
    · exact Interval.contains_point (zero_pow (by omega)).symm
    split
    · obtain rfl : y = 0 := by omega
      exact Interval.contains_point rfl
    · exact Interval.contains_between.2 ⟨hpow, hword⟩
  split
  · obtain rfl : x = 1 := by omega
    exact Interval.contains_point (one_pow _).symm
  split
  · obtain rfl : y = 0 := by omega
    exact Interval.contains_point (pow_zero x).symm
  split
  · obtain rfl : y = 1 := by omega
    rw [Int.toNat_one, pow_one]
    exact Interval.contains_between.2 ⟨hax, hxb⟩
  · exact powers_coversWords ha (hax.trans hxb) hc (hcy.trans hyd) _
      ⟨x, ⟨hax, hxb⟩, y, ⟨hcy, hyd⟩, rfl⟩ (Interval.leastWord_neg.le.trans hpow) hword

theorem shr_int (hc : 0 ≤ c) (hcd : c ≤ d) :
    shr memory? ⟨.int a, .int b, .int c, .int d⟩ =
      .ok (between (.int (a >>> d.toNat)) (.int (b >>> c.toNat))) := by
  have hd : 0 ≤ d := hc.trans hcd
  simp [shr, leastCount, Number.trunc, Number.shiftRight, Number.shift, Number.toInt?,
    Number.shiftRightInt_eq, bounded_int, hc, hd, hd.not_gt, bind, Except.bind, pure, Except.pure]

theorem shiftRight_mem (ha : 0 ≤ a) (hx : x ∈ Icc a b) (hy : y ∈ Icc c d) :
    x >>> y.toNat ∈ Icc (a >>> d.toNat) (b >>> c.toNat) := by
  have hpos (k : Nat) : (0 : Int) < (2 ^ k : Nat) := Int.natCast_pos.2 (Nat.two_pow_pos k)
  have hpow {m n : Int} (h : m ≤ n) : ((2 ^ m.toNat : Nat) : Int) ≤ (2 ^ n.toNat : Nat) :=
    Int.ofNat_le.2 (Nat.pow_le_pow_right (by decide) (Int.toNat_le_toNat h))
  have hx0 : 0 ≤ x := ha.trans hx.1
  simp only [Int.shiftRight_eq_div_pow]
  constructor
  · calc a / (2 ^ d.toNat : Nat) ≤ x / (2 ^ d.toNat : Nat) := Int.ediv_le_ediv (hpos _) hx.1
      _ ≤ x / (2 ^ y.toNat : Nat) := ediv_le_ediv_left hx0 (hpos _) (hpow hy.2)
  · calc x / (2 ^ y.toNat : Nat) ≤ x / (2 ^ c.toNat : Nat) :=
          ediv_le_ediv_left hx0 (hpos _) (hpow hy.1)
      _ ≤ b / (2 ^ c.toNat : Nat) := Int.ediv_le_ediv (hpos _) hx.2

end Corners

namespace Operator

/-- Remainders, powers and right shifts hold every result up to the greatest word. -/
theorem gives_unsigned_results (ha : 0 ≤ a) (hc : 0 ≤ c) (hcd : c ≤ d) (memory? : Option Nat) :
    ((c = 0 → (between (.int c) (.int d)).isWritable) →
      ∃ i, Operator.mod.Gives (between (.int a) (.int b)) (between (.int c) (.int d)) i ∧
        ∀ x ∈ Icc a b, ∀ y ∈ Icc c d, 0 < y → x % y ≤ greatestWord → i.contains (x % y)) ∧
    (c = 0 → ¬ (between (.int c) (.int d)).isWritable →
      Operator.mod.FailsWith (between (.int a) (.int b)) (between (.int c) (.int d))
        .tooLongToWrite) ∧
    (∃ i, Operator.pow.Gives (between (.int a) (.int b)) (between (.int c) (.int d)) i ∧
      ∀ x ∈ Icc a b, ∀ y ∈ Icc c d, x ^ y.toNat ≤ greatestWord → i.contains (x ^ y.toNat)) ∧
    (∃ i, (Operator.shr memory?).Gives (between (.int a) (.int b)) (between (.int c) (.int d)) i ∧
      ∀ x ∈ Icc a b, ∀ y ∈ Icc c d, x >>> y.toNat ≤ greatestWord → i.contains (x >>> y.toNat)) := by
  have hzero : (0 : Int) ∈ Icc c d ↔ c = 0 :=
    ⟨fun h => le_antisymm h.1 hc, fun h => ⟨h.le, hc.trans hcd⟩⟩
  have hmod := Operator.mod.canWarn_between a b c d
  rw [hzero] at hmod
  refine ⟨fun hr => ?_, fun h0 hr => ?_, ?_, ?_⟩
  · refine ⟨_, (hmod.2 fun _ => hr).gives (apply_between _ a b c d), ?_⟩
    intro x hx y hy hpos hword
    exact Corners.mod_contains ha hx hy hpos hword
  · exact failsWith_of_not_canWarn fun hwarn => hr (hmod.1 hwarn rfl h0)
  · refine ⟨_, (gives_between_iff_of_not_isDivision rfl).2 rfl, ?_⟩
    intro x hx y hy hword
    exact Corners.pow_contains ha hc hx hy hword
  · refine ⟨_, (gives_between_iff_of_not_isDivision rfl).2 (Corners.shr_int hc hcd), ?_⟩
    intro x hx y hy _
    exact Interval.contains_between.2 (Corners.shiftRight_mem ha hx hy)

theorem digits_contain_results :
    ∃ i j k, Operator.mod.Gives (between (.int 0) (.int 9)) (between (.int 0) (.int 4)) i ∧
      Operator.pow.Gives (between (.int 0) (.int 9)) (between (.int 0) (.int 4)) j ∧
      (Operator.shr none).Gives (between (.int 0) (.int 9)) (between (.int 0) (.int 4)) k ∧
      i.contains (9 % 4) ∧ j.contains (0 ^ 0) ∧ j.contains (9 ^ 4) ∧ k.contains (9 >>> 3) := by
  have hwritable : (between (.int 0) (.int 4)).isWritable := by decide +kernel
  obtain ⟨hmod, -, ⟨j, hj, hpow⟩, ⟨k, hk, hshr⟩⟩ :=
    gives_unsigned_results (b := 9) (le_refl 0) (le_refl 0) (show (0 : Int) ≤ 4 by decide) none
  obtain ⟨i, hi, hmod⟩ := hmod fun _ => hwritable
  exact ⟨i, j, k, hi, hj, hk, hmod 9 (by decide) 4 (by decide) (by decide) (by decide),
    hpow 0 (by decide) 0 (by decide) (by decide), hpow 9 (by decide) 4 (by decide) (by decide),
    hshr 9 (by decide) 3 (by decide) (by decide)⟩

/-- A remainder by a divisor from zero up to a number that is too long to write. -/
theorem longDivisor_gives_nothing :
    (7 : Int) % 4 = 3 ∧ (4 : Int) ∈ Icc 0 (Number.writtenBelow : Int) ∧
      Operator.mod.FailsWith (between (.int 7) (.int 7))
        (between (.int 0) (.int Number.writtenBelow)) .tooLongToWrite := by
  have hfour : (4 : Int) ≤ Number.writtenBelow :=
    (show (4 : Int) ≤ Nat.pow 2 256 by decide).trans (Int.ofNat_le.2 Number.pow_le_writtenBelow)
  refine ⟨rfl, ⟨by decide, hfour⟩, failsWith_of_not_canWarn ?_⟩
  rw [canWarn_between]
  exact fun h => Interval.not_isWritable_writtenBelow (h rfl ⟨le_rfl, Int.natCast_nonneg _⟩)

end Operator

theorem shiftLeft_nonneg (hx : 0 ≤ x) (k : Nat) : 0 ≤ x <<< k := by
  rw [Int.shiftLeft_eq]
  positivity

theorem shiftLeft_le_shiftLeft (hx : 0 ≤ x) (hxz : x ≤ z) (hyw : y ≤ w) :
    x <<< y.toNat ≤ z <<< w.toNat := by
  rw [Int.shiftLeft_eq, Int.shiftLeft_eq]
  exact mul_le_mul hxz (pow_le_pow_right₀ one_le_two (Int.toNat_le_toNat hyw)) (by positivity)
    (hx.trans hxz)

theorem shiftLeft_lt_shiftLeft (hx : 0 < x) (hy : 0 ≤ y) (hyw : y < w) :
    x <<< y.toNat < x <<< w.toNat := by
  rw [Int.shiftLeft_eq, Int.shiftLeft_eq]
  exact mul_lt_mul_of_pos_left (pow_lt_pow_right₀ one_lt_two (by omega)) hx

theorem greatestWord_lt_shiftLeft (hx : 0 < x) (hy : 256 ≤ y) : greatestWord < x <<< y.toNat := by
  have hone : (1 : Int) <<< (256 : Int).toNat ≤ x <<< y.toNat :=
    shiftLeft_le_shiftLeft zero_le_one (by omega) hy
  exact lt_of_lt_of_le (by decide) hone

theorem shiftRight_greatestWord_lt_iff (hb : 0 < b) :
    greatestWord >>> (min d 256).toNat < b ↔ greatestWord < b <<< d.toNat := by
  rcases le_total d 256 with hle | hle
  · rw [min_eq_left hle, Int.shiftRight_eq_div_pow, Int.ediv_lt_iff_lt_mul (by positivity),
      Int.shiftLeft_eq']
  · rw [min_eq_right hle]
    have hzero : greatestWord >>> (256 : Int).toNat = 0 := by decide
    exact iff_of_true (hzero ▸ hb) (greatestWord_lt_shiftLeft hb hle)

namespace Number

/-- Too many places for an integer, or for the memory. -/
inductive Oversize (memory? : Option Nat) (n count : Int) : Failure → Prop
  | digits (hn : n ≠ 0) (hcount : count ≠ 0) (h : placeLimit < shiftedPlaces n count.toNat) :
      Oversize memory? n count .tooManyDigits
  | memory (hn : n ≠ 0) (hcount : count ≠ 0) (hplaces : shiftedPlaces n count.toNat ≤ placeLimit)
      (h : ∃ memory ∈ memory?, memory < shiftedPlaces n count.toNat) :
      Oversize memory? n count .outOfMemory

theorem any_lt_iff {places : Nat} :
    memory?.any (· < places) ↔ ∃ memory ∈ memory?, memory < places := by
  cases memory? with
  | none => simp
  | some memory => simp

theorem shiftLeft_of_int {m : Int} (h : shiftLeftInt memory? n y = .ok m) :
    shiftLeft memory? (.int n) (.int y) = .ok (.int m) := by
  simp only [shiftLeft, shift, toInt?, h]
  rfl

theorem shiftLeft_of_error (h : shiftLeftInt memory? n y = .error f) :
    shiftLeft memory? (.int n) (.int y) = .error f := by
  simp only [shiftLeft, shift, toInt?, h]
  rfl

theorem shiftLeft_eq (hy : 0 ≤ y) (h : ∀ f, ¬ Oversize memory? n y f) :
    shiftLeft memory? (.int n) (.int y) = .ok (.int (n <<< y.toNat)) := by
  apply shiftLeft_of_int
  rw [shiftLeftInt, if_neg hy.not_gt]
  split
  · rename_i hzero
    rcases hzero with rfl | rfl
    · rw [Int.shiftLeft_eq, zero_mul]
    · rw [Int.toNat_zero, Int.shiftLeft_zero]
  · rename_i hne
    obtain ⟨hn, hcount⟩ := not_or.1 hne
    have hplaces : shiftedPlaces n y.toNat ≤ placeLimit :=
      not_lt.1 fun hlt => h _ (.digits hn hcount hlt)
    have hmemory : ¬ memory?.any (· < shiftedPlaces n y.toNat) :=
      fun hlt => h _ (.memory hn hcount hplaces (any_lt_iff.1 hlt))
    rw [if_neg hplaces.not_gt, if_neg hmemory, Int.shiftLeft_eq']
    rfl

theorem Oversize.shiftLeft (h : Oversize memory? n y f) (hy : 0 ≤ y) :
    shiftLeft memory? (.int n) (.int y) = .error f := by
  apply shiftLeft_of_error
  rw [shiftLeftInt, if_neg hy.not_gt]
  cases h with
  | digits hn hcount hlt => rw [if_neg (not_or.2 ⟨hn, hcount⟩), if_pos hlt]
  | memory hn hcount hplaces hlt =>
    rw [if_neg (not_or.2 ⟨hn, hcount⟩), if_neg hplaces.not_gt, if_pos (any_lt_iff.2 hlt)]

/-- The memory takes what a shift to the left sets up if the result is a word. -/
def HoldsWords (memory? : Option Nat) : Prop :=
  ∀ memory ∈ memory?, 10 ≤ memory

theorem shiftedPlaces_le (hn : 0 < n) (hword : n <<< y.toNat ≤ greatestWord) :
    shiftedPlaces n y.toNat ≤ 10 := by
  have hsize : n.natAbs * 2 ^ y.toNat < 2 ^ 256 := by
    have hcast : ((n.natAbs * 2 ^ y.toNat : Nat) : Int) = n <<< y.toNat := by
      rw [Int.shiftLeft_eq', Int.natCast_mul, Int.natAbs_of_nonneg hn.le]
    have hgreatest : greatestWord < (2 ^ 256 : Nat) := by decide
    exact Int.ofNat_lt.1 (hcast ▸ hword.trans_lt hgreatest)
  have hbits : n.natAbs.log2 + y.toNat < 256 := by
    rw [← Nat.pow_lt_pow_iff_right (show 1 < 2 by decide), Nat.pow_add]
    calc 2 ^ n.natAbs.log2 * 2 ^ y.toNat ≤ n.natAbs * 2 ^ y.toNat :=
          Nat.mul_le_mul_right _ (Nat.log2_self_le (by omega))
      _ < 2 ^ 256 := hsize
  unfold shiftedPlaces
  omega

theorem HoldsWords.not_oversize (hmemory : HoldsWords memory?) (hn : 0 ≤ n)
    (hword : n <<< y.toNat ≤ greatestWord) (f : Failure) : ¬ Oversize memory? n y f := by
  intro h
  have hpos (h0 : n ≠ 0) : 0 < n := lt_of_le_of_ne hn h0.symm
  cases h with
  | digits h0 _ hlt =>
    have hlimit : 10 ≤ placeLimit := by decide
    exact ((shiftedPlaces_le (hpos h0) hword).trans hlimit).not_gt hlt
  | memory h0 _ _ hlt =>
    obtain ⟨memory, hmem, hlt⟩ := hlt
    exact ((shiftedPlaces_le (hpos h0) hword).trans (hmemory memory hmem)).not_gt hlt

theorem HoldsWords.shiftLeft (hmemory : HoldsWords memory?) (hn : 0 ≤ n) (hy : 0 ≤ y)
    (hword : n <<< y.toNat ≤ greatestWord) :
    shiftLeft memory? (.int n) (.int y) = .ok (.int (n <<< y.toNat)) :=
  shiftLeft_eq hy (hmemory.not_oversize hn hword)

theorem shiftLeft_zero (memory? : Option Nat) (n : Int) :
    shiftLeft memory? (.int n) (.int 0) = .ok (.int n) :=
  shiftLeft_of_int (by simp [shiftLeftInt])

end Number

namespace Corners

theorem leastCount_int :
    leastCount ⟨.int a, .int b, .int c, .int d⟩ = .ok (.int c) := rfl

theorem greatestCount_int :
    greatestCount ⟨.int a, .int b, .int c, .int d⟩ = .int (min d 256) := by
  simp [greatestCount, Number.least_int]

theorem shiftedLo_int (hmemory : Number.HoldsWords memory?) (ha : 0 ≤ a) (hc : 0 ≤ c)
    (hword : a <<< c.toNat ≤ greatestWord) :
    shiftedLo memory? ⟨.int a, .int b, .int c, .int d⟩ = .ok (.int (a <<< c.toNat)) := by
  simp [shiftedLo, leastCount_int, hmemory.shiftLeft ha hc hword, ha.not_gt, bind, Except.bind]

theorem shiftedHi_eq (hd : 0 ≤ d) :
    shiftedHi memory? ⟨.int a, .int b, .int c, .int d⟩ =
      if 0 < b ∧ 0 < d ∧ greatestWord < b <<< d.toNat then .ok (.int greatestWord)
      else Number.shiftLeft memory? (.int b) (.int c) := by
  have hcount : 0 ≤ min d 256 := le_min hd (by decide)
  by_cases h : 0 < b ∧ 0 < d
  · simp [shiftedHi, greatestCount_int, leastCount_int, Number.shiftRight, Number.shift,
      Number.toInt?, Number.shiftRightInt_eq _ hcount, shiftRight_greatestWord_lt_iff h.1, h, bind,
      Except.bind, pure, Except.pure]
  · have hskip : ¬ (0 < b ∧ 0 < d ∧ greatestWord < b <<< d.toNat) :=
      fun hall => h ⟨hall.1, hall.2.1⟩
    rw [if_neg hskip]
    simp [shiftedHi, greatestCount_int, leastCount_int, h, bind, Except.bind]

theorem shiftedHi_int (hmemory : Number.HoldsWords memory?) (hb : 0 ≤ b) (hc : 0 ≤ c)
    (hcd : c ≤ d) :
    ∃ n : Int, shiftedHi memory? ⟨.int a, .int b, .int c, .int d⟩ = .ok (.int n) ∧
      min n greatestWord =
        if greatestWord < b <<< d.toNat then greatestWord else b <<< c.toNat := by
  rw [shiftedHi_eq (hc.trans hcd)]
  by_cases hover : greatestWord < b <<< d.toNat
  · rw [if_pos hover]
    have hpos : 0 < b := by
      by_contra! hle
      rw [le_antisymm hle hb, Int.shiftLeft_eq, zero_mul] at hover
      exact absurd hover (by decide)
    -- A count of zero skips the test; the bound is itself beyond the greatest word then.
    rcases (hc.trans hcd).eq_or_lt with rfl | hd
    · obtain rfl : c = 0 := le_antisymm hcd hc
      rw [Int.toNat_zero, Int.shiftLeft_zero] at hover
      rw [if_neg fun h => h.2.1.false, Number.shiftLeft_zero]
      exact ⟨b, rfl, min_eq_right hover.le⟩
    · exact ⟨greatestWord, if_pos ⟨hpos, hd, hover⟩, min_self _⟩
  · have hle : b <<< c.toNat ≤ greatestWord :=
      (shiftLeft_le_shiftLeft hb le_rfl hcd).trans (not_lt.1 hover)
    rw [if_neg hover, if_neg fun h => hover h.2.2]
    exact ⟨b <<< c.toNat, hmemory.shiftLeft hb hc hle, min_eq_left hle⟩

theorem shl_int (hmemory : Number.HoldsWords memory?) (ha : 0 ≤ a) (hab : a ≤ b) (hc : 0 ≤ c)
    (hcd : c ≤ d) (hword : a <<< c.toNat ≤ greatestWord) :
    shl memory? ⟨.int a, .int b, .int c, .int d⟩ = .ok (between (.int (a <<< c.toNat))
      (.int (if greatestWord < b <<< d.toNat then greatestWord else b <<< c.toNat))) := by
  obtain ⟨n, hhi, hn⟩ := shiftedHi_int (a := a) hmemory (ha.trans hab) hc hcd
  have hlo : max (a <<< c.toNat) leastWord = a <<< c.toNat :=
    max_eq_left (Interval.leastWord_neg.le.trans (shiftLeft_nonneg ha _))
  rw [← hn, ← hlo, ← clamped_int, shl, if_neg (by simpa using hc.trans hcd),
    shiftedLo_int hmemory ha hc hword, hhi]
  rfl

theorem shl_contains_iff (hmemory : Number.HoldsWords memory?) (ha : 0 ≤ a) (hc : 0 ≤ c)
    (hx : x ∈ Icc a b) (hy : y ∈ Icc c d) (hword : x <<< y.toNat ≤ greatestWord) :
    ∃ i, shl memory? ⟨.int a, .int b, .int c, .int d⟩ = .ok i ∧ (i.contains (x <<< y.toNat) ↔
      x <<< y.toNat ≤ b <<< c.toNat ∨ greatestWord < b <<< d.toNat) := by
  have hleast : a <<< c.toNat ≤ x <<< y.toNat := shiftLeft_le_shiftLeft ha hx.1 hy.1
  refine ⟨_, shl_int hmemory ha (hx.1.trans hx.2) hc (hy.1.trans hy.2) (hleast.trans hword), ?_⟩
  rw [Interval.contains_between, and_iff_right hleast]
  split
  · rename_i hover
    exact iff_of_true hword (.inr hover)
  · rename_i hover
    exact (or_iff_left hover).symm

theorem shifts_le_iff (ha : 0 ≤ a) (hab : a ≤ b) (hc : 0 ≤ c) (hcd : c ≤ d) :
    (∀ x ∈ Icc a b, ∀ y ∈ Icc c d, x <<< y.toNat ≤ greatestWord →
      x <<< y.toNat ≤ b <<< c.toNat ∨ greatestWord < b <<< d.toNat) ↔
    b = 0 ∨ c = d ∨ greatestWord < b <<< d.toNat := by
  constructor
  · intro h
    by_contra! hmiss
    obtain ⟨hb, hne, hword⟩ := hmiss
    have hgreatest := h b ⟨hab, le_rfl⟩ d ⟨hcd, le_rfl⟩ hword
    have hlt : b <<< c.toNat < b <<< d.toNat :=
      shiftLeft_lt_shiftLeft (by omega) hc (lt_of_le_of_ne hcd hne)
    rcases hgreatest with hle | hover
    · exact hlt.not_ge hle
    · exact hword.not_gt hover
  · rintro h x ⟨hax, hxb⟩ y ⟨hcy, hyd⟩ -
    rcases h with rfl | rfl | hover
    · obtain rfl : x = 0 := by omega
      left
      simp only [Int.shiftLeft_eq, zero_mul, le_refl]
    · obtain rfl : y = c := by omega
      exact .inl (shiftLeft_le_shiftLeft (ha.trans hax) hxb le_rfl)
    · exact .inr hover

end Corners

namespace Operator

/-- Left shifts are held up to the least shift of the greatest value, or all of them. -/
theorem apply_shl_contains_iff (hmemory : Number.HoldsWords memory?) (ha : 0 ≤ a) (hab : a ≤ b)
    (hc : 0 ≤ c) (hcd : c ≤ d) :
    (∀ x ∈ Icc a b, ∀ y ∈ Icc c d, x <<< y.toNat ≤ greatestWord →
      ∃ i, (Operator.shl memory?).Gives (between (.int a) (.int b)) (between (.int c) (.int d)) i ∧
        (i.contains (x <<< y.toNat) ↔
          x <<< y.toNat ≤ b <<< c.toNat ∨ greatestWord < b <<< d.toNat)) ∧
    ((∀ x ∈ Icc a b, ∀ y ∈ Icc c d, x <<< y.toNat ≤ greatestWord →
      ∃ i, (Operator.shl memory?).Gives (between (.int a) (.int b)) (between (.int c) (.int d)) i ∧
        i.contains (x <<< y.toNat)) ↔
      b = 0 ∨ c = d ∨ greatestWord < b <<< d.toNat) := by
  have hgives (i : Interval) :
      (Operator.shl memory?).Gives (between (.int a) (.int b)) (between (.int c) (.int d)) i ↔
        Corners.shl memory? ⟨.int a, .int b, .int c, .int d⟩ = .ok i :=
    gives_between_iff_of_not_isDivision rfl
  simp only [hgives]
  have hheld : ∀ x ∈ Icc a b, ∀ y ∈ Icc c d, x <<< y.toNat ≤ greatestWord →
      ∃ i, Corners.shl memory? ⟨.int a, .int b, .int c, .int d⟩ = .ok i ∧
        (i.contains (x <<< y.toNat) ↔
          x <<< y.toNat ≤ b <<< c.toNat ∨ greatestWord < b <<< d.toNat) := by
    intro x hx y hy hword
    exact Corners.shl_contains_iff hmemory ha hc hx hy hword
  refine ⟨hheld, ?_⟩
  rw [← Corners.shifts_le_iff ha hab hc hcd]
  refine forall₂_congr fun x hx => forall₂_congr fun y hy => forall_congr' fun hword => ?_
  obtain ⟨i, hi, hiff⟩ := hheld x hx y hy hword
  constructor
  · rintro ⟨j, hj, hcontains⟩
    cases hi.symm.trans hj
    exact hiff.1 hcontains
  · intro h
    exact ⟨i, hi, hiff.2 h⟩

theorem digits_contain_shifts :
    ∃ i, (Operator.shl (some 10)).Gives (between (.int 1) (.int 9))
        (between (.int 0) (.int 255)) i ∧ i.contains (1 <<< 255) := by
  have hover : greatestWord < 9 <<< (255 : Int).toNat := by decide +kernel
  have hmemory : Number.HoldsWords (some 10) := by simp [Number.HoldsWords]
  obtain ⟨-, hiff⟩ := apply_shl_contains_iff hmemory (show (0 : Int) ≤ 1 by decide)
    (show (1 : Int) ≤ 9 by decide) (le_refl 0) (show (0 : Int) ≤ 255 by decide)
  exact hiff.2 (.inr (.inr hover)) 1 (by decide) 255 (by decide) (by decide +kernel)

/-- One shifted by up to four places is taken to stay one. -/
theorem shifts_miss_greatest :
    (Operator.shl none).Gives (between (.int 1) (.int 1)) (between (.int 0) (.int 4))
        (between (.int 1) (.int 1)) ∧
      (1 : Int) <<< 4 = 16 ∧ 16 ≤ greatestWord ∧
      (between (.int 1) (.int 1)).contains 16 = false := by
  rw [gives_between_iff_of_not_isDivision rfl]
  decide +kernel

end Operator

end RangeAudit
