import RangeAudit.Proofs.Unsigned

open RangeAudit.Interval (leastWord greatestWord between word)
open Set (Icc)

namespace RangeAudit

variable {a b c d n x y z : Int} {k : Nat} {memory? : Option Nat} {f : Failure}

theorem shiftLeft_le_shiftLeft_of_le (h : x ≤ y) (k : Nat) : x <<< k ≤ y <<< k := by
  rw [Int.shiftLeft_eq, Int.shiftLeft_eq]
  exact Int.mul_le_mul_of_nonneg_right h (by positivity)

theorem shiftLeft_le_of_nonpos (hx : x ≤ 0) (hyz : y ≤ z) : x <<< z.toNat ≤ x <<< y.toNat := by
  rw [Int.shiftLeft_eq, Int.shiftLeft_eq]
  exact Int.mul_le_mul_of_nonpos_left hx
    (pow_le_pow_right₀ one_le_two (Int.toNat_le_toNat hyz))

theorem shiftRight_le_shiftRight_of_le (h : x ≤ y) (k : Nat) : x >>> k ≤ y >>> k := by
  rw [Int.shiftRight_eq_div_pow, Int.shiftRight_eq_div_pow]
  exact Int.ediv_le_ediv (Int.natCast_pos.2 (Nat.two_pow_pos k)) h

theorem shiftRight_of_le (hyz : y ≤ z) :
    (0 ≤ x → x >>> z.toNat ≤ x >>> y.toNat) ∧ (x ≤ 0 → x >>> y.toNat ≤ x >>> z.toNat) := by
  obtain ⟨k, hk⟩ := Nat.exists_eq_add_of_le (Int.toNat_le_toNat hyz)
  rw [hk, Int.shiftRight_add]
  constructor
  · intro hx
    exact Int.shiftRight_le_of_nonneg (Int.le_shiftRight_of_nonneg hx)
  · intro hx
    exact Int.le_shiftRight_of_nonpos (Int.shiftRight_le_of_nonpos hx)

theorem ediv_mem_words (hlo : leastWord ≤ x) (hhi : x ≤ greatestWord) (hy : 0 < y) :
    x / y ∈ Icc leastWord greatestWord := by
  have hleast : leastWord ≤ 0 := by decide
  have hgreatest : 0 ≤ greatestWord := by decide
  rcases le_or_gt 0 x with hx | hx
  · exact ⟨hleast.trans (Int.ediv_nonneg hx hy.le), (Int.ediv_le_self y hx).trans hhi⟩
  · have hself : x ≤ x / y := by
      rw [Int.le_ediv_iff_mul_le hy]
      calc x * y ≤ x * 1 := Int.mul_le_mul_of_nonpos_left hx.le hy
        _ = x := mul_one x
    exact ⟨hlo.trans hself, (Int.ediv_neg_of_neg_of_pos hx hy).le.trans hgreatest⟩

theorem shiftRight_mem_words (hlo : leastWord ≤ x) (hhi : x ≤ greatestWord) (k : Nat) :
    x >>> k ∈ Icc leastWord greatestWord := by
  rw [Int.shiftRight_eq_div_pow]
  exact ediv_mem_words hlo hhi (Int.natCast_pos.2 (Nat.two_pow_pos k))

namespace Number

theorem shiftLeft_of_neg (memory? : Option Nat) (n : Int) (hy : y < 0) :
    shiftLeft memory? (.int n) (.int y) = .error .negativeShift :=
  shiftLeft_of_error (if_pos hy)

theorem shiftRight_of_neg (n : Int) (hy : y < 0) :
    shiftRight (.int n) (.int y) = .error .negativeShift := by
  have hneg : shiftRightInt n y = .error .negativeShift := if_pos hy
  simp only [shiftRight, shift, toInt?, hneg]
  rfl

theorem shiftRight_int (n : Int) (hy : 0 ≤ y) :
    shiftRight (.int n) (.int y) = .ok (.int (n >>> y.toNat)) := by
  simp only [shiftRight, shift, toInt?, shiftRightInt_eq n hy]
  rfl

theorem lt_neg_twoPow_iff (hn : 0 ≤ n) :
    lt (.int a) (twoPow (.int n)).neg = true ↔ a < -2 ^ n.toNat := by
  have hpow : twoPow (.int n) = .int (2 ^ n.toNat) := by
    simp [twoPow, toInt?, hn]
  simp [hpow, neg, toInt?]

theorem lt_neg_half (ha : a < 0) : lt (.int a) (twoPow (.int (-1))).neg = true := by
  have hhalf : twoPow (.int (-1)) = .double (.finite false (Nat.pow 2 52) (-53)) := by
    decide
  have horder : order (.int a) (.double (.finite true (Nat.pow 2 52) (-53))) =
      some (compare (-(a.natAbs : Int) * Nat.pow 2 53) (-(Nat.pow 2 52 : Nat) * Nat.pow 2 0)) := by
    simp [order, exact, Binary64.order, Binary64.rescale, Binary64.signed, ha]
  have hlt : -(a.natAbs : Int) * Nat.pow 2 53 < -(Nat.pow 2 52 : Nat) * Nat.pow 2 0 := by
    simp only [Nat.pow_eq]
    omega
  rw [hhalf, neg, Binary64.neg, lt, Bool.not_false, horder, compare_lt_iff_lt.2 hlt]
  rfl

end Number

theorem shiftLeft_lt_leastWord (hx : x < 0) (hy : 256 ≤ y) : x <<< y.toNat < leastWord := by
  calc x <<< y.toNat ≤ (-1 : Int) <<< y.toNat := shiftLeft_le_shiftLeft_of_le (by omega) _
    _ ≤ (-1 : Int) <<< (256 : Int).toNat := shiftLeft_le_of_nonpos (by decide) hy
    _ < leastWord := by decide

theorem lt_neg_pow_iff (hd : 0 ≤ d) (hd' : d ≤ 255) :
    a < -2 ^ (255 - d).toNat ↔ a <<< d.toNat < leastWord := by
  have hsplit : leastWord = -2 ^ (255 - d).toNat * 2 ^ d.toNat := by
    have hexp : (255 - d).toNat + d.toNat = 255 := by omega
    rw [neg_mul, ← pow_add, hexp]
    decide
  rw [Int.shiftLeft_eq, hsplit]
  exact (Int.mul_lt_mul_right (by positivity)).symm

namespace Corners

/-- Cut off if the greatest shift is no word, and otherwise shifted by the least count. -/
theorem shiftedLo_eq (hd : 0 ≤ d) :
    shiftedLo memory? ⟨.int a, .int b, .int c, .int d⟩ =
      if a <<< d.toNat < leastWord then .ok (.int leastWord)
      else Number.shiftLeft memory? (.int a) (.int c) := by
  rcases le_or_gt 0 a with ha | ha
  · have hword : ¬ a <<< d.toNat < leastWord :=
      (Interval.leastWord_neg.le.trans (shiftLeft_nonneg ha _)).not_gt
    simp [shiftedLo, leastCount_int, ha.not_gt, hword, bind, Except.bind]
  · have hroom : Number.lt (.int a) (Number.twoPow (.int (255 - min d 256))).neg = true ↔
        a <<< d.toNat < leastWord := by
      rcases le_or_gt d 255 with hle | hlt
      · rw [min_eq_left (by omega), Number.lt_neg_twoPow_iff (by omega), lt_neg_pow_iff hd hle]
      · rw [min_eq_right (by omega)]
        exact iff_of_true (Number.lt_neg_half ha) (shiftLeft_lt_leastWord ha hlt)
    by_cases hword : a <<< d.toNat < leastWord
    · rw [if_pos hword]
      simp [shiftedLo, greatestCount_int, Number.sub, Number.arith, Number.toInt?, ha,
        hroom.2 hword, bind, Except.bind, pure, Except.pure]
    · rw [if_neg hword]
      simp [shiftedLo, greatestCount_int, leastCount_int, Number.sub, Number.arith, Number.toInt?,
        ha, mt hroom.1 hword, bind, Except.bind]

theorem shiftedHi_of_word (hb : b ≤ greatestWord) (hd : 0 ≤ d) :
    shiftedHi memory? ⟨.int a, .int b, .int c, .int d⟩ =
      if greatestWord < b <<< d.toNat then .ok (.int greatestWord)
      else Number.shiftLeft memory? (.int b) (.int c) := by
  have hover : 0 < b ∧ 0 < d ∧ greatestWord < b <<< d.toNat ↔ greatestWord < b <<< d.toNat := by
    refine ⟨fun h => h.2.2, fun h => ⟨?_, ?_, h⟩⟩
    · by_contra! hle
      have hneg : b <<< d.toNat ≤ b <<< (0 : Int).toNat := shiftLeft_le_of_nonpos hle hd
      rw [Int.toNat_zero, Int.shiftLeft_zero] at hneg
      exact (hneg.trans hb).not_gt h
    · refine lt_of_le_of_ne hd fun h0 => ?_
      rw [← h0, Int.toNat_zero, Int.shiftLeft_zero] at h
      exact hb.not_gt h
  simp only [shiftedHi_eq hd, hover]

theorem shl_of_nonneg (hd : 0 ≤ d) :
    shl memory? ⟨.int a, .int b, .int c, .int d⟩ = (do
      let lo ← shiftedLo memory? ⟨.int a, .int b, .int c, .int d⟩
      let hi ← shiftedHi memory? ⟨.int a, .int b, .int c, .int d⟩
      return clamped lo hi) :=
  if_neg (by simpa using hd)

/-- Counts of both signs are allowed for only where neither bound is shifted. -/
theorem shl_of_mixed (hb : b ≤ greatestWord) (hc : c < 0) (hd : 0 ≤ d) :
    shl memory? ⟨.int a, .int b, .int c, .int d⟩ =
      if a <<< d.toNat < leastWord ∧ greatestWord < b <<< d.toNat then .ok word
      else .error .negativeShift := by
  rw [shl_of_nonneg hd, shiftedLo_eq hd, shiftedHi_of_word hb hd, Number.shiftLeft_of_neg _ a hc,
    Number.shiftLeft_of_neg _ b hc]
  by_cases hlo : a <<< d.toNat < leastWord
  · by_cases hhi : greatestWord < b <<< d.toNat
    · rw [if_pos hlo, if_pos hhi, if_pos ⟨hlo, hhi⟩]
      rfl
    · rw [if_pos hlo, if_neg hhi, if_neg fun h => hhi h.2]
      rfl
  · have hnone : ¬ (a <<< d.toNat < leastWord ∧ greatestWord < b <<< d.toNat) := fun h => hlo h.1
    rw [if_neg hlo, if_neg hnone]
    rfl

/-- A bound that is not cut off becomes too large when shifted by the least count. -/
def ShiftsTooFar (memory? : Option Nat) (a b c d : Int) (f : Failure) : Prop :=
  leastWord ≤ a <<< d.toNat ∧ Number.Oversize memory? a c f ∨
    b <<< d.toNat ≤ greatestWord ∧ Number.Oversize memory? b c f

theorem shiftedLo_of_count (hc : 0 ≤ c) (hcd : c ≤ d)
    (h : leastWord ≤ a <<< d.toNat → ∀ f, ¬ Number.Oversize memory? a c f) :
    shiftedLo memory? ⟨.int a, .int b, .int c, .int d⟩ =
      .ok (.int (if a <<< d.toNat < leastWord then leastWord else a <<< c.toNat)) := by
  rw [shiftedLo_eq (hc.trans hcd)]
  split
  · rfl
  · rename_i hword
    exact Number.shiftLeft_eq hc (h (not_lt.1 hword))

theorem shiftedHi_of_count (hb : b ≤ greatestWord) (hc : 0 ≤ c) (hcd : c ≤ d)
    (h : b <<< d.toNat ≤ greatestWord → ∀ f, ¬ Number.Oversize memory? b c f) :
    shiftedHi memory? ⟨.int a, .int b, .int c, .int d⟩ =
      .ok (.int (if greatestWord < b <<< d.toNat then greatestWord else b <<< c.toNat)) := by
  rw [shiftedHi_of_word hb (hc.trans hcd)]
  split
  · rfl
  · rename_i hword
    exact Number.shiftLeft_eq hc (h (not_lt.1 hword))

theorem shl_of_counts (hb : b ≤ greatestWord) (hc : 0 ≤ c) (hcd : c ≤ d)
    (hfits : ∀ f, ¬ ShiftsTooFar memory? a b c d f) :
    shl memory? ⟨.int a, .int b, .int c, .int d⟩ =
      .ok (between (.int (if a <<< d.toNat < leastWord then leastWord else a <<< c.toNat))
        (.int (if greatestWord < b <<< d.toNat then greatestWord else b <<< c.toNat))) := by
  have hleast : leastWord ≤ if a <<< d.toNat < leastWord then leastWord else a <<< c.toNat := by
    split
    · exact le_rfl
    · rename_i hword
      rcases le_or_gt 0 a with h0 | h0
      · exact Interval.leastWord_neg.le.trans (shiftLeft_nonneg h0 _)
      · exact (not_lt.1 hword).trans (shiftLeft_le_of_nonpos h0.le hcd)
  have hgreatest :
      (if greatestWord < b <<< d.toNat then greatestWord else b <<< c.toNat) ≤ greatestWord := by
    split
    · exact le_rfl
    · rename_i hword
      rcases le_or_gt 0 b with h0 | h0
      · exact (shiftLeft_le_shiftLeft h0 le_rfl hcd).trans (not_lt.1 hword)
      · have hself : b <<< c.toNat ≤ b <<< (0 : Int).toNat := shiftLeft_le_of_nonpos h0.le hc
        rw [Int.toNat_zero, Int.shiftLeft_zero] at hself
        exact hself.trans hb
  have hlo := shiftedLo_of_count (b := b) hc hcd fun hword f hf => hfits f (.inl ⟨hword, hf⟩)
  have hhi := shiftedHi_of_count (a := a) hb hc hcd fun hword f hf => hfits f (.inr ⟨hword, hf⟩)
  rw [shl_of_nonneg (hc.trans hcd), hlo, hhi]
  refine congrArg Except.ok ?_
  rw [clamped_int, max_eq_left hleast, min_eq_left hgreatest]

theorem ShiftsTooFar.shl (h : ShiftsTooFar memory? a b c d f) (hb : b ≤ greatestWord) (hc : 0 ≤ c)
    (hcd : c ≤ d) :
    ∃ g, shl memory? ⟨.int a, .int b, .int c, .int d⟩ = .error g ∧
      ShiftsTooFar memory? a b c d g := by
  rw [shl_of_nonneg (hc.trans hcd)]
  by_cases hlo : ∃ g, leastWord ≤ a <<< d.toNat ∧ Number.Oversize memory? a c g
  · obtain ⟨g, hword, hg⟩ := hlo
    rw [shiftedLo_eq (hc.trans hcd), if_neg hword.not_gt, hg.shiftLeft hc]
    exact ⟨g, rfl, .inl ⟨hword, hg⟩⟩
  · obtain ⟨hword, hf⟩ := h.resolve_left fun h => hlo ⟨f, h⟩
    rw [shiftedLo_of_count hc hcd fun hword f hf => hlo ⟨f, hword, hf⟩,
      shiftedHi_of_word hb (hc.trans hcd), if_neg hword.not_gt, hf.shiftLeft hc]
    exact ⟨f, rfl, .inr ⟨hword, hf⟩⟩

theorem shl_of_neg (hcd : c ≤ d) (hd : d < 0) :
    shl memory? ⟨.int a, .int b, .int c, .int d⟩ =
      .ok (between (.int (a >>> (-d).toNat)) (.int (b >>> (-c).toNat))) := by
  have hc : c < 0 := hcd.trans_lt hd
  simp [shl, hd, Number.abs_int, abs_of_neg hc, abs_of_neg hd, Number.shiftRight_int, hc.le, hd.le,
    bounded_int, bind, Except.bind, pure, Except.pure]

theorem shr_of_far (hcd : c ≤ d) (hd : d < 0) (hfar : c < -30) :
    shr memory? ⟨.int a, .int b, .int c, .int d⟩ = .ok word := by
  have hc : c < 0 := hcd.trans_lt hd
  have hreach : 30 < min (-c) 256 := by omega
  simp [shr, shrNegative, hd, Number.abs_int, abs_of_neg hc, Number.least_int, hreach, pure,
    Except.pure]

theorem shr_of_near (hcd : c ≤ d) (hd : d < 0) (hnear : -30 ≤ c) :
    shr memory? ⟨.int a, .int b, .int c, .int d⟩ = (do
      let lo ← Number.shiftLeft memory? (.int a) (.int (-d))
      let hi ← Number.shiftLeft memory? (.int b) (.int (-c))
      return clamped lo hi) := by
  have hc : c < 0 := hcd.trans_lt hd
  have hreach : ¬ 30 < min (-c) 256 := by omega
  simp [shr, shrNegative, hd, Number.abs_int, abs_of_neg hc, abs_of_neg hd, Number.least_int,
    hreach]

theorem shr_of_neg (hcd : c ≤ d) (hd : d < 0) (hnear : -30 ≤ c)
    (hlo : ∀ f, ¬ Number.Oversize memory? a (-d) f)
    (hhi : ∀ f, ¬ Number.Oversize memory? b (-c) f) :
    shr memory? ⟨.int a, .int b, .int c, .int d⟩ =
      .ok (between (.int (max (a <<< (-d).toNat) leastWord))
        (.int (min (b <<< (-c).toNat) greatestWord))) := by
  rw [shr_of_near hcd hd hnear, Number.shiftLeft_eq (by omega) hlo,
    Number.shiftLeft_eq (by omega) hhi, ← clamped_int]
  rfl

theorem shr_oversize (hcd : c ≤ d) (hd : d < 0) (hnear : -30 ≤ c)
    (h : Number.Oversize memory? a (-d) f ∨ Number.Oversize memory? b (-c) f) :
    ∃ g, shr memory? ⟨.int a, .int b, .int c, .int d⟩ = .error g ∧
      (Number.Oversize memory? a (-d) g ∨ Number.Oversize memory? b (-c) g) := by
  rw [shr_of_near hcd hd hnear]
  by_cases hlo : ∃ g, Number.Oversize memory? a (-d) g
  · obtain ⟨g, hg⟩ := hlo
    rw [hg.shiftLeft (by omega)]
    exact ⟨g, rfl, .inl hg⟩
  · have hf := h.resolve_left fun h => hlo ⟨f, h⟩
    rw [Number.shiftLeft_eq (by omega) fun f hf => hlo ⟨f, hf⟩, hf.shiftLeft (by omega)]
    exact ⟨f, rfl, .inr hf⟩

theorem shr_of_mixed (hc : c < 0) (hd : 0 ≤ d) :
    shr memory? ⟨.int a, .int b, .int c, .int d⟩ = .error .negativeShift := by
  simp [shr, leastCount_int, Number.trunc, Number.toInt?, Number.shiftRight_int a hd,
    Number.shiftRight_of_neg b hc, hd.not_gt, bind, Except.bind, pure, Except.pure]

end Corners

end RangeAudit
