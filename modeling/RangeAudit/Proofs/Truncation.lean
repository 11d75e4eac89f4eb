import RangeAudit.Proofs.Enclosure

open RangeAudit.Interval (leastWord greatestWord between unsignedWord)
open Set (Icc image2)

namespace RangeAudit

variable {a b c d u v x y : Int} {i : Interval} {s : Set Int}

/-- The quotient is negative and not exact, so that truncation rounds it up. -/
def RoundsUp (x y : Int) : Prop :=
  ¬ y ∣ x ∧ (x < 0 ∧ 0 < y ∨ 0 < x ∧ y < 0)

namespace RoundsUp

theorem tdiv_eq (h : RoundsUp x y) : x.tdiv y = x.fdiv y + 1 := by
  obtain ⟨hdvd, hsigns⟩ := h
  rw [Int.tdiv_eq_fdiv, if_neg hdvd]
  rcases hsigns with ⟨hx, hy⟩ | ⟨hx, hy⟩
  · rw [if_neg hx.not_ge, if_pos hy.le, Int.sign_eq_one_of_pos hy]
  · rw [if_pos hx.le, if_neg hy.not_ge]

theorem tdiv_nonpos (h : RoundsUp x y) : x.tdiv y ≤ 0 := by
  rw [h.tdiv_eq]
  apply Int.add_one_le_of_lt
  rcases h.2 with ⟨hx, hy⟩ | ⟨hx, hy⟩
  · exact Int.fdiv_neg_of_neg_of_pos hx hy
  · rw [← Int.neg_fdiv_neg]
    exact Int.fdiv_neg_of_neg_of_pos (neg_neg_of_pos hx) (neg_pos.2 hy)

end RoundsUp

theorem tdiv_eq_of_not_roundsUp (h : ¬ RoundsUp x y) : x.tdiv y = x.fdiv y := by
  rw [Int.tdiv_eq_fdiv]
  by_cases hdvd : y ∣ x
  · rw [if_pos hdvd, add_zero]
  have hsigns : ¬ (x < 0 ∧ 0 < y ∨ 0 < x ∧ y < 0) := fun hsigns => h ⟨hdvd, hsigns⟩
  have hx : x ≠ 0 := by
    rintro rfl
    exact hdvd (dvd_zero y)
  rw [if_neg hdvd]
  rcases lt_trichotomy y 0 with hy | rfl | hy
  · rw [if_neg (by omega), if_neg hy.not_ge, Int.sign_eq_neg_one_of_neg hy, Int.add_right_neg,
      add_zero]
  · simp
  · rw [if_pos (by omega), if_pos hy.le, add_zero]

theorem fdiv_le_tdiv (x y : Int) : x.fdiv y ≤ x.tdiv y := by
  by_cases h : RoundsUp x y
  · rw [h.tdiv_eq]
    exact Int.le_add_one le_rfl
  · rw [tdiv_eq_of_not_roundsUp h]

theorem tdiv_le_fdiv_add_one (x y : Int) : x.tdiv y ≤ x.fdiv y + 1 := by
  by_cases h : RoundsUp x y
  · rw [h.tdiv_eq]
  · rw [tdiv_eq_of_not_roundsUp h]
    exact Int.le_add_one le_rfl

/-- If all quotients are negative, the dividend and the divisor with the one nearest to zero. -/
inductive NearestZero (a b c d : Int) : Int → Int → Prop
  | ofNeg (hb : b < 0) (hc : 0 < c) : NearestZero a b c d b d
  | ofPos (ha : 0 < a) (hd : d < 0) : NearestZero a b c d a c

theorem fdiv_le_of_neg (hb : b < 0) (hc : 0 < c) (hx : x ≤ b) (hy : y ∈ Icc c d) :
    x.fdiv y ≤ b.fdiv d := by
  have hy0 : 0 < y := hc.trans_le hy.1
  rw [Int.fdiv_eq_ediv_of_nonneg x hy0.le, Int.fdiv_eq_ediv_of_nonneg b (hy0.le.trans hy.2)]
  calc x / y ≤ b / y := Int.ediv_le_ediv hy0 hx
    _ ≤ b / d := Corners.ediv_le_ediv_right hb.le hy0 hy.2

theorem tdiv_le_of_neg (hb : b < 0) (hc : 0 < c) (hx : x ≤ b) (hy : y ∈ Icc c d) :
    x.tdiv y ≤ b.tdiv d := by
  have hy0 : 0 < y := hc.trans_le hy.1
  have htdiv {n : Int} (hn : n ≤ b) (m : Int) : n.tdiv m = -(-n / m) := by
    rw [← Int.tdiv_eq_ediv_of_nonneg (by omega), Int.neg_tdiv, neg_neg]
  rw [htdiv hx, htdiv le_rfl]
  apply neg_le_neg
  calc -b / d ≤ -b / y := Corners.ediv_le_ediv_left (by omega) hy0 hy.2
    _ ≤ -x / y := Int.ediv_le_ediv hy0 (neg_le_neg hx)

namespace NearestZero

theorem mem (h : NearestZero a b c d u v) (hab : a ≤ b) (hcd : c ≤ d) :
    u ∈ Icc a b ∧ v ∈ Icc c d := by
  cases h with
  | ofNeg => exact ⟨⟨hab, le_rfl⟩, ⟨hcd, le_rfl⟩⟩
  | ofPos => exact ⟨⟨le_rfl, hab⟩, ⟨le_rfl, hcd⟩⟩

theorem roundsUp (h : NearestZero a b c d u v) (hcd : c ≤ d) (hdvd : ¬ v ∣ u) : RoundsUp u v := by
  cases h with
  | ofNeg hb hc => exact ⟨hdvd, .inl ⟨hb, hc.trans_le hcd⟩⟩
  | ofPos ha hd => exact ⟨hdvd, .inr ⟨ha, hcd.trans_lt hd⟩⟩

theorem fdiv_le (h : NearestZero a b c d u v) (hx : x ∈ Icc a b) (hy : y ∈ Icc c d) :
    x.fdiv y ≤ u.fdiv v := by
  cases h with
  | ofNeg hb hc => exact fdiv_le_of_neg hb hc hx.2 hy
  | ofPos ha hd =>
    rw [← Int.neg_fdiv_neg x, ← Int.neg_fdiv_neg a]
    exact fdiv_le_of_neg (neg_neg_of_pos ha) (neg_pos.2 hd) (neg_le_neg hx.1)
      ⟨neg_le_neg hy.2, neg_le_neg hy.1⟩

theorem tdiv_le (h : NearestZero a b c d u v) (hx : x ∈ Icc a b) (hy : y ∈ Icc c d) :
    x.tdiv y ≤ u.tdiv v := by
  cases h with
  | ofNeg hb hc => exact tdiv_le_of_neg hb hc hx.2 hy
  | ofPos ha hd =>
    rw [← Int.neg_tdiv_neg x, ← Int.neg_tdiv_neg a]
    exact tdiv_le_of_neg (neg_neg_of_pos ha) (neg_pos.2 hd) (neg_le_neg hx.1)
      ⟨neg_le_neg hy.2, neg_le_neg hy.1⟩

theorem of_roundsUp (h : RoundsUp x y) (hx : x ∈ Icc a b) (hy : y ∈ Icc c d)
    (h0 : (0 : Int) ∉ Icc c d) :
    (∃ u v, NearestZero a b c d u v) ∨ ∃ z ∈ Icc a b, 0 ≤ z.fdiv y := by
  have hside : 0 < c ∨ d < 0 := by
    by_contra! hzero
    exact h0 hzero
  obtain ⟨hax, hxb⟩ := hx
  obtain ⟨hcy, hyd⟩ := hy
  rcases h.2 with ⟨hneg, hpos⟩ | ⟨hpos, hneg⟩
  · rcases le_or_gt 0 b with hb | hb
    · exact .inr ⟨b, ⟨hax.trans hxb, le_rfl⟩, Int.fdiv_nonneg hb hpos.le⟩
    · exact .inl ⟨b, d, .ofNeg hb (by omega)⟩
  · rcases le_or_gt a 0 with ha | ha
    · exact .inr ⟨a, ⟨le_rfl, hax.trans hxb⟩, Int.fdiv_nonneg_of_nonpos_of_nonpos ha hneg.le⟩
    · exact .inl ⟨a, c, .ofPos ha (by omega)⟩

end NearestZero

namespace Interval.IsSaturatedHull

theorem contains_iff (h : i.IsSaturatedHull s) (hlo : leastWord ≤ x) (hhi : x ≤ greatestWord) :
    i.contains x ↔ (∃ w ∈ s, w ≤ x) ∧ ∃ w ∈ s, x ≤ w := by
  obtain ⟨lo, hi, hleast, hgreatest, rfl⟩ := h
  rw [contains_between]
  constructor
  · rintro ⟨hm, hn⟩
    exact ⟨⟨lo, hleast.1, (le_max_left _ _).trans hm⟩,
      ⟨hi, hgreatest.1, hn.trans (min_le_left _ _)⟩⟩
  · rintro ⟨⟨w, hw, hwx⟩, ⟨w', hw', hxw⟩⟩
    exact ⟨max_le ((hleast.2 hw).trans hwx) hlo, le_min (hxw.trans (hgreatest.2 hw')) hhi⟩

end Interval.IsSaturatedHull

namespace Corners

theorem contains_tdiv_iff
    (h : i.IsSaturatedHull
      (image2 Int.fdiv (Icc a b) (Icc c d) ∪ extremeValues (Icc a b) (Icc c d)))
    (hx : x ∈ Icc a b) (hy : y ∈ Icc c d) (hlo : leastWord ≤ x.tdiv y)
    (hhi : x.tdiv y ≤ greatestWord) :
    i.contains (x.tdiv y) ↔ (∃ z ∈ Icc a b, ∃ w ∈ Icc c d, x.tdiv y ≤ z.fdiv w) ∨
      ∃ w ∈ extremeValues (Icc a b) (Icc c d), x.tdiv y ≤ w := by
  have hbelow : ∃ w ∈ image2 Int.fdiv (Icc a b) (Icc c d) ∪ extremeValues (Icc a b) (Icc c d),
      w ≤ x.tdiv y :=
    ⟨x.fdiv y, .inl ⟨x, hx, y, hy, rfl⟩, fdiv_le_tdiv x y⟩
  rw [h.contains_iff hlo hhi, and_iff_right hbelow]
  constructor
  · rintro ⟨_, ⟨z, hz, w, hw, rfl⟩ | hw, hle⟩
    · exact .inl ⟨z, hz, w, hw, hle⟩
    · exact .inr ⟨_, hw, hle⟩
  · rintro (⟨z, hz, w, hw, hle⟩ | ⟨w, hw, hle⟩)
    · exact ⟨_, .inl ⟨z, hz, w, hw, rfl⟩, hle⟩
    · exact ⟨w, .inr hw, hle⟩

theorem coversWords_tdiv_iff
    (h : i.IsSaturatedHull
      (image2 Int.fdiv (Icc a b) (Icc c d) ∪ extremeValues (Icc a b) (Icc c d)))
    (hab : a ≤ b) (hcd : c ≤ d) (h0 : (0 : Int) ∉ Icc c d) :
    i.CoversWords (image2 Int.tdiv (Icc a b) (Icc c d)) ↔
      ∀ u v, NearestZero a b c d u v → leastWord ≤ u.tdiv v →
        v ∣ u ∨ ∃ w ∈ extremeValues (Icc a b) (Icc c d), u.tdiv v ≤ w := by
  constructor
  · intro hcovers u v hnear hlo
    by_contra! hmiss
    obtain ⟨hu, hv⟩ := hnear.mem hab hcd
    have hup : RoundsUp u v := hnear.roundsUp hcd hmiss.1
    have hhi : u.tdiv v ≤ greatestWord := hup.tdiv_nonpos.trans (by decide)
    have hheld : i.contains (u.tdiv v) := hcovers _ ⟨u, hu, v, hv, rfl⟩ hlo hhi
    rcases (contains_tdiv_iff h hu hv hlo hhi).1 hheld with ⟨z, hz, w, hw, hle⟩ | ⟨w, hw, hle⟩
    · have hquotient : z.fdiv w ≤ u.fdiv v := hnear.fdiv_le hz hw
      rw [hup.tdiv_eq] at hle
      omega
    · exact (hmiss.2 w hw).not_ge hle
  · rintro hnear _ ⟨x, hx, y, hy, rfl⟩ hlo hhi
    rw [contains_tdiv_iff h hx hy hlo hhi]
    by_cases hup : RoundsUp x y
    · rcases NearestZero.of_roundsUp hup hx hy h0 with ⟨u, v, hnearest⟩ | ⟨z, hz, hle⟩
      · have hle : x.tdiv y ≤ u.tdiv v := hnearest.tdiv_le hx hy
        obtain ⟨hu, hv⟩ := hnearest.mem hab hcd
        rcases hnear u v hnearest (hlo.trans hle) with hdvd | ⟨w, hw, hwle⟩
        · rw [tdiv_eq_of_not_roundsUp fun hup => hup.1 hdvd] at hle
          exact .inl ⟨u, hu, v, hv, hle⟩
        · exact .inr ⟨w, hw, hle.trans hwle⟩
      · exact .inl ⟨z, hz, y, hy, hup.tdiv_nonpos.trans hle⟩
    · exact .inl ⟨x, hx, y, hy, (tdiv_eq_of_not_roundsUp hup).le⟩

end Corners

namespace Operator

/-- Truncated quotients are held unless all are negative and the nearest to zero is inexact. -/
theorem apply_div_covers_tdiv_iff (hab : a ≤ b) (hcd : c ≤ d) (h0 : (0 : Int) ∉ Icc c d) :
    ∃ lo hi : Int, Operator.div.Gives (between (.int a) (.int b)) (between (.int c) (.int d))
        (between (.int lo) (.int hi)) ∧
      (between (.int lo) (.int (hi + 1))).CoversWords (image2 Int.tdiv (Icc a b) (Icc c d)) ∧
      ((between (.int lo) (.int hi)).CoversWords (image2 Int.tdiv (Icc a b) (Icc c d)) ↔
        ∀ u v, NearestZero a b c d u v → leastWord ≤ u.tdiv v →
          v ∣ u ∨ ∃ w ∈ Corners.extremeValues (Icc a b) (Icc c d), u.tdiv v ≤ w) := by
  obtain ⟨i, hdiv, hull⟩ := Corners.div_isSaturatedHull hab hcd h0
  have hiff := Corners.coversWords_tdiv_iff hull hab hcd h0
  obtain ⟨lo, hi, hlo, hhi, rfl⟩ := hull
  refine ⟨_, _, gives_between_iff.2 ⟨fun _ h => absurd h h0, hdiv⟩, ?_, hiff⟩
  rintro _ ⟨x, hx, y, hy, rfl⟩ hleast hgreatest
  have hquotient : x.fdiv y ∈ image2 Int.fdiv (Icc a b) (Icc c d) := ⟨x, hx, y, hy, rfl⟩
  have hlower : lo ≤ x.tdiv y := (hlo.2 (.inl hquotient)).trans (fdiv_le_tdiv x y)
  have hupper : x.tdiv y ≤ hi + 1 :=
    (tdiv_le_fdiv_add_one x y).trans (Int.add_le_add_right (hhi.2 (.inl hquotient)) 1)
  rw [Interval.contains_between]
  omega

theorem quotient_covers_tdiv :
    Operator.div.Gives (between (.int (-8)) (.int (-6))) (between (.int 2) (.int 3))
        (between (.int (-4)) (.int (-2))) ∧
      (between (.int (-4)) (.int (-2))).CoversWords
        (image2 Int.tdiv (Icc (-8) (-6)) (Icc 2 3)) := by
  have hquotient : Operator.div.apply (between (.int (-8)) (.int (-6)))
      (between (.int 2) (.int 3)) = .ok (between (.int (-4)) (.int (-2))) := by
    decide +kernel
  obtain ⟨lo, hi, hdiv, -, hcovers⟩ := apply_div_covers_tdiv_iff (show (-8 : Int) ≤ -6 by decide)
    (show (2 : Int) ≤ 3 by decide) (by decide)
  cases (gives_iff.1 hdiv).2.symm.trans hquotient
  refine ⟨hdiv, hcovers.2 ?_⟩
  rintro u v (⟨-, -⟩ | ⟨ha, -⟩) -
  · exact .inl (by decide)
  · exact absurd ha (by decide)

/-- Minus seven halves is rounded down to minus four and truncated to minus three. -/
theorem half_misses_tdiv :
    Operator.div.Gives (between (.int (-7)) (.int (-7))) (between (.int 2) (.int 2))
        (between (.int (-4)) (.int (-4))) ∧
      (-7 : Int).tdiv 2 = -3 ∧ leastWord ≤ -3 ∧ -3 ≤ greatestWord ∧
      (between (.int (-4)) (.int (-4))).contains (-3) = false := by
  rw [gives_between_iff]
  have hpositive : (0 : Int) ∉ Icc 2 2 := by decide
  exact ⟨⟨fun _ h => absurd h hpositive, by decide +kernel⟩, by decide⟩

end Operator

theorem tmod_mem_of_nonneg (hx : 0 ≤ x) (y : Int) : x.tmod y ∈ Icc 0 x := by
  have hsize : (x.tmod y).natAbs ≤ x.natAbs := by
    rw [Int.natAbs_tmod]
    exact Nat.mod_le _ _
  have hnonneg : 0 ≤ x.tmod y := Int.tmod_nonneg y hx
  exact ⟨hnonneg, by omega⟩

theorem tmod_mem_of_nonpos (hx : x ≤ 0) (y : Int) : x.tmod y ∈ Icc x 0 := by
  have hneg : (-x).tmod y ∈ Icc 0 (-x) := tmod_mem_of_nonneg (neg_nonneg.2 hx) y
  rw [Int.neg_tmod] at hneg
  exact ⟨neg_le_neg_iff.1 hneg.2, neg_nonneg.1 hneg.1⟩

theorem abs_tmod_lt (x : Int) (hy : y ≠ 0) : |x.tmod y| < |y| := by
  rw [Int.abs_eq_natAbs, Int.abs_eq_natAbs, Int.natAbs_tmod]
  exact Int.ofNat_lt.2 (Nat.mod_lt _ (Int.natAbs_pos.2 hy))

theorem tmod_nonneg_iff : 0 ≤ x.tmod y ↔ 0 ≤ x ∨ y ∣ x := by
  constructor
  · intro h
    rcases le_or_gt 0 x with hx | hx
    · exact .inl hx
    · exact .inr (Int.dvd_of_tmod_eq_zero (le_antisymm (tmod_mem_of_nonpos hx.le y).2 h))
  · rintro (hx | hdvd)
    · exact Int.tmod_nonneg y hx
    · exact (Int.tmod_eq_zero_of_dvd hdvd).ge

namespace Corners

theorem modNegative_int :
    modNegative ⟨.int a, .int b, .int c, .int d⟩ = remainders (|d| - 1) a b := by
  have hlo : -|d| + 1 = -(|d| - 1) := by omega
  simp [modNegative, remainders, hlo, Number.abs_int, Number.pred, Number.succ, Number.neg,
    Number.toInt?, Number.least_int, Number.greatest_int, bounded_int]

theorem remainders_contains_iff {reach : Int} (hx : x ∈ Icc a b) :
    (remainders reach a b).contains (x.tmod y) ↔ |x.tmod y| ≤ reach := by
  obtain ⟨hax, hxb⟩ := hx
  rw [abs_le, remainders]
  split
  · obtain ⟨hlo, hhi⟩ := tmod_mem_of_nonneg (x := x) (by omega) y
    rw [Interval.contains_between]
    omega
  split
  · obtain ⟨hlo, hhi⟩ := tmod_mem_of_nonpos (x := x) (by omega) y
    rw [Interval.contains_between]
    omega
  · exact Interval.contains_between

theorem mod_of_neg (hcd : c ≤ d) (hd : d < 0) :
    mod ⟨.int a, .int b, .int c, .int d⟩ = remainders (|d| - 1) a b := by
  rw [mod, if_neg (mt divisorMeetsZero_iff.1 (by omega)), if_neg (by simp; omega),
    if_pos (by simp [hd]), modNegative_int]

end Corners

namespace Operator

/-- Which truncated remainders are held depends on the sign of the divisors. -/
theorem apply_mod_contains_tmod_iff (a b c d : Int) :
    (((0 : Int) ∈ Icc c d → (between (.int c) (.int d)).isWritable) →
      ∃ i, Operator.mod.Gives (between (.int a) (.int b)) (between (.int c) (.int d)) i ∧
        ∀ x ∈ Icc a b, ∀ y ∈ Icc c d, y ≠ 0 → x.tmod y ≤ greatestWord →
          (i.contains (x.tmod y) ↔
            0 < c ∨ d < 0 ∧ |x.tmod y| < |d| ∨ (0 : Int) ∈ Icc c d ∧ (0 ≤ x ∨ y ∣ x))) ∧
    ((0 : Int) ∈ Icc c d → ¬ (between (.int c) (.int d)).isWritable →
      Operator.mod.FailsWith (between (.int a) (.int b)) (between (.int c) (.int d))
        .tooLongToWrite) := by
  have hmod := Operator.mod.canWarn_between a b c d
  refine ⟨fun hr => ?_, fun h0 hr => failsWith_of_not_canWarn fun hwarn => hr (hmod.1 hwarn rfl h0)⟩
  refine ⟨Corners.mod ⟨.int a, .int b, .int c, .int d⟩, gives_between_iff.2 ⟨fun _ => hr, rfl⟩, ?_⟩
  intro x hx y hy hy0 hword
  rcases lt_or_ge 0 c with hc | hc
  · have hsize : |x.tmod y| < |y| := abs_tmod_lt x hy0
    rw [abs_of_pos (hc.trans_le hy.1)] at hsize
    rw [Corners.mod_of_pos hc, Corners.remainders_contains_iff hx]
    exact iff_of_true (Int.le_sub_one_of_lt (hsize.trans_le hy.2)) (.inl hc)
  rcases lt_or_ge d 0 with hd | hd
  · have hzero : (0 : Int) ∉ Icc c d := fun h0 => h0.2.not_gt hd
    rw [Corners.mod_of_neg (hy.1.trans hy.2) hd, Corners.remainders_contains_iff hx,
      Int.le_sub_one_iff]
    simp [hc.not_gt, hd, hzero]
  · rw [Corners.mod_of_zero_mem ⟨hc, hd⟩, unsignedWord, Number.ofNat_eq, Interval.contains_between,
      ← tmod_nonneg_iff]
    simp [hc, hd, hc.not_gt, hd.not_gt, hword]

theorem remainder_contains_tmod :
    ∃ i, Operator.mod.Gives (between (.int (-7)) (.int 7)) (between (.int (-5)) (.int (-2))) i ∧
      i.contains ((7 : Int).tmod (-3)) ∧ ¬ i.contains ((7 : Int).tmod (-5)) := by
  have hnegative : (0 : Int) ∉ Icc (-5) (-2) := by decide
  obtain ⟨i, hi, hiff⟩ :=
    (apply_mod_contains_tmod_iff (-7) 7 (-5) (-2)).1 fun h => absurd h hnegative
  refine ⟨i, hi, ?_, ?_⟩
  · exact (hiff 7 (by decide) (-3) (by decide) (by decide) (by decide)).2 (by decide)
  · exact mt (hiff 7 (by decide) (-5) (by decide) (by decide) (by decide)).1 (by decide)

/-- Seven leaves two by minus five, and minus seven leaves minus two by five. -/
theorem remainders_miss_tmod :
    Operator.mod.Gives (between (.int 7) (.int 7)) (between (.int (-5)) (.int (-2)))
        (between (.int 0) (.int 1)) ∧
      (7 : Int).tmod (-5) = 2 ∧ (between (.int 0) (.int 1)).contains 2 = false ∧
      Operator.mod.Gives (between (.int (-7)) (.int (-7))) (between (.int 0) (.int 5))
        unsignedWord ∧
      (-7 : Int).tmod 5 = -2 ∧ unsignedWord.contains (-2) = false := by
  have hnegative : (0 : Int) ∉ Icc (-5) (-2) := by decide
  have hwritable : (between (.int 0) (.int 5)).isWritable := by decide +kernel
  rw [gives_between_iff, gives_between_iff]
  exact ⟨⟨fun _ h => absurd h hnegative, by decide⟩, by decide, by decide,
    ⟨fun _ _ => hwritable, by decide⟩, by decide, by decide⟩

end Operator

end RangeAudit
