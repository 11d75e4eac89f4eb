import Mathlib
import RangeAudit.Proofs.Operation

open RangeAudit.Interval (leastWord greatestWord between)
open Set (Icc image2)

namespace RangeAudit

variable {f : Int → Int → Int} {g : Int → Int} {a b c d m n x y : Int} {results : Set Int}
  {i : Interval}

def IsDirectedOn (g : Int → Int) (s : Set Int) : Prop :=
  MonotoneOn g s ∨ AntitoneOn g s

namespace IsDirectedOn

theorem mem_uIcc (h : IsDirectedOn g (Icc a b)) (hx : x ∈ Icc a b) :
    g x ∈ Set.uIcc (g a) (g b) := by
  have hab : a ≤ b := hx.1.trans hx.2
  rw [← Set.uIcc_of_le hab] at hx
  rw [IsDirectedOn, ← Set.uIcc_of_le hab] at h
  rcases h with h | h
  · exact h.mapsTo_uIcc hx
  · exact h.mapsTo_uIcc hx

theorem comp_neg (h : IsDirectedOn g (Icc (-b) (-a))) :
    IsDirectedOn (fun x => g (-x)) (Icc a b) := by
  have hneg {x : Int} (hx : x ∈ Icc a b) : -x ∈ Icc (-b) (-a) :=
    ⟨neg_le_neg hx.2, neg_le_neg hx.1⟩
  rcases h with h | h
  · exact .inr fun x hx y hy hxy => h (hneg hy) (hneg hx) (neg_le_neg hxy)
  · exact .inl fun x hx y hy hxy => h (hneg hy) (hneg hx) (neg_le_neg hxy)

end IsDirectedOn

/-- A function of two operands that runs in one direction in each of them. -/
structure IsBidirectedOn (f : Int → Int → Int) (s t : Set Int) : Prop where
  left : ∀ y ∈ t, IsDirectedOn (f · y) s
  right : ∀ x ∈ s, IsDirectedOn (f x) t

def cornerValues (f : Int → Int → Int) (a b c d : Int) : List Int :=
  [f a c, f a d, f b c, f b d]

theorem cornerValues_subset (hab : a ≤ b) (hcd : c ≤ d) :
    ∀ v ∈ cornerValues f a b c d, v ∈ image2 f (Icc a b) (Icc c d) := by
  have ha : a ∈ Icc a b := ⟨le_rfl, hab⟩
  have hb : b ∈ Icc a b := ⟨hab, le_rfl⟩
  have hc : c ∈ Icc c d := ⟨le_rfl, hcd⟩
  have hd : d ∈ Icc c d := ⟨hcd, le_rfl⟩
  simp only [cornerValues, List.forall_mem_cons]
  exact ⟨⟨a, ha, c, hc, rfl⟩, ⟨a, ha, d, hd, rfl⟩, ⟨b, hb, c, hc, rfl⟩, ⟨b, hb, d, hd, rfl⟩,
    List.forall_mem_nil _⟩

namespace IsBidirectedOn

theorem mem_Icc (h : IsBidirectedOn f (Icc a b) (Icc c d))
    (hcorners : ∀ v ∈ cornerValues f a b c d, v ∈ Icc m n) (hx : x ∈ Icc a b) (hy : y ∈ Icc c d) :
    f x y ∈ Icc m n := by
  have hab : a ≤ b := hx.1.trans hx.2
  simp only [cornerValues, List.forall_mem_cons] at hcorners
  obtain ⟨hac, had, hbc, hbd, -⟩ := hcorners
  have ha : f a y ∈ Icc m n := Set.uIcc_subset_Icc hac had ((h.right a ⟨le_rfl, hab⟩).mem_uIcc hy)
  have hb : f b y ∈ Icc m n := Set.uIcc_subset_Icc hbc hbd ((h.right b ⟨hab, le_rfl⟩).mem_uIcc hy)
  exact Set.uIcc_subset_Icc ha hb ((h.left y hy).mem_uIcc hx)

theorem neg (h : IsBidirectedOn f (Icc (-b) (-a)) (Icc (-d) (-c))) :
    IsBidirectedOn (fun x y => f (-x) (-y)) (Icc a b) (Icc c d) where
  left y hy := (h.left (-y) ⟨neg_le_neg hy.2, neg_le_neg hy.1⟩).comp_neg
  right x hx := (h.right (-x) ⟨neg_le_neg hx.2, neg_le_neg hx.1⟩).comp_neg

end IsBidirectedOn

namespace Interval

/-- An absent bound is no limit, but bottom has no values. -/
def contains (i : Interval) (x : Int) : Bool :=
  !i.isBottom && i.lo.all (·.le (.int x)) && i.hi.all (Number.le (.int x))

theorem contains_between {a b : Int} :
    (between (.int a) (.int b)).contains x ↔ a ≤ x ∧ x ≤ b := by
  simp [contains, between, isBottom]

theorem contains_iff : i.contains x ↔ i.isBottom = false ∧
    (∀ y ∈ i.lo, y.le (.int x)) ∧ ∀ y ∈ i.hi, Number.le (.int x) y := by
  simp [contains, Option.all_eq_true, and_assoc]

/-- The hull of a set of integers, cut off at the ends of a machine word. -/
def IsSaturatedHull (i : Interval) (results : Set Int) : Prop :=
  ∃ lo hi, IsLeast results lo ∧ IsGreatest results hi ∧
    i = between (.int (max lo leastWord)) (.int (min hi greatestWord))

def CoversWords (i : Interval) (results : Set Int) : Prop :=
  ∀ v ∈ results, leastWord ≤ v → v ≤ greatestWord → i.contains v

def IsTight (i : Interval) (results : Set Int) : Prop :=
  ∃ lo hi, i = between (.int lo) (.int hi) ∧
    (lo ∈ results ∨ lo = leastWord ∧ ∃ v ∈ results, v < lo) ∧
    (hi ∈ results ∨ hi = greatestWord ∧ ∃ v ∈ results, hi < v)

theorem coversWords_of_bounds (h : ∀ v ∈ results, v ∈ Icc m n) :
    (between (.int (max m leastWord)) (.int (min n greatestWord))).CoversWords results := by
  intro v hv hlo hhi
  obtain ⟨hm, hn⟩ := h v hv
  exact contains_between.2 ⟨max_le hm hlo, le_min hn hhi⟩

namespace IsSaturatedHull

theorem coversWords (h : i.IsSaturatedHull results) : i.CoversWords results := by
  obtain ⟨lo, hi, hlo, hhi, rfl⟩ := h
  exact coversWords_of_bounds fun v hv => ⟨hlo.2 hv, hhi.2 hv⟩

theorem isTight (h : i.IsSaturatedHull results) : i.IsTight results := by
  obtain ⟨lo, hi, hlo, hhi, rfl⟩ := h
  refine ⟨_, _, rfl, ?_, ?_⟩
  · rcases le_or_gt leastWord lo with hle | hlt
    · rw [max_eq_left hle]
      exact .inl hlo.1
    · rw [max_eq_right hlt.le]
      exact .inr ⟨rfl, lo, hlo.1, hlt⟩
  · rcases le_or_gt hi greatestWord with hle | hlt
    · rw [min_eq_left hle]
      exact .inl hhi.1
    · rw [min_eq_right hlt.le]
      exact .inr ⟨rfl, hi, hhi.1, hlt⟩

/-- The least and the greatest value at the bounds give the hull of all values. -/
theorem of_corners_union {s : Set Int} (h : IsBidirectedOn f (Icc a b) (Icc c d)) (hab : a ≤ b)
    (hcd : c ≤ d) (hm : IsLeast ({v | v ∈ cornerValues f a b c d} ∪ s) m)
    (hn : IsGreatest ({v | v ∈ cornerValues f a b c d} ∪ s) n) :
    (between (.int (max m leastWord)) (.int (min n greatestWord))).IsSaturatedHull
      (image2 f (Icc a b) (Icc c d) ∪ s) := by
  have hbounds : ∀ v ∈ image2 f (Icc a b) (Icc c d) ∪ s, v ∈ Icc m n := by
    rintro _ (⟨x, hx, y, hy, rfl⟩ | hv)
    · exact h.mem_Icc (fun v hv => ⟨hm.2 (.inl hv), hn.2 (.inl hv)⟩) hx hy
    · exact ⟨hm.2 (.inr hv), hn.2 (.inr hv)⟩
  have hcorner (v : Int) (hv : v ∈ {v | v ∈ cornerValues f a b c d} ∪ s) :
      v ∈ image2 f (Icc a b) (Icc c d) ∪ s :=
    hv.imp_left (cornerValues_subset hab hcd v)
  exact ⟨m, n, ⟨hcorner m hm.1, fun v hv => (hbounds v hv).1⟩,
    ⟨hcorner n hn.1, fun v hv => (hbounds v hv).2⟩, rfl⟩

theorem of_corners (h : IsBidirectedOn f (Icc a b) (Icc c d)) (hab : a ≤ b)
    (hcd : c ≤ d) (hm : IsLeast {v | v ∈ cornerValues f a b c d} m)
    (hn : IsGreatest {v | v ∈ cornerValues f a b c d} n) :
    (between (.int (max m leastWord)) (.int (min n greatestWord))).IsSaturatedHull
      (image2 f (Icc a b) (Icc c d)) := by
  rw [← Set.union_empty (image2 f (Icc a b) (Icc c d))]
  apply of_corners_union h hab hcd
  · rwa [Set.union_empty]
  · rwa [Set.union_empty]

end IsSaturatedHull

end Interval

namespace Number

theorem least_int (a b : Int) : least (.int a) (.int b) = .int (min a b) := by
  simp only [least, lt_int, decide_eq_true_eq]
  split
  · rw [min_eq_right (by omega)]
  · rw [min_eq_left (by omega)]

theorem greatest_int (a b : Int) : greatest (.int a) (.int b) = .int (max a b) := by
  simp only [greatest, lt_int, decide_eq_true_eq]
  split
  · rw [max_eq_right (by omega)]
  · rw [max_eq_left (by omega)]

theorem abs_int (a : Int) : abs (.int a) = .int |a| := by
  rw [Int.abs_eq_natAbs]
  rfl

theorem leastOf_isLeast (p : Int) (l : List Int) :
    ∃ m, leastOf (.int p) (l.map .int) = .int m ∧ IsLeast {v | v ∈ p :: l} m := by
  refine ⟨l.foldl min p, ?_, List.min?_eq_some_iff.1 List.min?_cons'⟩
  rw [leastOf, List.foldl_map]
  exact List.foldl_hom Number.int least_int

theorem greatestOf_isGreatest (p : Int) (l : List Int) :
    ∃ m, greatestOf (.int p) (l.map .int) = .int m ∧ IsGreatest {v | v ∈ p :: l} m := by
  refine ⟨l.foldl max p, ?_, List.max?_eq_some_iff.1 List.max?_cons'⟩
  rw [greatestOf, List.foldl_map]
  exact List.foldl_hom Number.int greatest_int

end Number

namespace Corners

theorem bounded_int (a b : Int) : bounded (.int a) (.int b) = between (.int a) (.int b) := by
  simp [bounded]

theorem clamped_int (m n : Int) :
    clamped (.int m) (.int n) = between (.int (max m leastWord)) (.int (min n greatestWord)) := by
  have hlimit : ((Nat.pow 2 256 : Nat) : Int) = greatestWord + 1 := by decide
  have hlo : clampLo (.int m) = .int (max m leastWord) := by
    simp only [clampLo, Number.lt_int, decide_eq_true_eq]
    split
    · rw [max_eq_right (by omega)]
    · rw [max_eq_left (by omega)]
  have hhi : clampHi (.int n) = .int (min n greatestWord) := by
    simp only [clampHi, Number.le_int, decide_eq_true_eq, hlimit]
    split
    · rw [min_eq_right (by omega)]
    · rw [min_eq_left (by omega)]
  rw [clamped, hlo, hhi, bounded_int]

theorem hull_int (p : Int) (l : List Int) :
    ∃ m n, IsLeast {v | v ∈ p :: l} m ∧ IsGreatest {v | v ∈ p :: l} n ∧
      bounded (Number.greatest (.int leastWord) (Number.leastOf (.int p) (l.map .int)))
        (Number.least (.int greatestWord) (Number.greatestOf (.int p) (l.map .int))) =
      between (.int (max m leastWord)) (.int (min n greatestWord)) := by
  obtain ⟨m, hm, hleast⟩ := Number.leastOf_isLeast p l
  obtain ⟨n, hn, hgreatest⟩ := Number.greatestOf_isGreatest p l
  refine ⟨m, n, hleast, hgreatest, ?_⟩
  rw [hm, hn, Number.greatest_int, Number.least_int, bounded_int, max_comm, min_comm]

theorem add_isSaturatedHull (hab : a ≤ b) (hcd : c ≤ d) :
    ∃ i, add ⟨.int a, .int b, .int c, .int d⟩ = .ok i ∧
      i.IsSaturatedHull (image2 (· + ·) (Icc a b) (Icc c d)) := by
  have hleft (y : Int) : Monotone (· + y) := fun _ _ h => Int.add_le_add_right h y
  have hright (x : Int) : Monotone (x + ·) := fun _ _ h => Int.add_le_add_left h x
  refine ⟨_, rfl, a + c, b + d, ?_, ?_, clamped_int _ _⟩
  · exact (isLeast_Icc hab).image2 hleft hright (isLeast_Icc hcd)
  · exact (isGreatest_Icc hab).image2 hleft hright (isGreatest_Icc hcd)

theorem sub_isSaturatedHull (hab : a ≤ b) (hcd : c ≤ d) :
    ∃ i, sub ⟨.int a, .int b, .int c, .int d⟩ = .ok i ∧
      i.IsSaturatedHull (image2 (· - ·) (Icc a b) (Icc c d)) := by
  have hleft (y : Int) : Monotone (· - y) := fun _ _ h => Int.sub_le_sub_right h y
  have hright (x : Int) : Antitone (x - ·) := fun _ _ h => Int.sub_le_sub_left h x
  refine ⟨_, rfl, a - d, b - c, ?_, ?_, clamped_int _ _⟩
  · exact (isLeast_Icc hab).isLeast_image2_of_isGreatest hleft hright (isGreatest_Icc hcd)
  · exact (isGreatest_Icc hab).isGreatest_image2_of_isLeast hleft hright (isLeast_Icc hcd)

theorem mul_isBidirectedOn (s t : Set Int) : IsBidirectedOn (· * ·) s t where
  left y _ := by
    rcases le_total 0 y with hy | hy
    · exact .inl fun _ _ _ _ h => Int.mul_le_mul_of_nonneg_right h hy
    · exact .inr fun _ _ _ _ h => Int.mul_le_mul_of_nonpos_right h hy
  right x _ := by
    rcases le_total 0 x with hx | hx
    · exact .inl fun _ _ _ _ h => Int.mul_le_mul_of_nonneg_left h hx
    · exact .inr fun _ _ _ _ h => Int.mul_le_mul_of_nonpos_left hx h

theorem mul_isSaturatedHull (hab : a ≤ b) (hcd : c ≤ d) :
    ∃ i, mul ⟨.int a, .int b, .int c, .int d⟩ = .ok i ∧
      i.IsSaturatedHull (image2 (· * ·) (Icc a b) (Icc c d)) := by
  obtain ⟨m, hm, hleast⟩ := Number.leastOf_isLeast (a * c) [a * d, b * c, b * d]
  obtain ⟨n, hn, hgreatest⟩ := Number.greatestOf_isGreatest (a * c) [a * d, b * c, b * d]
  have hmul : mul ⟨.int a, .int b, .int c, .int d⟩ = .ok (clamped (.int m) (.int n)) := by
    rw [← hm, ← hn]
    rfl
  rw [clamped_int] at hmul
  exact ⟨_, hmul, .of_corners (mul_isBidirectedOn _ _) hab hcd hleast hgreatest⟩

end Corners

namespace Operator

def exactFunction? : Operator → Option (Int → Int → Int)
  | .add => some (· + ·)
  | .sub => some (· - ·)
  | .mul => some (· * ·)
  | _ => none

theorem isDivision_of_exact {op : Operator} (hop : op.exactFunction? = some f) :
    op.isDivision = false := by
  cases op with
  | add | sub | mul => rfl
  | div | mod | pow | shl | shr | compare | logic | unknown => cases hop

theorem applyBounds_isSaturatedHull {op : Operator} (hop : op.exactFunction? = some f)
    (hab : a ≤ b) (hcd : c ≤ d) :
    ∃ i, op.applyBounds (between (.int a) (.int b)) (between (.int c) (.int d)) = .ok i ∧
      i.IsSaturatedHull (image2 f (Icc a b) (Icc c d)) := by
  cases op with
  | add =>
    cases hop
    exact Corners.add_isSaturatedHull hab hcd
  | sub =>
    cases hop
    exact Corners.sub_isSaturatedHull hab hcd
  | mul =>
    cases hop
    exact Corners.mul_isSaturatedHull hab hcd
  | div | mod | pow | shl | shr | compare | logic | unknown => cases hop

/-- Sums, differences and products give the hull of all results, cut off at the machine word. -/
theorem apply_isSaturatedHull {op : Operator} (hop : op.exactFunction? = some f) (hab : a ≤ b)
    (hcd : c ≤ d) :
    ∃ i, op.Gives (between (.int a) (.int b)) (between (.int c) (.int d)) i ∧
      i.IsSaturatedHull (image2 f (Icc a b) (Icc c d)) ∧
      i.CoversWords (image2 f (Icc a b) (Icc c d)) ∧
      i.IsTight (image2 f (Icc a b) (Icc c d)) := by
  obtain ⟨i, hi, hull⟩ := applyBounds_isSaturatedHull hop hab hcd
  have hgives := (gives_between_iff_of_not_isDivision (isDivision_of_exact hop)).2 hi
  exact ⟨i, hgives, hull, hull.coversWords, hull.isTight⟩

/-- A product with results below the least word, which cuts it off, and none above the greatest. -/
theorem product_isSaturatedHull :
    ∃ i, Operator.mul.Gives (between (.int leastWord) (.int 5)) (between (.int (-1)) (.int 3)) i ∧
      i = between (.int leastWord) (.int (-leastWord)) ∧
      i.IsSaturatedHull (image2 (· * ·) (Icc leastWord 5) (Icc (-1) 3)) := by
  have hproduct : Operator.mul.apply (between (.int leastWord) (.int 5))
      (between (.int (-1)) (.int 3)) = .ok (between (.int leastWord) (.int (-leastWord))) := by
    decide +kernel
  obtain ⟨i, hi, hull, -, -⟩ := apply_isSaturatedHull
    (show Operator.mul.exactFunction? = some (· * ·) from rfl)
    (show leastWord ≤ 5 by decide) (show (-1 : Int) ≤ 3 by decide)
  cases (gives_iff.1 hi).2.symm.trans hproduct
  exact ⟨_, hi, rfl, hull⟩

end Operator

namespace Corners

theorem ediv_le_ediv_left (hx : 0 ≤ x) (hc : 0 < c) (hcd : c ≤ d) : x / d ≤ x / c := by
  rw [Int.le_ediv_iff_mul_le hc]
  calc x / d * c ≤ x / d * d :=
        Int.mul_le_mul_of_nonneg_left hcd (Int.ediv_nonneg hx (by omega))
    _ ≤ x := Int.ediv_mul_le x (by omega)

theorem ediv_le_ediv_right (hx : x ≤ 0) (hc : 0 < c) (hcd : c ≤ d) : x / c ≤ x / d := by
  rw [Int.le_ediv_iff_mul_le (hc.trans_le hcd)]
  calc x / c * d ≤ x / c * c :=
        Int.mul_le_mul_of_nonpos_left (Int.ediv_nonpos_of_nonpos_of_neg hx hc) hcd
    _ ≤ x := Int.ediv_mul_le x hc.ne'

theorem fdiv_isBidirectedOn_of_pos (s : Set Int) (hc : 0 < c) :
    IsBidirectedOn Int.fdiv s (Icc c d) where
  left y hy := by
    have hpos : 0 < y := hc.trans_le hy.1
    refine .inl fun _ _ _ _ h => ?_
    simp only [Int.fdiv_eq_ediv_of_nonneg _ hpos.le]
    exact Int.ediv_le_ediv hpos h
  right x _ := by
    have hfdiv {y : Int} (hy : y ∈ Icc c d) : x.fdiv y = x / y :=
      Int.fdiv_eq_ediv_of_nonneg x (hc.trans_le hy.1).le
    -- As the divisor grows, quotients fall or rise with the sign of the dividend.
    rcases le_total 0 x with hx | hx
    · refine .inr fun y hy z hz h => ?_
      rw [hfdiv hy, hfdiv hz]
      exact ediv_le_ediv_left hx (hc.trans_le hy.1) h
    · refine .inl fun y hy z hz h => ?_
      rw [hfdiv hy, hfdiv hz]
      exact ediv_le_ediv_right hx (hc.trans_le hy.1) h

theorem fdiv_isBidirectedOn (h0 : (0 : Int) ∉ Icc c d) :
    IsBidirectedOn Int.fdiv (Icc a b) (Icc c d) := by
  rcases lt_or_ge 0 c with hc | hc
  · exact fdiv_isBidirectedOn_of_pos _ hc
  · have hd : d < 0 := lt_of_not_ge fun hd => h0 ⟨hc, hd⟩
    have hneg : IsBidirectedOn (fun x y => Int.fdiv (-x) (-y)) (Icc a b) (Icc c d) :=
      (fdiv_isBidirectedOn_of_pos _ (neg_pos.2 hd)).neg
    simpa only [Int.neg_fdiv_neg] using hneg

theorem quotients_int (hcd : c ≤ d) (h0 : (0 : Int) ∉ Icc c d) :
    ∃ p l, quotients ⟨.int a, .int b, .int c, .int d⟩ = .ok ((p :: l).map .int) ∧
      ∀ v, v ∈ p :: l ↔ v ∈ cornerValues Int.fdiv a b c d := by
  have hc0 : c ≠ 0 := fun h => h0 ⟨h.le, h ▸ hcd⟩
  have hd0 : d ≠ 0 := fun h => h0 ⟨h ▸ hcd, h.ge⟩
  rcases lt_or_ge 0 c with hc | hc
  · refine ⟨a.fdiv c, [a.fdiv d, b.fdiv c, b.fdiv d], ?_, fun v => Iff.rfl⟩
    simp [quotients, Number.floorDiv, Number.toInt?, hc, hc0, hd0, bind, Except.bind, pure,
      Except.pure]
  · refine ⟨a.fdiv d, [a.fdiv c, b.fdiv d, b.fdiv c], ?_, fun v => ?_⟩
    · simp [quotients, Number.floorDiv, Number.toInt?, hc.not_gt, hc0, hd0, bind, Except.bind, pure,
        Except.pure]
    · simp only [cornerValues, List.mem_cons]
      tauto

theorem div_of_zero_mem (h0 : (0 : Int) ∈ Icc c d) :
    div ⟨.int a, .int b, .int c, .int d⟩ = .ok .word := by
  rw [div, if_pos (divisorMeetsZero_iff.2 h0)]
  rfl

theorem div_int {e : List Int} (hcd : c ≤ d) (h0 : (0 : Int) ∉ Icc c d)
    (he : extremeQuotients ⟨.int a, .int b, .int c, .int d⟩ = e.map .int) :
    ∃ m n, IsLeast {v | v ∈ cornerValues Int.fdiv a b c d ++ e} m ∧
      IsGreatest {v | v ∈ cornerValues Int.fdiv a b c d ++ e} n ∧
      div ⟨.int a, .int b, .int c, .int d⟩ =
        .ok (between (.int (max m leastWord)) (.int (min n greatestWord))) := by
  obtain ⟨p, l, hquotients, hmem⟩ := quotients_int (a := a) (b := b) hcd h0
  obtain ⟨m, n, hm, hn, hull⟩ := hull_int p (l ++ e)
  have hset : {v | v ∈ cornerValues Int.fdiv a b c d ++ e} = {v | v ∈ p :: (l ++ e)} := by
    ext v
    change v ∈ cornerValues Int.fdiv a b c d ++ e ↔ v ∈ p :: l ++ e
    rw [List.mem_append, List.mem_append, hmem]
  rw [hset]
  refine ⟨m, n, hm, hn, ?_⟩
  have hside : 0 < c ∨ d < 0 := by
    by_contra! h
    exact h0 h
  rw [div, if_neg (mt divisorMeetsZero_iff.1 h0), if_neg (by simp [isUnbounded]),
    if_neg (by simpa using fun hc => hside.resolve_left hc.not_gt), hquotients, he, ← hull,
    List.map_append]
  rfl

/-- The extreme values that a divisor next to zero is taken to allow, by the dividends' signs. -/
def extremeValues (dividends divisors : Set Int) : Set Int :=
  {v | (1 ∈ divisors ∨ -1 ∈ divisors) ∧
    ((∃ x ∈ dividends, x < 0) ∧ v = leastWord ∨ (∃ x ∈ dividends, 0 < x) ∧ v = greatestWord)}

theorem abs_lt_two_iff (hcd : c ≤ d) (h0 : (0 : Int) ∉ Icc c d) :
    |c| < 2 ∨ |d| < 2 ↔ 1 ∈ Icc c d ∨ -1 ∈ Icc c d := by
  simp only [abs_lt, Set.mem_Icc] at h0 ⊢
  omega

theorem extremeQuotients_int (hab : a ≤ b) (hcd : c ≤ d) (h0 : (0 : Int) ∉ Icc c d) :
    ∃ e : List Int, extremeQuotients ⟨.int a, .int b, .int c, .int d⟩ = e.map .int ∧
      ∀ v, v ∈ e ↔ v ∈ extremeValues (Icc a b) (Icc c d) := by
  have hneg : (∃ x ∈ Icc a b, x < 0) ↔ a < 0 :=
    ⟨fun ⟨_, hx, h⟩ => hx.1.trans_lt h, fun h => ⟨a, ⟨le_rfl, hab⟩, h⟩⟩
  have hpos : (∃ x ∈ Icc a b, 0 < x) ↔ 0 < b :=
    ⟨fun ⟨_, hx, h⟩ => h.trans_le hx.2, fun h => ⟨b, ⟨hab, le_rfl⟩, h⟩⟩
  refine ⟨if |c| < 2 ∨ |d| < 2 then
    (if a < 0 then [leastWord] else []) ++ (if 0 < b then [greatestWord] else []) else [], ?_,
    fun v => ?_⟩
  · simp only [extremeQuotients, Number.abs_int, Number.ofNat_eq, Number.lt_int, Bool.or_eq_true,
      decide_eq_true_eq, Nat.cast_ofNat, Int.cast_ofNat_Int]
    split_ifs <;> rfl
  · change _ ↔ (_ ∨ _) ∧ (_ ∧ _ ∨ _ ∧ _)
    rw [← abs_lt_two_iff hcd h0, hneg, hpos]
    split_ifs <;> simp_all

theorem extremeValues_eq_empty {s : Set Int} (hcd : c ≤ d) (h0 : (0 : Int) ∉ Icc c d)
    (hc : 2 ≤ |c|) (hd : 2 ≤ |d|) : extremeValues s (Icc c d) = ∅ := by
  apply Set.eq_empty_of_forall_notMem
  rintro v ⟨hnear, -⟩
  rcases (abs_lt_two_iff hcd h0).2 hnear with h | h
  · exact hc.not_gt h
  · exact hd.not_gt h

/-- The hull of all quotients, and of the extreme values that a divisor next to zero allows. -/
theorem div_isSaturatedHull (hab : a ≤ b) (hcd : c ≤ d) (h0 : (0 : Int) ∉ Icc c d) :
    ∃ i, div ⟨.int a, .int b, .int c, .int d⟩ = .ok i ∧
      i.IsSaturatedHull
        (image2 Int.fdiv (Icc a b) (Icc c d) ∪ extremeValues (Icc a b) (Icc c d)) := by
  obtain ⟨e, he, hmem⟩ := extremeQuotients_int hab hcd h0
  obtain ⟨m, n, hm, hn, hdiv⟩ := div_int hcd h0 he
  have hset : {v | v ∈ cornerValues Int.fdiv a b c d ++ e} =
      {v | v ∈ cornerValues Int.fdiv a b c d} ∪ extremeValues (Icc a b) (Icc c d) := by
    ext v
    change v ∈ cornerValues Int.fdiv a b c d ++ e ↔ v ∈ cornerValues Int.fdiv a b c d ∨ _
    rw [List.mem_append, hmem]
  rw [hset] at hm hn
  exact ⟨_, hdiv, .of_corners_union (fdiv_isBidirectedOn h0) hab hcd hm hn⟩

theorem div_hull (hab : a ≤ b) (hcd : c ≤ d) (h0 : (0 : Int) ∉ Icc c d) :
    ∃ m n, div ⟨.int a, .int b, .int c, .int d⟩ =
        .ok (between (.int (max m leastWord)) (.int (min n greatestWord))) ∧
      (∀ v ∈ image2 Int.fdiv (Icc a b) (Icc c d), v ∈ Icc m n) ∧
      (2 ≤ |c| → 2 ≤ |d| →
        (between (.int (max m leastWord)) (.int (min n greatestWord))).IsSaturatedHull
          (image2 Int.fdiv (Icc a b) (Icc c d))) := by
  obtain ⟨_, hdiv, m, n, hm, hn, rfl⟩ := div_isSaturatedHull hab hcd h0
  refine ⟨m, n, hdiv, fun v hv => ⟨hm.2 (.inl hv), hn.2 (.inl hv)⟩, fun hc hd => ?_⟩
  rw [extremeValues_eq_empty hcd h0 hc hd, Set.union_empty] at hm hn
  exact ⟨m, n, hm, hn, rfl⟩

end Corners

namespace Operator

/-- Every quotient that is a word is held; by divisors not next to zero the hull is exact. -/
theorem apply_div_isSaturatedHull (hab : a ≤ b) (hcd : c ≤ d) (h0 : (0 : Int) ∉ Icc c d) :
    ∃ i, Operator.div.Gives (between (.int a) (.int b)) (between (.int c) (.int d)) i ∧
      i.CoversWords (image2 Int.fdiv (Icc a b) (Icc c d)) ∧
      (2 ≤ |c| → 2 ≤ |d| → i.IsSaturatedHull (image2 Int.fdiv (Icc a b) (Icc c d))) := by
  obtain ⟨m, n, hdiv, hbounds, hull⟩ := Corners.div_hull hab hcd h0
  refine ⟨_, gives_between_iff.2 ⟨fun _ h => absurd h h0, hdiv⟩, ?_, hull⟩
  exact Interval.coversWords_of_bounds hbounds

theorem quotient_isSaturatedHull :
    ∃ i, Operator.div.Gives (between (.int (-7)) (.int 10)) (between (.int (-3)) (.int (-2))) i ∧
      i = between (.int (-5)) (.int 3) ∧
      i.IsSaturatedHull (image2 Int.fdiv (Icc (-7) 10) (Icc (-3) (-2))) := by
  have hquotient : Operator.div.apply (between (.int (-7)) (.int 10))
      (between (.int (-3)) (.int (-2))) = .ok (between (.int (-5)) (.int 3)) := by
    decide +kernel
  obtain ⟨i, hi, -, hull⟩ := apply_div_isSaturatedHull (show (-7 : Int) ≤ 10 by decide)
    (show (-3 : Int) ≤ -2 by decide) (by decide)
  cases (gives_iff.1 hi).2.symm.trans hquotient
  exact ⟨_, hi, rfl, hull (by decide) (by decide)⟩

end Operator

end RangeAudit
