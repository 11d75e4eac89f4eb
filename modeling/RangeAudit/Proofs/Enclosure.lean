import RangeAudit.Proofs.Hull

open RangeAudit.Interval (leastWord greatestWord between word unsignedWord)
open Set (Icc image2)

namespace RangeAudit

variable {size x y v : Int} {l r : Interval}

def IsWord (x : Int) : Prop :=
  0 ≤ x ∧ x ≤ greatestWord

instance (x : Int) : Decidable (IsWord x) :=
  inferInstanceAs (Decidable (_ ∧ _))

namespace Interval

/-- An integer lies between integer bounds of limited size. -/
def Encloses (size : Int) (i : Interval) (x : Int) : Prop :=
  ∃ a b, i = between (.int a) (.int b) ∧ a ≤ x ∧ x ≤ b ∧ -size < a ∧ b < size

theorem Encloses.contains {i : Interval} (h : i.Encloses size x) : i.contains x := by
  obtain ⟨a, b, rfl, ha, hb, -, -⟩ := h
  exact contains_between.2 ⟨ha, hb⟩

theorem leastWord_neg : leastWord < 0 := by
  decide

theorem neg_greatestWord : -greatestWord < leastWord := by
  decide

theorem encloses_word (hv : IsWord v) (hsize : greatestWord < size) : word.Encloses size v := by
  have := leastWord_neg
  have := neg_greatestWord
  exact ⟨_, _, rfl, by linarith [hv.1], hv.2, by linarith, hsize⟩

theorem encloses_unsignedWord (hv : IsWord v) (hsize : greatestWord < size) :
    unsignedWord.Encloses size v := by
  exact ⟨0, _, rfl, hv.1, hv.2, by linarith [hv.1, hv.2], hsize⟩

theorem encloses_saturated {m n : Int} (hm : m ≤ v) (hn : v ≤ n) (hv : IsWord v)
    (hsize : greatestWord < size) :
    (between (.int (max m leastWord)) (.int (min n greatestWord))).Encloses size v := by
  have hneg := leastWord_neg
  have hgreat := neg_greatestWord
  obtain ⟨hv0, hv1⟩ := hv
  exact ⟨_, _, rfl, by omega, by omega, by omega, by omega⟩

theorem IsSaturatedHull.encloses {i : Interval} {results : Set Int} (h : i.IsSaturatedHull results)
    (hr : v ∈ results) (hv : IsWord v) (hsize : greatestWord < size) : i.Encloses size v := by
  obtain ⟨lo, hi, hlo, hhi, rfl⟩ := h
  exact encloses_saturated (hlo.2 hr) (hhi.2 hr) hv hsize

end Interval

/-- The exact result of an operator of unsigned arithmetic; division by zero has none. -/
def Operator.value? (op : Operator) (x y : Int) : Option Int :=
  match op with
  | .add => some (x + y)
  | .sub => some (x - y)
  | .mul => some (x * y)
  | .div => if y = 0 then none else some (x / y)
  | .mod => if y = 0 then none else some (x % y)
  | _ => none

namespace Corners

variable {a b c d : Int}

theorem div_encloses (hx : x ∈ Icc a b) (hy : y ∈ Icc c d) (hpos : 0 < y) (hv : IsWord (x / y))
    (hsize : greatestWord < size) :
    ∃ i, div ⟨.int a, .int b, .int c, .int d⟩ = .ok i ∧ i.Encloses size (x / y) := by
  by_cases h0 : (0 : Int) ∈ Icc c d
  · exact ⟨word, div_of_zero_mem h0, Interval.encloses_word hv hsize⟩
  · obtain ⟨m, n, hdiv, hbounds, -⟩ := div_hull (hx.1.trans hx.2) (hy.1.trans hy.2) h0
    have hquotient := hbounds (x.fdiv y) ⟨x, hx, y, hy, rfl⟩
    rw [Int.fdiv_eq_ediv_of_nonneg x hpos.le] at hquotient
    exact ⟨_, hdiv, Interval.encloses_saturated hquotient.1 hquotient.2 hv hsize⟩

def remainders (reach a b : Int) : Interval :=
  if 0 ≤ a then between (.int 0) (.int (min b reach))
  else if b < 0 then between (.int (max (-reach) a)) (.int 0)
  else between (.int (-reach)) (.int reach)

theorem modPositive_int :
    modPositive ⟨.int a, .int b, .int c, .int d⟩ = remainders (d - 1) a b := by
  simp [modPositive, remainders, Number.pred, Number.neg, Number.toInt?, Number.least_int,
    Number.greatest_int, bounded_int]

theorem mod_of_zero_mem (h0 : (0 : Int) ∈ Icc c d) :
    mod ⟨.int a, .int b, .int c, .int d⟩ = unsignedWord := by
  rw [mod, if_pos (divisorMeetsZero_iff.2 h0)]

theorem mod_of_pos (hc : 0 < c) :
    mod ⟨.int a, .int b, .int c, .int d⟩ = remainders (d - 1) a b := by
  rw [mod, if_neg (mt divisorMeetsZero_iff.1 (by omega)), if_pos (by simp [hc]), modPositive_int]

theorem mod_encloses (hb : x ≤ b) (hd : y ≤ d) (hx : 0 ≤ x) (hy : 0 < y)
    (hv : IsWord (x % y)) (hsize : greatestWord < size) (hbs : b < size) (hds : d < size) :
    (mod ⟨.int a, .int b, .int c, .int d⟩).Encloses size (x % y) := by
  have hlt := Int.emod_lt_of_pos x hy
  have hle : x % y ≤ x := by
    have := Int.mul_nonneg (Int.le_of_lt hy) (Int.ediv_nonneg hx (Int.le_of_lt hy))
    have := Int.emod_add_mul_ediv x y
    omega
  obtain ⟨hv0, hv1⟩ := hv
  by_cases hpos : 0 < c
  · rw [mod_of_pos hpos]
    unfold remainders
    split
    · exact ⟨_, _, rfl, by omega, by omega, by omega, by omega⟩
    · rw [if_neg (by omega)]
      exact ⟨_, _, rfl, by omega, by omega, by omega, by omega⟩
  · rw [mod_of_zero_mem ⟨by omega, by omega⟩]
    exact Interval.encloses_unsignedWord ⟨hv0, hv1⟩ hsize

end Corners

namespace Operator

theorem applyBounds_encloses {op : Operator} {f : Int → Int → Int} {a b c d : Int}
    (hop : op.exactFunction? = some f) (hx : x ∈ Icc a b) (hy : y ∈ Icc c d) (hv : IsWord (f x y))
    (hsize : greatestWord < size) :
    ∃ i, op.applyBounds (between (.int a) (.int b)) (between (.int c) (.int d)) = .ok i ∧
      i.Encloses size (f x y) := by
  obtain ⟨i, hi, hull⟩ :=
    applyBounds_isSaturatedHull hop (hx.1.trans hx.2) (hy.1.trans hy.2)
  exact ⟨i, hi, hull.encloses ⟨x, hx, y, hy, rfl⟩ hv hsize⟩

/-- An operator on intervals covers the exact result on values inside them. -/
theorem apply_encloses {op : Operator} (hl : l.Encloses size x) (hr : r.Encloses size y)
    (hx : 0 ≤ x) (hy : 0 ≤ y) (hop : op.value? x y = some v) (hv : IsWord v)
    (hsize : greatestWord < size) : ∃ i, op.apply l r = .ok i ∧ i.Encloses size v := by
  obtain ⟨a, b, rfl, ha, hb, -, hbs⟩ := hl
  obtain ⟨c, d, rfl, hc, hd, -, hds⟩ := hr
  rw [apply_between]
  cases op with
  | add =>
    cases hop
    exact applyBounds_encloses rfl ⟨ha, hb⟩ ⟨hc, hd⟩ hv hsize
  | sub =>
    cases hop
    exact applyBounds_encloses rfl ⟨ha, hb⟩ ⟨hc, hd⟩ hv hsize
  | mul =>
    cases hop
    exact applyBounds_encloses rfl ⟨ha, hb⟩ ⟨hc, hd⟩ hv hsize
  | div =>
    simp only [value?, Option.ite_none_left_eq_some, Option.some.injEq] at hop
    obtain ⟨hy0, rfl⟩ := hop
    exact Corners.div_encloses ⟨ha, hb⟩ ⟨hc, hd⟩ (by omega) hv hsize
  | mod =>
    simp only [value?, Option.ite_none_left_eq_some, Option.some.injEq] at hop
    obtain ⟨hy0, rfl⟩ := hop
    exact ⟨_, rfl, Corners.mod_encloses hb hd hx (by omega) hv hsize hbs hds⟩
  | pow | shl | shr | compare | logic | unknown => cases hop

end Operator

end RangeAudit
