import RangeAudit.Proofs.Hull

open RangeAudit.Interval (leastWord greatestWord between word)
open Set (Icc image2)

namespace RangeAudit

variable {a b c d a' b' c' d' : Int} {i j : Interval} {s t s' t' : Set Int}

theorem le_of_Icc_subset (hab : a ≤ b) (h : Icc a b ⊆ Icc c d) : c ≤ d :=
  Set.nonempty_Icc.1 ((Set.nonempty_Icc.2 hab).mono h)

namespace Interval

theorem isSubset_int :
    (between (.int a) (.int b)).isSubset (between (.int c) (.int d)) ↔ c ≤ a ∧ b ≤ d := by
  simp [isSubset, between, isBottom, isTop, boundIs, loWithin, hiWithin]

namespace IsSaturatedHull

theorem isSubset (hi : i.IsSaturatedHull s) (hj : j.IsSaturatedHull t) (h : s ⊆ t) :
    i.isSubset j := by
  obtain ⟨lo, hi, hlo, hhi, rfl⟩ := hi
  obtain ⟨lo', hi', hlo', hhi', rfl⟩ := hj
  rw [isSubset_int]
  constructor
  · exact max_le_max_right leastWord (hlo.mono hlo' h)
  · exact min_le_min_right greatestWord (hhi.mono hhi' h)

theorem isSubset_word (h : i.IsSaturatedHull s) : i.isSubset word := by
  obtain ⟨lo, hi, -, -, rfl⟩ := h
  exact isSubset_int.2 ⟨le_max_right lo leastWord, min_le_right hi greatestWord⟩

end IsSaturatedHull

end Interval

namespace Corners

theorem extremeValues_mono (hs : s ⊆ s') (ht : t ⊆ t') :
    extremeValues s t ⊆ extremeValues s' t' := by
  rintro v ⟨hnear, hv⟩
  refine ⟨hnear.imp (@ht 1) (@ht (-1)), hv.imp ?_ ?_⟩
  · rintro ⟨⟨x, hx, hneg⟩, rfl⟩
    exact ⟨⟨x, hs hx, hneg⟩, rfl⟩
  · rintro ⟨⟨x, hx, hpos⟩, rfl⟩
    exact ⟨⟨x, hs hx, hpos⟩, rfl⟩

theorem div_mono (hab : a ≤ b) (hcd : c ≤ d) (hl : Icc a b ⊆ Icc a' b')
    (hr : Icc c d ⊆ Icc c' d') :
    ∃ i j, div ⟨.int a, .int b, .int c, .int d⟩ = .ok i ∧
      div ⟨.int a', .int b', .int c', .int d'⟩ = .ok j ∧ i.isSubset j := by
  by_cases h0 : (0 : Int) ∈ Icc c d
  · exact ⟨word, word, div_of_zero_mem h0, div_of_zero_mem (hr h0), rfl⟩
  obtain ⟨i, hi, hull⟩ := div_isSaturatedHull hab hcd h0
  refine ⟨i, ?_⟩
  by_cases h0' : (0 : Int) ∈ Icc c' d'
  · exact ⟨word, hi, div_of_zero_mem h0', hull.isSubset_word⟩
  obtain ⟨j, hj, hull'⟩ :=
    div_isSaturatedHull (le_of_Icc_subset hab hl) (le_of_Icc_subset hcd hr) h0'
  have hvalues : image2 Int.fdiv (Icc a b) (Icc c d) ∪ extremeValues (Icc a b) (Icc c d) ⊆
      image2 Int.fdiv (Icc a' b') (Icc c' d') ∪ extremeValues (Icc a' b') (Icc c' d') :=
    Set.union_subset_union (Set.image2_subset hl hr) (extremeValues_mono hl hr)
  exact ⟨j, hi, hj, hull.isSubset hull' hvalues⟩

end Corners

namespace Operator

theorem applyBounds_mono {op : Operator} {f : Int → Int → Int} (hop : op.exactFunction? = some f)
    (hab : a ≤ b) (hcd : c ≤ d) (hl : Icc a b ⊆ Icc a' b') (hr : Icc c d ⊆ Icc c' d') :
    ∃ i j, op.applyBounds (between (.int a) (.int b)) (between (.int c) (.int d)) = .ok i ∧
      op.applyBounds (between (.int a') (.int b')) (between (.int c') (.int d')) = .ok j ∧
      i.isSubset j := by
  obtain ⟨i, hi, hull⟩ := applyBounds_isSaturatedHull hop hab hcd
  obtain ⟨j, hj, hull'⟩ :=
    applyBounds_isSaturatedHull hop (le_of_Icc_subset hab hl) (le_of_Icc_subset hcd hr)
  exact ⟨i, j, hi, hj, hull.isSubset hull' (Set.image2_subset hl hr)⟩

theorem isWritable_of_subset (hcd : c ≤ d) (h : Icc c d ⊆ Icc c' d') (h0 : (0 : Int) ∈ Icc c d)
    (hr : (between (.int c') (.int d')).isWritable) : (between (.int c) (.int d)).isWritable := by
  obtain ⟨hlo, hhi⟩ := (Set.Icc_subset_Icc_iff hcd).1 h
  obtain ⟨hc, hd⟩ := h0
  rw [Interval.isWritable_between] at hr ⊢
  omega

/-- Wider operands give a wider interval, or none if the divisor is too long to write. -/
theorem apply_mono {op : Operator} (hop : op ∈ [.add, .sub, .mul, .div]) (hab : a ≤ b) (hcd : c ≤ d)
    (hl : (between (.int a) (.int b)).isSubset (between (.int a') (.int b')))
    (hr : (between (.int c) (.int d)).isSubset (between (.int c') (.int d'))) :
    ((op = .div → (0 : Int) ∈ Icc c' d' → (between (.int c') (.int d')).isWritable) →
      ∃ i j, op.Gives (between (.int a) (.int b)) (between (.int c) (.int d)) i ∧
        op.Gives (between (.int a') (.int b')) (between (.int c') (.int d')) j ∧
        i.isSubset j) ∧
    (op = .div → (0 : Int) ∈ Icc c' d' → ¬ (between (.int c') (.int d')).isWritable →
      op.FailsWith (between (.int a') (.int b')) (between (.int c') (.int d'))
        .tooLongToWrite) := by
  rw [Interval.isSubset_int, ← Set.Icc_subset_Icc_iff hab] at hl
  rw [Interval.isSubset_int, ← Set.Icc_subset_Icc_iff hcd] at hr
  simp only [gives_between_iff]
  constructor
  · intro hwritable
    have hmono : ∃ i j,
        op.applyBounds (between (.int a) (.int b)) (between (.int c) (.int d)) = .ok i ∧
        op.applyBounds (between (.int a') (.int b')) (between (.int c') (.int d')) = .ok j ∧
        i.isSubset j := by
      cases op with
      | add => exact applyBounds_mono rfl hab hcd hl hr
      | sub => exact applyBounds_mono rfl hab hcd hl hr
      | mul => exact applyBounds_mono rfl hab hcd hl hr
      | div => exact Corners.div_mono hab hcd hl hr
      | mod | pow | shl | shr | compare | logic | unknown => simp at hop
    have hdiv : op.isDivision → op = .div := by
      cases op with
      | div => exact fun _ => rfl
      | mod => simp at hop
      | add | sub | mul | pow | shl | shr | compare | logic | unknown => exact nofun
    obtain ⟨i, j, hi, hj, hsub⟩ := hmono
    refine ⟨i, j, ⟨fun h h0 => ?_, hi⟩, ⟨fun h => hwritable (hdiv h), hj⟩, hsub⟩
    exact isWritable_of_subset hcd hr h0 (hwritable (hdiv h) (hr h0))
  · rintro rfl h0 hlong
    exact failsWith_of_not_canWarn fun h => hlong ((canWarn_between _ _ _ _ _).1 h rfl h0)

/-- The wider divisor comes next to zero, so that an extreme value joins the quotients. -/
theorem quotient_mono :
    ∃ i j, Operator.div.Gives (between (.int 6) (.int 7)) (between (.int 2) (.int 3)) i ∧
      Operator.div.Gives (between (.int 4) (.int 9)) (between (.int 1) (.int 3)) j ∧
      i = between (.int 2) (.int 3) ∧ j = between (.int 1) (.int greatestWord) ∧
      i.isSubset j := by
  have hnarrow : Operator.div.apply (between (.int 6) (.int 7)) (between (.int 2) (.int 3)) =
      .ok (between (.int 2) (.int 3)) := by
    decide +kernel
  have hwide : Operator.div.apply (between (.int 4) (.int 9)) (between (.int 1) (.int 3)) =
      .ok (between (.int 1) (.int greatestWord)) := by
    decide +kernel
  have hpositive : (0 : Int) ∉ Icc 1 3 := by decide
  obtain ⟨i, j, hi, hj, hsub⟩ :=
    (apply_mono (show Operator.div ∈ [.add, .sub, .mul, .div] by decide)
      (show (6 : Int) ≤ 7 by decide) (show (2 : Int) ≤ 3 by decide)
      (show (between (.int 6) (.int 7)).isSubset (between (.int 4) (.int 9)) by decide)
      (show (between (.int 2) (.int 3)).isSubset (between (.int 1) (.int 3)) by decide)).1
      fun _ h => absurd h hpositive
  cases (gives_iff.1 hi).2.symm.trans hnarrow
  cases (gives_iff.1 hj).2.symm.trans hwide
  exact ⟨_, _, hi, hj, rfl, rfl, hsub⟩

/-- A quotient by one, against divisors from zero up to a number too long to write. -/
theorem longDivisor_breaks_mono :
    (between (.int 1) (.int 1)).isSubset (between (.int 0) (.int Number.writtenBelow)) ∧
      Operator.div.FailsWith (between (.int 7) (.int 7))
        (between (.int 0) (.int Number.writtenBelow)) .tooLongToWrite := by
  have hone : (1 : Int) ≤ Number.writtenBelow :=
    (show (1 : Int) ≤ Nat.pow 2 256 by decide).trans (Int.ofNat_le.2 Number.pow_le_writtenBelow)
  refine ⟨Interval.isSubset_int.2 ⟨by decide, hone⟩, failsWith_of_not_canWarn ?_⟩
  rw [canWarn_between]
  exact fun h => Interval.not_isWritable_writtenBelow (h rfl ⟨le_rfl, Int.natCast_nonneg _⟩)

end Operator

end RangeAudit
