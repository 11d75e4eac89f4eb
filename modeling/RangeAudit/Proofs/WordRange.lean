import RangeAudit.Proofs.Shift
import RangeAudit.Proofs.Truncation

open RangeAudit.Interval (leastWord greatestWord between word unsignedWord bit)
open Set (Icc image2)

namespace RangeAudit

variable {a b c d m n reach : Int} {i : Interval} {op : Operator} {results : Set Int}
  {memory? : Option Nat}

/-- The values do not all lie beyond the same end of the word. -/
def MeetsWord (results : Set Int) : Prop :=
  (∃ v ∈ results, v ≤ greatestWord) ∧ ∃ v ∈ results, leastWord ≤ v

theorem MeetsWord.of_mem {v : Int} (hv : v ∈ results) (hlo : leastWord ≤ v)
    (hhi : v ≤ greatestWord) : MeetsWord results :=
  ⟨⟨v, hv, hhi⟩, ⟨v, hv, hlo⟩⟩

namespace Interval

/-- The bounds are machine words, read with or without sign, and do not cross. -/
def IsWordRange (i : Interval) : Prop :=
  ∃ lo hi : Int, i = between (.int lo) (.int hi) ∧
    leastWord ≤ lo ∧ lo ≤ hi ∧ hi ≤ greatestWord

theorem isWordRange_between : (between (.int m) (.int n)).IsWordRange ↔
    leastWord ≤ m ∧ m ≤ n ∧ n ≤ greatestWord := by
  constructor
  · rintro ⟨lo, hi, heq, h⟩
    cases heq
    exact h
  · intro h
    exact ⟨m, n, rfl, h⟩

theorem isWordRange_cutOff :
    (between (.int (max m leastWord)) (.int (min n greatestWord))).IsWordRange ↔
      m ≤ n ∧ m ≤ greatestWord ∧ leastWord ≤ n := by
  have hwords : leastWord ≤ greatestWord := by decide
  rw [isWordRange_between]
  omega

theorem isWordRange_of_words (hm : m ∈ Icc leastWord greatestWord)
    (hn : n ∈ Icc leastWord greatestWord) : (between (.int m) (.int n)).IsWordRange ↔ m ≤ n := by
  rw [isWordRange_between]
  exact ⟨fun h => h.2.1, fun h => ⟨hm.1, h, hn.2⟩⟩

theorem IsWordRange.isWritable (h : i.IsWordRange) : i.isWritable := by
  obtain ⟨lo, hi, rfl, hlo, hle, hhi⟩ := h
  have hleast : leastWord = -(Nat.pow 2 255 : Nat) := rfl
  have hgreatest : greatestWord = (Nat.pow 2 256 : Nat) - 1 := rfl
  have hpow : Nat.pow 2 255 < Nat.pow 2 256 := by decide
  have hlimit := Number.pow_le_writtenBelow
  rw [isWritable_between]
  omega

theorem isWordRange_word : word.IsWordRange :=
  ⟨leastWord, greatestWord, rfl, le_rfl, by decide, le_rfl⟩

theorem isWordRange_unsignedWord : unsignedWord.IsWordRange :=
  ⟨0, greatestWord, rfl, by decide, by decide, le_rfl⟩

theorem isWordRange_bit : bit.IsWordRange :=
  ⟨0, 1, rfl, by decide, by decide, by decide⟩

/-- The bounds cross if all values lie beyond the same end of the word. -/
theorem IsSaturatedHull.isWordRange_iff (h : i.IsSaturatedHull results) :
    i.IsWordRange ↔ MeetsWord results := by
  obtain ⟨lo, hi, hlo, hhi, rfl⟩ := h
  rw [isWordRange_cutOff]
  constructor
  · rintro ⟨-, hgreatest, hleast⟩
    exact ⟨⟨lo, hlo.1, hgreatest⟩, ⟨hi, hhi.1, hleast⟩⟩
  · rintro ⟨⟨v, hv, hgreatest⟩, ⟨w, hw, hleast⟩⟩
    exact ⟨hlo.2 hhi.1, (hlo.2 hv).trans hgreatest, hleast.trans (hhi.2 hw)⟩

end Interval

namespace Corners

theorem meetsWord_quotients (ha : leastWord ≤ a) (hab : a ≤ b) (hb : b ≤ greatestWord)
    (hcd : c ≤ d) (h0 : (0 : Int) ∉ Icc c d) :
    MeetsWord (image2 Int.fdiv (Icc a b) (Icc c d) ∪ extremeValues (Icc a b) (Icc c d)) := by
  have hquotient {v : Int} (h : a.fdiv d = v) (hv : v ∈ Icc leastWord greatestWord) :
      MeetsWord (image2 Int.fdiv (Icc a b) (Icc c d) ∪ extremeValues (Icc a b) (Icc c d)) :=
    .of_mem (.inl ⟨a, ⟨le_rfl, hab⟩, d, ⟨hcd, le_rfl⟩, h⟩) hv.1 hv.2
  rcases lt_or_ge 0 c with hc | hc
  · have hd : 0 < d := hc.trans_le hcd
    exact hquotient (Int.fdiv_eq_ediv_of_nonneg a hd.le) (ediv_mem_words ha (hab.trans hb) hd)
  have hd : d < 0 := lt_of_not_ge fun hd => h0 ⟨hc, hd⟩
  have hflip : a.fdiv d = -a / -d := by
    rw [← Int.neg_fdiv_neg, Int.fdiv_eq_ediv_of_nonneg _ (by omega)]
  rcases le_or_gt a 0 with ha0 | ha0
  · have hwords : -leastWord ≤ greatestWord := by decide
    exact hquotient hflip (ediv_mem_words (by omega) (by omega) (by omega))
  rcases le_or_gt d (-2) with hd2 | hd2
  · refine hquotient hflip ⟨?_, ?_⟩
    · have hwords : leastWord * 2 ≤ -greatestWord := by decide
      rw [Int.le_ediv_iff_mul_le (by omega)]
      calc leastWord * -d ≤ leastWord * 2 :=
            Int.mul_le_mul_of_nonpos_left Interval.leastWord_neg.le (by omega)
        _ ≤ -greatestWord := hwords
        _ ≤ -a := neg_le_neg (hab.trans hb)
    · exact (Int.ediv_neg_of_neg_of_pos (by omega) (by omega)).le.trans (by decide)
  · have hone : (-1 : Int) ∈ Icc c d := ⟨by omega, by omega⟩
    exact .of_mem (.inr ⟨.inr hone, .inr ⟨⟨a, ⟨le_rfl, hab⟩, ha0⟩, rfl⟩⟩) (by decide) le_rfl

theorem div_isWordRange (ha : leastWord ≤ a) (hab : a ≤ b) (hb : b ≤ greatestWord) (hcd : c ≤ d) :
    ∃ i, div ⟨.int a, .int b, .int c, .int d⟩ = .ok i ∧ i.IsWordRange := by
  by_cases h0 : (0 : Int) ∈ Icc c d
  · exact ⟨word, div_of_zero_mem h0, Interval.isWordRange_word⟩
  · obtain ⟨i, hi, hull⟩ := div_isSaturatedHull hab hcd h0
    exact ⟨i, hi, hull.isWordRange_iff.2 (meetsWord_quotients ha hab hb hcd h0)⟩

theorem remainders_isWordRange_iff (ha : leastWord ≤ a) (hab : a ≤ b) (hreach : 0 ≤ reach)
    (hreach' : reach ≤ greatestWord) :
    (remainders reach a b).IsWordRange ↔ (a < 0 → 0 ≤ b → leastWord ≤ -reach) := by
  have hleast : leastWord < 0 := Interval.leastWord_neg
  have hgreatest : 0 ≤ greatestWord := by decide
  unfold remainders
  split
  · rw [Interval.isWordRange_between]
    omega
  split
  · rw [Interval.isWordRange_between]
    omega
  · rw [Interval.isWordRange_between]
    omega

theorem mod_isWordRange_iff (ha : leastWord ≤ a) (hab : a ≤ b) (hc : leastWord ≤ c) (hcd : c ≤ d)
    (hd : d ≤ greatestWord) :
    (mod ⟨.int a, .int b, .int c, .int d⟩).IsWordRange ↔
      (0 < c → a < 0 → 0 ≤ b → leastWord ≤ 1 - d) := by
  rcases lt_or_ge 0 c with hpos | hneg
  · rw [mod_of_pos hpos, remainders_isWordRange_iff ha hab (by omega) (by omega), neg_sub]
    simp only [hpos, forall_const]
  rcases lt_or_ge d 0 with hd0 | hd0
  · have hwords : -leastWord ≤ greatestWord := by decide
    have hsize : |d| = -d := abs_of_neg hd0
    rw [mod_of_neg hcd hd0, remainders_isWordRange_iff ha hab (by omega) (by omega)]
    exact iff_of_true (fun _ _ => by omega) fun h => absurd h hneg.not_gt
  · rw [mod_of_zero_mem ⟨hneg, hd0⟩]
    exact iff_of_true Interval.isWordRange_unsignedWord fun h => absurd h hneg.not_gt

theorem shl_of_counts_isWordRange_iff (ha : leastWord ≤ a) (hab : a ≤ b) (hb : b ≤ greatestWord)
    (hc : 0 ≤ c) (hcd : c ≤ d) (h : shl memory? ⟨.int a, .int b, .int c, .int d⟩ = .ok i) :
    i.IsWordRange ↔ a <<< c.toNat ≤ greatestWord ∧ leastWord ≤ b <<< c.toNat := by
  have hfits : ∀ f, ¬ ShiftsTooFar memory? a b c d f := by
    intro f hf
    obtain ⟨g, hg, -⟩ := hf.shl hb hc hcd
    cases hg.symm.trans h
  cases (shl_of_counts hb hc hcd hfits).symm.trans h
  have hleast : leastWord < 0 := Interval.leastWord_neg
  have hgreatest : 0 < greatestWord := by decide
  have horder : a <<< c.toNat ≤ b <<< c.toNat := shiftLeft_le_shiftLeft_of_le hab _
  -- Shifts by greater counts lie further from zero on the same side.
  have hside (x : Int) : 0 ≤ x <<< c.toNat ∧ x <<< c.toNat ≤ x <<< d.toNat ∨
      x <<< c.toNat ≤ 0 ∧ x <<< d.toNat ≤ x <<< c.toNat := by
    rcases le_total 0 x with hx | hx
    · exact .inl ⟨shiftLeft_nonneg hx _, shiftLeft_le_shiftLeft hx le_rfl hcd⟩
    · have hzero : x <<< c.toNat ≤ (0 : Int) <<< c.toNat := shiftLeft_le_shiftLeft_of_le hx _
      rw [Int.zero_shiftLeft] at hzero
      exact .inr ⟨hzero, shiftLeft_le_of_nonpos hx hcd⟩
  have hsideA := hside a
  have hsideB := hside b
  rw [Interval.isWordRange_between]
  split_ifs <;> omega

theorem shiftedRight_isWordRange_iff {j k : Nat} (ha : leastWord ≤ a) (hab : a ≤ b)
    (hb : b ≤ greatestWord) :
    (between (.int (a >>> j)) (.int (b >>> k))).IsWordRange ↔ a >>> j ≤ b >>> k :=
  Interval.isWordRange_of_words (shiftRight_mem_words ha (hab.trans hb) j)
    (shiftRight_mem_words (ha.trans hab) hb k)

theorem shl_isWordRange_iff (ha : leastWord ≤ a) (hab : a ≤ b) (hb : b ≤ greatestWord)
    (hcd : c ≤ d) (h : shl memory? ⟨.int a, .int b, .int c, .int d⟩ = .ok i) :
    i.IsWordRange ↔ if d < 0 then 0 < a → a >>> (-d).toNat ≤ b >>> (-c).toNat
      else 0 ≤ c → a <<< c.toNat ≤ greatestWord ∧ leastWord ≤ b <<< c.toNat := by
  rcases lt_or_ge d 0 with hd | hd
  · cases (shl_of_neg hcd hd).symm.trans h
    have horder : 0 < a ∨ a >>> (-d).toNat ≤ b >>> (-c).toNat := by
      refine or_iff_not_imp_left.2 fun ha0 => ?_
      calc a >>> (-d).toNat ≤ a >>> (-c).toNat :=
            (shiftRight_of_le (neg_le_neg hcd)).2 (not_lt.1 ha0)
        _ ≤ b >>> (-c).toNat := shiftRight_le_shiftRight_of_le hab _
    rw [if_pos hd, shiftedRight_isWordRange_iff ha hab hb, Classical.imp_iff_right_iff.2 horder]
  rw [if_neg hd.not_gt]
  rcases lt_or_ge c 0 with hc | hc
  · rw [shl_of_mixed hb hc hd] at h
    split at h
    · cases h
      exact iff_of_true Interval.isWordRange_word fun hc' => absurd hc' hc.not_ge
    · cases h
  · rw [shl_of_counts_isWordRange_iff ha hab hb hc hcd h]
    simp only [hc, forall_const]

/-- The bounds of a right shift can cross only if they are negative. -/
theorem shr_isWordRange_iff (ha : leastWord ≤ a) (hab : a ≤ b) (hb : b ≤ greatestWord)
    (hcd : c ≤ d) (h : shr memory? ⟨.int a, .int b, .int c, .int d⟩ = .ok i) :
    i.IsWordRange ↔ if d < 0 then -30 ≤ c → (b < 0 → a <<< (-d).toNat ≤ b <<< (-c).toNat) ∧
        a <<< (-d).toNat ≤ greatestWord ∧ leastWord ≤ b <<< (-c).toNat
      else b < 0 → a >>> d.toNat ≤ b >>> c.toNat := by
  rcases lt_or_ge d 0 with hd | hd
  · have horder : b < 0 ∨ a <<< (-d).toNat ≤ b <<< (-c).toNat := by
      refine or_iff_not_imp_left.2 fun hb0 => ?_
      calc a <<< (-d).toNat ≤ b <<< (-d).toNat := shiftLeft_le_shiftLeft_of_le hab _
        _ ≤ b <<< (-c).toNat := shiftLeft_le_shiftLeft (not_lt.1 hb0) le_rfl (neg_le_neg hcd)
    rw [if_pos hd, Classical.imp_iff_right_iff.2 horder]
    rcases lt_or_ge c (-30) with hfar | hnear
    · cases (shr_of_far hcd hd hfar).symm.trans h
      exact iff_of_true Interval.isWordRange_word fun hc => absurd hc hfar.not_ge
    · have hfits (f : Failure) :
          ¬ (Number.Oversize memory? a (-d) f ∨ Number.Oversize memory? b (-c) f) := by
        intro hf
        obtain ⟨g, hg, -⟩ := shr_oversize hcd hd hnear hf
        cases hg.symm.trans h
      cases (shr_of_neg hcd hd hnear (fun f hf => hfits f (.inl hf))
        fun f hf => hfits f (.inr hf)).symm.trans h
      rw [Interval.isWordRange_cutOff]
      simp only [hnear, forall_const]
  rw [if_neg hd.not_gt]
  rcases lt_or_ge c 0 with hc | hc
  · cases (shr_of_mixed hc hd).symm.trans h
  · cases (shr_int hc hcd).symm.trans h
    have horder : b < 0 ∨ a >>> d.toNat ≤ b >>> c.toNat := by
      refine or_iff_not_imp_left.2 fun hb0 => ?_
      calc a >>> d.toNat ≤ b >>> d.toNat := shiftRight_le_shiftRight_of_le hab _
        _ ≤ b >>> c.toNat := (shiftRight_of_le hcd).1 (not_lt.1 hb0)
    rw [shiftedRight_isWordRange_iff ha hab hb, Classical.imp_iff_right_iff.2 horder]

end Corners

namespace Operator

theorem ofText_ne_pow {text : String} (h : text ≠ "**") : ofText memory? text ≠ .pow := by
  unfold ofText
  split <;> first | exact fun hpow => h rfl | exact nofun

/-- The operands on which what an operator other than the power returns is a range of words. -/
def KeepsWords (op : Operator) (a b c d : Int) : Prop :=
  match op with
  | .mod => 0 < c → a < 0 → 0 ≤ b → leastWord ≤ 1 - d
  | .shl _ =>
    if d < 0 then 0 < a → a >>> (-d).toNat ≤ b >>> (-c).toNat
    else 0 ≤ c → a <<< c.toNat ≤ greatestWord ∧ leastWord ≤ b <<< c.toNat
  | .shr _ =>
    if d < 0 then -30 ≤ c → (b < 0 → a <<< (-d).toNat ≤ b <<< (-c).toNat) ∧
      a <<< (-d).toNat ≤ greatestWord ∧ leastWord ≤ b <<< (-c).toNat
    else b < 0 → a >>> d.toNat ≤ b >>> c.toNat
  | op => ∀ f, op.exactFunction? = some f → MeetsWord (image2 f (Icc a b) (Icc c d))

theorem applyBounds_isWordRange_iff_of_exact {f : Int → Int → Int}
    (hop : op.exactFunction? = some f) (hab : a ≤ b) (hcd : c ≤ d)
    (h : op.applyBounds (between (.int a) (.int b)) (between (.int c) (.int d)) = .ok i) :
    i.IsWordRange ↔
      ∀ g, op.exactFunction? = some g → MeetsWord (image2 g (Icc a b) (Icc c d)) := by
  obtain ⟨j, hj, hull⟩ := applyBounds_isSaturatedHull hop hab hcd
  cases hj.symm.trans h
  rw [hull.isWordRange_iff]
  constructor
  · intro hmeets g hg
    cases hop.symm.trans hg
    exact hmeets
  · intro hmeets
    exact hmeets f hop

theorem applyBounds_isWordRange_iff (hpow : op ≠ .pow) (ha : leastWord ≤ a) (hab : a ≤ b)
    (hb : b ≤ greatestWord) (hc : leastWord ≤ c) (hcd : c ≤ d) (hd : d ≤ greatestWord)
    (h : op.applyBounds (between (.int a) (.int b)) (between (.int c) (.int d)) = .ok i) :
    i.IsWordRange ↔ op.KeepsWords a b c d := by
  cases op with
  | add => exact applyBounds_isWordRange_iff_of_exact rfl hab hcd h
  | sub => exact applyBounds_isWordRange_iff_of_exact rfl hab hcd h
  | mul => exact applyBounds_isWordRange_iff_of_exact rfl hab hcd h
  | div =>
    obtain ⟨j, hj, hrange⟩ := Corners.div_isWordRange ha hab hb hcd
    cases hj.symm.trans h
    exact iff_of_true hrange nofun
  | mod =>
    cases h
    exact Corners.mod_isWordRange_iff ha hab hc hcd hd
  | pow => exact absurd rfl hpow
  | shl => exact Corners.shl_isWordRange_iff ha hab hb hcd h
  | shr => exact Corners.shr_isWordRange_iff ha hab hb hcd h
  | compare | logic =>
    cases h
    exact iff_of_true Interval.isWordRange_bit nofun
  | unknown =>
    cases h
    exact iff_of_true Interval.isWordRange_word nofun

/-- What an operator returns is a range of words exactly on the operands that keep words. -/
theorem apply_isWordRange_iff {text : String} (htext : text ≠ "**")
    (hl : (between (.int a) (.int b)).IsWordRange) (hr : (between (.int c) (.int d)).IsWordRange)
    (h : (ofText memory? text).Gives (between (.int a) (.int b)) (between (.int c) (.int d)) i) :
    i.IsWordRange ↔ (ofText memory? text).KeepsWords a b c d := by
  obtain ⟨ha, hab, hb⟩ := Interval.isWordRange_between.1 hl
  obtain ⟨hc, hcd, hd⟩ := Interval.isWordRange_between.1 hr
  exact applyBounds_isWordRange_iff (ofText_ne_pow htext) ha hab hb hc hcd hd
    (gives_between_iff.1 h).2

theorem shiftLeft_isWordRange :
    (ofText none "<<").KeepsWords 1 3 254 256 ∧
      ∃ i, (ofText none "<<").Gives (between (.int 1) (.int 3)) (between (.int 254) (.int 256)) i ∧
        i = between (.int (2 ^ 254)) (.int greatestWord) ∧ i.IsWordRange := by
  have hkeeps : (ofText none "<<").KeepsWords 1 3 254 256 := fun _ => by decide
  have hl : (between (.int 1) (.int 3)).IsWordRange := Interval.isWordRange_between.2 (by decide)
  have hr : (between (.int 254) (.int 256)).IsWordRange :=
    Interval.isWordRange_between.2 (by decide)
  have hshift : (ofText none "<<").Gives (between (.int 1) (.int 3))
      (between (.int 254) (.int 256)) (between (.int (2 ^ 254)) (.int greatestWord)) :=
    (gives_between_iff_of_not_isDivision rfl).2 (by decide)
  exact ⟨hkeeps, _, hshift, rfl, (apply_isWordRange_iff (by decide) hl hr hshift).2 hkeeps⟩

/-- A single negative word shifted by a range of counts: the bounds cross. -/
theorem shiftRight_not_isWordRange :
    (between (.int (-4)) (.int (-4))).IsWordRange ∧ (between (.int 0) (.int 2)).IsWordRange ∧
      (ofText none ">>").Gives (between (.int (-4)) (.int (-4))) (between (.int 0) (.int 2))
        (between (.int (-1)) (.int (-4))) ∧
      ¬ (between (.int (-1)) (.int (-4))).IsWordRange := by
  simp only [Interval.isWordRange_between]
  exact ⟨by decide, by decide, (gives_between_iff_of_not_isDivision rfl).2 rfl, by decide⟩

/-- How an operator other than the power fails on ranges of words. -/
inductive FailsOn (a b c d : Int) : Operator → Failure → Prop
  | shlSigns (memory? : Option Nat) (hc : c < 0) (hd : 0 ≤ d)
      (hword : leastWord ≤ a <<< d.toNat ∨ b <<< d.toNat ≤ greatestWord) :
      FailsOn a b c d (.shl memory?) .negativeShift
  | shlSize {memory? : Option Nat} {f : Failure} (hc : 0 ≤ c)
      (hsize : Corners.ShiftsTooFar memory? a b c d f) : FailsOn a b c d (.shl memory?) f
  | shrSigns (memory? : Option Nat) (hc : c < 0) (hd : 0 ≤ d) :
      FailsOn a b c d (.shr memory?) .negativeShift
  | shrSize {memory? : Option Nat} {f : Failure} (hc : -30 ≤ c) (hd : d < 0)
      (hsize : Number.Oversize memory? a (-d) f ∨ Number.Oversize memory? b (-c) f) :
      FailsOn a b c d (.shr memory?) f

def Outcome (op : Operator) (a b c d : Int) : Except Failure Interval → Prop
  | .ok _ => ∀ f, ¬ op.FailsOn a b c d f
  | .error f => op.FailsOn a b c d f

theorem outcome_shl (hb : b ≤ greatestWord) (hcd : c ≤ d) :
    Outcome (.shl memory?) a b c d (Corners.shl memory? ⟨.int a, .int b, .int c, .int d⟩) := by
  rcases lt_or_ge d 0 with hd | hd
  · rw [Corners.shl_of_neg hcd hd]
    intro f hf
    cases hf with
    | shlSigns _ _ hd' _ => exact hd.not_ge hd'
    | shlSize hc _ => exact hd.not_ge (hc.trans hcd)
  rcases lt_or_ge c 0 with hc | hc
  · rw [Corners.shl_of_mixed hb hc hd]
    split
    · rename_i hbeyond
      intro f hf
      cases hf with
      | shlSigns _ _ _ hword => exact hword.elim hbeyond.1.not_ge hbeyond.2.not_ge
      | shlSize hc' _ => exact hc.not_ge hc'
    · rename_i hword
      refine .shlSigns memory? hc hd ?_
      by_contra! hbeyond
      exact hword hbeyond
  by_cases hfar : ∃ f, Corners.ShiftsTooFar memory? a b c d f
  · obtain ⟨f, hf⟩ := hfar
    obtain ⟨g, hg, hsize⟩ := hf.shl hb hc hcd
    rw [hg]
    exact .shlSize hc hsize
  · rw [Corners.shl_of_counts hb hc hcd fun f hf => hfar ⟨f, hf⟩]
    intro f hf
    cases hf with
    | shlSigns _ hc' _ _ => exact hc.not_gt hc'
    | shlSize _ hsize => exact hfar ⟨f, hsize⟩

theorem outcome_shr (hcd : c ≤ d) :
    Outcome (.shr memory?) a b c d (Corners.shr memory? ⟨.int a, .int b, .int c, .int d⟩) := by
  rcases lt_or_ge d 0 with hd | hd
  · rcases lt_or_ge c (-30) with hfar | hnear
    · rw [Corners.shr_of_far hcd hd hfar]
      intro f hf
      cases hf with
      | shrSigns _ _ hd' => exact hd.not_ge hd'
      | shrSize hc _ _ => exact hfar.not_ge hc
    by_cases hlarge : ∃ f, Number.Oversize memory? a (-d) f ∨ Number.Oversize memory? b (-c) f
    · obtain ⟨f, hf⟩ := hlarge
      obtain ⟨g, hg, hsize⟩ := Corners.shr_oversize hcd hd hnear hf
      rw [hg]
      exact .shrSize hnear hd hsize
    · rw [Corners.shr_of_neg hcd hd hnear (fun f hf => hlarge ⟨f, .inl hf⟩)
        fun f hf => hlarge ⟨f, .inr hf⟩]
      intro f hf
      cases hf with
      | shrSigns _ _ hd' => exact hd.not_ge hd'
      | shrSize _ _ hsize => exact hlarge ⟨f, hsize⟩
  rcases lt_or_ge c 0 with hc | hc
  · rw [Corners.shr_of_mixed hc hd]
    exact .shrSigns memory? hc hd
  · rw [Corners.shr_int hc hcd]
    intro f hf
    cases hf with
    | shrSigns _ hc' _ => exact hc.not_gt hc'
    | shrSize _ hd' _ => exact hd.not_gt hd'

theorem outcome_of_exact {f : Int → Int → Int} (hop : op.exactFunction? = some f) (hab : a ≤ b)
    (hcd : c ≤ d) :
    op.Outcome a b c d
      (op.applyBounds (between (.int a) (.int b)) (between (.int c) (.int d))) := by
  obtain ⟨i, hi, -⟩ := applyBounds_isSaturatedHull hop hab hcd
  rw [hi]
  intro f hf
  cases hf <;> cases hop

theorem outcome_applyBounds (hpow : op ≠ .pow) (ha : leastWord ≤ a) (hab : a ≤ b)
    (hb : b ≤ greatestWord) (hcd : c ≤ d) :
    op.Outcome a b c d
      (op.applyBounds (between (.int a) (.int b)) (between (.int c) (.int d))) := by
  cases op with
  | add => exact outcome_of_exact rfl hab hcd
  | sub => exact outcome_of_exact rfl hab hcd
  | mul => exact outcome_of_exact rfl hab hcd
  | div =>
    obtain ⟨i, hi, -⟩ := Corners.div_isWordRange ha hab hb hcd
    change Outcome .div a b c d (Corners.div ⟨.int a, .int b, .int c, .int d⟩)
    rw [hi]
    exact nofun
  | mod => exact nofun
  | pow => exact absurd rfl hpow
  | shl => exact outcome_shl hb hcd
  | shr => exact outcome_shr hcd
  | compare | logic | unknown => exact nofun

/-- An operator gives an interval unless a shift has counts of both signs or is too large. -/
theorem gives_or_fails {text : String} (htext : text ≠ "**") (memory? : Option Nat)
    (hl : (between (.int a) (.int b)).IsWordRange)
    (hr : (between (.int c) (.int d)).IsWordRange) :
    (∃ i, (ofText memory? text).Gives (between (.int a) (.int b)) (between (.int c) (.int d)) i) ∧
      (∀ f, ¬ (ofText memory? text).FailsOn a b c d f) ∨
    ∃ f, (ofText memory? text).FailsWith (between (.int a) (.int b)) (between (.int c) (.int d)) f ∧
      (ofText memory? text).FailsOn a b c d f := by
  obtain ⟨ha, hab, hb⟩ := Interval.isWordRange_between.1 hl
  obtain ⟨-, hcd, -⟩ := Interval.isWordRange_between.1 hr
  have hpow : ofText memory? text ≠ .pow := ofText_ne_pow htext
  have houtcome := outcome_applyBounds hpow ha hab hb hcd
  rw [← apply_between] at houtcome
  have hwarn : (ofText memory? text).CanWarn (between (.int a) (.int b))
      (between (.int c) (.int d)) := fun _ => hr.isWritable
  cases happly : (ofText memory? text).apply (between (.int a) (.int b))
      (between (.int c) (.int d)) with
  | ok i =>
    rw [happly] at houtcome
    exact .inl ⟨⟨i, hwarn.gives happly⟩, houtcome⟩
  | error f =>
    rw [happly] at houtcome
    exact .inr ⟨f, hwarn.failsWith happly, houtcome⟩

theorem shiftLeft_returns :
    ∃ i, (ofText none "<<").Gives (between (.int (-1)) (.int 1)) (between (.int (-1)) (.int 256))
      i := by
  have hl : (between (.int (-1)) (.int 1)).IsWordRange :=
    Interval.isWordRange_between.2 (by decide)
  have hr : (between (.int (-1)) (.int 256)).IsWordRange :=
    Interval.isWordRange_between.2 (by decide)
  rcases gives_or_fails (show "<<" ≠ "**" by decide) none hl hr with ⟨hgives, -⟩ | ⟨f, -, hf⟩
  · exact hgives
  · cases hf with
    | shlSigns _ _ _ hword => exact absurd hword (by decide)
    | shlSize hc _ => exact absurd hc (by decide)

/-- A shift by counts of both signs. -/
theorem shiftLeft_fails :
    (between (.int 1) (.int 1)).IsWordRange ∧ (between (.int (-1)) (.int 1)).IsWordRange ∧
      (ofText none "<<").FailsWith (between (.int 1) (.int 1)) (between (.int (-1)) (.int 1))
        .negativeShift := by
  simp only [Interval.isWordRange_between]
  exact ⟨by decide, by decide, (canWarn_of_not_isDivision rfl).failsWith (by decide)⟩

end Operator

end RangeAudit
