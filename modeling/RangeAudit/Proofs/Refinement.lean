import RangeAudit.Proofs.Membership

open RangeAudit.Interval (between)

namespace RangeAudit

variable {b i j l r : Interval} {y : Number} {n v w x : Int} {c : Comparison}

namespace Comparison

/-- What a comparison with some value of an interval leaves open; `none` if that is all values. -/
def reach? (c : Comparison) (r : Interval) : Option Interval :=
  match c with
  | .lt => r.hi.map fun h => .atMost h.pred
  | .le => r.hi.map .atMost
  | .gt => r.lo.map fun l => .atLeast l.succ
  | .ge => r.lo.map .atLeast
  | .eq => some r
  | .ne => none

theorem refineLeft?_eq (c : Comparison) (l r : Interval) :
    c.refineLeft? l r = (c.reach? r).map l.meet := by
  cases c <;> simp [refineLeft?, reach?, Function.comp_def]

theorem reach?_hasExtendedBounds (hr : r.IsProper) (hb : b ∈ c.reach? r) :
    b.HasExtendedBounds := by
  cases c with
  | lt =>
    obtain ⟨h, hh, rfl⟩ := Option.map_eq_some_iff.1 hb
    exact Interval.within_atMost (hr.isUpper hh).pred.isExtended
  | le =>
    obtain ⟨h, hh, rfl⟩ := Option.map_eq_some_iff.1 hb
    exact Interval.within_atMost (hr.isUpper hh).isExtended
  | gt =>
    obtain ⟨l, hl, rfl⟩ := Option.map_eq_some_iff.1 hb
    exact Interval.within_atLeast (hr.isLower hl).succ.isExtended
  | ge =>
    obtain ⟨l, hl, rfl⟩ := Option.map_eq_some_iff.1 hb
    exact Interval.within_atLeast (hr.isLower hl).isExtended
  | eq =>
    cases hb
    exact hr.hasExtendedBounds
  | ne => cases hb

theorem contains_reach?_iff (hr : r.IsProper) (hx : r.contains x) (hb : b ∈ c.reach? r) :
    b.contains v ↔ ∃ w, r.contains w ∧ c.holds v w := by
  cases c with
  | lt =>
    obtain ⟨h, hh, rfl⟩ := Option.map_eq_some_iff.1 hb
    rw [Interval.contains_atMost_iff (hr.isUpper hh).pred.isExtended,
      Number.isAbove_pred_iff (hr.isUpper hh), hr.hasExtendedBounds.isAbove_iff hx hh]
    simp [holds]
  | le =>
    obtain ⟨h, hh, rfl⟩ := Option.map_eq_some_iff.1 hb
    rw [Interval.contains_atMost_iff (hr.isUpper hh).isExtended,
      hr.hasExtendedBounds.isAbove_iff hx hh]
    simp [holds]
  | gt =>
    obtain ⟨l, hl, rfl⟩ := Option.map_eq_some_iff.1 hb
    rw [Interval.contains_atLeast_iff (hr.isLower hl).succ.isExtended,
      Number.isBelow_succ_iff (hr.isLower hl), hr.hasExtendedBounds.isBelow_iff hx hl]
    simp [holds]
  | ge =>
    obtain ⟨l, hl, rfl⟩ := Option.map_eq_some_iff.1 hb
    rw [Interval.contains_atLeast_iff (hr.isLower hl).isExtended,
      hr.hasExtendedBounds.isBelow_iff hx hl]
    simp [holds]
  | eq =>
    cases hb
    simp [holds]
  | ne => cases hb

/-- The left interval is left with the values that compare with some value on the right. -/
theorem contains_refineLeft? (hl : l.IsProper) (hr : r.IsProper) (hx : l.contains x)
    (hw : r.contains w) (hj : j ∈ c.refineLeft? l r) :
    (c.holds x w → j.contains x) ∧ ∀ v, j.contains v → ∃ w, r.contains w ∧ c.holds v w := by
  rw [refineLeft?_eq, Option.mem_map] at hj
  obtain ⟨b, hb, rfl⟩ := hj
  have hlext := hl.hasExtendedBounds
  have hbext := reach?_hasExtendedBounds hr hb
  have hbounds := hl.hasBounds hx
  constructor
  · intro hc
    exact Interval.contains_meet hlext hbext hbounds hx
      ((contains_reach?_iff hr hw hb).2 ⟨w, hw, hc⟩)
  · intro v hv
    exact (contains_reach?_iff hr hw hb).1 ((Interval.contains_of_meet hlext hbext hv).1 hbounds)

theorem contains_refineRight? (hl : l.IsProper) (hr : r.IsProper) (hx : l.contains x)
    (hw : r.contains w) (hj : j ∈ c.refineRight? l r) :
    (c.holds x w → j.contains w) ∧ ∀ v, j.contains v → ∃ x, l.contains x ∧ c.holds x v := by
  cases c with
  | lt => exact contains_refineLeft? (c := .gt) hr hl hw hx hj
  | le => exact contains_refineLeft? (c := .ge) hr hl hw hx hj
  | gt => exact contains_refineLeft? (c := .lt) hr hl hw hx hj
  | ge => exact contains_refineLeft? (c := .le) hr hl hw hx hj
  | eq =>
    cases hj
    have hlext := hl.hasExtendedBounds
    have hrext := hr.hasExtendedBounds
    constructor
    · intro hc
      obtain rfl : x = w := by simpa [holds] using hc
      exact Interval.contains_meet hlext hrext (hl.hasBounds hx) hx hw
    · intro v hv
      exact ⟨v, (Interval.contains_of_meet hlext hrext hv).2 (hr.hasBounds hw), by simp [holds]⟩
  | ne => cases hj

theorem refineLeft?_eq_some (hc : c ≠ .ne) (l : Interval) (hr : r.HasBounds) :
    ∃ j, c.refineLeft? l r = some j := by
  obtain ⟨lo, hlo⟩ := Option.isSome_iff_exists.1 hr.1
  obtain ⟨hi, hhi⟩ := Option.isSome_iff_exists.1 hr.2
  cases c with
  | lt | le | gt | ge | eq => simp [refineLeft?, hlo, hhi]
  | ne => exact absurd rfl hc

theorem refineRight?_eq_some (hc : c ≠ .ne) (r : Interval) (hl : l.HasBounds) :
    ∃ j, c.refineRight? l r = some j := by
  obtain ⟨lo, hlo⟩ := Option.isSome_iff_exists.1 hl.1
  obtain ⟨hi, hhi⟩ := Option.isSome_iff_exists.1 hl.2
  cases c with
  | lt | le | gt | ge | eq => simp [refineRight?, hlo, hhi]
  | ne => exact absurd rfl hc

theorem refineBy_mem_refineLeft? (hc : c ≠ .ne) (i : Interval) (y : Number) :
    c.refineBy i y ∈ c.refineLeft? i (.point y) := by
  cases c with
  | lt | le | gt | ge | eq => rfl
  | ne => exact absurd rfl hc

theorem contains_refineBy (hi : i.IsProper) (hx : i.contains x) (hy : y.toInt? = some n)
    (hc : c.holds x n) : (c.refineBy i y).contains x := by
  obtain ⟨upper, hkeeps⟩ : ∃ upper, c.keeps upper := by
    cases c with
    | lt | le | eq | ne => exact ⟨true, rfl⟩
    | gt | ge => exact ⟨false, rfl⟩
  have hretains := (hi.hasBounds hx).retains hi.hasExtendedBounds hx upper
  exact (refineBy_retains hretains hy hkeeps (by simp [passes, hc])).contains

theorem holds_of_refineBy (hi : i.IsProper) (hx : i.contains x) (hy : y.toInt? = some n)
    (hc : c ≠ .ne) (hv : (c.refineBy i y).contains v) : c.holds v n := by
  have hpoint := Interval.isProper_point hy
  obtain ⟨w, hw, hholds⟩ := (contains_refineLeft? hi hpoint hx
    ((Interval.contains_point_iff hy).2 rfl) (refineBy_mem_refineLeft? hc i y)).2 v hv
  rwa [(Interval.contains_point_iff hy).1 hw] at hholds

theorem refineBy_hasExtendedBounds (hi : i.IsProper) (hy : y.toInt? = some n) (hc : c ≠ .ne) :
    (c.refineBy i y).HasExtendedBounds := by
  have hmem := refineBy_mem_refineLeft? hc i y
  rw [refineLeft?_eq, Option.mem_map] at hmem
  obtain ⟨b, hb, heq⟩ := hmem
  rw [← heq]
  exact hi.hasExtendedBounds.meet (reach?_hasExtendedBounds (Interval.isProper_point hy) hb)

end Comparison

def Operand.comparand? (ρ : Valuation) : Operand → Option Int
  | .place p => some (ρ p)
  | .literal k => k.threshold?.bind Number.toInt?

namespace Ranges

variable {ranges : Ranges} {p q : Place} {ρ : Valuation} {places : List Place} {right : Operand}

def Admits (ranges : Ranges) (ρ : Valuation) (places : List Place) : Prop :=
  ∀ q ∈ places, ∃ i, ranges.get? q = some i ∧ i.contains (ρ q)

/-- The places are tracked with intervals between integers or infinite bounds, or with bottom. -/
def IsProperAt (ranges : Ranges) (places : List Place) : Prop :=
  ∀ q ∈ places, ∃ i, ranges.get? q = some i ∧ i.IsProper

/-- A value of one place solves a comparison together with tracked values of the others. -/
def Solves (ranges : Ranges) (c : Comparison) (p : Place) (right : Operand) (q : Place) (v : Int) :
    Prop :=
  ∃ ρ n, ρ q = v ∧ ranges.Admits ρ ((p :: right.places).filter (· ≠ q)) ∧
    right.comparand? ρ = some n ∧ c.holds (ρ p) n

theorem Admits.exists_isProper (h : ranges.Admits ρ places) (hproper : ranges.IsProperAt places)
    (hq : q ∈ places) : ∃ i, ranges.get? q = some i ∧ i.IsProper ∧ i.contains (ρ q) := by
  obtain ⟨i, hi, hx⟩ := h q hq
  obtain ⟨j, hj, hjproper⟩ := hproper q hq
  cases hi.symm.trans hj
  exact ⟨i, hi, hjproper, hx⟩

theorem Admits.set (h : ranges.Admits ρ places) (hj : j.contains (ρ p)) :
    (ranges.set p j).Admits ρ places := by
  intro q hq
  by_cases hqp : q = p
  · subst hqp
    exact ⟨j, get?_set_self ranges q j, hj⟩
  · obtain ⟨i, hi, hx⟩ := h q hq
    exact ⟨i, (get?_set_of_ne ranges j hqp).trans hi, hx⟩

theorem Admits.setSome {j? : Option Interval} (h : ranges.Admits ρ places)
    (hj : ∀ j ∈ j?, j.contains (ρ p)) : (ranges.setSome p j?).Admits ρ places := by
  cases j? with
  | none => exact h
  | some j => exact h.set (hj j rfl)

theorem refineByNumber_admits (h : ranges.Admits ρ [p]) (hproper : ranges.IsProperAt [p])
    (hy : y.toInt? = some n) (hc : c.holds (ρ p) n) :
    (ranges.refineByNumber c p y).Admits ρ [p] := by
  obtain ⟨i, hi, hiproper, hx⟩ := h.exists_isProper hproper List.mem_cons_self
  simp only [refineByNumber, hi]
  split
  · exact h
  · exact h.set (Comparison.contains_refineBy hiproper hx hy hc)

theorem refinePair_admits (h : ranges.Admits ρ [p, q]) (hproper : ranges.IsProperAt [p, q])
    (hc : c.holds (ρ p) (ρ q)) : (ranges.refinePair c p q).Admits ρ [p, q] := by
  obtain ⟨i, hi, hiproper, hx⟩ := h.exists_isProper (q := p) hproper (by simp)
  obtain ⟨j, hj, hjproper, hw⟩ := h.exists_isProper (q := q) hproper (by simp)
  simp only [refinePair, hi, hj]
  apply Admits.setSome
  · apply h.setSome
    intro k hk
    exact (Comparison.contains_refineLeft? hiproper hjproper hx hw hk).1 hc
  · intro k hk
    exact (Comparison.contains_refineRight? hiproper hjproper hx hw hk).1 hc

theorem refine_admits (h : ranges.Admits ρ (p :: right.places))
    (hproper : ranges.IsProperAt (p :: right.places)) (hn : right.comparand? ρ = some n)
    (hc : c.holds (ρ p) n) : (ranges.refine c (.place p) right).Admits ρ (p :: right.places) := by
  cases right with
  | literal k =>
    obtain ⟨y, hk, hy⟩ := Option.bind_eq_some_iff.1 hn
    simp only [refine, hk, Option.elim_some]
    exact refineByNumber_admits h hproper hy hc
  | place q =>
    cases hn
    exact refinePair_admits h hproper hc

theorem refineByNumber_holds (h : ranges.Admits ρ [p]) (hproper : ranges.IsProperAt [p])
    (hy : y.toInt? = some n) (hc : c ≠ .ne)
    (hi : (ranges.refineByNumber c p y).get? p = some i) (hv : i.contains v) : c.holds v n := by
  obtain ⟨j, hj, hjproper, hx⟩ := h.exists_isProper hproper List.mem_cons_self
  apply Comparison.holds_of_refineBy hjproper hx hy hc
  simp only [refineByNumber, hj] at hi
  split at hi
  · rename_i hsame
    cases hj.symm.trans hi
    have hext := Comparison.refineBy_hasExtendedBounds hjproper hy hc
    exact (Interval.contains_congr hext hjproper.hasExtendedBounds hsame).2 hv
  · cases (get?_set_self ranges p _).symm.trans hi
    exact hv

theorem refinePair_holds (h : ranges.Admits ρ [p, q]) (hproper : ranges.IsProperAt [p, q])
    (hc : c ≠ .ne) (hne : p ≠ q) {k : Interval} :
    ((ranges.refinePair c p q).get? p = some k → k.contains v →
        ∃ j w, ranges.get? q = some j ∧ j.contains w ∧ c.holds v w) ∧
      ((ranges.refinePair c p q).get? q = some k → k.contains v →
        ∃ i x, ranges.get? p = some i ∧ i.contains x ∧ c.holds x v) := by
  obtain ⟨i, hi, hiproper, hx⟩ := h.exists_isProper (q := p) hproper (by simp)
  obtain ⟨j, hj, hjproper, hw⟩ := h.exists_isProper (q := q) hproper (by simp)
  obtain ⟨left, hleft⟩ := Comparison.refineLeft?_eq_some hc i (hjproper.hasBounds hw)
  obtain ⟨right, hright⟩ := Comparison.refineRight?_eq_some hc j (hiproper.hasBounds hx)
  have hrefined : ranges.refinePair c p q = (ranges.set p left).set q right := by
    simp only [refinePair, hi, hj, hleft, hright]
    rfl
  rw [hrefined, get?_set_of_ne _ right hne, get?_set_self, get?_set_self]
  constructor
  · rintro ⟨⟩ hv
    obtain ⟨w, hw, hholds⟩ :=
      (Comparison.contains_refineLeft? hiproper hjproper hx hw hleft).2 v hv
    exact ⟨j, w, hj, hw, hholds⟩
  · rintro ⟨⟩ hv
    obtain ⟨x, hx, hholds⟩ :=
      (Comparison.contains_refineRight? hiproper hjproper hx hw hright).2 v hv
    exact ⟨i, x, hi, hx, hholds⟩

theorem refine_solves (h : ranges.Admits ρ (p :: right.places))
    (hproper : ranges.IsProperAt (p :: right.places)) (hn : right.comparand? ρ = some n)
    (hc : c ≠ .ne) (hright : right ≠ .place p) (hq : q ∈ p :: right.places)
    (hi : (ranges.refine c (.place p) right).get? q = some i) (hv : i.contains v) :
    ranges.Solves c p right q v := by
  cases right with
  | literal k =>
    obtain ⟨y, hk, hy⟩ := Option.bind_eq_some_iff.1 hn
    obtain rfl := List.mem_singleton.1 hq
    simp only [refine, hk, Option.elim_some] at hi
    refine ⟨ρ.set q v, n, if_pos rfl, ?_, hn, ?_⟩
    · intro q' hq'
      simp [Operand.places] at hq'
    · rw [Valuation.set, if_pos rfl]
      exact refineByNumber_holds h hproper hy hc hi hv
  | place q' =>
    have hne : p ≠ q' := by
      rintro rfl
      exact hright rfl
    have hset (x w : Int) :
        (Valuation.set (fun _ => w) p x) p = x ∧ (Valuation.set (fun _ => w) p x) q' = w :=
      ⟨if_pos rfl, if_neg hne.symm⟩
    rcases List.mem_cons.1 hq with rfl | hq
    · obtain ⟨j, w, hj, hw, hholds⟩ := (refinePair_holds h hproper hc hne).1 hi hv
      obtain ⟨hp, hq'⟩ := hset v w
      refine ⟨Valuation.set (fun _ => w) q v, w, hp, ?_, congrArg some hq', by rwa [hp]⟩
      intro a ha
      obtain rfl : a = q' := by simpa [Operand.places, hne, hne.symm] using ha
      exact ⟨j, hj, by rwa [hq']⟩
    · obtain rfl := List.mem_singleton.1 hq
      obtain ⟨j, x, hj, hx, hholds⟩ := (refinePair_holds h hproper hc hne).2 hi hv
      obtain ⟨hp, hq'⟩ := hset x v
      refine ⟨Valuation.set (fun _ => v) p x, v, hq', ?_, congrArg some hq', by rwa [hp]⟩
      intro a ha
      obtain rfl : a = p := by simpa [Operand.places, hne, hne.symm] using ha
      exact ⟨j, hj, by rwa [hp]⟩

end Ranges

namespace Expression

variable {p : Place} {right : Operand} {s : State}

/-- Every solution of a comparison stays, and what is left solves it. -/
theorem assume_keeps_solutions (c : Comparison)
    (hproper : s.ranges.IsProperAt (p :: right.places)) :
    ∃ t, (binary (.compare c) (.place p) right).assume s = .ok () t ∧
      (∀ q ∉ p :: right.places, t.ranges.get? q = s.ranges.get? q) ∧
      ∀ ρ n, s.ranges.Admits ρ (p :: right.places) → right.comparand? ρ = some n →
        (c.holds (ρ p) n → t.ranges.Admits ρ (p :: right.places)) ∧
        (c ≠ .ne → right ≠ .place p → ∀ q ∈ p :: right.places, ∀ i, t.ranges.get? q = some i →
          ∀ v, i.contains v → s.ranges.Solves c p right q v) := by
  refine ⟨_, rfl, ?_, ?_⟩
  · intro q hq
    rw [List.mem_cons, not_or] at hq
    exact Ranges.get?_refine c (by simpa [Operand.places] using hq.1) hq.2
  · intro ρ n hadmits hn
    constructor
    · intro hc
      exact Ranges.refine_admits hadmits hproper hn hc
    · intro hc hright q hq i hi v hv
      exact Ranges.refine_solves hadmits hproper hn hc hright hq hi hv

def twoPlaces : State :=
  .ofEntries [(.named "x", between 0 10), (.named "y", between .negInf 7)]

/-- Six, which the first place is left with, is below seven. -/
theorem twoPlaces_keeps_solutions :
    ∃ t, (binary (.compare .lt) (.place (.named "x")) (.place (.named "y"))).assume twoPlaces =
        .ok () t ∧
      t.ranges.Admits (fun q => if q = .named "x" then 3 else 5) [.named "x", .named "y"] ∧
      t.ranges.get? (.named "x") = some (.atMost 6) ∧
      twoPlaces.ranges.Solves .lt (.named "x") (.place (.named "y")) (.named "x") 6 := by
  have hx : twoPlaces.ranges.get? (.named "x") = some (between 0 10) := by decide
  have hy : twoPlaces.ranges.get? (.named "y") = some (between .negInf 7) := by decide
  have hproper : twoPlaces.ranges.IsProperAt [.named "x", .named "y"] :=
    List.forall_mem_cons.2 ⟨⟨_, hx, .between (.inl rfl) (.inl rfl) (by decide)⟩,
      List.forall_mem_singleton.2 ⟨_, hy, .between (.inr rfl) (.inl rfl) (by decide)⟩⟩
  have hadmits : twoPlaces.ranges.Admits (fun q => if q = .named "x" then 3 else 5)
      [.named "x", .named "y"] :=
    List.forall_mem_cons.2 ⟨⟨_, hx, by decide⟩, List.forall_mem_singleton.2 ⟨_, hy, by decide⟩⟩
  obtain ⟨t, ht, -, hsolutions⟩ :=
    @assume_keeps_solutions (.named "x") (.place (.named "y")) twoPlaces .lt hproper
  obtain ⟨hkeeps, hsolves⟩ := hsolutions _ 5 hadmits rfl
  have hleft : t.ranges.get? (.named "x") = some (.atMost 6) := by
    cases ht
    decide
  exact ⟨t, ht, hkeeps (by decide), hleft,
    hsolves (by decide) (by decide) _ List.mem_cons_self _ hleft 6 (by decide)⟩

end Expression

end RangeAudit
