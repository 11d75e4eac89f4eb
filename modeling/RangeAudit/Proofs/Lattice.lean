import Mathlib
import RangeAudit.Interval

abbrev ExtendedInterval : Type := Interval (WithBot (WithTop ℤ))

namespace ExtendedInterval

variable {l h l' h' : WithBot (WithTop ℤ)}

noncomputable def ofBounds (l h : WithBot (WithTop ℤ)) : ExtendedInterval :=
  if hle : l ≤ h then ((⟨(l, h), hle⟩ : NonemptyInterval _) : Interval _) else ⊥

theorem ofBounds_of_le (hle : l ≤ h) :
    ofBounds l h = ((⟨(l, h), hle⟩ : NonemptyInterval _) : Interval _) :=
  dif_pos hle

theorem ofBounds_of_lt (hlt : h < l) : ofBounds l h = ⊥ :=
  dif_neg hlt.not_ge

theorem ofBounds_ne_bot (hle : l ≤ h) : ofBounds l h ≠ ⊥ := by
  rw [ofBounds_of_le hle]
  exact WithBot.coe_ne_bot

theorem ofBounds_le_iff (hle : l ≤ h) : ofBounds l h ≤ ofBounds l' h' ↔ l' ≤ l ∧ h ≤ h' := by
  rw [ofBounds_of_le hle]
  rcases le_or_gt l' h' with hle' | hlt
  · rw [ofBounds_of_le hle']
    exact Interval.coe_le_coe
  · rw [ofBounds_of_lt hlt, le_bot_iff]
    constructor
    · intro hbot
      exact absurd hbot WithBot.coe_ne_bot
    · rintro ⟨hl, hh⟩
      exact absurd hlt ((hl.trans hle).trans hh).not_gt

theorem ofBounds_eq_iff (hle : l ≤ h) (hle' : l' ≤ h') :
    ofBounds l h = ofBounds l' h' ↔ l = l' ∧ h = h' := by
  rw [le_antisymm_iff, ofBounds_le_iff hle, ofBounds_le_iff hle']
  constructor
  · rintro ⟨⟨hl, hh⟩, hl', hh'⟩
    exact ⟨hl'.antisymm hl, hh.antisymm hh'⟩
  · rintro ⟨rfl, rfl⟩
    exact ⟨⟨le_rfl, le_rfl⟩, le_rfl, le_rfl⟩

theorem ofBounds_sup (hle : l ≤ h) (hle' : l' ≤ h') :
    ofBounds l h ⊔ ofBounds l' h' = ofBounds (min l l') (max h h') := by
  have hsup : min l l' ≤ max h h' := (min_le_left l l').trans (hle.trans (le_max_left h h'))
  rw [ofBounds_of_le hle, ofBounds_of_le hle', ofBounds_of_le hsup]
  rfl

theorem ofBounds_inf (hle : l ≤ h) (hle' : l' ≤ h') :
    ofBounds l h ⊓ ofBounds l' h' = ofBounds (max l l') (min h h') := by
  have hmeets : max l l' ≤ min h h' ↔ l ≤ h' ∧ l' ≤ h := by
    rw [max_le_iff, le_min_iff, le_min_iff]
    exact ⟨fun hm => ⟨hm.1.2, hm.2.1⟩, fun hm => ⟨⟨hle, hm.1⟩, hm.2, hle'⟩⟩
  rw [ofBounds_of_le hle, ofBounds_of_le hle', Interval.inf_coe, ofBounds]
  simp only [hmeets]

end ExtendedInterval

namespace RangeAudit

namespace Number

variable {x y : Number} {n : Int}

/-- Where a number stands among the integers and the infinities. -/
def extended (x : Number) : WithBot (WithTop ℤ) :=
  match x.toInt? with
  | some n => ((n : WithTop ℤ) : WithBot (WithTop ℤ))
  | none => if x = negInf then ⊥ else ⊤

def IsExtended (x : Number) : Prop :=
  x.toInt?.isSome ∨ x = negInf ∨ x = posInf

theorem exact_of_toInt? (h : x.toInt? = some n) : x.exact = (Number.int n).exact := by
  cases x with
  | int m =>
    cases h
    rfl
  | truth b =>
    cases h
    cases b <;> rfl
  | double d => cases h

theorem extended_of_toInt? (h : x.toInt? = some n) :
    x.extended = ((n : WithTop ℤ) : WithBot (WithTop ℤ)) := by
  rw [extended, h]

theorem order_extended (hx : x.IsExtended) (hy : y.IsExtended) :
    x.order y = some (compare x.extended y.extended) := by
  have cases_extended {z : Number} (hz : z.IsExtended) :
      (∃ n, z.toInt? = some n) ∨ z = negInf ∨ z = posInf :=
    hz.imp_left Option.isSome_iff_exists.1
  have finite_above (n : ℤ) : ⊥ < ((n : WithTop ℤ) : WithBot (WithTop ℤ)) := WithBot.bot_lt_coe _
  have finite_below (n : ℤ) : ((n : WithTop ℤ) : WithBot (WithTop ℤ)) < ⊤ :=
    WithBot.coe_lt_coe.2 (WithTop.coe_lt_top n)
  rcases cases_extended hx with ⟨a, ha⟩ | rfl | rfl
  · rw [order, exact_of_toInt? ha, extended_of_toInt? ha]
    rcases cases_extended hy with ⟨b, hb⟩ | rfl | rfl
    · rw [exact_of_toInt? hb, extended_of_toInt? hb, ← cmp_eq_compare,
        ← Function.comp_apply (f := WithBot.some), ← Function.comp_apply (f := WithBot.some),
        (WithBot.coe_strictMono.comp WithTop.coe_strictMono).cmp_map_eq, cmp_eq_compare]
      exact order_int a b
    · exact congrArg some (compare_gt_iff_gt.2 (finite_above a)).symm
    · exact congrArg some (compare_lt_iff_lt.2 (finite_below a)).symm
  · rcases cases_extended hy with ⟨b, hb⟩ | rfl | rfl
    · rw [order, exact_of_toInt? hb, extended_of_toInt? hb]
      exact congrArg some (compare_lt_iff_lt.2 (finite_above b)).symm
    · exact congrArg some (compare_eq_iff_eq.2 rfl).symm
    · exact congrArg some (compare_lt_iff_lt.2 bot_lt_top).symm
  · rcases cases_extended hy with ⟨b, hb⟩ | rfl | rfl
    · rw [order, exact_of_toInt? hb, extended_of_toInt? hb]
      exact congrArg some (compare_gt_iff_gt.2 (finite_below b)).symm
    · exact congrArg some (compare_gt_iff_gt.2 bot_lt_top).symm
    · exact congrArg some (compare_eq_iff_eq.2 rfl).symm

theorem lt_iff_extended (hx : x.IsExtended) (hy : y.IsExtended) :
    x.lt y ↔ x.extended < y.extended := by
  simp [lt, order_extended hx hy, compare_lt_iff_lt]

theorem same_iff_extended (hx : x.IsExtended) (hy : y.IsExtended) :
    x.same y ↔ x.extended = y.extended := by
  simp [same, order_extended hx hy]

theorem le_iff_extended (hx : x.IsExtended) (hy : y.IsExtended) :
    x.le y ↔ x.extended ≤ y.extended := by
  simp [le, order_extended hx hy, compare_lt_iff_lt, le_iff_lt_or_eq]

theorem least_extended (hx : x.IsExtended) (hy : y.IsExtended) :
    (x.least y).extended = min x.extended y.extended := by
  unfold least
  split
  · rename_i h
    exact (min_eq_right ((lt_iff_extended hy hx).1 h).le).symm
  · rename_i h
    exact (min_eq_left (not_lt.1 (mt (lt_iff_extended hy hx).2 h))).symm

theorem greatest_extended (hx : x.IsExtended) (hy : y.IsExtended) :
    (x.greatest y).extended = max x.extended y.extended := by
  unfold greatest
  split
  · rename_i h
    exact (max_eq_right ((lt_iff_extended hx hy).1 h).le).symm
  · rename_i h
    exact (max_eq_left (not_lt.1 (mt (lt_iff_extended hx hy).2 h))).symm

def IsLower (x : Number) : Prop :=
  x.toInt?.isSome ∨ x = negInf

def IsUpper (x : Number) : Prop :=
  x.toInt?.isSome ∨ x = posInf

theorem IsLower.isExtended (h : x.IsLower) : x.IsExtended :=
  h.imp_right .inl

theorem IsUpper.isExtended (h : x.IsUpper) : x.IsExtended :=
  h.imp_right .inr

theorem IsLower.le_iff (hx : x.IsLower) (hy : y.IsUpper) : x.le y ↔ x.extended ≤ y.extended :=
  le_iff_extended hx.isExtended hy.isExtended

theorem least_of {P : Number → Prop} (hx : P x) (hy : P y) : P (x.least y) := by
  unfold least
  split
  · exact hy
  · exact hx

theorem greatest_of {P : Number → Prop} (hx : P x) (hy : P y) : P (x.greatest y) := by
  unfold greatest
  split
  · exact hy
  · exact hx

end Number

namespace Interval

open ExtendedInterval (ofBounds)

variable {a b c : Interval} {l h l' h' : Number}

/-- Bottom, or bounds that are integers or infinite and do not cross. -/
inductive IsProper : Interval → Prop
  | bottom : IsProper bottom
  | between {l h : Number} (hl : l.IsLower) (hh : h.IsUpper) (hle : l.le h) :
    IsProper (between l h)

noncomputable def span (i : Interval) : ExtendedInterval :=
  match i.lo, i.hi with
  | some l, some h => ofBounds l.extended h.extended
  | _, _ => ⊥

theorem span_bottom : bottom.span = ⊥ := rfl

theorem span_between (l h : Number) : (between l h).span = ofBounds l.extended h.extended := rfl

theorem isTop_iff (hl : l.IsLower) (hh : h.IsUpper) :
    (between l h).isTop ↔ l.extended = ⊥ ∧ h.extended = ⊤ := by
  have hneg : l.same .negInf ↔ l.extended = ⊥ :=
    Number.same_iff_extended hl.isExtended (.inr (.inl rfl))
  have hpos : h.same .posInf ↔ h.extended = ⊤ :=
    Number.same_iff_extended hh.isExtended (.inr (.inr rfl))
  rw [← hneg, ← hpos]
  exact Bool.and_eq_true_iff

theorem isProper_top : top.IsProper :=
  .between (.inr rfl) (.inr rfl) rfl

theorem isBottom_between (l h : Number) : (between l h).isBottom = false := rfl

theorem isSubset_between (hl : l.IsLower) (hh : h.IsUpper) (hl' : l'.IsLower) (hh' : h'.IsUpper) :
    (between l h).isSubset (between l' h') ↔
      l'.extended ≤ l.extended ∧ h.extended ≤ h'.extended := by
  rw [isSubset, isBottom_between, isBottom_between, if_neg Bool.false_ne_true,
    if_neg Bool.false_ne_true]
  split
  · rename_i htop
    obtain ⟨hbot, htop⟩ := (isTop_iff hl' hh').1 htop
    rw [hbot, htop]
    exact iff_of_true rfl ⟨bot_le, le_top⟩
  · rename_i hntop'
    split
    · rename_i htop
      obtain ⟨hbot, htop⟩ := (isTop_iff hl hh).1 htop
      rw [hbot, htop, le_bot_iff, top_le_iff]
      exact iff_of_false Bool.false_ne_true (mt (isTop_iff hl' hh').2 hntop')
    · rw [← Number.le_iff_extended hl'.isExtended hl.isExtended,
        ← Number.le_iff_extended hh.isExtended hh'.isExtended]
      exact Bool.and_eq_true_iff

/-- An interval is a subset of another exactly if its span is. -/
theorem isSubset_iff (ha : a.IsProper) (hb : b.IsProper) : a.isSubset b ↔ a.span ≤ b.span := by
  cases ha with
  | bottom => exact iff_of_true rfl bot_le
  | between hl hh hle =>
    have hle := (hl.le_iff hh).1 hle
    cases hb with
    | bottom =>
      rw [span_bottom, le_bot_iff]
      exact iff_of_false Bool.false_ne_true (ExtendedInterval.ofBounds_ne_bot hle)
    | between hl' hh' hle' =>
      rw [isSubset_between hl hh hl' hh']
      exact (ExtendedInterval.ofBounds_le_iff hle).symm

theorem same_between (hl : l.IsLower) (hh : h.IsUpper) (hl' : l'.IsLower) (hh' : h'.IsUpper) :
    (between l h).same (between l' h') ↔
      l.extended = l'.extended ∧ h.extended = h'.extended := by
  have hbounds : sameBound (some l) (some l') && sameBound (some h) (some h') ↔
      l.extended = l'.extended ∧ h.extended = h'.extended := by
    rw [← Number.same_iff_extended hl.isExtended hl'.isExtended,
      ← Number.same_iff_extended hh.isExtended hh'.isExtended]
    exact Bool.and_eq_true_iff
  rw [← hbounds, same, Bool.or_eq_true_iff, Bool.or_eq_true_iff, isBottom_between]
  constructor
  · rintro ((hbottom | htop) | hsame)
    · cases hbottom
    · obtain ⟨htop, htop'⟩ := Bool.and_eq_true_iff.1 htop
      obtain ⟨hlo, hhi⟩ := (isTop_iff hl hh).1 htop
      obtain ⟨hlo', hhi'⟩ := (isTop_iff hl' hh').1 htop'
      exact hbounds.2 ⟨hlo.trans hlo'.symm, hhi.trans hhi'.symm⟩
    · exact hsame
  · exact .inr

theorem same_iff (ha : a.IsProper) (hb : b.IsProper) : a.same b ↔ a.span = b.span := by
  cases ha with
  | bottom =>
    cases hb with
    | bottom => exact iff_of_true rfl rfl
    | between hl' hh' hle' =>
      have hle' := (hl'.le_iff hh').1 hle'
      exact iff_of_false Bool.false_ne_true (ExtendedInterval.ofBounds_ne_bot hle').symm
  | between hl hh hle =>
    have hle := (hl.le_iff hh).1 hle
    cases hb with
    | bottom =>
      refine iff_of_false ?_ (ExtendedInterval.ofBounds_ne_bot hle)
      simp [same, isBottom, isTop, boundIs, sameBound, Interval.between, Interval.bottom]
    | between hl' hh' hle' =>
      have hle' := (hl'.le_iff hh').1 hle'
      rw [same_between hl hh hl' hh']
      exact (ExtendedInterval.ofBounds_eq_iff hle hle').symm

theorem join_between (hl : l.IsLower) (hh : h.IsUpper) (hl' : l'.IsLower) (hh' : h'.IsUpper) :
    ∃ lo hi, (between l h).join (between l' h') = between lo hi ∧ lo.IsLower ∧ hi.IsUpper ∧
      lo.extended = min l.extended l'.extended ∧ hi.extended = max h.extended h'.extended := by
  rw [join, isBottom_between, isBottom_between, if_neg Bool.false_ne_true,
    if_neg Bool.false_ne_true]
  split
  · rename_i htop
    refine ⟨_, _, rfl, .inr rfl, .inr rfl, ?_⟩
    rcases Bool.or_eq_true_iff.1 htop with htop | htop
    · obtain ⟨hlo, hhi⟩ := (isTop_iff hl hh).1 htop
      rw [hlo, hhi, min_eq_left bot_le, max_eq_left le_top]
      exact ⟨rfl, rfl⟩
    · obtain ⟨hlo, hhi⟩ := (isTop_iff hl' hh').1 htop
      rw [hlo, hhi, min_eq_right bot_le, max_eq_right le_top]
      exact ⟨rfl, rfl⟩
  · exact ⟨_, _, rfl, Number.least_of hl hl', Number.greatest_of hh hh',
      Number.least_extended hl.isExtended hl'.isExtended,
      Number.greatest_extended hh.isExtended hh'.isExtended⟩

/-- Joining intervals joins their spans. -/
theorem join_span (ha : a.IsProper) (hb : b.IsProper) :
    (a.join b).IsProper ∧ (a.join b).span = a.span ⊔ b.span := by
  cases ha with
  | bottom => exact ⟨hb, (bot_sup_eq _).symm⟩
  | between hl hh hle =>
    cases hb with
    | bottom => exact ⟨.between hl hh hle, (sup_bot_eq _).symm⟩
    | between hl' hh' hle' =>
      have hle := (hl.le_iff hh).1 hle
      have hle' := (hl'.le_iff hh').1 hle'
      obtain ⟨lo, hi, heq, hlo, hhi, hmin, hmax⟩ := join_between hl hh hl' hh'
      have hjoin : lo.extended ≤ hi.extended := by
        rw [hmin, hmax]
        exact (min_le_left _ _).trans (hle.trans (le_max_left _ _))
      rw [heq]
      constructor
      · exact .between hlo hhi ((hlo.le_iff hhi).2 hjoin)
      · rw [span_between, span_between, span_between, ExtendedInterval.ofBounds_sup hle hle', hmin,
          hmax]

theorem meet_between (hl : l.IsLower) (hh : h.IsUpper) (hl' : l'.IsLower) (hh' : h'.IsUpper)
    (hle : l.extended ≤ h.extended) (hle' : l'.extended ≤ h'.extended) :
    ∃ lo hi, (between l h).meet (between l' h') =
        (if hi.extended < lo.extended then bottom else between lo hi) ∧ lo.IsLower ∧ hi.IsUpper ∧
      lo.extended = max l.extended l'.extended ∧ hi.extended = min h.extended h'.extended := by
  rw [meet, isBottom_between, isBottom_between, Bool.or_false, if_neg Bool.false_ne_true]
  split
  · rename_i htop
    obtain ⟨hlo, hhi⟩ := (isTop_iff hl hh).1 htop
    refine ⟨l', h', (if_neg hle'.not_gt).symm, hl', hh', ?_⟩
    rw [hlo, hhi, max_eq_right bot_le, min_eq_right le_top]
    exact ⟨rfl, rfl⟩
  · split
    · rename_i htop
      obtain ⟨hlo, hhi⟩ := (isTop_iff hl' hh').1 htop
      refine ⟨l, h, (if_neg hle.not_gt).symm, hl, hh, ?_⟩
      rw [hlo, hhi, max_eq_left bot_le, min_eq_left le_top]
      exact ⟨rfl, rfl⟩
    · have hlo : (l.greatest l').IsLower := Number.greatest_of hl hl'
      have hhi : (h.least h').IsUpper := Number.least_of hh hh'
      refine ⟨_, _, ?_, hlo, hhi, Number.greatest_extended hl.isExtended hl'.isExtended,
        Number.least_extended hh.isExtended hh'.isExtended⟩
      simp only [← Number.lt_iff_extended hhi.isExtended hlo.isExtended]
      rfl

/-- Meeting intervals meets their spans. -/
theorem meet_span (ha : a.IsProper) (hb : b.IsProper) :
    (a.meet b).IsProper ∧ (a.meet b).span = a.span ⊓ b.span := by
  cases ha with
  | bottom => exact ⟨.bottom, (bot_inf_eq _).symm⟩
  | between hl hh hle =>
    cases hb with
    | bottom => exact ⟨.bottom, (inf_bot_eq _).symm⟩
    | between hl' hh' hle' =>
      have hle := (hl.le_iff hh).1 hle
      have hle' := (hl'.le_iff hh').1 hle'
      obtain ⟨lo, hi, heq, hlo, hhi, hmax, hmin⟩ := meet_between hl hh hl' hh' hle hle'
      rw [heq, span_between, span_between, ExtendedInterval.ofBounds_inf hle hle', ← hmax, ← hmin]
      split
      · rename_i hcrossed
        exact ⟨.bottom, (ExtendedInterval.ofBounds_of_lt hcrossed).symm⟩
      · rename_i hcrossed
        have hmeet := (hlo.le_iff hhi).2 (not_lt.1 hcrossed)
        exact ⟨.between hlo hhi hmeet, rfl⟩

theorem IsProper.join (ha : a.IsProper) (hb : b.IsProper) : (a.join b).IsProper :=
  (join_span ha hb).1

theorem IsProper.meet (ha : a.IsProper) (hb : b.IsProper) : (a.meet b).IsProper :=
  (meet_span ha hb).1

theorem span_join (ha : a.IsProper) (hb : b.IsProper) : (a.join b).span = a.span ⊔ b.span :=
  (join_span ha hb).2

theorem span_meet (ha : a.IsProper) (hb : b.IsProper) : (a.meet b).span = a.span ⊓ b.span :=
  (meet_span ha hb).2

theorem span_top : top.span = ⊤ :=
  ExtendedInterval.ofBounds_of_le le_top

/-- Inclusion is a partial order, with join and meet as its bounds and bottom and top as ends. -/
structure IsLatticeOn (D : Interval → Prop) : Prop where
  subset_refl {a : Interval} (ha : D a) : a.isSubset a
  subset_trans {a b c : Interval} (ha : D a) (hb : D b) (hc : D c) (hab : a.isSubset b)
    (hbc : b.isSubset c) : a.isSubset c
  subset_antisymm {a b : Interval} (ha : D a) (hb : D b) :
    a.isSubset b ∧ b.isSubset a ↔ a.same b
  join_mem {a b : Interval} (ha : D a) (hb : D b) : D (a.join b)
  meet_mem {a b : Interval} (ha : D a) (hb : D b) : D (a.meet b)
  join_subset {a b c : Interval} (ha : D a) (hb : D b) (hc : D c) :
    (a.join b).isSubset c ↔ a.isSubset c ∧ b.isSubset c
  subset_meet {a b c : Interval} (ha : D a) (hb : D b) (hc : D c) :
    c.isSubset (a.meet b) ↔ c.isSubset a ∧ c.isSubset b
  join_comm {a b : Interval} (ha : D a) (hb : D b) : (a.join b).same (b.join a)
  meet_comm {a b : Interval} (ha : D a) (hb : D b) : (a.meet b).same (b.meet a)
  join_assoc {a b c : Interval} (ha : D a) (hb : D b) (hc : D c) :
    ((a.join b).join c).same (a.join (b.join c))
  meet_assoc {a b c : Interval} (ha : D a) (hb : D b) (hc : D c) :
    ((a.meet b).meet c).same (a.meet (b.meet c))
  join_self {a : Interval} (ha : D a) : (a.join a).same a
  meet_self {a : Interval} (ha : D a) : (a.meet a).same a
  join_meet_self {a b : Interval} (ha : D a) (hb : D b) : (a.join (a.meet b)).same a
  meet_join_self {a b : Interval} (ha : D a) (hb : D b) : (a.meet (a.join b)).same a
  bottom_mem : D bottom
  bottom_subset {a : Interval} (ha : D a) : bottom.isSubset a
  top_mem : D top
  subset_top {a : Interval} (ha : D a) : a.isSubset top

/-- Intervals between integers or infinite bounds that do not cross form a lattice. -/
theorem isLatticeOn_isProper : IsLatticeOn IsProper where
  subset_refl ha := (isSubset_iff ha ha).2 le_rfl
  subset_trans ha hb hc hab hbc :=
    (isSubset_iff ha hc).2 (((isSubset_iff ha hb).1 hab).trans ((isSubset_iff hb hc).1 hbc))
  subset_antisymm ha hb := by
    rw [isSubset_iff ha hb, isSubset_iff hb ha, same_iff ha hb]
    exact le_antisymm_iff.symm
  join_mem := IsProper.join
  meet_mem := IsProper.meet
  join_subset ha hb hc := by
    rw [isSubset_iff (ha.join hb) hc, isSubset_iff ha hc, isSubset_iff hb hc, span_join ha hb]
    exact sup_le_iff
  subset_meet ha hb hc := by
    rw [isSubset_iff hc (ha.meet hb), isSubset_iff hc ha, isSubset_iff hc hb, span_meet ha hb]
    exact le_inf_iff
  join_comm ha hb := by
    rw [same_iff (ha.join hb) (hb.join ha), span_join ha hb, span_join hb ha]
    exact sup_comm _ _
  meet_comm ha hb := by
    rw [same_iff (ha.meet hb) (hb.meet ha), span_meet ha hb, span_meet hb ha]
    exact inf_comm _ _
  join_assoc ha hb hc := by
    rw [same_iff ((ha.join hb).join hc) (ha.join (hb.join hc)), span_join (ha.join hb) hc,
      span_join ha hb, span_join ha (hb.join hc), span_join hb hc]
    exact sup_assoc _ _ _
  meet_assoc ha hb hc := by
    rw [same_iff ((ha.meet hb).meet hc) (ha.meet (hb.meet hc)), span_meet (ha.meet hb) hc,
      span_meet ha hb, span_meet ha (hb.meet hc), span_meet hb hc]
    exact inf_assoc _ _ _
  join_self ha := by
    rw [same_iff (ha.join ha) ha, span_join ha ha]
    exact sup_idem _
  meet_self ha := by
    rw [same_iff (ha.meet ha) ha, span_meet ha ha]
    exact inf_idem _
  join_meet_self ha hb := by
    rw [same_iff (ha.join (ha.meet hb)) ha, span_join ha (ha.meet hb), span_meet ha hb]
    exact sup_inf_self
  meet_join_self ha hb := by
    rw [same_iff (ha.meet (ha.join hb)) ha, span_meet ha (ha.join hb), span_join ha hb]
    exact inf_sup_self
  bottom_mem := .bottom
  bottom_subset _ := rfl
  top_mem := isProper_top
  subset_top ha := by
    rw [isSubset_iff ha isProper_top, span_top]
    exact le_top

end Interval

end RangeAudit
