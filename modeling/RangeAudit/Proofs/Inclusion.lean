import RangeAudit.Proofs.Membership

namespace RangeAudit

variable {a b : Interval} {p q : Option Number} {y z : Number} {x : Int}

namespace Number

theorem le_of_forall_isBelow (hy : y.IsExtended) (hz : z.IsBelow x)
    (h : ∀ v, z.IsBelow v → y.IsBelow v) : y.le z := by
  obtain ⟨hext, hzx⟩ := hz
  rcases hext with hint | rfl | rfl
  · obtain ⟨n, hn⟩ := Option.isSome_iff_exists.1 hint
    have hle := (h n (isBelow_of_toInt? hn le_rfl)).2
    rw [le_iff_extended hy (.inl rfl)] at hle
    rwa [le_iff_extended hy (.inl hint), extended_of_toInt? hn]
  · have hall (v : Int) : y.le (.int v) := (h v ⟨.inr (.inl rfl), rfl⟩).2
    rcases hy with hint | rfl | rfl
    · obtain ⟨m, hm⟩ := Option.isSome_iff_exists.1 hint
      have hle := (le_of_toInt? hm rfl).1 (hall (m - 1))
      omega
    · rfl
    · exact absurd (hall 0) Bool.false_ne_true
  · exact absurd hzx Bool.false_ne_true

theorem le_of_forall_isAbove (hy : y.IsExtended) (hz : z.IsAbove x)
    (h : ∀ v, z.IsAbove v → y.IsAbove v) : z.le y := by
  obtain ⟨hext, hxz⟩ := hz
  rcases hext with hint | rfl | rfl
  · obtain ⟨n, hn⟩ := Option.isSome_iff_exists.1 hint
    have hle := (h n ⟨.inl hint, (le_of_toInt? rfl hn).2 le_rfl⟩).2
    rw [le_iff_extended (.inl rfl) hy] at hle
    rwa [le_iff_extended (.inl hint) hy, extended_of_toInt? hn]
  · exact absurd hxz Bool.false_ne_true
  · have hall (v : Int) : le (.int v) y := (h v ⟨.inr (.inr rfl), rfl⟩).2
    rcases hy with hint | rfl | rfl
    · obtain ⟨m, hm⟩ := Option.isSome_iff_exists.1 hint
      have hle := (le_of_toInt? rfl hm).1 (hall (m + 1))
      omega
    · exact absurd (hall 0) Bool.false_ne_true
    · rfl

end Number

namespace Interval

theorem loWithin_iff : loWithin p q ↔ ∀ z ∈ q, ∃ y ∈ p, z.le y := by
  cases p <;> cases q <;> simp [loWithin]

theorem hiWithin_iff : hiWithin p q ↔ ∀ z ∈ q, ∃ y ∈ p, y.le z := by
  cases p <;> cases q <;> simp [hiWithin]

def lower (a : Interval) : WithBot (WithBot (WithTop ℤ)) :=
  a.lo.elim ⊥ fun y => (y.extended : WithBot (WithBot (WithTop ℤ)))

def upper (a : Interval) : WithTop (WithBot (WithTop ℤ)) :=
  a.hi.elim ⊤ fun y => (y.extended : WithTop (WithBot (WithTop ℤ)))

theorem lower_le_iff (ha : a.HasExtendedBounds) (hb : b.HasExtendedBounds) :
    b.lower ≤ a.lower ↔ loWithin a.lo b.lo := by
  obtain ⟨lo, hi⟩ := a
  obtain ⟨lo', hi'⟩ := b
  cases lo' with
  | none => simp [loWithin_iff, lower]
  | some z =>
    cases lo with
    | none => simp [loWithin_iff, lower]
    | some y => simp [loWithin_iff, lower, Number.le_iff_extended (hb.lo z rfl) (ha.lo y rfl)]

theorem upper_le_iff (ha : a.HasExtendedBounds) (hb : b.HasExtendedBounds) :
    a.upper ≤ b.upper ↔ hiWithin a.hi b.hi := by
  obtain ⟨lo, hi⟩ := a
  obtain ⟨lo', hi'⟩ := b
  cases hi' with
  | none => simp [hiWithin_iff, upper]
  | some z =>
    cases hi with
    | none => simp [hiWithin_iff, upper]
    | some y => simp [hiWithin_iff, upper, Number.le_iff_extended (ha.hi y rfl) (hb.hi z rfl)]

/-- The bounds of an interval, ordered so that those further out are greater. -/
abbrev Breadth : Type :=
  (WithBot (WithBot (WithTop ℤ)))ᵒᵈ × WithTop (WithBot (WithTop ℤ))

def breadth (a : Interval) : Breadth :=
  (OrderDual.toDual a.lower, a.upper)

theorem breadth_le_iff (ha : a.HasExtendedBounds) (hb : b.HasExtendedBounds) :
    a.breadth ≤ b.breadth ↔ loWithin a.lo b.lo && hiWithin a.hi b.hi := by
  rw [Bool.and_eq_true, ← lower_le_iff ha hb, ← upper_le_iff ha hb]
  rfl

theorem breadth_eq_iff : a.breadth = b.breadth ↔ a.extents = b.extents := by
  obtain ⟨lo, hi⟩ := a
  obtain ⟨lo', hi'⟩ := b
  rw [breadth, breadth, extents, extents, Prod.mk.injEq, Prod.mk.injEq, OrderDual.toDual_inj]
  apply and_congr
  · cases lo <;> cases lo' <;> simp [lower]
  · cases hi <;> cases hi' <;> simp [upper]

/-- Bottom and top are the ends, and between them the breadth decides. -/
def level (a : Interval) : WithBot (WithTop Breadth) :=
  if a.isBottom then ⊥
  else if a.isTop then ⊤
  else ((a.breadth : WithTop Breadth) : WithBot (WithTop Breadth))

theorem level_of_not (hbottom : ¬ a.isBottom) (htop : ¬ a.isTop) :
    a.level = ((a.breadth : WithTop Breadth) : WithBot (WithTop Breadth)) := by
  rw [level, if_neg hbottom, if_neg htop]

theorem level_eq_bot_iff : a.level = ⊥ ↔ a.isBottom := by
  constructor
  · intro h
    by_contra hbottom
    rw [level, if_neg hbottom] at h
    split at h
    · exact top_ne_bot h
    · exact WithBot.coe_ne_bot h
  · intro h
    exact if_pos h

theorem level_eq_top_iff : a.level = ⊤ ↔ a.isTop := by
  constructor
  · intro h
    by_contra htop
    rw [level, if_neg htop] at h
    split at h
    · exact bot_ne_top h
    · exact WithTop.coe_ne_top (WithBot.coe_inj.1 h)
  · intro h
    have hbottom : a.isBottom = false := by
      obtain ⟨lo, hi⟩ := a
      cases lo with
      | none => cases h
      | some y => rfl
    rw [level, hbottom, if_neg Bool.false_ne_true, if_pos h]

/-- Each exit of the test for inclusion has its counterpart in the order of levels. -/
theorem isSubset_iff_level (ha : a.HasExtendedBounds) (hb : b.HasExtendedBounds) :
    a.isSubset b ↔ a.level ≤ b.level := by
  by_cases hbottom : a.isBottom
  · rw [isSubset, if_pos hbottom, level_eq_bot_iff.2 hbottom]
    exact iff_of_true rfl bot_le
  rw [isSubset, if_neg hbottom]
  by_cases hbottom' : b.isBottom
  · rw [if_pos hbottom', level_eq_bot_iff.2 hbottom', le_bot_iff, level_eq_bot_iff]
    exact iff_of_false Bool.false_ne_true hbottom
  rw [if_neg hbottom']
  by_cases htop' : b.isTop
  · rw [if_pos htop', level_eq_top_iff.2 htop']
    exact iff_of_true rfl le_top
  rw [if_neg htop']
  by_cases htop : a.isTop
  · rw [if_pos htop, level_eq_top_iff.2 htop, top_le_iff, level_eq_top_iff]
    exact iff_of_false Bool.false_ne_true htop'
  rw [if_neg htop, level_of_not hbottom htop, level_of_not hbottom' htop', WithBot.coe_le_coe,
    WithTop.coe_le_coe, breadth_le_iff ha hb]

theorem same_iff_level (ha : a.HasExtendedBounds) (hb : b.HasExtendedBounds) :
    a.same b ↔ a.level = b.level := by
  rw [same_iff_extents ha hb]
  constructor
  · intro h
    simp only [level, isBottom_iff_extents, isTop_iff_extents ha, isTop_iff_extents hb, h,
      breadth_eq_iff.2 h]
  · intro h
    by_cases hbottom : a.isBottom
    · have hbottom' : b.isBottom := level_eq_bot_iff.1 (h ▸ level_eq_bot_iff.2 hbottom)
      rw [isBottom_iff_extents.1 hbottom, isBottom_iff_extents.1 hbottom']
    by_cases htop : a.isTop
    · have htop' : b.isTop := level_eq_top_iff.1 (h ▸ level_eq_top_iff.2 htop)
      rw [(isTop_iff_extents ha).1 htop, (isTop_iff_extents hb).1 htop']
    have hbottom' : ¬ b.isBottom := by rwa [← level_eq_bot_iff, ← h, level_eq_bot_iff]
    have htop' : ¬ b.isTop := by rwa [← level_eq_top_iff, ← h, level_eq_top_iff]
    rw [level_of_not hbottom htop, level_of_not hbottom' htop', WithBot.coe_inj,
      WithTop.coe_inj] at h
    exact breadth_eq_iff.1 h

theorem hasExtendedBounds_point (x : Int) : (point (.int x)).HasExtendedBounds :=
  within_between (.inl rfl) (.inl rfl)

theorem contains_iff_isSubset (ha : a.HasExtendedBounds) :
    a.contains x ↔ (point (.int x)).isSubset a := by
  have hbottom : (point (.int x)).isBottom = false := rfl
  have htop : (point (.int x)).isTop = false := rfl
  rw [isSubset, hbottom, htop, if_neg Bool.false_ne_true, if_neg Bool.false_ne_true]
  by_cases hbottom' : a.isBottom
  · rw [if_pos hbottom', contains, hbottom']
    exact Iff.rfl
  rw [if_neg hbottom']
  by_cases htop' : a.isTop
  · rw [if_pos htop']
    exact iff_of_true (contains_of_isTop ha htop' x) rfl
  · rw [if_neg htop', contains_iff, Bool.and_eq_true, loWithin_iff, hiWithin_iff]
    simp [point, hbottom']

theorem isSubset_trans {c : Interval} (ha : a.HasExtendedBounds) (hb : b.HasExtendedBounds)
    (hc : c.HasExtendedBounds) (hab : a.isSubset b) (hbc : b.isSubset c) : a.isSubset c := by
  rw [isSubset_iff_level ha hb] at hab
  rw [isSubset_iff_level hb hc] at hbc
  rw [isSubset_iff_level ha hc]
  exact hab.trans hbc

theorem contains_of_isSubset (ha : a.HasExtendedBounds) (hb : b.HasExtendedBounds)
    (hab : a.isSubset b) (hx : a.contains x) : b.contains x := by
  rw [contains_iff_isSubset ha] at hx
  rw [contains_iff_isSubset hb]
  exact isSubset_trans (hasExtendedBounds_point x) ha hb hx hab

theorem forall_exists_mem_iff {r : Number → Number → Prop} (h : ∀ y ∈ p, ∀ z ∈ q, r y z) :
    (∀ z ∈ q, ∃ y ∈ p, r y z) ↔ (p = none → q = none) := by
  cases p with
  | none => simp [Option.eq_none_iff_forall_not_mem]
  | some y =>
    apply iff_of_true
    · intro z hz
      exact ⟨y, rfl, h y rfl z hz⟩
    · intro hnone
      cases hnone

section Values

variable (ha : a.HasExtendedBounds) (hb : b.HasExtendedBounds) (hx : a.contains x)
  (hvalues : ∀ v, a.contains v → b.contains v)

include ha hb hx hvalues

theorem loWithin_iff_of_values : loWithin a.lo b.lo ↔ (a.lo = none → b.lo = none) := by
  rw [loWithin_iff]
  apply forall_exists_mem_iff (r := fun y z => z.le y)
  intro y hy z hz
  have hyx : y.IsBelow x := ((contains_iff_within ha).1 hx).2.lo y hy
  apply Number.le_of_forall_isBelow (hb.lo z hz) hyx
  intro v hv
  -- what the bound lets in lies above a value, and so above the bound of the other interval
  obtain ⟨w, hw, hle⟩ := (ha.isBelow_iff hx hy).1 hv
  exact (((contains_iff_within hb).1 (hvalues w hw)).2.lo z hz).mono hle

theorem hiWithin_iff_of_values : hiWithin a.hi b.hi ↔ (a.hi = none → b.hi = none) := by
  rw [hiWithin_iff]
  apply forall_exists_mem_iff (r := fun y z => y.le z)
  intro y hy z hz
  have hyx : y.IsAbove x := ((contains_iff_within ha).1 hx).2.hi y hy
  apply Number.le_of_forall_isAbove (hb.hi z hz) hyx
  intro v hv
  obtain ⟨w, hw, hle⟩ := (ha.isAbove_iff hx hy).1 hv
  exact (((contains_iff_within hb).1 (hvalues w hw)).2.hi z hz).mono hle

theorem isSubset_iff_of_values : a.isSubset b ↔
    b.isTop ∨ a.isTop = false ∧ (a.lo = none → b.lo = none) ∧ (a.hi = none → b.hi = none) := by
  have hbottom : a.isBottom = false := (contains_iff.1 hx).1
  have hbottom' : b.isBottom = false := (contains_iff.1 (hvalues x hx)).1
  rw [isSubset, hbottom, hbottom', if_neg Bool.false_ne_true, if_neg Bool.false_ne_true,
    ← loWithin_iff_of_values ha hb hx hvalues, ← hiWithin_iff_of_values ha hb hx hvalues]
  cases b.isTop <;> cases a.isTop <;> simp

end Values

/-- Inclusion is a partial order that agrees with values, as far as no bound is absent. -/
structure IsInclusionOn (D : Interval → Prop) : Prop where
  subset_refl {a : Interval} (ha : D a) : a.isSubset a
  subset_trans {a b c : Interval} (ha : D a) (hb : D b) (hc : D c) (hab : a.isSubset b)
    (hbc : b.isSubset c) : a.isSubset c
  subset_antisymm {a b : Interval} (ha : D a) (hb : D b) :
    a.isSubset b ∧ b.isSubset a ↔ a.same b
  contains_of_subset {a b : Interval} {x : Int} (ha : D a) (hb : D b) (hab : a.isSubset b)
    (hx : a.contains x) : b.contains x
  subset_of_contains {a b : Interval} {x : Int} (ha : D a) (hb : D b) (hx : a.contains x)
    (hvalues : ∀ v, a.contains v → b.contains v) : a.isSubset b ↔
      b.isTop ∨ a.isTop = false ∧ (a.lo = none → b.lo = none) ∧ (a.hi = none → b.hi = none)

/-- Intervals with integer, infinite or absent bounds are ordered by inclusion. -/
theorem isInclusionOn_hasExtendedBounds : IsInclusionOn HasExtendedBounds where
  subset_refl ha := (isSubset_iff_level ha ha).2 le_rfl
  subset_trans := isSubset_trans
  subset_antisymm ha hb := by
    rw [isSubset_iff_level ha hb, isSubset_iff_level hb ha, same_iff_level ha hb]
    exact le_antisymm_iff.symm
  contains_of_subset := contains_of_isSubset
  subset_of_contains := isSubset_iff_of_values

example : (between 5 3).isSubset (atLeast 4) ∧ (atLeast 4).isSubset (atLeast .negInf) ∧
    (atLeast .negInf).isSubset top ∧ top.isSubset (atLeast .negInf) = false := by
  decide

end Interval

end RangeAudit
