import RangeAudit.Proofs.Parameter

namespace RangeAudit

variable {a b : Interval} {p q : Option Number} {y z : Number} {m n v x : Int}

namespace Number

theorem IsBelow.mono (h : y.IsBelow m) (hle : m ≤ n) : y.IsBelow n := by
  obtain ⟨hy, hm⟩ := h
  rw [le_iff_extended hy (.inl rfl)] at hm
  refine ⟨hy, (le_iff_extended hy (.inl rfl)).2 (hm.trans ?_)⟩
  exact WithBot.coe_le_coe.2 (WithTop.coe_le_coe.2 hle)

theorem IsAbove.mono (h : y.IsAbove n) (hle : m ≤ n) : y.IsAbove m := by
  obtain ⟨hy, hn⟩ := h
  rw [le_iff_extended (.inl rfl) hy] at hn
  refine ⟨hy, (le_iff_extended (.inl rfl) hy).2 (le_trans ?_ hn)⟩
  exact WithBot.coe_le_coe.2 (WithTop.coe_le_coe.2 hle)

theorem isAbove_pred_iff (h : y.IsUpper) : y.pred.IsAbove n ↔ y.IsAbove (n + 1) := by
  rcases h with h | rfl
  · obtain ⟨k, hk⟩ := Option.isSome_iff_exists.1 h
    rw [pred_of_toInt? hk, IsAbove, IsAbove, le_of_toInt? rfl rfl, le_of_toInt? rfl hk]
    refine and_congr (iff_of_true (.inl rfl) (.inl h)) ?_
    omega
  · exact iff_of_true ⟨.inr (.inr rfl), rfl⟩ ⟨.inr (.inr rfl), rfl⟩

theorem isBelow_succ_iff (h : y.IsLower) : y.succ.IsBelow n ↔ y.IsBelow (n - 1) := by
  rcases h with h | rfl
  · obtain ⟨k, hk⟩ := Option.isSome_iff_exists.1 h
    rw [succ_of_toInt? hk, IsBelow, IsBelow, le_of_toInt? rfl rfl, le_of_toInt? hk rfl]
    refine and_congr (iff_of_true (.inl rfl) (.inl h)) ?_
    omega
  · exact iff_of_true ⟨.inr (.inl rfl), rfl⟩ ⟨.inr (.inl rfl), rfl⟩

theorem IsUpper.pred (h : y.IsUpper) : y.pred.IsUpper := by
  rcases h with h | rfl
  · obtain ⟨k, hk⟩ := Option.isSome_iff_exists.1 h
    rw [pred_of_toInt? hk]
    exact .inl rfl
  · exact .inr rfl

theorem IsLower.succ (h : y.IsLower) : y.succ.IsLower := by
  rcases h with h | rfl
  · obtain ⟨k, hk⟩ := Option.isSome_iff_exists.1 h
    rw [succ_of_toInt? hk]
    exact .inl rfl
  · exact .inr rfl

theorem greatest_le_iff (hy : y.IsExtended) (hz : z.IsExtended) :
    (y.greatest z).le (.int n) ↔ y.le (.int n) ∧ z.le (.int n) := by
  have hn : (Number.int n).IsExtended := .inl rfl
  rw [le_iff_extended (greatest_of hy hz) hn, le_iff_extended hy hn, le_iff_extended hz hn,
    greatest_extended hy hz, max_le_iff]

theorem le_least_iff (hy : y.IsExtended) (hz : z.IsExtended) :
    le (.int n) (y.least z) ↔ le (.int n) y ∧ le (.int n) z := by
  have hn : (Number.int n).IsExtended := .inl rfl
  rw [le_iff_extended hn (least_of hy hz), le_iff_extended hn hy, le_iff_extended hn hz,
    least_extended hy hz, le_min_iff]

end Number

namespace Interval

theorem isBottom_iff : a.isBottom ↔ a = bottom := by
  cases a
  simp [isBottom, bottom]

abbrev HasExtendedBounds : Interval → Prop :=
  Within Number.IsExtended Number.IsExtended

theorem contains_iff_within (h : a.HasExtendedBounds) :
    a.contains x ↔ a.isBottom = false ∧ a.Within (Number.IsBelow x) (Number.IsAbove x) := by
  rw [contains_iff]
  refine and_congr_right fun _ => ⟨fun hx => ?_, fun hx => ?_⟩
  · exact ⟨fun y hy => ⟨h.lo y hy, hx.1 y hy⟩, fun y hy => ⟨h.hi y hy, hx.2 y hy⟩⟩
  · exact ⟨fun y hy => (hx.lo y hy).2, fun y hy => (hx.hi y hy).2⟩

theorem IsProper.hasExtendedBounds (h : a.IsProper) : a.HasExtendedBounds := by
  cases h with
  | bottom => exact within_bottom
  | between hl hh hle => exact within_between hl.isExtended hh.isExtended

theorem IsProper.hasBounds (h : a.IsProper) (hx : a.contains x) : a.HasBounds := by
  cases h with
  | bottom => cases hx
  | between hl hh hle => exact hasBounds_between _ _

/-- The bounds among the integers and the infinities, as far as they are there. -/
def extents (a : Interval) : Option (WithBot (WithTop ℤ)) × Option (WithBot (WithTop ℤ)) :=
  (a.lo.map Number.extended, a.hi.map Number.extended)

theorem sameBound_iff (hp : ∀ y ∈ p, y.IsExtended) (hq : ∀ y ∈ q, y.IsExtended) :
    sameBound p q ↔ p.map Number.extended = q.map Number.extended := by
  cases p with
  | none =>
    cases q with
    | none => exact iff_of_true rfl rfl
    | some z => exact iff_of_false Bool.false_ne_true nofun
  | some y =>
    cases q with
    | none => exact iff_of_false Bool.false_ne_true nofun
    | some z =>
      rw [Option.map_some, Option.map_some, Option.some.injEq]
      exact Number.same_iff_extended (hp y rfl) (hq z rfl)

theorem isBottom_iff_extents : a.isBottom ↔ a.extents = (none, none) := by
  simp [isBottom, extents]

theorem boundIs_iff (hp : ∀ y ∈ p, y.IsExtended) (hz : z.IsExtended) :
    boundIs p z ↔ p.map Number.extended = some z.extended := by
  cases p with
  | none => exact iff_of_false Bool.false_ne_true nofun
  | some y =>
    rw [Option.map_some, Option.some.injEq]
    exact Number.same_iff_extended (hp y rfl) hz

theorem isTop_iff_extents (ha : a.HasExtendedBounds) : a.isTop ↔ a.extents = (some ⊥, some ⊤) := by
  rw [isTop, Bool.and_eq_true, boundIs_iff ha.lo (.inr (.inl rfl)),
    boundIs_iff ha.hi (.inr (.inr rfl)), extents, Prod.mk.injEq]
  rfl

theorem sameBounds_iff (ha : a.HasExtendedBounds) (hb : b.HasExtendedBounds) :
    sameBound a.lo b.lo && sameBound a.hi b.hi ↔ a.extents = b.extents := by
  rw [Bool.and_eq_true, sameBound_iff ha.lo hb.lo, sameBound_iff ha.hi hb.hi, extents, extents,
    Prod.mk.injEq]

theorem same_iff_extents (ha : a.HasExtendedBounds) (hb : b.HasExtendedBounds) :
    a.same b ↔ a.extents = b.extents := by
  rw [same, Bool.or_eq_true, Bool.or_eq_true, Bool.and_eq_true, Bool.and_eq_true,
    sameBounds_iff ha hb, isBottom_iff_extents, isBottom_iff_extents, isTop_iff_extents ha,
    isTop_iff_extents hb]
  constructor
  · rintro ((⟨h, h'⟩ | ⟨h, h'⟩) | h)
    · exact h.trans h'.symm
    · exact h.trans h'.symm
    · exact h
  · exact .inr

theorem contains_iff_extents (h : a.HasExtendedBounds) : a.contains x ↔
    a.extents ≠ (none, none) ∧ (∀ e ∈ a.extents.1, e ≤ (Number.int x).extended) ∧
      ∀ e ∈ a.extents.2, (Number.int x).extended ≤ e := by
  have hx : (Number.int x).IsExtended := .inl rfl
  rw [contains_iff, ← Bool.not_eq_true, isBottom_iff_extents, extents]
  simp only [Option.mem_map, forall_exists_index, and_imp, forall_apply_eq_imp_iff₂]
  refine and_congr_right fun _ => and_congr ?_ ?_
  · exact forall₂_congr fun y hy => Number.le_iff_extended (h.lo y hy) hx
  · exact forall₂_congr fun y hy => Number.le_iff_extended hx (h.hi y hy)

theorem contains_of_isTop (ha : a.HasExtendedBounds) (h : a.isTop) (x : Int) : a.contains x := by
  rw [contains_iff_extents ha, (isTop_iff_extents ha).1 h]
  simp

theorem contains_congr (ha : a.HasExtendedBounds) (hb : b.HasExtendedBounds) (h : a.same b) :
    a.contains x ↔ b.contains x := by
  rw [contains_iff_extents ha, contains_iff_extents hb, (same_iff_extents ha hb).1 h]

theorem HasBounds.retains (h : a.HasBounds) (ha : a.HasExtendedBounds) (hx : a.contains x)
    (upper : Bool) : a.Retains upper x := by
  refine ⟨((contains_iff_within ha).1 hx).2, ?_⟩
  cases upper with
  | false => exact h.1
  | true => exact h.2

/-- A value of both intervals is one of their meet, if the first lacks no bound. -/
theorem contains_meet (ha : a.HasExtendedBounds) (hb : b.HasExtendedBounds) (hbounds : a.HasBounds)
    (hxa : a.contains x) (hxb : b.contains x) : (a.meet b).contains x := by
  obtain ⟨hbottom, hxb⟩ := (contains_iff_within hb).1 hxb
  obtain ⟨upper, hupper⟩ : ∃ upper, (b.bound upper).isSome := by
    rw [isBottom, Bool.and_eq_false_iff, Option.isNone_eq_false_iff,
      Option.isNone_eq_false_iff] at hbottom
    exact hbottom.elim (⟨false, ·⟩) (⟨true, ·⟩)
  exact ((hbounds.retains ha hxa upper).meet ⟨hxb, hupper⟩).contains

theorem forall_mem_of_both {P : Number → Prop} {g : Number → Number → Number}
    (hg : ∀ y ∈ p, ∀ z ∈ q, P (g y z) → P y ∧ P z) (h : ∀ y ∈ both g p q, P y) :
    (p.isSome → ∀ z ∈ q, P z) ∧ (q.isSome → ∀ y ∈ p, P y) := by
  have hboth : ∀ y ∈ p, ∀ z ∈ q, P y ∧ P z := by
    rintro y rfl z rfl
    exact hg y rfl z rfl (h (g y z) rfl)
  constructor
  · intro hp z hz
    obtain ⟨y, hy⟩ := Option.isSome_iff_exists.1 hp
    exact (hboth y hy z hz).2
  · intro hq y hy
    obtain ⟨z, hz⟩ := Option.isSome_iff_exists.1 hq
    exact (hboth y hy z hz).1

/-- A value of the meet lies in each interval for which the other one lacks no bound. -/
theorem contains_of_meet (ha : a.HasExtendedBounds) (hb : b.HasExtendedBounds)
    (h : (a.meet b).contains x) :
    (a.HasBounds → b.contains x) ∧ (b.HasBounds → a.contains x) := by
  unfold meet at h
  split at h
  · cases h
  rename_i hbottom
  rw [Bool.or_eq_true, not_or, Bool.not_eq_true, Bool.not_eq_true] at hbottom
  split at h
  · rename_i htop
    exact ⟨fun _ => h, fun _ => contains_of_isTop ha htop x⟩
  split at h
  · rename_i htop
    exact ⟨fun _ => contains_of_isTop hb htop x, fun _ => h⟩
  dsimp only at h
  split at h
  · cases h
  obtain ⟨-, hlo, hhi⟩ := contains_iff.1 h
  have hlo := forall_mem_of_both
    (fun y hy z hz => (Number.greatest_le_iff (ha.lo y hy) (hb.lo z hz)).1) hlo
  have hhi := forall_mem_of_both
    (fun y hy z hz => (Number.le_least_iff (ha.hi y hy) (hb.hi z hz)).1) hhi
  constructor
  · intro hbounds
    exact contains_iff.2 ⟨hbottom.2, hlo.1 hbounds.1, hhi.1 hbounds.2⟩
  · intro hbounds
    exact contains_iff.2 ⟨hbottom.1, hlo.2 hbounds.1, hhi.2 hbounds.2⟩

theorem HasExtendedBounds.isAbove_iff (h : a.HasExtendedBounds) (hx : a.contains x)
    (hy : y ∈ a.hi) : y.IsAbove v ↔ ∃ w, a.contains w ∧ v ≤ w := by
  constructor
  · intro hv
    obtain ⟨hbottom, hwithin⟩ := (contains_iff_within h).1 hx
    refine ⟨max v x, (contains_iff_within h).2 ⟨hbottom, ?_, ?_⟩, le_max_left v x⟩
    · intro z hz
      exact (hwithin.lo z hz).mono (le_max_right v x)
    · intro z hz
      cases hy.symm.trans hz
      rcases max_choice v x with hmax | hmax
      · rwa [hmax]
      · rw [hmax]
        exact hwithin.hi y hy
  · rintro ⟨w, hw, hle⟩
    exact (((contains_iff_within h).1 hw).2.hi y hy).mono hle

theorem HasExtendedBounds.isBelow_iff (h : a.HasExtendedBounds) (hx : a.contains x)
    (hy : y ∈ a.lo) : y.IsBelow v ↔ ∃ w, a.contains w ∧ w ≤ v := by
  constructor
  · intro hv
    obtain ⟨hbottom, hwithin⟩ := (contains_iff_within h).1 hx
    refine ⟨min v x, (contains_iff_within h).2 ⟨hbottom, ?_, ?_⟩, min_le_left v x⟩
    · intro z hz
      cases hy.symm.trans hz
      rcases min_choice v x with hmin | hmin
      · rwa [hmin]
      · rw [hmin]
        exact hwithin.lo y hy
    · intro z hz
      exact (hwithin.hi z hz).mono (min_le_right v x)
  · rintro ⟨w, hw, hle⟩
    exact (((contains_iff_within h).1 hw).2.lo y hy).mono hle

theorem IsProper.isUpper (h : a.IsProper) (hy : y ∈ a.hi) : y.IsUpper := by
  cases h with
  | bottom => cases hy
  | between hl hh hle =>
    cases hy
    exact hh

theorem IsProper.isLower (h : a.IsProper) (hy : y ∈ a.lo) : y.IsLower := by
  cases h with
  | bottom => cases hy
  | between hl hh hle =>
    cases hy
    exact hl

theorem contains_atMost_iff (hy : y.IsExtended) : (atMost y).contains v ↔ y.IsAbove v := by
  simp [contains_iff, atMost, isBottom, Number.IsAbove, hy]

theorem contains_atLeast_iff (hy : y.IsExtended) : (atLeast y).contains v ↔ y.IsBelow v := by
  simp [contains_iff, atLeast, isBottom, Number.IsBelow, hy]

theorem isProper_point (hy : y.toInt? = some n) : (point y).IsProper := by
  have hint : y.toInt?.isSome := by simp [hy]
  exact .between (.inl hint) (.inl hint) ((Number.le_of_toInt? hy hy).2 le_rfl)

theorem contains_point_iff (hy : y.toInt? = some n) : (point y).contains v ↔ v = n := by
  rw [contains_iff]
  simp only [point, isBottom, Option.mem_def, Option.some.injEq, forall_eq',
    Number.le_of_toInt? hy (rfl : (Number.int v).toInt? = some v),
    Number.le_of_toInt? (rfl : (Number.int v).toInt? = some v) hy]
  simp
  omega

end Interval

end RangeAudit
