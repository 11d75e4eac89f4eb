import RangeAudit.Proofs.Lattice

namespace RangeAudit

namespace Interval

variable {a b : Interval} {x : Number} {p q : Option Number}

/-- A bound that another takes the place of where it has the value `x`. -/
def giveWay (x : Number) (p q : Option Number) : Option Number :=
  if boundIs p x then q else p

theorem giveWay_giveWay (x : Number) (p q : Option Number) :
    giveWay x (giveWay x p q) q = giveWay x p q := by
  unfold giveWay
  by_cases hp : boundIs p x
  · rw [if_pos hp, ite_self]
  · rw [if_neg hp, if_neg hp]

theorem eq_some_of_giveWay (hx : x.same x) (h : giveWay x p q = some x) : q = some x := by
  unfold giveWay at h
  split at h
  · exact h
  · rename_i hp
    subst h
    exact absurd hx hp

/-- A bound that gives way to one that is no weaker lies between the two. -/
theorem exists_giveWay {P : Number → Prop} {r : Number → Number → Prop} (x : Number) {y z : Number}
    (hy : P y) (hz : P z) (hrefl : ∀ w, r w w) (hyz : r y z) :
    ∃ w, giveWay x (some y) (some z) = some w ∧ P w ∧ r y w ∧ r w z := by
  unfold giveWay
  split
  · exact ⟨z, rfl, hz, hyz, hrefl z⟩
  · exact ⟨y, rfl, hy, hrefl y, hyz⟩

theorem narrow_of_isBottom (h : a.isBottom || b.isBottom) : a.narrow b = bottom :=
  if_pos h

theorem narrow_of_not_isBottom (h : ¬ (a.isBottom || b.isBottom)) :
    a.narrow b = ⟨giveWay .negInf a.lo b.lo, giveWay .posInf a.hi b.hi⟩ :=
  if_neg h

theorem narrow_span (ha : a.IsProper) (hb : b.IsProper) (hpart : b.span ≤ a.span) :
    (a.narrow b).IsProper ∧ b.span ≤ (a.narrow b).span ∧ (a.narrow b).span ≤ a.span := by
  cases ha with
  | bottom => exact ⟨.bottom, hpart, le_rfl⟩
  | @between l h hl hh hle =>
    cases hb with
    | bottom => exact ⟨.bottom, le_rfl, bot_le⟩
    | @between l' h' hl' hh' hle' =>
      have hle' := (hl'.le_iff hh').1 hle'
      obtain ⟨hlo, hhi⟩ := (ExtendedInterval.ofBounds_le_iff hle').1 hpart
      obtain ⟨lo, heqlo, hlower, hlo, hlo'⟩ :=
        exists_giveWay (r := fun y z => y.extended ≤ z.extended) .negInf hl hl'
          (fun _ => le_rfl) hlo
      obtain ⟨hi, heqhi, hupper, hhi, hhi'⟩ :=
        exists_giveWay (r := fun y z => z.extended ≤ y.extended) .posInf hh hh'
          (fun _ => le_rfl) hhi
      have heq : (between l h).narrow (between l' h') = between lo hi := by
        rw [narrow_of_not_isBottom (by simp [isBottom_between])]
        exact congrArg₂ Interval.mk heqlo heqhi
      have hlohi : lo.extended ≤ hi.extended := hlo'.trans (hle'.trans hhi')
      rw [heq]
      refine ⟨.between hlower hupper ((hlower.le_iff hupper).2 hlohi), ?_, ?_⟩
      · exact (ExtendedInterval.ofBounds_le_iff hle').2 ⟨hlo', hhi'⟩
      · exact (ExtendedInterval.ofBounds_le_iff hlohi).2 ⟨hlo, hhi⟩

/-- Whatever the bounds are, narrowing twice does no more than narrowing once. -/
theorem narrow_narrow (a b : Interval) : (a.narrow b).narrow b = a.narrow b := by
  by_cases hbottom : a.isBottom || b.isBottom
  · rw [narrow_of_isBottom hbottom]
    exact narrow_of_isBottom rfl
  · have heq := narrow_of_not_isBottom hbottom
    by_cases hagain : (a.narrow b).isBottom || b.isBottom
    · have hresult : (a.narrow b).isBottom := by
        rcases Bool.or_eq_true_iff.1 hagain with hresult | hb
        · exact hresult
        · exact absurd (Bool.or_eq_true_iff.2 (.inr hb)) hbottom
      obtain ⟨hlo, hhi⟩ := Bool.and_eq_true_iff.1 hresult
      rw [Option.isNone_iff_eq_none] at hlo hhi
      rw [narrow_of_isBottom hagain]
      exact congrArg₂ Interval.mk hlo.symm hhi.symm
    · rw [narrow_of_not_isBottom hagain, heq, giveWay_giveWay, giveWay_giveWay]

theorem infinite_of_narrow (a b : Interval) :
    ((a.narrow b).lo = some .negInf → b.lo = some .negInf) ∧
      ((a.narrow b).hi = some .posInf → b.hi = some .posInf) := by
  by_cases hbottom : a.isBottom || b.isBottom
  · rw [narrow_of_isBottom hbottom]
    constructor <;> intro h <;> cases h
  · rw [narrow_of_not_isBottom hbottom]
    exact ⟨eq_some_of_giveWay rfl, eq_some_of_giveWay rfl⟩

/-- Narrowing towards a part stays between the two, and is done after the first time. -/
theorem narrow_stays_between (ha : a.IsProper) (hb : b.IsProper) (h : b.isSubset a) :
    b.isSubset (a.narrow b) ∧ (a.narrow b).isSubset a ∧ (a.narrow b).IsProper ∧
      (a.narrow b).narrow b = a.narrow b ∧
      ((a.narrow b).lo = some .negInf → b.lo = some .negInf) ∧
      ((a.narrow b).hi = some .posInf → b.hi = some .posInf) := by
  obtain ⟨hproper, hbelow, habove⟩ := narrow_span ha hb ((isSubset_iff hb ha).1 h)
  refine ⟨?_, ?_, hproper, narrow_narrow a b, infinite_of_narrow a b⟩
  · exact (isSubset_iff hb hproper).2 hbelow
  · exact (isSubset_iff hproper ha).2 habove

/-- Everything up to nine, narrowed towards two to five, is two to nine. -/
theorem upToNine_narrows :
    (between 2 5).isSubset (between .negInf 9) ∧
      (between .negInf 9).narrow (between 2 5) = between 2 9 ∧
      (between 2 5).isSubset (between 2 9) ∧ (between 2 9).isSubset (between .negInf 9) ∧
      (between 2 9).IsProper ∧ (between 2 9).narrow (between 2 5) = between 2 9 := by
  have hwhole : (between .negInf 9).IsProper := .between (.inr rfl) (.inl rfl) rfl
  have hpart : (between 2 5).IsProper := .between (.inl rfl) (.inl rfl) rfl
  have hsubset : (between 2 5).isSubset (between .negInf 9) := rfl
  have hresult : (between .negInf 9).narrow (between 2 5) = between 2 9 := rfl
  obtain ⟨hbelow, habove, hproper, hagain, -⟩ := narrow_stays_between hwhole hpart hsubset
  rw [hresult] at hbelow habove hproper hagain
  exact ⟨hsubset, hresult, hbelow, habove, hproper, hagain⟩

end Interval

end RangeAudit
