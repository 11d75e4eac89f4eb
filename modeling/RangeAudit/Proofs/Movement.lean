import RangeAudit.Analysis.Change
import RangeAudit.Proofs.Membership

namespace RangeAudit

variable {x y : Number} {m n : Int} {bits : Nat} {a b : Interval} {p q : Option Number}

namespace Number

/-- An integer of so many bits, or an infinity. -/
def FitsBits (bits : Nat) (x : Number) : Prop :=
  (∃ n, x.toInt? = some n ∧ n.natAbs < Nat.pow 2 bits) ∨ ∃ negative, x = .double (.inf negative)

theorem FitsBits.isExtended (h : x.FitsBits bits) : x.IsExtended := by
  rcases h with ⟨n, hn, -⟩ | ⟨negative, rfl⟩
  · exact .inl (Option.isSome_iff_exists.2 ⟨n, hn⟩)
  · cases negative with
    | true => exact .inr (.inl rfl)
    | false => exact .inr (.inr rfl)

theorem FitsBits.mono {bits' : Nat} (h : x.FitsBits bits) (hle : bits ≤ bits') :
    x.FitsBits bits' := by
  rcases h with ⟨n, hn, hlt⟩ | h
  · exact .inl ⟨n, hn, hlt.trans_le (Nat.pow_le_pow_right (by decide) hle)⟩
  · exact .inr h

theorem toDouble_of_lt (hbits : bits ≤ 1023) (h : x.toInt? = some n)
    (hlt : n.natAbs < Nat.pow 2 bits) : ∃ s k e, x.toDouble = .ok (.finite s k e) := by
  rcases eq_of_toInt? h with rfl | ⟨b, rfl, -⟩
  · obtain ⟨s, k, e, hd⟩ := Binary64.ofInt_finite hbits hlt
    exact ⟨s, k, e, by rw [toDouble, hd]⟩
  · cases b with
    | true => exact ⟨_, _, _, rfl⟩
    | false => exact ⟨_, _, _, rfl⟩

theorem defaultThreshold_eq :
    defaultThreshold = .double (.finite false 5764607523034235 (-59)) := by
  decide

/-- The threshold is too small to hide a difference of integers. -/
theorem defaultThreshold_lt_int (k : Nat) : defaultThreshold.lt (.int k) ↔ k ≠ 0 := by
  have horder : defaultThreshold.order (.int k) =
      some (compare (5764607523034235 : Int) (k * 576460752303423488)) := by
    have hk : ¬ (k : Int) < 0 := by omega
    rw [defaultThreshold_eq]
    simp [order, exact, Binary64.order, Binary64.rescale, Binary64.signed, hk]
  rw [lt, horder, beq_iff_eq, Option.some.injEq, Int.compare_eq_lt]
  omega

theorem defaultThreshold_lt_inf : defaultThreshold.lt (.double (.inf false)) := by
  rw [defaultThreshold_eq]
  rfl

theorem same_of_toInt? (hx : x.toInt? = some m) (hy : y.toInt? = some n) : x.same y ↔ m = n := by
  have hx' : x.IsExtended := .inl (by simp [hx])
  have hy' : y.IsExtended := .inl (by simp [hy])
  rw [same_iff_extended hx' hy', extended_of_toInt? hx, extended_of_toInt? hy, WithBot.coe_inj,
    WithTop.coe_inj]

theorem not_same_inf (h : x.toInt? = some n) (s : Bool) :
    ¬ x.same (.double (.inf s)) ∧ ¬ same (.double (.inf s)) x := by
  rcases eq_of_toInt? h with rfl | ⟨b, rfl, -⟩ <;> cases s <;>
    simp [same, order, exact, Binary64.order]

theorem sub_inf (s t : Bool) : ∃ z, (double (.inf s)).sub (.double (.inf t)) = .ok z ∧
    (defaultThreshold.lt z.abs ↔ ¬ (double (.inf s)).same (.double (.inf t))) := by
  rw [defaultThreshold_eq]
  cases s <;> cases t <;> exact ⟨_, rfl, by decide⟩

/-- Two bounds are further apart than the threshold exactly if they are not the same. -/
theorem distance_iff (hbits : bits ≤ 1023) (hx : x.FitsBits bits) (hy : y.FitsBits bits) :
    ∃ z, x.sub y = .ok z ∧ (defaultThreshold.lt z.abs ↔ ¬ x.same y) := by
  rcases hx with ⟨m, hm, hlt⟩ | ⟨s, rfl⟩
  · rcases hy with ⟨n, hn, hlt'⟩ | ⟨t, rfl⟩
    · refine ⟨.int (m - n), arith_int hm hn, ?_⟩
      rw [abs_of_toInt? rfl, defaultThreshold_lt_int, same_of_toInt? hm hn]
      omega
    · obtain ⟨s, k, e, hd⟩ := toDouble_of_lt hbits hm hlt
      refine ⟨.double (.inf !t), ?_, iff_of_true defaultThreshold_lt_inf (not_same_inf hm t).1⟩
      rw [sub, arith_inf_right, hd]
      rfl
  · rcases hy with ⟨n, hn, hlt'⟩ | ⟨t, rfl⟩
    · obtain ⟨t, k, e, hd⟩ := toDouble_of_lt hbits hn hlt'
      refine ⟨.double (.inf s), ?_, iff_of_true defaultThreshold_lt_inf (not_same_inf hn s).2⟩
      rw [sub, arith_inf_left, hd]
      rfl
    · exact sub_inf s t

end Number

namespace Interval

abbrev FitsBits (bits : Nat) : Interval → Prop :=
  Within (Number.FitsBits bits) (Number.FitsBits bits)

theorem hasExtendedBounds_of_fitsBits (h : a.FitsBits bits) : a.HasExtendedBounds :=
  h.mono (fun _ hx => hx.isExtended) fun _ hx => hx.isExtended

theorem same_comm (ha : a.HasExtendedBounds) (hb : b.HasExtendedBounds) : a.same b = b.same a := by
  rw [Bool.eq_iff_iff, same_iff_extents ha hb, same_iff_extents hb ha, eq_comm]

end Interval

theorem boundMoved_or_absent (hbits : bits ≤ 1023) (hp : ∀ x ∈ p, x.FitsBits bits)
    (hq : ∀ x ∈ q, x.FitsBits bits) :
    ∃ moved, boundMoved (some defaultThreshold) p q = .ok moved ∧
      (moved || p.isNone != q.isNone) = !Interval.sameBound p q := by
  cases p with
  | none => cases q <;> exact ⟨false, rfl, rfl⟩
  | some x =>
    cases q with
    | none => exact ⟨false, rfl, rfl⟩
    | some y =>
      obtain ⟨z, hz, hmoved⟩ := Number.distance_iff hbits (hp x rfl) (hq y rfl)
      refine ⟨defaultThreshold.lt z.abs, ?_, ?_⟩
      · rw [boundMoved, hz]
        rfl
      · rw [Interval.sameBound, Bool.eq_iff_iff]
        simpa using hmoved

namespace Interval

theorem movedFrom_eq_bounds (hbits : bits ≤ 1023) (ha : a.FitsBits bits) (hb : b.FitsBits bits) :
    a.movedFrom (some defaultThreshold) b =
      .ok ((a.isBottom != b.isBottom || a.isTop != b.isTop) ||
        !(sameBound a.lo b.lo && sameBound a.hi b.hi)) := by
  obtain ⟨lo, hlo, hlo'⟩ := boundMoved_or_absent hbits ha.lo hb.lo
  obtain ⟨hi, hhi, hhi'⟩ := boundMoved_or_absent hbits ha.hi hb.hi
  rw [Bool.not_and, ← hlo', ← hhi', movedFrom, hlo, hhi]
  generalize (a.isBottom != b.isBottom || a.isTop != b.isTop) = flags
  generalize (a.lo.isNone != b.lo.isNone) = absent
  cases flags <;> cases lo <;> cases hi <;> cases absent <;> rfl

/-- An interval has moved exactly if it is not the same. -/
theorem movedFrom_eq (hbits : bits ≤ 1023) (ha : a.FitsBits bits) (hb : b.FitsBits bits) :
    a.movedFrom (some defaultThreshold) b = .ok (!a.same b) := by
  have hea := hasExtendedBounds_of_fitsBits ha
  have heb := hasExtendedBounds_of_fitsBits hb
  rw [movedFrom_eq_bounds hbits ha hb]
  by_cases hsame : a.extents = b.extents
  · have hbottom : a.isBottom = b.isBottom := by
      rw [Bool.eq_iff_iff, isBottom_iff_extents, isBottom_iff_extents, hsame]
    have htop : a.isTop = b.isTop := by
      rw [Bool.eq_iff_iff, isTop_iff_extents hea, isTop_iff_extents heb, hsame]
    rw [(same_iff_extents hea heb).2 hsame, (sameBounds_iff hea heb).2 hsame, hbottom, htop]
    simp
  · rw [Bool.eq_false_iff.2 (mt (same_iff_extents hea heb).1 hsame),
      Bool.eq_false_iff.2 (mt (sameBounds_iff hea heb).1 hsame)]
    simp

end Interval

namespace Ranges

variable {r snapshot : Ranges} {entries : List (Place × Interval)}

abbrev FitsBits (bits : Nat) : Ranges → Prop :=
  Within (Number.FitsBits bits) (Number.FitsBits bits)

theorem entriesChanged_iff (hbits : bits ≤ 1023) (hentries : ∀ e ∈ entries, e.2.FitsBits bits)
    (hold : snapshot.FitsBits bits) :
    ∃ changed, entriesChanged (some defaultThreshold) snapshot entries = .ok changed ∧
      (changed ↔ ∃ e ∈ entries, ∀ old ∈ snapshot.get? e.1, ¬ e.2.same old) := by
  induction entries with
  | nil => exact ⟨false, rfl, by simp⟩
  | cons e rest ih =>
    obtain ⟨p, a⟩ := e
    obtain ⟨ha, hrest⟩ := List.forall_mem_cons.1 hentries
    rw [entriesChanged]
    cases hp : snapshot.get? p with
    | none => exact ⟨true, rfl, by simp [hp]⟩
    | some old =>
      have hcomm := Interval.same_comm (Interval.hasExtendedBounds_of_fitsBits (hold.get? hp))
        (Interval.hasExtendedBounds_of_fitsBits ha)
      dsimp only
      rw [Interval.movedFrom_eq hbits (hold.get? hp) ha, hcomm]
      cases hsame : a.same old with
      | false => exact ⟨true, rfl, by simp [hp, hsame]⟩
      | true =>
        obtain ⟨changed, hchanged, hiff⟩ := ih hrest
        refine ⟨changed, hchanged, hiff.trans ?_⟩
        rw [List.exists_mem_cons_iff]
        exact ⟨.inr, fun h => h.resolve_left fun hnew => hnew old hp hsame⟩

/-- A change is found exactly if a tracked place is new or its interval is not the same. -/
theorem changedSince_iff (hr : r.FitsBits 1023) (hold : snapshot.FitsBits 1023) :
    ∃ changed, r.changedSince (some defaultThreshold) snapshot = .ok changed ∧
      (changed ↔ ∃ p a, (p, a) ∈ r.entries ∧ (snapshot.get? p = none ∨
        ∃ old, snapshot.get? p = some old ∧ ¬ a.same old)) := by
  obtain ⟨changed, hchanged, hiff⟩ := entriesChanged_iff le_rfl hr hold
  refine ⟨changed, hchanged, hiff.trans ?_⟩
  constructor
  · rintro ⟨⟨p, a⟩, hmem, hnew⟩
    refine ⟨p, a, hmem, ?_⟩
    cases hp : snapshot.get? p with
    | none => exact .inl rfl
    | some old => exact .inr ⟨old, rfl, hnew old hp⟩
  · rintro ⟨p, a, hmem, hnone | ⟨old, hp, hdiffers⟩⟩
    · exact ⟨(p, a), hmem, fun old hp => by cases hnone.symm.trans hp⟩
    · refine ⟨(p, a), hmem, fun old' hp' => ?_⟩
      cases hp.symm.trans hp'
      exact hdiffers

/-- A half-line counts as unchanged; one that begins one further on does not. -/
theorem halfLine_changes :
    (Ranges.mk [(.unnamed, .between 0 .posInf)]).FitsBits 1023 ∧
      (Ranges.mk [(.unnamed, .between 1 .posInf)]).FitsBits 1023 ∧
      (Ranges.mk [(.unnamed, .between 0 .posInf)]).changedSince (some defaultThreshold)
        ⟨[(.unnamed, .between 0 .posInf)]⟩ = .ok false ∧
      (Ranges.mk [(.unnamed, .between 1 .posInf)]).changedSince (some defaultThreshold)
        ⟨[(.unnamed, .between 0 .posInf)]⟩ = .ok true := by
  have hfits (n : Int) (hn : n.natAbs < 2) :
      (Ranges.mk [(.unnamed, .between (.int n) .posInf)]).FitsBits 1023 := by
    intro e he
    cases List.mem_singleton.1 he
    have hsmall : (Number.int n).FitsBits 1 := .inl ⟨n, rfl, hn⟩
    exact Interval.within_between (hsmall.mono (by decide)) (.inr ⟨false, rfl⟩)
  have hzero := hfits 0 (by decide)
  have hone := hfits 1 (by decide)
  obtain ⟨changed, hchanged, hiff⟩ := changedSince_iff hzero hzero
  obtain ⟨changed', hchanged', hiff'⟩ := changedSince_iff hone hzero
  refine ⟨hzero, hone, ?_, ?_⟩
  · have hsame : changed = false := by
      rw [← Bool.not_eq_true, hiff]
      rintro ⟨p, a, hmem, hnew⟩
      cases List.mem_singleton.1 hmem
      rcases hnew with hnone | ⟨old, hold, hdiffers⟩
      · cases hnone
      · cases hold
        exact hdiffers rfl
    exact hsame ▸ hchanged
  · have hmoved : changed' = true :=
      hiff'.2 ⟨.unnamed, _, List.mem_singleton.2 rfl, .inr ⟨_, rfl, Bool.false_ne_true⟩⟩
    exact hmoved ▸ hchanged'

end Ranges

end RangeAudit
