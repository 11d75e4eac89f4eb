import RangeAudit.Analysis.Unit
import RangeAudit.Proofs.Stores

open RangeAudit.Interval (between)

namespace RangeAudit

variable {f : Function} {q : Place} {v : Variable} {x n : Int} {a b : Interval} {y : Number}
  {cfg : Config} {s t : State} {upper : Bool} {c : Comparison} {r : Ranges}

namespace Number

/-- A lower bound, or minus infinity, that lets the integer in. -/
def IsBelow (x : Int) (y : Number) : Prop :=
  y.IsExtended ∧ y.le (.int x)

def IsAbove (x : Int) (y : Number) : Prop :=
  y.IsExtended ∧ le (.int x) y

theorem isBelow_of_toInt? (h : y.toInt? = some n) (hx : n ≤ x) : y.IsBelow x :=
  ⟨.inl (by simp [h]), (le_of_toInt? h rfl).2 hx⟩

theorem isAbove_of_toInt? (h : y.toInt? = some n) (hx : x ≤ n) : y.IsAbove x :=
  ⟨.inl (by simp [h]), (le_of_toInt? rfl h).2 hx⟩

theorem IsBelow.le_of_not_lt (h : y.IsBelow x) (hn : ¬ y.lt (.int n)) : n ≤ x := by
  obtain ⟨hy, hle⟩ := h
  rw [le_iff_extended hy (.inl rfl)] at hle
  rw [lt_iff_extended hy (.inl rfl), not_lt] at hn
  exact WithTop.coe_le_coe.1 (WithBot.coe_le_coe.1 (hn.trans hle))

theorem IsAbove.le_of_not_lt (h : y.IsAbove x) (hn : ¬ lt (.int n) y) : x ≤ n := by
  obtain ⟨hy, hle⟩ := h
  rw [le_iff_extended (.inl rfl) hy] at hle
  rw [lt_iff_extended (.inl rfl) hy, not_lt] at hn
  exact WithTop.coe_le_coe.1 (WithBot.coe_le_coe.1 (hle.trans hn))

end Number

namespace Interval

def bound (upper : Bool) (a : Interval) : Option Number :=
  if upper then a.hi else a.lo

/-- The bounds let an integer in, and the one on the given side is there. -/
structure Retains (upper : Bool) (x : Int) (a : Interval) : Prop where
  within : a.Within (Number.IsBelow x) (Number.IsAbove x)
  bound : (a.bound upper).isSome

theorem isBottom_of_bound (h : (a.bound upper).isSome) : a.isBottom = false := by
  rw [isBottom, Bool.and_eq_false_iff]
  cases upper with
  | false => exact .inl (Option.isNone_eq_false_iff.2 h)
  | true => exact .inr (Option.isNone_eq_false_iff.2 h)

namespace Retains

theorem contains (h : a.Retains upper x) : a.contains x :=
  contains_iff.2 ⟨isBottom_of_bound h.bound, fun l hl => (h.within.lo l hl).2,
    fun u hu => (h.within.hi u hu).2⟩

theorem between {l u : Number} (hl : l.IsBelow x) (hu : u.IsAbove x) :
    (between l u).Retains upper x := by
  refine ⟨within_between hl hu, ?_⟩
  cases upper <;> rfl

theorem atMost (hy : y.IsAbove x) : (atMost y).Retains true x :=
  ⟨within_atMost hy, rfl⟩

theorem atLeast (hy : y.IsBelow x) : (atLeast y).Retains false x :=
  ⟨within_atLeast hy, rfl⟩

end Retains

theorem Within.isCrossed (h : a.Within (Number.IsBelow x) (Number.IsAbove x)) :
    a.isCrossed = false := by
  unfold Interval.isCrossed
  split
  · rename_i l u hl hu
    obtain ⟨hle, hlx⟩ := h.lo l hl
    obtain ⟨hue, hxu⟩ := h.hi u hu
    rw [Number.le_iff_extended hle (.inl rfl)] at hlx
    rw [Number.le_iff_extended (.inl rfl) hue] at hxu
    rw [Bool.eq_false_iff]
    intro hlt
    rw [Number.lt_iff_extended hue hle] at hlt
    exact absurd (hlx.trans hxu) (not_le.2 hlt)
  · rfl

theorem isSome_both {g : Number → Number → Number} {p q : Option Number} (hp : p.isSome)
    (hq : q.isSome) : (both g p q).isSome := by
  obtain ⟨y, rfl⟩ := Option.isSome_iff_exists.1 hp
  obtain ⟨z, rfl⟩ := Option.isSome_iff_exists.1 hq
  rfl

theorem isSome_widenLo {p : Option Number} (h : p.isSome) (q : Option Number) :
    (widenLo p q).isSome := by
  unfold widenLo
  split
  · split
    · rfl
    · rfl
  · exact h

theorem isSome_widenHi {p : Option Number} (h : p.isSome) (q : Option Number) :
    (widenHi p q).isSome := by
  unfold widenHi
  split
  · split
    · rfl
    · rfl
  · exact h

namespace Retains

theorem meet (ha : a.Retains upper x) (hb : b.Retains upper x) : (a.meet b).Retains upper x := by
  refine ⟨ha.within.meet hb.within, ?_⟩
  rw [Interval.meet, isBottom_of_bound ha.bound, isBottom_of_bound hb.bound]
  simp only [Bool.or_self, Bool.false_eq_true, if_false]
  split
  · exact hb.bound
  split
  · exact ha.bound
  have hparts : (Interval.mk (both .greatest a.lo b.lo) (both .least a.hi b.hi)).Within
      (Number.IsBelow x) (Number.IsAbove x) := by
    constructor
    · intro l hl
      obtain ⟨y, hy, z, hz, rfl⟩ := mem_both hl
      exact Number.greatest_of (ha.within.lo y hy) (hb.within.lo z hz)
    · intro u hu
      obtain ⟨y, hy, z, hz, rfl⟩ := mem_both hu
      exact Number.least_of (ha.within.hi y hy) (hb.within.hi z hz)
  rw [hparts.isCrossed]
  simp only [Bool.false_eq_true, if_false]
  cases upper with
  | false => exact isSome_both ha.bound hb.bound
  | true => exact isSome_both ha.bound hb.bound

theorem widen (ha : a.Retains upper x) (hb : b.Retains upper x) : (a.widen b).Retains upper x := by
  have hneg : Number.negInf.IsBelow x := ⟨.inr (.inl rfl), rfl⟩
  have hpos : Number.posInf.IsAbove x := ⟨.inr (.inr rfl), rfl⟩
  refine ⟨ha.within.widen hb.within hneg hpos, ?_⟩
  rw [Interval.widen, isBottom_of_bound ha.bound, isBottom_of_bound hb.bound]
  simp only [Bool.false_eq_true, if_false]
  cases upper with
  | false => exact isSome_widenLo ha.bound b.lo
  | true => exact isSome_widenHi ha.bound b.hi

theorem narrow (ha : a.Retains upper x) (hb : b.Retains upper x) :
    (a.narrow b).Retains upper x := by
  refine ⟨ha.within.narrow hb.within, ?_⟩
  rw [Interval.narrow, isBottom_of_bound ha.bound, isBottom_of_bound hb.bound]
  simp only [Bool.or_self, Bool.false_eq_true, if_false]
  cases upper with
  | false =>
    simp only [Interval.bound, Bool.false_eq_true, if_false]
    split
    · exact hb.bound
    · exact ha.bound
  | true =>
    simp only [Interval.bound, if_true]
    split
    · exact hb.bound
    · exact ha.bound

theorem withoutZero (h : a.Retains upper x) (hx : x ≠ 0) : a.withoutZero.Retains upper x := by
  unfold Interval.withoutZero
  split
  · rename_i l u hl hu
    have hlx := h.within.lo l hl
    have hxu := h.within.hi u hu
    split
    · have hpos (hlt : l.lt 0 = false) : 1 ≤ x := by
        have := hlx.le_of_not_lt (n := 0) (Bool.eq_false_iff.1 hlt)
        omega
      have hneg (hlt : Number.lt 0 u = false) : x ≤ -1 := by
        have := hxu.le_of_not_lt (n := 0) (Bool.eq_false_iff.1 hlt)
        omega
      split
      · exact .between hlx hxu
      · rename_i hlt
        exact .between hlx (Number.isAbove_of_toInt? rfl (hneg hlt))
      · rename_i hlt _
        exact .between (Number.isBelow_of_toInt? rfl (hpos hlt)) hxu
      · rename_i hlt hlt'
        have := hpos hlt
        have := hneg hlt'
        omega
    · exact h
  · exact h

end Retains

end Interval

namespace Comparison

def holds (c : Comparison) (x n : Int) : Bool :=
  match c with
  | .lt => x < n
  | .le => x ≤ n
  | .gt => n < x
  | .ge => n ≤ x
  | .eq => x = n
  | .ne => x ≠ n

/-- A comparison that bounds from above gives up the lower bound, and the other way round. -/
def keeps (upper : Bool) : Comparison → Bool
  | .lt | .le => upper
  | .gt | .ge => !upper
  | .eq | .ne => true

/-- That a number differs from a constant other than zero is not taken into account. -/
def passes (c : Comparison) (x n : Int) : Bool :=
  (c == .ne && n != 0) || c.holds x n

theorem refineBy_retains (ha : a.Retains upper x) (hy : y.toInt? = some n) (hc : c.keeps upper)
    (hx : c.passes x n) : (c.refineBy a y).Retains upper x := by
  cases c with
  | lt =>
    obtain rfl : upper = true := hc
    have hlt : x < n := by simpa [passes, holds] using hx
    refine ha.meet (.atMost ?_)
    rw [Number.pred_of_toInt? hy]
    exact Number.isAbove_of_toInt? rfl (by omega)
  | le =>
    obtain rfl : upper = true := hc
    have hle : x ≤ n := by simpa [passes, holds] using hx
    exact ha.meet (.atMost (Number.isAbove_of_toInt? hy hle))
  | gt =>
    obtain rfl : upper = false := by simpa [keeps] using hc
    have hlt : n < x := by simpa [passes, holds] using hx
    refine ha.meet (.atLeast ?_)
    rw [Number.succ_of_toInt? hy]
    exact Number.isBelow_of_toInt? rfl (by omega)
  | ge =>
    obtain rfl : upper = false := by simpa [keeps] using hc
    have hle : n ≤ x := by simpa [passes, holds] using hx
    exact ha.meet (.atLeast (Number.isBelow_of_toInt? hy hle))
  | eq =>
    obtain rfl : x = n := by simpa [passes, holds] using hx
    exact ha.meet (.between (Number.isBelow_of_toInt? hy le_rfl)
      (Number.isAbove_of_toInt? hy le_rfl))
  | ne =>
    dsimp only [refineBy]
    split
    · rename_i hzero
      obtain rfl := (Number.same_zero_of_toInt? hy).1 hzero
      have hne : x ≠ 0 := by simpa [passes, holds] using hx
      exact ha.withoutZero hne
    · exact ha

end Comparison

namespace Expression

/-- A condition that the integer passes, and that bounds its place from one side only. -/
def spares (upper : Bool) (q : Place) (x : Int) : Expression → Bool
  | .binary (.compare c) (.place p) (.literal k) =>
    p != q || (k.threshold?.bind Number.toInt?).all fun n => c.keeps upper && c.passes x n
  | .binary (.compare c) (.place p) (.place p') => (p != q && p' != q) || c == .ne
  | _ => true

theorem spares_refine {left right : Operand} (ha : r.get? q = some a) (h : a.Retains upper x)
    (hc : (binary (.compare c) left right).spares upper q x) :
    ∃ b, (r.refine c left right).get? q = some b ∧ b.Retains upper x := by
  cases left with
  | literal k => exact ⟨a, ha, h⟩
  | place p =>
    cases right with
    | literal k =>
      cases hk : k.threshold? with
      | none => exact ⟨a, by simpa [Ranges.refine, hk] using ha, h⟩
      | some y =>
        obtain ⟨n, hn⟩ := Literal.threshold?_toInt? hk
        by_cases hp : q = p
        · subst hp
          simp only [spares, hk, hn, Option.bind_some, Option.all_some, bne_self_eq_false,
            Bool.false_or, Bool.and_eq_true] at hc
          simp only [Ranges.refine, hk, Option.elim_some, Ranges.refineByNumber, ha]
          split
          · exact ⟨a, ha, h⟩
          · exact ⟨_, Ranges.get?_set_self r q _, Comparison.refineBy_retains h hn hc.1 hc.2⟩
        · have hkeep : (r.refine c (.place p) (.literal k)).get? q = r.get? q :=
            Ranges.get?_refine c (by simpa [Operand.places] using hp) (by simp [Operand.places])
          exact ⟨a, hkeep.trans ha, h⟩
    | place p' =>
      simp only [spares, Bool.or_eq_true, Bool.and_eq_true, bne_iff_ne, ne_eq, beq_iff_eq] at hc
      rcases hc with ⟨hp, hp'⟩ | rfl
      · have hkeep : (r.refine c (.place p) (.place p')).get? q = r.get? q :=
          Ranges.get?_refine c (by simpa [Operand.places] using Ne.symm hp)
            (by simpa [Operand.places] using Ne.symm hp')
        exact ⟨a, hkeep.trans ha, h⟩
      · refine ⟨a, ?_, h⟩
        simp only [Ranges.refine, Ranges.refinePair]
        split
        · exact ha
        · exact ha

end Expression

namespace Function

/-- An unwritten place keeps what widening, narrowing and conditions keep. -/
theorem iterate_keeps_place {P : Interval → Prop}
    (hwiden : ∀ a b, P a → P b → P (a.widen b)) (hnarrow : ∀ a b, P a → P b → P (a.narrow b))
    (hparam : ∀ v ∈ f.params, v.place = q → ∀ a, v.paramInterval = .ok a → P a)
    (hresult : ∀ i ∈ f.instrs, i.result? ≠ some q)
    (hcond : ∀ node ∈ f.nodes, node.isBranch → ∀ c left right,
      node.condition = .binary (.compare c) left right → ∀ (r : Ranges) a, r.get? q = some a →
        P a → ∃ b, (r.refine c left right).get? q = some b ∧ P b)
    (hs : ∃ a, s.ranges.get? q = some a ∧ P a) (h : f.iterate cfg s = .ok () t) :
    ∃ a, t.ranges.get? q = some a ∧ P a := by
  refine f.iterate_keeps (I := fun r => ∃ a, r.get? q = some a ∧ P a) ?_ hs h
  intro step s hstep ⟨a, ha, hp⟩
  cases step with
  | param v =>
    rw [Step.ends_param]
    split
    · rename_i r hr
      obtain ⟨-, b, hb, rfl⟩ | ⟨-, rfl⟩ := Ranges.addParam_ok hr
      · by_cases hq : q = v.place
        · subst hq
          exact ⟨b, Ranges.get?_set_self _ _ _, hparam v hstep rfl b hb⟩
        · exact ⟨a, (Ranges.get?_set_of_ne _ _ hq).trans ha, hp⟩
      · exact ⟨a, ha, hp⟩
    · exact ⟨a, ha, hp⟩
  | source i =>
    rw [Step.ranges_source]
    exact ⟨a, s.ranges.extends_addSource i q a ha, hp⟩
  | result v =>
    rw [Step.ranges_result]
    exact ⟨a, s.ranges.extends_addLocal v q a ha, hp⟩
  | assume e =>
    obtain ⟨node, hnode, hbranch, rfl⟩ := hstep
    rw [Step.ends_assume]
    split
    · rename_i c left right he
      exact hcond node hnode hbranch c left right he s.ranges a ha hp
    · exact ⟨a, ha, hp⟩
  | carry i =>
    rw [Step.ends_carry]
    exact ⟨a, (Instr.get?_apply_effect s (hresult i hstep)).trans ha, hp⟩
  | widen earlier =>
    obtain ⟨r, ⟨old, hold, hpold⟩, rfl⟩ := hstep
    rw [Step.ranges_widen]
    refine ⟨_, (Ranges.get?_map _ s.ranges q).trans (by rw [ha]; rfl), ?_⟩
    split
    · rename_i b hb
      cases hold.symm.trans (Ranges.get?_of_snapshot hb)
      exact hwiden old a hpold hp
    · exact hp
  | compare earlier => exact ⟨a, by rwa [Step.ends_compare], hp⟩
  | narrow earlier =>
    obtain ⟨r, ⟨old, hold, hpold⟩, rfl⟩ := hstep
    rw [Step.ranges_narrow]
    refine ⟨_, (Ranges.get?_map _ s.ranges q).trans (by rw [ha]; rfl), ?_⟩
    split
    · rename_i b hb
      cases hold.symm.trans (Ranges.get?_of_snapshot hb)
      exact hnarrow a old hp hpold
    · exact hp

theorem lookup_summary_params (hv : v ∈ f.params) (contract : String) (r : Ranges) :
    (f.summary contract r).params.lookup v = some (r.getD v.place) := by
  have hmem : v ∈ f.params.eraseDups := List.mem_eraseDups.2 hv
  change (f.params.eraseDups.map fun v => (v, r.getD v.place)).lookup v = _
  generalize f.params.eraseDups = l at hmem
  induction l with
  | nil => cases hmem
  | cons w l ih =>
    by_cases hw : v = w
    · simp [hw]
    · have hb : (v == w) = false := by simp [hw]
      rw [List.map_cons, List.lookup_cons, hb]
      exact ih ((List.mem_cons.1 hmem).resolve_left hw)

end Function

structure TypeClass.IsIntegers (c : TypeClass) (least greatest : Int) : Prop where
  paramInterval : c.paramInterval = between (.int least) (.int greatest)
  admits (x : Int) : c.Admits x ↔ least ≤ x ∧ x ≤ greatest

theorem TypeClass.isIntegers_unsigned (bits : Nat) :
    (TypeClass.unsigned bits).IsIntegers 0 (Nat.pow 2 bits - 1) where
  paramInterval := rfl
  admits x := by
    simp only [Admits]
    omega

theorem TypeClass.isIntegers_signed {bits : Nat} (h : 0 < bits) :
    (TypeClass.signed bits).IsIntegers (-(Nat.pow 2 (bits - 1))) (Nat.pow 2 (bits - 1) - 1) where
  paramInterval := by rw [TypeClass.paramInterval, signedRange_eq h]
  admits x := by
    simp only [Admits]
    omega

def Variable.HasIntegerType (v : Variable) (c : TypeClass) : Prop :=
  ∃ bits, 1 ≤ bits ∧ bits ≤ 256 ∧
    (v.type? = some (unsignedText bits) ∧ c = .unsigned bits ∨
      v.type? = some (signedText bits) ∧ c = .signed bits)

namespace Variable.HasIntegerType

variable {c : TypeClass}

theorem typeClass (h : v.HasIntegerType c) : v.typeClass = .ok c := by
  obtain ⟨bits, -, hbits, ⟨h, rfl⟩ | ⟨h, rfl⟩⟩ := h
  · exact typeClass_of_type hbits h
  · simp only [Variable.typeClass, Place.lowerType?, Variable.place, Place.type?, h,
      Option.map_some, Option.elim_some]
    exact TypeClass.ofText_signed hbits

theorem isIntegers (h : v.HasIntegerType c) : ∃ least greatest, c.IsIntegers least greatest := by
  obtain ⟨bits, hpos, -, ⟨-, rfl⟩ | ⟨-, rfl⟩⟩ := h
  · exact ⟨_, _, TypeClass.isIntegers_unsigned bits⟩
  · exact ⟨_, _, TypeClass.isIntegers_signed hpos⟩

theorem isCritical (h : v.HasIntegerType c) : v.place.isCritical := by
  obtain ⟨bits, -, hbits, ⟨h, -⟩ | ⟨h, -⟩⟩ := h
  · exact IsWordTyped.isCritical ⟨bits, hbits, h⟩
  · have hword : Text.containsAny (Text.lower (signedText bits)) criticalTypes :=
      List.any_eq_true.2 ⟨"int", by decide, contains_signedText bits⟩
    simp [Place.isCritical, Place.lowerType?, Variable.place, Place.type?, h, hword]

theorem paramInterval (h : v.HasIntegerType c) : v.paramInterval = .ok c.paramInterval := by
  rw [Variable.paramInterval_eq, h.typeClass]
  rfl

end Variable.HasIntegerType

theorem Interval.widen_self (m n : Int) :
    (between (.int m) (.int n)).widen (between (.int m) (.int n)) =
      between (.int m) (.int n) := by
  simp [widen, between, isBottom, widenLo, widenHi]

theorem Interval.narrow_self (m n : Int) :
    (between (.int m) (.int n)).narrow (between (.int m) (.int n)) =
      between (.int m) (.int n) := by
  simp [narrow, between, isBottom, boundIs]

namespace Function

/-- A parameter that is never written keeps the values that pass one-sided conditions. -/
theorem summary_keeps_parameter {c : TypeClass} (hv : v ∈ f.params) (hc : v.HasIntegerType c)
    (hresult : ∀ i ∈ f.instrs, i.result? ≠ some v.place) (h : f.analyze cfg s = .ok () t)
    (contract : String) :
    ∃ a, (f.summary contract t.ranges).params.lookup v = some a ∧
      (∀ upper x, c.Admits x →
        (∀ node ∈ f.nodes, node.isBranch → node.condition.spares upper v.place x) →
          a.contains x) ∧
      ((∀ node ∈ f.nodes, node.isBranch → v.place ∉ node.condition.places) →
        ∀ x, a.contains x → c.Admits x) := by
  obtain ⟨least, greatest, hints⟩ := hc.isIntegers
  obtain ⟨u, hstart, hiterate⟩ := analyze_ok.1 h
  obtain ⟨z, hz, htracked⟩ := start_param hstart hv hc.isCritical
  obtain rfl : z = between (.int least) (.int greatest) := by
    cases hz.symm.trans hc.paramInterval
    exact hints.paramInterval
  have hparam : ∀ w ∈ f.params, w.place = v.place → ∀ a, w.paramInterval = .ok a →
      a = between (.int least) (.int greatest) := by
    rintro w - hw a ha
    cases hw
    cases ha.symm.trans hz
    rfl
  refine ⟨t.ranges.getD v.place, lookup_summary_params hv contract t.ranges, ?_, ?_⟩
  · intro upper x hx hcond
    obtain ⟨hlo, hhi⟩ := (hints.admits x).1 hx
    have hretains : (between (.int least) (.int greatest)).Retains upper x :=
      .between (Number.isBelow_of_toInt? rfl hlo) (Number.isAbove_of_toInt? rfl hhi)
    obtain ⟨a, ha, hax⟩ := iterate_keeps_place (P := Interval.Retains upper x)
      (fun _ _ ha hb => ha.widen hb) (fun _ _ ha hb => ha.narrow hb)
      (fun w hw hq a ha => hparam w hw hq a ha ▸ hretains) hresult
      (fun node hnode hbranch c left right he r a ha hax =>
        Expression.spares_refine ha hax (he ▸ hcond node hnode hbranch))
      ⟨_, htracked, hretains⟩ hiterate
    rw [Ranges.getD, ha]
    exact hax.contains
  · intro hcond x hx
    obtain ⟨a, ha, rfl⟩ :=
      iterate_keeps_place (P := (· = between (.int least) (.int greatest)))
        (by
          rintro _ _ rfl rfl
          exact Interval.widen_self least greatest)
        (by
          rintro _ _ rfl rfl
          exact Interval.narrow_self least greatest) hparam hresult
        (fun node hnode hbranch c left right he r a ha hax => by
          have hnamed := hcond node hnode hbranch
          rw [he, Expression.places, List.mem_append, not_or] at hnamed
          exact ⟨a, (Ranges.get?_refine c hnamed.1 hnamed.2).trans ha, hax⟩)
        ⟨_, htracked, rfl⟩ hiterate
    rw [Ranges.getD, ha] at hx
    exact (hints.admits x).2 (Interval.contains_between.1 hx)

end Function

def sample : Variable :=
  { Variable.ofType "p" "uint8" with stable := true }

/-- A loop that doubles its parameter under two conditions. -/
def doubling : Function :=
  .ofNodes [sample] [
    .ofComparison .lt sample.place 200 [1, 2],
    .ofComparison .ne sample.place 9 [2],
    .ofInstrs [.binary .add (.named "v") (.place sample.place) (.place sample.place)] [0]]

theorem doubling_keeps_parameter :
    ∃ t a, doubling.analyze {} .initial = .ok () t ∧
      (doubling.summary "Pool" t.ranges).params.lookup sample = some a ∧
      a.contains 9 ∧ a.contains 199 := by
  have hend : (doubling.analyze {}).completes .initial := by decide +kernel
  obtain ⟨_, t, ht⟩ := Analysis.completes_iff.1 hend
  have htype : sample.HasIntegerType (.unsigned 8) :=
    ⟨8, by decide, by decide, .inl ⟨by decide +kernel, rfl⟩⟩
  obtain ⟨a, ha, hkept, -⟩ := Function.summary_keeps_parameter (v := sample)
    (by decide) htype (by decide +kernel) ht "Pool"
  refine ⟨t, a, ht, ha, ?_, ?_⟩
  · exact hkept true 9 ⟨by decide, by decide⟩ (by decide +kernel)
  · exact hkept true 199 ⟨by decide, by decide⟩ (by decide +kernel)

/-- A function that tests its parameter to be below ten, and then to be at least five. -/
def window : Function :=
  .ofNodes [.ofType "p" "uint8"] [
    .ofComparison .lt (.var (.ofType "p" "uint8")) 10 [1],
    .ofComparison .ge (.var (.ofType "p" "uint8")) 5 []]

/-- Two conditions take all values away from a parameter that nothing writes. -/
theorem window_loses_values :
    ({ window with nodes := window.nodes.take 1 }.analyze {} .initial = .ok ()
        ⟨⟨[(.var (.ofType "p" "uint8"), .atMost 9)]⟩, [], [], []⟩) ∧
      (Interval.atMost 9).contains 10 = false ∧
      window.analyze {} .initial = .ok ()
        ⟨⟨[(.var (.ofType "p" "uint8"), .bottom)]⟩, [], [], []⟩ ∧
      Interval.bottom.contains 7 = false ∧
      (TypeClass.unsigned 8).Admits 10 ∧ (TypeClass.unsigned 8).Admits 7 := by
  refine ⟨by decide +kernel, by decide, by decide +kernel, by decide, ?_, ?_⟩
  · exact ⟨by decide, by decide⟩
  · exact ⟨by decide, by decide⟩

end RangeAudit
