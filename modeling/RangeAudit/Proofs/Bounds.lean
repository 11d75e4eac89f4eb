import RangeAudit.Proofs.Branch
import RangeAudit.Proofs.Extended
import RangeAudit.Proofs.Soundness
import RangeAudit.Proofs.Trace

open RangeAudit.Interval (leastWord greatestWord between)

namespace RangeAudit

variable {L U : Number → Prop} {a b : Interval} {x y : Number} {n : Int} {r earlier : Ranges}
  {p : Place} {v : Variable}

namespace Interval

/-- The lower bound has one property and the upper bound another, as far as they are there. -/
structure Within (L U : Number → Prop) (a : Interval) : Prop where
  lo : ∀ x ∈ a.lo, L x
  hi : ∀ x ∈ a.hi, U x

theorem mem_both {g : Number → Number → Number} {p q : Option Number} (h : x ∈ both g p q) :
    ∃ y ∈ p, ∃ z ∈ q, x = g y z := by
  cases p with
  | none => cases h
  | some y =>
    cases q with
    | none => cases h
    | some z =>
      cases h
      exact ⟨y, rfl, z, rfl, rfl⟩

theorem within_bottom : bottom.Within L U where
  lo := by rintro x ⟨⟩
  hi := by rintro x ⟨⟩

theorem within_between (hx : L x) (hy : U y) : (between x y).Within L U where
  lo := by
    rintro _ ⟨⟩
    exact hx
  hi := by
    rintro _ ⟨⟩
    exact hy

theorem within_atMost (hx : U x) : (atMost x).Within L U where
  lo := by rintro x ⟨⟩
  hi := by
    rintro _ ⟨⟩
    exact hx

theorem within_atLeast (hx : L x) : (atLeast x).Within L U where
  lo := by
    rintro _ ⟨⟩
    exact hx
  hi := by rintro x ⟨⟩

namespace Within

theorem mono {L' U' : Number → Prop} (h : a.Within L U) (hL : ∀ x, L x → L' x)
    (hU : ∀ x, U x → U' x) : a.Within L' U' :=
  ⟨fun x hx => hL x (h.lo x hx), fun x hx => hU x (h.hi x hx)⟩

theorem meet (ha : a.Within L U) (hb : b.Within L U) : (a.meet b).Within L U := by
  unfold Interval.meet
  split
  · exact within_bottom
  split
  · exact hb
  split
  · exact ha
  dsimp only
  split
  · exact within_bottom
  · constructor
    · intro x hx
      obtain ⟨y, hy, z, hz, rfl⟩ := mem_both hx
      exact Number.greatest_of (ha.lo y hy) (hb.lo z hz)
    · intro x hx
      obtain ⟨y, hy, z, hz, rfl⟩ := mem_both hx
      exact Number.least_of (ha.hi y hy) (hb.hi z hz)

theorem widen (ha : a.Within L U) (hb : b.Within L U) (hneg : L .negInf) (hpos : U .posInf) :
    (a.widen b).Within L U := by
  unfold Interval.widen
  split
  · exact hb
  split
  · exact ha
  constructor
  · intro x hx
    simp only [widenLo] at hx
    split at hx
    · split at hx
      · cases hx
        exact hneg
      · cases hx
        exact ha.lo _ ‹_›
    · exact ha.lo x hx
  · intro x hx
    simp only [widenHi] at hx
    split at hx
    · split at hx
      · cases hx
        exact hpos
      · cases hx
        exact ha.hi _ ‹_›
    · exact ha.hi x hx

theorem narrow (ha : a.Within L U) (hb : b.Within L U) : (a.narrow b).Within L U := by
  unfold Interval.narrow
  split
  · exact within_bottom
  constructor
  · intro x hx
    dsimp only at hx
    split at hx
    · exact hb.lo x hx
    · exact ha.lo x hx
  · intro x hx
    dsimp only at hx
    split at hx
    · exact hb.hi x hx
    · exact ha.hi x hx

theorem withoutZero (h : a.Within L U) (hone : L 1) (hneg : U (.int (-1))) :
    a.withoutZero.Within L U := by
  unfold Interval.withoutZero
  split
  · rename_i x y hx hy
    split
    · split
      · exact within_between (h.lo x hx) (h.hi y hy)
      · exact within_between (h.lo x hx) hneg
      · exact within_between hone (h.hi y hy)
      · exact within_bottom
    · exact h
  · exact h

theorem clip (h : a.Within L U) (hx : L x) (hy : U y) : (TypeClass.clip x y a).Within L U := by
  apply within_between
  · cases hlo : a.lo with
    | none => exact hx
    | some z => exact Number.greatest_of hx (h.lo z hlo)
  · cases hhi : a.hi with
    | none => exact hy
    | some z => exact Number.least_of hy (h.hi z hhi)

end Within

end Interval

/-- Properties of bounds that words have, and that a step by one inwards keeps. -/
structure AllowsWords (L U : Number → Prop) : Prop where
  word {x : Number} {n : Int} (h : x.toInt? = some n) (hlo : leastWord ≤ n)
    (hhi : n ≤ greatestWord) : L x ∧ U x
  succ {x : Number} (h : L x) : L x.succ
  pred {x : Number} (h : U x) : U x.pred

namespace AllowsWords

theorem int (hw : AllowsWords L U) (hlo : leastWord ≤ n) (hhi : n ≤ greatestWord) :
    L (.int n) ∧ U (.int n) :=
  hw.word rfl hlo hhi

theorem between {m : Int} (hw : AllowsWords L U) (hm : leastWord ≤ m) (hm' : m ≤ greatestWord)
    (hn : leastWord ≤ n) (hn' : n ≤ greatestWord) : (between (.int m) (.int n)).Within L U :=
  Interval.within_between (hw.int hm hm').1 (hw.int hn hn').2

theorem unsignedWord (hw : AllowsWords L U) : Interval.unsignedWord.Within L U :=
  hw.between (by decide) (by decide) (by decide) (by decide)

theorem signedWord (hw : AllowsWords L U) : Interval.signedWord.Within L U :=
  hw.between (by decide) (by decide) (by decide) (by decide)

theorem wholeWord (hw : AllowsWords L U) : Interval.word.Within L U :=
  hw.between (by decide) (by decide) (by decide) (by decide)

theorem bit (hw : AllowsWords L U) : Interval.bit.Within L U :=
  hw.between (by decide) (by decide) (by decide) (by decide)

theorem address (hw : AllowsWords L U) : Interval.address.Within L U :=
  hw.between (by decide) (by decide) (by decide) (by decide)

theorem refineBy (hw : AllowsWords L U) (c : Comparison) (ha : a.Within L U) (hx : L x ∧ U x) :
    (c.refineBy a x).Within L U := by
  cases c with
  | lt => exact ha.meet (Interval.within_atMost (hw.pred hx.2))
  | le => exact ha.meet (Interval.within_atMost hx.2)
  | gt => exact ha.meet (Interval.within_atLeast (hw.succ hx.1))
  | ge => exact ha.meet (Interval.within_atLeast hx.1)
  | eq => exact ha.meet (Interval.within_between hx.1 hx.2)
  | ne =>
    dsimp only [Comparison.refineBy]
    split
    · exact ha.withoutZero (hw.int (by decide) (by decide)).1 (hw.int (by decide) (by decide)).2
    · exact ha

theorem refineLeft? (hw : AllowsWords L U) (c : Comparison) (ha : a.Within L U)
    (hb : b.Within L U) : ∀ z ∈ c.refineLeft? a b, z.Within L U := by
  intro z hz
  cases c with
  | lt =>
    obtain ⟨h, hh, rfl⟩ := Option.map_eq_some_iff.1 hz
    exact ha.meet (Interval.within_atMost (hw.pred (hb.hi h hh)))
  | le =>
    obtain ⟨h, hh, rfl⟩ := Option.map_eq_some_iff.1 hz
    exact ha.meet (Interval.within_atMost (hb.hi h hh))
  | gt =>
    obtain ⟨l, hl, rfl⟩ := Option.map_eq_some_iff.1 hz
    exact ha.meet (Interval.within_atLeast (hw.succ (hb.lo l hl)))
  | ge =>
    obtain ⟨l, hl, rfl⟩ := Option.map_eq_some_iff.1 hz
    exact ha.meet (Interval.within_atLeast (hb.lo l hl))
  | eq =>
    cases hz
    exact ha.meet hb
  | ne => cases hz

theorem refineRight? (hw : AllowsWords L U) (c : Comparison) (ha : a.Within L U)
    (hb : b.Within L U) : ∀ z ∈ c.refineRight? a b, z.Within L U := by
  intro z hz
  cases c with
  | lt =>
    obtain ⟨l, hl, rfl⟩ := Option.map_eq_some_iff.1 hz
    exact hb.meet (Interval.within_atLeast (hw.succ (ha.lo l hl)))
  | le =>
    obtain ⟨l, hl, rfl⟩ := Option.map_eq_some_iff.1 hz
    exact hb.meet (Interval.within_atLeast (ha.lo l hl))
  | gt =>
    obtain ⟨h, hh, rfl⟩ := Option.map_eq_some_iff.1 hz
    exact hb.meet (Interval.within_atMost (hw.pred (ha.hi h hh)))
  | ge =>
    obtain ⟨h, hh, rfl⟩ := Option.map_eq_some_iff.1 hz
    exact hb.meet (Interval.within_atMost (ha.hi h hh))
  | eq =>
    cases hz
    exact ha.meet hb
  | ne => cases hz

end AllowsWords

namespace TypeClass

def IsWordWide : TypeClass → Prop
  | .unsigned bits => bits ≤ 256
  | .signed bits => 1 ≤ bits ∧ bits ≤ 256
  | .address | .truth | .other => True

instance : (c : TypeClass) → Decidable c.IsWordWide
  | .unsigned bits => inferInstanceAs (Decidable (bits ≤ 256))
  | .signed bits => inferInstanceAs (Decidable (1 ≤ bits ∧ bits ≤ 256))
  | .address | .truth | .other => .isTrue trivial

variable {c : TypeClass} {bits : Nat}

theorem unsignedMax_le (h : bits ≤ 256) : ((Nat.pow 2 bits : Nat) : Int) - 1 ≤ greatestWord := by
  have hpow : Nat.pow 2 bits ≤ Nat.pow 2 256 := Nat.pow_le_pow_right (by decide) h
  have hlimit : ((Nat.pow 2 256 : Nat) : Int) = greatestWord + 1 := by decide
  omega

theorem signed_bounds (h : 1 ≤ bits) (h' : bits ≤ 256) :
    leastWord ≤ -((Nat.pow 2 (bits - 1) : Nat) : Int) ∧
      ((Nat.pow 2 (bits - 1) : Nat) : Int) - 1 ≤ greatestWord := by
  have hpow : Nat.pow 2 (bits - 1) ≤ Nat.pow 2 255 :=
    Nat.pow_le_pow_right (by decide) (by omega)
  have hlimit : ((Nat.pow 2 255 : Nat) : Int) = -leastWord := by decide
  have hword : -leastWord ≤ greatestWord := by decide
  omega

theorem signedRange_within (hw : AllowsWords L U) (h : 1 ≤ bits) (h' : bits ≤ 256) :
    L (signedRange bits).1 ∧ U (signedRange bits).2 := by
  have hpos : 0 < Nat.pow 2 (bits - 1) := Nat.pow_pos (by decide)
  have hneg := Interval.leastWord_neg
  have hgreat := Interval.neg_greatestWord
  obtain ⟨hlo, hhi⟩ := signed_bounds h h'
  rw [signedRange_eq h]
  exact ⟨(hw.int hlo (by omega)).1, (hw.int (by omega) hhi).2⟩

theorem unsignedMax_within (hw : AllowsWords L U) (h : bits ≤ 256) : U (unsignedMax bits) := by
  have hpos : 0 < Nat.pow 2 bits := Nat.pow_pos (by decide)
  have hneg := Interval.leastWord_neg
  exact (hw.int (by omega) (unsignedMax_le h)).2

theorem paramInterval_within (hw : AllowsWords L U) (hc : c.IsWordWide) :
    c.paramInterval.Within L U := by
  cases c with
  | unsigned bits =>
    have hzero : L 0 := (hw.int (by decide) (by decide)).1
    exact Interval.within_between hzero (unsignedMax_within hw hc)
  | signed bits =>
    obtain ⟨hlo, hhi⟩ := signedRange_within hw hc.1 hc.2
    exact Interval.within_between hlo hhi
  | address => exact hw.address
  | truth => exact hw.bit
  | other => exact hw.unsignedWord

theorem converted?_within (hw : AllowsWords L U) (hc : c.IsWordWide) (ha : a.Within L U) :
    ∀ z ∈ c.converted? a, z.Within L U := by
  intro z hz
  cases c with
  | unsigned bits =>
    cases hz
    exact ha.clip (hw.int (by decide) (by decide)).1 (unsignedMax_within hw hc)
  | signed bits =>
    cases hz
    obtain ⟨hlo, hhi⟩ := signedRange_within hw hc.1 hc.2
    exact ha.clip hlo hhi
  | address =>
    cases hz
    exact hw.address
  | truth =>
    cases hz
    split
    · exact hw.between (by decide) (by decide) (by decide) (by decide)
    split
    · exact hw.between (by decide) (by decide) (by decide) (by decide)
    · exact hw.bit
  | other => cases hz

end TypeClass

namespace Variable

theorem localInterval_within (hw : AllowsWords L U) (v : Variable) :
    v.localInterval.Within L U := by
  unfold localInterval
  cases v.place.lowerType? with
  | none => exact hw.unsignedWord
  | some type =>
    dsimp only [Option.elim_some]
    split
    · exact hw.unsignedWord
    split
    · exact hw.signedWord
    split
    · exact hw.bit
    · exact hw.unsignedWord

theorem stateInterval?_within (hw : AllowsWords L U) (v : Variable) :
    ∀ z ∈ v.stateInterval?, z.Within L U := by
  intro z hz
  obtain ⟨type, -, hz⟩ := Option.bind_eq_some_iff.1 hz
  split at hz
  · cases hz
    exact hw.unsignedWord
  split at hz
  · cases hz
    exact hw.signedWord
  · cases hz

end Variable

def Place.IsWordWide (p : Place) : Prop :=
  ∀ type ∈ p.lowerType?, ∀ c, TypeClass.ofText type = .ok c → c.IsWordWide

instance : DecidablePred Place.IsWordWide := fun p =>
  decidable_of_iff
    (∀ type ∈ p.lowerType?, ∀ c ∈ (TypeClass.ofText type).toOption, c.IsWordWide) <| by
      refine forall₂_congr fun type _ => ?_
      cases TypeClass.ofText type with
      | error e => simp [Except.toOption]
      | ok c => simp [Except.toOption]

theorem Variable.paramInterval_within (hw : AllowsWords L U) (hv : v.place.IsWordWide)
    (ha : v.paramInterval = .ok a) : a.Within L U := by
  unfold Variable.paramInterval at ha
  cases htype : v.place.lowerType? with
  | none =>
    rw [htype] at ha
    cases ha
    exact hw.unsignedWord
  | some type =>
    rw [htype] at ha
    dsimp only [Option.elim_some] at ha
    cases hc : TypeClass.ofText type with
    | error e =>
      rw [hc] at ha
      cases ha
    | ok c =>
      rw [hc] at ha
      cases ha
      exact TypeClass.paramInterval_within hw (hv type htype c hc)

namespace Ranges

def Within (L U : Number → Prop) (r : Ranges) : Prop :=
  ∀ e ∈ r.entries, e.2.Within L U

theorem within_empty : empty.Within L U := by
  rintro e ⟨⟩

namespace Within

theorem get? (h : r.Within L U) (ha : r.get? p = some a) : a.Within L U :=
  h (p, a) (mem_of_get? ha)

theorem getD (h : r.Within L U) (p : Place) : (r.getD p).Within L U := by
  unfold Ranges.getD
  cases ha : r.get? p with
  | none => exact Interval.within_bottom
  | some a => exact h.get? ha

theorem set (h : r.Within L U) (p : Place) (ha : a.Within L U) : (r.set p a).Within L U := by
  intro e he
  rcases mem_setEntries he with rfl | he
  · exact ha
  · exact h e he

theorem setSome (h : r.Within L U) (p : Place) {a? : Option Interval}
    (ha : ∀ a ∈ a?, a.Within L U) : (r.setSome p a?).Within L U := by
  cases a? with
  | none => exact h
  | some a => exact h.set p (ha a rfl)

theorem snapshot (h : r.Within L U) : r.snapshot.Within L U :=
  fun e he => h e (List.mem_filter.1 he).1

theorem map {g : Place → Interval → Interval} (h : r.Within L U)
    (hg : ∀ p a, a.Within L U → (g p a).Within L U) : (r.map g).Within L U := by
  intro e he
  obtain ⟨⟨p, a⟩, ha, rfl⟩ := List.mem_map.1 he
  exact hg p a (h (p, a) ha)

theorem widenFrom (h : r.Within L U) (hearlier : earlier.Within L U) (hneg : L .negInf)
    (hpos : U .posInf) : (r.widenFrom earlier).Within L U := by
  apply h.map
  intro p a ha
  split
  · rename_i old hold
    exact (hearlier.get? hold).widen ha hneg hpos
  · exact ha

theorem narrowTo (h : r.Within L U) (hearlier : earlier.Within L U) :
    (r.narrowTo earlier).Within L U := by
  apply h.map
  intro p a ha
  split
  · rename_i old hold
    exact ha.narrow (hearlier.get? hold)
  · exact ha

theorem refine (h : r.Within L U) (hw : AllowsWords L U) (c : Comparison) {left right : Operand}
    (hk : ∀ k x, right = .literal k → k.threshold? = some x → L x ∧ U x) :
    (r.refine c left right).Within L U := by
  cases left with
  | literal => exact h
  | place p =>
    cases right with
    | literal k =>
      cases hx : k.threshold? with
      | none => simpa only [Ranges.refine, hx, Option.elim_none] using h
      | some x =>
        simp only [Ranges.refine, hx, Option.elim_some, refineByNumber]
        split
        · exact h
        · rename_i a ha
          split
          · exact h
          · exact h.set p (hw.refineBy c (h.get? ha) (hk k x rfl hx))
    | place q =>
      simp only [Ranges.refine, refinePair]
      split
      · rename_i a b ha hb
        exact (h.setSome p (hw.refineLeft? c (h.get? ha) (h.get? hb))).setSome q
          (hw.refineRight? c (h.get? ha) (h.get? hb))
      · exact h

theorem addParam {r' : Ranges} (h : r.Within L U) (hw : AllowsWords L U)
    (hv : v.place.IsWordWide) (hr : r.addParam v = .ok r') : r'.Within L U := by
  obtain ⟨-, x, hx, rfl⟩ | ⟨-, rfl⟩ := addParam_ok hr
  · exact h.set _ (Variable.paramInterval_within hw hv hx)
  · exact h

theorem addSource (h : r.Within L U) (hw : AllowsWords L U) (i : Instr) :
    (r.addSource i).Within L U := by
  unfold Ranges.addSource
  split
  · split
    · exact h.setSome _ (Variable.stateInterval?_within hw _)
    · exact h
  · exact h

theorem addLocal (h : r.Within L U) (hw : AllowsWords L U) (v : Variable) :
    (r.addLocal v).Within L U := by
  unfold Ranges.addLocal
  split
  · exact h.set _ (v.localInterval_within hw)
  · exact h

end Within

end Ranges

end RangeAudit
