import RangeAudit.Proofs.Operation
import RangeAudit.Proofs.Saturation

open RangeAudit.Interval (leastWord greatestWord between)

namespace RangeAudit

variable {x y : Number} {n : Int} {a b : Interval} {c : Corners} {op : Operator} {p : Place}
  {left : Operand} {s : State}

namespace Number

def IsFloored (x : Number) : Prop :=
  (∃ n, x.toInt? = some n ∧ -greatestWord ≤ n) ∨ x = negInf

/-- An integer no longer than a machine word, or an infinity. -/
def IsModerate (x : Number) : Prop :=
  (∃ n, x.toInt? = some n ∧ n.natAbs < Nat.pow 2 256) ∨ ∃ negative, x = .double (.inf negative)

theorem IsFloored.isLower (h : x.IsFloored) : x.IsLower := by
  rcases h with ⟨n, hn, -⟩ | h
  · exact .inl (Option.isSome_iff_exists.2 ⟨n, hn⟩)
  · exact .inr h

theorem IsGrounded.isFloored (h : x.IsGrounded) : x.IsFloored := by
  obtain ⟨n, hn, hle⟩ := h
  have hleast : -greatestWord ≤ leastWord := by decide
  exact .inl ⟨n, hn, hleast.trans hle⟩

theorem IsFloored.succ (h : x.IsFloored) : x.succ.IsFloored := by
  rcases h with ⟨n, hn, hle⟩ | rfl
  · rw [succ_of_toInt? hn]
    exact .inl ⟨n + 1, rfl, by omega⟩
  · exact .inr rfl

theorem IsCapped.pred (h : x.IsCapped) : x.pred.IsCapped := by
  rcases h with h | rfl
  · exact .inl h.pred
  · exact .inr rfl

theorem IsCapped.neg (h : x.IsCapped) : x.neg.IsFloored := by
  rcases h with ⟨n, hn, hle⟩ | rfl
  · rw [neg_of_toInt? hn]
    exact .inl ⟨-n, rfl, by omega⟩
  · exact .inr rfl

theorem isModerate_int (h : x.toInt? = some n) (hlo : -greatestWord ≤ n) (hhi : n ≤ greatestWord) :
    x.IsModerate := by
  have hlimit : ((Nat.pow 2 256 : Nat) : Int) = greatestWord + 1 := by decide
  exact .inl ⟨n, h, by omega⟩

namespace IsModerate

theorem toDouble (h : x.IsModerate) : ∃ d, x.toDouble = .ok d := by
  rcases h with ⟨n, hn, hlt⟩ | ⟨negative, rfl⟩
  · cases x with
    | int m =>
      cases hn
      obtain ⟨t, k, e, hd⟩ := Binary64.ofInt_finite (by decide) hlt
      exact ⟨_, by rw [Number.toDouble, hd]⟩
    | truth b => exact ⟨_, rfl⟩
    | double d => cases hn
  · exact ⟨_, rfl⟩

theorem arith {f : Int → Int → Int} {g : Binary64 → Binary64 → Binary64} (hx : x.IsModerate)
    (hy : y.IsModerate) : ∃ z, Number.arith f g x y = .ok z := by
  obtain ⟨d, hd⟩ := hx.toDouble
  obtain ⟨e, he⟩ := hy.toDouble
  unfold Number.arith
  split
  · exact ⟨_, rfl⟩
  · rw [hd, he]
    exact ⟨_, rfl⟩

theorem isWritable (h : x.IsModerate) : x.isWritable := by
  rcases h with ⟨n, hn, hlt⟩ | ⟨negative, rfl⟩
  · cases x with
    | int m =>
      cases hn
      exact isWritable_int.2 (hlt.trans_le pow_le_writtenBelow)
    | truth b => rfl
    | double d => cases hn
  · rfl

end IsModerate

end Number

open Number (IsCapped IsFloored IsGrounded IsSaturated)

theorem allowsWords_floored : AllowsWords IsFloored IsCapped where
  word h hlo hhi := ⟨IsGrounded.isFloored ⟨_, h, hlo⟩, .inl ⟨_, h, hhi⟩⟩
  succ h := h.succ
  pred h := h.pred

namespace Interval

def HasWord (a : Interval) : Prop :=
  ∃ n, leastWord ≤ n ∧ n ≤ greatestWord ∧ a.contains n

/-- The bounds are of limited size and enclose some machine word, or there are none. -/
structure IsUsable (a : Interval) : Prop where
  within : a.Within IsFloored IsCapped
  hasWord : a.isBottom ∨ a.HasWord

theorem lo_le_of_contains (h : a.contains n) (hx : x ∈ a.lo) : x.le (.int n) :=
  (contains_iff.1 h).2.1 x hx

theorem le_hi_of_contains (h : a.contains n) (hx : x ∈ a.hi) : Number.le (.int n) x :=
  (contains_iff.1 h).2.2 x hx

theorem bounds_of_isBottom (h : a.isBottom) : a.lo = none ∧ a.hi = none := by
  simpa [isBottom] using h

namespace IsUsable

theorem bottom : Interval.bottom.IsUsable :=
  ⟨within_bottom, .inl rfl⟩

theorem lo_isModerate (h : a.IsUsable) : ∀ x ∈ a.lo, x.IsModerate := by
  intro x hx
  rcases h.hasWord with hbottom | ⟨w, -, hw, hcontains⟩
  · rw [(bounds_of_isBottom hbottom).1] at hx
    cases hx
  rcases h.within.lo x hx with ⟨n, hn, hle⟩ | rfl
  · have hnw : n ≤ w := (Number.le_of_toInt? hn rfl).1 (lo_le_of_contains hcontains hx)
    exact Number.isModerate_int hn hle (hnw.trans hw)
  · exact .inr ⟨true, rfl⟩

theorem hi_isModerate (h : a.IsUsable) : ∀ x ∈ a.hi, x.IsModerate := by
  intro x hx
  have hleast : -greatestWord ≤ leastWord := by decide
  rcases h.hasWord with hbottom | ⟨w, hw, -, hcontains⟩
  · rw [(bounds_of_isBottom hbottom).2] at hx
    cases hx
  rcases h.within.hi x hx with ⟨n, hn, hle⟩ | rfl
  · have hwn : w ≤ n := (Number.le_of_toInt? rfl hn).1 (le_hi_of_contains hcontains hx)
    exact Number.isModerate_int hn (hleast.trans (hw.trans hwn)) hle
  · exact .inr ⟨false, rfl⟩

theorem isWritable (h : a.IsUsable) : a.isWritable := by
  rw [Interval.isWritable, Bool.and_eq_true, Option.all_eq_true, Option.all_eq_true]
  exact ⟨fun x hx => (h.lo_isModerate x hx).isWritable,
    fun x hx => (h.hi_isModerate x hx).isWritable⟩

theorem isCapped (ha : a.IsUsable) (hb : b.IsUsable) : (Corners.ofIntervals a b).IsCapped :=
  Corners.isCapped_ofIntervals (ha.within.mono (fun _ => IsFloored.isLower) fun _ hx => hx)
    (hb.within.mono (fun _ => IsFloored.isLower) fun _ hx => hx)

end IsUsable

end Interval

namespace Corners

structure IsModerate (c : Corners) : Prop where
  leftLo : c.leftLo.IsModerate
  leftHi : c.leftHi.IsModerate
  rightLo : c.rightLo.IsModerate
  rightHi : c.rightHi.IsModerate

theorem isModerate_ofIntervals (ha : a.IsUsable) (hb : b.IsUsable) :
    (ofIntervals a b).IsModerate := by
  have getD {bound : Option Number} {negative : Bool} (h : ∀ x ∈ bound, x.IsModerate) :
      (bound.getD (.double (.inf negative))).IsModerate := by
    cases bound with
    | none => exact .inr ⟨negative, rfl⟩
    | some x => exact h x rfl
  exact ⟨getD ha.lo_isModerate, getD ha.hi_isModerate, getD hb.lo_isModerate,
    getD hb.hi_isModerate⟩

def RightHasWord (c : Corners) : Prop :=
  ∃ n, leastWord ≤ n ∧ c.rightLo.le (.int n) ∧ Number.le (.int n) c.rightHi

theorem rightHasWord_ofIntervals (hb : b.HasWord) : (ofIntervals a b).RightHasWord := by
  obtain ⟨n, hn, -, hcontains⟩ := hb
  refine ⟨n, hn, ?_, ?_⟩
  · cases h : b.lo with
    | none => rw [ofIntervals, h]; rfl
    | some x => rw [ofIntervals, h]; exact Interval.lo_le_of_contains hcontains h
  · cases h : b.hi with
    | none => rw [ofIntervals, h]; rfl
    | some x => rw [ofIntervals, h]; exact Interval.le_hi_of_contains hcontains h

theorem add_completes (hc : c.IsModerate) : ∃ z, c.add = .ok z := by
  obtain ⟨lo, hlo⟩ : ∃ z, c.leftLo.add c.rightLo = .ok z := hc.leftLo.arith hc.rightLo
  obtain ⟨hi, hhi⟩ : ∃ z, c.leftHi.add c.rightHi = .ok z := hc.leftHi.arith hc.rightHi
  rw [add, hlo, hhi]
  exact ⟨_, rfl⟩

theorem sub_completes (hc : c.IsModerate) : ∃ z, c.sub = .ok z := by
  obtain ⟨lo, hlo⟩ : ∃ z, c.leftLo.sub c.rightHi = .ok z := hc.leftLo.arith hc.rightHi
  obtain ⟨hi, hhi⟩ : ∃ z, c.leftHi.sub c.rightLo = .ok z := hc.leftHi.arith hc.rightLo
  rw [sub, hlo, hhi]
  exact ⟨_, rfl⟩

theorem mul_completes (hc : c.IsModerate) : ∃ z, c.mul = .ok z := by
  unfold mul
  split
  · exact ⟨_, rfl⟩
  obtain ⟨p, hp⟩ : ∃ z, c.leftLo.mul c.rightLo = .ok z := hc.leftLo.arith hc.rightLo
  obtain ⟨q, hq⟩ : ∃ z, c.leftLo.mul c.rightHi = .ok z := hc.leftLo.arith hc.rightHi
  obtain ⟨r, hr⟩ : ∃ z, c.leftHi.mul c.rightLo = .ok z := hc.leftHi.arith hc.rightLo
  obtain ⟨s, hs⟩ : ∃ z, c.leftHi.mul c.rightHi = .ok z := hc.leftHi.arith hc.rightHi
  rw [hp, hq, hr, hs]
  exact ⟨_, rfl⟩

theorem floorDiv_completes (hx : x.IsInteger) (hy : y.toInt? = some n) (hn : n ≠ 0) :
    ∃ z, x.floorDiv y = .ok z := by
  obtain ⟨m, hm⟩ := Option.isSome_iff_exists.1 hx
  simp only [Number.floorDiv, hm, hy, if_neg hn]
  exact ⟨_, rfl⟩

theorem quotients_completes (hc : c.IsCapped) (hb : c.isUnbounded = false) (hw : c.RightHasWord)
    (hside : Number.lt 0 c.rightLo || c.rightHi.lt 0) : ∃ l, c.quotients = .ok l := by
  obtain ⟨hll, hlh, hrl, hrh⟩ := hc.isInteger hb
  obtain ⟨lo, hlo⟩ := Option.isSome_iff_exists.1 hrl
  obtain ⟨hi, hhi⟩ := Option.isSome_iff_exists.1 hrh
  obtain ⟨w, -, hlow, hwhi⟩ := hw
  have hlow := (Number.le_of_toInt? hlo rfl).1 hlow
  have hwhi := (Number.le_of_toInt? rfl hhi).1 hwhi
  have hside : 0 < lo ∨ hi < 0 := by
    rw [Bool.or_eq_true, Number.lt_of_toInt? rfl hlo, Number.lt_of_toInt? hhi rfl] at hside
    exact hside
  have hdiv {x y : Number} (hx : x.IsInteger) (hy : y = c.rightLo ∨ y = c.rightHi) :
      ∃ z, x.floorDiv y = .ok z := by
    rcases hy with rfl | rfl
    · exact floorDiv_completes hx hlo (by omega)
    · exact floorDiv_completes hx hhi (by omega)
  obtain ⟨near, far, hnear, hfar, hq⟩ := c.quotients_eq
  obtain ⟨p, hp⟩ := hdiv hll hnear
  obtain ⟨q, hq'⟩ := hdiv hll hfar
  obtain ⟨r, hr⟩ := hdiv hlh hnear
  obtain ⟨s, hs⟩ := hdiv hlh hfar
  rw [hq, hp, hq', hr, hs]
  exact ⟨_, rfl⟩

theorem div_completes (hc : c.IsCapped) (hw : c.RightHasWord) : ∃ z, c.div = .ok z := by
  unfold div
  split
  · exact ⟨_, rfl⟩
  split
  · exact ⟨_, rfl⟩
  rename_i hb
  split
  · exact ⟨_, rfl⟩
  rename_i hside
  rw [Bool.not_eq_true, Bool.not_eq_false'] at hside
  obtain ⟨l, hl⟩ := quotients_completes hc (Bool.eq_false_iff.2 hb) hw hside
  rw [hl]
  dsimp only [bind, Except.bind]
  split
  · exact ⟨_, rfl⟩
  · exact ⟨_, rfl⟩

theorem modPositive_within (hc : c.IsCapped) (hleft : c.leftLo.IsFloored) :
    c.modPositive.Within IsFloored IsSaturated := by
  have hword : IsFloored (.int leastWord) := (allowsWords_floored.int le_rfl (by decide)).1
  have hzero : IsFloored 0 := (allowsWords_floored.int (by decide) (by decide)).1
  have hreach := hc.rightHi.pred
  unfold modPositive
  dsimp only
  split
  · exact bounded_within hword (fun _ => hzero) (Number.least_of hc.leftHi hreach)
  split
  · exact bounded_within hword (fun _ => Number.greatest_of hreach.neg hleft)
      (.inl (Number.isSaturated_int (by decide)))
  · exact bounded_within hword (fun _ => hreach.neg) hreach

theorem modNegative_within (hc : c.IsCapped) (hleft : c.leftLo.IsFloored) (hw : c.RightHasWord)
    (hneg : c.rightHi.lt 0) : c.modNegative.Within IsFloored IsSaturated := by
  have hword : IsFloored (.int leastWord) := (allowsWords_floored.int le_rfl (by decide)).1
  have hzero : IsFloored 0 := (allowsWords_floored.int (by decide) (by decide)).1
  have hsize : c.rightHi.abs.IsSaturated := by
    rcases hc.rightHi with ⟨n, hn, -⟩ | hinf
    · have hlimit : -leastWord ≤ greatestWord := by decide
      obtain ⟨w, hw, -, hwhi⟩ := hw
      have hwn := (Number.le_of_toInt? rfl hn).1 hwhi
      have hneg := (Number.lt_of_toInt? (n := 0) hn rfl).1 hneg
      rw [Number.abs_of_toInt? hn]
      exact Number.isSaturated_int (by omega)
    · rw [hinf] at hneg
      cases hneg
  have hreach : c.rightHi.abs.pred.IsCapped := .inl hsize.pred
  have hfloor : c.rightHi.abs.neg.succ.IsFloored := (IsCapped.neg (.inl hsize)).succ
  unfold modNegative
  dsimp only
  split
  · exact bounded_within hword (fun _ => hzero) (Number.least_of hc.leftHi hreach)
  split
  · exact bounded_within hword (fun _ => Number.greatest_of hfloor hleft)
      (.inl (Number.isSaturated_int (by decide)))
  · exact bounded_within hword (fun _ => hfloor) hreach

theorem mod_within (hc : c.IsCapped) (hleft : c.leftLo.IsFloored) (hw : c.RightHasWord) :
    c.mod.Within IsFloored IsSaturated := by
  have hunsigned : Interval.unsignedWord.Within IsFloored IsSaturated :=
    allowsWords_grounded.unsignedWord.mono (fun _ => IsGrounded.isFloored) fun _ hx => hx
  unfold mod
  split
  · exact hunsigned
  split
  · exact modPositive_within hc hleft
  split
  · rename_i hneg
    exact modNegative_within hc hleft hw hneg
  · exact hunsigned

end Corners

def Operator.isArithmetic : Operator → Bool
  | .add | .sub | .mul | .div | .mod => true
  | _ => false

theorem Operator.apply_completes (hop : op.isArithmetic) (ha : a.IsUsable) (hb : b.IsUsable) :
    ∃ z, op.apply a b = .ok z ∧ z.Within IsFloored IsCapped := by
  have hw := allowsWords_floored
  unfold apply
  split
  · exact ⟨_, rfl, Interval.within_bottom⟩
  rename_i hbottom
  split
  · split
    · exact ⟨_, rfl, hw.unsignedWord⟩
    · exact ⟨_, rfl, Interval.within_between (.inr rfl) (.inr rfl)⟩
  have hb' : b.HasWord := by
    rcases hb.hasWord with h | h
    · exact absurd (by simp [h]) hbottom
    · exact h
  have hc := ha.isCapped hb
  have hmoderate := Corners.isModerate_ofIntervals ha hb
  have hright : (Corners.ofIntervals a b).RightHasWord := Corners.rightHasWord_ofIntervals hb'
  have hleft : (Corners.ofIntervals a b).leftLo.IsFloored := by
    cases h : a.lo with
    | none =>
      rw [Corners.ofIntervals, h]
      exact .inr rfl
    | some x =>
      rw [Corners.ofIntervals, h]
      exact ha.within.lo x h
  have hgrounded {z : Interval} (hz : z.Within IsGrounded IsSaturated) :
      z.Within IsFloored IsCapped := hz.mono (fun _ => IsGrounded.isFloored) fun _ => .inl
  cases op with
  | add =>
    obtain ⟨z, hz⟩ := Corners.add_completes hmoderate
    exact ⟨z, hz, hgrounded (Corners.add_grounded hc hz)⟩
  | sub =>
    obtain ⟨z, hz⟩ := Corners.sub_completes hmoderate
    exact ⟨z, hz, hgrounded (Corners.sub_grounded hc hz)⟩
  | mul =>
    obtain ⟨z, hz⟩ := Corners.mul_completes hmoderate
    exact ⟨z, hz, hgrounded (Corners.mul_grounded hc hz)⟩
  | div =>
    obtain ⟨z, hz⟩ := Corners.div_completes hc hright
    exact ⟨z, hz, hgrounded (Corners.div_grounded hc hz)⟩
  | mod => exact ⟨_, rfl, (Corners.mod_within hc hleft hright).mono (fun _ hx => hx) fun _ => .inl⟩
  | pow | shl | shr | compare | logic | unknown => cases hop

namespace Operator

theorem overflows_completes {f : Number → Number → Except Failure Number}
    (hf : ∀ x y, x.IsModerate → y.IsModerate → ∃ z, f x y = .ok z) (ha : a.IsUsable)
    (hb : b.IsUsable) : ∃ isRaised, overflows f a b = .ok isRaised := by
  unfold overflows
  split
  · rename_i x y hx hy
    obtain ⟨z, hz⟩ := hf x y (ha.hi_isModerate x hx) (hb.hi_isModerate y hy)
    rw [hz]
    exact ⟨_, rfl⟩
  · exact ⟨false, rfl⟩

theorem wordAlarm_completes (hop : op.isArithmetic) (ha : a.IsUsable) (hb : b.IsUsable)
    (p : Place) : ∃ issue?, op.wordAlarm a b p = .ok issue? := by
  cases op with
  | add =>
    obtain ⟨isRaised, h⟩ := overflows_completes (f := Number.add)
      (fun _ _ hx hy => hx.arith hy) ha hb
    exact ⟨_, by rw [wordAlarm, h]; rfl⟩
  | mul =>
    obtain ⟨isRaised, h⟩ := overflows_completes (f := Number.mul)
      (fun _ _ hx hy => hx.arith hy) ha hb
    exact ⟨_, by rw [wordAlarm, h]; rfl⟩
  | sub | div | mod => exact ⟨_, rfl⟩
  | pow | shl | shr | compare | logic | unknown => cases hop

end Operator

namespace Effect

theorem ofOperation_completes (hop : op.isArithmetic) (ha : a.IsUsable) (hb : b.IsUsable)
    (p : Place) : ∃ z issues, z.Within IsFloored IsCapped ∧
      ofOperation op a b p = { store p z with issues := issues } := by
  obtain ⟨z, hz, hwithin⟩ := Operator.apply_completes hop ha hb
  have hwarn : op.CanWarn a b := fun _ => hb.isWritable
  obtain ⟨issues, hstore⟩ := hwarn.gives hz p
  exact ⟨z, issues, hwithin, hstore⟩

theorem operandAlarms_completes (hop : op.isArithmetic) (ha : a.IsUsable) (hb : b.IsUsable)
    (hleft : left.isWritable) (isChecked : Bool) (p : Place) :
    ∃ issues, operandAlarms isChecked op p left a b = .ok issues := by
  have hzero : Issue.raised (op.zeroAlarm? left b p) = .ok (op.zeroAlarm? left b p).toList := by
    apply Issue.raised_of_isWritable
    intro issue hissue
    rw [Operator.zeroAlarm?_isWritable hissue, hb.isWritable, hleft, Bool.and_self]
  unfold operandAlarms
  cases isChecked with
  | true =>
    rw [hzero]
    exact ⟨_, rfl⟩
  | false =>
    obtain ⟨issue?, hissue?⟩ := Operator.wordAlarm_completes hop ha hb p
    have hword : Issue.raised issue? = .ok issue?.toList := by
      apply Issue.raised_of_isWritable
      intro issue hissue
      rw [Operator.wordAlarm_isWritable hissue? hissue, ha.isWritable, hb.isWritable,
        Bool.and_self]
    rw [hzero, if_neg Bool.false_ne_true, hissue?]
    dsimp only [bind, Except.bind]
    rw [hword]
    exact ⟨_, rfl⟩

theorem binaryOn_completes (hop : op.isArithmetic) (ha : a.IsUsable) (hb : b.IsUsable)
    (hleft : left.isWritable) (checked : List Place) (p : Place) :
    (binaryOn checked op p left a b).failure? = none := by
  obtain ⟨z, issues, -, hz⟩ := ofOperation_completes hop ha hb p
  obtain ⟨alarms, halarms⟩ := operandAlarms_completes hop ha hb hleft (checked.contains p) p
  unfold binaryOn
  rw [hz, halarms]
  rfl

end Effect

def Operand.isInteger : Operand → Bool
  | .place _ | .literal (.int _) => true
  | .literal _ => false

def Place.isReadable (p : Place) : Bool :=
  p.lowerType?.all fun type => (TypeClass.ofText type).isOk

theorem Place.exists_typeClass {p : Place} {type : String} (hp : p.isReadable)
    (htype : p.lowerType? = some type) : ∃ c, TypeClass.ofText type = .ok c := by
  have hok : (TypeClass.ofText type).isOk := (Option.all_eq_true _ _).1 hp type htype
  cases hc : TypeClass.ofText type with
  | error e =>
    rw [hc] at hok
    cases hok
  | ok c => exact ⟨c, rfl⟩

namespace Effect

theorem assign_completes {source : Operand} (h : source.isInteger) (s : State) (result : Place) :
    (assign s result source).failure? = none := by
  cases source with
  | literal k =>
    cases k with
    | int n => rfl
    | truth | text | empty => cases h
  | place p =>
    unfold assign
    dsimp only
    split
    · rfl
    split
    · split
      · rfl
      split
      · rfl
      · rfl
    · rfl

theorem convert_completes {result : Place} (h : result.isReadable) (s : State)
    (source : Operand) : (convert s result source).failure? = none := by
  unfold convert
  split
  · rename_i y type hy htype
    obtain ⟨c, hc⟩ := Place.exists_typeClass h htype
    rw [hc]
    dsimp only
    cases c.converted? y with
    | none => rfl
    | some z => rfl
  · rfl

end Effect

/-- Copies, conversions to types that are understood, and the five operations. -/
def Instr.isIntegral : Instr → Bool
  | .assign _ source => source.isInteger
  | .convert result _ => result.isReadable
  | .binary op _ left right => op.isArithmetic && left.isInteger && right.isInteger
  | _ => false

def Ranges.IsUsable (r : Ranges) : Prop :=
  ∀ e ∈ r.entries, e.2.IsUsable

def Ranges.HasWords (r : Ranges) : Prop :=
  ∀ e ∈ r.entries, e.2.isBottom ∨ e.2.HasWord

namespace Ranges

variable {r earlier : Ranges}

theorem isUsable_iff : r.IsUsable ↔ r.Within IsFloored IsCapped ∧ r.HasWords :=
  ⟨fun h => ⟨fun e he => (h e he).within, fun e he => (h e he).hasWord⟩,
    fun h e he => ⟨h.1 e he, h.2 e he⟩⟩

theorem IsUsable.snapshot (h : r.IsUsable) : r.snapshot.IsUsable :=
  fun e he => h e (List.mem_of_mem_filter he)

theorem IsUsable.getD (h : r.IsUsable) (p : Place) : (r.getD p).IsUsable := by
  unfold Ranges.getD
  cases hp : r.get? p with
  | none => exact .bottom
  | some a => exact h (p, a) (mem_of_get? hp)

end Ranges

theorem Operand.interval_usable {o : Operand} (ho : o.isInteger)
    (hk : ∀ k ∈ o.constants, k.FitsWord) (hs : s.ranges.IsUsable) :
    ∃ a, o.interval s.ranges = .ok a ∧ a.IsUsable := by
  cases o with
  | place p => exact ⟨_, rfl, hs.getD p⟩
  | literal k =>
    cases k with
    | int n =>
      obtain ⟨hlo, hhi⟩ := hk _ (List.mem_singleton_self _) (.int n) n rfl rfl
      obtain ⟨hL, hU⟩ := allowsWords_floored.int hlo hhi
      refine ⟨_, rfl, Interval.within_between hL hU, .inr ⟨n, hlo, hhi, ?_⟩⟩
      exact Interval.contains_between.2 ⟨le_rfl, le_rfl⟩
    | truth | text | empty => cases ho

namespace Instr

variable {i : Instr}

/-- An effect fails only if the interval of an operand is without values. -/
theorem effect_completes (hi : i.isIntegral) (hk : ∀ k ∈ i.constants, k.FitsWord)
    (hp : ∀ p ∈ i.result?, p.IsWordWide) (hs : s.ranges.IsUsable) :
    (i.effect s).failure? = none ∧
      ∀ p z, (i.effect s).store? = some (p, z) → z.Within IsFloored IsCapped := by
  have hw := allowsWords_floored
  have hr : s.ranges.Within IsFloored IsCapped := (Ranges.isUsable_iff.1 hs).1
  cases i with
  | assign result source =>
    exact ⟨Effect.assign_completes hi s result, fun p z h => Effect.assign_within hw hr hk h⟩
  | convert result source =>
    exact ⟨Effect.convert_completes hi s source,
      fun p z h => Effect.convert_within hw hr (hp result rfl) h⟩
  | binary op result left right =>
    rw [isIntegral, Bool.and_eq_true, Bool.and_eq_true] at hi
    obtain ⟨⟨hop, hleft⟩, hright⟩ := hi
    obtain ⟨a, ha, ha'⟩ := Operand.interval_usable hleft
      (fun k hk' => hk k (List.mem_append_left _ hk')) hs
    obtain ⟨b, hb, hb'⟩ := Operand.interval_usable hright
      (fun k hk' => hk k (List.mem_append_right _ hk')) hs
    have heffect : (binary op result left right).effect s =
        Effect.binaryOn s.checked op result left a b := by
      simp only [effect, Effect.binary, ha, hb]
    rw [heffect]
    have hwritable := Operand.isWritable_of_interval ha ha'.isWritable
    refine ⟨Effect.binaryOn_completes hop ha' hb' hwritable _ _, fun p z h => ?_⟩
    rw [Effect.binaryOn_store] at h
    obtain ⟨z', issues, hz', he⟩ := Effect.ofOperation_completes hop ha' hb' result
    rw [he] at h
    cases h
    exact hz'
  | member | builtin | call | condition | other | incomplete => cases hi

end Instr

theorem boundMoved_completes {old new : Option Number} (hold : ∀ x ∈ old, x.IsModerate)
    (hnew : ∀ x ∈ new, x.IsModerate) :
    ∃ moved, boundMoved (some defaultThreshold) old new = .ok moved := by
  unfold boundMoved
  split
  · rename_i x y
    obtain ⟨z, hz⟩ : ∃ z, x.sub y = .ok z := (hold x rfl).arith (hnew y rfl)
    rw [hz]
    exact ⟨_, rfl⟩
  · exact ⟨false, rfl⟩

theorem Interval.IsUsable.movedFrom (ha : a.IsUsable) (hb : b.IsUsable) :
    ∃ moved, a.movedFrom (some defaultThreshold) b = .ok moved := by
  obtain ⟨lo, hlo⟩ := boundMoved_completes ha.lo_isModerate hb.lo_isModerate
  obtain ⟨hi, hhi⟩ := boundMoved_completes ha.hi_isModerate hb.hi_isModerate
  unfold Interval.movedFrom
  rw [hlo, hhi]
  split
  · exact ⟨_, rfl⟩
  cases lo with
  | true => exact ⟨_, rfl⟩
  | false =>
    cases hi with
    | true => exact ⟨_, rfl⟩
    | false => exact ⟨_, rfl⟩

theorem Ranges.IsUsable.changedSince {r earlier : Ranges} (hr : r.IsUsable)
    (hearlier : earlier.IsUsable) :
    ∃ changed, r.changedSince (some defaultThreshold) earlier = .ok changed := by
  obtain ⟨entries⟩ := r
  unfold Ranges.changedSince
  dsimp only
  induction entries with
  | nil => exact ⟨false, rfl⟩
  | cons e l ih =>
    obtain ⟨p, a⟩ := e
    obtain ⟨ha, hl⟩ := List.forall_mem_cons.1 hr
    rw [entriesChanged]
    cases hp : earlier.get? p with
    | none => exact ⟨true, rfl⟩
    | some old =>
      obtain ⟨moved, hmoved⟩ := (hearlier (p, old) (mem_of_get? hp)).movedFrom ha
      dsimp only
      rw [hmoved]
      cases moved with
      | true => exact ⟨true, rfl⟩
      | false => exact ih hl

def Expression.isComplete : Expression → Bool
  | .incomplete _ => false
  | _ => true

namespace Function

variable {f : Function} {step : Step} {cfg : Config}

/-- A function of integer arithmetic, under any conditions. -/
structure IsIntegral (f : Function) : Prop where
  params : ∀ v ∈ f.params, v.place.isReadable
  instrs : ∀ i ∈ f.instrs, i.isIntegral
  conditions : ∀ node ∈ f.nodes, node.isBranch → node.condition.isComplete

theorem addParam_completes {v : Variable} (hv : v.place.isReadable) (r : Ranges) :
    ∃ r', r.addParam v = .ok r' := by
  unfold Ranges.addParam
  split
  · unfold Variable.paramInterval
    cases htype : v.place.lowerType? with
    | none => exact ⟨_, rfl⟩
    | some type =>
      obtain ⟨c, hc⟩ := Place.exists_typeClass hv htype
      rw [Option.elim_some, hc]
      exact ⟨_, rfl⟩
  · exact ⟨r, rfl⟩

theorem IsIntegral.run_completes (hint : f.IsIntegral) (hf : f.FitsWords)
    (hstep : f.Allows Ranges.IsUsable step) (hs : s.ranges.IsUsable) :
    ∃ t, step.run s = .ok () t := by
  cases step with
  | param v =>
    obtain ⟨r, hr⟩ := addParam_completes (hint.params v hstep) s.ranges
    exact ⟨_, trackParam_ok.2 ⟨r, hr, rfl⟩⟩
  | source i => exact ⟨_, rfl⟩
  | result v => exact ⟨_, rfl⟩
  | assume e =>
    obtain ⟨node, hnode, hbranch, rfl⟩ := hstep
    have hcomplete := hint.conditions node hnode hbranch
    cases he : node.condition with
    | binary op left right => cases op <;> exact ⟨_, rfl⟩
    | incomplete part =>
      rw [he] at hcomplete
      cases hcomplete
    | other => exact ⟨_, rfl⟩
  | carry i =>
    have heffect := Instr.effect_completes (hint.instrs i hstep) (hf.constants i hstep)
      (hf.results i hstep) hs
    exact ⟨_, Instr.process_ok_iff.2 ⟨heffect.1, rfl⟩⟩
  | widen earlier => exact ⟨_, rfl⟩
  | compare earlier =>
    obtain ⟨r, hr, rfl⟩ := hstep
    obtain ⟨changed, hchanged⟩ := hs.changedSince hr.snapshot
    exact ⟨s, Step.run_compare_ok hchanged⟩
  | narrow earlier => exact ⟨_, rfl⟩

theorem IsIntegral.step_completes (hint : f.IsIntegral) (hf : f.FitsWords)
    (hstep : f.Allows Ranges.IsUsable step) (hs : s.ranges.IsUsable) :
    ¬ (step.ends s).ranges.HasWords ∨ ∃ t, step.run s = .ok () t ∧ t.ranges.IsUsable := by
  by_cases hwords : (step.ends s).ranges.HasWords
  · obtain ⟨t, ht⟩ := hint.run_completes hf hstep hs
    rw [Step.ends_of_ok ht] at hwords
    have hwithin : (step.ends s).ranges.Within IsFloored IsCapped := by
      have hs' := (Ranges.isUsable_iff.1 hs).1
      apply hf.step_within allowsWords_floored
      · intro i hi p z _ hz
        exact (Instr.effect_completes (hint.instrs i hi) (hf.constants i hi) (hf.results i hi)
          hs).2 p z hz
      · rintro earlier rfl
        obtain ⟨r, hr, rfl⟩ := hstep
        exact hs'.widenFrom (Ranges.isUsable_iff.1 hr.snapshot).1 (.inr rfl) (.inr rfl)
      · exact hstep.mono fun r hr => (Ranges.isUsable_iff.1 hr).1
      · exact hs'
    rw [Step.ends_of_ok ht] at hwithin
    exact .inr ⟨t, ht, Ranges.isUsable_iff.2 ⟨hwithin, hwords⟩⟩
  · exact .inl hwords

/-- The analysis completes, unless it tracks an interval without a machine word in it. -/
theorem analyze_completes (hint : f.IsIntegral) (hf : f.FitsWords) (s : State)
    (hwords : ∀ u ∈ f.passes cfg s, ∀ e ∈ u.ranges.entries, e.2.isBottom ∨ e.2.HasWord) :
    ∃ t, f.analyze cfg s = .ok () t := by
  have hempty : Ranges.empty.IsUsable := fun e he => by cases he
  have hcompletes : (∃ u ∈ f.passes cfg s, ¬ u.ranges.HasWords) ∨
      ∃ t, f.analyze cfg s = .ok () t :=
    f.analyze_completes_or (B := fun r => ¬ r.HasWords) hempty fun step s hstep hs =>
      hint.step_completes hf hstep hs
  rcases hcompletes with ⟨u, hu, hbad⟩ | h
  · exact absurd (hwords u hu) hbad
  · exact h

end Function

/-- A loop that splits off the last decimal digit, and divides by the next number. -/
def splitDigit : Function :=
  .ofNodes [{ Variable.ofType "x" "uint8" with stable := true }] [
    .ofComparison .ge (.var { Variable.ofType "x" "uint8" with stable := true }) 10 [1],
    .ofInstrs [
      .binary .mod (.var (.ofType "d" "uint8"))
        (.place (.var { Variable.ofType "x" "uint8" with stable := true })) (.literal (.int 10)),
      .binary .add (.var (.ofType "e" "uint8")) (.place (.var (.ofType "d" "uint8")))
        (.literal (.int 1)),
      .binary .div (.var (.ofType "q" "uint8"))
        (.place (.var { Variable.ofType "x" "uint8" with stable := true }))
        (.place (.var (.ofType "e" "uint8"))),
      .convert (.var (.ofType "c" "int8")) (.place (.var (.ofType "q" "uint8")))] [0]]

theorem splitDigit_completes :
    splitDigit.IsIntegral ∧ splitDigit.FitsWords ∧
      (∀ u ∈ splitDigit.passes {} .initial, ∀ e ∈ u.ranges.entries,
        e.2.isBottom ∨ e.2.HasWord) ∧
      ∃ t, splitDigit.analyze {} .initial = .ok () t := by
  have hint : splitDigit.IsIntegral := ⟨by decide +kernel, by decide +kernel, by decide +kernel⟩
  have hf : splitDigit.FitsWords := by decide +kernel
  have hwords : ∀ u ∈ splitDigit.passes {} .initial, ∀ e ∈ u.ranges.entries,
      e.2.isBottom ∨ e.2.HasWord := by
    have hcontains : ∀ u ∈ splitDigit.passes {} .initial, ∀ e ∈ u.ranges.entries,
        e.2.contains 1 ∨ e.2.contains 20 := by decide +kernel
    intro u hu e he
    rcases hcontains u hu e he with h | h
    · exact .inr ⟨1, by decide, by decide, h⟩
    · exact .inr ⟨20, by decide, by decide, h⟩
  exact ⟨hint, hf, hwords, Function.analyze_completes hint hf .initial hwords⟩

/-- A quotient by a negative number that has been converted to an unsigned type. -/
def convertedDivisor : Function :=
  .ofNodes [] [.ofInstrs [
    .assign (.var (.ofType "x" "int8")) (.literal (.int (-1))),
    .convert (.var (.ofType "y" "uint8")) (.place (.var (.ofType "x" "int8"))),
    .binary .div (.var (.ofType "z" "uint8")) (.literal (.int 1))
      (.place (.var (.ofType "y" "uint8")))] []]

/-- The conversion leaves crossed bounds, of which zero is one, and the quotients divide by it. -/
theorem convertedDivisor_fails :
    convertedDivisor.IsIntegral ∧ convertedDivisor.FitsWords ∧
      convertedDivisor.analyze {} .initial = .error .integerDivisionByZero
        ⟨⟨[(.var (.ofType "x" "int8"), .point (.int (-1))),
          (.var (.ofType "y" "uint8"), between 0 (.int (-1))),
          (.var (.ofType "z" "uint8"), .unsignedWord)]⟩, [], [], []⟩ :=
  ⟨⟨by decide +kernel, by decide +kernel, by decide +kernel⟩, by decide +kernel, by decide +kernel⟩

end RangeAudit
