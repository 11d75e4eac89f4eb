import RangeAudit.Proofs.Hull
import RangeAudit.Proofs.Parameter
import RangeAudit.Proofs.Trace

open RangeAudit.Interval (leastWord greatestWord between)
open Set (Icc)

namespace RangeAudit

variable {s t : State} {r : Ranges} {op : Operator} {f : Int → Int → Int} {p q : Place}
  {left right o : Operand} {i : Instr} {l : List Instr} {a b : Interval} {x y m n m' n' : Int}
  {v : Variable}

theorem Interval.not_contains_bottom (x : Int) : ¬ Interval.bottom.contains x := by
  simp [Interval.contains, Interval.bottom, Interval.isBottom]

namespace Operator

theorem apply_bottom (h : a = .bottom ∨ b = .bottom) : op.apply a b = .ok .bottom := by
  rcases h with rfl | rfl
  · rfl
  · simp [apply, Interval.bottom, Interval.isBottom]

theorem wordAlarm_bottom (hop : op.exactFunction? = some f) (h : a = .bottom ∨ b = .bottom) :
    op.wordAlarm a b p = .ok none := by
  have hover (g : Number → Number → Except Failure Number) : overflows g a b = .ok false := by
    rcases h with rfl | rfl
    · rfl
    · simp [overflows, Interval.bottom]
  have hunder : underflows a b = false := by
    rcases h with rfl | rfl
    · rfl
    · simp [underflows, Interval.bottom]
  cases op with
  | add => simp [wordAlarm, hover]
  | sub => simp [wordAlarm, hunder]
  | mul => simp [wordAlarm, hover]
  | _ => cases hop

end Operator

def State.tracking (p : Place) (n : Int) : State :=
  { initial with ranges := Ranges.empty.set p (between (.int n) (.int n)) }

namespace Operand

def IsUnknown (r : Ranges) : Operand → Prop
  | .place p => r.get? p = none
  | .literal _ => False

/-- Nothing is known of the operand, or the value lies between its bounds. -/
def MayBe (r : Ranges) (o : Operand) (x : Int) : Prop :=
  o.IsUnknown r ∨ ∃ m n : Int, o.interval r = .ok (between (.int m) (.int n)) ∧ x ∈ Icc m n

def IsReadable (o : Operand) : Prop :=
  ∀ r, ∃ a, o.interval r = .ok a

theorem isReadable_of_interval (h : o.interval r = .ok a) : o.IsReadable := by
  intro r'
  cases o with
  | place p => exact ⟨_, rfl⟩
  | literal k => exact ⟨a, h⟩

theorem IsUnknown.exists_place (h : o.IsUnknown r) : ∃ p, o = .place p ∧ r.getD p = .bottom := by
  cases o with
  | place p =>
    change r.get? p = none at h
    exact ⟨p, rfl, by rw [Ranges.getD, h, Option.getD_none]⟩
  | literal k => cases h

theorem MayBe.isReadable (h : o.MayBe r x) : o.IsReadable := by
  rcases h with h | ⟨m, n, h, -⟩
  · obtain ⟨p, rfl, -⟩ := h.exists_place
    exact fun r' => ⟨_, rfl⟩
  · exact isReadable_of_interval h

end Operand

namespace Effect

theorem operandAlarms_bottom (isChecked : Bool) (hop : op.exactFunction? = some f)
    (h : a = .bottom ∨ b = .bottom) : operandAlarms isChecked op p left a b = .ok [] := by
  cases isChecked with
  | false =>
    simp only [operandAlarms, Operator.wordAlarm_bottom hop h, Operator.zeroAlarm?,
      Operator.isDivision_of_exact hop]
    rfl
  | true =>
    simp only [operandAlarms, Operator.zeroAlarm?, Operator.isDivision_of_exact hop]
    rfl

theorem ofOperation_bottom (h : a = .bottom ∨ b = .bottom) :
    ofOperation op a b p = store p .bottom := by
  have hmeets : op.meetsZero a b = false := by
    rcases h with rfl | rfl <;> simp [Operator.meetsZero, Interval.bottom, Interval.isBottom]
  simp [ofOperation, Operator.divisorAlarm?, hmeets, Issue.raised, Operator.apply_bottom h, store,
    nothing]

theorem binaryOn_bottom (checked : List Place) (hop : op.exactFunction? = some f)
    (h : a = .bottom ∨ b = .bottom) : binaryOn checked op p left a b = store p .bottom := by
  rw [binaryOn, ofOperation_bottom h, operandAlarms_bottom (checked.contains p) hop h]
  rfl

theorem binary_bottom (hop : op.exactFunction? = some f) (ha : left.interval s.ranges = .ok a)
    (hb : right.interval s.ranges = .ok b) (h : a = .bottom ∨ b = .bottom) :
    binary s op p left right = store p .bottom := by
  rw [binary, hb, ha]
  exact binaryOn_bottom s.checked hop h

theorem binary_contains (p : Place) (hop : op.exactFunction? = some f)
    (ha : left.interval s.ranges = .ok (between (.int m) (.int n))) (hx : x ∈ Icc m n)
    (hb : right.interval s.ranges = .ok (between (.int m') (.int n'))) (hy : y ∈ Icc m' n')
    (hlo : leastWord ≤ f x y) (hhi : f x y ≤ greatestWord) :
    ∃ a, (binary s op p left right).store? = some (p, a) ∧ a.contains (f x y) := by
  obtain ⟨a, happly, hull⟩ :=
    Operator.applyBounds_isSaturatedHull hop (hx.1.trans hx.2) (hy.1.trans hy.2)
  rw [← Operator.apply_between] at happly
  refine ⟨a, ?_, hull.coversWords _ ⟨x, hx, y, hy, rfl⟩ hlo hhi⟩
  rw [binary, hb, ha]
  dsimp only
  rw [binaryOn_store]
  simp [ofOperation, Operator.divisorAlarm?, Operator.meetsZero, Operator.isDivision_of_exact hop,
    Issue.raised, happly, store, nothing]

end Effect

namespace Instr

/-- Sums, differences and products, each with the result of the one before as an operand. -/
inductive Chain : Place → List Instr → Place → Prop
  | nil (p : Place) : Chain p [] p
  | cons {p q result : Place} {op : Operator} {f : Int → Int → Int} {left right : Operand}
      {l : List Instr} (hop : op.exactFunction? = some f) (hleft : left.IsReadable)
      (hright : right.IsReadable) (hp : left = .place p ∨ right = .place p)
      (h : Chain result l q) : Chain p (.binary op result left right :: l) q

theorem effect_of_void (hop : op.exactFunction? = some f) (hleft : left.IsReadable)
    (hright : right.IsReadable) (hp : left = .place p ∨ right = .place p)
    (hvoid : s.ranges.getD p = .bottom) :
    (binary op q left right).effect s = .store q .bottom := by
  obtain ⟨a, ha⟩ := hleft s.ranges
  obtain ⟨b, hb⟩ := hright s.ranges
  refine Effect.binary_bottom hop ha hb ?_
  rcases hp with rfl | rfl
  · exact .inl (Except.ok.inj (ha.symm.trans (congrArg Except.ok hvoid)))
  · exact .inr (Except.ok.inj (hb.symm.trans (congrArg Except.ok hvoid)))

/-- Bottom spreads along a chain, and nothing but the intervals changes on the way. -/
theorem chain_run (h : Chain p l q) (hvoid : s.ranges.getD p = .bottom) :
    ∃ r, l.forM process s = .ok () { s with ranges := r } ∧ r.getD q = .bottom := by
  induction h generalizing s with
  | nil p => exact ⟨s.ranges, rfl, hvoid⟩
  | @cons p q result op f left right l hop hleft hright hp h ih =>
    have heffect : (binary op result left right).effect s = .store result .bottom :=
      effect_of_void hop hleft hright hp hvoid
    have hnext : s.apply (.store result .bottom) =
        { s with ranges := s.ranges.set result .bottom } := by
      simp [State.apply, Effect.store, Effect.nothing]
    have hvoid' : (s.apply (.store result .bottom)).ranges.getD result = .bottom := by
      simp [hnext, Ranges.getD]
    obtain ⟨r, hrun, hr⟩ := ih hvoid'
    refine ⟨r, run_cons_ok.2 ⟨?_, ?_⟩, hr⟩
    · rw [heffect]
      rfl
    · rw [heffect, hrun, hnext]

/-- A result holds its value if both operands are tracked, and never if one is not. -/
theorem result_contains_iff_known (hop : op.exactFunction? = some f)
    (hx : left.MayBe s.ranges x) (hy : right.MayBe s.ranges y) (hlo : leastWord ≤ f x y)
    (hhi : f x y ≤ greatestWord) :
    (∃ a, ((Step.carry (binary op p left right)).ends s).ranges.get? p = some a ∧
        (a.contains (f x y) ↔ ¬ left.IsUnknown s.ranges ∧ ¬ right.IsUnknown s.ranges)) ∧
      (left.IsUnknown s.ranges ∨ right.IsUnknown s.ranges → ∀ l q, Chain p l q →
        ∃ r, (binary op p left right :: l).forM process s = .ok () { s with ranges := r } ∧
          r.getD q = .bottom) := by
  rw [Step.ends_carry]
  by_cases hunknown : left.IsUnknown s.ranges ∨ right.IsUnknown s.ranges
  · obtain ⟨u, hu, hvoid⟩ :
        ∃ u, (left = .place u ∨ right = .place u) ∧ s.ranges.getD u = .bottom := by
      rcases hunknown with h | h
      · obtain ⟨u, hu, hvoid⟩ := h.exists_place
        exact ⟨u, .inl hu, hvoid⟩
      · obtain ⟨u, hu, hvoid⟩ := h.exists_place
        exact ⟨u, .inr hu, hvoid⟩
    refine ⟨⟨.bottom, ?_, iff_of_false (Interval.not_contains_bottom _) ?_⟩, fun _ l q hl => ?_⟩
    · rw [effect_of_void hop hx.isReadable hy.isReadable hu hvoid, State.get?_apply s rfl,
        if_pos rfl]
    · exact fun h => hunknown.elim h.1 h.2
    · exact chain_run (.cons hop hx.isReadable hy.isReadable hu hl) hvoid
  · push Not at hunknown
    obtain ⟨m, n, ha, hx⟩ := hx.resolve_left hunknown.1
    obtain ⟨m', n', hb, hy⟩ := hy.resolve_left hunknown.2
    obtain ⟨a, hstore, hcontains⟩ := Effect.binary_contains p hop ha hx hb hy hlo hhi
    refine ⟨⟨a, ?_, iff_of_true hcontains hunknown⟩, fun h => ?_⟩
    · exact (State.get?_apply s hstore p).trans (if_pos rfl)
    · exact absurd h (not_or.2 hunknown)

theorem difference_spreads :
    (∃ a, ((Step.carry (binary .sub (.named "z") (.place (.named "y"))
          (.place (.named "x")))).ends (.tracking (.named "x") 1)).ranges.get? (.named "z") =
        some a ∧ ¬ a.contains (2 - 1)) ∧
      ∃ r, [binary .sub (.named "z") (.place (.named "y")) (.place (.named "x")),
          binary .mul (.named "w") (.place (.named "z")) (.literal (.int 3))].forM process
          (.tracking (.named "x") 1) = .ok () { State.tracking (.named "x") 1 with ranges := r } ∧
        r.getD (.named "w") = .bottom := by
  have hunknown : Operand.IsUnknown (State.tracking (.named "x") 1).ranges (.place (.named "y")) :=
    show Ranges.get? _ _ = none by decide
  have hknown : Operand.MayBe (State.tracking (.named "x") 1).ranges (.place (.named "x")) 1 :=
    .inr ⟨1, 1, rfl, le_rfl, le_rfl⟩
  have hchain : Chain (.named "z")
      [binary .mul (.named "w") (.place (.named "z")) (.literal (.int 3))] (.named "w") :=
    .cons (f := (· * ·)) rfl (fun r => ⟨_, rfl⟩) (fun r => ⟨_, rfl⟩) (.inl rfl) (.nil _)
  obtain ⟨⟨a, ha, hcontains⟩, hspreads⟩ := result_contains_iff_known (p := .named "z")
    (show Operator.sub.exactFunction? = some (· - ·) from rfl) (.inl hunknown) hknown
    (show leastWord ≤ 2 - 1 by decide) (by decide)
  exact ⟨⟨a, ha, fun h => (hcontains.1 h).1 hunknown⟩, hspreads (.inl hunknown) _ _ hchain⟩

/-- One is added to what nothing is known about: three is not among the values of the sum. -/
theorem sum_lacks_value :
    (State.tracking (.named "x") 1).ranges.get? (.named "y") = none ∧
      ((Step.carry (binary .add (.named "z") (.place (.named "x"))
          (.place (.named "y")))).ends (.tracking (.named "x") 1)).ranges.get? (.named "z") =
        some .bottom ∧
      leastWord ≤ 1 + 2 ∧ 1 + 2 ≤ greatestWord ∧ ¬ Interval.bottom.contains (1 + 2) := by
  decide

/-- Copies or conversions of what is not tracked, texts, and kinds that are not analysed. -/
inductive WritesUnknown (r : Ranges) (p : Place) : Instr → Prop
  | copy {v : Variable} {c : TypeClass} (hv : v.HasIntegerType c) (h : r.get? v.place = none) :
      WritesUnknown r p (.assign p (.place v.place))
  | text {word : String} (h : Literal.numeral? word = none) :
      WritesUnknown r p (.assign p (.literal (.text word)))
  | conversion {q : Place} (h : r.get? q = none) : WritesUnknown r p (.convert p (.place q))
  | other {source? : Option Operand} {target : Target} {args : Args}
      (h : target = .absent ∨ args = .missing) :
      WritesUnknown r p (.other (some p) source? target args)

end Instr

namespace State

theorem apply_nothing (s : State) : s.apply .nothing = s := by
  simp [apply, Effect.nothing]

theorem apply_fail (s : State) (e : Failure) : s.apply (.fail e) = s := by
  simp [apply, Effect.fail, Effect.nothing]

end State

theorem Variable.HasIntegerType.lowerType {c : TypeClass} (h : v.HasIntegerType c) :
    ∃ type, v.place.lowerType? = some type ∧ ¬ Text.contains type "address" ∧
      ¬ Text.contains type "bool" := by
  obtain ⟨bits, -, -, ⟨h, -⟩ | ⟨h, -⟩⟩ := h
  · refine ⟨Text.lower (unsignedText bits), ?_, ?_, ?_⟩
    · simp only [Place.lowerType?, Variable.place, Place.type?, h, Option.map_some]
    · exact not_contains_stem 'a' (by decide) (by decide) (by decide) (by decide) bits
    · exact not_contains_stem 'b' (by decide) (by decide) (by decide) (by decide) bits
  · refine ⟨Text.lower (signedText bits), ?_, ?_, ?_⟩
    · simp only [Place.lowerType?, Variable.place, Place.type?, h, Option.map_some]
    · exact not_contains_stem 'a' (by decide) (by decide) (by decide) (by decide) bits
    · exact not_contains_stem 'b' (by decide) (by decide) (by decide) (by decide) bits

namespace Instr

theorem apply_assign_text {word : String} (h : Literal.numeral? word = none) :
    s.apply (Effect.assign s p (.literal (.text word))) = s := by
  unfold Effect.assign
  dsimp only [Literal.assigned]
  by_cases hdigits : Text.isDigits word
  · rw [if_pos hdigits]
    cases hn : Number.readInteger word with
    | error e => exact s.apply_fail e
    | ok n =>
      have hnumeral : Literal.numeral? word = some n :=
        (Literal.numeral?_of_isDigits hdigits).trans (Literal.readInteger_ok hn)
      cases h.symm.trans hnumeral
  · rw [if_neg hdigits, h]
    exact s.apply_nothing

theorem WritesUnknown.apply_effect (h : WritesUnknown s.ranges p i) :
    s.apply (i.effect s) = s := by
  cases h with
  | @copy v c hv hnone =>
    obtain ⟨type, htype, haddress, hbool⟩ := hv.lowerType
    have heffect : Effect.assign s p (.place v.place) = .nothing := by
      simp only [Effect.assign, hnone, htype, haddress, hbool, Bool.false_eq_true, if_false]
    exact (congrArg s.apply heffect).trans s.apply_nothing
  | text h => exact apply_assign_text h
  | @conversion q h =>
    have heffect : Effect.convert s p (.place q) = .nothing := by
      simp only [Effect.convert, Operand.place?, Option.bind_some, h]
    exact (congrArg s.apply heffect).trans s.apply_nothing
  | @other source? target args h =>
    have heffect : Effect.call (some p) target args = .nothing := by
      rcases h with rfl | rfl
      · rfl
      · cases target <;> rfl
    exact (congrArg s.apply heffect).trans s.apply_nothing

/-- Every write of the place is of a value nothing is known about. -/
def WritesOnlyUnknown (p : Place) : List Instr → State → Prop
  | [], _ => True
  | i :: l, s =>
    (i.result? = some p → WritesUnknown s.ranges p i) ∧
      WritesOnlyUnknown p l (s.apply (i.effect s))

def RunEnds (l : List Instr) (s t : State) : Prop :=
  l.forM process s = .ok () t ∨ ∃ e, l.forM process s = .error e t

theorem RunEnds.of_cons (h : RunEnds (i :: l) s t) :
    t = s.apply (i.effect s) ∨ RunEnds l (s.apply (i.effect s)) t := by
  cases hfailure : (i.effect s).failure? with
  | none =>
    have hi : i.process s = .ok () (s.apply (i.effect s)) := process_ok_iff.2 ⟨hfailure, rfl⟩
    simp only [RunEnds, Analysis.forM_cons, Analysis.bind_ok hi] at h
    exact .inr h
  | some e =>
    have hi : i.process s = .error e (s.apply (i.effect s)) := by
      simp only [process, hfailure]
    simp only [RunEnds, Analysis.forM_cons, Analysis.bind_error hi] at h
    obtain h | ⟨e', h⟩ := h
    · cases h
    · cases h
      exact .inl rfl

theorem get?_apply_of_unknown (h : i.result? = some p → WritesUnknown s.ranges p i) :
    (s.apply (i.effect s)).ranges.get? p = s.ranges.get? p := by
  by_cases hp : i.result? = some p
  · rw [(h hp).apply_effect]
  · exact get?_apply_effect s hp

theorem get?_of_writesOnlyUnknown (hl : WritesOnlyUnknown p l s) (h : RunEnds l s t) :
    t.ranges.get? p = s.ranges.get? p := by
  induction l generalizing s with
  | nil =>
    obtain h | ⟨e, h⟩ := h
    · cases h
      rfl
    · cases h
  | cons i l ih =>
    obtain ⟨hi, hl⟩ := hl
    have hstep := get?_apply_of_unknown hi
    obtain rfl | hrest := h.of_cons
    · exact hstep
    · exact (ih hl hrest).trans hstep

end Instr

/-- A variable is not tracked, or its interval has every value of its type. -/
def Ranges.LeavesOpen (r : Ranges) (v : Variable) : Prop :=
  ∀ a, r.get? v.place = some a → ∀ x, v.Admits x → a.contains x

namespace Variable.HasIntegerType

variable {c : TypeClass}

theorem admits_two (h : v.HasIntegerType c) : ∃ x y, x < y ∧ v.Admits x ∧ v.Admits y := by
  have hclass := h.typeClass
  obtain ⟨bits, hbits, -, ⟨-, rfl⟩ | ⟨-, rfl⟩⟩ := h
  · have hpow : 2 ^ 1 ≤ 2 ^ bits := Nat.pow_le_pow_right (by decide) hbits
    refine ⟨0, 1, by decide, ⟨_, hclass, le_rfl, ?_⟩, ⟨_, hclass, by decide, ?_⟩⟩
    · simp only [Nat.pow_eq]
      omega
    · simp only [Nat.pow_eq]
      omega
  · have hpow : 2 ^ 0 ≤ 2 ^ (bits - 1) := Nat.pow_le_pow_right (by decide) (by omega)
    refine ⟨-1, 0, by decide, ⟨_, hclass, hbits, ?_, ?_⟩, ⟨_, hclass, hbits, ?_, ?_⟩⟩ <;>
      simp only [Nat.pow_eq] <;> omega

theorem not_leavesOpen (h : v.HasIntegerType c) (hpoint : r.get? v.place = some (.point (.int n))) :
    ¬ r.LeavesOpen v := by
  intro hopen
  obtain ⟨x, y, hxy, hx, hy⟩ := h.admits_two
  obtain ⟨hnx, -⟩ := Interval.contains_between.1 (hopen _ hpoint x hx)
  obtain ⟨-, hyn⟩ := Interval.contains_between.1 (hopen _ hpoint y hy)
  omega

end Variable.HasIntegerType

namespace Instr

/-- Writes of unknown values leave the interval of a variable as it was. -/
theorem leavesOpen_iff_of_unknown (hl : WritesOnlyUnknown v.place l s) (h : RunEnds l s t) :
    t.ranges.get? v.place = s.ranges.get? v.place ∧
      (t.ranges.LeavesOpen v ↔ s.ranges.LeavesOpen v) ∧
      ∀ c n, v.HasIntegerType c → s.ranges.get? v.place = some (.point (.int n)) →
        ¬ t.ranges.LeavesOpen v := by
  have hkept := get?_of_writesOnlyUnknown hl h
  refine ⟨hkept, ?_, fun c n hv hpoint => hv.not_leavesOpen (hkept.trans hpoint)⟩
  rw [Ranges.LeavesOpen, hkept, Ranges.LeavesOpen]

end Instr

def Variable.octet (name : String) : Variable :=
  .ofType name "uint8"

theorem Variable.hasIntegerType_octet (name : String) :
    (octet name).HasIntegerType (.unsigned 8) :=
  ⟨8, by decide, by decide, .inl ⟨show some "uint8" = some (unsignedText 8) by decide, rfl⟩⟩

namespace Instr

def unknownCopies : List Instr :=
  [assign (Variable.octet "v").place (.place (Variable.octet "y").place),
    binary .add (.named "w") (.place (Variable.octet "v").place) (.literal (.int 1)),
    convert (Variable.octet "v").place (.place (Variable.octet "y").place)]

theorem unknownCopies_leave_constant :
    ∃ t, unknownCopies.forM process (.tracking (Variable.octet "v").place 1) = .ok () t ∧
      t.ranges.get? (Variable.octet "v").place = some (.point 1) ∧
      ¬ t.ranges.LeavesOpen (.octet "v") := by
  have hend : (unknownCopies.forM process).completes (.tracking (Variable.octet "v").place 1) := by
    decide
  have hwrites : WritesOnlyUnknown (Variable.octet "v").place unknownCopies
      (.tracking (Variable.octet "v").place 1) :=
    ⟨fun _ => .copy (Variable.hasIntegerType_octet "y") (by decide),
      fun h => absurd h (by decide), fun _ => .conversion (by decide), trivial⟩
  obtain ⟨_, t, ht⟩ := Analysis.completes_iff.1 hend
  obtain ⟨hkept, -, hstale⟩ := leavesOpen_iff_of_unknown hwrites (.inl ht)
  exact ⟨t, ht, hkept, hstale _ 1 (Variable.hasIntegerType_octet "v") rfl⟩

/-- A constant stays after a copy of what is not tracked: two is not among the values. -/
theorem copy_leaves_constant :
    (State.tracking (Variable.octet "v").place 1).ranges.get? (Variable.octet "y").place = none ∧
      ((Step.carry (assign (Variable.octet "v").place
          (.place (Variable.octet "y").place))).ends
        (.tracking (Variable.octet "v").place 1)).ranges.get? (Variable.octet "v").place =
          some (.point 1) ∧
      (Variable.octet "v").Admits 2 ∧ ¬ (Interval.point 1).contains 2 := by
  refine ⟨by decide, by decide, ⟨.unsigned 8, ?_, by decide, by decide⟩, by decide⟩
  exact (Variable.hasIntegerType_octet "v").typeClass

end Instr

end RangeAudit
