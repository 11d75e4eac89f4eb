import RangeAudit.Proofs.Truncation
import RangeAudit.Proofs.ZeroDivisor

open RangeAudit.Interval (leastWord greatestWord between word)
open Set (Icc image2)

namespace RangeAudit

variable {s : State} {op : Operator} {p : Place} {left right : Operand} {l r i j : Interval}
  {a b c d : Int} {results : Set Int} {callee : Callee} {name t : String}

namespace Interval

/-- What is known of the results of an operator of which only the operands are known. -/
def spread (l r : Interval) : Interval :=
  if l.isBottom || r.isBottom then bottom
  else if l.isTop || r.isTop then top
  else word

theorem trivial_of_ends (h : (l.isBottom || r.isBottom) ∨ (l.isTop || r.isTop)) :
    ¬ (l.isNontrivial ∧ r.isNontrivial) := by
  grind [isNontrivial]

theorem spread_of_isNontrivial (hl : l.isNontrivial) (hr : r.isNontrivial) : spread l r = word := by
  simp only [isNontrivial, Bool.and_eq_true, Bool.not_eq_true'] at hl hr
  simp [spread, hl, hr]

theorem isNontrivial_between (a b : Int) : (between (.int a) (.int b)).isNontrivial := by
  simp [isNontrivial, between, isBottom, isTop, boundIs]

theorem word_same_between :
    word.same (between (.int a) (.int b)) ↔ leastWord = a ∧ greatestWord = b := by
  simp [same, word, between, isBottom, isTop, boundIs, sameBound]

/-- Some results lie at the least word or below it, and some at the greatest word or above it. -/
def ReachesEnds (results : Set Int) : Prop :=
  (∃ v ∈ results, v ≤ leastWord) ∧ ∃ v ∈ results, greatestWord ≤ v

theorem IsSaturatedHull.word_same_iff (h : i.IsSaturatedHull results) :
    word.same i ↔ ReachesEnds results := by
  obtain ⟨lo, hi, hlo, hhi, rfl⟩ := h
  rw [word_same_between, eq_comm, max_eq_right_iff, eq_comm, min_eq_right_iff]
  constructor
  · rintro ⟨hleast, hgreatest⟩
    exact ⟨⟨lo, hlo.1, hleast⟩, ⟨hi, hhi.1, hgreatest⟩⟩
  · rintro ⟨⟨v, hv, hleast⟩, ⟨w, hw, hgreatest⟩⟩
    exact ⟨(hlo.2 hv).trans hleast, hgreatest.trans (hhi.2 hw)⟩

end Interval

namespace Corners

theorem not_word_same_remainders (reach a b : Int) : ¬ word.same (remainders reach a b) := by
  have hleast : leastWord < 0 := Interval.leastWord_neg
  have hgreatest : -leastWord < greatestWord := by decide
  unfold remainders
  split
  · rw [Interval.word_same_between]
    omega
  split
  · rw [Interval.word_same_between]
    omega
  · rw [Interval.word_same_between]
    omega

theorem not_word_same_mod (hcd : c ≤ d) :
    ¬ word.same (mod ⟨.int a, .int b, .int c, .int d⟩) := by
  rcases lt_or_ge 0 c with hc | hc
  · rw [mod_of_pos hc]
    exact not_word_same_remainders _ a b
  rcases lt_or_ge d 0 with hd | hd
  · rw [mod_of_neg hcd hd]
    exact not_word_same_remainders _ a b
  · rw [mod_of_zero_mem ⟨hc, hd⟩]
    decide

end Corners

namespace Operator

def namedBy? : String → Option Operator
  | "add" => some .add
  | "sub" => some .sub
  | "mul" => some .mul
  | "div" => some .div
  | "mod" => some .mod
  | _ => none

theorem mem_arithmeticNames (h : namedBy? name = some op) : name ∈ Effect.arithmeticNames := by
  unfold namedBy? at h
  split at h <;> first | decide | cases h

theorem apply_unknown (text : String) (l r : Interval) :
    (unknown text).apply l r = .ok (l.spread r) := by
  unfold apply Interval.spread
  split
  · rfl
  split
  · rfl
  · rfl

def Agrees (op : Operator) (l r i : Interval) : Prop :=
  ∃ j, op.Gives l r j ∧ i.same j

theorem agrees_iff (hwarn : op.CanWarn l r) (h : op.apply l r = .ok j) :
    op.Agrees l r i ↔ i.same j := by
  constructor
  · rintro ⟨j', hj, hsame⟩
    cases h.symm.trans (gives_iff.1 hj).2
    exact hsame
  · intro hsame
    exact ⟨j, hwarn.gives h, hsame⟩

theorem canWarn_of_trivial (h : ¬ (l.isNontrivial ∧ r.isNontrivial)) : op.CanWarn l r := by
  cases hop : op.isDivision with
  | false => exact canWarn_of_not_isDivision hop
  | true => exact fun hmeets => absurd ((meetsZero_iff hop).1 hmeets).2 h

theorem agrees_spread_of_isBottom (h : l.isBottom || r.isBottom) :
    op.Agrees l r (l.spread r) := by
  have hwarn : op.CanWarn l r := canWarn_of_trivial (Interval.trivial_of_ends (.inl h))
  have happly : op.apply l r = .ok .bottom := if_pos h
  rw [agrees_iff hwarn happly, Interval.spread, if_pos h]
  rfl

theorem agrees_spread_iff_of_isTop (hbottom : ¬ (l.isBottom || r.isBottom))
    (htop : l.isTop || r.isTop) :
    op.Agrees l r (l.spread r) ↔ ¬ (op.isDivision && r.isTop) := by
  have hwarn : op.CanWarn l r := canWarn_of_trivial (Interval.trivial_of_ends (.inr htop))
  rw [Interval.spread, if_neg hbottom, if_pos htop]
  by_cases hdivision : op.isDivision && r.isTop
  · have happly : op.apply l r = .ok .unsignedWord := by
      rw [apply, if_neg hbottom, if_pos htop, if_pos hdivision]
    rw [agrees_iff hwarn happly]
    exact iff_of_false (by decide) (not_not.2 hdivision)
  · have happly : op.apply l r = .ok .top := by
      rw [apply, if_neg hbottom, if_pos htop, if_neg hdivision]
    rw [agrees_iff hwarn happly]
    exact iff_of_true (by decide) hdivision

/-- An operand is bottom, one that is no divisor is top, or all words are possible results. -/
theorem agrees_spread_iff (op : Operator) (l r : Interval) :
    op.Agrees l r (l.spread r) ↔ (l.isBottom ∨ r.isBottom) ∨
      (l.isTop ∨ r.isTop) ∧ ¬ (op.isDivision ∧ r.isTop) ∨
      (l.isNontrivial ∧ r.isNontrivial) ∧ op.Agrees l r word := by
  by_cases hbottom : l.isBottom || r.isBottom
  · exact iff_of_true (agrees_spread_of_isBottom hbottom) (.inl (Bool.or_eq_true_iff.1 hbottom))
  by_cases htop : l.isTop || r.isTop
  · have htrivial := Interval.trivial_of_ends (.inr htop)
    rw [agrees_spread_iff_of_isTop hbottom htop, Bool.and_eq_true]
    rw [Bool.or_eq_true] at hbottom htop
    tauto
  · have hnontrivial : l.isNontrivial ∧ r.isNontrivial := by
      simp only [Bool.or_eq_true, not_or, Bool.not_eq_true] at hbottom htop
      simp [Interval.isNontrivial, hbottom, htop]
    rw [Interval.spread_of_isNontrivial hnontrivial.1 hnontrivial.2]
    rw [Bool.or_eq_true] at hbottom htop
    tauto

/-- Whether the results reach both ends of the machine word. -/
def FillsWord (op : Operator) (s t : Set Int) : Prop :=
  match op with
  | .add => Interval.ReachesEnds (image2 (· + ·) s t)
  | .sub => Interval.ReachesEnds (image2 (· - ·) s t)
  | .mul => Interval.ReachesEnds (image2 (· * ·) s t)
  | .div => 0 ∈ t ∨ Interval.ReachesEnds (image2 Int.fdiv s t ∪ Corners.extremeValues s t)
  | _ => False

theorem agrees_between_iff
    (h : op.applyBounds (between (.int a) (.int b)) (between (.int c) (.int d)) = .ok j) :
    op.Agrees (between (.int a) (.int b)) (between (.int c) (.int d)) i ↔ i.same j ∧
      (op.isDivision → (0 : Int) ∈ Icc c d → (between (.int c) (.int d)).isWritable) := by
  constructor
  · rintro ⟨j', hj, hsame⟩
    obtain ⟨hwarn, hj⟩ := gives_between_iff.1 hj
    cases h.symm.trans hj
    exact ⟨hsame, hwarn⟩
  · rintro ⟨hsame, hwarn⟩
    exact ⟨j, gives_between_iff.2 ⟨hwarn, h⟩, hsame⟩

theorem word_same_iff_of_exact {f : Int → Int → Int} (hop : op.exactFunction? = some f)
    (hab : a ≤ b) (hcd : c ≤ d) :
    ∃ j, op.applyBounds (between (.int a) (.int b)) (between (.int c) (.int d)) = .ok j ∧
      (word.same j ↔ Interval.ReachesEnds (image2 f (Icc a b) (Icc c d))) := by
  obtain ⟨j, hj, hull⟩ := applyBounds_isSaturatedHull hop hab hcd
  exact ⟨j, hj, hull.word_same_iff⟩

theorem word_same_iff_div (hab : a ≤ b) (hcd : c ≤ d) :
    ∃ j, Corners.div ⟨.int a, .int b, .int c, .int d⟩ = .ok j ∧
      (word.same j ↔ Operator.div.FillsWord (Icc a b) (Icc c d)) := by
  by_cases h0 : (0 : Int) ∈ Icc c d
  · exact ⟨word, Corners.div_of_zero_mem h0, iff_of_true (by decide) (.inl h0)⟩
  · obtain ⟨j, hj, hull⟩ := Corners.div_isSaturatedHull hab hcd h0
    refine ⟨j, hj, ?_⟩
    rw [hull.word_same_iff]
    exact (or_iff_right h0).symm

theorem word_same_iff (hop : namedBy? name = some op) (hab : a ≤ b) (hcd : c ≤ d) :
    ∃ j, op.applyBounds (between (.int a) (.int b)) (between (.int c) (.int d)) = .ok j ∧
      (word.same j ↔ op.FillsWord (Icc a b) (Icc c d)) := by
  cases op with
  | add => exact word_same_iff_of_exact rfl hab hcd
  | sub => exact word_same_iff_of_exact rfl hab hcd
  | mul => exact word_same_iff_of_exact rfl hab hcd
  | div => exact word_same_iff_div hab hcd
  | mod => exact ⟨_, rfl, iff_of_false (Corners.not_word_same_mod hcd) id⟩
  | pow | shl | shr | compare | logic | unknown =>
    unfold namedBy? at hop
    split at hop <;> cases hop

theorem agrees_word_iff (hop : namedBy? name = some op) (hab : a ≤ b) (hcd : c ≤ d) :
    op.Agrees (between (.int a) (.int b)) (between (.int c) (.int d)) word ↔
      op.FillsWord (Icc a b) (Icc c d) ∧
        (op.isDivision → (0 : Int) ∈ Icc c d → (between (.int c) (.int d)).isWritable) := by
  obtain ⟨j, hj, hsame⟩ := word_same_iff hop hab hcd
  rw [agrees_between_iff hj, hsame]

end Operator

namespace Effect

/-- The call stores what its two arguments alone say, and raises no alarm. -/
theorem builtin_of_namedBy (hname : callee.name = .given name)
    (hop : Operator.namedBy? (Text.lower name) = some op)
    (hleft : left.argument? s.ranges = some l) (hright : right.argument? s.ranges = some r) :
    builtin s (some p) (.known callee) (.given [left, right]) =
      { store p (l.spread r) with
        checked? := if isCheckedLibrary callee then some p else none } := by
  have hmem := Operator.mem_arithmeticNames hop
  obtain ⟨text, htext⟩ := Operator.ofText_arithmetic hmem
  have hargs : [left, right].mapM (·.argument? s.ranges) = some [l, r] := by
    simp [hleft, hright]
  have hoperation : ofOperation (.unknown text) l r p = store p (l.spread r) := by
    simp [ofOperation, Operator.divisorAlarm?, Operator.meetsZero, Operator.isDivision,
      Issue.raised, Operator.apply_unknown, store, nothing]
  simp only [builtin, hname, builtinNamed, if_pos (List.contains_iff_mem.2 hmem), withArgs,
    arithmeticCall, hargs, htext, hoperation]
  cases isCheckedLibrary callee with
  | false => rfl
  | true => rfl

end Effect

namespace Instr

/-- The call agrees with the operator on bottom, on top, or where the results fill the word. -/
theorem call_agrees_iff (hname : callee.name = .given name)
    (hop : Operator.namedBy? (Text.lower name) = some op)
    (hleft : left.argument? s.ranges = some l) (hright : right.argument? s.ranges = some r) :
    (builtin (some p) (.known callee) (.given [left, right]) t).process s =
        .ok () { s with
          ranges := s.ranges.set p (l.spread r)
          checked := if Effect.isCheckedLibrary callee then insertPlace s.checked p
            else s.checked } ∧
      (op.Agrees l r (l.spread r) ↔ (l.isBottom ∨ r.isBottom) ∨
        (l.isTop ∨ r.isTop) ∧ ¬ (op.isDivision ∧ r.isTop) ∨
        (l.isNontrivial ∧ r.isNontrivial) ∧ op.Agrees l r word) ∧
      ∀ a b c d : Int, a ≤ b → c ≤ d → l = between (.int a) (.int b) →
        r = between (.int c) (.int d) →
          (op.Agrees l r (l.spread r) ↔ op.FillsWord (Icc a b) (Icc c d) ∧
            (op.isDivision → (0 : Int) ∈ Icc c d → r.isWritable)) := by
  refine ⟨?_, op.agrees_spread_iff l r, ?_⟩
  · rw [process, effect, Effect.builtin_of_namedBy hname hop hleft hright]
    cases Effect.isCheckedLibrary callee <;> simp [State.apply, Effect.store, Effect.nothing]
  · rintro a b c d hab hcd rfl rfl
    rw [Interval.spread_of_isNontrivial (Interval.isNontrivial_between a b)
      (Interval.isNontrivial_between c d)]
    exact Operator.agrees_word_iff hop hab hcd

theorem twiceByName_agrees :
    (builtin (some (.named "z")) (.known ⟨.given "Mul", some "SafeMath", none, .missing⟩)
        (.given [.place (.named "x"), .literal (.int 2)]) "").process
        (.ofEntries [(.named "x", word)]) =
      .ok () { State.ofEntries [(.named "x", word), (.named "z", word)] with
        checked := [.named "z"] } ∧
      Operator.mul.Agrees word (.point 2) word := by
  let s : State := .ofEntries [(.named "x", word)]
  have hleft : (Operand.place (.named "x")).argument? s.ranges = some word := rfl
  have hright : (Operand.literal (.int 2)).argument? s.ranges = some (.point (.int 2)) := rfl
  have hname : Callee.name ⟨.given "Mul", some "SafeMath", none, .missing⟩ = .given "Mul" := rfl
  have hop : Operator.namedBy? (Text.lower "Mul") = some .mul := by decide
  obtain ⟨hprocess, -, hagrees⟩ :=
    call_agrees_iff (p := .named "z") (t := "") hname hop hleft hright
  refine ⟨hprocess.trans (by decide),
    (hagrees _ _ 2 2 (by decide) le_rfl rfl rfl).2 ⟨⟨?_, ?_⟩, by decide⟩⟩
  · exact ⟨leastWord * 2, ⟨leastWord, ⟨le_rfl, by decide⟩, 2, by decide, rfl⟩, by decide⟩
  · exact ⟨greatestWord * 2, ⟨greatestWord, ⟨by decide, le_rfl⟩, 2, by decide, rfl⟩, by decide⟩

/-- Two and three added by name may be anything; the operator gives five. -/
theorem sumByName_disagrees :
    (builtin (some (.named "z")) (.known ⟨.given "add", some "SafeMath", none, .missing⟩)
        (.given [.place (.named "x"), .place (.named "y")]) "").process
        (.ofEntries [(.named "x", .point 2), (.named "y", .point 3)]) =
      .ok () { State.ofEntries [(.named "x", .point 2), (.named "y", .point 3),
          (.named "z", word)] with checked := [.named "z"] } ∧
      Operator.add.Gives (.point 2) (.point 3) (.point 5) ∧ ¬ word.same (.point 5) :=
  ⟨by decide, (Operator.canWarn_of_not_isDivision rfl).gives (by decide), by decide⟩

end Instr

end RangeAudit
