import RangeAudit.Proofs.Membership

open RangeAudit.Interval (between)
open Set (Icc)

namespace RangeAudit

variable {s : State} {r : Ranges} {p : Place} {args : List Operand} {callee : Callee}
  {name t : String} {a b v : Int} {e : Int × Int} {ends : List (Int × Int)}

section Forall₂

variable {α β : Type} {R : α → β → Prop} {l : List α} {m : List β}

theorem exists_right_of_forall₂ (h : List.Forall₂ R l m) : ∀ x ∈ l, ∃ y ∈ m, R x y := by
  induction h with
  | nil => exact List.forall_mem_nil _
  | @cons x y l m hxy h ih =>
    intro z hz
    rcases List.mem_cons.1 hz with rfl | hz
    · exact ⟨y, List.mem_cons_self, hxy⟩
    · obtain ⟨w, hw, hzw⟩ := ih z hz
      exact ⟨w, List.mem_cons_of_mem y hw, hzw⟩

theorem exists_left_of_forall₂ (h : List.Forall₂ R l m) : ∀ y ∈ m, ∃ x ∈ l, R x y :=
  exists_right_of_forall₂ h.flip

end Forall₂

/-- One value from each of the ranges between the given ends. -/
def IsChoice (ends : List (Int × Int)) (values : List Int) : Prop :=
  List.Forall₂ (fun e x => x ∈ Icc e.1 e.2) ends values

/-- The least of some choice of values. -/
def IsLeastChoice (ends : List (Int × Int)) (v : Int) : Prop :=
  ∃ values, IsChoice ends values ∧ IsLeast {x | x ∈ values} v

def IsGreatestChoice (ends : List (Int × Int)) (v : Int) : Prop :=
  ∃ values, IsChoice ends values ∧ IsGreatest {x | x ∈ values} v

theorem isChoice_map {g : Int × Int → Int} (h : ∀ e ∈ ends, g e ∈ Icc e.1 e.2) :
    IsChoice ends (ends.map g) :=
  List.forall₂_map_right_iff.2 (List.forall₂_same.2 h)

theorem isLeastChoice_iff (hle : ∀ e ∈ ends, e.1 ≤ e.2) :
    IsLeastChoice ends v ↔ (∃ e ∈ ends, e.1 ≤ v) ∧ ∀ e ∈ ends, v ≤ e.2 := by
  constructor
  · rintro ⟨values, hchoice, hmem, hleast⟩
    constructor
    · obtain ⟨e, he, hv⟩ := exists_left_of_forall₂ hchoice v hmem
      exact ⟨e, he, hv.1⟩
    · intro e he
      obtain ⟨x, hx, hxe⟩ := exists_right_of_forall₂ hchoice e he
      exact (hleast hx).trans hxe.2
  · rintro ⟨⟨e, he, hev⟩, hhi⟩
    -- Every range gives the value next to `v`, and the one that begins below it gives `v`.
    refine ⟨ends.map fun e => max e.1 v, isChoice_map fun e he => ?_, ?_, ?_⟩
    · exact ⟨le_max_left _ _, max_le (hle e he) (hhi e he)⟩
    · exact List.mem_map.2 ⟨e, he, max_eq_right hev⟩
    · intro x hx
      obtain ⟨e', -, rfl⟩ := List.mem_map.1 hx
      exact le_max_right _ _

theorem isGreatestChoice_iff (hle : ∀ e ∈ ends, e.1 ≤ e.2) :
    IsGreatestChoice ends v ↔ (∀ e ∈ ends, e.1 ≤ v) ∧ ∃ e ∈ ends, v ≤ e.2 := by
  constructor
  · rintro ⟨values, hchoice, hmem, hgreatest⟩
    constructor
    · intro e he
      obtain ⟨x, hx, hxe⟩ := exists_right_of_forall₂ hchoice e he
      exact hxe.1.trans (hgreatest hx)
    · obtain ⟨e, he, hv⟩ := exists_left_of_forall₂ hchoice v hmem
      exact ⟨e, he, hv.2⟩
  · rintro ⟨hlo, ⟨e, he, hve⟩⟩
    refine ⟨ends.map fun e => min e.2 v, isChoice_map fun e he => ?_, ?_, ?_⟩
    · exact ⟨le_min (hle e he) (hlo e he), min_le_left _ _⟩
    · exact List.mem_map.2 ⟨e, he, min_eq_right hve⟩
    · intro x hx
      obtain ⟨e', -, rfl⟩ := List.mem_map.1 hx
      exact min_le_right _ _

theorem exists_isLeastChoice (hle : ∀ e' ∈ e :: ends, e'.1 ≤ e'.2) :
    ∃ v, IsLeastChoice (e :: ends) v ∧ ∀ e' ∈ e :: ends, v ≤ e'.1 := by
  obtain ⟨v, hv⟩ : ∃ v, IsLeast {x | x ∈ (e :: ends).map Prod.fst} v :=
    ⟨_, List.min?_eq_some_iff.1 List.min?_cons'⟩
  refine ⟨v, ⟨_, isChoice_map fun e' he => ⟨le_rfl, hle e' he⟩, hv⟩, fun e' he => ?_⟩
  exact hv.2 (List.mem_map_of_mem he)

theorem forall_isLeastChoice_iff (hle : ∀ e' ∈ e :: ends, e'.1 ≤ e'.2) :
    (∀ v, IsLeastChoice (e :: ends) v → e.1 ≤ v) ↔ ∀ e' ∈ ends, e.1 ≤ e'.1 := by
  constructor
  · intro hall e' he
    obtain ⟨v, hv, hleast⟩ := exists_isLeastChoice hle
    exact (hall v hv).trans (hleast e' (List.mem_cons_of_mem e he))
  · intro hfirst v hv
    obtain ⟨⟨e', he, hlo⟩, -⟩ := (isLeastChoice_iff hle).1 hv
    rcases List.mem_cons.1 he with rfl | he
    · exact hlo
    · exact (hfirst e' he).trans hlo

def IsBound (bound : Option Number) (n : Int) : Prop :=
  ∃ x, bound = some x ∧ x.toInt? = some n

/-- The values of the two bounds of an interval. -/
structure Interval.HasEnds (i : Interval) (e : Int × Int) : Prop where
  lo : IsBound i.lo e.1
  hi : IsBound i.hi e.2

theorem Interval.HasEnds.contains_iff {i : Interval} (h : i.HasEnds e) :
    i.contains v ↔ e.1 ≤ v ∧ v ≤ e.2 := by
  obtain ⟨⟨x, hx, hlo⟩, ⟨y, hy, hhi⟩⟩ := h
  have hv : (Number.int v).toInt? = some v := rfl
  rw [Interval.contains_iff, isBottom, hx, hy]
  simp [Number.le_of_toInt? hlo hv, Number.le_of_toInt? hv hhi]

def Operand.IsBetween (r : Ranges) (o : Operand) (e : Int × Int) : Prop :=
  ∃ i, o.argument? r = some i ∧ i.HasEnds e ∧ e.1 ≤ e.2

theorem Operand.IsBetween.ends_le (h : List.Forall₂ (IsBetween r) args ends) :
    ∀ e ∈ ends, e.1 ≤ e.2 := by
  intro e he
  obtain ⟨o, -, i, -, -, hle⟩ := exists_left_of_forall₂ h e he
  exact hle

theorem Operand.forall₂_argument? (h : List.Forall₂ (IsBetween r) args ends) :
    List.Forall₂ Interval.HasEnds (args.filterMap (·.argument? r)) ends := by
  induction h with
  | nil => exact .nil
  | @cons o e args ends ho h ih =>
    obtain ⟨i, hi, hends, -⟩ := ho
    rw [List.filterMap_cons_some hi]
    exact .cons hends ih

namespace Number

variable {y z : Number} {m n : Int}

theorem least_toInt? (hy : y.toInt? = some m) (hz : z.toInt? = some n) :
    (y.least z).toInt? = some (min m n) := by
  unfold least
  split
  · rename_i hlt
    rw [hz, min_eq_right ((lt_of_toInt? hz hy).1 hlt).le]
  · rename_i hlt
    rw [hy, min_eq_left (not_lt.1 (mt (lt_of_toInt? hz hy).2 hlt))]

theorem greatest_toInt? (hy : y.toInt? = some m) (hz : z.toInt? = some n) :
    (y.greatest z).toInt? = some (max m n) := by
  unfold greatest
  split
  · rename_i hlt
    rw [hz, max_eq_right ((lt_of_toInt? hy hz).1 hlt).le]
  · rename_i hlt
    rw [hy, max_eq_left (not_lt.1 (mt (lt_of_toInt? hy hz).2 hlt))]

end Number

namespace Effect

variable {bounds : List (Option Number)} {l : List Interval} {n : Int} {values : List Int}

theorem choose_isBound {pick : Number → Number → Number} {f : Int → Int → Int}
    (hpick : ∀ {y z m n}, y.toInt? = some m → z.toInt? = some n →
      (pick y z).toInt? = some (f m n))
    (choice : String) (h : List.Forall₂ IsBound bounds (n :: values)) :
    ∃ y, choose choice pick bounds = .ok y ∧ y.toInt? = some (values.foldl f n) := by
  cases h with
  | @cons _ _ bounds _ hfirst hrest =>
    obtain ⟨x, rfl, hx⟩ := hfirst
    refine ⟨(bounds.filterMap id).foldl pick x, rfl, ?_⟩
    induction hrest generalizing x n with
    | nil => exact hx
    | @cons _ m bounds values hbound hrest ih =>
      obtain ⟨y, rfl, hy⟩ := hbound
      exact ih (pick x y) (hpick hx hy)

theorem choose_least (choice : String) (h : List.Forall₂ IsBound bounds (n :: values)) :
    ∃ y m, choose choice .least bounds = .ok y ∧ y.toInt? = some m ∧
      IsLeast {x | x ∈ n :: values} m := by
  obtain ⟨y, hy, hm⟩ := choose_isBound Number.least_toInt? choice h
  exact ⟨y, _, hy, hm, List.min?_eq_some_iff.1 List.min?_cons'⟩

theorem choose_greatest (choice : String) (h : List.Forall₂ IsBound bounds (n :: values)) :
    ∃ y m, choose choice .greatest bounds = .ok y ∧ y.toInt? = some m ∧
      IsGreatest {x | x ∈ n :: values} m := by
  obtain ⟨y, hy, hm⟩ := choose_isBound Number.greatest_toInt? choice h
  exact ⟨y, _, hy, hm, List.max?_eq_some_iff.1 List.max?_cons'⟩

theorem forall₂_hi (h : List.Forall₂ Interval.HasEnds l ends) :
    List.Forall₂ IsBound (l.map (·.hi)) (ends.map Prod.snd) :=
  List.forall₂_map_left_iff.2 (List.forall₂_map_right_iff.2 (h.imp fun _ _ he => he.hi))

theorem forall₂_lo (h : List.Forall₂ Interval.HasEnds l ends) :
    List.Forall₂ IsBound (l.map (·.lo)) (ends.map Prod.fst) :=
  List.forall₂_map_left_iff.2 (List.forall₂_map_right_iff.2 (h.imp fun _ _ he => he.lo))

/-- The values from the first lower end to the least upper one. -/
theorem leastInterval_contains_iff {first : Interval}
    (h : List.Forall₂ Interval.HasEnds (first :: l) (e :: ends)) :
    ∃ i, leastInterval first l = .ok i ∧
      ∀ v, i.contains v ↔ e.1 ≤ v ∧ ∀ e' ∈ e :: ends, v ≤ e'.2 := by
  obtain ⟨hfirst, -⟩ := List.forall₂_cons.1 h
  obtain ⟨y, m, hy, hm, hleast⟩ := choose_least "min" (forall₂_hi h)
  rw [← List.map_cons] at hleast
  refine ⟨⟨first.lo, some y⟩, by rw [leastInterval, hy]; rfl, fun v => ?_⟩
  have hends : (⟨first.lo, some y⟩ : Interval).HasEnds (e.1, m) := ⟨hfirst.lo, y, rfl, hm⟩
  rw [hends.contains_iff, le_isGLB_iff hleast.isGLB, mem_lowerBounds]
  exact and_congr_right fun _ => List.forall_mem_map

theorem greatestInterval_contains_iff {first : Interval}
    (h : List.Forall₂ Interval.HasEnds (first :: l) (e :: ends)) :
    ∃ i, greatestInterval first l = .ok i ∧
      ∀ v, i.contains v ↔ (∀ e' ∈ e :: ends, e'.1 ≤ v) ∧ ∃ e' ∈ e :: ends, v ≤ e'.2 := by
  obtain ⟨x, k, hx, hk, hlower⟩ := choose_greatest "max" (forall₂_lo h)
  obtain ⟨y, m, hy, hm, hupper⟩ := choose_greatest "max" (forall₂_hi h)
  rw [← List.map_cons] at hlower hupper
  refine ⟨between x y, by rw [greatestInterval, hy, hx]; rfl, fun v => ?_⟩
  have hends : (between x y).HasEnds (k, m) := ⟨⟨x, rfl, hk⟩, ⟨y, rfl, hm⟩⟩
  rw [hends.contains_iff, isLUB_le_iff hlower.isLUB, mem_upperBounds]
  refine and_congr List.forall_mem_map ?_
  constructor
  · intro hv
    obtain ⟨e', he, heq⟩ := List.mem_map.1 hupper.1
    exact ⟨e', he, heq ▸ hv⟩
  · rintro ⟨e', he, hv⟩
    exact hv.trans (hupper.2 (List.mem_map_of_mem he))

theorem choiceCall_eq {interval : Interval → List Interval → Except Failure Interval}
    {first second i : Interval} (h : args.filterMap (·.argument? s.ranges) = first :: second :: l)
    (hi : interval first (second :: l) = .ok i) :
    choiceCall s (some p) interval args = store p i := by
  simp only [choiceCall, h, hi, storeAt]

end Effect

namespace Instr

theorem process_of_store {i : Instr} {a : Interval} (h : i.effect s = .store p a) :
    i.process s = .ok () { s with ranges := s.ranges.set p a } := by
  simp [process, h, State.apply, Effect.store, Effect.nothing]

/-- The greatest has exactly its values; the least has those not below the first argument. -/
theorem choice_contains_iff (hname : callee.name = .given name)
    (hargs : List.Forall₂ (Operand.IsBetween s.ranges) args ((a, b) :: e :: ends)) :
    (Text.lower name = "min" →
      ∃ i, (builtin (some p) (.known callee) (.given args) t).process s =
          .ok () { s with ranges := s.ranges.set p i } ∧
        (∀ v, i.contains v ↔ a ≤ v ∧ IsLeastChoice ((a, b) :: e :: ends) v) ∧
        ((∀ v, IsLeastChoice ((a, b) :: e :: ends) v → i.contains v) ↔
          ∀ e' ∈ e :: ends, a ≤ e'.1)) ∧
      (Text.lower name = "max" →
        ∃ i, (builtin (some p) (.known callee) (.given args) t).process s =
            .ok () { s with ranges := s.ranges.set p i } ∧
          ∀ v, i.contains v ↔ IsGreatestChoice ((a, b) :: e :: ends) v) := by
  have hle := Operand.IsBetween.ends_le hargs
  have hends := Operand.forall₂_argument? hargs
  obtain ⟨first, second, l, hl⟩ : ∃ first second l,
      args.filterMap (·.argument? s.ranges) = first :: second :: l := by
    obtain ⟨first, rest, -, hrest, hfirst⟩ := List.forall₂_cons_right_iff.1 hends
    obtain ⟨second, l, -, -, rfl⟩ := List.forall₂_cons_right_iff.1 hrest
    exact ⟨first, second, l, hfirst⟩
  rw [hl] at hends
  constructor
  · intro hmin
    obtain ⟨i, hi, hcontains⟩ := Effect.leastInterval_contains_iff hends
    have hiff : ∀ v, i.contains v ↔ a ≤ v ∧ IsLeastChoice ((a, b) :: e :: ends) v := by
      intro v
      rw [hcontains, isLeastChoice_iff hle]
      refine and_congr_right fun hv => (and_iff_right ?_).symm
      exact ⟨(a, b), List.mem_cons_self, hv⟩
    refine ⟨i, process_of_store ?_, hiff, ?_⟩
    · simp only [effect, Effect.builtin, hname, hmin]
      exact Effect.choiceCall_eq hl hi
    · rw [← forall_isLeastChoice_iff hle]
      refine forall₂_congr fun v hv => ?_
      rw [hiff, and_iff_left hv]
  · intro hmax
    obtain ⟨i, hi, hcontains⟩ := Effect.greatestInterval_contains_iff hends
    refine ⟨i, process_of_store ?_, fun v => ?_⟩
    · simp only [effect, Effect.builtin, hname, hmax]
      exact Effect.choiceCall_eq hl hi
    · rw [hcontains, isGreatestChoice_iff hle]

def chooseOfThree (name : String) : Instr :=
  .builtin (some (.named "z")) (.known ⟨.given name, none, none, .missing⟩)
    (.given [.place (.named "x"), .literal (.int 2), .place (.named "y")]) ""

theorem chooseOfThree_contains :
    (∃ i, (chooseOfThree "Min").process
        (.ofEntries [(.named "x", between 1 3), (.named "y", between 2 9)]) =
          .ok () (.ofEntries [(.named "x", between 1 3), (.named "y", between 2 9),
            (.named "z", i)]) ∧
      ∀ v, IsLeastChoice [(1, 3), (2, 2), (2, 9)] v → i.contains v) ∧
      ∃ i, (chooseOfThree "MAX").process
          (.ofEntries [(.named "x", between 1 3), (.named "y", between 2 9)]) =
            .ok () (.ofEntries [(.named "x", between 1 3), (.named "y", between 2 9),
              (.named "z", i)]) ∧
        ∀ v, i.contains v ↔ IsGreatestChoice [(1, 3), (2, 2), (2, 9)] v := by
  let s : State := .ofEntries [(.named "x", between 1 3), (.named "y", between 2 9)]
  have hargs : List.Forall₂ (Operand.IsBetween s.ranges)
      [.place (.named "x"), .literal (.int 2), .place (.named "y")] [(1, 3), (2, 2), (2, 9)] :=
    .cons ⟨_, rfl, ⟨⟨1, rfl, rfl⟩, ⟨3, rfl, rfl⟩⟩, by decide⟩
      (.cons ⟨_, rfl, ⟨⟨2, rfl, rfl⟩, ⟨2, rfl, rfl⟩⟩, by decide⟩
        (.cons ⟨_, rfl, ⟨⟨2, rfl, rfl⟩, ⟨9, rfl, rfl⟩⟩, by decide⟩ .nil))
  constructor
  · have hname : Callee.name ⟨.given "Min", none, none, .missing⟩ = .given "Min" := rfl
    obtain ⟨i, hi, -, hall⟩ :=
      (choice_contains_iff (p := .named "z") (t := "") hname hargs).1 (by decide)
    exact ⟨i, hi, hall.2 (by decide)⟩
  · have hname : Callee.name ⟨.given "MAX", none, none, .missing⟩ = .given "MAX" := rfl
    exact (choice_contains_iff hname hargs).2 (by decide)

/-- Two is the least of six and two, and not among the values stored for the least. -/
theorem leastBelowFirst_missing :
    (builtin (some (.named "z")) (.known ⟨.given "min", none, none, .missing⟩)
        (.given [.place (.named "x"), .place (.named "y")]) "").process
        (.ofEntries [(.named "x", between 5 9), (.named "y", between 1 3)]) =
      .ok () (.ofEntries [(.named "x", between 5 9), (.named "y", between 1 3),
        (.named "z", between 5 3)]) ∧
      (between 5 9).contains 6 ∧ (between 1 3).contains 2 ∧ ¬ (between 5 3).contains (min 6 2) := by
  decide

end Instr

end RangeAudit
