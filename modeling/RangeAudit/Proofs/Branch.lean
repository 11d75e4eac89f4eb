import RangeAudit.Proofs.ControlFlow
import RangeAudit.Proofs.Enclosure
import RangeAudit.Proofs.Settled

open RangeAudit.Interval (between)

namespace RangeAudit

variable {f : Function} {q : Place} {x y z : Interval} {r earlier : Ranges} {s t : State}
  {node : Node} {nodes : List Node} {i : Instr} {l : List Instr} {c : Int} {p p' : Progress}
  {index : Nat} {cfg : Config} {order : SetOrder}

namespace Interval

def HasBounds (x : Interval) : Prop :=
  x.lo.isSome ∧ x.hi.isSome

theorem hasBounds_between (a b : Number) : (between a b).HasBounds :=
  ⟨rfl, rfl⟩

theorem HasBounds.isBottom (h : x.HasBounds) : x.isBottom = false := by
  obtain ⟨a, ha⟩ := Option.isSome_iff_exists.1 h.1
  simp [Interval.isBottom, ha]

theorem HasBounds.widen (hx : x.HasBounds) (hy : y.HasBounds) : (x.widen y).HasBounds := by
  rw [Interval.widen, if_neg (by simp [hx.isBottom]), if_neg (by simp [hy.isBottom])]
  obtain ⟨a, ha⟩ := Option.isSome_iff_exists.1 hx.1
  obtain ⟨b, hb⟩ := Option.isSome_iff_exists.1 hx.2
  obtain ⟨c, hc⟩ := Option.isSome_iff_exists.1 hy.1
  obtain ⟨d, hd⟩ := Option.isSome_iff_exists.1 hy.2
  simp only [ha, hb, hc, hd, widenLo, widenHi]
  constructor
  · dsimp only
    split <;> rfl
  · dsimp only
    split <;> rfl

theorem narrow_point (c : Int) (h : x.HasBounds) :
    (point (.int c)).narrow x = point (.int c) := by
  have hc : (point (.int c)).isBottom = false := rfl
  rw [Interval.narrow, hc, h.isBottom]
  rfl

end Interval

namespace Ranges

theorem get?_map (g : Place → Interval → Interval) (r : Ranges) (q : Place) :
    (r.map g).get? q = (r.get? q).map (g q) := by
  unfold get? map
  generalize r.entries = l
  induction l with
  | nil => rfl
  | cons e l ih =>
    obtain ⟨p, x⟩ := e
    by_cases h : q = p
    · simp [h]
    · have hb : (q == p) = false := by simp [h]
      simp [List.lookup_cons, hb, ih]

theorem get?_snapshot (r : Ranges) (h : q.isStable) : r.snapshot.get? q = r.get? q := by
  unfold get? snapshot
  generalize r.entries = l
  induction l with
  | nil => rfl
  | cons e l ih =>
    obtain ⟨p, x⟩ := e
    by_cases hq : q = p
    · subst hq
      simp [h]
    · have hb : (q == p) = false := by simp [hq]
      by_cases hp : p.isStable
      · simp [hp, List.lookup_cons, hb, ih]
      · simp [hp, List.lookup_cons, hb, ih]

theorem get?_of_snapshot (h : r.snapshot.get? q = some x) : r.get? q = some x := by
  have hq : q.isStable := (List.mem_filter.1 (mem_of_get? h)).2
  rwa [get?_snapshot r hq] at h

theorem get?_setSome {p : Place} (h : q ≠ p) (x? : Option Interval) :
    (r.setSome p x?).get? q = r.get? q := by
  cases x? with
  | none => rfl
  | some x => exact get?_set_of_ne r x h

theorem get?_refine (c : Comparison) {left right : Operand} (hl : q ∉ left.places)
    (hr : q ∉ right.places) : (r.refine c left right).get? q = r.get? q := by
  cases left with
  | literal => rfl
  | place p =>
    have hp : q ≠ p := by simpa [Operand.places] using hl
    cases right with
    | literal k =>
      cases hk : k.threshold? with
      | none => simp [refine, hk]
      | some n =>
        simp only [refine, hk, Option.elim_some, refineByNumber]
        split
        · rfl
        · split
          · rfl
          · exact get?_set_of_ne r _ hp
    | place p' =>
      have hp' : q ≠ p' := by simpa [Operand.places] using hr
      simp only [refine, refinePair]
      split
      · rw [get?_setSome hp', get?_setSome hp]
      · rfl

def BoundsAt (q : Place) (r : Ranges) : Prop :=
  ∀ x, r.get? q = some x → x.HasBounds

theorem BoundsAt.snapshot (h : r.BoundsAt q) : r.snapshot.BoundsAt q :=
  fun x hx => h x (get?_of_snapshot hx)

theorem BoundsAt.widenFrom (h : r.BoundsAt q) (he : earlier.BoundsAt q) :
    (r.widenFrom earlier).BoundsAt q := by
  intro x hx
  rw [Ranges.widenFrom, get?_map] at hx
  obtain ⟨y, hy, rfl⟩ := Option.map_eq_some_iff.1 hx
  split
  · rename_i old hold
    exact (he old hold).widen (h y hy)
  · exact h y hy

theorem get?_narrowTo_point (he : earlier.BoundsAt q) (h : r.get? q = some (.point (.int c))) :
    (r.narrowTo earlier).get? q = some (.point (.int c)) := by
  rw [narrowTo, get?_map, h, Option.map_some]
  split
  · rename_i old hold
    rw [Interval.narrow_point c (he old hold)]
  · rfl

end Ranges

def Expression.places : Expression → List Place
  | .binary _ left right => left.places ++ right.places
  | _ => []

theorem Expression.get?_assume {e : Expression} (h : e.assume s = .ok () t) (hq : q ∉ e.places) :
    t.ranges.get? q = s.ranges.get? q := by
  unfold Expression.assume at h
  split at h
  · cases h
    rw [Expression.places, List.mem_append, not_or] at hq
    exact Ranges.get?_refine _ hq.1 hq.2
  · cases h
  · cases h
    rfl

namespace Instr

def isConstant : Instr → Bool
  | .assign _ (.literal (.int _)) => true
  | _ => false

def constant? (q : Place) : Instr → Option Int
  | .assign p (.literal (.int n)) => if p = q then some n else none
  | _ => none

end Instr

/-- The constant that instructions in order assign to the place last. -/
def lastConstant? (q : Place) (l : List Instr) : Option Int :=
  (l.filterMap (Instr.constant? q)).getLast?

theorem lastConstant?_append (q : Place) (l m : List Instr) :
    lastConstant? q (l ++ m) = (lastConstant? q m).or (lastConstant? q l) := by
  rw [lastConstant?, List.filterMap_append, List.getLast?_append]
  rfl

theorem lastConstant?_singleton (q : Place) (i : Instr) :
    lastConstant? q [i] = i.constant? q := by
  unfold lastConstant?
  cases h : i.constant? q <;> simp [h]

theorem get?_process_constant (hi : i.isConstant) (h : i.process s = .ok () t) :
    t.ranges.get? q = ((i.constant? q).map fun c => .point (.int c)).or (s.ranges.get? q) := by
  obtain ⟨p, n, rfl⟩ : ∃ p n, i = .assign p (.literal (.int n)) := by
    unfold Instr.isConstant at hi
    split at hi
    · exact ⟨_, _, rfl⟩
    · cases hi
  obtain ⟨-, rfl⟩ := Instr.process_ok_iff.1 h
  have hstore : ((Instr.assign p (.literal (.int n))).effect s).store? =
      some (p, .point (.int n)) := rfl
  rw [State.get?_apply s hstore, Instr.constant?]
  by_cases hp : p = q
  · simp [hp]
  · simp [hp, Ne.symm hp]

theorem get?_run_constants (hl : ∀ i ∈ l, i.isConstant) (h : l.forM Instr.process s = .ok () t) :
    t.ranges.get? q =
      ((lastConstant? q l).map fun c => .point (.int c)).or (s.ranges.get? q) := by
  induction l generalizing s with
  | nil =>
    cases h
    rfl
  | cons i l ih =>
    obtain ⟨_, u, hu, h⟩ := Analysis.bind_eq_ok.1 h
    rw [ih (fun j hj => hl j (List.mem_cons_of_mem i hj)) h,
      get?_process_constant (hl i List.mem_cons_self) hu, ← List.singleton_append,
      lastConstant?_append, lastConstant?_singleton, Option.map_or, Option.or_assoc]

theorem Node.get?_run (hn : ∀ i ∈ node.instrs, i.isConstant)
    (hq : node.isBranch → q ∉ node.condition.places) (h : node.run s = .ok () t) :
    t.ranges.get? q =
      ((lastConstant? q node.instrs).map fun c => .point (.int c)).or (s.ranges.get? q) := by
  rw [Node.run_apply] at h
  split at h
  · rename_i hb
    obtain ⟨_, u, hu, h⟩ := Analysis.bind_eq_ok.1 h
    rw [get?_run_constants hn h, Expression.get?_assume hu (hq hb)]
  · exact get?_run_constants hn h

namespace Progress

def BoundsAt (q : Place) (p : Progress) (s : State) : Prop :=
  s.ranges.BoundsAt q ∧ ∀ e ∈ p.visits, e.2.before.BoundsAt q

end Progress

theorem BoundsAt.visitNode (hn : ∀ i ∈ node.instrs, i.isConstant)
    (hq : node.isBranch → q ∉ node.condition.places) {s' : State}
    (h : visitNode cfg index node p s = .ok p' s') (hs : p.BoundsAt q s) : p'.BoundsAt q s' := by
  obtain ⟨t, changed, ht, rfl, rfl⟩ := visitNode_ok h
  have hrun : t.ranges.BoundsAt q := by
    intro x hx
    rw [Node.get?_run hn hq ht, Option.or_eq_some_iff] at hx
    rcases hx with hx | ⟨-, hx⟩
    · obtain ⟨c, -, rfl⟩ := Option.map_eq_some_iff.1 hx
      exact Interval.hasBounds_between _ _
    · exact hs.1 x hx
  constructor
  · unfold widened
    split
    · exact hrun.widenFrom hs.1.snapshot
    · exact hrun
  · rw [Progress.afterVisit_visits]
    exact List.forall_mem_cons.2 ⟨hs.1.snapshot, hs.2⟩

/-- A sweep ends with the last constant, from a state that has the last of some constants before. -/
theorem narrowSweep_get? (hnodes : ∀ n ∈ nodes, (∀ i ∈ n.instrs, i.isConstant) ∧
      (n.isBranch → q ∉ n.condition.places))
    (hvisits : ∀ e ∈ p.visits, e.2.before.BoundsAt q)
    (hvisited : ∀ k < nodes.length, p.IsVisited (index + k))
    (h : narrowSweep p index nodes s = .ok () t) {last? : Option Int}
    (hlast : ∀ c, last? = some c → s.ranges.get? q = some (.point (.int c)))
    (hc : (lastConstant? q (nodes.flatMap (·.instrs))).or last? = some c) :
    t.ranges.get? q = some (.point (.int c)) := by
  induction nodes generalizing index s last? with
  | nil =>
    cases h
    exact hlast c hc
  | cons n nodes ih =>
    obtain ⟨_, u, hu, h⟩ := Analysis.bind_eq_ok.1 h
    obtain ⟨hconst, hcond⟩ := hnodes n List.mem_cons_self
    obtain ⟨v, hv⟩ := Option.isSome_iff_exists.1 (hvisited 0 (by simp))
    rw [Nat.add_zero] at hv
    rw [narrowNode, hv] at hu
    obtain ⟨_, w, hw, hu⟩ := Analysis.bind_eq_ok.1 hu
    cases hu
    rw [List.flatMap_cons, lastConstant?_append, Option.or_assoc] at hc
    refine ih (fun m hm => hnodes m (List.mem_cons_of_mem n hm)) (fun k hk => ?_) h
      (fun d hd => ?_) hc
    · have := hvisited (k + 1) (by simpa using hk)
      rwa [Nat.add_right_comm, Nat.add_assoc]
    · have hbefore : v.before.BoundsAt q := hvisits (index, v) (Progress.mem_of_visit? hv)
      refine Ranges.get?_narrowTo_point hbefore ?_
      rw [Node.get?_run hconst hcond hw]
      rcases Option.or_eq_some_iff.1 hd with hd | ⟨hnone, hd⟩
      · rw [hd]
        rfl
      · rw [hnone, hlast d hd]
        rfl

theorem narrowSweeps_get? (hnodes : ∀ n ∈ nodes, (∀ i ∈ n.instrs, i.isConstant) ∧
      (n.isBranch → q ∉ n.condition.places))
    (hvisits : ∀ e ∈ p.visits, e.2.before.BoundsAt q)
    (hvisited : ∀ k < nodes.length, p.IsVisited k) {sweeps : Nat}
    (h : narrowSweeps p nodes (sweeps + 1) s = .ok () t)
    (hc : lastConstant? q (nodes.flatMap (·.instrs)) = some c) :
    t.ranges.get? q = some (.point (.int c)) := by
  induction sweeps generalizing s with
  | zero =>
    obtain ⟨_, u, hu, h⟩ := Analysis.bind_eq_ok.1 h
    cases h
    refine narrowSweep_get? hnodes hvisits ?_ hu (fun c hc => by cases hc) (Option.or_none.trans hc)
    simpa using hvisited
  | succ sweeps ih =>
    obtain ⟨_, u, -, h⟩ := Analysis.bind_eq_ok.1 h
    exact ih h

namespace Function

theorem Starts.hasBounds (h : f.Starts q x) : x.HasBounds := by
  cases h with
  | param hv hx =>
    rename_i v
    unfold Variable.paramInterval at hx
    cases ht : v.place.lowerType? with
    | none =>
      rw [ht] at hx
      cases hx
      exact ⟨rfl, rfl⟩
    | some type =>
      rw [ht, Option.elim_some] at hx
      cases hc : TypeClass.ofText type with
      | error e =>
        rw [hc] at hx
        cases hx
      | ok c =>
        rw [hc] at hx
        cases hx
        cases c <;> exact ⟨rfl, rfl⟩
  | source hi hs hx =>
    rename_i v i
    obtain ⟨type, -, hx⟩ := Option.bind_eq_some_iff.1 hx
    split at hx
    · cases hx
      exact ⟨rfl, rfl⟩
    · split at hx
      · cases hx
        exact ⟨rfl, rfl⟩
      · cases hx
  | result hi hr =>
    rename_i v i
    unfold Variable.localInterval
    cases v.place.lowerType? with
    | none => exact ⟨rfl, rfl⟩
    | some type =>
      rw [Option.elim_some]
      split
      · exact ⟨rfl, rfl⟩
      · split
        · exact ⟨rfl, rfl⟩
        · split <;> exact ⟨rfl, rfl⟩

/-- A function that assigns constants only ends with the last one in the list of nodes. -/
theorem get?_analyze_constants (hlength : f.nodes.length ≤ 100)
    (hconst : ∀ i ∈ f.instrs, i.isConstant)
    (hcond : ∀ n ∈ f.nodes, n.isBranch → q ∉ n.condition.places)
    (hc : lastConstant? q f.instrs = some c) (h : f.analyze { order := order } s = .ok () t) :
    t.ranges.get? q = some (.point (.int c)) := by
  have hnodes : ∀ n ∈ f.nodes, (∀ i ∈ n.instrs, i.isConstant) ∧
      (n.isBranch → q ∉ n.condition.places) := fun n hn =>
    ⟨fun i hi => hconst i (List.mem_flatMap.2 ⟨n, hn, hi⟩), hcond n hn⟩
  obtain ⟨start, hstart, h⟩ := analyze_ok.1 h
  obtain ⟨p, u, hu, h⟩ := Analysis.bind_eq_ok.1 h
  have hbounds : p.BoundsAt q u := by
    refine workOff_preserves (I := Progress.BoundsAt q) ?_ (fun p s queue hi => hi) ?_ hu
    · intro index node p s p' s' hn hi hv
      obtain ⟨hinstrs, hplaces⟩ := hnodes node (List.mem_of_getElem? hn)
      exact BoundsAt.visitNode hinstrs hplaces hv hi
    · refine ⟨fun x hx => ?_, fun e he => by cases he⟩
      exact (start_startsFor hstart _ (Ranges.mem_of_get? hx)).2.hasBounds
  have hvisited : ∀ k < f.nodes.length, p.IsVisited k := by
    refine workOff_start_visits ?_ hu
    exact hlength
  exact narrowSweeps_get? hnodes hbounds.2 hvisited h hc

/-- A path's last constant is kept exactly if it is also the last one in the list of nodes. -/
theorem analyze_contains_path_constant (hlength : f.nodes.length ≤ 100)
    (hconst : ∀ i ∈ f.instrs, i.isConstant)
    (hcond : ∀ n ∈ f.nodes, n.isBranch → q ∉ n.condition.places)
    (h : f.analyze { order := order } s = .ok () t) {path : List Node}
    (hpath : f.IsCompletePath path) {d : Int}
    (hd : lastConstant? q (path.flatMap (·.instrs)) = some d) :
    ∃ z, t.ranges.get? q = some z ∧ (z.contains d ↔ lastConstant? q f.instrs = some d) := by
  obtain ⟨c, hc⟩ : ∃ c, lastConstant? q f.instrs = some c := by
    obtain ⟨i, hi, hid⟩ := List.mem_filterMap.1 (List.mem_of_getLast? hd)
    obtain ⟨n, hn, hi⟩ := List.mem_flatMap.1 hi
    have hmem : d ∈ f.instrs.filterMap (Instr.constant? q) :=
      List.mem_filterMap.2 ⟨i, List.mem_flatMap.2 ⟨n, hpath.mem hn, hi⟩, hid⟩
    exact Option.isSome_iff_exists.1 (List.getLast?_isSome.2 (List.ne_nil_of_mem hmem))
  refine ⟨_, get?_analyze_constants hlength hconst hcond hc h, ?_⟩
  rw [hc, Option.some.injEq]
  refine Interval.contains_between.trans ⟨fun h => ?_, fun h => ?_⟩
  · omega
  · omega

end Function

/-- A function with two branches that meet again, each of which assigns a constant of its own. -/
def diamond : Function :=
  .ofNodes [.ofType "a" "uint8"] [
    { Node.ofInstrs [] [1, 2] with
      isBranch := true
      condition := .binary (.compare .gt) (.place (.var (.ofType "a" "uint8")))
        (.literal (.int 0)) },
    .ofInstrs [.assign (.named "v") (.literal (.int 1))] [3],
    .ofInstrs [.assign (.named "v") (.literal (.int 2))] [3],
    .ofInstrs [] []]

theorem diamond_path {k : Nat} (h : k = 1 ∨ k = 2) :
    diamond.IsCompletePath ([0, k, 3].filterMap (diamond.nodes[·]?)) := by
  have hleads : diamond.Leads 0 k ∧ diamond.Leads k 3 := by
    rcases h with rfl | rfl
    · exact ⟨⟨_, rfl, by decide⟩, ⟨_, rfl, by decide⟩⟩
    · exact ⟨⟨_, rfl, by decide⟩, ⟨_, rfl, by decide⟩⟩
  have hchain : [0, k, 3].IsChain diamond.Leads :=
    .cons_cons hleads.1 (.cons_cons hleads.2 (.singleton 3))
  exact ⟨[0, k, 3], 3, _, ⟨rfl, hchain, rfl⟩, rfl, rfl, rfl⟩

theorem diamond_analyze : diamond.analyze {} .initial = .ok () ⟨⟨[
    (.var (.ofType "a" "uint8"), .atLeast 1), (.named "v", .point 2)]⟩, [], [], []⟩ := by
  decide +kernel

theorem diamond_contains_second :
    ∃ t z, diamond.analyze {} .initial = .ok () t ∧
      t.ranges.get? (.named "v") = some z ∧ z.contains 2 := by
  obtain ⟨z, hz, hiff⟩ := Function.analyze_contains_path_constant (by decide) (by decide)
    (by decide) diamond_analyze (diamond_path (.inr rfl))
    (show lastConstant? (.named "v") _ = some 2 from rfl)
  exact ⟨_, z, diamond_analyze, hz, hiff.2 rfl⟩

/-- The path through the first branch assigns 1 last, and the interval does not contain it. -/
theorem diamond_misses_first :
    (∀ k < diamond.nodes.length, ∀ n ∈ diamond.nodes[k]?, ∀ j ∈ n.sons, k < j) ∧
      ∃ path t z, diamond.IsCompletePath path ∧
        lastConstant? (.named "v") (path.flatMap (·.instrs)) = some 1 ∧
        diamond.analyze {} .initial = .ok () t ∧
        t.ranges.get? (.named "v") = some z ∧ z.contains 1 = false :=
  ⟨by decide, _, _, _, diamond_path (.inl rfl), rfl, diamond_analyze, rfl, rfl⟩

end RangeAudit
