import RangeAudit.Proofs.Replay

namespace RangeAudit

variable {f : Function} {r r' : Ranges} {s t : State} {p : Place} {x : Interval} {v : Variable}
  {order : SetOrder}

def Variable.ofType (name type : String) : Variable :=
  ⟨name, name, .localVariable, some type, none, false⟩

def Variable.stateOfType (name type : String) : Variable :=
  { Variable.ofType name type with kind := .stateVariable }

def Place.named (name : String) : Place :=
  .var ⟨name, name, .plain, none, none, false⟩

def State.ofEntries (entries : List (Place × Interval)) : State :=
  { initial with ranges := ⟨entries⟩ }

def Node.ofInstrs (instrs : List Instr) (sons : List Nat) : Node :=
  ⟨instrs, sons, false, .other, false, "", []⟩

def Node.ofComparison (c : Comparison) (p : Place) (n : Int) (sons : List Nat) : Node :=
  { Node.ofInstrs [] sons with
    isBranch := true
    condition := .binary (.compare c) (.place p) (.literal (.int n)) }

def Function.ofNodes (params : List Variable) (nodes : List Node) : Function :=
  ⟨"f", "f", nodes, params, [], [], "public", false, .absent, [], true⟩

/-- Where a place that is tracked from the start gets its interval from. -/
inductive Function.Starts (f : Function) : Place → Interval → Prop
  | param {v : Variable} {x : Interval} (hv : v ∈ f.params) (hx : v.paramInterval = .ok x) :
    Starts f v.place x
  | source {v : Variable} {x : Interval} {i : Instr} (hi : i ∈ f.instrs)
    (hs : i.source? = some (.place v.place)) (hx : v.stateInterval? = some x) : Starts f v.place x
  | result {v : Variable} {i : Instr} (hi : i ∈ f.instrs) (hr : i.result? = some v.place) :
    Starts f v.place v.localInterval

namespace Ranges

/-- Every tracked place is critical, and has an interval that the function may start with. -/
def StartsFor (f : Function) (r : Ranges) : Prop :=
  ∀ e ∈ r.entries, e.1.isCritical ∧ f.Starts e.1 e.2

theorem StartsFor.set (h : r.StartsFor f) (hc : p.isCritical) (hx : f.Starts p x) :
    (r.set p x).StartsFor f := by
  intro e he
  rcases mem_setEntries he with rfl | he
  · exact ⟨hc, hx⟩
  · exact h e he

theorem addParam_ok (hr : r.addParam v = .ok r') :
    (v.place.isCritical ∧ ∃ x, v.paramInterval = .ok x ∧ r' = r.set v.place x) ∨
      v.place.isCritical = false ∧ r' = r := by
  unfold addParam at hr
  split at hr
  · rename_i hc
    cases hx : v.paramInterval with
    | error e =>
      rw [hx] at hr
      cases hr
    | ok x =>
      rw [hx] at hr
      cases hr
      exact .inl ⟨hc, x, rfl, rfl⟩
  · rename_i hc
    cases hr
    exact .inr ⟨Bool.eq_false_iff.2 hc, rfl⟩

theorem StartsFor.addParam (h : r.StartsFor f) (hv : v ∈ f.params) (hr : r.addParam v = .ok r') :
    r'.StartsFor f := by
  obtain ⟨hc, x, hx, rfl⟩ | ⟨-, rfl⟩ := addParam_ok hr
  · exact h.set hc (.param hv hx)
  · exact h

theorem StartsFor.addSource {i : Instr} (h : r.StartsFor f) (hi : i ∈ f.instrs) :
    (r.addSource i).StartsFor f := by
  unfold Ranges.addSource
  split
  · rename_i v hs
    split
    · rename_i hc
      simp only [Bool.and_eq_true] at hc
      cases hx : v.stateInterval? with
      | none => exact h
      | some x => exact h.set hc.2 (.source hi hs hx)
    · exact h
  · exact h

theorem StartsFor.addLocal {i : Instr} (h : r.StartsFor f) (hi : i ∈ f.instrs)
    (hv : i.result? = some v.place) : (r.addLocal v).StartsFor f := by
  unfold Ranges.addLocal
  split
  · rename_i hc
    simp only [Bool.and_eq_true] at hc
    exact h.set hc.1 (.result hi hv)
  · exact h

def Extends (r r' : Ranges) : Prop :=
  ∀ p x, r.get? p = some x → r'.get? p = some x

theorem extends_addSource (r : Ranges) (i : Instr) : r.Extends (r.addSource i) := by
  intro p x hp
  unfold addSource
  split
  · rename_i v hs
    split
    · rename_i hc
      simp only [Bool.and_eq_true, Bool.not_eq_true', contains] at hc
      cases v.stateInterval? with
      | none => exact hp
      | some y =>
        simp only [setSome, Option.elim_some]
        rw [get?_set_of_ne _ _ ?_]
        · exact hp
        · rintro rfl
          simp [hp] at hc
    · exact hp
  · exact hp

theorem extends_addLocal (r : Ranges) (v : Variable) : r.Extends (r.addLocal v) := by
  intro p x hp
  unfold addLocal
  split
  · rename_i hc
    simp only [Bool.and_eq_true, Bool.not_eq_true', contains] at hc
    rw [get?_set_of_ne _ _ ?_]
    · exact hp
    · rintro rfl
      simp [hp] at hc
  · exact hp

end Ranges

namespace Function

theorem trackParam_ok : trackParam v s = .ok () t ↔
    ∃ r, s.ranges.addParam v = .ok r ∧ t = { s with ranges := r } := by
  rw [trackParam, Analysis.bind_ok (Analysis.get_apply s)]
  cases h : s.ranges.addParam v with
  | error e => simp [Analysis.bind_error (Analysis.ofExcept_error e s)]
  | ok r => simp [Analysis.bind_ok (Analysis.ofExcept_ok r s), Analysis.modify_apply, eq_comm]

theorem trackParams_startsFor {l : List Variable} (hl : ∀ v ∈ l, v ∈ f.params)
    (h : l.forM trackParam s = .ok () t) (hs : s.ranges.StartsFor f) : t.ranges.StartsFor f := by
  induction l generalizing s with
  | nil =>
    cases h
    exact hs
  | cons v l ih =>
    obtain ⟨_, u, hv, h⟩ := Analysis.bind_eq_ok.1 h
    obtain ⟨r, hr, rfl⟩ := trackParam_ok.1 hv
    exact ih (fun w hw => hl w (List.mem_cons_of_mem _ hw)) h
      (hs.addParam (hl v List.mem_cons_self) hr)

theorem trackParams_get? {l : List Variable} (h : l.forM trackParam s = .ok () t)
    (hp : ∀ v ∈ l, v.place ≠ p) : t.ranges.get? p = s.ranges.get? p := by
  induction l generalizing s with
  | nil =>
    cases h
    rfl
  | cons v l ih =>
    obtain ⟨_, u, hv, h⟩ := Analysis.bind_eq_ok.1 h
    obtain ⟨r, hr, rfl⟩ := trackParam_ok.1 hv
    rw [ih h fun w hw => hp w (List.mem_cons_of_mem _ hw)]
    obtain ⟨-, x, -, rfl⟩ | ⟨-, rfl⟩ := Ranges.addParam_ok hr
    · exact Ranges.get?_set_of_ne _ _ (hp v List.mem_cons_self).symm
    · rfl

theorem trackParams_param {l : List Variable} (h : l.forM trackParam s = .ok () t) (hv : v ∈ l)
    (hc : v.place.isCritical) : ∃ x, v.paramInterval = .ok x ∧ t.ranges.get? v.place = some x := by
  induction l generalizing s with
  | nil => cases hv
  | cons w l ih =>
    obtain ⟨_, u, hw, h⟩ := Analysis.bind_eq_ok.1 h
    by_cases hl : v ∈ l
    · exact ih h hl
    · obtain rfl : v = w := (List.mem_cons.1 hv).resolve_right hl
      obtain ⟨r, hr, rfl⟩ := trackParam_ok.1 hw
      have hne : ∀ w ∈ l, w.place ≠ v.place := by
        rintro w hw heq
        cases heq
        exact hl hw
      obtain ⟨-, x, hx, rfl⟩ | ⟨hc', -⟩ := Ranges.addParam_ok hr
      · exact ⟨x, hx, by rw [trackParams_get? h hne, Ranges.get?_set_self]⟩
      · rw [hc] at hc'
        cases hc'

theorem addVariables_extends (order : SetOrder) (f : Function) (r : Ranges) :
    r.Extends (f.addVariables order r) := by
  refine List.foldlRecOn (motive := r.Extends) _ _ ?_ ?_
  · refine List.foldlRecOn (motive := r.Extends) _ _ ?_ ?_
    · exact fun _ _ hp => hp
    · exact fun u hu i _ p x hp => u.extends_addSource i p x (hu p x hp)
  · exact fun u hu v _ p x hp => u.extends_addLocal v p x (hu p x hp)

theorem resultsOfKind_result {kind : VariableKind} (hv : v ∈ f.resultsOfKind kind) :
    ∃ i ∈ f.instrs, i.result? = some v.place := by
  obtain ⟨i, hi, hv⟩ := List.mem_filterMap.1 hv
  refine ⟨i, hi, ?_⟩
  split at hv
  · rename_i w hw
    split at hv
    · cases hv
      exact hw
    · cases hv
  · cases hv

theorem localResults_result (hv : v ∈ f.localResults order) :
    ∃ i ∈ f.instrs, i.result? = some v.place := by
  have hmem := List.mem_eraseDups.1 ((order.perm _).mem_iff.1 hv)
  rcases List.mem_append.1 hmem with hv | hv
  · exact resultsOfKind_result hv
  · exact resultsOfKind_result hv

theorem addVariables_startsFor (h : r.StartsFor f) : (f.addVariables order r).StartsFor f := by
  refine List.foldlRecOn (motive := Ranges.StartsFor f) _ _ ?_ ?_
  · refine List.foldlRecOn (motive := Ranges.StartsFor f) _ _ h ?_
    exact fun u hu i hi => hu.addSource hi
  · intro u hu v hv
    obtain ⟨i, hi, hr⟩ := localResults_result hv
    exact hu.addLocal hi hr

theorem start_ok (h : f.start order s = .ok () t) :
    ∃ u, f.params.forM trackParam { s with ranges := .empty } = .ok () u ∧
      t = { u with ranges := f.addVariables order u.ranges } := by
  obtain ⟨_, u, hu, h⟩ := Analysis.bind_eq_ok.1 h
  cases hu
  obtain ⟨_, u, hu, h⟩ := Analysis.bind_eq_ok.1 h
  cases h
  exact ⟨u, hu, rfl⟩

/-- Setting up the intervals touches nothing else of the state. -/
theorem start_frame (h : f.start order s = .ok () t) : t = { s with ranges := t.ranges } := by
  obtain ⟨u, hu, rfl⟩ := start_ok h
  have frame (l : List Variable) (a b : State) (h : l.forM trackParam a = .ok () b) :
      b = { a with ranges := b.ranges } := by
    induction l generalizing a with
    | nil =>
      cases h
      rfl
    | cons v l ih =>
      obtain ⟨_, c, hc, h⟩ := Analysis.bind_eq_ok.1 h
      obtain ⟨r, -, rfl⟩ := trackParam_ok.1 hc
      exact ih { a with ranges := r } h
  rw [frame _ _ _ hu]

theorem start_succeeds (h : ∀ v ∈ f.params, ∃ x, v.paramInterval = .ok x) (order : SetOrder)
    (s : State) :
    ∃ t, f.start order s = .ok () t := by
  have track (l : List Variable) (hl : ∀ v ∈ l, ∃ x, v.paramInterval = .ok x) (a : State) :
      ∃ b, l.forM trackParam a = .ok () b := by
    induction l generalizing a with
    | nil => exact ⟨a, rfl⟩
    | cons v l ih =>
      obtain ⟨x, hx⟩ := hl v List.mem_cons_self
      have hr : ∃ r, a.ranges.addParam v = .ok r := by
        unfold Ranges.addParam
        rw [hx]
        split
        · exact ⟨_, rfl⟩
        · exact ⟨_, rfl⟩
      obtain ⟨r, hr⟩ := hr
      obtain ⟨b, hb⟩ := ih (fun w hw => hl w (List.mem_cons_of_mem _ hw)) { a with ranges := r }
      exact ⟨b, Analysis.bind_eq_ok.2 ⟨(), _, trackParam_ok.2 ⟨r, hr, rfl⟩, hb⟩⟩
  obtain ⟨u, hu⟩ := track f.params h { s with ranges := .empty }
  exact ⟨_, Analysis.bind_eq_ok.2 ⟨(), _, rfl, Analysis.bind_eq_ok.2 ⟨(), u, hu, rfl⟩⟩⟩

theorem start_startsFor (h : f.start order s = .ok () t) : t.ranges.StartsFor f := by
  obtain ⟨u, hu, rfl⟩ := start_ok h
  have hempty : Ranges.empty.StartsFor f := fun e he => by cases he
  exact addVariables_startsFor (trackParams_startsFor (fun v hv => hv) hu hempty)

theorem start_param (h : f.start order s = .ok () t) (hv : v ∈ f.params) (hc : v.place.isCritical) :
    ∃ x, v.paramInterval = .ok x ∧ t.ranges.get? v.place = some x := by
  obtain ⟨u, hu, rfl⟩ := start_ok h
  obtain ⟨x, hx, hp⟩ := trackParams_param hu hv hc
  exact ⟨x, hx, f.addVariables_extends order u.ranges _ _ hp⟩

theorem analyze_ok {cfg : Config} : f.analyze cfg s = .ok () t ↔
    ∃ u, f.start cfg.order s = .ok () u ∧ f.iterate cfg u = .ok () t := by
  rw [analyze, Analysis.bind_eq_ok]
  exact ⟨fun ⟨_, u, h⟩ => ⟨u, h⟩, fun ⟨u, h⟩ => ⟨(), u, h⟩⟩

theorem start_isUnstable (hf : f.IsUnstable) (h : f.start order s = .ok () t) :
    t.ranges.IsUnstable := by
  rintro ⟨p, x⟩ he
  cases (start_startsFor h (p, x) he).2 with
  | param hv hx => exact hf.params _ hv
  | source hi hs hx => exact hf.sources _ hi _ hs
  | result hi hr => exact hf.results _ hi _ hr

end Function

end RangeAudit
