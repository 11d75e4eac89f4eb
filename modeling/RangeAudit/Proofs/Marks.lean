import RangeAudit.Proofs.Independence

namespace RangeAudit

variable {cfg : Config} {s s' t t' : State} {i : Instr} {p : Place} {op : Operator}

namespace Operator

/-- The operators that raise alarms for results beyond the machine word. -/
def isGuarded : Operator → Bool
  | .add | .sub | .mul | .pow => true
  | _ => false

theorem wordAlarm_of_not_isGuarded (h : op.isGuarded = false) (l u : Interval) (p : Place) :
    op.wordAlarm l u p = .ok none := by
  cases op with
  | add | sub | mul | pow => cases h
  | div | mod | shl | shr | compare | logic | unknown => rfl

end Operator

def Callee.isCheckedArithmetic (c : Callee) : Bool :=
  match c.name with
  | .given name => Effect.arithmeticNames.contains (Text.lower name) && Effect.isCheckedLibrary c
  | _ => false

namespace Instr

/-- The place that an instruction may mark as the result of checked arithmetic. -/
def marked? : Instr → Option Place
  | .builtin result? (.known callee) _ _ => if callee.isCheckedArithmetic then result? else none
  | _ => none

/-- The place whose mark an instruction looks for. -/
def tested? : Instr → Option Place
  | .binary op p _ _ => if op.isGuarded then some p else none
  | _ => none

end Instr

namespace Effect

theorem arithmeticCall_marked {result? : Option Place} {name : String} {checked : Bool}
    {args : List Operand} (h : (arithmeticCall s result? name checked args).checked? = some p) :
    checked ∧ result? = some p := by
  unfold arithmeticCall at h
  split at h
  · split at h
    · rename_i q
      dsimp only at h
      split at h
      · rename_i hchecked
        cases h
        rw [Bool.and_eq_true] at hchecked
        exact ⟨hchecked.1, rfl⟩
      · rw [ofOperation_checked] at h
        cases h
    · dsimp only at h
      rw [ofOperation_checked] at h
      cases h
  · cases h

theorem choiceCall_checked (s : State) (result? : Option Place)
    (interval : Interval → List Interval → Except Failure Interval) (args : List Operand) :
    (choiceCall s result? interval args).checked? = none := by
  unfold choiceCall
  split
  · split
    · cases result? with
      | none => rfl
      | some p => rfl
    · rfl
  · rfl

theorem builtinNamed_marked {result? : Option Place} {callee : Callee} {name : String} {args : Args}
    (h : (builtinNamed s result? callee name args).checked? = some p) :
    arithmeticNames.contains name ∧ isCheckedLibrary callee ∧ result? = some p := by
  unfold builtinNamed at h
  split at h
  · rename_i hname
    cases args with
    | missing | empty => cases h
    | given l => exact ⟨hname, arithmeticCall_marked h⟩
  · have hchoice (interval : Interval → List Interval → Except Failure Interval) :
        (withArgs args (choiceCall s result? interval)).checked? = none := by
      cases args with
      | missing | empty => rfl
      | given l => exact choiceCall_checked ..
    split at h
    · cases (hchoice _).symm.trans h
    · split at h
      · cases (hchoice _).symm.trans h
      · cases h

end Effect

theorem Instr.effect_marked (h : (i.effect s).checked? = some p) : i.marked? = some p := by
  cases i with
  | binary op result left right =>
    simp only [effect, Effect.binary] at h
    split at h
    · cases h
    · split at h
      · cases h
      · rw [Effect.binaryOn_checked] at h
        cases h
  | builtin result? target args text =>
    change (Effect.builtin s result? target args).checked? = some p at h
    unfold Effect.builtin at h
    split at h
    · cases h
    · cases h
    · cases h
    · rename_i callee _
      split at h
      · cases h
      · cases h
      · rename_i name hname
        obtain ⟨harith, hlibrary, hresult⟩ := Effect.builtinNamed_marked h
        have hcallee : callee.isCheckedArithmetic := by
          simp only [Callee.isCheckedArithmetic, hname, harith, hlibrary, Bool.and_self]
        rw [marked?, if_pos hcallee, hresult]
  | assign => cases (Effect.assign_checked ..).symm.trans h
  | convert => cases (Effect.convert_checked ..).symm.trans h
  | member => cases (Effect.member_checked ..).symm.trans h
  | call => cases (Effect.call_checked ..).symm.trans h
  | other => cases (Effect.call_checked ..).symm.trans h
  | condition | incomplete => cases h

/-- An instruction does the same if its result has a mark in both states or in none. -/
theorem Instr.effect_congr (hr : ∀ p ∈ i.reads, s.ranges.get? p = t.ranges.get? p)
    (hc : ∀ p ∈ i.tested?, (p ∈ s.checked ↔ p ∈ t.checked)) : i.effect s = i.effect t := by
  rcases effect_eq_or_binary hr with heq | ⟨op, p, left, right, l, u, rfl, hes, het⟩
  · exact heq
  · have halarms : Effect.operandAlarms (s.checked.contains p) op p left l u =
        Effect.operandAlarms (t.checked.contains p) op p left l u := by
      cases hop : op.isGuarded with
      | true =>
        have hp : p ∈ (binary op p left right).tested? := by
          rw [tested?, if_pos hop]
          rfl
        have hcontains : s.checked.contains p = t.checked.contains p := by
          rw [Bool.eq_iff_iff, List.contains_iff_mem, List.contains_iff_mem]
          exact hc p hp
        rw [hcontains]
      | false =>
        unfold Effect.operandAlarms
        rw [Operator.wordAlarm_of_not_isGuarded hop, ite_self, ite_self]
    rw [hes, het, Effect.binaryOn, Effect.binaryOn, halarms]

namespace Function

variable {f g : Function} {contract : String} {records : List Record}

def marked (f : Function) : List Place :=
  f.instrs.filterMap (·.marked?)

def tested (f : Function) : List Place :=
  f.instrs.filterMap (·.tested?)

end Function

/-- Issues, and marks of places that the analysis may mark, are added. -/
structure State.Gains (f : Function) (issues : List Issue) (marks : List Place) (s t : State) :
    Prop where
  issues_eq : t.issues = s.issues ++ issues
  marks_subset : marks ⊆ f.marked
  mem_checked (p : Place) : p ∈ t.checked ↔ p ∈ s.checked ∨ p ∈ marks

/-- Two runs track the same intervals, and have added the same issues and marks. -/
def State.GainAlike (f : Function) (s s' t t' : State) : Prop :=
  t.ranges = t'.ranges ∧
    ∃ issues marks, Gains f issues marks s t ∧ Gains f issues marks s' t'

namespace State

variable {f : Function} {issues : List Issue} {marks : List Place}

theorem tracksAlike_gainAlike (f : Function) (s s' : State) : TracksAlike (GainAlike f s s') where
  ranges h := h.1
  setRanges := by
    rintro t t' ⟨-, issues, marks, ht, ht'⟩ r
    exact ⟨rfl, issues, marks, ⟨ht.issues_eq, ht.marks_subset, ht.mem_checked⟩,
      ⟨ht'.issues_eq, ht'.marks_subset, ht'.mem_checked⟩⟩

theorem Gains.apply {e : Effect} (h : Gains f issues marks s t)
    (he : ∀ p ∈ e.checked?, p ∈ f.marked) :
    Gains f (issues ++ e.issues) (marks ++ e.checked?.toList) s (t.apply e) := by
  constructor
  · simp only [State.apply, h.issues_eq, List.append_assoc]
  · refine List.append_subset.2 ⟨h.marks_subset, fun p hp => ?_⟩
    exact he p (Option.mem_toList.1 hp)
  · intro p
    simp only [State.apply]
    cases e.checked? with
    | none => simp [h.mem_checked]
    | some q => simp [mem_insertPlace, h.mem_checked, or_assoc]

end State

namespace Function

variable {f g : Function} {contract : String} {records : List Record}

theorem process_lifts_gainAlike (hs : ∀ p ∈ f.tested, (p ∈ s.checked ↔ p ∈ s'.checked))
    (hi : i ∈ f.instrs) : i.process.Lifts (State.GainAlike f s s') := by
  rintro t t' u b ⟨hranges, issues, marks, ht, ht'⟩ h
  have heffect : i.effect t = i.effect t' := by
    apply Instr.effect_congr
    · intro p _
      rw [hranges]
    · intro p hp
      rw [ht.mem_checked, ht'.mem_checked, hs p (List.mem_filterMap.2 ⟨i, hi, hp⟩)]
  obtain ⟨hnone, rfl⟩ := Instr.process_ok_iff.1 h
  have hmarked : ∀ p ∈ (i.effect t).checked?, p ∈ f.marked := fun p hp =>
    List.mem_filterMap.2 ⟨i, hi, Instr.effect_marked hp⟩
  refine ⟨_, Instr.process_ok_iff.2 ⟨heffect ▸ hnone, rfl⟩, ?_, _, _, ht.apply hmarked, ?_⟩
  · simp only [State.apply, heffect, hranges]
  · rw [heffect] at hmarked ⊢
    exact ht'.apply hmarked

theorem report_gains (h : f.report cfg contract s = .ok records t)
    (hs : ∀ p ∈ f.tested, (p ∈ s.checked ↔ p ∈ s'.checked)) :
    ∃ t' issues marks, f.report cfg contract s' = .ok records t' ∧
      State.Gains f issues marks s t ∧ State.Gains f issues marks s' t' := by
  obtain ⟨u, hu, hrecords, rfl⟩ := report_ok.1 h
  have hstart : State.GainAlike f s s' { s with ranges := .empty } { s' with ranges := .empty } :=
    ⟨rfl, [], [], ⟨by simp, by simp, by simp⟩, ⟨by simp, by simp, by simp⟩⟩
  rw [← analyze_reset cfg f s .empty] at hu
  obtain ⟨u', hu', hranges, issues, marks, hgains, hgains'⟩ :=
    analyze_lifts (State.tracksAlike_gainAlike f s s') (fun i hi => process_lifts_gainAlike hs hi)
      cfg hstart hu
  rw [hranges] at hrecords
  rw [analyze_reset] at hu'
  exact ⟨_, issues, marks, report_ok.2 ⟨u', hu', hrecords, rfl⟩,
    ⟨hgains.issues_eq, hgains.marks_subset, hgains.mem_checked⟩,
    ⟨hgains'.issues_eq, hgains'.marks_subset, hgains'.mem_checked⟩⟩

end Function

structure State.Alike (s s' : State) : Prop where
  issues : s.issues.Perm s'.issues
  checked : ∀ p, p ∈ s.checked ↔ p ∈ s'.checked

theorem State.Alike.trans {u : State} (h : s.Alike t) (h' : t.Alike u) : s.Alike u :=
  ⟨h.issues.trans h'.issues, fun p => (h.checked p).trans (h'.checked p)⟩

theorem State.Gains.alike {f : Function} {issues : List Issue} {marks : List Place}
    (hs : s.Alike s') (ht : Gains f issues marks s t) (ht' : Gains f issues marks s' t') :
    t.Alike t' := by
  constructor
  · rw [ht.issues_eq, ht'.issues_eq]
    exact hs.issues.append_right issues
  · intro p
    rw [ht.mem_checked, ht'.mem_checked, hs.checked]

namespace Function

variable {f g : Function} {contract : String} {first second : List Record} {u : State}

theorem report_alike (hs : s.Alike s') (h : f.report cfg contract s = .ok first t) :
    ∃ t', f.report cfg contract s' = .ok first t' ∧ t.Alike t' := by
  have htested : ∀ p ∈ f.tested, (p ∈ s.checked ↔ p ∈ s'.checked) := fun p _ => hs.checked p
  obtain ⟨t', issues, marks, h', ht, ht'⟩ := report_gains h htested
  exact ⟨t', h', ht.alike hs ht'⟩

/-- Functions that do not look for each other's marks can change places. -/
theorem report_swap (hfg : ∀ p ∈ f.marked, p ∉ g.tested) (hgf : ∀ p ∈ g.marked, p ∉ f.tested)
    (hs : s.Alike s')
    (hf : f.report cfg contract s = .ok first t) (hg : g.report cfg contract t = .ok second u) :
    ∃ t' u', g.report cfg contract s' = .ok second t' ∧
      f.report cfg contract t' = .ok first u' ∧ u.Alike u' := by
  have hself : ∀ p ∈ f.tested, (p ∈ s.checked ↔ p ∈ s.checked) := fun p _ => Iff.rfl
  obtain ⟨_, _, marks, _, hst, -⟩ := report_gains hf hself
  have hgtested : ∀ p ∈ g.tested, (p ∈ t.checked ↔ p ∈ s'.checked) := by
    intro p hp
    have hmarks : p ∉ marks := fun hm => hfg p (hst.marks_subset hm) hp
    rw [hst.mem_checked, ← hs.checked]
    simp [hmarks]
  obtain ⟨t', issues', marks', ht', htu, hst'⟩ := report_gains hg hgtested
  have hftested : ∀ p ∈ f.tested, (p ∈ s.checked ↔ p ∈ t'.checked) := by
    intro p hp
    have hmarks : p ∉ marks' := fun hm => hgf p (hst'.marks_subset hm) hp
    rw [hst'.mem_checked, hs.checked]
    simp [hmarks]
  obtain ⟨u', issues, marks, hu', hst, htu'⟩ := report_gains hf hftested
  refine ⟨t', u', ht', hu', ?_, ?_⟩
  · rw [htu.issues_eq, hst.issues_eq, htu'.issues_eq, hst'.issues_eq, List.append_assoc,
      List.append_assoc]
    exact hs.issues.append List.perm_append_comm
  · intro p
    rw [htu.mem_checked, hst.mem_checked, htu'.mem_checked, hst'.mem_checked, hs.checked]
    tauto

end Function

section Reports

variable {contract : String} {functions functions' : List Function} {records : List Record}

theorem reportFunctions_alike (hs : s.Alike s')
    (h : reportFunctions cfg contract functions s = .ok records t) :
    ∃ t', reportFunctions cfg contract functions s' = .ok records t' ∧ t.Alike t' := by
  induction functions generalizing s s' records with
  | nil =>
    cases h
    exact ⟨s', rfl, hs⟩
  | cons f rest ih =>
    obtain ⟨here, later, u, hu, hv, rfl⟩ := reportFunctions_cons.1 h
    obtain ⟨u', hu', hs⟩ := Function.report_alike hs hu
    obtain ⟨t', hv', ht⟩ := ih hs hv
    exact ⟨t', reportFunctions_cons.2 ⟨here, later, u', hu', hv', rfl⟩, ht⟩

/-- Functions of which none looks for another one's marks can be analysed in any order. -/
theorem reportFunctions_perm (hperm : functions.Perm functions')
    (hind : ∀ f ∈ functions, ∀ g ∈ functions, f ≠ g → ∀ p ∈ f.marked, p ∉ g.tested)
    (hs : s.Alike s') (h : reportFunctions cfg contract functions s = .ok records t) :
    ∃ records' t', reportFunctions cfg contract functions' s' = .ok records' t' ∧ t.Alike t' := by
  induction hperm generalizing s s' records t with
  | nil =>
    cases h
    exact ⟨[], s', rfl, hs⟩
  | cons f hperm ih =>
    obtain ⟨here, later, u, hu, hv, -⟩ := reportFunctions_cons.1 h
    obtain ⟨u', hu', hs⟩ := Function.report_alike hs hu
    have hrest := fun f hf g hg =>
      hind f (List.mem_cons_of_mem _ hf) g (List.mem_cons_of_mem _ hg)
    obtain ⟨later', t', hv', ht⟩ := ih hrest hs hv
    exact ⟨_, t', reportFunctions_cons.2 ⟨here, later', u', hu', hv', rfl⟩, ht⟩
  | swap f g rest =>
    obtain ⟨first, _, u, hu, h, -⟩ := reportFunctions_cons.1 h
    obtain ⟨second, later, v, hv, hw, -⟩ := reportFunctions_cons.1 h
    have hg : g ∈ g :: f :: rest := List.mem_cons_self
    have hf : f ∈ g :: f :: rest := List.mem_cons_of_mem _ List.mem_cons_self
    have hswap : ∃ here there u' v', f.report cfg contract s' = .ok here u' ∧
        g.report cfg contract u' = .ok there v' ∧ v.Alike v' := by
      by_cases heq : g = f
      · subst heq
        obtain ⟨u', hu', hs⟩ := Function.report_alike hs hu
        obtain ⟨v', hv', hs⟩ := Function.report_alike hs hv
        exact ⟨first, second, u', v', hu', hv', hs⟩
      · obtain ⟨u', v', hu', hv', hs⟩ := Function.report_swap (hind g hg f hf heq)
          (hind f hf g hg fun h => heq h.symm) hs hu hv
        exact ⟨second, first, u', v', hu', hv', hs⟩
    obtain ⟨here, there, u', v', hu', hv', hs⟩ := hswap
    obtain ⟨t', hw', ht⟩ := reportFunctions_alike hs hw
    exact ⟨_, t', reportFunctions_cons.2 ⟨here, _, u', hu',
      reportFunctions_cons.2 ⟨there, later, v', hv', hw', rfl⟩, rfl⟩, ht⟩
  | trans h₁ _ ih₁ ih₂ =>
    obtain ⟨_, u, hu, htu⟩ := ih₁ hind ⟨.refl _, fun _ => Iff.rfl⟩ h
    have hind₂ := fun f hf g hg => hind f (h₁.mem_iff.2 hf) g (h₁.mem_iff.2 hg)
    obtain ⟨records', t', ht', hut⟩ := ih₂ hind₂ hs hu
    exact ⟨records', t', ht', htu.trans hut⟩

end Reports

def Contract.Reorders (c c' : Contract) : Prop :=
  c' = { c with functions := c'.functions } ∧ c.functions.Perm c'.functions

theorem Contract.Reorders.isFinancial {c c' : Contract} (h : c.Reorders c') :
    c.isFinancial = c'.isFinancial := by
  obtain ⟨hc, hperm⟩ := h
  rw [hc]
  simp only [Contract.isFinancial]
  rw [hperm.any_eq, (hperm.filter _).length_eq]

namespace Record

def isIssue : Record → Bool
  | .located _ _ _ _ _ => false
  | .issue _ => true

end Record

section Contracts

variable {contracts contracts' : List Contract} {records : List Record}

theorem reportContracts_reorder (hc : List.Forall₂ Contract.Reorders contracts contracts')
    (hind : ∀ c ∈ contracts, ∀ f ∈ c.functions.filter (!·.isSkipped),
      ∀ g ∈ c.functions.filter (!·.isSkipped), f ≠ g → ∀ p ∈ f.marked, p ∉ g.tested)
    (hs : s.Alike s') (h : reportContracts cfg contracts s = .ok records t) :
    ∃ records' t', reportContracts cfg contracts' s' = .ok records' t' ∧ t.Alike t' := by
  induction hc generalizing s s' records t with
  | nil =>
    cases h
    exact ⟨[], s', rfl, hs⟩
  | cons hcc _ ih =>
    obtain ⟨hc, hrest⟩ := List.forall_mem_cons.1 hind
    obtain ⟨here, later, u, hu, hv, -⟩ := reportContracts_cons.1 h
    obtain ⟨heq, hperm⟩ := hcc
    obtain ⟨here', u', hu', hs⟩ := reportFunctions_perm (hperm.filter _) hc hs hu
    obtain ⟨later', t', hv', ht⟩ := ih hrest hs hv
    refine ⟨_, t', reportContracts_cons.2 ⟨here', later', u', ?_, hv', rfl⟩, ht⟩
    rw [heq]
    exact hu'

theorem mem_reportContracts (h : reportContracts cfg contracts s = .ok records t) :
    ∀ record ∈ records, ∃ (contract function : String) (p : Place) (i : Interval) (v : Violation),
      p.violation? i = some v ∧
        record = .located contract function p.text (v.text p) i.text := by
  intro record hrecord
  obtain ⟨rfl, -⟩ := reportContracts_outcomes h
  obtain ⟨⟨c, f⟩, -, hrecord⟩ := List.mem_flatMap.1 hrecord
  obtain ⟨p, i, v, hv, rfl⟩ := Function.mem_outcome hrecord
  exact ⟨c.name, f.name, p, i, v, hv, rfl⟩

theorem reportContracts_not_isIssue (h : reportContracts cfg contracts s = .ok records t) :
    ∀ record ∈ records, record.isIssue = false := by
  intro record hrecord
  obtain ⟨_, _, _, _, _, -, rfl⟩ := mem_reportContracts h record hrecord
  rfl

end Contracts

namespace CompilationUnit

variable {u u' : CompilationUnit} {records : List Record}

theorem analyze_ok : u.analyze cfg s = .ok records t ↔
    ∃ violations, reportContracts cfg (u.derivedContracts.filter (·.isFinancial)) s =
        .ok violations t ∧ records = violations ++ t.issues.map fun issue => .issue issue.text := by
  constructor
  · intro h
    obtain ⟨violations, v, hv, h⟩ := Analysis.bind_eq_ok.1 h
    cases h
    exact ⟨violations, hv, rfl⟩
  · rintro ⟨violations, hv, rfl⟩
    exact Analysis.bind_eq_ok.2 ⟨violations, t, hv, rfl⟩

theorem filter_isIssue (h : u.analyze cfg s = .ok records t) :
    records.filter (·.isIssue) = t.issues.map fun issue => .issue issue.text := by
  obtain ⟨violations, hv, rfl⟩ := analyze_ok.1 h
  have hnone : violations.filter (·.isIssue) = [] := by
    rw [List.filter_eq_nil_iff]
    intro record hrecord
    rw [reportContracts_not_isIssue hv record hrecord]
    exact Bool.false_ne_true
  have hall : (t.issues.map fun issue => Record.issue issue.text).filter (·.isIssue) =
      t.issues.map fun issue => .issue issue.text := by
    rw [List.filter_eq_self]
    intro record hrecord
    obtain ⟨issue, -, rfl⟩ := List.mem_map.1 hrecord
    rfl
  rw [List.filter_append, hnone, hall, List.nil_append]

theorem analysed_reorder (h : List.Forall₂ Contract.Reorders u.contracts u'.contracts) :
    List.Forall₂ Contract.Reorders (u.derivedContracts.filter (·.isFinancial))
      (u'.derivedContracts.filter (·.isFinancial)) := by
  have hfinancial : ∀ ⦃c c' : Contract⦄, c.Reorders c' → (c.isFinancial ↔ c'.isFinancial) :=
    fun c c' hc => by rw [hc.isFinancial]
  have hderived : ∀ ⦃c c' : Contract⦄, c.Reorders c' → (c.isDerived ↔ c'.isDerived) :=
    fun c c' hc => by rw [hc.1]
  exact List.rel_filter hfinancial (List.rel_filter hderived h)

/-- The order of functions does not matter where none looks for the marks of another. -/
theorem analyze_issues_perm (hu : List.Forall₂ Contract.Reorders u.contracts u'.contracts)
    (hind : ∀ c ∈ u.contracts, ∀ f ∈ c.functions.filter (!·.isSkipped),
      ∀ g ∈ c.functions.filter (!·.isSkipped), f ≠ g → ∀ p ∈ f.marked, p ∉ g.tested)
    (h : u.analyze cfg .initial = .ok records t) :
    ∃ records' t', u'.analyze cfg .initial = .ok records' t' ∧
      (records.filter (·.isIssue)).Perm (records'.filter (·.isIssue)) := by
  obtain ⟨violations, hv, -⟩ := analyze_ok.1 h
  have hind' : ∀ c ∈ u.derivedContracts.filter (·.isFinancial), _ := fun c hc =>
    hind c (List.mem_of_mem_filter (List.mem_of_mem_filter hc))
  obtain ⟨violations', t', hv', ht⟩ :=
    reportContracts_reorder (analysed_reorder hu) hind' ⟨.refl _, fun _ => Iff.rfl⟩ hv
  have h' := (analyze_ok (u := u')).2 ⟨violations', hv', rfl⟩
  refine ⟨_, t', h', ?_⟩
  rw [filter_isIssue h, filter_isIssue h']
  exact ht.issues.map _

end CompilationUnit

/-- A unit with one contract of decentralised finance. -/
def poolWith (functions : List Function) : CompilationUnit :=
  ⟨[⟨"Pool", functions, [], [], false, false, true, []⟩], [], .all⟩

def plainSum (name : String) : Function :=
  { Function.ofNodes [.ofType "a" "uint256", .ofType "b" "uint256"] [.ofInstrs [
      .binary .add (.var (.ofType name "uint256")) (.place (.var (.ofType "a" "uint256")))
        (.place (.var (.ofType "b" "uint256")))] []] with name := "plain" }

def checkedSum (name : String) : Function :=
  { Function.ofNodes [.ofType "a" "uint256", .ofType "b" "uint256"] [.ofInstrs [
      .builtin (some (.var (.ofType name "uint256")))
        (.known ⟨.given "add", some "SafeMath", none, .missing⟩)
        (.given [.place (.var (.ofType "a" "uint256")), .place (.var (.ofType "b" "uint256"))])
        ""] []] with name := "checked" }

theorem pool_issues_perm :
    ∃ records t records' t',
      (poolWith [checkedSum "v", plainSum "w"]).analyze {} .initial = .ok records t ∧
        (poolWith [plainSum "w", checkedSum "v"]).analyze {} .initial = .ok records' t' ∧
        (records.filter (·.isIssue)).Perm (records'.filter (·.isIssue)) := by
  have hu : List.Forall₂ Contract.Reorders (poolWith [checkedSum "v", plainSum "w"]).contracts
      (poolWith [plainSum "w", checkedSum "v"]).contracts := .cons ⟨rfl, .swap _ _ _⟩ .nil
  have hends : ((poolWith [checkedSum "v", plainSum "w"]).analyze {}).completes .initial := by
    decide +kernel
  obtain ⟨records, t, h⟩ := Analysis.completes_iff.1 hends
  obtain ⟨records', t', h', hperm⟩ := CompilationUnit.analyze_issues_perm hu (by decide +kernel) h
  exact ⟨records, t, records', t', h, h', hperm⟩

/-- The mark of the checked sum spares the plain sum its alarms, if it comes first. -/
theorem pool_loses_issues :
    (poolWith [checkedSum "v", plainSum "v"]).records.map (·.filter (·.isIssue)) = .ok [] ∧
      (poolWith [plainSum "v", checkedSum "v"]).records.map (·.filter (·.isIssue)) =
        .ok (List.replicate 3 (.issue (Issue.additionOverflow (.var (.ofType "v" "uint256"))
          .unsignedWord .unsignedWord).text)) := by
  decide +kernel

end RangeAudit
