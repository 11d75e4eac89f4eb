import RangeAudit.Analysis.Unit
import RangeAudit.Proofs.Lifting

namespace RangeAudit

variable {α β : Type} {cfg : Config} {s s' t t' : State} {i : Instr} {p : Place} {op : Operator}
  {left : Operand} {l u : Interval}

namespace Effect

theorem operandAlarms_checked {isChecked : Bool} {issues : List Issue}
    (h : operandAlarms isChecked op p left l u = .ok issues) :
    ∃ fewer, operandAlarms true op p left l u = .ok fewer := by
  cases isChecked with
  | true => exact ⟨issues, h⟩
  | false =>
    unfold operandAlarms at h ⊢
    cases hz : Issue.raised (op.zeroAlarm? left u p) with
    | ok zero => exact ⟨zero, rfl⟩
    | error f =>
      rw [hz] at h
      cases hw : op.wordAlarm l u p with
      | error e =>
        rw [hw] at h
        cases h
      | ok issue? =>
        rw [hw] at h
        cases hr : Issue.raised issue? <;> simp [bind, Except.bind, hr] at h

theorem binaryOn_mono {checked checked' : List Place} (hc : ∀ p ∈ checked, p ∈ checked')
    (h : (binaryOn checked op p left l u).failure? = none) :
    (binaryOn checked' op p left l u).failure? = none := by
  have hop := binaryOn_failure h
  unfold binaryOn at h ⊢
  simp only [hop, Option.isSome_none, Bool.false_eq_true, if_false] at h ⊢
  have hok : ∃ issues, operandAlarms (checked.contains p) op p left l u = .ok issues := by
    split at h
    · cases h
    · exact ⟨_, ‹_›⟩
  have hok' : ∃ issues, operandAlarms (checked'.contains p) op p left l u = .ok issues := by
    obtain ⟨issues, hissues⟩ := hok
    by_cases hp : p ∈ checked'
    · rw [List.contains_iff_mem.2 hp]
      exact operandAlarms_checked hissues
    · have hcontains : checked'.contains p = checked.contains p := by
        rw [Bool.eq_iff_iff, List.contains_iff_mem, List.contains_iff_mem]
        exact iff_of_false hp (mt (hc p) hp)
      exact ⟨issues, hcontains ▸ hissues⟩
  obtain ⟨issues, hissues⟩ := hok'
  rw [hissues]

end Effect

/-- Only a binary operation looks at more than intervals: at the mark of its result. -/
theorem Instr.effect_eq_or_binary (hr : ∀ p ∈ i.reads, s.ranges.get? p = t.ranges.get? p) :
    i.effect s = i.effect t ∨ ∃ op p left right l u, i = .binary op p left right ∧
      i.effect s = Effect.binaryOn s.checked op p left l u ∧
        i.effect t = Effect.binaryOn t.checked op p left l u := by
  cases i with
  | binary op result left right =>
    have hl : left.interval s.ranges = left.interval t.ranges :=
      Operand.interval_congr fun p hp => hr p (List.mem_append_left _ hp)
    have hr : right.interval s.ranges = right.interval t.ranges :=
      Operand.interval_congr fun p hp => hr p (List.mem_append_right _ hp)
    simp only [effect, Effect.binary, hl, hr]
    split
    · exact .inl rfl
    split
    · exact .inl rfl
    · exact .inr ⟨op, result, left, right, _, _, rfl, rfl, rfl⟩
  | assign result source =>
    cases source with
    | literal c => exact .inl rfl
    | place p =>
      have hp : s.ranges.get? p = t.ranges.get? p := hr p (by simp [reads, Operand.places])
      exact .inl (by simp only [effect, Effect.assign, hp])
  | convert result source =>
    cases source with
    | literal c => exact .inl rfl
    | place p =>
      have hp : s.ranges.get? p = t.ranges.get? p := hr p (by simp [reads, Operand.places])
      exact .inl (by simp only [effect, Effect.convert, Operand.place?, Option.bind_some, hp])
  | builtin result? target args text =>
    exact .inl ((Effect.builtin_form result? target args).congr hr)
  | member | call | condition | other | incomplete => exact .inl rfl

theorem Instr.effect_mono (hr : ∀ p ∈ i.reads, s.ranges.get? p = t.ranges.get? p)
    (hc : ∀ p ∈ s.checked, p ∈ t.checked) (hs : (i.effect s).failure? = none) :
    (i.effect t).failure? = none ∧ (i.effect t).checked? = (i.effect s).checked? := by
  rcases effect_eq_or_binary hr with heq | ⟨op, p, left, right, l, u, -, hes, het⟩
  · rw [← heq]
    exact ⟨hs, rfl⟩
  · rw [hes] at hs
    rw [hes, het, Effect.binaryOn_checked, Effect.binaryOn_checked]
    exact ⟨Effect.binaryOn_mono hc hs, rfl⟩

/-- Two states track the same intervals, and the second marks what the first marks. -/
structure State.Below (s t : State) : Prop where
  ranges : s.ranges = t.ranges
  checked : ∀ p ∈ s.checked, p ∈ t.checked

theorem mem_insertPlace {places : List Place} {p q : Place} :
    q ∈ insertPlace places p ↔ q ∈ places ∨ q = p := by
  unfold insertPlace
  split
  · rename_i h
    constructor
    · exact .inl
    · rintro (hq | rfl)
      · exact hq
      · exact List.contains_iff_mem.1 h
  · simp

theorem State.Below.apply {d e : Effect} (h : s.Below s') (hstore : e.store? = d.store?)
    (hchecked : e.checked? = d.checked?) : (s.apply d).Below (s'.apply e) := by
  constructor
  · simp only [State.apply, hstore, h.ranges]
  · intro p hp
    simp only [State.apply, hchecked] at hp ⊢
    split at hp
    · rename_i q hq
      rw [mem_insertPlace] at hp ⊢
      exact hp.imp_left (h.checked p)
    · exact h.checked p hp

theorem State.tracksAlike_below : TracksAlike State.Below where
  ranges h := h.ranges
  setRanges h _ := ⟨rfl, h.checked⟩

theorem Instr.process_lifts_below (i : Instr) : i.process.Lifts State.Below := by
  intro s s' t b hs h
  obtain ⟨hn, rfl⟩ := process_ok_iff.1 h
  have hreads : ∀ p ∈ i.reads, s.ranges.get? p = s'.ranges.get? p := by
    intro p _
    rw [hs.ranges]
  obtain ⟨hn', hchecked⟩ := effect_mono hreads hs.checked hn
  have hstore := (effect_store_congr hreads).symm
  exact ⟨_, process_ok_iff.2 ⟨hn', rfl⟩, hs.apply hstore hchecked⟩

theorem mem_of_mapM_ok {g : α → Except Failure β} {l : List α} {m : List β} {b : β}
    (h : l.mapM g = .ok m) (hb : b ∈ m) : ∃ a ∈ l, g a = .ok b := by
  induction l generalizing m with
  | nil =>
    cases h
    cases hb
  | cons a l ih =>
    rw [List.mapM_cons] at h
    cases ha : g a with
    | error e =>
      rw [ha] at h
      cases h
    | ok c =>
      cases hl : l.mapM g with
      | error e =>
        rw [ha, hl] at h
        cases h
      | ok m =>
        rw [ha, hl] at h
        cases h
        rcases List.mem_cons.1 hb with rfl | hb
        · exact ⟨a, List.mem_cons_self, ha⟩
        · obtain ⟨a', ha', hab⟩ := ih hl hb
          exact ⟨a', List.mem_cons_of_mem _ ha', hab⟩

theorem Ranges.mem_violations {r : Ranges} {contract function : String} {records : List Record}
    {record : Record} (h : r.violations contract function = .ok records) (hr : record ∈ records) :
    ∃ p i v, (p, i) ∈ r.entries ∧ p.violation? i = some v ∧
      record = .located contract function p.text (v.text p) i.text := by
  obtain ⟨⟨p, i, v⟩, hb, h⟩ := mem_of_mapM_ok h hr
  obtain ⟨⟨q, j⟩, he, hv⟩ := List.mem_filterMap.1 hb
  obtain ⟨w, hw, heq⟩ := Option.map_eq_some_iff.1 hv
  cases heq
  refine ⟨p, i, v, he, hw, ?_⟩
  dsimp only at h
  unfold Violation.write Interval.write at h
  split at h
  · split at h
    · cases h
      rfl
    · cases h
  · cases h

namespace Function

variable {f : Function} {contract : String} {records : List Record}

theorem analyze_lifts_below (cfg : Config) (f : Function) : (f.analyze cfg).Lifts State.Below :=
  analyze_lifts State.tracksAlike_below (fun i _ => i.process_lifts_below) cfg

theorem analyze_summaries (h : f.analyze cfg s = .ok () t) : t.summaries = s.summaries := by
  let R (u u' : State) : Prop := u = u' ∧ u.summaries = s.summaries
  have hR : TracksAlike R := by
    constructor
    · rintro u _ ⟨rfl, -⟩
      rfl
    · rintro u _ ⟨rfl, hu⟩ r
      exact ⟨rfl, hu⟩
  have hinstr : ∀ i ∈ f.instrs, i.process.Lifts R := by
    rintro i - u _ v b ⟨rfl, hu⟩ hv
    refine ⟨v, hv, rfl, ?_⟩
    obtain ⟨-, rfl⟩ := Instr.process_ok_iff.1 hv
    exact hu
  obtain ⟨_, -, -, ht⟩ := analyze_lifts hR hinstr cfg ⟨rfl, rfl⟩ h
  exact ht

/-- All completed analyses of a function end with the same intervals. -/
theorem analyze_ranges_eq (h : f.analyze cfg s = .ok () t) (h' : f.analyze cfg s' = .ok () t') :
    t.ranges = t'.ranges := by
  -- both runs lift to one that starts with the marks of both
  let both : State := { s with ranges := .empty, checked := s.checked ++ s'.checked }
  rw [← analyze_reset cfg f s .empty] at h
  rw [← analyze_reset cfg f s' .empty] at h'
  have hs : State.Below { s with ranges := .empty } both :=
    ⟨rfl, fun p hp => List.mem_append_left _ hp⟩
  have hs' : State.Below { s' with ranges := .empty } both :=
    ⟨rfl, fun p hp => List.mem_append_right _ hp⟩
  obtain ⟨u, hu, hb⟩ := f.analyze_lifts_below cfg hs h
  obtain ⟨u', hu', hb'⟩ := f.analyze_lifts_below cfg hs' h'
  cases hu.symm.trans hu'
  exact hb.ranges.trans hb'.ranges.symm

theorem report_ok : f.report cfg contract s = .ok records t ↔
    ∃ u, f.analyze cfg s = .ok () u ∧ u.ranges.violations contract f.name = .ok records ∧
      t = { u with summaries := u.summaries ++ [f.summary contract u.ranges] } := by
  have hlist (u : State) : (do
      modify fun s => { s with summaries := s.summaries ++ [f.summary contract s.ranges] }
      .ofExcept ((← get).ranges.violations contract f.name) : Analysis (List Record)) u =
        .ok records t ↔ u.ranges.violations contract f.name = .ok records ∧
          t = { u with summaries := u.summaries ++ [f.summary contract u.ranges] } := by
    rw [Analysis.bind_ok (Analysis.modify_apply _ u), Analysis.bind_ok (Analysis.get_apply _)]
    dsimp only
    cases u.ranges.violations contract f.name with
    | error e => simp [Analysis.ofExcept_error]
    | ok r => simp [Analysis.ofExcept_ok, eq_comm]
  constructor
  · intro h
    obtain ⟨_, u, hu, h⟩ := Analysis.bind_eq_ok.1 h
    exact ⟨u, hu, (hlist u).1 h⟩
  · rintro ⟨u, hu, h⟩
    exact Analysis.bind_eq_ok.2 ⟨(), u, hu, (hlist u).2 h⟩

/-- Some analysis of the function completes with the given intervals. -/
def EndsWith (cfg : Config) (f : Function) (r : Ranges) : Prop :=
  ∃ s t, f.analyze cfg s = .ok () t ∧ t.ranges = r

noncomputable def finalRanges (cfg : Config) (f : Function) : Ranges :=
  @Classical.epsilon Ranges ⟨.empty⟩ (f.EndsWith cfg)

theorem analyze_finalRanges (h : f.analyze cfg s = .ok () t) : t.ranges = f.finalRanges cfg := by
  have hends : f.EndsWith cfg t.ranges := ⟨s, t, h, rfl⟩
  obtain ⟨s', t', h', hr⟩ : f.EndsWith cfg (f.finalRanges cfg) :=
    Classical.epsilon_spec (p := f.EndsWith cfg) ⟨t.ranges, hends⟩
  exact (analyze_ranges_eq h h').trans hr

noncomputable def outcome (cfg : Config) (contract : String) (f : Function) :
    List Record × Summary :=
  (((f.finalRanges cfg).violations contract f.name).toOption.getD [],
    f.summary contract (f.finalRanges cfg))

theorem report_outcome (h : f.report cfg contract s = .ok records t) :
    records = (f.outcome cfg contract).1 ∧
      t.summaries = s.summaries ++ [(f.outcome cfg contract).2] := by
  obtain ⟨u, hu, hrecords, rfl⟩ := report_ok.1 h
  dsimp only
  rw [analyze_finalRanges hu] at hrecords ⊢
  rw [analyze_summaries hu, outcome, hrecords]
  exact ⟨rfl, rfl⟩

theorem mem_outcome {record : Record} (h : record ∈ (f.outcome cfg contract).1) :
    ∃ (p : Place) (i : Interval) (v : Violation), p.violation? i = some v ∧
      record = .located contract f.name p.text (v.text p) i.text := by
  unfold outcome at h
  cases hviolations : (f.finalRanges cfg).violations contract f.name with
  | error e =>
    rw [hviolations] at h
    cases h
  | ok l =>
    rw [hviolations] at h
    obtain ⟨p, i, v, -, hv, rfl⟩ := Ranges.mem_violations hviolations h
    exact ⟨p, i, v, hv, rfl⟩

end Function

theorem reportFunctions_cons {contract : String} {f : Function} {rest : List Function}
    {records : List Record} :
    reportFunctions cfg contract (f :: rest) s = .ok records t ↔
      ∃ here later u, f.report cfg contract s = .ok here u ∧
        reportFunctions cfg contract rest u = .ok later t ∧ records = here ++ later :=
  Analysis.append_eq_ok

theorem reportFunctions_outcomes {contract : String} {functions : List Function}
    {records : List Record} (h : reportFunctions cfg contract functions s = .ok records t) :
    records = functions.flatMap (fun f => (f.outcome cfg contract).1) ∧
      t.summaries = s.summaries ++ functions.map fun f => (f.outcome cfg contract).2 := by
  induction functions generalizing s records with
  | nil =>
    cases h
    exact ⟨rfl, (List.append_nil _).symm⟩
  | cons f rest ih =>
    obtain ⟨here, later, u, hu, hv, rfl⟩ := reportFunctions_cons.1 h
    obtain ⟨rfl, hsummary⟩ := Function.report_outcome hu
    obtain ⟨rfl, hsummaries⟩ := ih hv
    rw [hsummaries, hsummary, List.append_assoc]
    exact ⟨rfl, rfl⟩

def analysedFunctions (contracts : List Contract) : List (Contract × Function) :=
  contracts.flatMap fun c => (c.functions.filter (!·.isSkipped)).map (c, ·)

theorem analysedFunctions_cons (c : Contract) (rest : List Contract) :
    analysedFunctions (c :: rest) =
      (c.functions.filter (!·.isSkipped)).map (c, ·) ++ analysedFunctions rest :=
  List.flatMap_cons

theorem reportContracts_cons {c : Contract} {rest : List Contract} {records : List Record} :
    reportContracts cfg (c :: rest) s = .ok records t ↔
      ∃ here later u,
        reportFunctions cfg c.name (c.functions.filter (!·.isSkipped)) s = .ok here u ∧
          reportContracts cfg rest u = .ok later t ∧ records = here ++ later :=
  Analysis.append_eq_ok

theorem reportContracts_outcomes {contracts : List Contract} {records : List Record}
    (h : reportContracts cfg contracts s = .ok records t) :
    records = (analysedFunctions contracts).flatMap (fun e => (e.2.outcome cfg e.1.name).1) ∧
      t.summaries =
        s.summaries ++ (analysedFunctions contracts).map fun e => (e.2.outcome cfg e.1.name).2 := by
  induction contracts generalizing s records with
  | nil =>
    cases h
    exact ⟨rfl, (List.append_nil _).symm⟩
  | cons c rest ih =>
    obtain ⟨here, later, u, hu, hv, rfl⟩ := reportContracts_cons.1 h
    obtain ⟨rfl, hsummary⟩ := reportFunctions_outcomes hu
    obtain ⟨rfl, hsummaries⟩ := ih hv
    rw [hsummaries, hsummary, analysedFunctions_cons, List.flatMap_append, List.map_append,
      List.flatMap_map, List.map_map, List.append_assoc]
    exact ⟨rfl, rfl⟩

namespace CompilationUnit

/-- Functions of decentralised finance that nothing derives from, constructors left out. -/
def analysed (u : CompilationUnit) : List (Contract × Function) :=
  analysedFunctions (u.derivedContracts.filter (·.isFinancial))

/-- What a function reports is fixed by the function and the name of its contract. -/
theorem analyze_noninterference (cfg : Config) :
    ∃ outcome : String → Function → List Record × Summary,
      (∀ (contract : String) (f : Function) (s : State) (records : List Record) (t : State),
        f.report cfg contract s = .ok records t →
          records = (outcome contract f).1 ∧
            t.summaries = s.summaries ++ [(outcome contract f).2]) ∧
      ∀ (u : CompilationUnit) (records : List Record) (t : State),
        u.analyze cfg .initial = .ok records t →
          records = u.analysed.flatMap (fun (c, f) => (outcome c.name f).1) ++
              t.issues.map (fun issue => .issue issue.text) ∧
            t.summaries = u.analysed.map fun (c, f) => (outcome c.name f).2 := by
  refine ⟨fun contract f => f.outcome cfg contract, ?_, ?_⟩
  · intro contract f s records t h
    exact Function.report_outcome h
  · intro u records t h
    obtain ⟨violations, v, hv, h⟩ := Analysis.bind_eq_ok.1 h
    cases h
    obtain ⟨rfl, hsummaries⟩ := reportContracts_outcomes hv
    exact ⟨rfl, hsummaries⟩

end CompilationUnit

def ledgerWith (functions : List Function) : CompilationUnit :=
  ⟨[⟨"Ledger", functions, [], [], false, false, true, []⟩], [], .all⟩

/-- A function that puts a negative number into an unsigned variable. -/
def overdraw : Function :=
  .ofNodes [] [.ofInstrs [.assign (.var (.ofType "v" "uint8")) (.literal (.int (-1)))] []]

/-- Without the other function the contract is not of finance, and nothing is analysed. -/
theorem ledger_loses_block :
    (ledgerWith [{ Function.ofNodes [] [] with name := "swap" }, overdraw]).records =
        .ok [.located "Ledger" "f" "v" "v 可能下溢 (< 0)" "[-1, -1]"] ∧
      (ledgerWith [{ Function.ofNodes [] [] with name := "swap" }, overdraw]).summaryTexts =
        .ok [("Ledger.swap", ⟨[], []⟩), ("Ledger.f", ⟨[], []⟩)] ∧
      (ledgerWith [overdraw]).records = .ok [] ∧ (ledgerWith [overdraw]).summaryTexts = .ok [] := by
  decide +kernel

end RangeAudit
