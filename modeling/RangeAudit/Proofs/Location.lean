import RangeAudit.Proofs.Agreement
import RangeAudit.Proofs.Export

namespace RangeAudit

variable {u : CompilationUnit} {c : Contract} {f : Function} {records : List Record} {t : State}

theorem gather_append {α : Type} {find : α → Except Failure (List Finding)} {l l' : List α}
    {here later : List Finding} (h : gather find l = .ok here) (h' : gather find l' = .ok later) :
    gather find (l ++ l') = .ok (here ++ later) := by
  induction l generalizing here with
  | nil =>
    cases h
    exact h'
  | cons a l ih =>
    obtain ⟨first, rest, ha, hl, rfl⟩ := gather_cons.1 h
    exact gather_cons.2 ⟨first, rest ++ later, ha, ih hl, List.append_assoc _ _ _⟩

def LookupMode.IsSearch (m : LookupMode) : Prop :=
  m = .all ∨ m = .first

namespace CompilationUnit

/-- The names stand for no other contract of the unit and no other function of the contract. -/
structure NamesOnly (u : CompilationUnit) (c : Contract) (f : Function) : Prop where
  contract : ∀ c' ∈ u.contracts, c'.name = c.name → c' = c
  function : ∀ f' ∈ c.functions, f'.name = f.name → f' = f

def IsMapped (u : CompilationUnit) : Prop :=
  ∀ c ∈ u.contracts, ∀ f ∈ c.functions, f.isMapped

instance (u : CompilationUnit) : Decidable u.IsMapped :=
  inferInstanceAs (Decidable (∀ c ∈ u.contracts, ∀ f ∈ c.functions, f.isMapped))

theorem lookup_found (h : u.lookupMode.IsSearch) (contract : String) :
    ∃ contracts, u.lookup contract = .found contracts := by
  unfold lookup search
  rcases h with h | h <;> rw [h] <;> exact ⟨_, rfl⟩

theorem firstNamed?_eq (h : u.lookupMode.IsSearch) (contract function : String) :
    u.firstNamed? contract function =
      (u.contracts.find? (·.name == contract)).bind (·.functionNamed? function) := by
  unfold firstNamed?
  rcases h with h | h <;> rw [h]

theorem IsMapped.firstNamed? (hmapped : u.IsMapped) (h : u.lookupMode.IsSearch)
    (contract function : String) : (u.firstNamed? contract function).all (·.isMapped) := by
  rw [firstNamed?_eq h]
  cases hc : u.contracts.find? (·.name == contract) with
  | none => rfl
  | some c =>
    cases hf : c.functionNamed? function with
    | none => simp [hf]
    | some f =>
      have hisMapped : f.isMapped :=
        hmapped c (List.mem_of_find?_eq_some hc) f (List.mem_of_find?_eq_some hf)
      simp [hf, hisMapped]

theorem NamesOnly.firstNamed? (hnames : u.NamesOnly c f) (h : u.lookupMode.IsSearch)
    (hc : c ∈ u.contracts) (hf : f ∈ c.functions) : u.firstNamed? c.name f.name = some f := by
  have hcontract : u.contracts.find? (·.name == c.name) = some c :=
    find?_of_unique Contract.name hc hnames.contract
  have hfunction : c.functionNamed? f.name = some f :=
    find?_of_unique Function.name hf hnames.function
  rw [firstNamed?_eq h, hcontract, Option.bind_some, hfunction]

theorem mem_of_mem_analysed (h : (c, f) ∈ u.analysed) : c ∈ u.contracts ∧ f ∈ c.functions := by
  obtain ⟨c', hc, hf⟩ := List.mem_flatMap.1 h
  obtain ⟨f', hf, heq⟩ := List.mem_map.1 hf
  cases heq
  exact ⟨List.mem_of_mem_filter (List.mem_of_mem_filter hc), List.mem_of_mem_filter hf⟩

noncomputable def attributed (u : CompilationUnit) : List ((Contract × Function) × Record) :=
  u.analysed.flatMap fun e => (e.2.outcome {} e.1.name).1.map (e, ·)

theorem records_ok (h : u.analyze {} .initial = .ok records t) : u.records = .ok records := by
  rw [CompilationUnit.records, EStateM.run, h]

theorem analyze_attributed (h : u.analyze {} .initial = .ok records t) :
    records = u.attributed.map (·.2) ++ t.issues.map fun issue => .issue issue.text := by
  obtain ⟨violations, hv, rfl⟩ := analyze_ok.1 h
  rw [(reportContracts_outcomes hv).1, attributed, List.map_flatMap]
  simp [analysed, Function.comp_def]

end CompilationUnit

/-- A finding on a violation that points to the first function under its names. -/
structure Finding.IsAt (u : CompilationUnit) (e : (Contract × Function) × Record) (x : Finding) :
    Prop where
  on : x.IsOn LimitViolation.profile e.2
  first : x.functions = (u.firstNamed? e.1.1.name e.1.2.name).toList
  own : u.NamesOnly e.1.1 e.1.2 → x.functions = [e.1.2]

structure Finding.IsNowhere (issue : Issue) (x : Finding) : Prop where
  on : x.IsOn LimitViolation.profile (.issue issue.text)
  functions : x.functions = []

namespace LimitViolation

theorem inspect_attributed (hmode : u.lookupMode.IsSearch) (hmapped : u.IsMapped)
    {e : (Contract × Function) × Record} (he : e ∈ u.attributed) :
    ∃ x, inspect u e.2 = .ok [x] ∧ x.IsAt u e := by
  obtain ⟨⟨c, f⟩, hcf, he⟩ := List.mem_flatMap.1 he
  obtain ⟨r, hr, rfl⟩ := List.mem_map.1 he
  obtain ⟨p, i, v, -, rfl⟩ := Function.mem_outcome hr
  obtain ⟨hc, hf⟩ := CompilationUnit.mem_of_mem_analysed hcf
  obtain ⟨x, hx, hfirst, hon⟩ := inspect_located (u.lookup_found hmode c.name)
    (hmapped.firstNamed? hmode c.name f.name)
  refine ⟨x, hx, hon, hfirst, fun hnames => ?_⟩
  rw [hfirst, hnames.firstNamed? hmode hc hf]
  rfl

theorem inspect_nowhere (u : CompilationUnit) (issue : Issue) :
    ∃ x, inspect u (.issue issue.text) = .ok [x] ∧ x.IsNowhere issue := by
  obtain ⟨x, hx, hfunctions, hon⟩ := inspect_issue issue.text
  exact ⟨x, hx, hon, hfunctions⟩

/-- Each violation points to the first function under its names. -/
theorem detect_points_to_first (hmode : u.lookupMode.IsSearch) (hmapped : u.IsMapped)
    (h : u.analyze {} .initial = .ok records t) :
    records = u.attributed.map (·.2) ++ t.issues.map (fun issue => .issue issue.text) ∧
      ∃ located issued, detect u = .ok (located ++ issued) ∧
        List.Forall₂ (Finding.IsAt u) u.attributed located ∧
        List.Forall₂ Finding.IsNowhere t.issues issued := by
  have hattributed := CompilationUnit.analyze_attributed h
  obtain ⟨located, hlocated, hat⟩ := gather_each fun e he => inspect_attributed hmode hmapped he
  obtain ⟨issued, hissued, hnowhere⟩ := gather_each fun issue (_ : issue ∈ t.issues) =>
    inspect_nowhere u issue
  refine ⟨hattributed, located, issued, ?_, hat, hnowhere⟩
  rw [← gather_map] at hlocated hissued
  rw [detect, CompilationUnit.records_ok h, hattributed]
  exact gather_append hlocated hissued

end LimitViolation

theorem Function.outcome_of_run {contract : String} (h : (f.report {} contract).run' .initial =
    some records) : (f.outcome {} contract).1 = records := by
  unfold EStateM.run' at h
  split at h
  · rename_i hrun
    cases h
    exact (report_outcome hrun).1.symm
  · cases h

def overspend : Function :=
  { overdraw with name := "g" }

theorem overdrafts_point_to_own :
    ∃ records t x y issued,
      (poolWith [overspend, overdraw]).analyze {} .initial = .ok records t ∧
        LimitViolation.detect (poolWith [overspend, overdraw]) = .ok ([x, y] ++ issued) ∧
        x.functions = [overspend] ∧ y.functions = [overdraw] := by
  let pool : Contract := ⟨"Pool", [overspend, overdraw], [], [], false, false, true, []⟩
  have hends : ((poolWith [overspend, overdraw]).analyze {}).completes .initial := by
    decide +kernel
  have hattributed : (poolWith [overspend, overdraw]).attributed =
      [((pool, overspend), .located "Pool" "g" "v" "v 可能下溢 (< 0)" "[-1, -1]"),
        ((pool, overdraw), .located "Pool" "f" "v" "v 可能下溢 (< 0)" "[-1, -1]")] := by
    have hanalysed : (poolWith [overspend, overdraw]).analysed =
        [(pool, overspend), (pool, overdraw)] := by decide +kernel
    have hg : (overspend.outcome {} pool.name).1 =
        [.located "Pool" "g" "v" "v 可能下溢 (< 0)" "[-1, -1]"] :=
      Function.outcome_of_run (by decide +kernel)
    have hf : (overdraw.outcome {} pool.name).1 =
        [.located "Pool" "f" "v" "v 可能下溢 (< 0)" "[-1, -1]"] :=
      Function.outcome_of_run (by decide +kernel)
    simp [CompilationUnit.attributed, hanalysed, hg, hf]
  have hcontract : ∀ c ∈ (poolWith [overspend, overdraw]).contracts, c.name = pool.name →
      c = pool := by decide +kernel
  obtain ⟨records, t, h⟩ := Analysis.completes_iff.1 hends
  obtain ⟨-, located, issued, hdetect, hat, -⟩ :=
    LimitViolation.detect_points_to_first (.inl rfl) (by decide +kernel) h
  rw [hattributed] at hat
  obtain ⟨x, rest, hx, hrest, rfl⟩ := List.forall₂_cons_left_iff.1 hat
  obtain ⟨y, rest, hy, hnil, rfl⟩ := List.forall₂_cons_left_iff.1 hrest
  cases hnil
  exact ⟨records, t, x, y, issued, h, hdetect, hx.own ⟨hcontract, by decide +kernel⟩,
    hy.own ⟨hcontract, by decide +kernel⟩⟩

/-- Of two functions of one name the second breaks a limit, and the finding points to the first. -/
theorem overload_points_to_first :
    (poolWith [.ofNodes [] []]).records = .ok [] ∧
      (poolWith [.ofNodes [] [], overdraw]).records =
        .ok [.located "Pool" "f" "v" "v 可能下溢 (< 0)" "[-1, -1]"] ∧
      (LimitViolation.detect (poolWith [.ofNodes [] [], overdraw])).map (·.map (·.functions)) =
        .ok [[.ofNodes [] []]] := by
  decide +kernel

end RangeAudit
