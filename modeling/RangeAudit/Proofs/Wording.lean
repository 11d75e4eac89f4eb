import Mathlib.Data.List.Infix
import RangeAudit.Proofs.Confidence

namespace RangeAudit

variable {u : CompilationUnit} {records : List Record} {v : Violation}

namespace Text

variable {word l tail : List Char}

/-- The word does not occur in the tail, and does not run over into it from the text before. -/
def Apart (word tail : List Char) : Prop :=
  ¬ occurs word tail ∧ ∀ rest ∈ word.tails, rest ≠ [] → ¬ rest.isPrefixOf tail

instance (word tail : List Char) : Decidable (Apart word tail) :=
  inferInstanceAs (Decidable (_ ∧ _))

theorem Apart.prefix_append_iff (h : Apart word tail) : word <+: l ++ tail ↔ word <+: l := by
  constructor
  · intro hword
    rcases List.prefix_or_prefix_of_prefix hword (List.prefix_append l tail) with hl | ⟨rest, rfl⟩
    · exact hl
    · have hrest : rest = [] := by
        by_contra hne
        refine h.2 rest ((List.mem_tails rest _).2 (List.suffix_append l rest)) hne ?_
        exact List.isPrefixOf_iff_prefix.2 ((List.prefix_append_right_inj l).1 hword)
      rw [hrest, List.append_nil]
  · exact fun hl => hl.trans (List.prefix_append l tail)

theorem Apart.occurs_append (h : Apart word tail) (l : List Char) :
    occurs word (l ++ tail) = occurs word l := by
  induction l with
  | nil =>
    have hne : word ≠ [] := by
      rintro rfl
      exact h.1 (occurs_nil tail)
    rw [List.nil_append, Bool.eq_false_iff.2 h.1, occurs, List.isEmpty_eq_false_iff.2 hne]
  | cons c l ih =>
    have hhead : word.isPrefixOf (c :: (l ++ tail)) = word.isPrefixOf (c :: l) := by
      rw [Bool.eq_iff_iff, List.isPrefixOf_iff_prefix, List.isPrefixOf_iff_prefix,
        ← List.cons_append, h.prefix_append_iff]
    rw [List.cons_append, occurs, occurs, ih, hhead]

end Text

namespace Violation

def endings : List String :=
  [" 可能溢出 (> 2^256)", " 可能下溢 (< 0)"]

theorem exists_ending (h : v = .overflow ∨ v = .underflow) (p : Place) :
    ∃ ending ∈ endings, v.text p = p.text ++ ending := by
  rcases h with rfl | rfl
  · exact ⟨_, List.mem_cons_self, rfl⟩
  · exact ⟨_, List.mem_cons_of_mem _ List.mem_cons_self, rfl⟩

end Violation

namespace CompilationUnit

variable {contract function subject violation interval : String}

theorem exists_named (h : u.records = .ok records)
    (hr : .located contract function subject violation interval ∈ records) :
    ∃ c ∈ u.contracts, ∃ f ∈ c.functions, c.name = contract ∧ f.name = function := by
  obtain ⟨t, h⟩ := analyze_of_records h
  rw [analyze_attributed h, List.mem_append] at hr
  rcases hr with hr | hr
  · obtain ⟨e, he, heq⟩ := List.mem_map.1 hr
    obtain ⟨⟨c, f⟩, hcf, he⟩ := List.mem_flatMap.1 he
    obtain ⟨r, hr, rfl⟩ := List.mem_map.1 he
    obtain ⟨p, i, v, -, rfl⟩ := Function.mem_outcome hr
    obtain ⟨hc, hf⟩ := mem_of_mem_analysed hcf
    cases heq
    exact ⟨c, hc, f, hf, rfl, rfl⟩
  · obtain ⟨issue, -, heq⟩ := List.mem_map.1 hr
    cases heq

theorem firstNamed?_isSome (hmode : u.lookupMode.IsSearch) (h : u.records = .ok records)
    (hr : .located contract function subject violation interval ∈ records)
    (hnames : (u.contracts.map (·.name)).Nodup) : (u.firstNamed? contract function).isSome := by
  obtain ⟨c, hc, f, hf, rfl, rfl⟩ := exists_named h hr
  have hcontract : u.contracts.find? (·.name == c.name) = some c :=
    find?_of_unique Contract.name hc fun c' hc' heq => List.inj_on_of_nodup_map hnames hc' hc heq
  rw [firstNamed?_eq hmode, hcontract, Option.bind_some, Contract.functionNamed?, List.find?_isSome]
  exact ⟨f, hf, beq_self_eq_true f.name⟩

end CompilationUnit

namespace LimitViolation

theorem inspect_ok (hmode : u.lookupMode.IsSearch) (hmapped : u.IsMapped) (r : Record) :
    ∃ here, inspect u r = .ok here := by
  cases r with
  | located contract function subject violation interval =>
    obtain ⟨x, hx, -⟩ := inspect_located (u.lookup_found hmode contract)
      (hmapped.firstNamed? hmode contract function)
    exact ⟨[x], hx⟩
  | issue text =>
    obtain ⟨x, hx, -⟩ := inspect_issue text
    exact ⟨[x], hx⟩

end LimitViolation

namespace GeneralViolation

theorem isFinancial_text (h : v = .overflow ∨ v = .underflow) (p : Place) :
    isFinancial (v.text p) = isFinancial p.text := by
  have hapart : ∀ ending ∈ Violation.endings, ∀ word ∈ financialWords,
      Text.Apart word.toList ending.toList := by
    decide
  obtain ⟨ending, hending, htext⟩ := Violation.exists_ending h p
  rw [htext, Bool.eq_iff_iff, isFinancial, isFinancial, Text.containsAny, Text.containsAny,
    List.any_eq_true, List.any_eq_true]
  refine exists_congr fun word => and_congr_right fun hword => ?_
  rw [Text.contains, Text.contains, String.toList_append,
    (hapart ending hending word hword).occurs_append]

theorem isGeneral_text (h : v = .overflow ∨ v = .underflow) (p : Place) : isGeneral (v.text p) := by
  have hgeneral : ∀ ending ∈ Violation.endings, isGeneral ending := by decide
  obtain ⟨ending, hending, htext⟩ := Violation.exists_ending h p
  obtain ⟨word, hword, hcontains⟩ := List.any_eq_true.1 (hgeneral ending hending)
  rw [htext]
  exact List.any_eq_true.2 ⟨word, hword, Text.contains_append hcontains p.text⟩

theorem isOfInterest_text (h : v = .overflow ∨ v = .underflow) (p : Place) :
    isOfInterest (v.text p) ↔ ∀ word ∈ financialWords, ¬ Text.contains p.text word := by
  rw [isOfInterest, isFinancial_text h, isGeneral_text h, Bool.and_true, Bool.not_eq_true',
    isFinancial, Text.containsAny, List.any_eq_false]

theorem detect_answers (hmode : u.lookupMode.IsSearch) (hmapped : u.IsMapped)
    (h : u.records = .ok records) (log : Transcript) :
    ∃ findings, detect u log = .ok findings log ∧
      List.Forall₂ (Finding.IsOn profile) (records.filter (reports u)) findings := by
  have hanswers : ∀ r ∈ records, ∃ here, inspect u r = .ok here ∧
      Answers (reports u) (Finding.IsOn profile) r here := fun r _ =>
    inspect_answers (LimitViolation.inspect_ok hmode hmapped r).choose_spec
  obtain ⟨l, hl, hall⟩ := gather_answers hanswers
  have hfindings : findings u = .ok l := by
    rw [findings, h]
    exact hl
  refine ⟨l, ?_, hall⟩
  rw [detect, hfindings]
  rfl

/-- A violation is reported exactly if the name of its place says nothing of finance. -/
theorem detect_reports_by_name (hmode : u.lookupMode = .all) (hmapped : u.IsMapped)
    (h : u.records = .ok records) :
    (∀ log, ∃ findings, detect u log = .ok findings log ∧
      List.Forall₂ (Finding.IsOn profile) (records.filter (reports u)) findings) ∧
    ∀ (contract function interval : String) (p : Place) (v : Violation),
      (v = .overflow ∨ v = .underflow) →
      Record.located contract function p.text (v.text p) interval ∈ records →
      (reports u (.located contract function p.text (v.text p) interval) ↔
        (∀ word ∈ financialWords, ¬ Text.contains p.text word) ∧
          (u.firstNamed? contract function).isSome) ∧
      ((u.contracts.map (·.name)).Nodup → (u.firstNamed? contract function).isSome) := by
  refine ⟨detect_answers (.inl hmode) hmapped h, ?_⟩
  intro contract function interval p v hv hr
  refine ⟨?_, ?_⟩
  · rw [reports, Bool.and_eq_true, isOfInterest_text hv]
  · exact CompilationUnit.firstNamed?_isSome (.inl hmode) h hr

/-- A unit whose only function puts a negative number into unsigned variables of the names. -/
def overdrawnPool (names : List String) : CompilationUnit :=
  poolWith [.ofNodes [] [.ofInstrs
    (names.map fun name => .assign (.var (.ofType name "uint8")) (.literal (.int (-1)))) []]]

def overdrawn (name : String) : Record :=
  .located "Pool" "f" name (Violation.underflow.text (.var (.ofType name "uint8"))) "[-1, -1]"

theorem overdrawnPool_reports_one :
    (overdrawnPool ["v", "exchangeRate"]).records =
        .ok [overdrawn "v", overdrawn "exchangeRate"] ∧
      reports (overdrawnPool ["v", "exchangeRate"]) (overdrawn "v") ∧
      ¬ reports (overdrawnPool ["v", "exchangeRate"]) (overdrawn "exchangeRate") ∧
      ∃ x, detect (overdrawnPool ["v", "exchangeRate"]) .empty = .ok [x] .empty ∧
        x.IsOn profile (overdrawn "v") := by
  have hrecords : (overdrawnPool ["v", "exchangeRate"]).records =
      .ok [overdrawn "v", overdrawn "exchangeRate"] := by
    decide +kernel
  obtain ⟨hdetect, hreports⟩ := detect_reports_by_name rfl (by decide) hrecords
  have hplain : reports (overdrawnPool ["v", "exchangeRate"]) (overdrawn "v") := by
    obtain ⟨hiff, hfound⟩ := hreports "Pool" "f" "[-1, -1]" (.var (.ofType "v" "uint8")) .underflow
      (.inr rfl) List.mem_cons_self
    exact hiff.2 ⟨by decide, hfound (by decide)⟩
  have hmarked : ¬ reports (overdrawnPool ["v", "exchangeRate"]) (overdrawn "exchangeRate") := by
    obtain ⟨hiff, -⟩ := hreports "Pool" "f" "[-1, -1]" (.var (.ofType "exchangeRate" "uint8"))
      .underflow (.inr rfl) (List.mem_cons_of_mem _ List.mem_cons_self)
    exact fun h => absurd (hiff.1 h).1 (by decide)
  obtain ⟨findings, hfindings, hall⟩ := hdetect .empty
  rw [List.filter_cons_of_pos hplain, List.filter_cons_of_neg hmarked, List.filter_nil] at hall
  obtain ⟨x, l, hx, hl, rfl⟩ := List.forall₂_cons_left_iff.1 hall
  cases hl
  exact ⟨hrecords, hplain, hmarked, x, hfindings, hx⟩

/-- An underflow of an exchange rate has no finding. -/
theorem exchangeRate_passed_over :
    (overdrawnPool ["exchangeRate"]).records = .ok [overdrawn "exchangeRate"] ∧
      ∀ log, detect (overdrawnPool ["exchangeRate"]) log = .ok [] log := by
  have hfindings : findings (overdrawnPool ["exchangeRate"]) = .ok [] := by decide +kernel
  refine ⟨by decide +kernel, fun log => ?_⟩
  rw [detect, hfindings]
  rfl

end GeneralViolation

end RangeAudit
