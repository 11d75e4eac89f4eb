import RangeAudit.Detector
import RangeAudit.Proofs.Marks

namespace RangeAudit

variable {α : Type} {u : CompilationUnit} {r : Record} {findings : List Finding}

namespace Text

theorem toList_foldl (first : String) (rest : List String) :
    (rest.foldl (· ++ ·) first).toList = (first :: rest).flatMap String.toList := by
  induction rest generalizing first with
  | nil => simp
  | cons second rest ih =>
    rw [List.foldl_cons, ih]
    simp [String.toList_append]

theorem contains_foldl (first : String) (rest : List String) {parts : List String}
    (h : parts ⊆ first :: rest) : ∀ part ∈ parts, contains (rest.foldl (· ++ ·) first) part := by
  intro part hpart
  obtain ⟨before, after, hsplit⟩ := List.append_of_mem (h hpart)
  rw [contains, occurs_iff, toList_foldl, hsplit]
  exact ⟨before.flatMap String.toList, after.flatMap String.toList, by simp⟩

end Text

def Record.parts : Record → List String
  | .located contract function subject violation interval =>
    [contract, function, subject, violation, interval]
  | .issue text => [text]

/-- A finding with the profile of its detector that quotes all that the record says. -/
structure Finding.IsOn (p : Profile) (r : Record) (x : Finding) : Prop where
  profile : x.profile = p
  quotes : ∀ part ∈ r.parts, Text.contains x.description part

/-- What a detector makes of an item: one finding on it if it is reported, and none otherwise. -/
def Answers (isReported : α → Bool) (on : α → Finding → Prop) (a : α) (here : List Finding) :
    Prop :=
  if isReported a then ∃ x, here = [x] ∧ on a x else here = []

namespace Answers

variable {isReported : α → Bool} {on : α → Finding → Prop} {a : α} {l : List α}
  {here : List Finding}

theorem reported {x : Finding} (h : isReported a = true) (hx : on a x) :
    Answers isReported on a [x] := by
  rw [Answers, if_pos h]
  exact ⟨x, rfl, hx⟩

theorem passedOver (h : isReported a = false) : Answers isReported on a [] := by
  rw [Answers, if_neg (Bool.eq_false_iff.1 h)]

theorem cons (h : Answers isReported on a here)
    (hrest : List.Forall₂ on (l.filter isReported) findings) :
    List.Forall₂ on ((a :: l).filter isReported) (here ++ findings) := by
  unfold Answers at h
  split at h
  · rename_i ha
    obtain ⟨x, rfl, hx⟩ := h
    rw [List.filter_cons_of_pos ha]
    exact .cons hx hrest
  · rename_i ha
    rw [List.filter_cons_of_neg ha, h]
    exact hrest

end Answers

section Gather

variable {β : Type} {isReported : α → Bool} {on : α → Finding → Prop} {a : α} {l : List α}

theorem gather_map {m : Type → Type} [Monad m] (find : β → m (List Finding)) (g : α → β) :
    gather find (l.map g) = gather (fun a => find (g a)) l := by
  induction l with
  | nil => rfl
  | cons a l ih => rw [List.map_cons, gather, gather, ih]

variable {find : α → Except Failure (List Finding)}

theorem gather_cons :
    gather find (a :: l) = .ok findings ↔
      ∃ here later, find a = .ok here ∧ gather find l = .ok later ∧ findings = here ++ later := by
  constructor
  · intro h
    obtain ⟨here, hhere, h⟩ := ok_of_bind h
    obtain ⟨later, hlater, h⟩ := ok_of_bind h
    cases h
    exact ⟨here, later, hhere, hlater, rfl⟩
  · rintro ⟨here, later, hhere, hlater, rfl⟩
    rw [gather, hhere, hlater]
    rfl

theorem gather_ok_of_mem (h : gather find l = .ok findings) (ha : a ∈ l) :
    ∃ here, find a = .ok here := by
  induction l generalizing findings with
  | nil => cases ha
  | cons b l ih =>
    obtain ⟨here, later, hb, hl, -⟩ := gather_cons.1 h
    rcases List.mem_cons.1 ha with rfl | ha
    · exact ⟨here, hb⟩
    · exact ih hl ha

theorem gather_answers (h : ∀ a ∈ l, ∃ here, find a = .ok here ∧ Answers isReported on a here) :
    ∃ findings, gather find l = .ok findings ∧
      List.Forall₂ on (l.filter isReported) findings := by
  induction l with
  | nil => exact ⟨[], rfl, .nil⟩
  | cons a l ih =>
    obtain ⟨⟨here, ha, hanswers⟩, hrest⟩ := List.forall_mem_cons.1 h
    obtain ⟨later, hlater, hall⟩ := ih hrest
    exact ⟨here ++ later, gather_cons.2 ⟨here, later, ha, hlater, rfl⟩, hanswers.cons hall⟩

theorem gather_each (h : ∀ a ∈ l, ∃ x, find a = .ok [x] ∧ on a x) :
    ∃ findings, gather find l = .ok findings ∧ List.Forall₂ on l findings := by
  have hanswers : ∀ a ∈ l, ∃ here, find a = .ok here ∧ Answers (fun _ => true) on a here := by
    intro a ha
    obtain ⟨x, hx, hon⟩ := h a ha
    exact ⟨[x], hx, .reported rfl hon⟩
  obtain ⟨findings, hgather, hall⟩ := gather_answers hanswers
  rw [List.filter_true] at hall
  exact ⟨findings, hgather, hall⟩

end Gather

namespace Reporting

variable {β : Type} {log log' : Transcript}

theorem bind_ok {a : Reporting α} {b : α} (h : a log = .ok b log') (k : α → Reporting β) :
    (a >>= k) log = k b log' := by
  change EStateM.bind a k log = _
  simp only [EStateM.bind, h]

theorem gather_answers {isReported : α → Bool} {on : α → Finding → Prop}
    {find : α → Reporting (List Finding)} {l : List α}
    (h : ∀ a ∈ l, ∀ log, ∃ here log', find a log = .ok here log' ∧ Answers isReported on a here)
    (log : Transcript) :
    ∃ findings log', gather find l log = .ok findings log' ∧
      List.Forall₂ on (l.filter isReported) findings := by
  induction l generalizing log with
  | nil => exact ⟨[], log, rfl, .nil⟩
  | cons a l ih =>
    obtain ⟨ha, hrest⟩ := List.forall_mem_cons.1 h
    obtain ⟨here, log₁, hhere, hanswers⟩ := ha log
    obtain ⟨later, log₂, hlater, hall⟩ := ih hrest log₁
    refine ⟨here ++ later, log₂, ?_, hanswers.cons hall⟩
    rw [gather, bind_ok hhere, bind_ok hlater]
    rfl

end Reporting

namespace Finding

theorem pointTo?_ok {x y : Finding} {f? : Option Function} :
    x.pointTo? f? = .ok y ↔
      f?.all (·.isMapped) ∧ y = { x with functions := x.functions ++ f?.toList } := by
  cases f? with
  | none => simp [pointTo?, eq_comm (a := x)]
  | some f => cases hf : f.isMapped <;> simp [pointTo?, pointTo, hf, eq_comm]

end Finding

namespace CompilationUnit

/-- The first function of a name in the first contract of a name, where contracts can be found. -/
def firstNamed? (u : CompilationUnit) (contract function : String) : Option Function :=
  match u.lookupMode with
  | .all | .first => (u.contracts.find? (·.name == contract)).bind (·.functionNamed? function)
  | _ => none

theorem firstNamed?_of_found {contract : String} {contracts : List Contract}
    (h : u.lookup contract = .found contracts) (function : String) :
    contracts.head?.bind (·.functionNamed? function) = u.firstNamed? contract function := by
  unfold lookup search at h
  unfold firstNamed?
  cases hmode : u.lookupMode with
  | all =>
    rw [hmode] at h
    cases h
    rw [List.head?_filter]
  | first =>
    rw [hmode] at h
    cases h
    rw [Option.head?_toList]
  | nothing =>
    rw [hmode] at h
    cases h
    rfl
  | failing | unavailable =>
    rw [hmode] at h
    cases h

end CompilationUnit

namespace LimitViolation

variable {contract function subject violation interval : String} {here : List Finding}

theorem locate?_ok {f? : Option Function} :
    locate? u contract function = .ok f? ↔
      (∃ contracts, u.lookup contract = .found contracts) ∧
        f? = u.firstNamed? contract function := by
  unfold locate?
  cases hlookup : u.lookup contract with
  | unavailable | failed => simp
  | found contracts => simp [u.firstNamed?_of_found hlookup, eq_comm]

theorem of_inspect_located
    (h : inspect u (.located contract function subject violation interval) = .ok here) :
    (∃ contracts, u.lookup contract = .found contracts) ∧
      (u.firstNamed? contract function).all (·.isMapped) := by
  obtain ⟨f?, hf, h⟩ := ok_of_bind h
  obtain ⟨x, hx, -⟩ := ok_of_bind h
  obtain ⟨hfound, rfl⟩ := locate?_ok.1 hf
  exact ⟨hfound, (Finding.pointTo?_ok.1 hx).1⟩

theorem inspect_located (hfound : ∃ contracts, u.lookup contract = .found contracts)
    (hmapped : (u.firstNamed? contract function).all (·.isMapped)) :
    ∃ x, inspect u (.located contract function subject violation interval) = .ok [x] ∧
      x.functions = (u.firstNamed? contract function).toList ∧
      x.IsOn profile (.located contract function subject violation interval) := by
  rw [inspect, locate?_ok.2 ⟨hfound, rfl⟩]
  refine ⟨_, congrArg (· >>= fun x => pure [x]) (Finding.pointTo?_ok.2 ⟨hmapped, rfl⟩), rfl, rfl,
    ?_⟩
  exact Text.contains_foldl _ [contract, _, function, _, subject, _, interval, _, violation, _]
    (by simp [Record.parts])

theorem inspect_issue (text : String) :
    ∃ x, inspect u (.issue text) = .ok [x] ∧ x.functions = [] ∧ x.IsOn profile (.issue text) :=
  ⟨_, rfl, rfl, rfl, Text.contains_foldl _ [text, _] (by simp [Record.parts])⟩

theorem inspect_one (h : inspect u r = .ok here) :
    ∃ x, inspect u r = .ok [x] ∧ x.IsOn profile r := by
  cases r with
  | located contract function subject violation interval =>
    obtain ⟨hfound, hmapped⟩ := of_inspect_located h
    obtain ⟨x, hx, -, hon⟩ := inspect_located hfound hmapped
    exact ⟨x, hx, hon⟩
  | issue text =>
    obtain ⟨x, hx, -, hon⟩ := inspect_issue text
    exact ⟨x, hx, hon⟩

theorem detect_ok (h : detect u = .ok findings) :
    ∃ records, u.records = .ok records ∧ (∀ r ∈ records, ∃ here, inspect u r = .ok here) ∧
      List.Forall₂ (Finding.IsOn profile) records findings := by
  obtain ⟨records, hrecords, h⟩ := ok_of_bind h
  have hall : ∀ r ∈ records, ∃ here, inspect u r = .ok here := fun r hr => gather_ok_of_mem h hr
  obtain ⟨_, hgather, hon⟩ := gather_each fun r hr => inspect_one (hall r hr).choose_spec
  cases h.symm.trans hgather
  exact ⟨records, hrecords, hall, hon⟩

end LimitViolation

namespace GeneralViolation

/-- Arithmetic, not finance, and if the record has a place, a function that is found. -/
def reports (u : CompilationUnit) : Record → Bool
  | .located contract function _ violation _ =>
    isOfInterest violation && (u.firstNamed? contract function).isSome
  | .issue text => isOfInterest text

theorem inspect_answers {limit : List Finding} (h : LimitViolation.inspect u r = .ok limit) :
    ∃ here, inspect u r = .ok here ∧ Answers (reports u) (Finding.IsOn profile) r here := by
  cases r with
  | located contract function subject violation interval =>
    obtain ⟨⟨contracts, hfound⟩, hmapped⟩ := LimitViolation.of_inspect_located h
    have hlocate : locate? u contract function = .ok (u.firstNamed? contract function) := by
      rw [locate?, hfound, ← u.firstNamed?_of_found hfound]
    rw [inspect, locatedFindings, hlocate]
    cases hinterest : isOfInterest violation with
    | false => exact ⟨[], rfl, .passedOver (by simp [reports, hinterest])⟩
    | true =>
      cases hf : u.firstNamed? contract function with
      | none => exact ⟨[], rfl, .passedOver (by simp [reports, hf])⟩
      | some f =>
        rw [hf] at hmapped
        have hpoint (text : String) : (Finding.plain profile text).pointTo f =
            .ok ⟨profile, text, [f]⟩ := if_pos hmapped
        refine ⟨_, congrArg (· >>= fun x => pure [x]) (hpoint _),
          .reported (by simp [reports, hinterest, hf]) ⟨rfl, ?_⟩⟩
        exact Text.contains_foldl _
          [contract, _, function, _, subject, _, violation, _, interval, _] (by simp [Record.parts])
  | issue text =>
    rw [inspect, issueFindings]
    cases hinterest : isOfInterest text with
    | false => exact ⟨[], rfl, .passedOver hinterest⟩
    | true =>
      refine ⟨_, rfl, .reported hinterest ⟨rfl, ?_⟩⟩
      exact Text.contains_foldl _ [text, _] (by simp [Record.parts])

end GeneralViolation

namespace NumericAnomaly

theorem isDefiniteInterval_str (s : String) :
    isDefiniteInterval (.str s) = .ok (s != "⊤" && !Text.contains s "[0, 2**256 - 1]") := by
  by_cases htop : s = "⊤"
  · subst htop
    rfl
  · simp [isDefiniteInterval, Json.str?, htop, Json.holds]

theorem isCheckedOverflow_str (s : String) :
    isCheckedOverflow (.str s) =
      .ok (Text.contains s "SafeMath" && Text.containsAny s ["溢出", "下溢"]) := by
  rw [isCheckedOverflow, Json.holds, Json.holdsAny_str]
  cases Text.contains s "SafeMath" <;> rfl

theorem isLimitViolation_str (s : String) :
    isLimitViolation (.str s) =
      .ok (Text.contains s "违规" && Text.containsAny s ["最小值违规", "最大值违规"]) := by
  rw [isLimitViolation, Json.holds, Json.holdsAny_str]
  cases Text.contains s "违规" <;> rfl

/-- A definite wording, or a place with a definite interval or a broken limit. -/
def isLikely : Record → Bool
  | .located _ _ _ violation interval =>
    Text.containsAny violation definiteWords ||
      (interval != "⊤" && !Text.contains interval "[0, 2**256 - 1]") ||
      !(Text.contains violation "SafeMath" && Text.containsAny violation ["溢出", "下溢"]) &&
        (Text.contains violation "违规" &&
          Text.containsAny violation ["最小值违规", "最大值违规"])
  | .issue text => Text.containsAny text definiteWords

theorem isConfident_toJson (r : Record) : isConfident r.toJson = .ok (isLikely r) := by
  cases r with
  | located contract function subject violation interval =>
    change (do
      if ← (Json.str violation).holdsAny definiteWords then return true
      if ← isDefiniteInterval (.str interval) then return true
      if ← isCheckedOverflow (.str violation) then return false
      isLimitViolation (.str violation)) = _
    rw [Json.holdsAny_str, isDefiniteInterval_str, isCheckedOverflow_str, isLimitViolation_str,
      isLikely]
    cases Text.containsAny violation definiteWords with
    | true => rfl
    | false =>
      cases interval != "⊤" && !Text.contains interval "[0, 2**256 - 1]" with
      | true => rfl
      | false =>
        cases Text.contains violation "SafeMath" && Text.containsAny violation ["溢出", "下溢"] <;>
          rfl
  | issue text =>
    change (do
      if ← (Json.str text).holdsAny definiteWords then return true
      if ← isCheckedOverflow (.str text) then return false
      return false) = _
    rw [Json.holdsAny_str, isCheckedOverflow_str, isLikely]
    cases Text.containsAny text definiteWords with
    | true => rfl
    | false =>
      cases Text.contains text "SafeMath" && Text.containsAny text ["溢出", "下溢"] <;> rfl

theorem confidentOf_toJson (records : List Record) :
    confidentOf (records.map Record.toJson) =
      .ok ((records.filter isLikely).map Record.toJson) := by
  induction records with
  | nil => rfl
  | cons r records ih =>
    rw [List.map_cons, confidentOf, isConfident_toJson, ih]
    cases h : isLikely r with
    | true =>
      rw [List.filter_cons_of_pos h]
      rfl
    | false =>
      rw [List.filter_cons_of_neg (Bool.eq_false_iff.1 h)]
      rfl

theorem confidentResults_ok {records : List Record} (h : u.records = .ok records) :
    confidentResults u = .ok ((records.filter isLikely).map Record.toJson) := by
  rw [confidentResults, h]
  exact confidentOf_toJson records

def target? (u : CompilationUnit) : Record → Option Function
  | .located contract function _ _ _ =>
    match u.lookup contract with
    | .found contracts => contracts.findSome? (·.functionNamed? function)
    | _ => none
  | .issue _ => none

/-- The likely records, unless the function looked for has no place in the source. -/
def reports (u : CompilationUnit) (r : Record) : Bool :=
  (target? u r).all (·.isMapped) && isLikely r

theorem place_toJson (u : CompilationUnit) (r : Record) (log : Transcript) :
    ∃ log', place u r.toJson log = .ok (target? u r) log' := by
  cases r with
  | issue text => exact ⟨log, rfl⟩
  | located contract function subject violation interval =>
    have hissue : (Record.located contract function subject violation interval).toJson.holds
        "issue" = .ok false := rfl
    have hcontract : part (Record.located contract function subject violation interval).toJson
        "contract" = .ok (.str contract) := rfl
    have hfunction : part (Record.located contract function subject violation interval).toJson
        "function" = .ok (.str function) := rfl
    have hsearch : u.search (some · == (Json.str contract).str?) = u.lookup contract := rfl
    rw [place, locate?, hissue, hcontract, hfunction, target?]
    dsimp only [bind, Except.bind]
    rw [hsearch]
    cases u.lookup contract with
    | found contracts | unavailable => exact ⟨log, rfl⟩
    | failed => exact ⟨_, rfl⟩

def wording : Record → String
  | .located contract function subject violation interval =>
    "在合约 " ++ contract ++ " 的函数 " ++ function ++ " 中发现数值异常:\n变量 " ++ subject ++
      " 的区间为 " ++ interval ++ "\n违规: " ++ violation
  | .issue text => "发现数值异常: " ++ text

theorem description_toJson (r : Record) : description r.toJson = .ok (wording r) := by
  cases r with
  | located contract function subject violation interval => rfl
  | issue text => rfl

theorem wording_quotes (r : Record) : ∀ part ∈ r.parts, Text.contains (wording r) part := by
  cases r with
  | located contract function subject violation interval =>
    exact Text.contains_foldl _ [contract, _, function, _, subject, _, interval, _, violation]
      (by simp [Record.parts])
  | issue text => exact Text.contains_foldl _ [text] (by simp [Record.parts])

def finding (u : CompilationUnit) (r : Record) : Finding :=
  ⟨profile, wording r, (target? u r).toList⟩

theorem inspect_toJson (u : CompilationUnit) (r : Record) (log : Transcript) :
    ∃ log', inspect u r.toJson log =
      .ok (if (target? u r).all (·.isMapped) then [finding u r] else []) log' := by
  obtain ⟨log₁, hplace⟩ := place_toJson u r log
  have hformat : format u r.toJson log = .ok (wording r, target? u r) log₁ := by
    rw [format, description_toJson,
      Reporting.bind_ok (show Reporting.ofExcept _ log = .ok (wording r) log from rfl),
      Reporting.bind_ok hplace]
    rfl
  rw [inspect, Reporting.bind_ok hformat]
  cases hpoint : (Finding.plain profile (wording r)).pointTo? (target? u r) with
  | ok x =>
    obtain ⟨hmapped, rfl⟩ := Finding.pointTo?_ok.1 hpoint
    simp only [hpoint, if_pos hmapped]
    exact ⟨log₁, rfl⟩
  | error f =>
    have hunmapped : ¬ (target? u r).all (·.isMapped) := fun hmapped => by
      cases hpoint.symm.trans (Finding.pointTo?_ok.2 ⟨hmapped, rfl⟩)
    simp only [hpoint, if_neg hunmapped]
    exact ⟨_, rfl⟩

theorem inspect_answers (u : CompilationUnit) (r : Record) (log : Transcript) :
    ∃ here log', inspect u r.toJson log = .ok here log' ∧
      Answers (fun r => (target? u r).all (·.isMapped)) (Finding.IsOn profile) r here := by
  obtain ⟨log', h⟩ := inspect_toJson u r log
  refine ⟨_, log', h, ?_⟩
  split
  · rename_i hmapped
    exact .reported hmapped ⟨rfl, wording_quotes r⟩
  · rename_i hunmapped
    exact .passedOver (Bool.eq_false_iff.2 hunmapped)

end NumericAnomaly

/-- The other two detectors complete as well, with findings on the records of a sublist. -/
theorem detectors_agree (h : LimitViolation.detect u = .ok findings) :
    ∃ records, u.records = .ok records ∧
      List.Forall₂ (Finding.IsOn LimitViolation.profile) records findings ∧
      ∀ log, ∃ general anomalies log',
        GeneralViolation.detect u log = .ok general log ∧
        List.Forall₂ (Finding.IsOn GeneralViolation.profile)
          (records.filter (GeneralViolation.reports u)) general ∧
        NumericAnomaly.detect u log = .ok anomalies log' ∧
        List.Forall₂ (Finding.IsOn NumericAnomaly.profile)
          (records.filter (NumericAnomaly.reports u)) anomalies := by
  obtain ⟨records, hrecords, hinspect, hon⟩ := LimitViolation.detect_ok h
  refine ⟨records, hrecords, hon, fun log => ?_⟩
  obtain ⟨general, hgeneral, hgeneralOn⟩ := gather_answers fun r hr =>
    GeneralViolation.inspect_answers (hinspect r hr).choose_spec
  obtain ⟨anomalies, log', hanomalies, hanomaliesOn⟩ := Reporting.gather_answers
    (fun r (_ : r ∈ records.filter NumericAnomaly.isLikely) => NumericAnomaly.inspect_answers u r)
    log
  refine ⟨general, anomalies, log', ?_, hgeneralOn, ?_, ?_⟩
  · have hfindings : GeneralViolation.findings u = .ok general := by
      rw [GeneralViolation.findings, hrecords]
      exact hgeneral
    rw [GeneralViolation.detect, hfindings]
    rfl
  · rw [NumericAnomaly.detect, NumericAnomaly.confidentResults_ok hrecords]
    dsimp only
    rw [gather_map, hanomalies]
  · rw [List.filter_filter] at hanomaliesOn
    exact hanomaliesOn

/-- The general detector speaks of all four records, and only the violation is likely. -/
theorem pool_detectors_agree :
    ∃ findings general anomalies log' violation overflow,
      LimitViolation.detect (poolWith [overdraw, plainSum "w"]) = .ok findings ∧
        List.Forall₂ (Finding.IsOn LimitViolation.profile)
          (violation :: List.replicate 3 overflow) findings ∧
        GeneralViolation.detect (poolWith [overdraw, plainSum "w"]) .empty = .ok general .empty ∧
        List.Forall₂ (Finding.IsOn GeneralViolation.profile)
          (violation :: List.replicate 3 overflow) general ∧
        NumericAnomaly.detect (poolWith [overdraw, plainSum "w"]) .empty = .ok anomalies log' ∧
        List.Forall₂ (Finding.IsOn NumericAnomaly.profile) [violation] anomalies := by
  have hends : (LimitViolation.detect (poolWith [overdraw, plainSum "w"])).toOption.isSome := by
    decide +kernel
  cases h : LimitViolation.detect (poolWith [overdraw, plainSum "w"]) with
  | error f =>
    rw [h] at hends
    cases hends
  | ok findings =>
    obtain ⟨records, hrecords, hon, hothers⟩ := detectors_agree h
    obtain ⟨general, anomalies, log', hgeneral, hgeneralOn, hanomalies, hanomaliesOn⟩ :=
      hothers .empty
    let violation := Record.located "Pool" "f" "v" "v 可能下溢 (< 0)" "[-1, -1]"
    let overflow := Record.issue (Issue.additionOverflow (.var (.ofType "w" "uint256"))
      .unsignedWord .unsignedWord).text
    have hlist : (poolWith [overdraw, plainSum "w"]).records =
        .ok (violation :: List.replicate 3 overflow) := by decide +kernel
    cases hrecords.symm.trans hlist
    have hgeneralOnly : (violation :: List.replicate 3 overflow).filter
        (GeneralViolation.reports (poolWith [overdraw, plainSum "w"])) =
          violation :: List.replicate 3 overflow := by decide +kernel
    have hlikely : (violation :: List.replicate 3 overflow).filter
        (NumericAnomaly.reports (poolWith [overdraw, plainSum "w"])) = [violation] := by
      decide +kernel
    rw [hgeneralOnly] at hgeneralOn
    rw [hlikely] at hanomaliesOn
    exact ⟨findings, general, anomalies, log', violation, overflow, rfl, hon, hgeneral, hgeneralOn,
      hanomalies, hanomaliesOn⟩

end RangeAudit
