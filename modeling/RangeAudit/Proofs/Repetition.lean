import Mathlib.Data.List.Pairwise
import RangeAudit.Proofs.Alarm
import RangeAudit.Proofs.Coverage
import RangeAudit.Proofs.Marks
import RangeAudit.Proofs.Trace

namespace RangeAudit

variable {cfg : Config} {f : Function} {s t : State} {i : Instr} {p q : Place}
  {issue issue' : Issue}

theorem append_separator_inj {α : Type} {x : α} {a b a' b' : List α} (ha : x ∉ a) (ha' : x ∉ a')
    (h : a ++ x :: b = a' ++ x :: b') : a = a' ∧ b = b' := by
  induction a generalizing a' with
  | nil =>
    cases a' with
    | nil =>
      cases h
      exact ⟨rfl, rfl⟩
    | cons y a' =>
      cases h
      exact absurd List.mem_cons_self ha'
  | cons y a ih =>
    cases a' with
    | nil =>
      cases h
      exact absurd List.mem_cons_self ha
    | cons z a' =>
      obtain ⟨rfl, htail⟩ := List.cons.inj h
      obtain ⟨rfl, hb⟩ := ih (List.not_mem_of_not_mem_cons ha)
        (List.not_mem_of_not_mem_cons ha') htail
      exact ⟨rfl, hb⟩

namespace Issue

/-- The place that an issue names as the result of an operation. -/
def result? : Issue → Option Place
  | divisorMayBeZero _ _ | divisorIsZero _ => none
  | additionOverflow p _ _ | subtractionUnderflow p _ _ | multiplicationOverflow p _ _
  | powerOverflow p _ _ | divisionByZero p _ _ => some p

theorem head?_text_of_unnamed (h : issue.result? = none) :
    issue.text.toList.head? = some '确' := by
  -- the wording is brought out by definition: its equations are expensive to derive
  cases issue with
  | divisorMayBeZero remainder divisor =>
    change ("确定性除零风险: " ++ _ ++ _ ++ _ ++ _).toList.head? = _
    simp
  | divisorIsZero remainder =>
    change ("确定性除零错误: " ++ _ ++ _).toList.head? = _
    simp
  | additionOverflow | subtractionUnderflow | multiplicationOverflow | powerOverflow
  | divisionByZero => cases h

theorem toList_equation (kind : List Char) {head : String}
    (hhead : head.toList = '潜' :: kind ++ [' ']) (hkind : ' ' ∉ '潜' :: kind) (p : Place)
    (l r : Interval) (symbol : String) :
    ∃ kind rest, (head ++ equation p l symbol r).toList =
        '潜' :: kind ++ ' ' :: (p.text.toList ++ ' ' :: rest) ∧ ' ' ∉ '潜' :: kind := by
  refine ⟨kind, ("= " ++ l.text ++ " " ++ symbol ++ " " ++ r.text).toList, ?_, hkind⟩
  simp [equation, hhead]

theorem toList_text_of_named (h : issue.result? = some p) :
    ∃ kind rest, issue.text.toList = '潜' :: kind ++ ' ' :: (p.text.toList ++ ' ' :: rest) ∧
      ' ' ∉ '潜' :: kind := by
  cases issue with
  | divisorMayBeZero | divisorIsZero => cases h
  | additionOverflow result l r =>
    cases h
    exact toList_equation "在加法溢出:".toList (by simp) (by decide) p l r "+"
  | subtractionUnderflow result l r =>
    cases h
    exact toList_equation "在减法下溢:".toList (by simp) (by decide) p l r "-"
  | multiplicationOverflow result l r =>
    cases h
    exact toList_equation "在乘法溢出:".toList (by simp) (by decide) p l r "*"
  | powerOverflow result l r =>
    cases h
    exact toList_equation "在幂运算溢出:".toList (by simp) (by decide) p l r "**"
  | divisionByZero result dividend divisor =>
    cases h
    refine ⟨"在除零错误:".toList,
      ("= " ++ dividend.text ++ " / [包含0的区间 " ++ divisor.text ++ "]").toList, ?_, by decide⟩
    change ("潜在除零错误: " ++ p.text ++ " = " ++ dividend.text ++ " / [包含0的区间 " ++
      divisor.text ++ "]").toList = _
    simp

theorem exists_result_of_text (h : issue.text = issue'.text) (hp : issue.result? = some p) :
    ∃ q, issue'.result? = some q := by
  obtain ⟨kind, rest, htext, -⟩ := toList_text_of_named hp
  cases hq : issue'.result? with
  | some q => exact ⟨q, rfl⟩
  | none =>
    have hhead := head?_text_of_unnamed hq
    rw [← h, htext] at hhead
    cases hhead

/-- Issues of one text name one result, if their results are written without blanks. -/
theorem result_of_text (h : issue.text = issue'.text) (hp : issue.result? = some p)
    (hq : issue'.result? = some q) (hpText : ' ' ∉ p.text.toList) (hqText : ' ' ∉ q.text.toList) :
    p.text = q.text := by
  obtain ⟨kind, rest, htext, hkind⟩ := toList_text_of_named hp
  obtain ⟨kind', rest', htext', hkind'⟩ := toList_text_of_named hq
  rw [h, htext'] at htext
  obtain ⟨-, hnames⟩ := append_separator_inj hkind' hkind htext
  obtain ⟨hnames, -⟩ := append_separator_inj hqText hpText hnames
  exact (String.toList_injective hnames).symm

end Issue

section Reports

variable {op : Operator} {left : Operand} {l r : Interval} {result? : Option Place} {e : Effect}

namespace Operator

theorem divisorAlarm?_unnamed : ∀ issue ∈ op.divisorAlarm? l r, issue.result? = none := by
  unfold divisorAlarm?
  split
  · split <;> simp [Issue.result?]
  · simp

theorem zeroAlarm?_names : ∀ issue ∈ op.zeroAlarm? left r p, issue.result? = some p := by
  unfold zeroAlarm?
  split
  · split <;> simp [Issue.result?]
  · simp

theorem zeroAlarm?_of_not_isDivision (h : op.isDivision = false) :
    op.zeroAlarm? left r p = none := by
  rw [zeroAlarm?, h]

theorem wordAlarm_of_isDivision (h : op.isDivision) : op.wordAlarm l r p = .ok none := by
  cases op with
  | div | mod => rfl
  | add | sub | mul | pow | shl | shr | compare | logic | unknown => cases h

theorem wordAlarm_names {issue? : Option Issue} (h : op.wordAlarm l r p = .ok issue?) :
    ∀ issue ∈ issue?, issue.result? = some p := by
  have halarm (isRaised : Bool) {issue : Issue} (hp : issue.result? = some p) :
      ∀ x ∈ (if isRaised then some issue else none), x.result? = some p := by
    split <;> simp [hp]
  cases op with
  | add | mul =>
    obtain ⟨isRaised, -, h⟩ := ok_of_bind h
    cases h
    exact halarm isRaised rfl
  | sub | pow =>
    cases h
    exact halarm _ rfl
  | div | mod | shl | shr | compare | logic | unknown =>
    cases h
    simp

end Operator

namespace Effect

/-- At most one problem without a result, and then at most one that names the result. -/
def ReportsOn (result? : Option Place) (e : Effect) : Prop :=
  ∃ unnamed? named? : Option Issue, e.issues = unnamed?.toList ++ named?.toList ∧
    (∀ issue ∈ unnamed?, issue.result? = none) ∧
    ∀ issue ∈ named?, issue.result?.isSome ∧ issue.result? = result?

namespace ReportsOn

theorem of_issues_eq_nil (h : e.issues = []) : e.ReportsOn result? :=
  ⟨none, none, h, by simp, by simp⟩

theorem nodup_texts (h : e.ReportsOn result?) : (e.issues.map Issue.text).Nodup := by
  obtain ⟨unnamed?, named?, hissues, hunnamed, hnamed⟩ := h
  rw [hissues]
  cases unnamed? with
  | none => cases named? <;> simp
  | some issue =>
    cases named? with
    | none => simp
    | some issue' =>
      have hne : issue.text ≠ issue'.text := by
        intro heq
        obtain ⟨p, hp⟩ := Option.isSome_iff_exists.1 (hnamed issue' rfl).1
        obtain ⟨q, hq⟩ := Issue.exists_result_of_text heq.symm hp
        cases hq.symm.trans (hunnamed issue rfl)
      simpa using hne

theorem result_eq (h : e.ReportsOn result?) (hissue : issue ∈ e.issues)
    (hp : issue.result? = some p) : result? = some p := by
  obtain ⟨unnamed?, named?, hissues, hunnamed, hnamed⟩ := h
  rw [hissues] at hissue
  rcases List.mem_append.1 hissue with hissue | hissue
  · cases hp.symm.trans (hunnamed issue (Option.mem_toList.1 hissue))
  · exact (hnamed issue (Option.mem_toList.1 hissue)).2.symm.trans hp

end ReportsOn

theorem ofOperation_issues (op : Operator) (l r : Interval) (p : Place) :
    ∃ issue? : Option Issue, (ofOperation op l r p).issues = issue?.toList ∧
      ∀ issue ∈ issue?, issue.result? = none := by
  unfold ofOperation
  split
  · exact ⟨none, rfl, by simp⟩
  · rename_i issues hissues
    have hraised := (Issue.raised_ok hissues).1
    refine ⟨op.divisorAlarm? l r, ?_, Operator.divisorAlarm?_unnamed⟩
    split <;> exact hraised

theorem ofOperation_reportsOn (op : Operator) (l r : Interval) (p : Place) :
    (ofOperation op l r p).ReportsOn result? := by
  obtain ⟨issue?, hissues, hunnamed⟩ := ofOperation_issues op l r p
  exact ⟨issue?, none, by simp [hissues], hunnamed, by simp⟩

theorem operandAlarms_names {isChecked : Bool} {issues : List Issue}
    (h : operandAlarms isChecked op p left l r = .ok issues) :
    ∃ issue? : Option Issue, issues = issue?.toList ∧ ∀ issue ∈ issue?, issue.result? = some p := by
  obtain ⟨word?, hword?⟩ : ∃ word?, (if isChecked then .ok none else op.wordAlarm l r p) =
      .ok word? := by
    cases isChecked with
    | true => exact ⟨none, rfl⟩
    | false =>
      obtain ⟨word?, hword?, -⟩ := ok_of_bind h
      exact ⟨word?, hword?⟩
  obtain ⟨word, zero, hword, hzero, rfl⟩ := operandAlarms_ok hword? h
  have hnames : ∀ issue ∈ word?, issue.result? = some p := by
    split at hword?
    · cases hword?
      simp
    · exact Operator.wordAlarm_names hword?
  rw [(Issue.raised_ok hword).1, (Issue.raised_ok hzero).1]
  cases hop : op.isDivision with
  | true =>
    have hnone : word? = none := by
      rw [Operator.wordAlarm_of_isDivision hop, ite_self] at hword?
      cases hword?
      rfl
    exact ⟨op.zeroAlarm? left r p, by simp [hnone], Operator.zeroAlarm?_names⟩
  | false =>
    exact ⟨word?, by simp [Operator.zeroAlarm?_of_not_isDivision hop], hnames⟩

theorem binaryOn_reportsOn (checked : List Place) (op : Operator) (p : Place) (left : Operand)
    (l r : Interval) : (binaryOn checked op p left l r).ReportsOn (some p) := by
  unfold binaryOn
  dsimp only
  split
  · exact ofOperation_reportsOn op l r p
  · split
    · exact ofOperation_reportsOn op l r p
    · rename_i issues halarms
      obtain ⟨unnamed?, hunnamed?, hunnamed⟩ := ofOperation_issues op l r p
      obtain ⟨named?, rfl, hnamed⟩ := operandAlarms_names halarms
      refine ⟨unnamed?, named?, congrArg (· ++ named?.toList) hunnamed?, hunnamed, ?_⟩
      intro issue hissue
      rw [hnamed issue hissue]
      exact ⟨rfl, rfl⟩

theorem arithmeticCall_reportsOn (s : State) (result? : Option Place) (name : String)
    (checked : Bool) (args : List Operand) :
    (arithmeticCall s result? name checked args).ReportsOn result? := by
  unfold arithmeticCall
  split
  · split
    · dsimp only
      split
      · exact ofOperation_reportsOn _ _ _ _
      · exact ofOperation_reportsOn _ _ _ _
    · exact ofOperation_reportsOn _ _ _ _
  · exact .of_issues_eq_nil rfl

theorem assign_issues (s : State) (p : Place) (source : Operand) :
    (assign s p source).issues = [] := by
  unfold assign
  repeat' split
  all_goals rfl

theorem convert_issues (s : State) (p : Place) (source : Operand) :
    (convert s p source).issues = [] := by
  unfold convert
  split
  · split
    · rfl
    · rename_i x _ _ _ _ c _
      cases c.converted? x <;> rfl
  · rfl

theorem storeAt_issues (owner : String) (result? : Option Place) (x : Interval) :
    (storeAt owner result? x).issues = [] := by
  cases result? <;> rfl

theorem member_issues (result? : Option Place) (base field : String) :
    (member result? base field).issues = [] := by
  unfold member
  split
  · exact storeAt_issues _ _ _
  · rfl

theorem call_issues (result? : Option Place) (target : Target) (args : Args) :
    (call result? target args).issues = [] := by
  unfold call
  repeat' split
  all_goals rfl

theorem choiceCall_issues (s : State) (result? : Option Place)
    (interval : Interval → List Interval → Except Failure Interval) (args : List Operand) :
    (choiceCall s result? interval args).issues = [] := by
  unfold choiceCall
  split
  · split
    · exact storeAt_issues _ _ _
    · rfl
  · rfl

theorem builtinNamed_reportsOn (s : State) (result? : Option Place) (callee : Callee)
    (name : String) (args : Args) :
    (builtinNamed s result? callee name args).ReportsOn result? := by
  have hwith {next : List Operand → Effect} (h : ∀ l, (next l).ReportsOn result?) :
      (withArgs args next).ReportsOn result? := by
    cases args with
    | missing | empty => exact .of_issues_eq_nil rfl
    | given l => exact h l
  have hchoice (interval : Interval → List Interval → Except Failure Interval) :
      (withArgs args (choiceCall s result? interval)).ReportsOn result? :=
    hwith fun l => .of_issues_eq_nil (choiceCall_issues s result? interval l)
  unfold builtinNamed
  split
  · exact hwith fun l => arithmeticCall_reportsOn s result? name _ l
  · split
    · exact hchoice leastInterval
    · split
      · exact hchoice greatestInterval
      · exact .of_issues_eq_nil rfl

theorem builtin_reportsOn (s : State) (result? : Option Place) (target : Target) (args : Args) :
    (builtin s result? target args).ReportsOn result? := by
  unfold builtin
  split
  · exact .of_issues_eq_nil rfl
  · exact .of_issues_eq_nil rfl
  · exact .of_issues_eq_nil rfl
  · split
    · exact .of_issues_eq_nil rfl
    · exact .of_issues_eq_nil rfl
    · exact builtinNamed_reportsOn s result? _ _ _

end Effect

theorem Instr.effect_reportsOn (i : Instr) (s : State) : (i.effect s).ReportsOn i.result? := by
  cases i with
  | binary op result left right =>
    simp only [effect, Effect.binary]
    split
    · exact .of_issues_eq_nil rfl
    · split
      · exact .of_issues_eq_nil rfl
      · exact Effect.binaryOn_reportsOn s.checked op result left _ _
  | assign result source => exact .of_issues_eq_nil (Effect.assign_issues s result source)
  | convert result source => exact .of_issues_eq_nil (Effect.convert_issues s result source)
  | member result? base field =>
    exact .of_issues_eq_nil (Effect.member_issues result? base field)
  | builtin result? target args text => exact Effect.builtin_reportsOn s result? target args
  | call kind result? target args =>
    exact .of_issues_eq_nil (Effect.call_issues result? target args)
  | condition subject => exact .of_issues_eq_nil rfl
  | other result? source? target args =>
    exact .of_issues_eq_nil (Effect.call_issues result? target args)
  | incomplete shape part result? source? => exact .of_issues_eq_nil rfl

end Reports

def Step.instr? : Step → Option Instr
  | carry i => some i
  | _ => none

/-- An instruction that is carried out, and the state in which this happens. -/
structure Occasion where
  instr : Instr
  state : State

namespace Occasion

def issues (o : Occasion) : List Issue :=
  (o.instr.effect o.state).issues

def reports (o : Occasion) (text : String) : Bool :=
  o.issues.any (·.text == text)

theorem reports_iff {o : Occasion} {text : String} :
    o.reports text ↔ text ∈ o.issues.map Issue.text := by
  simp [reports]

theorem count_texts (o : Occasion) (text : String) :
    (o.issues.map Issue.text).count text = if o.reports text then 1 else 0 := by
  have hnodup : (o.issues.map Issue.text).Nodup := (o.instr.effect_reportsOn o.state).nodup_texts
  rw [hnodup.count]
  simp only [reports_iff]

end Occasion

/-- The occasions on which steps taken in turn carry out an instruction; a failure is the end. -/
def occasions : List Step → State → List Occasion
  | [], _ => []
  | step :: rest, s =>
    (step.instr?.map (⟨·, s⟩)).toList ++
      match step.run s with
      | .ok _ t => occasions rest t
      | .error _ _ => []

namespace Function

def occasions (cfg : Config) (f : Function) (s : State) : List Occasion :=
  RangeAudit.occasions (f.steps cfg s) { s with ranges := .empty }

end Function

section Occasions

variable {step : Step} {l : List Step}

theorem occasions_cons (h : step.run s = .ok () t) :
    occasions (step :: l) s = (step.instr?.map (⟨·, s⟩)).toList ++ occasions l t := by
  simp only [occasions, h]

theorem Step.issues_of_ok (h : step.run s = .ok () t) :
    t.issues = s.issues ++ (step.instr?.map (⟨·, s⟩)).toList.flatMap Occasion.issues := by
  rw [← ends_of_ok h]
  cases step with
  | carry i =>
    rw [ends_carry]
    simp [instr?, Occasion.issues, State.apply]
  | param v =>
    rw [ends_param]
    split <;> simp [instr?]
  | assume e =>
    rw [ends_assume]
    split <;> simp [instr?]
  | compare earlier => simp [ends_compare, instr?]
  | source | result | widen | narrow => exact (List.append_nil _).symm

theorem issues_of_steps (h : l.forM Step.run s = .ok () t) :
    t.issues = s.issues ++ (occasions l s).flatMap Occasion.issues := by
  induction l generalizing s with
  | nil =>
    cases h
    exact (List.append_nil _).symm
  | cons step rest ih =>
    obtain ⟨_, u, hu, h⟩ := Analysis.bind_eq_ok.1 h
    rw [ih h, Step.issues_of_ok hu, occasions_cons hu, List.flatMap_append, List.append_assoc]

theorem instrs_of_steps (h : l.forM Step.run s = .ok () t) :
    (occasions l s).map Occasion.instr = l.filterMap Step.instr? := by
  induction l generalizing s with
  | nil => rfl
  | cons step rest ih =>
    obtain ⟨_, u, hu, h⟩ := Analysis.bind_eq_ok.1 h
    rw [occasions_cons hu, List.map_append, ih h, List.filterMap_cons]
    cases step.instr? <;> rfl

theorem count_texts_occasions (os : List Occasion) (text : String) :
    ((os.flatMap Occasion.issues).map Issue.text).count text = os.countP (·.reports text) := by
  induction os with
  | nil => rfl
  | cons o os ih =>
    rw [List.flatMap_cons, List.map_append, List.count_append, o.count_texts, ih,
      List.countP_cons, Nat.add_comm]

theorem Function.IsTrace.instr_mem {past : List Ranges} (h : f.IsTrace past l s) :
    ∀ o ∈ RangeAudit.occasions l s, o.instr ∈ f.instrs := by
  induction l generalizing past s with
  | nil => simp [RangeAudit.occasions]
  | cons step rest ih =>
    intro o ho
    rcases List.mem_append.1 ho with ho | ho
    · obtain ⟨i, hi, rfl⟩ := Option.map_eq_some_iff.1 (Option.mem_toList.1 ho)
      cases step with
      | carry j =>
        cases hi
        exact h.1
      | param | source | result | assume | widen | compare | narrow => cases hi
    · split at ho
      · rename_i hrun
        exact ih (h.2 _ hrun) o ho
      · cases ho

end Occasions

section Counts

variable {nodes : List Node} {node : Node} {p p' : Progress} {j : Nat}

theorem Node.instrs_of_steps (node : Node) : node.steps.filterMap Step.instr? = node.instrs := by
  have hinstrs : (node.instrs.map Step.carry).filterMap Step.instr? = node.instrs := by
    rw [List.filterMap_map]
    exact List.filterMap_some
  rw [Node.steps, List.filterMap_append, hinstrs]
  split <;> rfl

theorem visitSteps_instrs (cfg : Config) (node : Node) (count : Nat) (before : Ranges) :
    (visitSteps cfg node count before).filterMap Step.instr? = node.instrs := by
  rw [visitSteps, List.filterMap_append, Node.instrs_of_steps]
  split <;> exact List.append_nil _

theorem visitBatch_instrs {l : List Nat} (h : visitBatch cfg nodes l p s = .ok p' t)
    (hnode : nodes[j]? = some node) (hj : p'.IsVisited j) :
    p.IsVisited j ∨ node.instrs ⊆ (batchSteps cfg nodes l p s).filterMap Step.instr? := by
  induction l generalizing p s with
  | nil =>
    cases h
    exact .inl hj
  | cons index rest ih =>
    rw [visitBatch_cons] at h
    rw [batchSteps]
    cases hindex : nodes[index]? with
    | none =>
      rw [hindex] at h
      exact ih h
    | some n =>
      rw [hindex] at h
      obtain ⟨p₁, s₁, h₁, h⟩ := Analysis.bind_eq_ok.1 h
      simp only [Analysis.stepsThen, h₁, List.filterMap_append, visitSteps_instrs]
      rcases ih h with hj | hsub
      · rcases ((visitNode_carries hindex h₁).2 j).1 hj with hj | hj
        · exact .inl hj
        · obtain rfl := List.mem_singleton.1 hj
          cases hnode.symm.trans hindex
          exact .inr (List.subset_append_left _ _)
      · exact .inr (List.subset_append_of_subset_right _ hsub)

theorem workOff_instrs {batches : Nat} (h : workOff cfg nodes batches p s = .ok p' t)
    (hnode : nodes[j]? = some node) (hj : p'.IsVisited j) :
    p.IsVisited j ∨ node.instrs ⊆ (workSteps cfg nodes batches p s).filterMap Step.instr? := by
  induction batches generalizing p s with
  | zero =>
    cases h
    exact .inl hj
  | succ batches ih =>
    rw [workOff] at h
    rw [workSteps]
    split at h
    · cases h
      exact .inl hj
    · rename_i hq
      obtain ⟨p₁, s₁, h₁, h⟩ := Analysis.bind_eq_ok.1 h
      simp only [if_neg hq, Analysis.stepsThen, h₁, List.filterMap_append]
      rcases ih h with hj | hsub
      · rcases visitBatch_instrs h₁ hnode hj with hj | hsub
        · exact .inl hj
        · exact .inr (List.subset_append_of_subset_left _ hsub)
      · exact .inr (List.subset_append_of_subset_right _ hsub)

theorem sweepSteps_instrs {index : Nat} (hnode : nodes[j]? = some node)
    (hj : p.IsVisited (index + j)) :
    node.instrs ⊆ (sweepSteps p index nodes).filterMap Step.instr? := by
  induction nodes generalizing index j with
  | nil => cases hnode
  | cons n rest ih =>
    rw [sweepSteps, List.filterMap_append]
    cases j with
    | zero =>
      cases hnode
      obtain ⟨v, hv⟩ := Option.isSome_iff_exists.1 hj
      rw [Nat.add_zero] at hv
      simp only [narrowSteps, hv, List.filterMap_append, Node.instrs_of_steps]
      exact List.subset_append_of_subset_left _ (List.subset_append_left _ _)
    | succ j =>
      rw [← Nat.succ_add_eq_add_succ] at hj
      exact List.subset_append_of_subset_right _ (ih hnode hj)

def Instr.NamesApart (i j : Instr) : Prop :=
  ∀ p ∈ i.result?, ∀ q ∈ j.result?, p.text ≠ q.text

instance : Std.Symm Instr.NamesApart :=
  ⟨fun _ _ h p hp q hq => (h q hq p hp).symm⟩

instance (i j : Instr) : Decidable (i.NamesApart j) :=
  inferInstanceAs (Decidable (∀ p ∈ i.result?, ∀ q ∈ j.result?, p.text ≠ q.text))

namespace Function

/-- A node in the batches is carried out by the worklist and by each sweep. -/
theorem count_occasions (h : f.analyze cfg s = .ok () t) (hnode : f.nodes[j]? = some node)
    (hj : j < cfg.maxBatches.toNat * cfg.batchSize.toNat) (hi : i ∈ node.instrs) :
    1 + cfg.narrowingSweeps.toNat ≤ (f.occasions cfg s).countP (·.instr = i) := by
  have hrun := h
  rw [analyze_eq_steps] at hrun
  have hcount : (f.occasions cfg s).countP (·.instr = i) =
      ((f.steps cfg s).filterMap Step.instr?).count i := by
    rw [← instrs_of_steps hrun, List.count, List.countP_map]
    rfl
  obtain ⟨start, hstart, h⟩ := analyze_ok.1 h
  obtain ⟨p, u, hwork, -⟩ := Analysis.bind_eq_ok.1 h
  obtain ⟨trace, -, hvisited, hmem⟩ := workOff_start_carries hwork
  have hlt := (List.getElem?_eq_some_iff.1 hnode).1
  have hj : p.IsVisited j := (hvisited j).2 ((hmem j).2 (by omega))
  have hfresh : ¬(Progress.start f).IsVisited j := by
    simp [Progress.IsVisited, Progress.visit?, Progress.start]
  have honce : 1 ≤ ((workSteps cfg f.nodes cfg.maxBatches.toNat (.start f) start).filterMap
      Step.instr?).count i :=
    List.one_le_count_iff.2 ((workOff_instrs hwork hnode hj).resolve_left hfresh hi)
  have hsweep : 1 ≤ ((sweepSteps p 0 f.nodes).filterMap Step.instr?).count i :=
    List.one_le_count_iff.2 (sweepSteps_instrs hnode (by rwa [Nat.zero_add]) hi)
  have hsteps : f.steps cfg s = f.startSteps cfg.order ++
      (workSteps cfg f.nodes cfg.maxBatches.toNat (.start f) start ++
        (List.replicate cfg.narrowingSweeps.toNat (sweepSteps p 0 f.nodes)).flatten) := by
    simp only [steps, iterateSteps, Analysis.stepsThen, hstart, hwork]
  rw [hcount, hsteps, List.filterMap_append, List.filterMap_append, List.filterMap_flatten,
    List.map_replicate, List.count_append, List.count_append, List.count_flatten,
    List.map_replicate, List.sum_replicate_nat]
  have hsweeps := Nat.le_mul_of_pos_right cfg.narrowingSweeps.toNat hsweep
  omega

/-- Different instructions have results of different names, which are written without blanks. -/
structure HasNamedResults (f : Function) : Prop where
  distinct : f.instrs.Pairwise Instr.NamesApart
  unbroken : ∀ i ∈ f.instrs, ∀ p ∈ i.result?, ' ' ∉ p.text.toList

theorem HasNamedResults.instr_eq (hf : f.HasNamedResults) {o o' : Occasion}
    (ho : o.instr ∈ f.instrs) (ho' : o'.instr ∈ f.instrs) (hissue : issue ∈ o.issues)
    (hnamed : issue.result?.isSome) (hreports : o'.reports issue.text) : o'.instr = o.instr := by
  obtain ⟨issue', hissue', htext⟩ := List.mem_map.1 (Occasion.reports_iff.1 hreports)
  obtain ⟨p, hp⟩ := Option.isSome_iff_exists.1 hnamed
  obtain ⟨q, hq⟩ := Issue.exists_result_of_text htext.symm hp
  have hresult := (o.instr.effect_reportsOn o.state).result_eq hissue hp
  have hresult' := (o'.instr.effect_reportsOn o'.state).result_eq hissue' hq
  have hnames : p.text = q.text := Issue.result_of_text htext.symm hp hq
    (hf.unbroken _ ho p hresult) (hf.unbroken _ ho' q hresult')
  by_contra hne
  exact hf.distinct.forall ho' ho hne q hresult' p hresult hnames.symm

/-- Each text is reported as often as an instruction is carried out that gives it. -/
theorem analyze_repeats_reports (hf : f.HasNamedResults) (h : f.analyze cfg s = .ok () t) :
    ∃ issues, t.issues = s.issues ++ issues ∧
      (∀ text, (issues.map Issue.text).count text =
        (f.occasions cfg s).countP (·.reports text)) ∧
      (∀ o ∈ f.occasions cfg s, ∀ o' ∈ f.occasions cfg s, ∀ issue ∈ o.issues,
        issue.result?.isSome → o'.reports issue.text → o'.instr = o.instr) ∧
      ∀ (j : Nat) (node : Node), f.nodes[j]? = some node →
        j < cfg.maxBatches.toNat * cfg.batchSize.toNat → ∀ i ∈ node.instrs,
          1 + cfg.narrowingSweeps.toNat ≤ (f.occasions cfg s).countP (·.instr = i) := by
  have hrun := h
  rw [analyze_eq_steps] at hrun
  refine ⟨(f.occasions cfg s).flatMap Occasion.issues, issues_of_steps hrun, ?_, ?_, ?_⟩
  · exact fun text => count_texts_occasions _ text
  · have htrace : f.IsTrace [] (f.steps cfg s) { s with ranges := .empty } :=
      f.steps_isTrace cfg s
    have hmem : ∀ o ∈ f.occasions cfg s, o.instr ∈ f.instrs := htrace.instr_mem
    intro o ho o' ho' issue hissue hnamed hreports
    exact hf.instr_eq (hmem o ho) (hmem o' ho') hissue hnamed hreports
  · intro j node hnode hj i hi
    exact count_occasions h hnode hj hi

end Function

end Counts

/-- A sum and a product of two words, with an edge from the product back to the sum. -/
def sumAndProduct : Function :=
  .ofNodes [.ofType "a" "uint256", .ofType "b" "uint256"]
    [.ofInstrs [.binary .add (.var (.ofType "v" "uint256")) (.place (.var (.ofType "a" "uint256")))
        (.place (.var (.ofType "b" "uint256")))] [1],
      .ofInstrs [.binary .mul (.var (.ofType "w" "uint256"))
        (.place (.var (.ofType "a" "uint256"))) (.place (.var (.ofType "b" "uint256")))] [0]]

theorem sumAndProduct_repeats_reports :
    sumAndProduct.HasNamedResults ∧
      ∃ t, sumAndProduct.analyze {} .initial = .ok () t ∧
        (∀ text, (t.issues.map Issue.text).count text =
          (sumAndProduct.occasions {} .initial).countP (·.reports text)) ∧
        ∀ i ∈ sumAndProduct.instrs,
          3 ≤ (sumAndProduct.occasions {} .initial).countP (·.instr = i) := by
  have hnamed : sumAndProduct.HasNamedResults := ⟨by decide +kernel, by decide +kernel⟩
  have hends : (sumAndProduct.analyze {}).completes .initial := by decide +kernel
  obtain ⟨_, t, h⟩ := Analysis.completes_iff.1 hends
  obtain ⟨issues, hissues, htexts, -, hcarried⟩ := Function.analyze_repeats_reports hnamed h
  rw [State.initial, List.nil_append] at hissues
  refine ⟨hnamed, t, h, hissues ▸ htexts, ?_⟩
  intro i hi
  obtain ⟨node, hnode, hi⟩ := List.mem_flatMap.1 hi
  obtain ⟨j, hj⟩ := List.mem_iff_getElem?.1 hnode
  have hlt : j < 2 := (List.getElem?_eq_some_iff.1 hj).1
  exact hcarried j node hj (Nat.lt_of_lt_of_le hlt (by decide)) i hi

/-- One sum is carried out three times, and its overflow is reported as often. -/
theorem sum_reported_three_times :
    ((plainSum "z").instrs.map Instr.result?).Nodup ∧
      (poolWith [plainSum "z"]).records =
        .ok (List.replicate 3 (.issue (Issue.additionOverflow (.var (.ofType "z" "uint256"))
          .unsignedWord .unsignedWord).text)) := by
  decide +kernel

end RangeAudit
