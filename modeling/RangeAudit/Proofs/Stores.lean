import RangeAudit.Proofs.Bounds

open RangeAudit.Interval (leastWord greatestWord)

namespace RangeAudit

variable {L U : Number → Prop} {a b : Interval} {x y : Number} {n : Int} {r : Ranges}
  {p q : Place} {f : Function} {s : State} {i : Instr}

namespace Literal

variable {k : Literal} {text : String}

theorem threshold?_toInt? (h : k.threshold? = some x) : ∃ n, x.toInt? = some n := by
  cases k with
  | int n =>
    cases h
    exact ⟨n, rfl⟩
  | text s =>
    obtain ⟨n, -, rfl⟩ := Option.map_eq_some_iff.1 h
    exact ⟨n, rfl⟩
  | truth b =>
    cases h
    exact ⟨_, rfl⟩
  | empty => cases h

/-- A constant that is an integer, or reads as one, is a machine word. -/
def FitsWord (k : Literal) : Prop :=
  ∀ x n, k.threshold? = some x → x.toInt? = some n → leastWord ≤ n ∧ n ≤ greatestWord

instance : DecidablePred FitsWord := fun k =>
  decidable_of_iff
    (∀ x ∈ k.threshold?, ∀ n ∈ x.toInt?, leastWord ≤ n ∧ n ≤ greatestWord)
    ⟨fun h x n hx hn => h x hx n hn, fun h x hx n hn => h x n hx hn⟩

theorem numeral?_of_isDigits (h : Text.isDigits text) :
    numeral? text = Text.decimalInteger? text := by
  have hmark : ¬ Text.startsWith text "0x" := by
    intro hmark
    rw [Text.startsWith, List.isPrefixOf_iff_prefix] at hmark
    have hx : 'x' ∈ text.toList := hmark.subset (by decide)
    rw [Text.isDigits, Bool.and_eq_true, List.all_eq_true] at h
    have hdigit := h.2 'x' hx
    revert hdigit
    decide
  rw [numeral?, if_neg hmark]

theorem readInteger_ok (h : Number.readInteger text = .ok n) :
    Text.decimalInteger? text = some n := by
  unfold Number.readInteger at h
  split at h
  · cases h
  · split at h
    · cases h
      assumption
    · cases h

namespace FitsWord

theorem threshold (hk : k.FitsWord) (hw : AllowsWords L U) (h : k.threshold? = some x) :
    L x ∧ U x := by
  obtain ⟨n, hn⟩ := threshold?_toInt? h
  obtain ⟨hlo, hhi⟩ := hk x n h hn
  exact hw.word hn hlo hhi

theorem numeral (hk : (Literal.text text).FitsWord) (hw : AllowsWords L U)
    (h : numeral? text = some n) : L (.int n) ∧ U (.int n) :=
  hk.threshold hw (congrArg (Option.map Number.int) h)

theorem interval (hk : k.FitsWord) (hw : AllowsWords L U) (h : k.interval = .ok a) :
    a.Within L U := by
  have point {n : Int} (hn : L (.int n) ∧ U (.int n)) : (Interval.point (.int n)).Within L U :=
    Interval.within_between hn.1 hn.2
  cases k with
  | int n =>
    cases h
    exact point (hk.threshold hw rfl)
  | truth b =>
    cases h
    cases b
    · exact point (hw.int (by decide) (by decide))
    · exact point (hw.int (by decide) (by decide))
  | text text =>
    unfold Literal.interval at h
    dsimp only at h
    split at h
    · rename_i hdigits
      cases hn : Number.readInteger text with
      | error e =>
        rw [hn] at h
        cases h
      | ok n =>
        rw [hn] at h
        cases h
        exact point (hk.numeral hw ((numeral?_of_isDigits hdigits).trans (readInteger_ok hn)))
    · split at h
      · rename_i hmark
        cases h
        cases hn : Text.hexInteger? text with
        | none => exact Interval.within_bottom
        | some n => exact point (hk.numeral hw ((if_pos hmark).trans hn))
      · cases h
        exact Interval.within_bottom
  | empty =>
    cases h
    exact Interval.within_bottom

theorem assigned (hk : k.FitsWord) (hw : AllowsWords L U) (h : k.assigned = .ok (some x)) :
    L x ∧ U x := by
  cases k with
  | int n =>
    cases h
    exact hk.threshold hw rfl
  | truth b =>
    cases h
    exact hk.threshold hw rfl
  | text text =>
    unfold Literal.assigned at h
    dsimp only at h
    split at h
    · rename_i hdigits
      cases hn : Number.readInteger text with
      | error e =>
        rw [hn] at h
        cases h
      | ok n =>
        rw [hn] at h
        cases h
        exact hk.numeral hw ((numeral?_of_isDigits hdigits).trans (readInteger_ok hn))
    · exact hk.threshold hw (Except.ok.inj h)
  | empty => cases h

theorem number (hk : k.FitsWord) (hw : AllowsWords L U) (h : k.number? = some x) : L x ∧ U x := by
  cases k with
  | int n => exact hk.threshold hw h
  | truth b => exact hk.threshold hw h
  | text | empty => cases h

end FitsWord

end Literal

def Operand.constants : Operand → List Literal
  | .place _ => []
  | .literal k => [k]

def Instr.constants : Instr → List Literal
  | .binary _ _ left right => left.constants ++ right.constants
  | .assign _ source | .convert _ source => source.constants
  | .builtin _ _ (.given args) _ => args.flatMap Operand.constants
  | _ => []

namespace Operand

variable {o : Operand}

theorem interval_within (hw : AllowsWords L U) (hr : r.Within L U)
    (ho : ∀ k ∈ o.constants, k.FitsWord) (h : o.interval r = .ok a) : a.Within L U := by
  cases o with
  | place p =>
    cases h
    exact hr.getD p
  | literal k => exact (ho k (List.mem_singleton_self k)).interval hw h

theorem argument?_within (hw : AllowsWords L U) (hr : r.Within L U)
    (ho : ∀ k ∈ o.constants, k.FitsWord) (h : o.argument? r = some a) : a.Within L U := by
  cases o with
  | place p => exact hr.get? h
  | literal k =>
    obtain ⟨x, hx, rfl⟩ := Option.map_eq_some_iff.1 h
    obtain ⟨hlo, hhi⟩ := (ho k (List.mem_singleton_self k)).number hw hx
    exact Interval.within_between hlo hhi

end Operand

theorem Operator.ofText_arithmetic {name : String} (h : name ∈ Effect.arithmeticNames) :
    ∃ text, Operator.ofText none name = .unknown text := by
  refine ⟨name, ?_⟩
  revert name
  decide

namespace Effect

variable {result? : Option Place} {e : Effect} {z : Interval}

theorem ofOperation_within {op : Operator} (hop : ∀ z, op.apply a b = .ok z → z.Within L U)
    (h : (ofOperation op a b p).store? = some (q, z)) : z.Within L U := by
  unfold ofOperation at h
  split at h
  · cases h
  · split at h
    · rename_i hz
      cases h
      exact hop _ hz
    · cases h

theorem memberInterval?_within (hw : AllowsWords L U) {base field : String} :
    ∀ z ∈ memberInterval? base field, z.Within L U := by
  intro z hz
  unfold memberInterval? at hz
  split at hz
  · cases hz
    exact hw.unsignedWord
  split at hz
  · cases hz
    exact hw.between (by decide) (by decide) (by decide) (by decide)
  split at hz
  · cases hz
    exact hw.between (by decide) (by decide) (by decide) (by decide)
  split at hz
  · cases hz
    exact hw.between (by decide) (by decide) (by decide) (by decide)
  split at hz
  · cases hz
    exact hw.unsignedWord
  · cases hz

theorem resultByName?_within (hw : AllowsWords L U) {name : String} :
    ∀ z ∈ resultByName? name, z.Within L U := by
  intro z hz
  unfold resultByName? at hz
  split at hz
  · cases hz
    exact hw.unsignedWord
  split at hz
  · cases hz
    exact hw.between (by decide) (by decide) (by decide) (by decide)
  split at hz
  · cases hz
    exact hw.unsignedWord
  split at hz
  · cases hz
    exact hw.between (by decide) (by decide) (by decide) (by decide)
  · cases hz

theorem resultByType?_within (hw : AllowsWords L U) {type : String} :
    ∀ z ∈ resultByType? type, z.Within L U := by
  intro z hz
  unfold resultByType? at hz
  split at hz
  · cases hz
    exact hw.bit
  split at hz
  · cases hz
    exact hw.address
  · cases hz

theorem resultOf?_within (hw : AllowsWords L U) {target : Target}
    (h : resultOf? target = .ok (some z)) : z.Within L U := by
  have byType (callee : Callee)
      (hz : (callee.returnType?.bind fun type => resultByType? (Text.lower type)) = some z) :
      z.Within L U := by
    obtain ⟨type, -, hz⟩ := Option.bind_eq_some_iff.1 hz
    exact resultByType?_within hw z hz
  cases target with
  | absent => cases h
  | unresolved => cases h
  | known callee =>
    unfold resultOf? at h
    dsimp only at h
    split at h
    · exact byType callee (Except.ok.inj h)
    · cases h
    · rename_i name _
      have h := Except.ok.inj h
      cases hn : resultByName? (Text.lower name) with
      | some y =>
        rw [hn] at h
        cases h
        exact resultByName?_within hw _ hn
      | none =>
        rw [hn] at h
        exact byType callee h

theorem call_within (hw : AllowsWords L U) {target : Target} {args : Args}
    (h : (call result? target args).store? = some (q, z)) : z.Within L U := by
  unfold call at h
  split at h
  · cases h
  · cases h
  · cases h
  · split at h
    · cases h
    · rename_i hz
      cases h
      exact resultOf?_within hw hz
    · split at h
      · cases h
        exact hw.unsignedWord
      · cases h

theorem member_within (hw : AllowsWords L U) {base field : String}
    (h : (member result? base field).store? = some (q, z)) : z.Within L U := by
  unfold member at h
  split at h
  · rename_i y hy
    cases result? with
    | none => cases h
    | some p =>
      cases h
      exact memberInterval?_within hw _ hy
  · cases h

theorem assign_within (hw : AllowsWords L U) (hr : s.ranges.Within L U) {source : Operand}
    (hk : ∀ k ∈ source.constants, k.FitsWord) (h : (assign s p source).store? = some (q, z)) :
    z.Within L U := by
  unfold assign at h
  split at h
  · rename_i k
    split at h
    · cases h
    · rename_i x hx
      cases h
      obtain ⟨hlo, hhi⟩ := (hk k (List.mem_singleton_self k)).assigned hw hx
      exact Interval.within_between hlo hhi
    · cases h
  · split at h
    · rename_i y hy
      cases h
      exact hr.get? hy
    · split at h
      · split at h
        · cases h
          exact hw.address
        split at h
        · cases h
          exact hw.bit
        · cases h
      · cases h

theorem convert_within (hw : AllowsWords L U) (hr : s.ranges.Within L U) {source : Operand}
    (hp : p.IsWordWide) (h : (convert s p source).store? = some (q, z)) : z.Within L U := by
  unfold convert at h
  split at h
  · rename_i y type hy htype
    split at h
    · cases h
    · rename_i c hc
      obtain ⟨p', -, hy⟩ := Option.bind_eq_some_iff.1 hy
      cases hz : c.converted? y with
      | none =>
        rw [hz] at h
        cases h
      | some y' =>
        rw [hz] at h
        cases h
        exact TypeClass.converted?_within hw (hp type htype c hc) (hr.get? hy) _ hz
  · cases h

theorem choose_of {P : Number → Prop} {pick : Number → Number → Number} {choice : String}
    {bounds : List (Option Number)} (hpick : ∀ x y, P x → P y → P (pick x y))
    (hb : ∀ b ∈ bounds, ∀ x ∈ b, P x) (h : choose choice pick bounds = .ok y) : P y := by
  have hall : ∀ x ∈ bounds.filterMap id, P x := by
    intro x hx
    obtain ⟨b, hmem, hx⟩ := List.mem_filterMap.1 hx
    exact hb b hmem x hx
  unfold choose at h
  split at h
  · cases h
  · rename_i x xs hxs
    cases h
    rw [hxs] at hall
    refine List.foldlRecOn xs pick (hall x List.mem_cons_self) ?_
    intro m hm z hz
    exact hpick m z hm (hall z (List.mem_cons_of_mem _ hz))

theorem leastInterval_within {rest : List Interval} (h : ∀ i ∈ a :: rest, i.Within L U)
    (hz : leastInterval a rest = .ok z) : z.Within L U := by
  have hbounds : ∀ b ∈ (a :: rest).map (·.hi), ∀ x ∈ b, U x := by
    intro b hb x hx
    obtain ⟨i, hi, rfl⟩ := List.mem_map.1 hb
    exact (h i hi).hi x hx
  unfold leastInterval at hz
  cases hhi : choose "min" .least ((a :: rest).map (·.hi)) with
  | error e =>
    rw [hhi] at hz
    cases hz
  | ok hi =>
    rw [hhi] at hz
    cases hz
    refine ⟨(h a List.mem_cons_self).lo, ?_⟩
    rintro _ ⟨⟩
    exact choose_of (fun _ _ => Number.least_of) hbounds hhi

theorem greatestInterval_within {rest : List Interval} (h : ∀ i ∈ a :: rest, i.Within L U)
    (hz : greatestInterval a rest = .ok z) : z.Within L U := by
  have hupper : ∀ b ∈ (a :: rest).map (·.hi), ∀ x ∈ b, U x := by
    intro b hb x hx
    obtain ⟨i, hi, rfl⟩ := List.mem_map.1 hb
    exact (h i hi).hi x hx
  have hlower : ∀ b ∈ (a :: rest).map (·.lo), ∀ x ∈ b, L x := by
    intro b hb x hx
    obtain ⟨i, hi, rfl⟩ := List.mem_map.1 hb
    exact (h i hi).lo x hx
  unfold greatestInterval at hz
  cases hhi : choose "max" .greatest ((a :: rest).map (·.hi)) with
  | error e =>
    rw [hhi] at hz
    cases hz
  | ok hi =>
    cases hlo : choose "max" .greatest ((a :: rest).map (·.lo)) with
    | error e =>
      rw [hhi, hlo] at hz
      cases hz
    | ok lo =>
      rw [hhi, hlo] at hz
      cases hz
      exact Interval.within_between (choose_of (fun _ _ => Number.greatest_of) hlower hlo)
        (choose_of (fun _ _ => Number.greatest_of) hupper hhi)

theorem arithmeticCall_within (hw : AllowsWords L U) (hr : s.ranges.Within L U) {name : String}
    {checked : Bool} {args : List Operand}
    (hk : ∀ k ∈ args.flatMap Operand.constants, k.FitsWord)
    (hop : ∀ a b z, a.Within L U → b.Within L U → (Operator.ofText none name).apply a b = .ok z →
      z.Within L U)
    (h : (arithmeticCall s result? name checked args).store? = some (q, z)) : z.Within L U := by
  unfold arithmeticCall at h
  split at h
  · rename_i l u rest hargs
    have hargs : ∀ a ∈ l :: u :: rest, a.Within L U := by
      intro a ha
      obtain ⟨o, ho, hoa⟩ := mem_of_mapM hargs ha
      exact Operand.argument?_within hw hr (fun k hk' => hk k (List.mem_flatMap.2 ⟨o, ho, hk'⟩)) hoa
    have hlu (z : Interval) : (Operator.ofText none name).apply l u = .ok z → z.Within L U :=
      hop l u z (hargs l (by simp)) (hargs u (by simp))
    split at h
    · dsimp only at h
      split at h
      · exact ofOperation_within hlu h
      · exact ofOperation_within hlu h
    · cases h
  · cases h

theorem choiceCall_within (hw : AllowsWords L U) (hr : s.ranges.Within L U) {args : List Operand}
    {interval : Interval → List Interval → Except Failure Interval}
    (hk : ∀ k ∈ args.flatMap Operand.constants, k.FitsWord)
    (hinterval : interval = leastInterval ∨ interval = greatestInterval)
    (h : (choiceCall s result? interval args).store? = some (q, z)) : z.Within L U := by
  unfold choiceCall at h
  split at h
  · rename_i l u rest hargs
    have hargs : ∀ a ∈ l :: u :: rest, a.Within L U := by
      intro a ha
      rw [← hargs] at ha
      obtain ⟨o, ho, hoa⟩ := List.mem_filterMap.1 ha
      exact Operand.argument?_within hw hr (fun k hk' => hk k (List.mem_flatMap.2 ⟨o, ho, hk'⟩)) hoa
    split at h
    · rename_i y hy
      cases result? with
      | none => cases h
      | some p =>
        cases h
        rcases hinterval with rfl | rfl
        · exact leastInterval_within hargs hy
        · exact greatestInterval_within hargs hy
    · cases h
  · cases h

end Effect

/-- The operators that an instruction may apply; those of provided functions are unknown ones. -/
def Instr.Applies : Instr → Operator → Prop
  | .binary op _ _ _, op' => op' = op
  | .builtin _ _ _ _, op' => ∃ text, op' = .unknown text
  | _, _ => False

/-- The bounds of an operator's results have the properties that the bounds of its operands have. -/
def Operator.Keeps (L U : Number → Prop) (op : Operator) : Prop :=
  ∀ a b z, a.Within L U → b.Within L U → op.apply a b = .ok z → z.Within L U

/-- The bounds of what an instruction stores. -/
theorem Instr.effect_within {z : Interval} (hw : AllowsWords L U) (hr : s.ranges.Within L U)
    (hk : ∀ k ∈ i.constants, k.FitsWord) (hp : ∀ p ∈ i.result?, p.IsWordWide)
    (hop : ∀ op, i.Applies op → op.Keeps L U) (h : (i.effect s).store? = some (q, z)) :
    z.Within L U := by
  cases i with
  | binary op result left right =>
    simp only [effect, Effect.binary] at h
    split at h
    · cases h
    · rename_i b hb
      split at h
      · cases h
      · rename_i a ha
        rw [Effect.binaryOn_store] at h
        have ha := Operand.interval_within hw hr (fun k hk' => hk k (List.mem_append_left _ hk')) ha
        have hb :=
          Operand.interval_within hw hr (fun k hk' => hk k (List.mem_append_right _ hk')) hb
        exact Effect.ofOperation_within (fun z => hop op rfl a b z ha hb) h
  | assign result source => exact Effect.assign_within hw hr hk h
  | convert result source => exact Effect.convert_within hw hr (hp result rfl) h
  | member result? base field => exact Effect.member_within hw h
  | builtin result? target args text =>
    have hform := Effect.builtin_form result? target args
    change (Effect.builtin s result? target args).store? = some (q, z) at h
    generalize hbuiltin : (fun s => Effect.builtin s result? target args) = e at hform
    have he : e s = Effect.builtin s result? target args := congrFun hbuiltin.symm s
    rw [← he] at h
    cases hform with
    | fixed hnone => cases hnone.symm.trans h
    | arithmetic hname checked =>
      obtain ⟨text', hunknown⟩ := Operator.ofText_arithmetic hname
      exact Effect.arithmeticCall_within hw hr hk (hop _ ⟨text', hunknown⟩) h
    | choice hinterval => exact Effect.choiceCall_within hw hr hk hinterval h
  | call kind result? target args => exact Effect.call_within hw h
  | condition subject => cases h
  | other result? source? target args => exact Effect.call_within hw h
  | incomplete shape part result? source? => cases h

def Expression.constants : Expression → List Literal
  | .binary _ left right => left.constants ++ right.constants
  | _ => []

namespace Function

/-- Types and constants are those of machine words. -/
structure FitsWords (f : Function) : Prop where
  params : ∀ v ∈ f.params, v.place.IsWordWide
  results : ∀ i ∈ f.instrs, ∀ p ∈ i.result?, p.IsWordWide
  constants : ∀ i ∈ f.instrs, ∀ k ∈ i.constants, k.FitsWord
  conditions : ∀ node ∈ f.nodes, node.isBranch → ∀ k ∈ node.condition.constants, k.FitsWord

instance : DecidablePred FitsWords := fun f =>
  decidable_of_iff
    ((∀ v ∈ f.params, v.place.IsWordWide) ∧ (∀ i ∈ f.instrs, ∀ p ∈ i.result?, p.IsWordWide) ∧
      (∀ i ∈ f.instrs, ∀ k ∈ i.constants, k.FitsWord) ∧
      ∀ node ∈ f.nodes, node.isBranch → ∀ k ∈ node.condition.constants, k.FitsWord)
    ⟨fun ⟨hv, hp, hk, hc⟩ => ⟨hv, hp, hk, hc⟩,
      fun h => ⟨h.params, h.results, h.constants, h.conditions⟩⟩

/-- Every step keeps the properties of bounds that instructions and widening keep. -/
theorem FitsWords.step_within {step : Step} (hf : f.FitsWords) (hw : AllowsWords L U)
    (hcarry : ∀ i ∈ f.instrs, ∀ p z, step = .carry i → (i.effect s).store? = some (p, z) →
      z.Within L U)
    (hwiden : ∀ earlier, step = .widen earlier → (s.ranges.widenFrom earlier).Within L U)
    (hstep : f.Allows (Ranges.Within L U) step) (hs : s.ranges.Within L U) :
    (step.ends s).ranges.Within L U := by
  cases step with
  | param v =>
    rw [Step.ends_param]
    split
    · rename_i r hr
      exact hs.addParam hw (hf.params v hstep) hr
    · exact hs
  | source i =>
    rw [Step.ranges_source]
    exact hs.addSource hw i
  | result v =>
    rw [Step.ranges_result]
    exact hs.addLocal hw v
  | assume e =>
    obtain ⟨node, hnode, hbranch, rfl⟩ := hstep
    have hconstants := hf.conditions node hnode hbranch
    rw [Step.ends_assume]
    split
    · rename_i c left right he
      rw [he] at hconstants
      refine hs.refine hw c fun k x hk hx => ?_
      subst hk
      exact (hconstants k (List.mem_append_right _ (List.mem_singleton_self k))).threshold hw hx
    · exact hs
  | carry i =>
    rw [Step.ends_carry]
    cases he : (i.effect s).store? with
    | none => rwa [State.ranges_apply_of_none s he]
    | some e =>
      obtain ⟨p, z⟩ := e
      simp only [State.apply, he]
      exact hs.set p (hcarry i hstep p z rfl he)
  | widen earlier =>
    rw [Step.ranges_widen]
    exact hwiden earlier rfl
  | compare earlier => rwa [Step.ends_compare]
  | narrow earlier =>
    obtain ⟨r, hr, rfl⟩ := hstep
    rw [Step.ranges_narrow]
    exact hs.narrowTo hr.snapshot

end Function

end RangeAudit
