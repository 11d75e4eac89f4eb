import RangeAudit.Proofs.Enclosure
import RangeAudit.Proofs.Settled
import RangeAudit.Proofs.TypeText

namespace RangeAudit

abbrev Valuation := Place → Int

def Valuation.set (ρ : Valuation) (p : Place) (x : Int) : Valuation :=
  fun q => if q = p then x else ρ q

variable {ρ ρ' : Valuation} {f : Function} {p q : Place} {i : Instr} {v : Int}
  {before l after : List Instr}

def Operand.value? (ρ : Valuation) : Operand → Option Int
  | .place p => some (ρ p)
  | .literal (.int n) => some n
  | .literal _ => none

namespace Instr

def operands : Instr → List Operand
  | .assign _ source => [source]
  | .binary _ _ left right => [left, right]
  | _ => []

def isArithmetic : Instr → Bool
  | .assign _ _ => true
  | .binary op _ _ _ => [.add, .sub, .mul, .div, .mod].contains op
  | _ => false

def value? (ρ : Valuation) : Instr → Option Int
  | .assign _ source => source.value? ρ
  | .binary op _ left right => (left.value? ρ).bind fun x => (right.value? ρ).bind (op.value? x)
  | _ => none

/-- The values after an instruction whose own value is an unsigned word. -/
def execute? (ρ : Valuation) (i : Instr) : Option Valuation :=
  match i.result?, i.value? ρ with
  | some p, some v => if IsWord v then some (ρ.set p v) else none
  | _, _ => none

theorem execute?_eq_some : i.execute? ρ = some ρ' ↔
    ∃ p v, i.result? = some p ∧ i.value? ρ = some v ∧ IsWord v ∧ ρ' = ρ.set p v := by
  unfold execute?
  split
  · rename_i p v hp hv
    simp [hp, hv, eq_comm]
  · rename_i h
    constructor
    · intro h
      cases h
    · rintro ⟨p, v, hp, hv, -⟩
      exact absurd hv (h p v hp)

theorem value?_congr (h : ∀ q, .place q ∈ i.operands → ρ q = ρ' q) : i.value? ρ = i.value? ρ' := by
  have hoperand (o : Operand) (ho : o ∈ i.operands) : o.value? ρ = o.value? ρ' := by
    cases o with
    | place q => exact congrArg some (h q ho)
    | literal c => cases c <;> rfl
  cases i with
  | assign p source => exact hoperand source List.mem_cons_self
  | binary op p left right =>
    rw [value?, value?, hoperand left (by simp [operands]), hoperand right (by simp [operands])]
  | convert | member | builtin | call | condition | other | incomplete => rfl

theorem place_mem_operands (hi : i.isArithmetic) (hp : p ∈ i.reads) :
    .place p ∈ i.operands := by
  have hplaces {o : Operand} (h : p ∈ o.places) : o = .place p := by
    cases o with
    | place q => rw [List.mem_singleton.1 h]
    | literal c => cases h
  cases i with
  | assign q source => exact hplaces hp ▸ List.mem_cons_self
  | binary op q left right =>
    rcases List.mem_append.1 hp with h | h
    · exact hplaces h ▸ List.mem_cons_self
    · exact hplaces h ▸ List.mem_cons_of_mem _ List.mem_cons_self
  | convert | member | builtin | call | condition | other | incomplete => cases hi

/-- The result of the instruction has the value that its operands give. -/
def Solved (ρ : Valuation) (i : Instr) : Prop :=
  ∃ p, i.result? = some p ∧ i.value? ρ = some (ρ p) ∧ IsWord (ρ p)

end Instr

theorem execute_cons : (i :: l).foldlM Instr.execute? ρ = some ρ' ↔
    ∃ p v, i.result? = some p ∧ i.value? ρ = some v ∧ IsWord v ∧
      l.foldlM Instr.execute? (ρ.set p v) = some ρ' := by
  rw [List.foldlM_cons]
  cases h : i.execute? ρ with
  | none =>
    constructor
    · intro hl
      cases hl
    · rintro ⟨p, v, hp, hv, hw, -⟩
      rw [Instr.execute?_eq_some.2 ⟨p, v, hp, hv, hw, rfl⟩] at h
      cases h
  | some ρ₁ =>
    obtain ⟨p, v, hp, hv, hw, rfl⟩ := Instr.execute?_eq_some.1 h
    simp [hp, hv, hw]

theorem execute_frame (h : l.foldlM Instr.execute? ρ = some ρ')
    (hp : ∀ i ∈ l, i.result? ≠ some p) : ρ' p = ρ p := by
  induction l generalizing ρ with
  | nil =>
    cases h
    rfl
  | cons i l ih =>
    obtain ⟨q, v, hq, -, -, h⟩ := execute_cons.1 h
    have hne : p ≠ q := by
      rintro rfl
      exact hp i List.mem_cons_self hq
    rw [ih h fun j hj => hp j (List.mem_cons_of_mem i hj)]
    exact if_neg hne

def Variable.IsWordTyped (v : Variable) : Prop :=
  ∃ bits ≤ 256, v.type? = some (unsignedText bits)

/-- A parameter of an unsigned type that is never assigned, or the result of an instruction. -/
def Place.IsKnown (f : Function) (before : List Instr) (p : Place) : Prop :=
  (∃ v ∈ f.params, v.place = p ∧ v.IsWordTyped ∧ ∀ i ∈ f.instrs, i.result? ≠ some p) ∨
    ∃ i ∈ before, i.result? = some p

def Operand.IsKnown (f : Function) (before : List Instr) : Operand → Prop
  | .place p => p.IsKnown f before
  | .literal (.int n) => 0 ≤ n
  | .literal _ => False

def Function.KnowsOperands (f : Function) : List Instr → List Instr → Prop
  | _, [] => True
  | before, i :: l => (∀ o ∈ i.operands, o.IsKnown f before) ∧ f.KnowsOperands (before ++ [i]) l

/-- Unsigned arithmetic in single-assignment form. -/
structure Function.IsSingleAssignment (f : Function) : Prop where
  arithmetic : ∀ i ∈ f.instrs, i.isArithmetic
  once : (f.instrs.map Instr.result?).Nodup
  known : f.KnowsOperands [] f.instrs

theorem Place.IsKnown.mono (h : p.IsKnown f before) (hsub : ∀ i ∈ before, i ∈ after) :
    p.IsKnown f after := by
  rcases h with h | ⟨i, hi, hp⟩
  · exact .inl h
  · exact .inr ⟨i, hsub i hi, hp⟩

theorem Operand.IsKnown.mono {o : Operand} (h : o.IsKnown f before)
    (hsub : ∀ i ∈ before, i ∈ after) : o.IsKnown f after := by
  cases o with
  | place p => exact Place.IsKnown.mono h hsub
  | literal c => cases c <;> exact h

namespace Function.KnowsOperands

theorem mem (h : f.KnowsOperands before l) (hi : i ∈ l) :
    ∀ o ∈ i.operands, o.IsKnown f (before ++ l) := by
  induction l generalizing before with
  | nil => cases hi
  | cons j l ih =>
    intro o ho
    rcases List.mem_cons.1 hi with rfl | hi
    · exact (h.1 o ho).mono fun k hk => List.mem_append_left _ hk
    · have := ih h.2 hi o ho
      rwa [List.append_assoc] at this

theorem of_append (h : f.KnowsOperands before (l ++ after)) :
    f.KnowsOperands before l ∧ f.KnowsOperands (before ++ l) after := by
  induction l generalizing before with
  | nil => exact ⟨trivial, by rwa [List.append_nil]⟩
  | cons i l ih =>
    obtain ⟨hl, hafter⟩ := ih h.2
    rw [List.append_assoc] at hafter
    exact ⟨⟨h.1, hl⟩, hafter⟩

theorem append (h : f.KnowsOperands before l)
    (hafter : ∀ i ∈ after, ∀ o ∈ i.operands, o.IsKnown f (before ++ l)) :
    f.KnowsOperands before (l ++ after) := by
  induction l generalizing before with
  | nil =>
    rw [List.append_nil] at hafter
    induction after generalizing before with
    | nil => exact h
    | cons i after ih =>
      refine ⟨hafter i List.mem_cons_self, ih trivial fun j hj o ho => ?_⟩
      exact (hafter j (List.mem_cons_of_mem i hj) o ho).mono fun k hk => List.mem_append_left _ hk
  | cons i l ih =>
    refine ⟨h.1, ih h.2 fun j hj o ho => ?_⟩
    rw [List.append_assoc]
    exact hafter j hj o ho

end Function.KnowsOperands

namespace Function.IsSingleAssignment

theorem not_assigned (hf : f.IsSingleAssignment) (hl : f.instrs = before ++ after)
    (hp : p.IsKnown f before) : ∀ i ∈ after, i.result? ≠ some p := by
  intro i hi
  rcases hp with ⟨v, -, -, -, hp⟩ | ⟨j, hj, hp⟩
  · exact hp i (hl ▸ List.mem_append_right _ hi)
  · intro hr
    have hnodup := hf.once
    rw [hl, List.map_append, List.nodup_append] at hnodup
    exact hnodup.2.2 _ (List.mem_map_of_mem hj) _ (List.mem_map_of_mem hi) (hp.trans hr.symm)

/-- In single-assignment form every run is settled. -/
theorem isSettled (hf : f.IsSingleAssignment)
    (hbody : f.instrs = before ++ l) (hk : f.KnowsOperands before l) (places : List Place)
    (s : State) : IsSettled places s l := by
  induction l generalizing before places s with
  | nil => trivial
  | cons i l ih =>
    constructor
    · intro p hp hst
      obtain ⟨j, hj, hjp⟩ := mem_storedBy hst
      have hi : i.isArithmetic := hf.arithmetic i (by simp [hbody])
      have hknown : p.IsKnown f before := hk.1 _ (Instr.place_mem_operands hi hp)
      exact absurd hjp (hf.not_assigned hbody hknown j hj)
    · exact ih (by simp [hbody]) hk.2 _ _

/-- The values that an execution leaves satisfy the equations of its instructions. -/
theorem solved (hf : f.IsSingleAssignment) (hl : f.instrs = before ++ (l ++ after))
    (hk : f.KnowsOperands before (l ++ after)) (h : l.foldlM Instr.execute? ρ = some ρ') :
    ∀ i ∈ l, i.Solved ρ' := by
  induction l generalizing before ρ with
  | nil =>
    intro i hi
    cases hi
  | cons i l ih =>
    obtain ⟨p, v, hp, hv, hw, hrest⟩ := execute_cons.1 h
    have hl' : f.instrs = (before ++ [i]) ++ (l ++ after) := by
      rw [hl, List.append_assoc]
      rfl
    intro j hj
    rcases List.mem_cons.1 hj with rfl | hj
    · have hresult : ρ' p = v := by
        have hkp : p.IsKnown f (before ++ [j]) := .inr ⟨j, by simp, hp⟩
        rw [execute_frame hrest fun k hk =>
          hf.not_assigned hl' hkp k (List.mem_append_left _ hk)]
        exact if_pos rfl
      have hvalue : j.value? ρ' = j.value? ρ := by
        refine Instr.value?_congr fun q hq => execute_frame h fun k hkl => ?_
        exact hf.not_assigned hl (hk.1 _ hq) k (List.mem_append_left _ hkl)
      exact ⟨p, hp, by rw [hvalue, hv, hresult], hresult ▸ hw⟩
    · exact ih hl' hk.2 hrest j hj

end Function.IsSingleAssignment

end RangeAudit
