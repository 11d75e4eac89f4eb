import RangeAudit.Proofs.Marks

namespace RangeAudit

variable {s t u : State} {i : Instr} {l : List Instr} {p : Place} {e : Effect}
  {places places' : List Place}

namespace State

/-- The second state differs at the given places only, and forgets nothing. -/
structure Grows (places : List Place) (s t : State) : Prop where
  ranges : ∀ p, p ∉ places → t.ranges.get? p = s.ranges.get? p
  tracked : ∀ p, s.ranges.contains p → t.ranges.contains p
  issues : s.issues <+: t.issues
  checked : s.checked <+: t.checked
  marked : ∀ p ∈ t.checked, p ∈ s.checked ∨ p ∈ places
  summaries : t.summaries = s.summaries

namespace Grows

theorem refl (places : List Place) (s : State) : s.Grows places s where
  ranges _ _ := rfl
  tracked _ h := h
  issues := List.prefix_rfl
  checked := List.prefix_rfl
  marked _ h := .inl h
  summaries := rfl

theorem trans (h : s.Grows places t) (h' : t.Grows places' u) : s.Grows (places ++ places') u where
  ranges := by
    intro p hp
    rw [List.mem_append, not_or] at hp
    rw [h'.ranges p hp.2, h.ranges p hp.1]
  tracked p hp := h'.tracked p (h.tracked p hp)
  issues := h.issues.trans h'.issues
  checked := h.checked.trans h'.checked
  marked := by
    intro p hp
    rw [List.mem_append]
    rcases h'.marked p hp with hp | hp
    · exact (h.marked p hp).imp_right .inl
    · exact .inr (.inr hp)
  summaries := h'.summaries.trans h.summaries

end Grows

theorem checked_prefix_apply (s : State) (e : Effect) : s.checked <+: (s.apply e).checked := by
  unfold apply
  dsimp only
  split
  · unfold insertPlace
    split
    · exact List.prefix_rfl
    · exact List.prefix_append _ _
  · exact List.prefix_rfl

theorem of_mem_checked_apply (h : p ∈ (s.apply e).checked) :
    p ∈ s.checked ∨ e.checked? = some p := by
  unfold apply at h
  dsimp only at h
  split at h
  · rename_i q hq
    rw [hq, Option.some.injEq, eq_comm]
    exact mem_insertPlace.1 h
  · exact .inl h

theorem grows_apply (s : State) (hstore : ∀ p x, e.store? = some (p, x) → p ∈ places)
    (hchecked : ∀ p, e.checked? = some p → p ∈ places) : s.Grows places (s.apply e) where
  ranges p hp := s.get?_apply_of_not_store fun x he => hp (hstore p x he)
  tracked p hp := s.isSome_apply e hp
  issues := List.prefix_append _ _
  checked := s.checked_prefix_apply e
  marked := by
    intro p hp
    exact (of_mem_checked_apply hp).imp_right (hchecked p)
  summaries := rfl

end State

namespace Instr

theorem result?_of_marked? (h : i.marked? = some p) : i.result? = some p := by
  cases i with
  | builtin result? target args text =>
    cases target with
    | absent | unresolved => cases h
    | known callee =>
      rw [marked?] at h
      split at h
      · exact h
      · cases h
  | binary | assign | convert | member | call | condition | other | incomplete => cases h

/-- The effect of an instruction stays at the place that it names for its result. -/
theorem grows_effect (i : Instr) (s : State) :
    s.Grows i.result?.toList (s.apply (i.effect s)) := by
  apply s.grows_apply
  · intro p x h
    exact Option.mem_toList.2 (effect_result h)
  · intro p h
    exact Option.mem_toList.2 (result?_of_marked? (effect_marked h))

theorem process_ends (h : i.process s = .ok () t ∨ ∃ f, i.process s = .error f t) :
    t = s.apply (i.effect s) := by
  unfold process at h
  dsimp only at h
  split at h
  · rcases h with h | ⟨f, h⟩
    · cases h
      rfl
    · cases h
  · rcases h with h | ⟨f, h⟩
    · cases h
    · cases h
      rfl

/-- An instruction changes no interval but that of its result, and only appends issues. -/
theorem process_grows (h : i.process s = .ok () t) : s.Grows i.result?.toList t := by
  rw [process_ends (.inl h)]
  exact i.grows_effect s

def checkedSum : Instr :=
  .builtin (some (.named "z")) (.known ⟨.given "add", some "SafeMath", none, .missing⟩)
    (.given [.place (.named "x"), .place (.named "y")]) ""

def beforeSum : State :=
  ⟨⟨[(.named "x", .point 2), (.named "y", .point 3)]⟩, [.divisorIsZero false], [.named "x"], []⟩

theorem checkedSum_grows : ∃ t, checkedSum.process beforeSum = .ok () t ∧
    beforeSum.Grows [.named "z"] t ∧ t.ranges.get? (.named "x") = some (.point 2) ∧
    t.checked = [.named "x", .named "z"] := by
  have hprocess : checkedSum.process beforeSum = .ok () { beforeSum with
      ranges := beforeSum.ranges.set (.named "z") .word
      checked := [.named "x", .named "z"] } := by
    decide
  have hgrows := process_grows hprocess
  exact ⟨_, hprocess, hgrows, hgrows.ranges _ (by decide), rfl⟩

/-- The same for instructions carried out in turn, up to a failure. -/
theorem run_grows (h : l.forM process s = .ok () t ∨ ∃ f, l.forM process s = .error f t) :
    s.Grows (l.filterMap result?) t := by
  induction l generalizing s with
  | nil =>
    rcases h with h | ⟨f, h⟩
    · cases h
      exact .refl [] t
    · cases h
  | cons i l ih =>
    have hplaces : (i :: l).filterMap result? = i.result?.toList ++ l.filterMap result? := by
      cases hi : i.result? with
      | none => exact List.filterMap_cons_none hi
      | some p => exact List.filterMap_cons_some hi
    rw [Analysis.forM_cons] at h
    rw [hplaces]
    cases hi : i.process s with
    | ok _ u =>
      rw [Analysis.bind_ok hi, process_ends (.inl hi)] at h
      exact (i.grows_effect s).trans (ih h)
    | error g u =>
      rw [Analysis.bind_error hi] at h
      have hend : t = u := by
        rcases h with h | ⟨f, h⟩
        · cases h
        · cases h
          rfl
      rw [hend, process_ends (.inr ⟨g, hi⟩)]
      exact (i.grows_effect s).trans (.refl _ _)

end Instr

end RangeAudit
