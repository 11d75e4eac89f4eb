import RangeAudit.Proofs.Frame

namespace RangeAudit

variable {s t u : State} {i : Instr} {l m : List Instr} {p q : Place} {x : Interval} {e : Effect}

instance : DecidableEq (EStateM.Result Failure State Unit)
  | .ok _ s, .ok _ t => decidable_of_iff (s = t) (by simp)
  | .error e s, .error f t => decidable_of_iff (e = f ∧ s = t) (by simp)
  | .ok _ _, .error _ _ => .isFalse (by simp)
  | .error _ _, .ok _ _ => .isFalse (by simp)

theorem ok_of_bind {α β : Type} {x : Except Failure α} {k : α → Except Failure β} {b : β}
    (h : (x >>= k) = .ok b) : ∃ a, x = .ok a ∧ k a = .ok b := by
  cases x with
  | error e => cases h
  | ok a => exact ⟨a, rfl, h⟩

namespace Analysis

variable {α β : Type}

theorem bind_ok {a : Analysis α} {b : α} (h : a s = .ok b t) (k : α → Analysis β) :
    (a >>= k) s = k b t := by
  change EStateM.bind a k s = _
  simp only [EStateM.bind, h]

theorem bind_error {a : Analysis α} {f : Failure} (h : a s = .error f t) (k : α → Analysis β) :
    (a >>= k) s = .error f t := by
  change EStateM.bind a k s = _
  simp only [EStateM.bind, h]

theorem get_apply (s : State) : (get : Analysis State) s = .ok s s := by
  rfl

theorem modify_apply (f : State → State) (s : State) :
    (modify f : Analysis Unit) s = .ok () (f s) := by
  rfl

theorem ofExcept_ok (a : α) (s : State) : ofExcept (.ok a) s = .ok a s := by
  rfl

theorem ofExcept_error (f : Failure) (s : State) :
    (ofExcept (.error f) : Analysis α) s = .error f s := by
  rfl

theorem bind_eq_ok {a : Analysis α} {k : α → Analysis β} {b : β} :
    (a >>= k) s = .ok b t ↔ ∃ c u, a s = .ok c u ∧ k c u = .ok b t := by
  cases h : a s with
  | ok c u => simp [bind_ok h]
  | error f u => simp [bind_error h]

theorem append_eq_ok {a b : Analysis (List α)} {l : List α} :
    (do let here ← a; let later ← b; return here ++ later : Analysis (List α)) s = .ok l t ↔
      ∃ here later u, a s = .ok here u ∧ b u = .ok later t ∧ l = here ++ later := by
  constructor
  · intro h
    obtain ⟨here, u, hu, h⟩ := bind_eq_ok.1 h
    obtain ⟨later, v, hv, h⟩ := bind_eq_ok.1 h
    cases h
    exact ⟨here, later, u, hu, hv, rfl⟩
  · rintro ⟨here, later, u, hu, hv, rfl⟩
    exact bind_eq_ok.2 ⟨here, u, hu, bind_eq_ok.2 ⟨later, t, hv, rfl⟩⟩

def completes (a : Analysis α) (s : State) : Bool :=
  match a s with
  | .ok _ _ => true
  | .error _ _ => false

theorem completes_iff {a : Analysis α} : a.completes s ↔ ∃ b t, a s = .ok b t := by
  unfold completes
  cases a s with
  | ok b t => simp
  | error f t => simp

theorem bind_congr {a b : Analysis α} {k k' : α → Analysis β} (h : a s = b s)
    (hk : ∀ c u, k c u = k' c u) : (a >>= k) s = (b >>= k') s := by
  cases hb : b s with
  | ok c u => rw [bind_ok hb, bind_ok (h.trans hb), hk]
  | error f u => rw [bind_error hb, bind_error (h.trans hb)]

theorem forM_cons (f : α → Analysis Unit) (a : α) (l : List α) (s : State) :
    (a :: l).forM f s = (f a >>= fun _ => l.forM f) s := by
  rfl

theorem forM_append (f : α → Analysis Unit) (l m : List α) (s : State) :
    (l ++ m).forM f s = (l.forM f >>= fun _ => m.forM f) s := by
  induction l generalizing s with
  | nil => rfl
  | cons a l ih =>
    rw [List.cons_append, forM_cons]
    cases h : f a s with
    | ok _ t =>
      rw [bind_ok h, ih]
      cases hl : l.forM f t with
      | ok _ u =>
        have hal : (a :: l).forM f s = .ok () u := (bind_ok h _).trans hl
        rw [bind_ok hl, bind_ok hal]
      | error e u =>
        have hal : (a :: l).forM f s = .error e u := (bind_ok h _).trans hl
        rw [bind_error hl, bind_error hal]
    | error e t =>
      have hal : (a :: l).forM f s = .error e t := bind_error h _
      rw [bind_error h, bind_error hal]

theorem forM_append_ok {f : α → Analysis Unit} {l m : List α} :
    (l ++ m).forM f s = .ok () t ↔ ∃ u, l.forM f s = .ok () u ∧ m.forM f u = .ok () t := by
  rw [forM_append, bind_eq_ok]
  exact ⟨fun ⟨_, u, hu⟩ => ⟨u, hu⟩, fun ⟨u, hu⟩ => ⟨(), u, hu⟩⟩

end Analysis

namespace State

theorem ranges_apply_of_none (s : State) (h : e.store? = none) : (s.apply e).ranges = s.ranges := by
  simp only [apply, h]

theorem get?_apply (s : State) (h : e.store? = some (p, x)) (q : Place) :
    (s.apply e).ranges.get? q = if q = p then some x else s.ranges.get? q := by
  simp only [apply, h, Ranges.get?_set]

theorem get?_apply_of_not_store (s : State) (h : ∀ x, e.store? ≠ some (q, x)) :
    (s.apply e).ranges.get? q = s.ranges.get? q := by
  cases he : e.store? with
  | none => rw [ranges_apply_of_none s he]
  | some c =>
    obtain ⟨p, x⟩ := c
    have hne : q ≠ p := by
      rintro rfl
      exact h x he
    rw [get?_apply s he, if_neg hne]

theorem isSome_apply (s : State) (e : Effect) (h : (s.ranges.get? q).isSome) :
    ((s.apply e).ranges.get? q).isSome := by
  cases he : e.store? with
  | none => rwa [ranges_apply_of_none s he]
  | some c =>
    obtain ⟨p, x⟩ := c
    rw [get?_apply s he]
    split
    · rfl
    · exact h

end State

namespace Instr

theorem process_ok_iff : i.process s = .ok () t ↔
    (i.effect s).failure? = none ∧ t = s.apply (i.effect s) := by
  unfold process
  dsimp only
  split
  · rename_i h
    simp [h, eq_comm]
  · rename_i f h
    simp [h]

theorem run_cons_ok : (i :: l).forM process s = .ok () t ↔
    (i.effect s).failure? = none ∧ l.forM process (s.apply (i.effect s)) = .ok () t := by
  rw [Analysis.forM_cons, Analysis.bind_eq_ok]
  constructor
  · rintro ⟨_, u, hi, h⟩
    obtain ⟨hn, rfl⟩ := process_ok_iff.1 hi
    exact ⟨hn, h⟩
  · rintro ⟨hn, h⟩
    exact ⟨(), _, process_ok_iff.2 ⟨hn, rfl⟩, h⟩

/-- A place that an instruction does not name for its result keeps its interval. -/
theorem get?_apply_effect (s : State) (hp : i.result? ≠ some p) :
    (s.apply (i.effect s)).ranges.get? p = s.ranges.get? p :=
  s.get?_apply_of_not_store fun _ he => hp (effect_result he)

/-- A place that no instruction of a run names for its result keeps its interval. -/
theorem get?_run (h : l.forM process s = .ok () t) (hp : ∀ i ∈ l, i.result? ≠ some p) :
    t.ranges.get? p = s.ranges.get? p := by
  induction l generalizing s with
  | nil =>
    cases h
    rfl
  | cons i l ih =>
    obtain ⟨-, h⟩ := run_cons_ok.1 h
    rw [ih h fun j hj => hp j (List.mem_cons_of_mem _ hj),
      get?_apply_effect s (hp i List.mem_cons_self)]

end Instr

end RangeAudit
