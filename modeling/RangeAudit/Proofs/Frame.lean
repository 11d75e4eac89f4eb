import Mathlib.Data.List.Forall2
import RangeAudit.Analysis.Worklist

namespace RangeAudit

variable {r r' : Ranges} {s t : State} {i : Instr} {p q : Place} {x y : Interval}

def Operand.places : Operand → List Place
  | .place p => [p]
  | .literal _ => []

def Args.places : Args → List Place
  | .given args => args.flatMap Operand.places
  | _ => []

/-- The places whose intervals an instruction looks at. -/
def Instr.reads : Instr → List Place
  | .binary _ _ left right => left.places ++ right.places
  | .assign _ source => source.places
  | .convert _ source => source.places
  | .builtin _ _ args _ => Args.places args
  | _ => []

theorem TypeClass.converted?_isSome (c : TypeClass) (x y : Interval) :
    (c.converted? x).isSome = (c.converted? y).isSome := by
  cases c <;> rfl

theorem Operand.interval_congr {o : Operand} (h : ∀ p ∈ o.places, r.get? p = r'.get? p) :
    o.interval r = o.interval r' := by
  cases o with
  | literal c => rfl
  | place p => simp only [Operand.interval, Ranges.getD, h p (by simp [Operand.places])]

theorem Operand.argument?_congr {o : Operand} (h : ∀ p ∈ o.places, r.get? p = r'.get? p) :
    o.argument? r = o.argument? r' := by
  cases o with
  | literal c => rfl
  | place p => exact h p (by simp [Operand.places])

theorem Operand.argument?_isSome_congr {o : Operand}
    (h : ∀ p ∈ o.places, (r.get? p).isSome = (r'.get? p).isSome) :
    (o.argument? r).isSome = (o.argument? r').isSome := by
  cases o with
  | literal c => rfl
  | place p => exact h p (by simp [Operand.places])

section Lists

variable {α β : Type} {f g : α → Option β}

theorem mapM_congr {l : List α} (h : ∀ a ∈ l, f a = g a) : l.mapM f = l.mapM g := by
  induction l with
  | nil => rfl
  | cons a l ih =>
    rw [List.mapM_cons, List.mapM_cons, h a (by simp), ih fun b hb => h b (by simp [hb])]

theorem mapM_isSome_congr {l : List α} (h : ∀ a ∈ l, (f a).isSome = (g a).isSome) :
    (l.mapM f).isSome = (l.mapM g).isSome := by
  induction l with
  | nil => rfl
  | cons a l ih =>
    have ha := h a (by simp)
    have hl := ih fun b hb => h b (by simp [hb])
    rw [List.mapM_cons, List.mapM_cons]
    cases hf : f a <;> cases hg : g a <;> cases hfl : l.mapM f <;> cases hgl : l.mapM g <;> simp_all

theorem forall₂_of_mapM {l : List α} {l' : List β} (h : l.mapM f = some l') :
    List.Forall₂ (fun a b => f a = some b) l l' := by
  induction l generalizing l' with
  | nil =>
    cases h
    exact .nil
  | cons a l ih =>
    rw [List.mapM_cons] at h
    cases ha : f a with
    | none => simp [ha] at h
    | some b =>
      cases hl : l.mapM f with
      | none => simp [ha, hl] at h
      | some m =>
        simp only [ha, hl, Option.bind_eq_bind, Option.bind_some, Option.pure_def,
          Option.some.injEq] at h
        subst h
        exact .cons ha (ih hl)

theorem length_of_mapM {l : List α} {l' : List β} (h : l.mapM f = some l') :
    l'.length = l.length :=
  (forall₂_of_mapM h).length_eq.symm

theorem mem_of_mapM {l : List α} {l' : List β} {b : β} (h : l.mapM f = some l') (hb : b ∈ l') :
    ∃ a ∈ l, f a = some b := by
  replace h := forall₂_of_mapM h
  induction h with
  | nil => cases hb
  | cons ha _ ih =>
    rcases List.mem_cons.1 hb with rfl | hb
    · exact ⟨_, List.mem_cons_self, ha⟩
    · obtain ⟨a, ha, hab⟩ := ih hb
      exact ⟨a, List.mem_cons_of_mem _ ha, hab⟩

theorem length_filterMap_congr {l : List α} (h : ∀ a ∈ l, (f a).isSome = (g a).isSome) :
    (l.filterMap f).length = (l.filterMap g).length := by
  induction l with
  | nil => rfl
  | cons a l ih =>
    have ha := h a (by simp)
    have hl := ih fun b hb => h b (by simp [hb])
    cases hf : f a <;> cases hg : g a <;> simp_all

end Lists

namespace Effect

theorem ofOperation_store {op : Operator} {l u : Interval}
    (h : (ofOperation op l u p).failure? = none) :
    (ofOperation op l u p).store?.isSome := by
  unfold ofOperation at h ⊢
  split at h
  · cases h
  · split at h
    · rfl
    · cases h

theorem ofOperation_result {op : Operator} {l u : Interval}
    (h : (ofOperation op l u p).store? = some (q, x)) : q = p := by
  unfold ofOperation at h
  split at h
  · cases h
  · split at h
    · cases h
      rfl
    · cases h

theorem binaryOn_store (checked : List Place) (op : Operator) (left : Operand) (l u : Interval) :
    (binaryOn checked op p left l u).store? = (ofOperation op l u p).store? := by
  unfold binaryOn
  dsimp only
  split
  · rfl
  · split <;> rfl

theorem binaryOn_failure {checked : List Place} {op : Operator} {left : Operand} {l u : Interval}
    (h : (binaryOn checked op p left l u).failure? = none) :
    (ofOperation op l u p).failure? = none := by
  unfold binaryOn at h
  dsimp only at h
  split at h
  · exact h
  · rename_i hn
    simpa using hn

theorem ofOperation_checked (op : Operator) (l u : Interval) (p : Place) :
    (ofOperation op l u p).checked? = none := by
  unfold ofOperation
  split
  · rfl
  · split <;> rfl

theorem binaryOn_checked (checked : List Place) (op : Operator) (p : Place) (left : Operand)
    (l u : Interval) : (binaryOn checked op p left l u).checked? = none := by
  have h := ofOperation_checked op l u p
  unfold binaryOn
  dsimp only
  split
  · exact h
  · split <;> exact h

theorem assign_checked (s : State) (p : Place) (source : Operand) :
    (assign s p source).checked? = none := by
  unfold assign
  split
  · split <;> rfl
  · split
    · rfl
    · split
      · split
        · rfl
        · split <;> rfl
      · rfl

theorem convert_checked (s : State) (p : Place) (source : Operand) :
    (convert s p source).checked? = none := by
  unfold convert
  split
  · split
    · rfl
    · rename_i y _ _ _ _ c _
      cases c.converted? y <;> rfl
  · rfl

theorem member_checked (result? : Option Place) (base field : String) :
    (member result? base field).checked? = none := by
  unfold member
  split
  · cases result? <;> rfl
  · rfl

theorem call_checked (result? : Option Place) (target : Target) (args : Args) :
    (call result? target args).checked? = none := by
  unfold call
  split
  · rfl
  · rfl
  · rfl
  · split
    · rfl
    · rfl
    · split <;> rfl

theorem binary_store {op : Operator} {left right : Operand}
    (h : (binary s op p left right).failure? = none) :
    (binary s op p left right).store?.isSome := by
  unfold binary at h ⊢
  split at h
  · cases h
  · split at h
    · cases h
    · rw [binaryOn_store]
      exact ofOperation_store (binaryOn_failure h)

theorem store_result (h : (store p y).store? = some (q, x)) : q = p := by
  cases h
  rfl

theorem assign_result {source : Operand} (h : (assign s p source).store? = some (q, x)) :
    q = p := by
  unfold assign at h
  split at h
  · split at h
    · cases h
    · exact store_result h
    · cases h
  · split at h
    · exact store_result h
    · split at h
      · split at h
        · exact store_result h
        · split at h
          · exact store_result h
          · cases h
      · cases h

theorem convert_result {source : Operand} (h : (convert s p source).store? = some (q, x)) :
    q = p := by
  unfold convert at h
  split at h
  · split at h
    · cases h
    · rename_i y _ _ _ _ c _
      cases hc : c.converted? y with
      | none =>
        rw [hc] at h
        cases h
      | some z =>
        rw [hc] at h
        exact store_result h
  · cases h

theorem member_result {result? : Option Place} {base field : String}
    (h : (member result? base field).store? = some (q, x)) : result? = some q := by
  unfold member at h
  split at h
  · cases result? with
    | none => cases h
    | some p => rw [store_result h]
  · cases h

theorem call_result {result? : Option Place} {target : Target} {args : Args}
    (h : (call result? target args).store? = some (q, x)) : result? = some q := by
  unfold call at h
  split at h
  · cases h
  · cases h
  · cases h
  · split at h
    · cases h
    · rw [store_result h]
    · split at h
      · rw [store_result h]
      · cases h

theorem arithmeticCall_congr {result? : Option Place} {name : String} {checked : Bool}
    {args : List Operand}
    (h : ∀ p ∈ args.flatMap Operand.places, s.ranges.get? p = t.ranges.get? p) :
    arithmeticCall s result? name checked args = arithmeticCall t result? name checked args := by
  have ha : args.mapM (Operand.argument? s.ranges) = args.mapM (Operand.argument? t.ranges) :=
    mapM_congr fun o ho => Operand.argument?_congr fun p hp => h p (List.mem_flatMap.2 ⟨o, ho, hp⟩)
  simp only [arithmeticCall, ha]

theorem arithmeticCall_store {result? : Option Place} {name : String} {checked : Bool}
    {args : List Operand} (h : (arithmeticCall s result? name checked args).failure? = none) :
    (arithmeticCall s result? name checked args).store?.isSome =
      ((args.mapM (Operand.argument? s.ranges)).isSome && decide (2 ≤ args.length)) := by
  unfold arithmeticCall at h ⊢
  split at h
  · rename_i l u rest hm
    have hl := length_of_mapM hm
    simp only [List.length_cons] at hl
    rw [hm, ← hl]
    split at h
    · rename_i p
      have hf : (ofOperation (.ofText none name) l u p).failure? = none := by
        dsimp only at h
        split at h <;> exact h
      have hs := ofOperation_store hf
      dsimp only
      split <;> simpa using hs
    · cases he : (ofOperation (.ofText none name) l u .unnamed).failure? <;> simp [he] at h
  · rename_i hm
    cases ha : args.mapM (Operand.argument? s.ranges) with
    | none => rfl
    | some l =>
      have hl := length_of_mapM ha
      match l, hl with
      | [], hl => simp [← hl, nothing]
      | [a], hl => simp [← hl, nothing]
      | a :: b :: rest, hl => exact (hm a b rest ha).elim

theorem arithmeticCall_result {result? : Option Place} {name : String} {checked : Bool}
    {args : List Operand} (h : (arithmeticCall s result? name checked args).store? = some (q, x)) :
    result? = some q := by
  unfold arithmeticCall at h
  split at h
  · split at h
    · dsimp only at h
      split at h <;> rw [ofOperation_result h]
    · cases h
  · cases h

theorem choiceCall_congr {result? : Option Place}
    {interval : Interval → List Interval → Except Failure Interval} {args : List Operand}
    (h : ∀ p ∈ args.flatMap Operand.places, s.ranges.get? p = t.ranges.get? p) :
    choiceCall s result? interval args = choiceCall t result? interval args := by
  have ha : args.filterMap (Operand.argument? s.ranges) =
      args.filterMap (Operand.argument? t.ranges) :=
    List.filterMap_congr fun o ho =>
      Operand.argument?_congr fun p hp => h p (List.mem_flatMap.2 ⟨o, ho, hp⟩)
  simp only [choiceCall, ha]

theorem choiceCall_store {result? : Option Place}
    {interval : Interval → List Interval → Except Failure Interval} {args : List Operand}
    (h : (choiceCall s result? interval args).failure? = none) :
    (choiceCall s result? interval args).store?.isSome =
      decide (2 ≤ (args.filterMap (Operand.argument? s.ranges)).length) := by
  unfold choiceCall at h ⊢
  split at h
  · rename_i a b rest ha
    rw [ha]
    split at h
    · cases result? with
      | none => cases h
      | some p => simp [storeAt, store]
    · cases h
  · rename_i hn
    match hl : args.filterMap (Operand.argument? s.ranges), hn with
    | [], _ => simp [nothing]
    | [a], _ => simp [nothing]
    | a :: b :: rest, hn => exact (hn a b rest rfl).elim

theorem choiceCall_result {result? : Option Place}
    {interval : Interval → List Interval → Except Failure Interval} {args : List Operand}
    (h : (choiceCall s result? interval args).store? = some (q, x)) : result? = some q := by
  unfold choiceCall at h
  split at h
  · split at h
    · cases result? with
      | none => cases h
      | some p =>
        cases h
        rfl
    · cases h
  · cases h

/-- How the effect of a provided function depends on the state. -/
inductive BuiltinForm (result? : Option Place) : Args → (State → Effect) → Prop
  | fixed {args : Args} {e : Effect} (h : e.store? = none) : BuiltinForm result? args fun _ => e
  | arithmetic {l : List Operand} {name : String} (h : name ∈ arithmeticNames) (checked : Bool) :
    BuiltinForm result? (.given l) fun s => arithmeticCall s result? name checked l
  | choice {l : List Operand} {interval : Interval → List Interval → Except Failure Interval}
    (h : interval = leastInterval ∨ interval = greatestInterval) :
    BuiltinForm result? (.given l) fun s => choiceCall s result? interval l

theorem builtinNamed_form (result? : Option Place) (callee : Callee) (name : String) (args : Args) :
    BuiltinForm result? args fun s => builtinNamed s result? callee name args := by
  have withArgs_form (next : State → List Operand → Effect)
      (h : ∀ l, args = .given l → BuiltinForm result? args fun s => next s l) :
      BuiltinForm result? args fun s => withArgs args (next s) := by
    cases args with
    | missing => exact .fixed rfl
    | empty => exact .fixed rfl
    | given l => exact h l rfl
  unfold builtinNamed
  split
  · rename_i hname
    exact withArgs_form _ fun l hl => hl ▸ .arithmetic (List.contains_iff_mem.1 hname) _
  · split
    · exact withArgs_form _ fun l hl => hl ▸ .choice (.inl rfl)
    · split
      · exact withArgs_form _ fun l hl => hl ▸ .choice (.inr rfl)
      · exact .fixed rfl

theorem builtin_form (result? : Option Place) (target : Target) (args : Args) :
    BuiltinForm result? args fun s => builtin s result? target args := by
  cases target with
  | absent => exact .fixed rfl
  | unresolved => cases args <;> exact .fixed rfl
  | known callee =>
    cases args with
    | missing => exact .fixed rfl
    | empty =>
      cases hn : callee.name <;> simp only [builtin, hn]
      · exact .fixed rfl
      · exact .fixed rfl
      · exact builtinNamed_form ..
    | given l =>
      cases hn : callee.name <;> simp only [builtin, hn]
      · exact .fixed rfl
      · exact .fixed rfl
      · exact builtinNamed_form ..

namespace BuiltinForm

variable {result? : Option Place} {args : Args} {e : State → Effect}

theorem congr (h : BuiltinForm result? args e)
    (hr : ∀ p ∈ args.places, s.ranges.get? p = t.ranges.get? p) : e s = e t := by
  cases h with
  | fixed => rfl
  | arithmetic _ checked => exact arithmeticCall_congr hr
  | choice => exact choiceCall_congr hr

theorem store_congr (h : BuiltinForm result? args e)
    (hr : ∀ p ∈ args.places, (s.ranges.get? p).isSome = (t.ranges.get? p).isSome)
    (hs : (e s).failure? = none) (ht : (e t).failure? = none) :
    (e s).store?.isSome = (e t).store?.isSome := by
  cases h with
  | fixed => rfl
  | arithmetic _ checked =>
    rw [arithmeticCall_store hs, arithmeticCall_store ht]
    congr 1
    exact mapM_isSome_congr fun o ho =>
      Operand.argument?_isSome_congr fun p hp => hr p (List.mem_flatMap.2 ⟨o, ho, hp⟩)
  | choice =>
    rw [choiceCall_store hs, choiceCall_store ht]
    congr 2
    exact length_filterMap_congr fun o ho =>
      Operand.argument?_isSome_congr fun p hp => hr p (List.mem_flatMap.2 ⟨o, ho, hp⟩)

theorem result (h : BuiltinForm result? args e) (hx : (e s).store? = some (q, x)) :
    result? = some q := by
  cases h with
  | fixed h => cases h.symm.trans hx
  | arithmetic _ checked => exact arithmeticCall_result hx
  | choice => exact choiceCall_result hx

end BuiltinForm

end Effect

namespace Instr

/-- What an instruction stores is decided by the intervals of the places it reads. -/
theorem effect_store_congr (h : ∀ p ∈ i.reads, s.ranges.get? p = t.ranges.get? p) :
    (i.effect s).store? = (i.effect t).store? := by
  cases i with
  | binary op result left right =>
    have hl : left.interval s.ranges = left.interval t.ranges :=
      Operand.interval_congr fun p hp => h p (List.mem_append_left _ hp)
    have hr : right.interval s.ranges = right.interval t.ranges :=
      Operand.interval_congr fun p hp => h p (List.mem_append_right _ hp)
    simp only [effect, Effect.binary, hl, hr]
    split
    · rfl
    · split
      · rfl
      · rw [Effect.binaryOn_store, Effect.binaryOn_store]
  | assign result source =>
    cases source with
    | literal c => rfl
    | place p =>
      have hp : s.ranges.get? p = t.ranges.get? p := h p (by simp [reads, Operand.places])
      simp only [effect, Effect.assign, hp]
  | convert result source =>
    cases source with
    | literal c => rfl
    | place p =>
      have hp : s.ranges.get? p = t.ranges.get? p := h p (by simp [reads, Operand.places])
      simp only [effect, Effect.convert, Operand.place?, Option.bind_some, hp]
  | builtin result? target args text =>
    exact congrArg Effect.store? ((Effect.builtin_form result? target args).congr h)
  | member result? base field => rfl
  | call kind result? target args => rfl
  | condition subject => rfl
  | other result? source? target args => rfl
  | incomplete shape part result? source? => rfl

/-- Whether an instruction stores is decided by which of the places it reads are tracked. -/
theorem effect_store_isSome_congr
    (h : ∀ p ∈ i.reads, (s.ranges.get? p).isSome = (t.ranges.get? p).isSome)
    (hs : (i.effect s).failure? = none) (ht : (i.effect t).failure? = none) :
    (i.effect s).store?.isSome = (i.effect t).store?.isSome := by
  cases i with
  | binary op result left right =>
    rw [show (effect s (.binary op result left right)).store?.isSome = true from
        Effect.binary_store hs,
      show (effect t (.binary op result left right)).store?.isSome = true from
        Effect.binary_store ht]
  | assign result source =>
    cases source with
    | literal c => rfl
    | place p =>
      have hp := h p (by simp [reads, Operand.places])
      simp only [effect, Effect.assign]
      cases hps : s.ranges.get? p <;> cases hpt : t.ranges.get? p <;> simp_all [Effect.store]
  | convert result source =>
    cases source with
    | literal c => rfl
    | place p =>
      have hp := h p (by simp [reads, Operand.places])
      simp only [effect, Effect.convert, Operand.place?, Option.bind_some]
      cases hps : s.ranges.get? p <;> cases hpt : t.ranges.get? p
      · rfl
      · simp [hps, hpt] at hp
      · simp [hps, hpt] at hp
      · rename_i x y
        cases result.lowerType? with
        | none => rfl
        | some type =>
          cases hc : TypeClass.ofText type with
          | error f => simp [hc]
          | ok c =>
            have hxy := c.converted?_isSome x y
            cases hx : c.converted? x <;> cases hy : c.converted? y <;>
              simp_all [Effect.store, Effect.nothing]
  | builtin result? target args text =>
    exact (Effect.builtin_form result? target args).store_congr h hs ht
  | member result? base field => rfl
  | call kind result? target args => rfl
  | condition subject => rfl
  | other result? source? target args => rfl
  | incomplete shape part result? source? => rfl

theorem effect_result (h : (i.effect s).store? = some (q, x)) : i.result? = some q := by
  cases i with
  | binary op result left right =>
    simp only [effect, Effect.binary] at h
    split at h
    · cases h
    · split at h
      · cases h
      · rw [Effect.binaryOn_store] at h
        rw [Effect.ofOperation_result h]
        rfl
  | assign result source =>
    rw [Effect.assign_result h]
    rfl
  | convert result source =>
    rw [Effect.convert_result h]
    rfl
  | builtin result? target args text =>
    exact (Effect.builtin_form result? target args).result h
  | member result? base field => exact Effect.member_result h
  | call kind result? target args => exact Effect.call_result h
  | condition subject => cases h
  | other result? source? target args => exact Effect.call_result h
  | incomplete shape part result? source? => cases h

end Instr

end RangeAudit
