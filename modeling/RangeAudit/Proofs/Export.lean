import Mathlib.Data.List.Dedup
import Mathlib.Data.List.Induction
import RangeAudit.Proofs.Marks

namespace RangeAudit

variable {α β : Type} {cfg : Config} {s t : State} {r : Ranges}

theorem lookup_insertKeyed (key k : String) (value : α) (l : List (String × α)) :
    (insertKeyed key value l).lookup k = if k = key then some value else l.lookup k := by
  induction l with
  | nil =>
    by_cases h : k = key
    · simp [insertKeyed, h]
    · have hb : (k == key) = false := by simp [h]
      simp [insertKeyed, List.lookup_cons, h, hb]
  | cons e l ih =>
    obtain ⟨j, v⟩ := e
    by_cases hj : j = key
    · subst hj
      by_cases hk : k = j
      · simp [insertKeyed, hk]
      · have hb : (k == j) = false := by simp [hk]
        simp [insertKeyed, List.lookup_cons, hk, hb]
    · by_cases hk : k = j
      · subst hk
        simp [insertKeyed, hj]
      · have hb : (k == j) = false := by simp [hk]
        simp [insertKeyed, List.lookup_cons, hj, hb, ih]

theorem keys_insertKeyed (key : String) (value : α) (l : List (String × α)) :
    (insertKeyed key value l).map Prod.fst =
      if key ∈ l.map Prod.fst then l.map Prod.fst else l.map Prod.fst ++ [key] := by
  induction l with
  | nil => rfl
  | cons e l ih =>
    obtain ⟨j, v⟩ := e
    by_cases hj : j = key
    · simp [insertKeyed, hj]
    · have hne : ¬ key = j := fun h => hj h.symm
      simp only [insertKeyed, hj, if_false, List.map_cons, List.mem_cons, hne, false_or, ih]
      split <;> rfl

theorem find?_of_unique {l : List α} {a : α} (key : α → String) (ha : a ∈ l)
    (h : ∀ b ∈ l, key b = key a → b = a) : l.find? (key · == key a) = some a := by
  have hsome : (l.find? (key · == key a)).isSome :=
    List.find?_isSome.2 ⟨a, ha, beq_self_eq_true _⟩
  obtain ⟨b, hb⟩ := Option.isSome_iff_exists.1 hsome
  have hkey : key b = key a := by simpa using List.find?_some hb
  rw [hb, h b (List.mem_of_find?_eq_some hb) hkey]

/-- The values of items by their keys, put in one after another. -/
def keyedBy (key : α → String) (value : α → β) (l : List α) : List (String × β) :=
  l.foldl (fun entries a => insertKeyed (key a) (value a) entries) []

namespace keyedBy

variable {key : α → String} {value : α → β} {l before after : List α} {a : α}

theorem snoc (l : List α) (a : α) :
    keyedBy key value (l ++ [a]) = insertKeyed (key a) (value a) (keyedBy key value l) :=
  List.foldl_append

theorem nodup_keys (l : List α) : ((keyedBy key value l).map Prod.fst).Nodup := by
  induction l using List.reverseRecOn with
  | nil => exact List.nodup_nil
  | append_singleton l a ih =>
    rw [snoc, keys_insertKeyed]
    split
    · exact ih
    · rename_i hnew
      exact List.nodup_append.2 ⟨ih, List.nodup_singleton _, fun j hj k hk => by
        rw [List.mem_singleton.1 hk]
        exact fun h => hnew (h ▸ hj)⟩

theorem mem_keys {k : String} : k ∈ (keyedBy key value l).map Prod.fst ↔ k ∈ l.map key := by
  induction l using List.reverseRecOn with
  | nil => exact Iff.rfl
  | append_singleton l a ih =>
    rw [snoc, keys_insertKeyed, List.map_append, List.mem_append, List.map_singleton,
      List.mem_singleton, ← ih]
    split
    · rename_i hold
      exact ⟨.inl, fun h => h.elim id fun h => h ▸ hold⟩
    · rw [List.mem_append, List.mem_singleton]

/-- The last item with a key counts. -/
theorem lookup_eq (l : List α) (k : String) :
    (keyedBy key value l).lookup k = (l.reverse.find? (key · == k)).map value := by
  induction l using List.reverseRecOn with
  | nil => rfl
  | append_singleton l a ih =>
    rw [snoc, lookup_insertKeyed, List.reverse_append, List.reverse_singleton,
      List.singleton_append, List.find?_cons, ih]
    by_cases h : k = key a
    · simp [h]
    · have hb : (key a == k) = false := by simpa using fun h' => h h'.symm
      simp [h, hb]

theorem lookup_last (h : ∀ b ∈ after, key b ≠ key a) :
    (keyedBy key value (before ++ a :: after)).lookup (key a) = some (value a) := by
  have hnone : after.reverse.find? (key · == key a) = none := by
    rw [List.find?_eq_none]
    intro b hb
    simpa using h b (List.mem_reverse.1 hb)
  rw [lookup_eq, List.reverse_append, List.reverse_cons, List.append_assoc, List.find?_append,
    hnone]
  simp

theorem lookup_unique (key : α → String) (value : α → β) (ha : a ∈ l)
    (h : ∀ b ∈ l, key b = key a → b = a) :
    (keyedBy key value l).lookup (key a) = some (value a) := by
  have hfind : l.reverse.find? (key · == key a) = some a :=
    find?_of_unique key (List.mem_reverse.2 ha) fun b hb => h b (List.mem_reverse.1 hb)
  rw [lookup_eq, hfind]
  rfl

theorem length_eq_iff (l : List α) :
    (keyedBy key value l).length = l.length ↔ (l.map key).Nodup := by
  have hperm : ((keyedBy key value l).map Prod.fst).Perm (l.map key).dedup := by
    rw [List.perm_ext_iff_of_nodup (nodup_keys l) (List.nodup_dedup _)]
    intro k
    rw [mem_keys, List.mem_dedup]
  have hlength : (keyedBy key value l).length = (l.map key).dedup.length := by
    rw [← hperm.length_eq, List.length_map]
  rw [hlength, ← List.length_map (f := key), ← List.dedup_eq_self]
  exact ⟨(List.dedup_sublist _).eq_of_length, fun h => by rw [h]⟩

theorem of_map {γ : Type} (g : γ → α) (l : List γ) :
    keyedBy key value (l.map g) = keyedBy (fun c => key (g c)) (fun c => value (g c)) l :=
  List.foldl_map

end keyedBy

theorem foldlM_insertKeyed {isWritable : α → Bool} {value : α → β} (key : α → String)
    (write : α → Except Failure β)
    (hwrite : ∀ a, write a = if isWritable a then .ok (value a) else .error .tooLongToWrite)
    (l : List α) (entries : List (String × β)) :
    l.foldlM (fun entries a => do return insertKeyed (key a) (← write a) entries) entries =
      if l.all isWritable then
        .ok (l.foldl (fun entries a => insertKeyed (key a) (value a) entries) entries)
      else .error .tooLongToWrite := by
  induction l generalizing entries with
  | nil => rfl
  | cons a l ih =>
    rw [List.foldlM_cons, hwrite a]
    cases ha : isWritable a with
    | true =>
      rw [List.all_cons, ha, Bool.true_and, List.foldl_cons, ← ih]
      rfl
    | false =>
      rw [List.all_cons, ha, Bool.false_and]
      rfl

namespace Summary

def shown (m : Summary) : SummaryText :=
  ⟨keyedBy (·.1.name) (·.2.text) m.params, keyedBy (·.1.name) (·.2.text) m.returns⟩

def isWritable (m : Summary) : Bool :=
  (m.params ++ m.returns).all (·.2.isWritable)

def key (m : Summary) : String :=
  m.contract ++ "." ++ m.function

theorem namedTexts_eq (l : List (Variable × Interval)) :
    namedTexts l =
      if l.all (·.2.isWritable) then .ok (keyedBy (·.1.name) (·.2.text) l)
      else .error .tooLongToWrite :=
  foldlM_insertKeyed (fun e : Variable × Interval => e.1.name) (fun e => e.2.write)
    (fun _ => rfl) l []

theorem texts_eq (m : Summary) :
    m.texts = if m.isWritable then .ok m.shown else .error .tooLongToWrite := by
  rw [texts, namedTexts_eq, namedTexts_eq, isWritable, List.all_append]
  cases m.params.all (·.2.isWritable) with
  | false => rfl
  | true => cases m.returns.all (·.2.isWritable) <;> rfl

end Summary

theorem State.summaryTexts_eq (s : State) :
    s.summaryTexts =
      if s.summaries.all (·.isWritable) then .ok (keyedBy Summary.key Summary.shown s.summaries)
      else .error .tooLongToWrite :=
  foldlM_insertKeyed Summary.key Summary.texts Summary.texts_eq s.summaries []

/-- Each name once, and unless variables share it, with the interval of its variable. -/
structure Ranges.IsShownBy (r : Ranges) (vars : List Variable) (texts : List (String × String)) :
    Prop where
  nodup : (texts.map Prod.fst).Nodup
  names (name : String) : name ∈ texts.map Prod.fst ↔ ∃ v ∈ vars, v.name = name
  own (v : Variable) (hv : v ∈ vars) (honly : ∀ w ∈ vars, w.name = v.name → w = v) :
    texts.lookup v.name = some (r.getD v.place).text

theorem Ranges.select_isShownBy (r : Ranges) (vars : List Variable) :
    r.IsShownBy vars (keyedBy (·.1.name) (·.2.text) (r.select vars)) where
  nodup := keyedBy.nodup_keys _
  names name := by
    rw [keyedBy.mem_keys]
    simp [select, List.mem_eraseDups]
  own v hv honly := by
    have hmem : (v, r.getD v.place) ∈ r.select vars :=
      List.mem_map.2 ⟨v, List.mem_eraseDups.2 hv, rfl⟩
    refine keyedBy.lookup_unique (·.1.name) (·.2.text) hmem fun e he hname => ?_
    obtain ⟨w, hw, rfl⟩ := List.mem_map.1 he
    rw [honly w (List.mem_eraseDups.1 hw) hname]

namespace Function

variable {f : Function} {contract : String} {records : List Record}

theorem report_endsWith (h : f.report cfg contract s = .ok records t) :
    f.EndsWith cfg (f.finalRanges cfg) := by
  obtain ⟨u, hu, -, -⟩ := report_ok.1 h
  exact ⟨s, u, hu, analyze_finalRanges hu⟩

end Function

theorem reportFunctions_endsWith {contract : String} {functions : List Function}
    {records : List Record} (h : reportFunctions cfg contract functions s = .ok records t) :
    ∀ f ∈ functions, f.EndsWith cfg (f.finalRanges cfg) := by
  induction functions generalizing s records with
  | nil =>
    intro f hf
    cases hf
  | cons f rest ih =>
    obtain ⟨here, later, u, hu, hv, -⟩ := reportFunctions_cons.1 h
    exact List.forall_mem_cons.2 ⟨Function.report_endsWith hu, ih hv⟩

/-- The analysis of a unit completes the analysis of each function that is its turn. -/
theorem reportContracts_endsWith {contracts : List Contract} {records : List Record}
    (h : reportContracts cfg contracts s = .ok records t) :
    ∀ e ∈ analysedFunctions contracts, e.2.EndsWith cfg (e.2.finalRanges cfg) := by
  induction contracts generalizing s records with
  | nil =>
    intro e he
    cases he
  | cons c rest ih =>
    obtain ⟨here, later, u, hu, hv, -⟩ := reportContracts_cons.1 h
    intro e he
    rw [analysedFunctions_cons] at he
    rcases List.mem_append.1 he with he | he
    · obtain ⟨f, hf, rfl⟩ := List.mem_map.1 he
      exact reportFunctions_endsWith hu f hf
    · exact ih hv e he

namespace CompilationUnit

variable {u : CompilationUnit} {records : List Record}

def shownName (e : Contract × Function) : String :=
  e.1.name ++ "." ++ e.2.name

theorem summaryTexts_eq (h : u.analyze {} .initial = .ok records t) :
    u.summaryTexts =
      if t.summaries.all (·.isWritable) then
        .ok (keyedBy shownName (fun e => (e.2.outcome {} e.1.name).2.shown) u.analysed)
      else .error .tooLongToWrite := by
  obtain ⟨violations, hv, -⟩ := analyze_ok.1 h
  obtain ⟨-, hsummaries⟩ := reportContracts_outcomes hv
  have hrun : (u.analyze {}).run .initial = .ok records t := h
  rw [summaryTexts, hrun]
  dsimp only
  rw [State.summaryTexts_eq, hsummaries, State.initial, List.nil_append, keyedBy.of_map]
  rfl

/-- Each name shows the function analysed last under it, so none is lost if names differ. -/
theorem summaryTexts_show_last (h : u.analyze {} .initial = .ok records t) :
    ((∃ texts, u.summaryTexts = .ok texts) ↔
        ∀ m ∈ t.summaries, ∀ e ∈ m.params ++ m.returns, e.2.isWritable) ∧
      ∀ texts, u.summaryTexts = .ok texts →
        (texts.map Prod.fst).Nodup ∧
        (∀ name, name ∈ texts.map Prod.fst ↔ ∃ e ∈ u.analysed, shownName e = name) ∧
        (∀ before c f after, u.analysed = before ++ (c, f) :: after →
          (∀ e ∈ after, shownName e ≠ shownName (c, f)) →
            ∃ entry r, texts.lookup (shownName (c, f)) = some entry ∧ f.EndsWith {} r ∧
              r.IsShownBy f.params entry.params ∧ r.IsShownBy f.returns entry.returns) ∧
        (texts.length = u.analysed.length ↔ (u.analysed.map shownName).Nodup) := by
  rw [summaryTexts_eq h]
  constructor
  · constructor
    · rintro ⟨texts, htexts⟩ m hm e he
      split at htexts
      · rename_i hall
        exact List.all_eq_true.1 (List.all_eq_true.1 hall m hm) e he
      · cases htexts
    · intro hall
      have hall : t.summaries.all (·.isWritable) :=
        List.all_eq_true.2 fun m hm => List.all_eq_true.2 (hall m hm)
      rw [if_pos hall]
      exact ⟨_, rfl⟩
  · intro texts htexts
    split at htexts
    · cases htexts
      refine ⟨keyedBy.nodup_keys _, fun name => ?_, fun before c f after hsplit hafter => ?_,
        keyedBy.length_eq_iff _⟩
      · rw [keyedBy.mem_keys, List.mem_map]
      · have hmem : (c, f) ∈ u.analysed := hsplit ▸ List.mem_append_right _ List.mem_cons_self
        obtain ⟨violations, hv, -⟩ := analyze_ok.1 h
        refine ⟨(f.outcome {} c.name).2.shown, f.finalRanges {}, ?_,
          reportContracts_endsWith hv (c, f) hmem, Ranges.select_isShownBy _ _,
          Ranges.select_isShownBy _ _⟩
        rw [hsplit]
        exact keyedBy.lookup_last hafter
    · cases htexts

end CompilationUnit

def idle (name type : String) : Function :=
  { Function.ofNodes [.ofType "a" type] [] with name, fullName := name ++ "(" ++ type ++ ")" }

theorem overload_shows_last :
    ∃ records t texts entry r,
      (poolWith [idle "f" "uint8", idle "g" "int8", idle "f" "uint16"]).analyze {} .initial =
          .ok records t ∧
        (poolWith [idle "f" "uint8", idle "g" "int8", idle "f" "uint16"]).summaryTexts = .ok texts ∧
        texts.lookup "Pool.f" = some entry ∧ (idle "f" "uint16").EndsWith {} r ∧
        r.IsShownBy [.ofType "a" "uint16"] entry.params := by
  have hends : ((poolWith [idle "f" "uint8", idle "g" "int8", idle "f" "uint16"]).analyze
      {}).completes .initial := by
    decide +kernel
  have htexts : (poolWith [idle "f" "uint8", idle "g" "int8", idle "f" "uint16"]).summaryTexts =
      .ok [("Pool.f", ⟨[("a", "[0, 65535]")], []⟩), ("Pool.g", ⟨[("a", "[-128, 127]")], []⟩)] := by
    decide +kernel
  obtain ⟨records, t, h⟩ := Analysis.completes_iff.1 hends
  obtain ⟨-, hshown⟩ := CompilationUnit.summaryTexts_show_last h
  obtain ⟨-, -, hlast, -⟩ := hshown _ htexts
  obtain ⟨entry, r, hentry, hr, hparams, -⟩ := hlast [_, _] _ (idle "f" "uint16") [] rfl (by simp)
  exact ⟨records, t, _, entry, r, h, htexts, hentry, hr, hparams⟩

/-- The two functions are analysed, and one entry is left of their summaries. -/
theorem overloads_share_entry :
    (poolWith [idle "f" "uint8", idle "f" "uint16"]).analysed.map (·.2) =
        [idle "f" "uint8", idle "f" "uint16"] ∧
      (poolWith [idle "f" "uint8", idle "f" "uint16"]).records = .ok [] ∧
      (poolWith [idle "f" "uint8", idle "f" "uint16"]).summaryTexts =
        .ok [("Pool.f", ⟨[("a", "[0, 65535]")], []⟩)] := by
  decide +kernel

end RangeAudit
