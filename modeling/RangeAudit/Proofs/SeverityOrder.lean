import RangeAudit.Report
import Mathlib.Data.List.Basic
import Mathlib.Tactic.IntervalCases

namespace RangeAudit

/-- The list in the order of a key, where items with one key keep the order they had. -/
structure IsStableSort {α : Type} (key : α → Nat) (sorted items : List α) : Prop where
  perm : sorted.Perm items
  ordered : sorted.Pairwise fun a b => key a ≤ key b
  stable : ∀ k, sorted.filter (key · = k) = items.filter (key · = k)

theorem isStableSort_mergeSort {α : Type} (key : α → Nat) (items : List α) :
    IsStableSort key (items.mergeSort fun a b => key a ≤ key b) items := by
  have htrans : ∀ a b c : α, decide (key a ≤ key b) = true → decide (key b ≤ key c) = true →
      decide (key a ≤ key c) = true := by
    intro a b c hab hbc
    exact decide_eq_true ((of_decide_eq_true hab).trans (of_decide_eq_true hbc))
  have htotal : ∀ a b : α, (decide (key a ≤ key b) || decide (key b ≤ key a)) = true := by
    intro a b
    rcases Nat.le_total (key a) (key b) with h | h <;> simp [h]
  have hperm := List.mergeSort_perm items fun a b => key a ≤ key b
  refine ⟨hperm, ?_, ?_⟩
  · exact (List.pairwise_mergeSort htrans htotal items).imp of_decide_eq_true
  · intro k
    have hpairwise : (items.filter (key · = k)).Pairwise fun a b => decide (key a ≤ key b) := by
      refine List.pairwise_of_forall_mem_list fun a ha b hb => ?_
      have hak : key a = k := of_decide_eq_true (List.mem_filter.1 ha).2
      have hbk : key b = k := of_decide_eq_true (List.mem_filter.1 hb).2
      exact decide_eq_true (hak.trans hbk.symm).le
    have hsublist := List.sublist_mergeSort htrans htotal hpairwise List.filter_sublist
    have hfilter := hsublist.filter (key · = k)
    simp only [List.filter_filter, Bool.and_self] at hfilter
    exact (hfilter.eq_of_length (hperm.filter _).length_eq.symm).symm

namespace Json

def isObject : Json → Bool
  | obj _ => true
  | _ => false

def text (j : Json) (key default : String) : String :=
  ((j.get? key).bind str?).getD default

theorem field_eq {j : Json} (h : j.isObject) (key : String) (default : Json) :
    j.field key default = .ok ((j.get? key).getD default) := by
  cases j with
  | obj fields => rfl
  | _ => cases h

end Json

namespace Report

open Section

/-- Whether a value can be drawn as a finding: what is read of it as a text is one, if given. -/
def isFinding (j : Json) : Bool :=
  j.isObject && ["severity", "confidence", "name", "description"].all fun key =>
    (j.get? key).all (·.str?.isSome)

def areReadable : Json → Bool
  | .arr places => places.all Json.isObject
  | value => !value.isPresent

def hasReadablePlaces (j : Json) : Bool :=
  areReadable ((j.get? "locations").getD (.arr []))

def severities : List String :=
  ["high", "medium", "low", "informational"]

/-- The place of a finding's severity among the severities, whatever its case. -/
def gravity (j : Json) : Nat :=
  severities.idxOf (Text.lower (j.text "severity" ""))

def headingPanel (width : Int) : Block :=
  .panel (.line "漏洞详情") [("width", .number (boundedWidth width)), ("style", .text "bold")]

def numberedPanel (width : Int) : Json × Nat → Block
  | (j, number) =>
    let colour := severityColour (Text.lower (j.text "severity" "unknown"))
    let name := j.text "name" "未知漏洞"
    .panel (.plain (.str (j.text "description" "无描述")) [])
      [("title", .text ("[" ++ toString number ++ "] " ++ styled colour name)),
        ("title_align", .text "left"), ("width", .number (boundedWidth width)),
        ("border_style", .text colour)]

def Block.isPanel : Block → Bool
  | .panel _ _ => true
  | _ => false

def panels (d : Drawing) : List Block :=
  (d.filterMap id).filter Block.isPanel

theorem panels_append (d d' : Drawing) : panels (d ++ d') = panels d ++ panels d' := by
  rw [panels, List.filterMap_append, List.filter_append, panels, panels]

def Console.Accepts (console : Console) (d : Drawing) : Prop :=
  ∀ b, some b ∈ d → console.fault? b = none

theorem Console.plain_accepts (d : Drawing) : Console.plain.Accepts d :=
  fun _ _ => rfl

def ending (failure? : Option Failure) (d : Drawing) : EStateM.Result Failure Drawing Unit :=
  failure?.elim (.ok () d) (.error · d)

/-- A section draws the given on terminals that accept it, and then ends as stated. -/
structure Draws (m : Section Unit) (failure? : Option Failure) (d : Drawing) : Prop where
  accepted : ∀ console d₀, console.Accepts d → m console d₀ = ending failure? (d₀ ++ d)
  refused : ∀ console d₀ before b after f, d = before ++ some b :: after →
    console.Accepts before → console.fault? b = some f → m console d₀ = .error f (d₀ ++ before)

namespace Draws

variable {m m' : Section Unit} {failure? : Option Failure} {f : Failure} {d d' : Drawing}

theorem nothing : Draws (pure ()) none [] where
  accepted console d₀ _ := by
    rw [List.append_nil]
    rfl
  refused console d₀ before b after f h := by simp at h

theorem draw (b : Block) : Draws (Section.draw b) none [some b] where
  accepted console d₀ h := by
    rw [Section.draw, h b List.mem_cons_self]
    rfl
  refused console d₀ before c after f h _ hf := by
    rcases List.singleton_eq_append_iff.1 h with ⟨rfl, hc⟩ | ⟨-, hnil⟩
    · cases hc
      rw [Section.draw, hf, List.append_nil]
    · cases hnil

theorem bind (h : Draws m none d) (h' : Draws m' failure? d') :
    Draws (m >>= fun _ => m') failure? (d ++ d') where
  accepted console d₀ haccepts := by
    have hm := h.accepted console d₀ fun b hb => haccepts b (List.mem_append_left _ hb)
    have hm' := h'.accepted console (d₀ ++ d) fun b hb => haccepts b (List.mem_append_right _ hb)
    change EStateM.bind (m console) (fun _ => m' console) d₀ = _
    rw [← List.append_assoc, ← hm']
    simp only [EStateM.bind, hm, ending, Option.elim]
  refused console d₀ before b after f heq hbefore hf := by
    change EStateM.bind (m console) (fun _ => m' console) d₀ = _
    have hsecond (rest : Drawing) (hd : before = d ++ rest) (hd' : d' = rest ++ some b :: after) :
        EStateM.bind (m console) (fun _ => m' console) d₀ = .error f (d₀ ++ before) := by
      subst hd
      have hm := h.accepted console d₀ fun b hb => hbefore b (List.mem_append_left _ hb)
      have hm' := h'.refused console (d₀ ++ d) rest b after f hd'
        (fun b hb => hbefore b (List.mem_append_right _ hb)) hf
      rw [← List.append_assoc, ← hm']
      simp only [EStateM.bind, hm, ending, Option.elim]
    rcases List.append_eq_append_iff.1 heq with ⟨rest, hd, hd'⟩ | ⟨rest, hd, hrest⟩
    · exact hsecond rest hd hd'
    · rcases List.append_eq_cons_iff.1 hrest.symm with ⟨rfl, hd'⟩ | ⟨rest, rfl, -⟩
      · exact hsecond [] (by rw [hd, List.append_nil, List.append_nil]) hd'
      · simp only [EStateM.bind, h.refused console d₀ before b rest f hd hbefore hf]

theorem stop (h : Draws m (some f) d) (next : Unit → Section Unit) :
    Draws (m >>= next) (some f) d where
  accepted console d₀ haccepts := by
    change EStateM.bind (m console) (fun a => next a console) d₀ = _
    simp only [EStateM.bind, h.accepted console d₀ haccepts, ending, Option.elim]
  refused console d₀ before b after g heq hbefore hg := by
    change EStateM.bind (m console) (fun a => next a console) d₀ = _
    simp only [EStateM.bind, h.refused console d₀ before b after g heq hbefore hg]

end Draws

/-- The panels are drawn, with other things between them. -/
def Shows (m : Section Unit) (failure? : Option Failure) (ps : List Block) : Prop :=
  ∃ d, panels d = ps ∧ Draws m failure? d

namespace Shows

variable {α : Type} {m m' : Section Unit} {failure? : Option Failure} {f : Failure}
  {ps ps' : List Block}

theorem nothing : Shows (pure ()) none [] :=
  ⟨[], rfl, .nothing⟩

theorem draw (b : Block) : Shows (Section.draw b) none (panels [some b]) :=
  ⟨[some b], rfl, .draw b⟩

theorem line (text : String) : Shows (Section.line text) none [] :=
  draw (.line text)

theorem bind (h : Shows m none ps) (h' : Shows m' failure? ps') :
    Shows (m >>= fun _ => m') failure? (ps ++ ps') := by
  obtain ⟨d, rfl, h⟩ := h
  obtain ⟨d', rfl, h'⟩ := h'
  exact ⟨d ++ d', panels_append d d', h.bind h'⟩

theorem stop (h : Shows m (some f) ps) (next : Unit → Section Unit) :
    Shows (m >>= next) (some f) ps := by
  obtain ⟨d, hps, h⟩ := h
  exact ⟨d, hps, h.stop next⟩

theorem ask {x : Except Failure α} {a : α} {next : α → Section Unit} (hx : x = .ok a)
    (h : Shows (next a) failure? ps) : Shows (Section.ask x >>= next) failure? ps := by
  subst hx
  exact h

theorem ask_error {x : Except Failure α} {next : α → Section Unit} (hx : x = .error f) :
    Shows (Section.ask x >>= next) (some f) [] := by
  subst hx
  refine ⟨[], rfl, ⟨fun console d₀ _ => ?_, fun console d₀ before b after f h => by simp at h⟩⟩
  rw [List.append_nil]
  rfl

theorem each {drawItem : α → Section Unit} {shown : α → List Block} {l : List α}
    (h : ∀ a ∈ l, Shows (drawItem a) none (shown a)) :
    Shows (Section.each drawItem l) none (l.flatMap shown) := by
  induction l with
  | nil => exact nothing
  | cons a l ih =>
    obtain ⟨ha, hl⟩ := List.forall_mem_cons.1 h
    exact ha.bind (ih hl)

theorem each_stop {drawItem : α → Section Unit} {shown : α → List Block} {before : List α} {a : α}
    (after : List α) (hbefore : ∀ b ∈ before, Shows (drawItem b) none (shown b))
    (ha : Shows (drawItem a) (some f) (shown a)) :
    Shows (Section.each drawItem (before ++ a :: after)) (some f)
      ((before ++ [a]).flatMap shown) := by
  induction before with
  | nil =>
    rw [List.nil_append, List.nil_append, List.flatMap_singleton]
    exact ha.stop _
  | cons b before ih =>
    obtain ⟨hb, hbefore⟩ := List.forall_mem_cons.1 hbefore
    exact hb.bind (ih hbefore)

end Shows

variable {j : Json} {width : Int}

theorem place_shows {place : Json} (h : place.isObject) :
    Shows (do line (← ask (placeLine place))) none [] := by
  cases place with
  | obj fields => exact Shows.ask rfl (Shows.line _)
  | _ => cases h

theorem place_stops {place : Json} (h : ¬ place.isObject) :
    ∃ f, Shows (do line (← ask (placeLine place))) (some f) [] := by
  cases place with
  | obj fields => exact absurd rfl h
  | _ => exact ⟨_, Shows.ask_error rfl⟩

theorem elements_of_not_areReadable {list : Json} (h : ¬ areReadable list) :
    list.isPresent ∧ ((∃ f, list.elements = .error f) ∨ ∃ before place after,
      list.elements = .ok (before ++ place :: after) ∧ (∀ b ∈ before, b.isObject) ∧
        ¬ place.isObject) := by
  cases list with
  | null => exact absurd rfl h
  | bool b => exact ⟨by simpa [areReadable] using h, .inl ⟨_, rfl⟩⟩
  | num n => exact ⟨by simpa [areReadable] using h, .inl ⟨_, rfl⟩⟩
  | str s =>
    have hpresent : (Json.str s).isPresent := by simpa [areReadable] using h
    refine ⟨hpresent, .inr ?_⟩
    cases hs : s.toList with
    | nil =>
      rw [String.toList_eq_nil_iff.1 hs] at hpresent
      cases hpresent
    | cons c cs =>
      have helements : (Json.str s).elements = .ok ((c :: cs).map fun c => .str (.singleton c)) :=
        by rw [Json.elements, hs]
      exact ⟨[], _, _, helements, List.forall_mem_nil _, Bool.false_ne_true⟩
  | arr places =>
    have hsome : (places.find? (!·.isObject)).isSome := by simpa [areReadable] using h
    obtain ⟨place, hfind⟩ := Option.isSome_iff_exists.1 hsome
    obtain ⟨hplace, before, after, rfl, hbefore⟩ := List.find?_eq_some_iff_append.1 hfind
    refine ⟨by simp [Json.isPresent], .inr ⟨before, place, after, rfl, ?_, by simpa using hplace⟩⟩
    intro b hb
    simpa using hbefore b hb
  | obj fields =>
    cases fields with
    | nil => exact absurd rfl h
    | cons first rest =>
      exact ⟨rfl, .inr ⟨[], .str first.1, _, rfl, List.forall_mem_nil _, Bool.false_ne_true⟩⟩

theorem places_shows (hj : j.isObject) (h : hasReadablePlaces j) : Shows (places j) none [] := by
  refine Shows.ask (Json.field_eq hj _ _) ?_
  rw [hasReadablePlaces] at h
  generalize (j.get? "locations").getD (.arr []) = list at h ⊢
  split
  · rename_i hpresent
    cases list with
    | arr places =>
      have hplaces := Shows.each fun place hplace => place_shows (List.all_eq_true.1 h place hplace)
      rw [List.flatMap_eq_nil_iff.2 fun _ _ => rfl] at hplaces
      exact (Shows.line _).bind (Shows.ask rfl hplaces)
    | _ => simp [areReadable, hpresent] at h
  · exact Shows.nothing

theorem places_stops (hj : j.isObject) (h : ¬ hasReadablePlaces j) :
    ∃ f, Shows (places j) (some f) [] := by
  obtain ⟨hpresent, helements⟩ := elements_of_not_areReadable h
  have hrest : ∃ f, Shows (do
      each (fun place => do line (← ask (placeLine place)))
        (← ask ((j.get? "locations").getD (.arr [])).elements)) (some f) [] := by
    rcases helements with ⟨f, hf⟩ | ⟨before, place, after, helements, hbefore, hplace⟩
    · exact ⟨f, Shows.ask_error hf⟩
    · obtain ⟨f, hf⟩ := place_stops hplace
      have hplaces := Shows.each_stop after (fun b hb => place_shows (hbefore b hb)) hf
      rw [List.flatMap_eq_nil_iff.2 fun _ _ => rfl] at hplaces
      exact ⟨f, Shows.ask helements hplaces⟩
  obtain ⟨f, hf⟩ := hrest
  refine ⟨f, Shows.ask (Json.field_eq hj _ _) ?_⟩
  rw [if_pos hpresent]
  exact (Shows.line _).bind hf

theorem advice_shows (hj : j.isObject) : Shows (advice j) none [] := by
  refine Shows.ask (Json.field_eq hj _ _) ?_
  split
  · exact (Shows.line _).bind (Shows.line _)
  · exact Shows.nothing

theorem isObject_of_isFinding (h : isFinding j) : j.isObject :=
  (Bool.and_eq_true_iff.1 h).1

theorem field_of_isFinding (h : isFinding j) (key : String)
    (hkey : key ∈ ["severity", "confidence", "name", "description"]) (default : String) :
    j.field key (.str default) = .ok (.str (j.text key default)) := by
  obtain ⟨hobject, htexts⟩ := Bool.and_eq_true_iff.1 h
  have htext := List.all_eq_true.1 htexts key hkey
  rw [Json.field_eq hobject, Json.text]
  cases hvalue : j.get? key with
  | none => rfl
  | some value =>
    rw [hvalue] at htext
    cases value with
    | str s => rfl
    | _ => cases htext

theorem finding_of_places {failure? : Option Failure} {number : Nat} (h : isFinding j)
    (hrest : Shows (do places j; advice j; line ("\n" ++ ruler (boundedWidth width) ++ "\n"))
      failure? []) :
    Shows (finding (boundedWidth width) (j, number)) failure?
      [numberedPanel width (j, number)] := by
  have hseverity := field_of_isFinding h "severity" (by decide) "unknown"
  have hconfidence := field_of_isFinding h "confidence" (by decide) "unknown"
  have hname := field_of_isFinding h "name" (by decide) "未知漏洞"
  have hdescription := field_of_isFinding h "description" (by decide) "无描述"
  refine Shows.ask (a := Text.lower (j.text "severity" "unknown")) (by rw [hseverity]; rfl) ?_
  refine Shows.ask hconfidence (Shows.ask hname (Shows.ask hdescription ?_))
  exact (Shows.draw _).bind (Shows.ask rfl ((Shows.draw _).bind hrest))

theorem finding_shows {number : Nat} (h : isFinding j) (hplaces : hasReadablePlaces j) :
    Shows (finding (boundedWidth width) (j, number)) none [numberedPanel width (j, number)] := by
  have hobject := isObject_of_isFinding h
  refine finding_of_places h ?_
  exact (places_shows hobject hplaces).bind ((advice_shows hobject).bind (Shows.line _))

theorem finding_stops (width : Int) (number : Nat) (h : isFinding j)
    (hplaces : ¬ hasReadablePlaces j) :
    ∃ f, Shows (finding (boundedWidth width) (j, number)) (some f)
      [numberedPanel width (j, number)] := by
  obtain ⟨f, hf⟩ := places_stops (isObject_of_isFinding h) hplaces
  exact ⟨f, finding_of_places h (hf.stop _)⟩

theorem severityRank_eq (severity : String) :
    severityRank severity = [0, 1, 2, 3].getD (severities.idxOf severity) 999 := by
  unfold severityRank
  split
  · rfl
  · rfl
  · rfl
  · rfl
  · rename_i hhigh hmedium hlow hinformational
    rw [severities, List.idxOf_cons_ne _ (Ne.symm hhigh), List.idxOf_cons_ne _ (Ne.symm hmedium),
      List.idxOf_cons_ne _ (Ne.symm hlow), List.idxOf_cons_ne _ (Ne.symm hinformational)]
    rfl

theorem severityRank_le_iff (severity severity' : String) :
    severityRank severity ≤ severityRank severity' ↔
      severities.idxOf severity ≤ severities.idxOf severity' := by
  have h : severities.idxOf severity ≤ 4 := List.idxOf_le_length
  have h' : severities.idxOf severity' ≤ 4 := List.idxOf_le_length
  rw [severityRank_eq, severityRank_eq]
  generalize severities.idxOf severity = n at h ⊢
  generalize severities.idxOf severity' = n' at h' ⊢
  interval_cases n <;> interval_cases n' <;> decide

theorem rank_of_isFinding (h : isFinding j) :
    rank j = .ok (severityRank (Text.lower (j.text "severity" ""))) := by
  rw [rank, field_of_isFinding h "severity" (by decide)]
  rfl

theorem ranked_of_isFinding {items : List Json} (h : ∀ j ∈ items, isFinding j) :
    ranked items =
      .ok (items.map fun j => (severityRank (Text.lower (j.text "severity" "")), j)) := by
  induction items with
  | nil => rfl
  | cons j items ih =>
    obtain ⟨hj, hitems⟩ := List.forall_mem_cons.1 h
    rw [ranked, rank_of_isFinding hj, ih hitems]
    rfl

/-- Findings are put in the order of their gravity. -/
theorem inOrder_of_isFinding {items : List Json} (h : ∀ j ∈ items, isFinding j) :
    inOrder (.arr items) = .ok (items.mergeSort fun i j => gravity i ≤ gravity j) := by
  have hsort : bySeverity
      (items.map fun j => (severityRank (Text.lower (j.text "severity" "")), j)) =
        items.mergeSort fun i j => gravity i ≤ gravity j := by
    rw [bySeverity, List.map_mergeSort (s := fun i j => gravity i ≤ gravity j), List.map_map]
    · exact congrArg (List.mergeSort · _) (List.map_id _)
    · intro a ha b hb
      obtain ⟨i, -, rfl⟩ := List.mem_map.1 ha
      obtain ⟨j, -, rfl⟩ := List.mem_map.1 hb
      exact decide_eq_decide.2 (severityRank_le_iff _ _)
  rw [inOrder, listed, ← hsort]
  change (ranked items >>= _) = _
  rw [ranked_of_isFinding h]
  rfl

theorem inOrder_of_pairwise {items : List Json} (h : ∀ j ∈ items, isFinding j)
    (hordered : items.Pairwise fun i j => gravity i ≤ gravity j) :
    inOrder (.arr items) = .ok items := by
  rw [inOrder_of_isFinding h, List.mergeSort_of_pairwise (hordered.imp decide_eq_true)]

theorem get?_arranged {data list : Json} {sorted : List Json}
    (hdata : data.get? "vulnerabilities" = some list) (h : inOrder list = .ok sorted) :
    (arranged data).get? "vulnerabilities" = some (.arr sorted) := by
  cases data with
  | obj fields =>
    change fields.lookup "vulnerabilities" = some list at hdata
    change List.lookup "vulnerabilities" (fields.map _) = _
    induction fields with
    | nil => cases hdata
    | cons f fields ih =>
      obtain ⟨key, value⟩ := f
      by_cases hkey : key = "vulnerabilities"
      · subst hkey
        rw [List.lookup_cons_self, Option.some_inj] at hdata
        subst hdata
        rw [List.map_cons, List.lookup_cons_self, if_pos rfl, h]
        rfl
      · have hkey' : ("vulnerabilities" == key) = false := beq_false_of_ne (Ne.symm hkey)
        rw [List.lookup_cons, hkey'] at hdata
        rw [List.map_cons, List.lookup_cons, hkey']
        exact ih hdata
  | _ => cases hdata

theorem findings_eq {data list : Json} {sorted : List Json}
    (hdata : data.get? "vulnerabilities" = some list) (hpresent : list.isPresent)
    (h : inOrder list = .ok sorted) :
    findings width data = (do
      draw (headingPanel width)
      each (finding (boundedWidth width)) (sorted.zipIdx 1)) := by
  have hobject : data.isObject := by
    cases data with
    | obj fields => rfl
    | _ => cases hdata
  rw [findings, Json.field_eq hobject, hdata, Option.getD_some]
  change (if !list.isPresent then _ else _) = _
  rw [hpresent, h]
  rfl

section Findings

variable {data list : Json} {sorted : List Json}

/-- Each finding is shown by one panel, if the places of all can be read. -/
theorem findings_shows (hdata : data.get? "vulnerabilities" = some list) (hpresent : list.isPresent)
    (h : inOrder list = .ok sorted) (hfindings : ∀ j ∈ sorted, isFinding j)
    (hplaces : ∀ j ∈ sorted, hasReadablePlaces j) :
    Shows (findings width data) none
      (headingPanel width :: (sorted.zipIdx 1).map (numberedPanel width)) := by
  rw [findings_eq hdata hpresent h, List.map_eq_flatMap]
  refine (Shows.draw _).bind (Shows.each ?_)
  intro ⟨j, number⟩ hj
  have hj := List.fst_mem_of_mem_zipIdx hj
  exact finding_shows (hfindings j hj) (hplaces j hj)

/-- The first finding whose places cannot be read is the last that is shown. -/
theorem findings_stops {before after : List Json} (hdata : data.get? "vulnerabilities" = some list)
    (hpresent : list.isPresent) (h : inOrder list = .ok (before ++ j :: after))
    (hfindings : ∀ i ∈ before ++ j :: after, isFinding i)
    (hbefore : ∀ i ∈ before, hasReadablePlaces i) (hplaces : ¬ hasReadablePlaces j) :
    ∃ f, Shows (findings width data) (some f)
      (headingPanel width :: ((before ++ [j]).zipIdx 1).map (numberedPanel width)) := by
  have hj := hfindings j (List.mem_append_right _ List.mem_cons_self)
  obtain ⟨f, hf⟩ := finding_stops width (1 + before.length) hj hplaces
  refine ⟨f, ?_⟩
  rw [findings_eq hdata hpresent h, List.map_eq_flatMap, List.zipIdx_append, List.zipIdx_append]
  refine (Shows.draw _).bind (Shows.each_stop _ ?_ hf)
  intro ⟨i, number⟩ hi
  have hi := List.fst_mem_of_mem_zipIdx hi
  exact finding_shows (hfindings i (List.mem_append_left _ hi)) (hbefore i hi)

end Findings

/-- Findings are shown by one panel each, the gravest first, up to one that cannot be read. -/
theorem findings_in_severity_order {data : Json} {items : List Json}
    (hdata : data.get? "vulnerabilities" = some (.arr items)) (hitems : items ≠ [])
    (hfindings : ∀ j ∈ items, isFinding j) :
    ∃ sorted, IsStableSort gravity sorted items ∧
      (arranged data).get? "vulnerabilities" = some (.arr sorted) ∧
      ∀ width, findings width (arranged data) = findings width data ∧
        ((∀ j ∈ items, hasReadablePlaces j) →
          Shows (findings width data) none
            (headingPanel width :: (sorted.zipIdx 1).map (numberedPanel width))) ∧
        ∀ before j after, sorted = before ++ j :: after → (∀ i ∈ before, hasReadablePlaces i) →
          ¬ hasReadablePlaces j → ∃ f, Shows (findings width data) (some f)
            (headingPanel width :: ((before ++ [j]).zipIdx 1).map (numberedPanel width)) := by
  have horder := inOrder_of_isFinding hfindings
  have hsort := isStableSort_mergeSort gravity items
  generalize (items.mergeSort fun i j => gravity i ≤ gravity j) = sorted at horder hsort
  have hpresent : (Json.arr items).isPresent := by simpa [Json.isPresent] using hitems
  have hfindings' : ∀ j ∈ sorted, isFinding j := fun j hj => hfindings j (hsort.perm.mem_iff.1 hj)
  have harranged := get?_arranged hdata horder
  refine ⟨sorted, hsort, harranged, fun width => ⟨?_, ?_, ?_⟩⟩
  · have hpresent' : (Json.arr sorted).isPresent := by
      rw [Json.isPresent, hsort.perm.isEmpty_eq]
      exact hpresent
    rw [findings_eq harranged hpresent' (inOrder_of_pairwise hfindings' hsort.ordered),
      findings_eq hdata hpresent horder]
  · intro hplaces
    exact findings_shows hdata hpresent horder hfindings'
      fun j hj => hplaces j (hsort.perm.mem_iff.1 hj)
  · rintro before j after rfl hbefore hplaces
    exact findings_stops hdata hpresent horder hfindings' hbefore hplaces

section Reports

def reportOf (items : List Json) : Json :=
  .obj [("vulnerabilities", .arr items)]

def unrated : Json :=
  .obj [("description", .str "No severity")]

def grave : Json :=
  .obj [("severity", .str "HIGH"), ("name", .str "Reentrancy"),
    ("locations", .arr [.obj [("file", .str "Vault.sol")]])]

def mild : Json :=
  .obj [("severity", .str "low"), ("confidence", .str "high"), ("name", .str "Unused return"),
    ("description", .str "A result is not used")]

/-- A finding whose place is a text. -/
def misplaced : Json :=
  .obj [("severity", .str "high"), ("confidence", .str "high"), ("name", .str "Reentrancy"),
    ("description", .str "A call comes before a write"), ("locations", .arr [.str "Vault.sol"])]

theorem mixed_in_severity_order :
    (∀ j ∈ [unrated, grave, mild], isFinding j ∧ hasReadablePlaces j) ∧
      (arranged (reportOf [unrated, grave, mild])).get? "vulnerabilities" =
        some (.arr [grave, mild, unrated]) ∧
      ∃ d, findings 80 (reportOf [unrated, grave, mild]) .plain [] = .ok () d ∧
        panels d = [headingPanel 80, numberedPanel 80 (grave, 1), numberedPanel 80 (mild, 2),
          numberedPanel 80 (unrated, 3)] := by
  have hall : ∀ j ∈ [unrated, grave, mild], isFinding j ∧ hasReadablePlaces j := by
    simp only [List.forall_mem_cons]
    exact ⟨by decide, by decide, by decide, List.forall_mem_nil _⟩
  have hdata : (reportOf [unrated, grave, mild]).get? "vulnerabilities" =
      some (.arr [unrated, grave, mild]) := rfl
  obtain ⟨sorted, -, harranged, hshown⟩ := findings_in_severity_order hdata
    (List.cons_ne_nil _ _) fun j hj => (hall j hj).1
  have horder : inOrder (.arr [unrated, grave, mild]) = .ok [grave, mild, unrated] := by
    have hgravity : gravity unrated = 4 ∧ gravity grave = 0 ∧ gravity mild = 2 := by decide
    rw [inOrder_of_isFinding fun j hj => (hall j hj).1]
    simp [List.mergeSort, List.MergeSort.Internal.splitInTwo, hgravity]
  obtain rfl : sorted = [grave, mild, unrated] :=
    Json.arr.inj (Option.some.inj (harranged.symm.trans (get?_arranged hdata horder)))
  obtain ⟨d, hpanels, hdraws⟩ := (hshown 80).2.1 fun j hj => (hall j hj).2
  exact ⟨hall, harranged, d, hdraws.accepted .plain [] (Console.plain_accepts d), hpanels⟩

/-- A text among the places of the first of two findings keeps the second from being shown. -/
theorem misplaced_hides_rest :
    (∀ j ∈ [misplaced, mild], isFinding j) ∧ ∃ f d,
      findings 80 (reportOf [misplaced, mild]) .plain [] = .error f d ∧
        panels d = [headingPanel 80, numberedPanel 80 (misplaced, 1)] := by
  have hall : ∀ j ∈ [misplaced, mild], isFinding j := by
    simp only [List.forall_mem_cons]
    exact ⟨by decide, by decide, List.forall_mem_nil _⟩
  have hordered : [misplaced, mild].Pairwise fun i j => gravity i ≤ gravity j :=
    List.pairwise_pair.2 (by decide)
  have horder : inOrder (.arr [misplaced, mild]) = .ok ([] ++ misplaced :: [mild]) :=
    inOrder_of_pairwise hall hordered
  have hdata : (reportOf [misplaced, mild]).get? "vulnerabilities" =
      some (.arr [misplaced, mild]) := rfl
  obtain ⟨f, d, hpanels, hdraws⟩ :
      ∃ f, Shows (findings 80 (reportOf [misplaced, mild])) (some f) _ :=
    findings_stops hdata rfl horder hall (List.forall_mem_nil _) (by decide)
  exact ⟨hall, f, d, hdraws.accepted .plain [] (Console.plain_accepts d), hpanels⟩

end Reports

end Report

end RangeAudit
