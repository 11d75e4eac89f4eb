import RangeAudit.Listing
import RangeAudit.Proofs.Agreement
import RangeAudit.Proofs.Occurrence
import RangeAudit.Results

namespace RangeAudit

/-- The computation prints the lines and succeeds. -/
def Prints (m : Reporting Unit) (lines : List String) : Prop :=
  ∀ t : Transcript, m t = .ok () { t with lines := t.lines ++ lines }

namespace Prints

variable {α : Type} {m m' : Reporting Unit} {lines lines' : List String}

theorem silent : Prints (pure ()) [] := by
  intro t
  rw [List.append_nil]
  rfl

theorem sayAll (lines : List String) : Prints (Listing.sayAll lines) lines :=
  fun _ => rfl

theorem say (line : String) : Prints (Reporting.say line) [line] :=
  fun _ => rfl

theorem bind (h : Prints m lines) (h' : Prints m' lines') :
    Prints (m >>= fun _ => m') (lines ++ lines') := by
  intro t
  rw [Reporting.bind_ok (h t), h', List.append_assoc]

theorem read {x : Except Failure α} {a : α} {next : α → Reporting Unit} (hx : x = .ok a)
    (h : Prints (next a) lines) : Prints (.ofExcept x >>= next) lines := by
  subst hx
  exact h

theorem sayEach {β : Type} {say : β → Reporting Unit} {toItem : α → β} {block : α → List String}
    {l : List α} (h : ∀ a ∈ l, Prints (say (toItem a)) (block a)) :
    Prints (Listing.sayEach say (l.map toItem)) (l.flatMap block) := by
  induction l with
  | nil => exact silent
  | cons a l ih =>
    obtain ⟨ha, hl⟩ := List.forall_mem_cons.1 h
    exact ha.bind (ih hl)

end Prints

namespace Record

def problem : Record → String
  | located _ _ _ violation _ => violation
  | issue text => text

/-- The contract under which a record is counted; issues have a heading of their own. -/
def heading : Record → String
  | located contract _ _ _ _ => contract
  | issue _ => "Global"

def block (palette : Palette) : Record → List String
  | located contract function subject violation interval =>
    let colour := if Text.containsAny violation ["溢出", "下溢", "除零"] then .red else .yellow
    ["\n[" ++ palette .cyan contract ++ "." ++ palette .green function ++ "]",
      "  变量: " ++ palette .yellow subject, "  违规: " ++ palette colour violation,
      "  区间: " ++ interval]
  | issue text => ["\n[" ++ palette .cyan "全局问题" ++ "]", "  " ++ palette .red text]

def numberedBlock (palette : Palette) (number : Nat) : Record → List String
  | located contract function subject violation interval =>
    [palette .red (Listing.heading number), "  合约: " ++ contract, "  函数: " ++ function,
      "  变量: " ++ subject, "  违规: " ++ violation, "  区间: " ++ interval]
  | issue text => [palette .red (Listing.heading number ++ " " ++ text)]

end Record

namespace Listing

theorem violationColour_str (violation : String) : violationColour (.str violation) =
    .ok (if Text.containsAny violation ["溢出", "下溢", "除零"] then .red else .yellow) := by
  rw [violationColour, Json.holdsAny_str]
  rfl

theorem sayRecord_prints (palette : Palette) (r : Record) :
    Prints (sayRecord palette r.toJson) (r.block palette) := by
  cases r with
  | located contract function subject violation interval =>
    refine Prints.read (a := true) rfl ?_
    refine Prints.read (a := .str contract) rfl ?_
    refine Prints.read (a := .str function) rfl ?_
    refine Prints.read (a := .str subject) rfl ?_
    refine Prints.read (a := .str violation) rfl ?_
    refine Prints.read (a := .str interval) rfl ?_
    exact (Prints.sayAll _).bind (Prints.read (violationColour_str violation) (Prints.sayAll _))
  | issue text =>
    refine Prints.read (a := false) rfl ?_
    refine Prints.read (a := true) rfl ?_
    exact Prints.read (a := .str text) rfl (Prints.sayAll _)

theorem sayPart_prints {r : Json} {key value : String} (label : String)
    (h : r.entry key = .ok (.str value)) :
    Prints (sayPart r (label, key)) ["  " ++ label ++ ": " ++ value] :=
  Prints.read h (Prints.say _)

theorem sayProblem_prints (palette : Palette) (number : Nat) (r : Record) :
    Prints (sayProblem palette (r.toJson, number)) (r.numberedBlock palette number) := by
  cases r with
  | located contract function subject violation interval =>
    refine Prints.read (a := true) rfl ((Prints.say _).bind ?_)
    exact (sayPart_prints "合约" rfl).bind <| (sayPart_prints "函数" rfl).bind <|
      (sayPart_prints "变量" rfl).bind <| (sayPart_prints "违规" rfl).bind <|
      (sayPart_prints "区间" rfl).bind Prints.silent
  | issue text =>
    refine Prints.read (a := false) rfl ?_
    exact Prints.read (a := .str text) rfl (Prints.say _)

theorem countedKeys_toJson (r : Record) :
    countedKeys r.toJson = .ok (.str r.problem, .str r.heading) := by
  cases r <;> rfl

theorem mapM_countedKeys (records : List Record) :
    (records.map Record.toJson).mapM countedKeys =
      .ok (records.map fun r => (.str r.problem, .str r.heading)) := by
  induction records with
  | nil => rfl
  | cons r records ih =>
    rw [List.map_cons, List.mapM_cons, countedKeys_toJson, ih]
    rfl

end Listing

namespace Tally

theorem count_str {keys : List String} (hkeys : keys.Nodup) (n : String → Nat) (s : String) :
    Tally.count (.str s) (keys.map fun k => (.str k, n k)) =
      if s ∈ keys then keys.map fun k => (.str k, if k = s then n k + 1 else n k)
      else keys.map (fun k => (.str k, n k)) ++ [(.str s, 1)] := by
  induction keys with
  | nil => rfl
  | cons k keys ih =>
    obtain ⟨hk, hkeys⟩ := List.nodup_cons.1 hkeys
    have hcounts : (Json.str k).countsAs (.str s) = (k == s) := rfl
    rw [List.map_cons, Tally.count, hcounts]
    by_cases hks : k = s
    · subst hks
      have hrest : keys.map (fun k' => (Json.str k', if k' = k then n k' + 1 else n k')) =
          keys.map fun k' => (Json.str k', n k') := by
        refine List.map_congr_left fun k' hk' => ?_
        rw [if_neg (ne_of_mem_of_not_mem hk' hk)]
      rw [if_pos (beq_self_eq_true k), if_pos List.mem_cons_self, List.map_cons, if_pos rfl, hrest]
    · have hmem : s ∈ k :: keys ↔ s ∈ keys := by simp [Ne.symm hks]
      rw [if_neg (by simpa using hks), ih hkeys]
      simp only [hmem]
      split
      · rw [List.map_cons, if_neg hks]
      · rfl

/-- Counting texts one by one gives their multiplicities. -/
theorem foldl_count_str (l : List String) :
    (l.map Json.str).foldl (fun t j => Tally.count j t) [] =
      (multiplicities l).map fun e => (.str e.1, e.2) := by
  induction l using List.reverseRecOn with
  | nil => rfl
  | append_singleton l s ih =>
    have hentries : (multiplicities l).map (fun e => (Json.str e.1, e.2)) =
        l.eraseDups.map fun k => (Json.str k, l.count k) := List.map_map
    rw [List.map_append, List.foldl_append, ih, List.map_singleton, List.foldl_cons, List.foldl_nil,
      hentries, count_str (nodup_eraseDups l), multiplicities_concat]
    simp only [List.mem_eraseDups]
    split
    · rw [List.map_map]
      rfl
    · rw [List.map_append, hentries]
      rfl

end Tally

namespace Listing

def numberLine (e : String × Nat) : String :=
  "  " ++ e.1 ++ ": " ++ toString e.2

theorem tallyLines_str (records : List Record) :
    tallyLines (records.map fun r => (.str r.problem, .str r.heading)) =
      ["\n===== 区间分析摘要 =====", "总问题数: " ++ toString records.length, "\n问题类型统计:"] ++
        (multiplicities (records.map (·.problem))).map numberLine ++ ["\n每个合约的问题数:"] ++
        (multiplicities (records.map (·.heading))).map numberLine := by
  have htable : ∀ l : List String, ((l.map Json.str).foldl (fun t j => Tally.count j t) []).map
      countLine = (multiplicities l).map numberLine := by
    intro l
    rw [Tally.foldl_count_str, List.map_map]
    rfl
  have hproblems : (records.map fun r => (Json.str r.problem, Json.str r.heading)).map (·.1) =
      (records.map (·.problem)).map Json.str := by
    rw [List.map_map, List.map_map]
    rfl
  have hheadings : (records.map fun r => (Json.str r.problem, Json.str r.heading)).map (·.2) =
      (records.map (·.heading)).map Json.str := by
    rw [List.map_map, List.map_map]
    rfl
  rw [tallyLines, hproblems, hheadings, htable, htable, List.length_map]

theorem tallyIn_prints_blocks (palette : Palette) (records : List Record) :
    Prints (tallyIn palette false (Results.records records).toJson)
      (records.flatMap (·.block palette)) := by
  refine Prints.read (a := records.map Record.toJson) rfl ?_
  exact Prints.sayEach fun r _ => sayRecord_prints palette r

theorem numberedIn_prints_blocks (palette : Palette) {records : List Record} (h : records ≠ []) :
    Prints (numberedIn palette false (Results.records records).toJson)
      (palette .red (problemCount records.length) ::
        (records.zipIdx 1).flatMap fun (r, number) => r.numberedBlock palette number) := by
  obtain ⟨r, rest, rfl⟩ := List.exists_cons_of_ne_nil h
  refine Prints.read (a := (r :: rest).map Record.toJson) rfl ?_
  rw [List.length_map, List.zipIdx_map]
  exact (Prints.say _).bind (Prints.sayEach fun e _ => sayProblem_prints palette e.2 e.1)

theorem tallyIn_prints_tables (palette : Palette) (records : List Record) :
    Prints (tallyIn palette true (Results.records records).toJson)
      (tallyLines (records.map fun r => (.str r.problem, .str r.heading))) := by
  refine Prints.read (a := records.map Record.toJson) rfl ?_
  exact Prints.read (mapM_countedKeys records) (Prints.sayAll _)

/-- Both forms print every record in order, and the numbers of the tally add up. -/
theorem listing_shows_all_records (palette : Palette) (records : List Record) :
    Prints (tallyIn palette false (Results.records records).toJson)
      (records.flatMap (·.block palette)) ∧
    Prints (numberedIn palette false (Results.records records).toJson)
      (if records = [] then [palette .green "✓ 未发现潜在区间问题"]
        else palette .red (problemCount records.length) ::
          (records.zipIdx 1).flatMap fun (r, number) => r.numberedBlock palette number) ∧
    Prints (tallyIn palette true (Results.records records).toJson)
      (["\n===== 区间分析摘要 =====", "总问题数: " ++ toString records.length, "\n问题类型统计:"] ++
        (multiplicities (records.map (·.problem))).map numberLine ++ ["\n每个合约的问题数:"] ++
        (multiplicities (records.map (·.heading))).map numberLine) ∧
    ((multiplicities (records.map (·.problem))).map (·.2)).sum = records.length ∧
    ((multiplicities (records.map (·.heading))).map (·.2)).sum = records.length := by
  refine ⟨tallyIn_prints_blocks palette records, ?_, ?_, ?_, ?_⟩
  · split
    · rename_i hnone
      subst hnone
      exact Prints.say _
    · rename_i hsome
      exact numberedIn_prints_blocks palette hsome
  · rw [← tallyLines_str]
    exact tallyIn_prints_tables palette records
  · rw [sum_multiplicities, List.length_map]
  · rw [sum_multiplicities, List.length_map]

end Listing

end RangeAudit
