import Mathlib.Data.List.Chain
import Mathlib.Logic.Relation
import RangeAudit.Program

namespace RangeAudit.Function

variable {f g : Function} {n : Node} {i j k : Nat}

theorem mem_take_nodes : n ∈ f.nodes.take k ↔ ∃ i < k, f.nodes[i]? = some n := by
  simp only [List.mem_iff_getElem?, List.getElem?_take, Option.ite_none_right_eq_some]

def Leads (f : Function) (i k : Nat) : Prop :=
  ∃ n, f.nodes[i]? = some n ∧ k ∈ n.sons

def IsForward (f : Function) : Prop :=
  ∀ i k, f.Leads i k → i ≤ k

def SameEdges (f g : Function) : Prop :=
  f.nodes.map (·.sons) = g.nodes.map (·.sons)

theorem leads_iff : f.Leads i k ↔ ∃ sons, (f.nodes.map (·.sons))[i]? = some sons ∧ k ∈ sons := by
  rw [Leads, List.getElem?_map]
  constructor
  · rintro ⟨n, hn, hk⟩
    exact ⟨n.sons, Option.map_eq_some_iff.2 ⟨n, hn, rfl⟩, hk⟩
  · rintro ⟨sons, hsons, hk⟩
    obtain ⟨n, hn, rfl⟩ := Option.map_eq_some_iff.1 hsons
    exact ⟨n, hn, hk⟩

theorem SameEdges.leads_eq (h : f.SameEdges g) : f.Leads = g.Leads := by
  funext i k
  rw [eq_iff_iff, leads_iff, leads_iff, h]

theorem IsForward.le_of_path (hf : f.IsForward) (h : Relation.TransGen f.Leads i j) : i ≤ j := by
  induction h with
  | single h => exact hf _ _ h
  | tail _ h ih => exact ih.trans (hf _ _ h)

/-- A path along the edges from the first node to a position. -/
structure IsPathTo (f : Function) (path : List Nat) (k : Nat) : Prop where
  head : path.head? = some 0
  chain : path.IsChain f.Leads
  last : path.getLast? = some k

/-- The nodes of a path from the first one to one without successors. -/
def IsCompletePath (f : Function) (nodes : List Node) : Prop :=
  ∃ path k n, f.IsPathTo path k ∧ f.nodes[k]? = some n ∧ n.sons = [] ∧
    nodes = path.filterMap (f.nodes[·]?)

theorem IsCompletePath.mem {nodes : List Node} (h : f.IsCompletePath nodes) (hn : n ∈ nodes) :
    n ∈ f.nodes := by
  obtain ⟨path, -, -, -, -, -, rfl⟩ := h
  obtain ⟨i, -, hi⟩ := List.mem_filterMap.1 hn
  exact List.mem_of_getElem? hi

/-- Every path to a position passes another one before. -/
def Dominates (f : Function) (j k : Nat) : Prop :=
  ∀ path, f.IsPathTo path k → j ∈ path.dropLast

theorem SameEdges.isPathTo_iff (h : f.SameEdges g) {path : List Nat} :
    f.IsPathTo path k ↔ g.IsPathTo path k := by
  constructor
  · exact fun ⟨hhead, hchain, hlast⟩ => ⟨hhead, h.leads_eq ▸ hchain, hlast⟩
  · exact fun ⟨hhead, hchain, hlast⟩ => ⟨hhead, h.leads_eq ▸ hchain, hlast⟩

theorem eq_range'_of_isChain (hnext : ∀ i k, f.Leads i k → k = i + 1) {l : List Nat}
    (h : (i :: l).IsChain f.Leads) : i :: l = List.range' i (l.length + 1) := by
  induction l generalizing i with
  | nil => rfl
  | cons k l ih =>
    obtain ⟨hleads, hchain⟩ := List.isChain_cons_cons.1 h
    obtain rfl := hnext i k hleads
    rw [List.length_cons, List.range'_succ, ← ih hchain]

theorem dominates_of_next (hnext : ∀ i k, f.Leads i k → k = i + 1) (hj : j < k) :
    f.Dominates j k := by
  rintro path ⟨hhead, hchain, hlast⟩
  obtain ⟨l, rfl⟩ := List.head?_eq_some_iff.1 hhead
  rw [eq_range'_of_isChain hnext hchain, List.range'_1_concat] at hlast ⊢
  rw [List.getLast?_concat, Option.some.injEq] at hlast
  rw [List.dropLast_concat, List.mem_range'_1]
  omega

def withActions (f : Function) (instrs : Nat → List Instr) (written : Nat → List Variable) :
    Function :=
  { f with nodes := f.nodes.mapIdx fun k n => { n with instrs := instrs k, written := written k } }

section WithActions

variable {instrs : Nat → List Instr} {written : Nat → List Variable}

theorem withActions_sameEdges (f : Function) (instrs : Nat → List Instr)
    (written : Nat → List Variable) : (f.withActions instrs written).SameEdges f := by
  refine List.ext_getElem? fun k => ?_
  simp only [withActions, List.getElem?_map, List.getElem?_mapIdx, Option.map_map]
  rfl

theorem withActions_node (h : f.nodes[k]? = some n) :
    (f.withActions instrs written).nodes[k]? =
      some { n with instrs := instrs k, written := written k } := by
  simp only [withActions, List.getElem?_mapIdx, h, Option.map_some]

theorem of_withActions_node (h : (f.withActions instrs written).nodes[k]? = some n) :
    n.instrs = instrs k ∧ n.written = written k := by
  simp only [withActions, List.getElem?_mapIdx] at h
  obtain ⟨_, -, rfl⟩ := Option.map_eq_some_iff.1 h
  exact ⟨rfl, rfl⟩

end WithActions

end RangeAudit.Function
