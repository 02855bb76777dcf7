import Mathlib.Data.Fintype.EquivFin
import Mathlib.Data.List.Forall2
import Mathlib.Data.Set.Finite.Basic
import Mathlib.Logic.Relation
import Mathlib.Order.WellFounded
import StagedAsm.Proofs.DependencyDrain

/-!
# Sorting is a topological sort

What a sort hands out, in terms of `g.Waits a b`: an edge from `a` to `b` was recorded. Every node
comes after all it waits for, and nodes are kept back exactly when some node waits, directly or not,
for itself. `Call` and `build` make graphs from sequences of calls.
-/

namespace StagedAsm

open DependencyGraph List

def Drained.node? {α : Type} : Drained α → Option α
  | .node a => some a
  | .cycle _ => none

/-- A report of the nodes kept back, if there are any. -/
def Drained.report {α : Type} : List α → List (Drained α)
  | [] => []
  | kept => [.cycle kept]

namespace DependencyGraph

open Relation

variable {α : Type}

/-- The second node waits for the first. -/
def Waits (g : DependencyGraph α) (a b : α) : Prop :=
  ∃ i j, (i, j) ∈ g.edges ∧ g.nodes[i]? = some a ∧ g.nodes[j]? = some b

/-- Some node waits, directly or not, for itself. -/
def Cyclic (g : DependencyGraph α) : Prop := ∃ a, TransGen g.Waits a a

/-! ## Orders and cycles -/

variable {waits : α → α → Prop} {order : List Nat} {a b : α} {nodes : List α}
  {g : DependencyGraph α}

/-- What a node waits for, directly or not, stands before it. -/
theorem mem_before_of_transGen {order : List α}
    (ordered : ∀ before b after, order = before ++ b :: after → ∀ a, waits a b → a ∈ before)
    (h : TransGen waits a b) : ∀ before after, order = before ++ b :: after → a ∈ before := by
  induction h with
  | single h => exact fun before after hsplit => ordered before _ after hsplit a h
  | tail _ h ih =>
    intro before after hsplit
    -- the last edge comes from a node of `before`, and the path up to it starts before that one
    obtain ⟨first, second, rfl⟩ := append_of_mem (ordered before _ after hsplit _ h)
    have hin := ih first (second ++ _ :: after) (by simpa using hsplit)
    exact mem_append_left _ hin

/-- A node of an order does not wait for itself. -/
theorem not_transGen_self_of_mem {order : List α} (hnodup : order.Nodup)
    (ordered : ∀ before b after, order = before ++ b :: after → ∀ a, waits a b → a ∈ before)
    (hmem : a ∈ order) : ¬ TransGen waits a a := by
  intro h
  obtain ⟨before, after, hsplit⟩ := append_of_mem hmem
  have hin := mem_before_of_transGen ordered h before after hsplit
  rw [hsplit] at hnodup
  exact (nodup_append.mp hnodup).2.2 a hin a (by simp) rfl

theorem exists_cycle_behind {kept : List α} (hwaits : ∀ b ∈ kept, ∃ a ∈ kept, waits a b)
    (hb : b ∈ kept) : ∃ c, TransGen waits c c ∧ ReflTransGen waits c b := by
  by_contra hnone
  simp only [not_exists, not_and] at hnone
  -- without a cycle the way back is well-founded, so there is a first thing on it
  let before : Set α := {a | a ∈ kept ∧ ReflTransGen waits a b}
  have hfinite : Finite before := ((finite_toSet kept).subset fun _ h => h.1).to_subtype
  let below : before → before → Prop := fun x y => TransGen waits x.val y.val
  have : IsTrans before below := ⟨fun _ _ _ hxy hyz => TransGen.trans hxy hyz⟩
  have : Std.Irrefl below := ⟨fun x hx => hnone x.val hx x.property.2⟩
  have hwf : WellFounded below := Finite.wellFounded_of_trans_of_irrefl below
  obtain ⟨first, -, hmin⟩ := hwf.has_min Set.univ ⟨⟨b, hb, .refl⟩, trivial⟩
  -- but it waits for another one, which is on the way as well
  obtain ⟨a, ha, hfirst⟩ := hwaits first.val first.property.1
  exact hmin ⟨a, ha, .head hfirst first.property.2⟩ trivial (TransGen.single hfirst)

/-! ## One graph -/

theorem wellFormed_empty : ({} : DependencyGraph α).WellFormed :=
  ⟨nodup_nil, by simp, by simp, by simp⟩

theorem not_waits_empty (a b : α) : ¬ ({} : DependencyGraph α).Waits a b := by
  simp [Waits]

theorem nodup_filterMap_getElem? (hnodes : nodes.Nodup) (hnodup : order.Nodup) :
    (order.filterMap (nodes[·]?)).Nodup := by
  apply hnodup.filterMap
  intro i j a hi hj
  exact (List.getElem?_inj (List.getElem?_eq_some_iff.mp hi).1 hnodes).mp (hi.trans hj.symm)

theorem length_filterMap_getElem? (h : ∀ i ∈ order, i < nodes.length) :
    (order.filterMap (nodes[·]?)).length = order.length := by
  apply filterMap_length_eq_length.mpr
  intro i hi
  simp [h i hi]

theorem mem_of_mem_filterMap_getElem? (h : a ∈ order.filterMap (nodes[·]?)) : a ∈ nodes := by
  obtain ⟨i, -, hi⟩ := mem_filterMap.mp h
  exact mem_of_getElem? hi

theorem mem_filterMap_getElem? (hnodes : nodes.Nodup) {i : Nat} (hi : nodes[i]? = some a) :
    a ∈ order.filterMap (nodes[·]?) ↔ i ∈ order := by
  rw [mem_filterMap]
  constructor
  · rintro ⟨j, hj, hja⟩
    have hji : j = i := (List.getElem?_inj (List.getElem?_eq_some_iff.mp hja).1 hnodes).mp
      (hja.trans hi.symm)
    exact hji ▸ hj
  · exact fun h => ⟨i, h, hi⟩

/-- An order of numbers is an order of nodes. -/
theorem WellFormed.ordered_nodes (hg : g.WellFormed)
    (ordered : ∀ before node after, order = before ++ node :: after →
      ∀ source, (source, node) ∈ g.edges → source ∈ before) :
    ∀ before b after, order.filterMap (g.nodes[·]?) = before ++ b :: after →
      ∀ a, g.Waits a b → a ∈ before := by
  intro before b after hsplit a ⟨i, j, hedge, ha, hb⟩
  obtain ⟨first, second, rfl, hfirst, hsecond⟩ := filterMap_eq_append_iff.mp hsplit
  obtain ⟨skipped, k, rest, rfl, hskipped, hk, _⟩ := filterMap_eq_cons_iff.mp hsecond
  -- nodes are registered once, so the number is that of the edge
  have hkj : k = j :=
    (List.getElem?_inj (List.getElem?_eq_some_iff.mp hk).1 hg.nodup).mp (hk.trans hb.symm)
  subst hkj
  have hin := ordered (first ++ skipped) k rest (by simp) i hedge
  rcases mem_append.mp hin with hin | hin
  · rw [← hfirst]
    exact mem_filterMap.mpr ⟨i, hin, ha⟩
  · rw [hskipped i hin] at ha
    exact nomatch ha

theorem mem_nodes_of_transGen_waits (h : TransGen g.Waits a b) : b ∈ g.nodes := by
  obtain ⟨_, _, _, _, _, _, hb⟩ := TransGen.tail'_iff.mp h
  exact mem_of_getElem? hb

theorem getElem?_of_prefix {nodes' : List α} (h : nodes <+: nodes') {i : Nat}
    (hi : nodes[i]? = some a) : nodes'[i]? = some a := by
  obtain ⟨added, rfl⟩ := h
  rw [List.getElem?_append_left (List.getElem?_eq_some_iff.mp hi).1, hi]

theorem WellFormed.waits_iff_of_prefix {g' : DependencyGraph α} (hg : g.WellFormed)
    (hnodes : g.nodes <+: g'.nodes) (hedges : g'.edges = g.edges) (a b : α) :
    g'.Waits a b ↔ g.Waits a b := by
  have hkeep : ∀ i < g.nodes.length, g'.nodes[i]? = g.nodes[i]? := by
    intro i hi
    have hnode := getElem?_eq_getElem hi
    rw [hnode, getElem?_of_prefix hnodes hnode]
  unfold Waits
  rw [hedges]
  refine exists_congr fun i => exists_congr fun j => and_congr_right fun hedge => ?_
  rw [hkeep i (hg.source_lt _ hedge), hkeep j (hg.target_lt _ hedge)]

end DependencyGraph

namespace Drain

open Relation

variable {α : Type}

variable {d : Drain α} {done : List Nat} {n : Nat}

theorem Invariant.inbound_pos_iff (inv : d.Invariant done) (hbacklog : d.backlog = []) {i : Nat}
    (hlt : i < d.graph.nodes.length) : 0 < d.inbound.getD i 0 ↔ i ∉ done := by
  rw [inv.inbound_eq i hlt, Nat.pos_iff_ne_zero, ne_eq, DependencyGraph.openEdges_eq_zero_iff]
  constructor
  · intro hopen hdone
    obtain ⟨before, after, hsplit⟩ := List.append_of_mem hdone
    apply hopen
    intro source hedge
    rw [hsplit]
    exact List.mem_append_left _ (inv.ordered before i after hsplit source hedge)
  · intro hi hclosed
    obtain ⟨source, hedge, hsource⟩ := inv.exists_open_edge hbacklog hlt hi
    exact hsource (hclosed source hedge)

theorem map_fst_filter_zip {β : Type} {p : β → Bool} {q : α → Bool} {xs : List α} {ys : List β}
    (h : List.Forall₂ (fun x y => q x = p y) xs ys) :
    ((xs.zip ys).filter fun entry => p entry.2).map Prod.fst = xs.filter q := by
  induction h with
  | nil => rfl
  | cons hxy _ ih =>
    simp only [zip_cons_cons, filter_cons, hxy]
    split
    · rw [map_cons, ih]
    · exact ih

theorem Invariant.waiting_eq [DecidableEq α] (inv : d.Invariant done) (hbacklog : d.backlog = []) :
    d.waiting = d.graph.nodes.filter fun a => a ∉ done.filterMap (d.graph.nodes[·]?) := by
  apply map_fst_filter_zip (p := fun count => decide (count > 0))
  rw [forall₂_iff_get]
  refine ⟨inv.length_inbound.symm, fun i hi hi' => ?_⟩
  have hnode : d.graph.nodes[i]? = some d.graph.nodes[i] := getElem?_eq_getElem hi
  have hcount : d.inbound.getD i 0 = d.inbound[i] := by simp [hi']
  rw [decide_eq_decide, get_eq_getElem, get_eq_getElem, ← hcount,
    mem_filterMap_getElem? inv.wellFormed.nodup hnode]
  exact (inv.inbound_pos_iff hbacklog hi).symm

theorem Invariant.waiting_eq_nil_iff [DecidableEq α] (inv : d.Invariant done)
    (hbacklog : d.backlog = []) : d.waiting = [] ↔ d.remaining = 0 := by
  have hcount := inv.remaining_eq
  rw [inv.waiting_eq hbacklog, filter_eq_nil_iff]
  constructor
  · intro hnone
    have hall : List.range d.graph.nodes.length ⊆ done := by
      intro i hi
      have hnode := getElem?_eq_getElem (mem_range.mp hi)
      have hin := hnone _ (mem_of_getElem? hnode)
      simpa [mem_filterMap_getElem? inv.wellFormed.nodup hnode] using hin
    have hle := (nodup_range.subperm hall).length_le
    rw [length_range] at hle
    omega
  · intro hzero a ha
    obtain ⟨i, hi⟩ := mem_iff_getElem?.mp ha
    have hin : i ∈ done := by
      by_contra hnot
      have hless := inv.length_done_lt (List.getElem?_eq_some_iff.mp hi).1 hnot
      omega
    simp [(mem_filterMap_getElem? inv.wellFormed.nodup hi).mpr hin]

theorem Invariant.take_eq_report [DecidableEq α] (inv : d.Invariant done)
    (hbacklog : d.backlog = []) (hn : (Drained.report d.waiting).length ≤ n) :
    d.take n = Drained.report d.waiting := by
  have hnil := inv.waiting_eq_nil_iff hbacklog
  cases hwaiting : d.waiting with
  | nil => exact take_of_remaining_eq_zero hbacklog (hnil.mp hwaiting) n
  | cons a rest =>
    have hpos : 0 < d.remaining := by
      apply Nat.pos_of_ne_zero
      intro hzero
      rw [hnil.mpr hzero] at hwaiting
      cases hwaiting
    rw [hwaiting] at hn
    obtain ⟨n, rfl⟩ := Nat.exists_eq_add_of_le' hn
    rw [Drained.report, ← hwaiting]
    · exact take_of_remaining_pos hbacklog hpos inv.not_reported n
    · intro hnone
      cases hnone

theorem next?_eq_some {d' : Drain α} {item : Drained α} (h : d.next? = some (item, d')) :
    d'.graph = d.graph ∧ ∀ a, item = .node a → a ∈ d.graph.nodes := by
  rw [next?] at h
  split at h
  · split at h
    · rename_i node hnode
      cases h
      refine ⟨rfl, fun a ha => ?_⟩
      cases ha
      exact mem_of_getElem? hnode
    · cases h
  · split at h
    · cases h
      exact ⟨rfl, fun a ha => by cases ha⟩
    · cases h

theorem mem_nodes_of_mem_take {a : α} (h : .node a ∈ d.take n) : a ∈ d.graph.nodes := by
  induction n generalizing d with
  | zero => cases h
  | succ n ih =>
    rw [take] at h
    split at h
    · rename_i item d' hnext
      obtain ⟨hgraph, hitem⟩ := next?_eq_some hnext
      rcases mem_cons.mp h with hhead | htail
      · exact hitem a hhead.symm
      · exact hgraph ▸ ih htail
    · cases h

end Drain

namespace DependencyGraph

open Relation

variable {α : Type} [DecidableEq α]

variable {g : DependencyGraph α} {a : α}

omit [DecidableEq α] in
theorem mem_nodes_of_mem_sort {closed : DependencyGraph α} {d : Drain α}
    (h : g.sort = .ok (d, closed)) (ha : .node a ∈ d.toList) : a ∈ g.nodes := by
  rw [sort_eq] at h
  split at h
  · cases h
  · cases h
    exact Drain.mem_nodes_of_mem_take ha

/-- The nodes that are not handed out, in the order of registration. -/
def kept (g : DependencyGraph α) (yielded : List α) : List α := g.nodes.filter fun a => a ∉ yielded

theorem mem_kept {yielded : List α} : a ∈ g.kept yielded ↔ a ∈ g.nodes ∧ a ∉ yielded := by
  simp [kept]

theorem sort_drains (hg : g.WellFormed) (hopen : g.sorted = false) :
    ∃ (d : Drain α) (closed : DependencyGraph α) (yielded : List α),
      g.sort = .ok (d, closed) ∧ yielded.Nodup ∧ (∀ a ∈ yielded, a ∈ g.nodes) ∧
      (∀ before b after, yielded = before ++ b :: after → ∀ a, g.Waits a b → a ∈ before) ∧
      (∀ b ∈ g.kept yielded, ∃ a ∈ g.kept yielded, g.Waits a b) ∧
      (∀ n, yielded.length + (Drained.report (g.kept yielded)).length ≤ n →
        d.take n = yielded.map Drained.node ++ Drained.report (g.kept yielded)) ∧
      d.toList = yielded.map Drained.node ++ Drained.report (g.kept yielded) := by
  obtain ⟨⟨d, closed⟩, hsort⟩ : ∃ result, g.sort = .ok result := by
    simp [sort_eq, hopen]
  obtain ⟨inv, hnodes, hedges⟩ := Drain.invariant_sort hg hsort
  obtain ⟨order, d', inv', hgraph, hempty, htake⟩ := inv.exhaust
  rw [nil_append] at inv'
  have hnodes' : d'.graph.nodes = g.nodes := by rw [hgraph, hnodes]
  have hedges' : d'.graph.edges = g.edges := by rw [hgraph, hedges]
  have hyielded : order.filterMap (fun i => d.graph.nodes[i]?.map Drained.node) =
      (order.filterMap (g.nodes[·]?)).map Drained.node := by
    rw [hnodes, map_filterMap]
  rw [hyielded] at htake
  have hlength := length_filterMap_getElem? fun i hi => hnodes' ▸ inv'.done_lt i hi
  have hwaiting : d'.waiting = g.kept (order.filterMap (g.nodes[·]?)) := by
    rw [inv'.waiting_eq hempty, hnodes', kept]
  -- after the order comes what the last state of the loop has left to give
  have hends : ∀ n, (order.filterMap (g.nodes[·]?)).length +
      (Drained.report d'.waiting).length ≤ n → d.take n =
        (order.filterMap (g.nodes[·]?)).map Drained.node ++ Drained.report d'.waiting := by
    intro n hn
    rw [hlength] at hn
    obtain ⟨k, rfl⟩ := Nat.exists_eq_add_of_le (Nat.le_of_add_right_le hn)
    rw [htake, inv'.take_eq_report hempty (by omega)]
  refine ⟨d, closed, order.filterMap (g.nodes[·]?), hsort,
    nodup_filterMap_getElem? hg.nodup inv'.done_nodup,
    fun a ha => mem_of_mem_filterMap_getElem? ha, hg.ordered_nodes (hedges' ▸ inv'.ordered), ?_,
    hwaiting ▸ hends, ?_⟩
  · intro b hb
    obtain ⟨hb, hkept⟩ := mem_kept.mp hb
    obtain ⟨j, hj⟩ := mem_iff_getElem?.mp hb
    rw [mem_filterMap_getElem? hg.nodup hj] at hkept
    have hj' : j < d'.graph.nodes.length := by
      rw [hnodes']
      exact (List.getElem?_eq_some_iff.mp hj).1
    obtain ⟨i, hedge, hi⟩ := inv'.exists_open_edge hempty hj' hkept
    rw [hedges'] at hedge
    have ha := getElem?_eq_getElem (hg.source_lt _ hedge)
    refine ⟨_, mem_kept.mpr ⟨mem_of_getElem? ha, ?_⟩, i, j, hedge, ha, hj⟩
    rwa [mem_filterMap_getElem? hg.nodup ha]
  · rw [← hwaiting]
    apply hends
    -- one item more than there are nodes is enough for the order and a report
    have hcount := inv'.remaining_eq
    rw [hnodes'] at hcount
    have hreport : (Drained.report d'.waiting).length ≤ 1 := by
      rcases d'.waiting with _ | ⟨a, rest⟩ <;> simp [Drained.report]
    rw [hlength, hnodes]
    omega

theorem sort_exhausts (hg : g.WellFormed) (hopen : g.sorted = false) :
    ∃ (d : Drain α) (closed : DependencyGraph α) (yielded : List α) (report : List (Drained α)),
      g.sort = .ok (d, closed) ∧ (∀ b ∈ g.nodes, (∀ a, g.Waits a b → a ∈ yielded) → b ∈ yielded) ∧
      yielded.Nodup ∧
      (∀ before b after, yielded = before ++ b :: after → ∀ a, g.Waits a b → a ∈ before) ∧
      (∀ n, yielded.length + report.length ≤ n → d.take n = yielded.map Drained.node ++ report) ∧
      d.toList = yielded.map Drained.node ++ report ∧
      (report = [] ∧ (∀ a, a ∈ yielded ↔ a ∈ g.nodes) ∧ ¬ g.Cyclic ∨
        (∃ nodes, report = [.cycle nodes]) ∧ g.Cyclic) := by
  obtain ⟨d, closed, yielded, hsort, hnodup, hmem, hordered, hwaits, htake, hall⟩ :=
    sort_drains hg hopen
  refine ⟨d, closed, yielded, _, hsort, fun b hb hdone => ?_, hnodup, hordered, htake, hall, ?_⟩
  · by_contra hnot
    obtain ⟨a, ha, hab⟩ := hwaits b (mem_kept.mpr ⟨hb, hnot⟩)
    exact (mem_kept.mp ha).2 (hdone a hab)
  cases hkept : g.kept yielded with
  | nil =>
    have hyielded : ∀ a, a ∈ yielded ↔ a ∈ g.nodes := by
      refine fun a => ⟨hmem a, fun ha => ?_⟩
      by_contra hnot
      have hin := mem_kept.mpr ⟨ha, hnot⟩
      rw [hkept] at hin
      exact not_mem_nil hin
    refine Or.inl ⟨rfl, hyielded, ?_⟩
    rintro ⟨a, ha⟩
    have hin := (hyielded a).mpr (mem_nodes_of_transGen_waits ha)
    exact not_transGen_self_of_mem hnodup hordered hin ha
  | cons b rest =>
    have hb : b ∈ g.kept yielded := by simp [hkept]
    obtain ⟨c, hcycle, -⟩ := exists_cycle_behind hwaits hb
    exact Or.inr ⟨⟨_, rfl⟩, c, hcycle⟩

/-! ## Graphs built by calls -/

inductive Call (α : Type) where
  | node (a : α)
  | edge (dependency dependent : α)
  deriving DecidableEq, Repr

def call (g : DependencyGraph α) : Call α → Except CompileError (DependencyGraph α)
  | .node a => g.addNode a
  | .edge dependency dependent => g.addEdge dependency dependent

/-- The graph that a sequence of calls makes from the empty one. -/
def build (calls : List (Call α)) : Except CompileError (DependencyGraph α) :=
  calls.foldlM call {}

def Call.Mentions (a : α) : Call α → Prop
  | .node b => a = b
  | .edge dependency dependent => a = dependency ∨ a = dependent

/-- The index finds the number of each node. -/
theorem WellFormed.lookup_eq_some (hg : g.WellFormed) {a : α} {i : Nat} :
    g.index.lookup a = some i ↔ g.nodes[i]? = some a := by
  rw [← hg.indexed]
  constructor
  · intro h
    obtain ⟨before, after, hsplit, -⟩ := List.lookup_eq_some_iff.mp h
    simp [hsplit]
  · intro h
    cases hfound : g.index.lookup a with
    | none => simpa using List.lookup_eq_none_iff.mp hfound _ h
    | some j =>
      -- a node is registered once, so it has one number
      obtain ⟨before, after, hsplit, -⟩ := List.lookup_eq_some_iff.mp hfound
      have hj := (hg.indexed a j).mp (by simp [hsplit])
      have hi := (hg.indexed a i).mp h
      rw [getElem?_inj (List.getElem?_eq_some_iff.mp hj).1 hg.nodup |>.mp (hj.trans hi.symm)]

theorem WellFormed.lookup_eq_none (hg : g.WellFormed) {a : α} (h : g.index.lookup a = none) :
    a ∉ g.nodes := by
  intro hmem
  obtain ⟨i, hi⟩ := mem_iff_getElem?.mp hmem
  rw [hg.lookup_eq_some.mpr hi] at h
  cases h

/-- Registering a node numbers it and changes nothing else. -/
theorem register_spec (hg : g.WellFormed) (a : α) :
    ∃ (i : Nat) (g' : DependencyGraph α), g.register a = (i, g') ∧ g'.WellFormed ∧
      g'.sorted = g.sorted ∧ g'.edges = g.edges ∧ g'.nodes[i]? = some a ∧ g.nodes <+: g'.nodes ∧
      (∀ b, b ∈ g'.nodes ↔ b ∈ g.nodes ∨ b = a) := by
  unfold register
  split
  · rename_i i hi
    have hnode := hg.lookup_eq_some.mp hi
    refine ⟨i, g, rfl, hg, rfl, rfl, hnode, prefix_refl _, fun b => ?_⟩
    refine ⟨Or.inl, ?_⟩
    rintro (h | rfl)
    · exact h
    · exact mem_of_getElem? hnode
  · rename_i hnew
    have hnew := hg.lookup_eq_none hnew
    have hsnoc : (g.nodes ++ [a]).length = g.nodes.length + 1 := by simp
    refine ⟨_, _, rfl, ⟨?_, fun b i => ?_, ?_, ?_⟩, rfl, rfl, by simp, ⟨[a], rfl⟩, by simp⟩
    · rw [nodup_append]
      refine ⟨hg.nodup, nodup_singleton a, fun b hb c hc hbc => hnew ?_⟩
      rwa [← mem_singleton.mp hc, ← hbc]
    · rw [mem_cons, Prod.mk.injEq, hg.indexed, getElem?_append]
      split
      · simp only [or_iff_right_iff_imp]
        omega
      · rw [List.getElem?_eq_none (by omega), List.getElem?_singleton]
        split <;> grind
    · intro edge hedge
      have := hg.source_lt edge hedge
      simp only [hsnoc]
      omega
    · intro edge hedge
      have := hg.target_lt edge hedge
      simp only [hsnoc]
      omega

theorem addNode_spec (hg : g.WellFormed) (hopen : g.sorted = false) (a : α) :
    ∃ g', g.addNode a = .ok g' ∧ g'.WellFormed ∧ g'.sorted = false ∧
      (∀ b, b ∈ g'.nodes ↔ b ∈ g.nodes ∨ b = a) ∧ ∀ b c, g'.Waits b c ↔ g.Waits b c := by
  obtain ⟨i, g', hregister, hg', hsorted, hedges, _, hprefix, hmem⟩ := register_spec hg a
  refine ⟨g', ?_, hg', hsorted.trans hopen, hmem, hg.waits_iff_of_prefix hprefix hedges⟩
  simp [addNode_eq, hopen, hregister]

theorem addEdge_spec (hg : g.WellFormed) (hopen : g.sorted = false) (dependency dependent : α) :
    ∃ g', g.addEdge dependency dependent = .ok g' ∧ g'.WellFormed ∧ g'.sorted = false ∧
      (∀ b, b ∈ g'.nodes ↔ (b ∈ g.nodes ∨ b = dependency) ∨ b = dependent) ∧
      ∀ b c, g'.Waits b c ↔ g.Waits b c ∨ b = dependency ∧ c = dependent := by
  obtain ⟨i, g1, hregister1, hg1, hsorted1, hedges1, hnode1, hprefix1, hmem1⟩ :=
    register_spec hg dependency
  obtain ⟨j, g2, hregister2, hg2, hsorted2, hedges2, hnode2, hprefix2, hmem2⟩ :=
    register_spec hg1 dependent
  -- the second registration keeps the number of the first
  have hi : g2.nodes[i]? = some dependency := getElem?_of_prefix hprefix2 hnode1
  have hwaits : ∀ b c, g2.Waits b c ↔ g.Waits b c := fun b c =>
    (hg1.waits_iff_of_prefix hprefix2 hedges2 b c).trans
      (hg.waits_iff_of_prefix hprefix1 hedges1 b c)
  refine ⟨{ g2 with edges := g2.edges ++ [(i, j)] }, ?_,
    ⟨hg2.nodup, hg2.indexed, ?_, ?_⟩, ?_, ?_, ?_⟩
  · simp [addEdge_eq, hopen, hregister1, hregister2]
  · intro edge hedge
    rcases mem_append.mp hedge with hedge | hedge
    · exact hg2.source_lt edge hedge
    · rw [mem_singleton.mp hedge]
      exact (List.getElem?_eq_some_iff.mp hi).1
  · intro edge hedge
    rcases mem_append.mp hedge with hedge | hedge
    · exact hg2.target_lt edge hedge
    · rw [mem_singleton.mp hedge]
      exact (List.getElem?_eq_some_iff.mp hnode2).1
  · exact (hsorted2.trans hsorted1).trans hopen
  · intro b
    rw [hmem2, hmem1]
  · intro b c
    rw [← hwaits]
    unfold Waits
    simp only [mem_append, mem_singleton, Prod.mk.injEq]
    constructor
    · rintro ⟨k, l, hedge | ⟨rfl, rfl⟩, hb, hc⟩
      · exact Or.inl ⟨k, l, hedge, hb, hc⟩
      · exact Or.inr ⟨by simpa [hi] using hb.symm, by simpa [hnode2] using hc.symm⟩
    · rintro (⟨k, l, hedge, hb, hc⟩ | ⟨rfl, rfl⟩)
      · exact ⟨k, l, Or.inl hedge, hb, hc⟩
      · exact ⟨i, j, Or.inr ⟨rfl, rfl⟩, hi, hnode2⟩

theorem foldlM_call_spec (calls : List (Call α)) (hg : g.WellFormed) (hopen : g.sorted = false) :
    ∃ g', calls.foldlM call g = .ok g' ∧ g'.WellFormed ∧ g'.sorted = false ∧
      (∀ a, a ∈ g'.nodes ↔ a ∈ g.nodes ∨ ∃ c ∈ calls, c.Mentions a) ∧
      ∀ a b, g'.Waits a b ↔ g.Waits a b ∨ Call.edge a b ∈ calls := by
  induction calls generalizing g with
  | nil => exact ⟨g, rfl, hg, hopen, by simp, by simp⟩
  | cons c rest ih =>
    obtain ⟨g1, hcall, hg1, hopen1, hmem1, hwaits1⟩ : ∃ g1, g.call c = .ok g1 ∧ g1.WellFormed ∧
        g1.sorted = false ∧ (∀ a, a ∈ g1.nodes ↔ a ∈ g.nodes ∨ c.Mentions a) ∧
        ∀ a b, g1.Waits a b ↔ g.Waits a b ∨ Call.edge a b = c := by
      cases c with
      | node a =>
        obtain ⟨g1, h, hg1, hopen1, hmem1, hwaits1⟩ := addNode_spec hg hopen a
        exact ⟨g1, h, hg1, hopen1, hmem1, by simpa using hwaits1⟩
      | edge a b =>
        obtain ⟨g1, h, hg1, hopen1, hmem1, hwaits1⟩ := addEdge_spec hg hopen a b
        exact ⟨g1, h, hg1, hopen1, by simpa [Call.Mentions, or_assoc] using hmem1,
          by simpa using hwaits1⟩
    obtain ⟨g', hfold, hg', hopen', hmem', hwaits'⟩ := ih hg1 hopen1
    refine ⟨g', ?_, hg', hopen', ?_, ?_⟩
    · rw [foldlM_cons, hcall]
      exact hfold
    · intro a
      rw [hmem', hmem1]
      simp [or_assoc]
    · intro a b
      rw [hwaits', hwaits1]
      simp [or_assoc]

theorem build_induction {motive : List (Call α) → DependencyGraph α → Prop} (nil : motive [] {})
    (call : ∀ earlier c g g', g.WellFormed → motive earlier g → g.call c = .ok g' →
      motive (earlier ++ [c]) g')
    {calls : List (Call α)} (h : build calls = .ok g) : motive calls g := by
  induction calls using List.reverseRecOn generalizing g with
  | nil =>
    cases h
    exact nil
  | append_singleton earlier c ih =>
    simp only [build, foldlM_append, foldlM_cons, foldlM_nil, bind_pure] at h
    obtain ⟨g1, hearlier, hg1, -⟩ := foldlM_call_spec earlier wellFormed_empty rfl
    rw [hearlier] at h
    exact call earlier c g1 g hg1 (ih hearlier) h

/-- No node comes twice, every node comes after all it waits for, there is a report exactly if there
    is a cycle, and without one come all nodes that were mentioned and nothing after them. -/
theorem sort_topological (calls : List (Call α)) :
    ∃ (g : DependencyGraph α) (drain : Drain α) (closed : DependencyGraph α) (yielded : List α),
      build calls = .ok g ∧ g.sort = .ok (drain, closed) ∧
      drain.toList.filterMap Drained.node? = yielded ∧
      yielded.Nodup ∧
      (∀ before b after, yielded = before ++ b :: after → ∀ a, Call.edge a b ∈ calls → a ∈ before) ∧
      ((∃ nodes, .cycle nodes ∈ drain.toList) ↔
        ∃ a, TransGen (fun a b => Call.edge a b ∈ calls) a a) ∧
      ((¬ ∃ a, TransGen (fun a b => Call.edge a b ∈ calls) a a) →
        drain.toList = yielded.map Drained.node ∧
        ∀ a, a ∈ yielded ↔ ∃ c ∈ calls, c.Mentions a) ∧
      ∀ n, drain.toList.length ≤ n → drain.take n = drain.toList := by
  obtain ⟨g, hbuild, hg, hopen, hmem, hwaits⟩ := foldlM_call_spec calls wellFormed_empty rfl
  have hmem : ∀ a, a ∈ g.nodes ↔ ∃ c ∈ calls, c.Mentions a := by simpa using hmem
  have hwaits : g.Waits = fun a b => Call.edge a b ∈ calls := by
    funext a b
    rw [hwaits, eq_false (not_waits_empty a b), false_or]
  obtain ⟨drain, closed, yielded, report, hsort, -, hnodup, hordered, htake, hall, hend⟩ :=
    sort_exhausts hg hopen
  rw [Cyclic, hwaits] at hend
  rw [hwaits] at hordered
  have hnodes : (yielded.map Drained.node).filterMap Drained.node? = yielded := by
    rw [List.filterMap_map]
    exact List.filterMap_some
  refine ⟨g, drain, closed, yielded, hbuild, hsort, ?_, hnodup, hordered, ?_, ?_, ?_⟩
  · rw [hall, List.filterMap_append, hnodes]
    rcases hend with ⟨rfl, _⟩ | ⟨⟨nodes, rfl⟩, _⟩ <;> simp [Drained.node?]
  · rw [hall]
    rcases hend with ⟨rfl, _, hacyclic⟩ | ⟨⟨nodes, rfl⟩, hcyclic⟩
    · simp [hacyclic]
    · exact ⟨fun _ => hcyclic, fun _ => ⟨nodes, by simp⟩⟩
  · intro hacyclic
    rcases hend with ⟨rfl, hyielded, _⟩ | ⟨_, hcyclic⟩
    · exact ⟨by rw [hall, List.append_nil], fun a => (hyielded a).trans (hmem a)⟩
    · exact absurd hcyclic hacyclic
  · intro n hn
    rw [hall, List.length_append, List.length_map] at hn
    rw [htake n hn, hall]

end DependencyGraph

end StagedAsm
