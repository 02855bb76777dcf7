import Mathlib.Data.List.Dedup
import StagedAsm.Proofs.CycleReports
import StagedAsm.Proofs.Moves

/-!
# Sorts that are not run to the end

The numbers that a graph and its sort keep, in terms of the calls that built the graph. However far
a sort has come, the count of a node is the number of edges into it from nodes that are still to be
handed out. So a count that is lowered was not zero before.
-/

namespace StagedAsm

open List

namespace Drain

variable {α : Type} {d : Drain α} {done rest : List Nat} {index : Nat}

/-- A sort after `n` things were handed out. -/
def after : Nat → Drain α → Drain α
  | 0, d => d
  | n + 1, d =>
    match d.next? with
    | some (_, d) => after n d
    | none => d

def Covered (d : Drain α) : Prop :=
  ∀ index rest, d.backlog = index :: rest → 0 < d.remaining ∧
    ∀ before target others, d.graph.dependents index = before ++ target :: others →
      0 < (before.foldl release (d.inbound, rest)).1.getD target 0

theorem Invariant.covered (inv : d.Invariant done) : d.Covered := by
  intro index rest hbacklog
  obtain ⟨hlt, hfresh, -⟩ := (inv.mem_backlog index).mp (by simp [hbacklog])
  refine ⟨?_, fun before target others hsplit => ?_⟩
  · have hless := inv.length_done_lt hlt hfresh
    have hcount := inv.remaining_eq
    omega
  · have htargets : ∀ t ∈ before, t < d.inbound.length := fun t ht =>
      inv.target_lt (by rw [hsplit]; exact mem_append_left _ ht)
    have hcount := inv.count_le hfresh target
    rw [hsplit, count_append, count_cons_self] at hcount
    rw [getD_foldl_release _ _ htargets]
    dsimp only
    omega

theorem after_of_next?_eq_none (h : d.next? = none) (n : Nat) : d.after n = d ∧ d.take n = [] := by
  cases n with
  | zero => exact ⟨rfl, rfl⟩
  | succ n => exact ⟨by rw [after, h], by rw [take, h]⟩

theorem Invariant.after (inv : d.Invariant done) (n : Nat) :
    ∃ order : List Nat, ({ d.after n with reported := false } : Drain α).Invariant (done ++ order) ∧
      (d.after n).graph = d.graph ∧
      (d.take n).filterMap Drained.node? = order.filterMap (d.graph.nodes[·]?) := by
  induction n generalizing d done with
  | zero =>
    refine ⟨[], ?_, rfl, rfl⟩
    rw [append_nil, Drain.after, ← inv.not_reported]
    exact inv
  | succ n ih =>
    rw [Drain.after, take]
    cases hbacklog : d.backlog with
    | cons index rest =>
      obtain ⟨node, d1, hnode, hnext, hgraph, inv1⟩ := inv.step hbacklog
      obtain ⟨order, inv', hgraph', hyields⟩ := ih inv1
      refine ⟨index :: order, ?_, ?_, ?_⟩
      · rw [hnext]
        simpa using inv'
      · rw [hnext]
        exact hgraph'.trans hgraph
      · rw [hnext]
        simp only [filterMap_cons, Drained.node?, hyields, hgraph, hnode]
    | nil =>
      -- a report changes nothing but the mark, and nothing follows it
      obtain ⟨graph, inbound, backlog, remaining, reported⟩ := d
      obtain rfl : reported = false := inv.not_reported
      obtain rfl : backlog = [] := hbacklog
      refine ⟨[], ?_⟩
      rw [append_nil]
      have hend : (⟨graph, inbound, [], remaining, true⟩ : Drain α).next? = none := by
        simp [next?]
      obtain ⟨hafter, htake⟩ := after_of_next?_eq_none hend n
      by_cases hleft : 0 < remaining
      · simp only [next?, hleft, hafter, htake, decide_true, Bool.not_false, Bool.and_self, if_true]
        exact ⟨inv, trivial, rfl⟩
      · simp only [next?, hleft, decide_false, Bool.false_and]
        exact ⟨inv, rfl, rfl⟩

end Drain

namespace DependencyGraph

variable {α : Type} {g g' : DependencyGraph α} {calls earlier : List (Call α)}

/-- The nodes between which a call records an edge. -/
def Call.ends? : Call α → Option (α × α)
  | .node _ => none
  | .edge dependency dependent => some (dependency, dependent)

/-- The edges of a graph are those that calls recorded, in order. -/
def Records (g : DependencyGraph α) (calls : List (Call α)) : Prop :=
  List.Forall₂ (fun edge ends => g.nodes[edge.1]? = some ends.1 ∧ g.nodes[edge.2]? = some ends.2)
    g.edges (calls.filterMap Call.ends?)

theorem Records.grow (h : g.Records calls) (hnodes : g.nodes <+: g'.nodes)
    (hedges : g'.edges = g.edges) : g'.Records calls := by
  rw [Records, hedges]
  exact h.imp fun edge ends hends =>
    ⟨ getElem?_of_prefix hnodes hends.1, getElem?_of_prefix hnodes hends.2⟩

variable [DecidableEq α]

theorem Records.call {c : Call α} (h : g.Records earlier) (hg : g.WellFormed)
    (hcall : g.call c = .ok g') : g'.Records (earlier ++ [c]) := by
  cases c with
  | node a =>
    obtain ⟨i, g1, hregister, -, -, hedges, -, hnodes, -⟩ := register_spec hg a
    rw [DependencyGraph.call, addNode_eq, hregister] at hcall
    split at hcall
    · cases hcall
    · cases hcall
      simpa [Records, filterMap_cons, Call.ends?] using h.grow hnodes hedges
  | edge a b =>
    obtain ⟨i, g1, hregister1, hg1, -, hedges1, hnode1, hnodes1, -⟩ := register_spec hg a
    obtain ⟨j, g2, hregister2, -, -, hedges2, hnode2, hnodes2, -⟩ := register_spec hg1 b
    rw [DependencyGraph.call, addEdge_eq, hregister1] at hcall
    simp only [hregister2] at hcall
    split at hcall
    · cases hcall
    · cases hcall
      have hgrown : g2.Records earlier := (h.grow hnodes1 hedges1).grow hnodes2 hedges2
      rw [Records, filterMap_append]
      exact rel_append hgrown (.cons ⟨ getElem?_of_prefix hnodes2 hnode1, hnode2⟩ .nil)

theorem records_build (h : build calls = .ok g) : g.Records calls := by
  refine build_induction (motive := fun calls g => g.Records calls) .nil ?_ h
  intro earlier c g g' hg hrecords hcall
  exact hrecords.call hg hcall

/-- Edges are counted as the calls that recorded them. -/
theorem Records.openEdges_eq (h : g.Records calls) (hg : g.WellFormed) (order : List Nat) {i : Nat}
    {a : α} (hi : g.nodes[i]? = some a) : g.openEdges order i =
      (calls.filterMap Call.ends?).countP fun ends =>
        decide (ends.2 = a ∧ ends.1 ∉ order.filterMap (g.nodes[·]?)) := by
  have hcount : ∀ {edges : List (Nat × Nat)} {ends : List (α × α)},
      List.Forall₂ (fun edge ends => g.nodes[edge.1]? = some ends.1 ∧
        g.nodes[edge.2]? = some ends.2) edges ends →
      (edges.countP fun edge => decide (edge.2 = i ∧ edge.1 ∉ order)) =
        ends.countP fun ends => decide (ends.2 = a ∧ ends.1 ∉ order.filterMap (g.nodes[·]?)) := by
    intro edges ends h
    induction h with
    | nil => rfl
    | @cons edge end' _ _ hends _ ih =>
      -- nodes are registered once, so equal numbers are equal nodes
      have hlt := (List.getElem?_eq_some_iff.mp hends.2).1
      have hsame : edge.2 = i ↔ end'.2 = a := by
        rw [← getElem?_inj hlt hg.nodup, hends.2, hi, Option.some.injEq]
      simp only [countP_cons, ih, hsame, mem_filterMap_getElem? hg.nodup hends.1]
  exact hcount h

/-- All nodes but those of an order are kept. -/
theorem WellFormed.length_kept {order : List Nat} (hg : g.WellFormed) (hnodup : order.Nodup)
    (hlt : ∀ i ∈ order, i < g.nodes.length) :
    (g.kept (order.filterMap (g.nodes[·]?))).length + order.length = g.nodes.length := by
  have hperm : (g.nodes.filter fun a => a ∈ order.filterMap (g.nodes[·]?)).Perm
      (order.filterMap (g.nodes[·]?)) := by
    rw [perm_ext_iff_of_nodup (hg.nodup.filter _) (nodup_filterMap_getElem? hg.nodup hnodup)]
    intro a
    rw [mem_filter, decide_eq_true_eq]
    exact and_iff_right_of_imp mem_of_mem_filterMap_getElem?
  have hsplit :=
    g.nodes.length_eq_length_filter_add fun a => a ∈ order.filterMap (g.nodes[·]?)
  rw [hperm.length_eq, length_filterMap_getElem? hlt] at hsplit
  simp only [kept, decide_not]
  omega

def Call.perform : Call α → GraphM α Unit
  | .node a => GraphM.addNode a
  | .edge dependency dependent => GraphM.addEdge dependency dependent

theorem Call.perform_eq_ok {c : Call α} (h : g.call c = .ok g') : c.perform g = .ok () g' := by
  cases c with
  | node a => exact (GraphM.map_result_eq_ok.mp h).choose_spec
  | edge a b => exact (GraphM.map_result_eq_ok.mp h).choose_spec

theorem forM_perform_eq_ok (h : calls.foldlM call g = .ok g') :
    forM calls Call.perform g = .ok () g' := by
  induction calls generalizing g with
  | nil =>
    cases h
    rfl
  | cons c calls ih =>
    rw [foldlM_cons] at h
    cases hcall : g.call c with
    | error e => rw [hcall] at h; cases h
    | ok g1 =>
      rw [hcall] at h
      rw [forM_cons, bind_of_ok (Call.perform_eq_ok hcall)]
      exact ih h

/-- A graph has each value that was mentioned once and each edge as often as it was recorded, and
    its index is right. Its sort counts right wherever it is interrupted, and closes the graph for
    good: whatever is tried on it is refused and changes nothing. -/
theorem graph_bookkeeping (calls : List (Call α)) :
    ∃ (g : DependencyGraph α) (drain : Drain α) (closed : DependencyGraph α),
      forM calls Call.perform {} = .ok () g ∧ GraphM.sort g = .ok drain closed ∧
      (∀ a i, g.index.lookup a = some i ↔ g.nodes[i]? = some a) ∧
      (∀ a, a ∈ g.nodes ↔ a ∈ mentions calls) ∧
      g.nodes.length = (mentions calls).dedup.length ∧
      g.edges.length = (calls.filterMap Call.ends?).length ∧
      (∀ n, (∀ i a, g.nodes[i]? = some a → (drain.after n).inbound.getD i 0 =
          (calls.filterMap Call.ends?).countP fun ends =>
            decide (ends.2 = a ∧ ends.1 ∉ (drain.take n).filterMap Drained.node?)) ∧
        (drain.after n).remaining = (g.kept ((drain.take n).filterMap Drained.node?)).length ∧
        (drain.after n).Covered) ∧
      closed.nodes = g.nodes ∧ closed.index = g.index ∧ closed.edges = g.edges ∧
      (∀ c : Call α, c.perform closed = .error .graphClosed closed) ∧
      GraphM.sort closed = .error .graphClosed closed := by
  obtain ⟨g, hbuild, hg, hopen, -, -⟩ := foldlM_call_spec calls wellFormed_empty rfl
  obtain ⟨⟨drain, closed⟩, hsort⟩ : ∃ result, g.sort = .ok result := by simp [sort_eq, hopen]
  obtain ⟨inv, hnodes, hedges⟩ := Drain.invariant_sort hg hsort
  have hlisted := ListedBy.build hbuild
  have hrecords := records_build hbuild
  refine ⟨g, drain, closed, forM_perform_eq_ok hbuild, GraphM.result_eq_ok.mp hsort,
    fun a i => hg.lookup_eq_some, hlisted.mem_iff, ?_, hrecords.length_eq, ?_, ?_⟩
  · apply List.Perm.length_eq
    rw [List.perm_ext_iff_of_nodup hg.nodup (List.nodup_dedup _)]
    simpa using hlisted.mem_iff
  · intro n
    obtain ⟨order, inv', hgraph, hyields⟩ := inv.after n
    rw [List.nil_append] at inv'
    have hnodes' : (drain.after n).graph.nodes = g.nodes := by rw [hgraph, hnodes]
    have hedges' : (drain.after n).graph.edges = g.edges := by rw [hgraph, hedges]
    rw [hnodes] at hyields
    rw [hyields]
    refine ⟨fun i a hi => ?_, ?_, inv'.covered⟩
    · rw [← hrecords.openEdges_eq hg order hi]
      have hlt := (List.getElem?_eq_some_iff.mp hi).1
      have hinbound := inv'.inbound_eq i (by rw [← hnodes'] at hlt; exact hlt)
      rw [openEdges] at hinbound ⊢
      rw [← hedges']
      exact hinbound
    · have hkept := hg.length_kept inv'.done_nodup fun i hi => hnodes' ▸ inv'.done_lt i hi
      have hremaining : (drain.after n).remaining + order.length = g.nodes.length :=
        hnodes' ▸ inv'.remaining_eq
      omega
  · rw [sort_eq, hopen] at hsort
    cases hsort
    refine ⟨rfl, rfl, rfl, fun c => ?_, rfl⟩
    cases c <;> rfl

end DependencyGraph

end StagedAsm
