import Mathlib.Data.List.Nodup
import Mathlib.Data.List.Perm.Subperm
import StagedAsm.DependencyGraph

/-!
# Draining a dependency graph

The loop invariant of sorting. The count of a node is the number of edges into it from nodes not
handed out, and the backlog holds exactly the nodes that are not handed out and have the count zero.
`Drain.Invariant.step` is one turn of the loop, `Drain.Invariant.exhaust` the whole loop.
-/

namespace StagedAsm

open DependencyGraph List

namespace DependencyGraph

variable {α : Type}

/-- Nodes are registered once, the index has their numbers, and edges are between registered
    nodes. -/
structure WellFormed (g : DependencyGraph α) : Prop where
  nodup : g.nodes.Nodup
  indexed : ∀ a i, (a, i) ∈ g.index ↔ g.nodes[i]? = some a
  source_lt : ∀ edge ∈ g.edges, edge.1 < g.nodes.length
  target_lt : ∀ edge ∈ g.edges, edge.2 < g.nodes.length

/-- Number of edges into a node from nodes that are not `done`. -/
def openEdges (g : DependencyGraph α) (done : List Nat) (index : Nat) : Nat :=
  g.edges.countP fun edge => decide (edge.2 = index ∧ edge.1 ∉ done)

theorem openEdges_nil (g : DependencyGraph α) (index : Nat) :
    g.openEdges [] index = g.inboundCount index := by
  simp only [openEdges, inboundCount, not_mem_nil, not_false_eq_true, and_true,
    countP_eq_length_filter]
  rfl

variable {g : DependencyGraph α} {done : List Nat} {source : Nat}

theorem openEdges_eq_zero_iff {index : Nat} :
    g.openEdges done index = 0 ↔ ∀ source, (source, index) ∈ g.edges → source ∈ done := by
  simp only [openEdges, countP_eq_zero, decide_eq_true_eq, not_and, not_not]
  constructor
  · intro h source hedge
    exact h (source, index) hedge rfl
  · rintro h ⟨source, target⟩ hedge rfl
    exact h source hedge

theorem count_dependents (g : DependencyGraph α) (source target : Nat) :
    (g.dependents source).count target =
      g.edges.countP fun edge => decide (edge.1 = source ∧ edge.2 = target) := by
  simp only [dependents, count_reverse]
  induction g.edges with
  | nil => rfl
  | cons edge rest ih =>
    obtain ⟨a, b⟩ := edge
    by_cases ha : a = source <;> by_cases hb : b = target <;> simp_all

theorem mem_dependents {target : Nat} :
    target ∈ g.dependents source ↔ (source, target) ∈ g.edges := by
  rw [← count_pos_iff, count_dependents, countP_pos_iff]
  simp

theorem openEdges_snoc (g : DependencyGraph α) (h : source ∉ done) (target : Nat) :
    g.openEdges done target =
      g.openEdges (done ++ [source]) target + (g.dependents source).count target := by
  rw [count_dependents]
  simp only [openEdges]
  -- an edge from `source` stops being open; for every other edge nothing changes
  induction g.edges with
  | nil => rfl
  | cons edge rest ih =>
    obtain ⟨a, b⟩ := edge
    simp only [countP_cons, ih, mem_append, mem_singleton, decide_eq_true_eq]
    by_cases hb : b = target <;> by_cases ha : a = source <;> by_cases hd : a ∈ done
    all_goals simp_all
    all_goals omega

end DependencyGraph

namespace Drain

variable {α : Type}

/-! ## Releasing edges -/

variable {node index : Nat} {rest done : List Nat} {d : Drain α}

variable (targets : List Nat) (state : List Nat × List Nat)

@[simp] theorem length_release (node : Nat) : (release state node).1.length = state.1.length := by
  simp [release]

theorem getD_release (h : node < state.1.length) (i : Nat) :
    (release state node).1.getD i 0 = state.1.getD i 0 - if i = node then 1 else 0 := by
  obtain ⟨inbound, backlog⟩ := state
  by_cases hi : i = node
  · subst hi
    have hlt : i < inbound.length := h
    simp [release, hlt]
  · simp [release, hi, Ne.symm hi]

theorem count_le_getD_release {state : List Nat × List Nat} (hlt : node < state.1.length)
    (h : ∀ i, (node :: rest).count i ≤ state.1.getD i 0) (i : Nat) :
    rest.count i ≤ (release state node).1.getD i 0 := by
  have hi := h i
  rw [count_cons] at hi
  rw [getD_release state hlt]
  by_cases heq : i = node
  · simp only [heq, if_true, beq_self_eq_true] at hi ⊢
    omega
  · simpa [heq, Ne.symm heq] using hi

theorem mem_release (node i : Nat) :
    i ∈ (release state node).2 ↔ i ∈ state.2 ∨ i = node ∧ state.1.getD node 0 ≤ 1 := by
  obtain ⟨inbound, backlog⟩ := state
  have hz : inbound.getD node 0 - 1 = 0 ↔ inbound.getD node 0 ≤ 1 := by omega
  simp only [release]
  split
  · rename_i h
    simp only [mem_cons, hz.mp h, and_true, or_comm]
  · rename_i h
    have hgt : ¬ inbound.getD node 0 ≤ 1 := fun hle => h (hz.mpr hle)
    simp only [hgt, and_false, or_false]

theorem getD_foldl_release (hlt : ∀ t ∈ targets, t < state.1.length) (i : Nat) :
    (targets.foldl release state).1.getD i 0 = state.1.getD i 0 - targets.count i := by
  induction targets generalizing state with
  | nil => simp
  | cons t rest ih =>
    rw [foldl_cons, ih (release state t) (fun u hu => by simpa using hlt u (by simp [hu])),
      getD_release state (hlt t (by simp)), count_cons]
    by_cases hi : i = t
    · simp only [hi, if_true, beq_self_eq_true]
      omega
    · simp [hi, Ne.symm hi]

theorem length_foldl_release : (targets.foldl release state).1.length = state.1.length := by
  induction targets generalizing state with
  | nil => rfl
  | cons t rest ih => rw [foldl_cons, ih, length_release]

theorem mem_foldl_release (hlt : ∀ t ∈ targets, t < state.1.length)
    (hcount : ∀ i, targets.count i ≤ state.1.getD i 0) (i : Nat) :
    i ∈ (targets.foldl release state).2 ↔
      i ∈ state.2 ∨ i ∈ targets ∧ state.1.getD i 0 = targets.count i := by
  induction targets generalizing state with
  | nil => simp
  | cons t rest ih =>
    have htlt := hlt t (by simp)
    rw [foldl_cons, ih (release state t) (fun u hu => by simpa using hlt u (by simp [hu]))
      (count_le_getD_release htlt hcount), mem_release, getD_release state htlt, count_cons,
      mem_cons]
    by_cases hi : i = t
    · subst hi
      have hpos := hcount i
      rw [count_cons_self] at hpos
      simp only [true_and, if_true, beq_self_eq_true, true_or]
      rw [or_assoc]
      apply or_congr_right
      -- the last edge to the node is this one or one of the rest
      constructor
      · rintro (h | ⟨_, h⟩) <;> omega
      · intro h
        by_cases hmem : i ∈ rest
        · exact Or.inr ⟨hmem, by omega⟩
        · rw [count_eq_zero.mpr hmem] at h
          exact Or.inl (by omega)
    · simp [hi, Ne.symm hi]

/-- A node gets into the backlog once. -/
theorem nodup_foldl_release (hlt : ∀ t ∈ targets, t < state.1.length)
    (hcount : ∀ i, targets.count i ≤ state.1.getD i 0) (hnodup : state.2.Nodup)
    (hzero : ∀ i ∈ state.2, state.1.getD i 0 = 0) : (targets.foldl release state).2.Nodup := by
  induction targets generalizing state with
  | nil => exact hnodup
  | cons t rest ih =>
    have htlt := hlt t (by simp)
    have htpos : rest.count t + 1 ≤ state.1.getD t 0 := by simpa using hcount t
    have hfresh : t ∉ state.2 := fun hmem => by
      have := hzero t hmem
      omega
    rw [foldl_cons]
    apply ih
    · intro u hu
      simpa using hlt u (by simp [hu])
    · exact count_le_getD_release htlt hcount
    · simp only [release]
      split
      · exact nodup_cons.mpr ⟨hfresh, hnodup⟩
      · exact hnodup
    · intro j hj
      rw [getD_release state htlt]
      rcases (mem_release state t j).mp hj with hj | ⟨rfl, hle⟩
      · rw [hzero j hj, Nat.zero_sub]
      · simp only [if_true]
        omega

/-! ## The invariant -/

/-- A sort after the nodes `done` were handed out, in this order. -/
structure Invariant (d : Drain α) (done : List Nat) : Prop where
  wellFormed : d.graph.WellFormed
  length_inbound : d.inbound.length = d.graph.nodes.length
  inbound_eq : ∀ i < d.graph.nodes.length, d.inbound.getD i 0 = d.graph.openEdges done i
  done_lt : ∀ i ∈ done, i < d.graph.nodes.length
  done_nodup : done.Nodup
  backlog_nodup : d.backlog.Nodup
  mem_backlog : ∀ i, i ∈ d.backlog ↔
    i < d.graph.nodes.length ∧ i ∉ done ∧ d.graph.openEdges done i = 0
  ordered : ∀ before node after, done = before ++ node :: after →
    ∀ source, (source, node) ∈ d.graph.edges → source ∈ before
  remaining_eq : d.remaining + done.length = d.graph.nodes.length
  not_reported : d.reported = false

/-- A node is added that waits for nothing else. -/
theorem ordered_snoc {edges : List (Nat × Nat)}
    (ordered : ∀ before node after, done = before ++ node :: after →
      ∀ source, (source, node) ∈ edges → source ∈ before)
    (free : ∀ source, (source, index) ∈ edges → source ∈ done) :
    ∀ before node after, done ++ [index] = before ++ node :: after →
      ∀ source, (source, node) ∈ edges → source ∈ before := by
  intro before node after h source hedge
  -- the order is split at the new node or inside the old order
  rcases eq_nil_or_concat after with rfl | ⟨after, last, rfl⟩
  · obtain ⟨rfl, hlast⟩ := append_inj' h rfl
    obtain rfl : index = node := by simpa using hlast
    exact free source hedge
  · have h' : done ++ [index] = (before ++ node :: after) ++ [last] := by simpa using h
    exact ordered before node after (append_inj' h' rfl).1 source hedge

section

variable (inv : d.Invariant done)
include inv

theorem Invariant.length_done_lt (hlt : index < d.graph.nodes.length)
    (hfresh : index ∉ done) : done.length < d.graph.nodes.length := by
  have hnodup : (index :: done).Nodup := nodup_cons.mpr ⟨hfresh, inv.done_nodup⟩
  have hsub : index :: done ⊆ List.range d.graph.nodes.length := by
    intro i hi
    rcases mem_cons.mp hi with rfl | hi
    · exact mem_range.mpr hlt
    · exact mem_range.mpr (inv.done_lt i hi)
  have hle := (hnodup.subperm hsub).length_le
  rw [length_cons, length_range] at hle
  exact hle

theorem Invariant.mem_backlog_snoc (hbacklog : d.backlog = index :: rest) (i : Nat) :
    (i ∈ rest ∨ i ∈ d.graph.dependents index ∧
        d.inbound.getD i 0 = (d.graph.dependents index).count i) ↔
      i < d.graph.nodes.length ∧ i ∉ done ++ [index] ∧
        d.graph.openEdges (done ++ [index]) i = 0 := by
  obtain ⟨hlt, hfresh, hfree⟩ := (inv.mem_backlog index).mp (by simp [hbacklog])
  have hsnoc := d.graph.openEdges_snoc hfresh i
  constructor
  · rintro (hrest | ⟨hmem, heq⟩)
    · obtain ⟨hilt, hidone, hizero⟩ := (inv.mem_backlog i).mp (by simp [hbacklog, hrest])
      have hne : i ≠ index := by
        rintro rfl
        have hnodup := inv.backlog_nodup
        rw [hbacklog] at hnodup
        exact (nodup_cons.mp hnodup).1 hrest
      exact ⟨hilt, by simp [hidone, hne], by omega⟩
    · have hedge := mem_dependents.mp hmem
      have hilt := inv.wellFormed.target_lt _ hedge
      rw [inv.inbound_eq i hilt] at heq
      refine ⟨hilt, ?_, by omega⟩
      -- a node that was handed out, or the node itself, would not wait for the node
      have hnotdone : i ∉ done := by
        intro hdone
        obtain ⟨before, after, hsplit⟩ := append_of_mem hdone
        have hin := inv.ordered before i after hsplit index hedge
        exact hfresh (by rw [hsplit]; simp [hin])
      have hne : i ≠ index := by
        rintro rfl
        exact hfresh (openEdges_eq_zero_iff.mp hfree i hedge)
      simp [hnotdone, hne]
  · rintro ⟨hilt, hidone, hizero⟩
    simp only [mem_append, mem_singleton, not_or] at hidone
    rw [inv.inbound_eq i hilt]
    by_cases hopen : d.graph.openEdges done i = 0
    · have hin := (inv.mem_backlog i).mpr ⟨hilt, hidone.1, hopen⟩
      rw [hbacklog, mem_cons] at hin
      exact Or.inl (hin.resolve_left hidone.2)
    · exact Or.inr ⟨count_pos_iff.mp (by omega), by omega⟩

theorem Invariant.target_lt {t : Nat} (ht : t ∈ d.graph.dependents index) :
    t < d.inbound.length := by
  rw [inv.length_inbound]
  exact inv.wellFormed.target_lt _ (mem_dependents.mp ht)

theorem Invariant.count_le (hfresh : index ∉ done) (i : Nat) :
    (d.graph.dependents index).count i ≤ d.inbound.getD i 0 := by
  by_cases hi : i < d.graph.nodes.length
  · rw [inv.inbound_eq i hi, d.graph.openEdges_snoc hfresh i]
    omega
  · rw [count_eq_zero.mpr]
    · exact Nat.zero_le _
    · intro hmem
      exact hi (inv.length_inbound ▸ inv.target_lt hmem)

theorem Invariant.step (hbacklog : d.backlog = index :: rest) :
    ∃ (node : α) (d' : Drain α), d.graph.nodes[index]? = some node ∧
      d.next? = some (.node node, d') ∧ d'.graph = d.graph ∧ d'.Invariant (done ++ [index]) := by
  obtain ⟨hlt, hfresh, hfree⟩ := (inv.mem_backlog index).mp (by simp [hbacklog])
  have hrestNodup : index ∉ rest ∧ rest.Nodup := by
    rw [← nodup_cons, ← hbacklog]
    exact inv.backlog_nodup
  have htargets : ∀ t ∈ d.graph.dependents index, t < d.inbound.length := fun t => inv.target_lt
  have hcount := inv.count_le hfresh
  have hrest : ∀ i ∈ rest, d.inbound.getD i 0 = 0 := by
    intro i hi
    obtain ⟨hilt, _, hzero⟩ := (inv.mem_backlog i).mp (by simp [hbacklog, hi])
    rw [inv.inbound_eq i hilt, hzero]
  have hnode : d.graph.nodes[index]? = some d.graph.nodes[index] := getElem?_eq_getElem hlt
  refine ⟨d.graph.nodes[index], { d with
    inbound := ((d.graph.dependents index).foldl release (d.inbound, rest)).1
    backlog := ((d.graph.dependents index).foldl release (d.inbound, rest)).2
    remaining := d.remaining - 1 }, hnode, ?_, rfl, ?_⟩
  · simp only [next?, hbacklog, hnode]
  · refine { wellFormed := inv.wellFormed, length_inbound := ?_, inbound_eq := ?_, done_lt := ?_,
             done_nodup := ?_, backlog_nodup := ?_, mem_backlog := ?_, ordered := ?_,
             remaining_eq := ?_, not_reported := inv.not_reported }
    · rw [length_foldl_release]
      exact inv.length_inbound
    · intro i hi
      rw [getD_foldl_release _ _ htargets, inv.inbound_eq i hi, d.graph.openEdges_snoc hfresh i]
      exact Nat.add_sub_cancel ..
    · intro i hi
      rcases mem_append.mp hi with hi | hi
      · exact inv.done_lt i hi
      · rw [mem_singleton.mp hi]
        exact hlt
    · rw [nodup_append]
      refine ⟨inv.done_nodup, nodup_singleton _, ?_⟩
      intro a ha b hb hab
      rw [hab, mem_singleton.mp hb] at ha
      exact hfresh ha
    · exact nodup_foldl_release _ _ htargets hcount hrestNodup.2 hrest
    · intro i
      rw [mem_foldl_release _ _ htargets hcount]
      exact inv.mem_backlog_snoc hbacklog i
    · exact ordered_snoc inv.ordered (openEdges_eq_zero_iff.mp hfree)
    · have hremaining := inv.remaining_eq
      have hlength := inv.length_done_lt hlt hfresh
      simp only [length_append, length_singleton]
      omega

theorem Invariant.exhaust :
    ∃ (order : List Nat) (d' : Drain α), d'.Invariant (done ++ order) ∧ d'.graph = d.graph ∧
      d'.backlog = [] ∧ ∀ n, d.take (order.length + n) =
        order.filterMap (fun i => d.graph.nodes[i]?.map .node) ++ d'.take n := by
  -- every turn hands out a node, so there are as many turns left as nodes
  induction hr : d.remaining generalizing d done with
  | zero =>
    have hempty : d.backlog = [] := by
      rcases hb : d.backlog with _ | ⟨index, rest⟩
      · rfl
      · obtain ⟨hlt, hfresh, _⟩ := (inv.mem_backlog index).mp (by simp [hb])
        have hlength := inv.length_done_lt hlt hfresh
        have hremaining := inv.remaining_eq
        omega
    exact ⟨[], d, by simpa using inv, rfl, hempty, by simp⟩
  | succ k ih =>
    rcases hb : d.backlog with _ | ⟨index, rest⟩
    · exact ⟨[], d, by simpa using inv, rfl, hb, by simp⟩
    · obtain ⟨node, d1, hnode, hnext, hgraph, inv1⟩ := inv.step hb
      have hk : d1.remaining = k := by
        have h := inv.remaining_eq
        have h1 := inv1.remaining_eq
        rw [hgraph, length_append, length_singleton] at h1
        omega
      obtain ⟨order, d', inv', hgraph', hempty, htake⟩ := ih inv1 hk
      refine ⟨index :: order, d', by simpa using inv', hgraph'.trans hgraph, hempty, ?_⟩
      intro n
      have hsucc : (index :: order).length + n = (order.length + n) + 1 := by
        simp only [length_cons]
        omega
      rw [hsucc, take, hnext]
      simp only [htake n, hgraph, filterMap_cons, hnode, Option.map_some, cons_append]

end

theorem take_of_remaining_eq_zero (hbacklog : d.backlog = []) (hremaining : d.remaining = 0)
    (n : Nat) : d.take n = [] := by
  cases n with
  | zero => rfl
  | succ n => simp [take, next?, hbacklog, hremaining]

theorem take_of_remaining_pos (hbacklog : d.backlog = []) (hremaining : 0 < d.remaining)
    (hreported : d.reported = false) (n : Nat) : d.take (n + 1) = [.cycle d.waiting] := by
  obtain ⟨graph, inbound, backlog, remaining, reported⟩ := d
  simp only at hbacklog hremaining hreported
  subst hbacklog hreported
  have hafter : (⟨graph, inbound, [], remaining, true⟩ : Drain α).take n = [] := by
    cases n with
    | zero => rfl
    | succ n => simp [take, next?]
  simp [take, next?, hremaining, hafter]

theorem Invariant.exists_open_edge (inv : d.Invariant done) (hbacklog : d.backlog = []) {i : Nat}
    (hlt : i < d.graph.nodes.length) (hi : i ∉ done) :
    ∃ source, (source, i) ∈ d.graph.edges ∧ source ∉ done := by
  by_contra hnone
  simp only [not_exists, not_and, not_not] at hnone
  have hzero := openEdges_eq_zero_iff.mpr hnone
  have hin := (inv.mem_backlog i).mpr ⟨hlt, hi, hzero⟩
  rw [hbacklog] at hin
  exact not_mem_nil hin

theorem invariant_sort [DecidableEq α] {g closed : DependencyGraph α} (hg : g.WellFormed)
    (h : g.sort = .ok (d, closed)) :
    d.Invariant [] ∧ d.graph.nodes = g.nodes ∧ d.graph.edges = g.edges := by
  rw [sort_eq] at h
  split at h
  · exact nomatch h
  · simp only [Except.ok.injEq, Prod.mk.injEq] at h
    obtain ⟨rfl, rfl⟩ := h
    refine ⟨?_, rfl, rfl⟩
    refine { wellFormed := ⟨hg.nodup, hg.indexed, hg.source_lt, hg.target_lt⟩,
             length_inbound := by simp, inbound_eq := ?_, done_lt := by simp,
             done_nodup := nodup_nil, backlog_nodup := nodup_range.filter _, mem_backlog := ?_,
             ordered := by simp, remaining_eq := rfl, not_reported := rfl }
    · intro i hi
      rw [openEdges_nil]
      simp only [getD_eq_getElem?_getD, getElem?_map]
      rw [getElem?_range hi]
      rfl
    · intro i
      rw [openEdges_nil]
      simp [mem_filter, inboundCount]

end Drain

end StagedAsm
