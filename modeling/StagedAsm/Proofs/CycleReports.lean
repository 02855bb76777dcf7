import StagedAsm.Proofs.DependencyOrder

/-!
# What is reported of a cycle

A sort that runs out of free nodes keeps back the nodes of cycles and whatever waits for one of
them. These nodes are *stuck*. The report names them in the order in which they were first
mentioned, which `ListedBy` follows call by call.
-/

namespace StagedAsm

open List

namespace DependencyGraph

open Relation

variable {α : Type}

/-- The node waits, directly or not, for a node that waits for itself. -/
def Stuck (waits : α → α → Prop) (a : α) : Prop :=
  ∃ c, TransGen waits c c ∧ ReflTransGen waits c a

variable {g : DependencyGraph α} {a : α}

theorem mem_nodes_of_stuck (h : Stuck g.Waits a) : a ∈ g.nodes := by
  obtain ⟨c, hcycle, hreach⟩ := h
  exact mem_nodes_of_transGen_waits (hcycle.trans_left hreach)

/-- No node of an order is stuck. -/
theorem not_stuck_of_mem {waits : α → α → Prop} {order : List α} (hnodup : order.Nodup)
    (ordered : ∀ before b after, order = before ++ b :: after → ∀ a, waits a b → a ∈ before)
    (hmem : a ∈ order) : ¬ Stuck waits a := by
  rintro ⟨c, hcycle, hreach⟩
  -- the node of the cycle would stand in the order too, before itself
  obtain ⟨before, after, hsplit⟩ := append_of_mem hmem
  have hbefore := mem_before_of_transGen ordered (hcycle.trans_left hreach) before after hsplit
  have hin : c ∈ order := by
    rw [hsplit]
    exact mem_append_left _ hbefore
  exact not_transGen_self_of_mem hnodup ordered hin hcycle

theorem mem_kept_iff_stuck [DecidableEq α] {yielded : List α} (hnodup : yielded.Nodup)
    (ordered : ∀ before b after, yielded = before ++ b :: after → ∀ a, g.Waits a b → a ∈ before)
    (hwaits : ∀ b ∈ g.kept yielded, ∃ a ∈ g.kept yielded, g.Waits a b) {b : α} :
    b ∈ g.kept yielded ↔ Stuck g.Waits b := by
  constructor
  · intro hkept
    exact exists_cycle_behind hwaits hkept
  · intro hstuck
    exact mem_kept.mpr ⟨mem_nodes_of_stuck hstuck,
      fun hin => not_stuck_of_mem hnodup ordered hin hstuck⟩

/-! ## The order of registration -/

/-- In the order in which they are registered. -/
def Call.mentioned : Call α → List α
  | .node a => [a]
  | .edge dependency dependent => [dependency, dependent]

/-- All mentions of nodes in a sequence of calls. -/
def mentions (calls : List (Call α)) : List α := calls.flatMap Call.mentioned

/-- A list has each entry of another one once, in the order of their first occurrences. -/
structure ListedBy [DecidableEq α] (mentions nodes : List α) : Prop where
  mem_iff : ∀ a, a ∈ nodes ↔ a ∈ mentions
  sorted : nodes.Pairwise fun a b => mentions.idxOf a < mentions.idxOf b

namespace ListedBy

variable [DecidableEq α] {known : List α} {g g' : DependencyGraph α}

theorem sorted_append (h : ListedBy known g.nodes) (more : List α) :
    g.nodes.Pairwise fun a b => (known ++ more).idxOf a < (known ++ more).idxOf b := by
  refine h.sorted.imp_of_mem fun {a b} ha hb hlt => ?_
  rw [idxOf_append_of_mem ((h.mem_iff a).mp ha), idxOf_append_of_mem ((h.mem_iff b).mp hb)]
  exact hlt

theorem register (h : ListedBy known g.nodes) (hg : g.WellFormed) (a : α) :
    ListedBy (known ++ [a]) (g.register a).2.nodes := by
  unfold DependencyGraph.register
  cases hindex : g.index.lookup a with
  | some i =>
    have hknown : a ∈ known :=
      (h.mem_iff a).mp (mem_of_getElem? (hg.lookup_eq_some.mp hindex))
    refine ⟨fun b => ?_, h.sorted_append [a]⟩
    simp only [h.mem_iff, mem_append, mem_singleton]
    exact ⟨Or.inl, fun hb => hb.elim id fun heq => heq ▸ hknown⟩
  | none =>
    have hnew : a ∉ known := fun hin =>
      hg.lookup_eq_none hindex ((h.mem_iff a).mpr hin)
    refine ⟨fun b => by simp [h.mem_iff], ?_⟩
    refine pairwise_append.mpr ⟨h.sorted_append [a], pairwise_singleton _ _, ?_⟩
    -- every known node was mentioned before the new one
    intro b hb c hc
    have hbknown := (h.mem_iff b).mp hb
    rw [mem_singleton.mp hc, idxOf_append_of_mem hbknown, idxOf_append_of_notMem hnew]
    have hlt := idxOf_lt_length_of_mem hbknown
    omega

theorem call (h : ListedBy known g.nodes) (hg : g.WellFormed) {c : Call α}
    (hcall : g.call c = .ok g') :
    ListedBy (known ++ c.mentioned) g'.nodes := by
  cases c with
  | node a =>
    rw [DependencyGraph.call, addNode_eq] at hcall
    split at hcall
    · cases hcall
    · cases hcall
      exact h.register hg a
  | edge a b =>
    rw [DependencyGraph.call, addEdge_eq] at hcall
    split at hcall
    · cases hcall
    · cases hcall
      obtain ⟨i, g1, hregister, hg1, -⟩ := register_spec hg a
      have hfirst := h.register hg a
      have hboth := hfirst.register (hregister ▸ hg1) b
      rw [append_assoc] at hboth
      exact hboth

variable {calls : List (Call α)}

theorem build (hbuild : DependencyGraph.build calls = .ok g) :
    ListedBy (mentions calls) g.nodes := by
  refine build_induction (motive := fun calls g => ListedBy (mentions calls) g.nodes)
    ⟨fun _ => Iff.rfl, .nil⟩ ?_ hbuild
  intro earlier c g g' hg h hcall
  simpa [mentions] using h.call hg hcall

end ListedBy

/-! ## Reports -/

/-- First come the nodes that are not stuck, each after all it waits for, then one report of the
    nodes that are, in the order in which they were registered, and nothing more. -/
theorem sort_reports_cycle [DecidableEq α] (calls : List (Call α))
    (hcycle : ∃ a, TransGen (fun a b => Call.edge a b ∈ calls) a a) :
    ∃ (g : DependencyGraph α) (drain : Drain α) (closed : DependencyGraph α)
      (yielded kept : List α),
      build calls = .ok g ∧ g.sort = .ok (drain, closed) ∧
      drain.toList = yielded.map Drained.node ++ [.cycle kept] ∧
      (∀ n, drain.toList.length ≤ n → drain.take n = drain.toList) ∧
      yielded.Nodup ∧
      (∀ before b after, yielded = before ++ b :: after → ∀ a, Call.edge a b ∈ calls → a ∈ before) ∧
      (∀ a, a ∈ yielded ↔ a ∈ mentions calls ∧ ¬ Stuck (fun a b => Call.edge a b ∈ calls) a) ∧
      (∀ a, a ∈ kept ↔ Stuck (fun a b => Call.edge a b ∈ calls) a) ∧
      kept.Pairwise fun a b => (mentions calls).idxOf a < (mentions calls).idxOf b := by
  obtain ⟨g, hbuild, hg, hopen, -, hwaits⟩ := foldlM_call_spec calls wellFormed_empty rfl
  have hwaits : g.Waits = fun a b => Call.edge a b ∈ calls := by
    funext a b
    rw [hwaits, eq_false (not_waits_empty a b), false_or]
  have hlisted := ListedBy.build hbuild
  obtain ⟨drain, closed, yielded, hsort, hnodup, hmem, hordered, hpulled, htake, hall⟩ :=
    sort_drains hg hopen
  have hstuck : ∀ a, a ∈ g.kept yielded ↔ Stuck (fun a b => Call.edge a b ∈ calls) a := by
    intro a
    rw [← hwaits]
    exact mem_kept_iff_stuck hnodup hordered hpulled
  -- a node of the cycle is kept back, so there is something to report
  have hreport : Drained.report (g.kept yielded) = [.cycle (g.kept yielded)] := by
    obtain ⟨c, hc⟩ := hcycle
    have hin := (hstuck c).mpr ⟨c, hc, .refl⟩
    cases hkept : g.kept yielded with
    | nil =>
      rw [hkept] at hin
      cases hin
    | cons a rest => rfl
  rw [hreport] at htake hall
  simp only [hwaits] at hordered
  refine ⟨g, drain, closed, yielded, g.kept yielded, hbuild, hsort, hall, ?_, hnodup, hordered, ?_,
    hstuck, hlisted.sorted.filter _⟩
  · intro n hn
    rw [hall, List.length_append, List.length_map] at hn
    rw [htake n hn, hall]
  · intro a
    rw [← hstuck a, ← hlisted.mem_iff a, mem_kept]
    refine ⟨fun ha => ⟨hmem a ha, fun hkept => hkept.2 ha⟩, fun ha => ?_⟩
    by_contra hnot
    exact ha.2 ⟨ha.1, hnot⟩

def tangledCalls : List (Call Nat) :=
  [.node 9, .edge 3 2, .edge 2 3, .edge 1 2, .edge 3 4, .edge 1 5, .edge 1 5, .edge 6 6, .edge 6 6,
    .node 4]

theorem tangledCalls_drained : ((build tangledCalls).bind fun g => g.sort).map (·.1.toList) =
    .ok ([9, 1, 5].map Drained.node ++ [.cycle [3, 2, 4, 6]]) := rfl

theorem sort_reports_cycle_tangled : (∃ a, TransGen (fun a b => Call.edge a b ∈ tangledCalls) a a) ∧
    (∀ a, a ∈ [9, 1, 5] ↔
      a ∈ mentions tangledCalls ∧ ¬ Stuck (fun a b => Call.edge a b ∈ tangledCalls) a) ∧
    ∀ a, a ∈ [3, 2, 4, 6] ↔ Stuck (fun a b => Call.edge a b ∈ tangledCalls) a := by
  have hcycle : ∃ a, TransGen (fun a b => Call.edge a b ∈ tangledCalls) a a :=
    ⟨2, .tail (.single (b := 3) (by decide)) (by decide)⟩
  obtain ⟨g, drain, closed, yielded, kept, hbuild, hsort, hall, -, -, -, hyielded, hkept, -⟩ :=
    sort_reports_cycle tangledCalls hcycle
  have hdrained := tangledCalls_drained
  rw [hbuild, Except.bind, hsort, Except.map, hall] at hdrained
  obtain ⟨hnodes, hreport⟩ := List.append_inj' (Except.ok.inj hdrained) rfl
  have hnine : yielded = [9, 1, 5] :=
    List.map_injective_iff.mpr (fun _ _ => Drained.node.inj) hnodes
  have hthree : kept = [3, 2, 4, 6] := Drained.cycle.inj (List.singleton_inj.mp hreport)
  exact ⟨hcycle, hnine ▸ hyielded, hthree ▸ hkept⟩

end DependencyGraph

end StagedAsm
