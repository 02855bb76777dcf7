import StagedAsm.Error

/-!
# Dependency graphs

An edge from `a` to `b` says that `b` waits for `a`. Sorting closes the graph and hands out one node
after the other, each after everything it waits for; what is left waits, directly or not, for
itself. Free nodes are kept on a stack, at first with the first registered one on top. The
dependents of a node are visited from the latest edge to the earliest.
-/

namespace StagedAsm

/-- What waits for what. -/
structure DependencyGraph (α : Type) where
  nodes : List α := []
  index : List (α × Nat) := []
  edges : List (Nat × Nat) := []
  /-- Sorting closes the graph. -/
  sorted : Bool := false
  deriving Repr, Inhabited

namespace DependencyGraph

variable {α : Type} [DecidableEq α]

/-- The number of a node, which is registered if the index does not have it. -/
def register (g : DependencyGraph α) (node : α) : Nat × DependencyGraph α :=
  match g.index.lookup node with
  | some number => (number, g)
  | none =>
    let number := g.nodes.length
    (number, { g with nodes := g.nodes ++ [node], index := (node, number) :: g.index })

def inboundCount (g : DependencyGraph α) (index : Nat) : Nat :=
  (g.edges.filter fun edge => edge.2 == index).length

/-- The dependents of a node, from its latest edge to its earliest. -/
def dependents (g : DependencyGraph α) (index : Nat) : List Nat :=
  ((g.edges.filter fun edge => edge.1 == index).map Prod.snd).reverse

end DependencyGraph

/-- A node, or the nodes that wait for themselves. -/
inductive Drained (α : Type) where
  | node (a : α)
  | cycle (nodes : List α)
  deriving DecidableEq, Repr

/-- A graph that is being sorted. -/
structure Drain (α : Type) where
  graph : DependencyGraph α
  inbound : List Nat
  backlog : List Nat
  remaining : Nat
  reported : Bool := false
  deriving Repr

namespace Drain

variable {α : Type} [DecidableEq α]

/-- Takes one edge into `node` away, and frees the node if it was the last. -/
def release (state : List Nat × List Nat) (node : Nat) : List Nat × List Nat :=
  let (inbound, backlog) := state
  let count := inbound.getD node 0 - 1
  (inbound.set node count, if count = 0 then node :: backlog else backlog)

/-- The nodes that still wait, in the order of registration. -/
def waiting (d : Drain α) : List α :=
  ((d.graph.nodes.zip d.inbound).filter fun entry => entry.2 > 0).map Prod.fst

/-- Hands out the next node, or reports the cycle once. -/
def next? (d : Drain α) : Option (Drained α × Drain α) :=
  match d.backlog with
  | index :: rest =>
    match d.graph.nodes[index]? with
    | some node =>
      let (inbound, backlog) := (d.graph.dependents index).foldl release (d.inbound, rest)
      some (.node node, { d with inbound, backlog, remaining := d.remaining - 1 })
    | none => none
  | [] =>
    if d.remaining > 0 && !d.reported then some (.cycle d.waiting, { d with reported := true })
    else none

/-- The first `n` things handed out. -/
def take : Nat → Drain α → List (Drained α)
  | 0, _ => []
  | n + 1, d =>
    match d.next? with
    | some (item, d) => item :: take n d
    | none => []

/-- Everything handed out. -/
def toList (d : Drain α) : List (Drained α) := d.take (d.graph.nodes.length + 1)

end Drain

/-! ## Operations -/

abbrev GraphM (α : Type) := EStateM CompileError (DependencyGraph α)

namespace GraphM

variable {α β : Type} [DecidableEq α]

/-- The graph behind an operation, unless it is refused. -/
def result (m : GraphM α β) (g : DependencyGraph α) :
    Except CompileError (β × DependencyGraph α) :=
  match m g with
  | .ok b g => .ok (b, g)
  | .error e _ => .error e

omit [DecidableEq α] in
theorem result_eq_ok {m : GraphM α β} {g g' : DependencyGraph α} {b : β} :
    m.result g = .ok (b, g') ↔ m g = .ok b g' := by
  rw [result]
  cases m g <;> simp

omit [DecidableEq α] in
theorem map_result_eq_ok {m : GraphM α β} {g g' : DependencyGraph α} :
    (m.result g).map Prod.snd = .ok g' ↔ ∃ b, m g = .ok b g' := by
  rw [result]
  cases m g <;> simp [Except.map]

/-- A graph that was sorted is closed. -/
def ensureOpen : GraphM α Unit := do
  if (← get).sorted then throw .graphClosed

/-- Registers a node; once more has no effect. -/
def addNode (node : α) : GraphM α Unit := do
  ensureOpen
  discard <| modifyGet (·.register node)

/-- Records that `dependent` waits for `dependency`. -/
def addEdge (dependency dependent : α) : GraphM α Unit := do
  ensureOpen
  let source ← modifyGet (·.register dependency)
  let target ← modifyGet (·.register dependent)
  modify fun g => { g with edges := g.edges ++ [(source, target)] }

/-- Closes the graph and starts to sort it. -/
def sort : GraphM α (Drain α) := do
  ensureOpen
  modify fun g => { g with sorted := true }
  let graph ← get
  let indices := List.range graph.nodes.length
  return {
    graph
    inbound := indices.map graph.inboundCount
    backlog := indices.filter fun index => graph.inboundCount index == 0
    remaining := graph.nodes.length }

omit [DecidableEq α] in
theorem ensureOpen_bind (k : Unit → GraphM α β) (g : DependencyGraph α) :
    (ensureOpen >>= k) g = if g.sorted then .error .graphClosed g else k () g := by
  show (if g.sorted then throw .graphClosed else pure () : GraphM α Unit).bind k g = _
  cases g.sorted <;> rfl

end GraphM

namespace DependencyGraph

variable {α : Type} [DecidableEq α] (g : DependencyGraph α)

def addNode (node : α) : Except CompileError (DependencyGraph α) :=
  ((GraphM.addNode node).result g).map Prod.snd

def addEdge (dependency dependent : α) : Except CompileError (DependencyGraph α) :=
  ((GraphM.addEdge dependency dependent).result g).map Prod.snd

def sort : Except CompileError (Drain α × DependencyGraph α) := GraphM.sort.result g

theorem addNode_eq (node : α) :
    g.addNode node = if g.sorted then .error .graphClosed else .ok (g.register node).2 := by
  rw [addNode, GraphM.result, GraphM.addNode, GraphM.ensureOpen_bind]
  cases g.sorted <;> rfl

theorem addEdge_eq (dependency dependent : α) : g.addEdge dependency dependent =
    if g.sorted then .error .graphClosed
    else
      let (source, g) := g.register dependency
      let (target, g) := g.register dependent
      .ok { g with edges := g.edges ++ [(source, target)] } := by
  rw [addEdge, GraphM.result, GraphM.addEdge, GraphM.ensureOpen_bind]
  cases g.sorted <;> rfl

omit [DecidableEq α] in
theorem sort_eq : g.sort =
    if g.sorted then .error .graphClosed
    else
      let closed := { g with sorted := true }
      let indices := List.range g.nodes.length
      .ok ({
        graph := closed
        inbound := indices.map g.inboundCount
        backlog := indices.filter fun index => g.inboundCount index == 0
        remaining := g.nodes.length }, closed) := by
  rw [sort, GraphM.result, GraphM.sort, GraphM.ensureOpen_bind]
  cases g.sorted <;> rfl

end DependencyGraph

end StagedAsm
