import StagedAsm.Proofs.ScopeForest

/-!
# Blocks that were rewound

Once the blocks of a scope were rewound their list is fixed. It is walked from its beginning, and
can be rewound again only at its end, so in between every block was entered once, in order.
-/

namespace StagedAsm

open ScopeTree

/-! ## Commands that walk no blocks -/

def ScopeTree.Unwalked (t t' : ScopeTree) : Prop := ∀ id, (t'.scope id).walk = (t.scope id).walk

namespace ScopeTree.Unwalked

variable {t t' : ScopeTree} {id : ScopeId}

instance : IsPreorder ScopeTree Unwalked where
  refl _ _ := rfl
  trans _ _ _ h h' id := (h' id).trans (h id)

theorem of_within (h : t.Within id t') : t.Unwalked t' := h.walk_eq

theorem addDetached (type : Option TypeSymbol) : Moves Unwalked (addDetached type) := by
  intro t other
  have hsteady : t.Steady (leaves (ScopeTree.addDetached type) t) := steady_push rfl rfl
  exact hsteady.walk other

theorem replacePlaceholder (id : ScopeId) (name : String) (symbol : Symbol) :
    Moves Unwalked (replacePlaceholder id name symbol) :=
  .look_bind fun t => by
    split
    · exact refl_of Unwalked t
    · exact (steady_modifyScope (f := fun s => { s with members := s.members.set name symbol })
        rfl rfl).walk
    · exact refl_of Unwalked t

end ScopeTree.Unwalked

def KeepsBlocks (s s' : Session) : Prop := s.tree.Unwalked s'.tree

namespace TreeCommand

/-- The command walks the blocks of the scope it is for. -/
def walks : TreeCommand → Bool
  | nextBlock => true
  | rewindBlocks => true
  | _ => false

open ScopeTree in
theorem keepsBlocks (id : ScopeId) {command : TreeCommand} (hwalks : command.walks = false) :
    Moves KeepsBlocks (command.run id) := by
  have hwithin : ∀ {α : Type} {m : TreeM α}, Moves (Within id) m → Moves Unwalked m :=
    fun h => h.mono fun _ _ => .of_within
  refine command.moves_run id fun h => ?_
  cases h with
  | addGlobal => exact hwithin (within_addGlobal id _ _)
  | getOrAddGlobal => exact hwithin fun _ => within_getOrAddGlobal_of _ .here
  | addDetached => exact .addDetached _
  | addFunction => exact hwithin (within_addFunction id _)
  | nextBlock => cases hwalks
  | rewindBlocks => cases hwalks
  | declare => exact hwithin (within_declare id _ _)
  | declarePlaceholder => exact hwithin (within_declare id _ _)
  | replacePlaceholder => exact .replacePlaceholder id _ _
  | declareVariable => exact hwithin (within_declareVariable id _ _)
  | declareExisting => exact hwithin (within_declareExisting id _ _ _)
  | allocate => exact hwithin (within_allocate id _)
  | frameOf => exact hwithin (within_frameOf id)
  | updateFrame => exact fun _ => leaves_updateFrame (fun _ _ => rfl) _

/-! ## Commands that do -/

/-- The block that a command entered, by its answer. -/
def entered? (id : ScopeId) :
    (ScopeId × TreeCommand) × Except CompileError Observation × Nat → Option ScopeId
  | ((scope, .nextBlock), .ok (.scope block), _) => if scope = id then some block else none
  | _ => none

def rewound (id : ScopeId) : (ScopeId × TreeCommand) × Except CompileError Observation × Nat → Bool
  | ((scope, .rewindBlocks), .ok _, _) => scope = id
  | _ => false

variable {s s' : Session}

theorem leaves_of_walk {α : Type} {m : TreeM α} {f : α → Observation}
    (h : (∃ fault, m s.tree = .error fault s.tree) ∨ ∃ a t, m s.tree = .ok a t) {fault : Fault}
    (hrun : (onTree m >>= fun a => pure (f a)) s = .error fault s') : s' = s := by
  rcases h with ⟨fault', herror⟩ | ⟨a, t, hok⟩
  · simp only [bind, EStateM.bind, onTree, herror] at hrun
    cases hrun
    rfl
  · simp only [bind, EStateM.bind, onTree, hok] at hrun
    cases hrun

theorem run_cases (id : ScopeId) {scope : ScopeId} {command : TreeCommand}
    {outcome : Except CompileError Observation} (h : attempt (command.run scope) s = .ok outcome s')
    (count : Nat) :
    (entered? id ((scope, command), outcome, count) = none ∧
      rewound id ((scope, command), outcome, count) = false ∧
      (s'.tree.scope id).walk = (s.tree.scope id).walk) ∨
    (∃ block, entered? id ((scope, command), outcome, count) = some block ∧
      rewound id ((scope, command), outcome, count) = false ∧
      ScopeTree.nextBlock id s.tree = .ok block s'.tree) ∨
    (entered? id ((scope, command), outcome, count) = none ∧
      rewound id ((scope, command), outcome, count) = true ∧
      ScopeTree.rewindBlocks id s.tree = .ok () s'.tree) := by
  by_cases hwalks : command.walks = false
  · have hkeeps : KeepsBlocks s s' := by
      have hleaves := keepsBlocks scope hwalks s
      rwa [← leaves_attempt, leaves_of_ok h] at hleaves
    refine .inl ⟨?_, ?_, hkeeps id⟩
    · cases command <;> first | rfl | cases hwalks
    · cases command <;> first | rfl | cases hwalks
  · cases command with
    | nextBlock =>
      rcases attempt_eq_ok h with ⟨answer, rfl, hrun⟩ | ⟨e, rfl, hrun⟩
      · obtain ⟨block, s1, hnext, hanswer⟩ := bind_eq_ok.mp hrun
        obtain ⟨tree, hblock, rfl⟩ := onTree_eq_ok.mp hnext
        cases hanswer
        by_cases hscope : scope = id
        · subst hscope
          exact .inr (.inl ⟨block, if_pos rfl, rfl, hblock⟩)
        · exact .inl ⟨if_neg hscope, rfl, nextBlock_walk_of_ne hblock (Ne.symm hscope)⟩
      · have hsame := leaves_of_walk (nextBlock_cases scope s.tree) hrun
        rw [hsame]
        exact .inl ⟨rfl, rfl, rfl⟩
    | rewindBlocks =>
      have hcases : (∃ fault, ScopeTree.rewindBlocks scope s.tree = .error fault s.tree) ∨
          ∃ a t, ScopeTree.rewindBlocks scope s.tree = .ok a t := by
        rcases rewindBlocks_cases scope s.tree with herror | ⟨t, hok⟩
        · exact .inl herror
        · exact .inr ⟨(), t, hok⟩
      rcases attempt_eq_ok h with ⟨answer, rfl, hrun⟩ | ⟨e, rfl, hrun⟩
      · obtain ⟨_, s1, hrewind, hanswer⟩ := bind_eq_ok.mp hrun
        obtain ⟨tree, hfirst, rfl⟩ := onTree_eq_ok.mp hrewind
        cases hanswer
        by_cases hscope : scope = id
        · subst hscope
          exact .inr (.inr ⟨rfl, decide_eq_true rfl, hfirst⟩)
        · exact .inl ⟨rfl, decide_eq_false hscope,
            rewindBlocks_walk_of_ne hfirst (Ne.symm hscope)⟩
      · have hsame := leaves_of_walk (f := fun _ => .nothing) hcases hrun
        rw [hsame]
        exact .inl ⟨rfl, rfl, rfl⟩
    | _ => exact absurd rfl hwalks

end TreeCommand

/-! ## Scripts -/

variable {answers : List (Except CompileError Observation × Nat)} {id : ScopeId} {s s' : Session}
  {commands : List (ScopeId × TreeCommand)}

theorem runTreeScript_cons_eq_ok {command : TreeCommand} {rest : List (ScopeId × TreeCommand)}
    (h : runTreeScript ((id, command) :: rest) s = .ok answers s') :
    ∃ outcome s1 more, attempt (command.run id) s = .ok outcome s1 ∧
      runTreeScript rest s1 = .ok more s' ∧ answers = (outcome, s1.tree.size) :: more := by
  obtain ⟨outcome, s1, hrun, h1⟩ := bind_eq_ok.mp h
  obtain ⟨_, s2, hlook, h2⟩ := bind_eq_ok.mp h1
  cases hlook
  obtain ⟨more, s3, hrest, h3⟩ := bind_eq_ok.mp h2
  cases h3
  exact ⟨outcome, s1, more, hrun, hrest, rfl⟩

/-- The blocks of a scope that a script entered, in order. -/
def enteredBlocks (id : ScopeId) (commands : List (ScopeId × TreeCommand))
    (answers : List (Except CompileError Observation × Nat)) : List ScopeId :=
  (commands.zip answers).filterMap (TreeCommand.entered? id)

def wasRewound (id : ScopeId) (commands : List (ScopeId × TreeCommand))
    (answers : List (Except CompileError Observation × Nat)) : Bool :=
  (commands.zip answers).any (TreeCommand.rewound id)

theorem runTreeScript_walk (hs : s.tree.Arranged) (hid : id.index < s.tree.size)
    (hfixed : (s.tree.scope id).canGrow = false) (hinside : staysInTree commands s = true)
    (h : runTreeScript commands s = .ok answers s') :
    (s'.tree.scope id).blocks = (s.tree.scope id).blocks ∧
    (wasRewound id commands answers = false → enteredBlocks id commands answers ++
          (s.tree.scope id).blocks.drop (s'.tree.scope id).cursor =
        (s.tree.scope id).blocks.drop (s.tree.scope id).cursor) := by
  induction commands generalizing s answers with
  | nil =>
    cases h
    exact ⟨rfl, fun _ => rfl⟩
  | cons entry rest ih =>
    obtain ⟨scope, command⟩ := entry
    obtain ⟨outcome, s1, more, hrun, hrest, rfl⟩ := runTreeScript_cons_eq_ok h
    simp only [staysInTree, Bool.and_eq_true, decide_eq_true_eq] at hinside
    have hleft : leaves (command.run scope) s = s1 := by rw [← leaves_attempt, leaves_of_ok hrun]
    rw [hleft] at hinside
    obtain ⟨hs1, hsize⟩ := KeepsArranged.run scope command s hs hinside.1
    rw [hleft] at hs1 hsize
    have hid1 := lt_of_lt_of_le hid hsize
    have hentered : enteredBlocks id ((scope, command) :: rest) ((outcome, s1.tree.size) :: more) =
        (TreeCommand.entered? id ((scope, command), outcome, s1.tree.size)).toList ++
          enteredBlocks id rest more := by
      simp only [enteredBlocks, List.zip_cons_cons, List.filterMap_cons]
      cases TreeCommand.entered? id ((scope, command), outcome, s1.tree.size) <;> rfl
    have hrewound : wasRewound id ((scope, command) :: rest) ((outcome, s1.tree.size) :: more) =
        (TreeCommand.rewound id ((scope, command), outcome, s1.tree.size) ||
          wasRewound id rest more) := rfl
    rw [hentered, hrewound]
    rcases TreeCommand.run_cases id hrun s1.tree.size with
      ⟨hnone, hnot, hwalk⟩ | ⟨block, hsome, hnot, hnext⟩ | ⟨hnone, hyes, hrewind⟩
    · simp only [Scope.walk, Prod.mk.injEq] at hwalk
      obtain ⟨hblocks, hmore⟩ := ih hs1 hid1 (hwalk.2.2.trans hfixed) hinside.2 hrest
      rw [hwalk.1] at hblocks hmore
      rw [hwalk.2.1] at hmore
      rw [hnone, hnot]
      exact ⟨hblocks, hmore⟩
    · -- the next block is the first of those that were left
      obtain ⟨blocks, hwalk, -, hblock, hsame⟩ :=
        nextBlock_walk hid (hs.cursor_le id) hnext
      rw [hsame hfixed] at hwalk hblock
      simp only [Scope.walk, Prod.mk.injEq] at hwalk
      obtain ⟨hblocks, hmore⟩ := ih hs1 hid1 (hwalk.2.2.trans hfixed) hinside.2 hrest
      rw [hwalk.1] at hblocks hmore
      rw [hwalk.2.1] at hmore
      rw [hsome, hnot]
      refine ⟨hblocks, fun hkept => ?_⟩
      obtain ⟨hlt, rfl⟩ := List.getElem?_eq_some_iff.mp hblock
      rw [List.drop_eq_getElem_cons hlt, ← hmore hkept]
      rfl
    · obtain ⟨-, hwalk⟩ := rewindBlocks_walk hid hrewind
      simp only [Scope.walk, Prod.mk.injEq] at hwalk
      obtain ⟨hblocks, -⟩ := ih hs1 hid1 hwalk.2.2 hinside.2 hrest
      rw [hyes]
      exact ⟨hblocks.trans hwalk.1, fun hkept => by cases hkept⟩

theorem enteredBlocks_of_rewound {t : ScopeTree} (hs : s.tree.Arranged)
    (hid : id.index < s.tree.size) (hfirst : ScopeTree.rewindBlocks id s.tree = .ok () t)
    (hinside : staysInTree commands { s with tree := t } = true)
    (h : runTreeScript commands { s with tree := t } = .ok answers s') :
    (s'.tree.scope id).blocks = (s.tree.scope id).blocks ∧
    (wasRewound id commands answers = false →
      ∀ {t' : ScopeTree}, ScopeTree.rewindBlocks id s'.tree = .ok () t' →
      enteredBlocks id commands answers = (s.tree.scope id).blocks ∧
      (enteredBlocks id commands answers).Pairwise (·.index < ·.index)) := by
  obtain ⟨ht, hsize⟩ := (arranged_rewindBlocks id).of_ok hfirst hs hid
  obtain ⟨-, hwalk⟩ := rewindBlocks_walk hid hfirst
  simp only [Scope.walk, Prod.mk.injEq] at hwalk
  obtain ⟨hblocks, hentered⟩ := runTreeScript_walk (s := { s with tree := t }) ht
    (lt_of_lt_of_le hid hsize) hwalk.2.2 hinside h
  have hblocks' : (s'.tree.scope id).blocks = (s.tree.scope id).blocks := hblocks.trans hwalk.1
  refine ⟨hblocks', fun hkept _ hlast => ?_⟩
  obtain ⟨hall, -⟩ := rewindBlocks_eq_ok.mp hlast
  have hwhole := hentered hkept
  dsimp only at hwhole
  rw [hall, hwalk.1, hwalk.2.1, hblocks', List.drop_length, List.append_nil,
    List.drop_zero] at hwhole
  rw [hwhole]
  exact ⟨rfl, hs.sorted id⟩

end StagedAsm
