import Mathlib.Data.List.Basic
import StagedAsm.Proofs.GroundedSessions

/-!
# Walking the same blocks again

The blocks of a scope can be rewound only when all of them were entered. So the blocks that an
engine entered before were the last ones, and how many they were can be told from its moves. An
engine that makes the same moves in two passes thus stands in front of the same block each time.
-/

namespace StagedAsm

open List Option Visit

/-! ## Moves -/

theorem ScopeMove.cases_rewinds (move : ScopeMove) :
    move.isExit = true ∨ move = .endPass ∨ move.rewinds = false := by
  cases move with
  | exitGlobal | exitLocal | exitBlock => exact .inl rfl
  | endPass => exact .inr (.inl rfl)
  | enterGlobal | enterLocal | enterBlock => exact .inr (.inr rfl)

namespace Visit

variable {v : Visit}

theorem opened_of_endPass (h : v.move = .endPass) (scopes : List ScopeId) :
    v.opened scopes = scopes := by
  rw [opened, h]

theorem opened_congr {w : Visit} (hmove : v.move = w.move) (hafter : v.after = w.after)
    (scopes : List ScopeId) : v.opened scopes = w.opened scopes := by
  rw [opened, opened, hmove, hafter]

end Visit

/-! ## Scopes that are not left -/

def staysInside : Nat → List ScopeMove → Bool
  | _, [] => true
  | depth, move :: rest =>
    if move.isExit then depth ≠ 0 && staysInside (depth - 1) rest
    else if move = .endPass then staysInside depth rest
    else staysInside (depth + 1) rest

/-- The root is not left. -/
def Climbs : List ScopeId → List Visit → List ScopeId → Prop
  | scopes, [], last => last = scopes
  | scopes, v :: rest, last =>
    (v.move.isExit = true → scopes ≠ [ScopeTree.root]) ∧ Climbs (v.opened scopes) rest last

def scopesLeft : Nat → List ScopeMove → Nat
  | _, [] => 0
  | 0, move :: rest =>
    if move.isExit then scopesLeft 0 rest + 1
    else if move = .endPass then scopesLeft 0 rest
    else scopesLeft 1 rest
  | depth + 1, move :: rest =>
    if move.isExit then scopesLeft depth rest
    else if move = .endPass then scopesLeft (depth + 1) rest
    else scopesLeft (depth + 2) rest

section Inside

variable {depth : Nat} {move : ScopeMove} {moves : List ScopeMove}

theorem staysInside_exit (hmove : move.isExit = true) :
    staysInside depth (move :: moves) = true ↔
      depth ≠ 0 ∧ staysInside (depth - 1) moves = true := by
  simp [staysInside, hmove]

theorem staysInside_endPass : staysInside depth (.endPass :: moves) = staysInside depth moves := by
  simp [staysInside, ScopeMove.isExit]

theorem staysInside_opens (hmove : move.rewinds = false) :
    staysInside depth (move :: moves) = staysInside (depth + 1) moves := by
  simp only [ScopeMove.rewinds, Bool.or_eq_false_iff, beq_eq_false_iff_ne] at hmove
  simp [staysInside, hmove.1, hmove.2]

theorem scopesLeft_exit (hmove : move.isExit = true) :
    scopesLeft (depth + 1) (move :: moves) = scopesLeft depth moves := by
  simp [scopesLeft, hmove]

theorem scopesLeft_endPass : scopesLeft depth (.endPass :: moves) = scopesLeft depth moves := by
  cases depth <;> simp [scopesLeft, ScopeMove.isExit]

theorem scopesLeft_opens (hmove : move.rewinds = false) :
    scopesLeft depth (move :: moves) = scopesLeft (depth + 1) moves := by
  simp only [ScopeMove.rewinds, Bool.or_eq_false_iff, beq_eq_false_iff_ne] at hmove
  cases depth <;> simp [scopesLeft, hmove.1, hmove.2]

theorem staysInside_iff : staysInside depth moves = true ↔ scopesLeft depth moves = 0 := by
  induction moves generalizing depth with
  | nil => simp [staysInside, scopesLeft]
  | cons move moves ih =>
    rcases move.cases_rewinds with hmove | rfl | hmove
    · rw [staysInside_exit hmove]
      cases depth with
      | zero => simp [scopesLeft, hmove]
      | succ depth => simpa [scopesLeft_exit hmove] using ih
    · rw [staysInside_endPass, scopesLeft_endPass, ih]
    · rw [staysInside_opens hmove, scopesLeft_opens hmove, ih]

end Inside

theorem Visit.length_opened {v : Visit} {depth outside : Nat} {moves : List ScopeMove}
    {scopes : List ScopeId} (hinside : staysInside depth (v.move :: moves) = true)
    (hlength : scopes.length = depth + outside) :
    ∃ inner, staysInside inner moves = true ∧ (v.opened scopes).length = inner + outside := by
  rcases v.move.cases_rewinds with hmove | hmove | hmove
  · obtain ⟨hne, hinside⟩ := (staysInside_exit hmove).mp hinside
    refine ⟨depth - 1, hinside, ?_⟩
    rw [opened_of_isExit hmove, length_tail]
    omega
  · rw [hmove, staysInside_endPass] at hinside
    exact ⟨depth, hinside, by rw [opened_of_endPass hmove, hlength]⟩
  · rw [staysInside_opens hmove] at hinside
    refine ⟨depth + 1, hinside, ?_⟩
    rw [opened_of_opens hmove, length_cons]
    omega

namespace Climbs

variable {first middle top base last : List ScopeId} {visits visits' : List Visit}

theorem append (h : Climbs first visits middle) (h' : Climbs middle visits' last) :
    Climbs first (visits ++ visits') last := by
  induction visits generalizing first with
  | nil =>
    cases h
    exact h'
  | cons v rest ih => exact ⟨h.1, ih h.2⟩

theorem stays (h : Climbs (top ++ base) visits last) :
    (∃ opened, last = opened ++ base.drop (scopesLeft top.length (visits.map move)) ∧
      ∀ id ∈ opened, id ∈ top ∨ ∃ v ∈ visits, v.move.rewinds = false ∧ v.after = id) ∧
      ∀ inner, base = inner ++ [ScopeTree.root] →
        scopesLeft top.length (visits.map move) ≤ inner.length := by
  induction visits generalizing top base with
  | nil => exact ⟨⟨top, h, fun _ => .inl⟩, fun _ _ => Nat.zero_le _⟩
  | cons v rest ih =>
    obtain ⟨hleft, hrest⟩ := h
    rw [map_cons]
    rcases v.move.cases_rewinds with hmove | hmove | hmove
    · rw [opened_of_isExit hmove] at hrest
      cases top with
      | nil =>
        -- the innermost of the scopes that were open before is left
        have hbelow : Climbs ([] ++ base.tail) rest last := hrest
        obtain ⟨⟨opened, hopened, hnew⟩, hroot⟩ := ih hbelow
        rw [length_nil, scopesLeft, if_pos hmove]
        refine ⟨⟨opened, by rw [hopened, length_nil, drop_tail], fun id hid => ?_⟩, ?_⟩
        · exact (hnew id hid).imp_right exists_mem_cons_of_exists
        rintro (_ | ⟨id, inner⟩) rfl
        · exact absurd rfl (hleft hmove)
        · exact Nat.succ_le_succ (hroot inner rfl)
      | cons id top =>
        obtain ⟨⟨opened, hopened, hnew⟩, hroot⟩ := ih hrest
        rw [length_cons, scopesLeft_exit hmove]
        refine ⟨⟨opened, hopened, fun id' hid => ?_⟩, hroot⟩
        exact (hnew id' hid).imp (mem_cons_of_mem id) exists_mem_cons_of_exists
    · rw [opened_of_endPass hmove] at hrest
      obtain ⟨⟨opened, hopened, hnew⟩, hroot⟩ := ih hrest
      rw [hmove, scopesLeft_endPass]
      exact ⟨⟨opened, hopened, fun id hid => (hnew id hid).imp_right exists_mem_cons_of_exists⟩,
        hroot⟩
    · rw [opened_of_opens hmove, ← cons_append] at hrest
      obtain ⟨⟨opened, hopened, hnew⟩, hroot⟩ := ih hrest
      rw [scopesLeft_opens hmove]
      refine ⟨⟨opened, hopened, fun id hid => ?_⟩, hroot⟩
      rcases hnew id hid with hid | hid
      · rcases mem_cons.mp hid with rfl | hid
        · exact .inr ⟨v, mem_cons_self, hmove, rfl⟩
        · exact .inl hid
      · exact .inr (exists_mem_cons_of_exists hid)

end Climbs

namespace Follows

variable {e : EngineId} {pass : Pass} {scopes top base last : List ScopeId} {visits : List Visit}

theorem climbs (h : Follows e pass scopes visits last) : Climbs scopes visits last := by
  induction visits generalizing scopes with
  | nil => exact h
  | cons v rest ih => exact ⟨h.1.left, ih h.2⟩

theorem returns (h : Follows e pass base visits last)
    (hinside : staysInside 0 (visits.map move) = true) (hlength : last.length = base.length) :
    last = base := by
  have hbase : Climbs ([] ++ base) visits last := h.climbs
  obtain ⟨⟨top, rfl, -⟩, -⟩ := hbase.stays
  rw [length_nil, staysInside_iff.mp hinside, drop_zero] at hlength ⊢
  rw [length_append] at hlength
  have htop : top = [] := length_eq_zero_iff.mp (by omega)
  rw [htop, nil_append]

theorem staysInside_root (h : Follows e pass (top ++ [ScopeTree.root]) visits last) :
    staysInside top.length (visits.map move) = true :=
  staysInside_iff.mpr (Nat.le_zero.mp (h.climbs.stays.2 [] rfl))

end Follows

/-! ## Blocks that are taken -/

def blocksTaken : Nat → List ScopeMove → Option Nat
  | _, [] => none
  | 0, move :: rest =>
    if move.rewinds then some 0
    else if move = .enterBlock then (blocksTaken 1 rest).map (· + 1)
    -- The scope itself is entered once more.
    else if move = .enterGlobal [] then blocksTaken 0 rest
    else blocksTaken 1 rest
  | depth + 1, move :: rest =>
    if move.isExit then blocksTaken depth rest
    else if move = .endPass then blocksTaken (depth + 1) rest
    else blocksTaken (depth + 2) rest

section Taken

variable {depth : Nat} {move : ScopeMove} {moves : List ScopeMove}

theorem blocksTaken_exit (hmove : move.isExit = true) :
    blocksTaken (depth + 1) (move :: moves) = blocksTaken depth moves := by
  simp [blocksTaken, hmove]

theorem blocksTaken_endPass :
    blocksTaken (depth + 1) (.endPass :: moves) = blocksTaken (depth + 1) moves := by
  simp [blocksTaken, ScopeMove.isExit]

theorem blocksTaken_opens (hmove : move.rewinds = false) :
    blocksTaken (depth + 1) (move :: moves) = blocksTaken (depth + 2) moves := by
  simp only [ScopeMove.rewinds, Bool.or_eq_false_iff, beq_eq_false_iff_ne] at hmove
  simp [blocksTaken, hmove.1, hmove.2]

theorem Follows.isSome_blocksTaken {e : EngineId} {pass : Pass} {top rest last : List ScopeId}
    {visits : List Visit} {v : Visit} (h : Follows e pass (top ++ rest) (visits ++ [v]) last)
    (hv : v.move = .endPass) (hlast : last.length ≤ rest.length) :
    (blocksTaken top.length ((visits ++ [v]).map Visit.move)).isSome := by
  induction visits generalizing top rest with
  | nil =>
    obtain ⟨-, rfl⟩ := h
    rw [opened_of_endPass hv, length_append] at hlast
    have htop : top = [] := length_eq_zero_iff.mp (by omega)
    rw [htop, nil_append, map_cons, hv]
    rfl
  | cons w visits ih =>
    obtain ⟨-, hrest⟩ := h
    rw [cons_append, map_cons]
    rcases w.move.cases_rewinds with hmove | hmove | hmove
    · cases top with
      | nil => simp [blocksTaken, ScopeMove.rewinds_of_isExit hmove]
      | cons id top =>
        rw [opened_of_isExit hmove] at hrest
        rw [length_cons, blocksTaken_exit hmove]
        exact ih hrest hlast
    · cases top with
      | nil => simp [blocksTaken, hmove, ScopeMove.rewinds]
      | cons id top =>
        rw [opened_of_endPass hmove] at hrest
        rw [length_cons, hmove, blocksTaken_endPass]
        exact ih hrest hlast
    · rw [opened_of_opens hmove] at hrest
      have habove : Follows e pass (w.after :: top ++ rest) (visits ++ [v]) last := hrest
      have hinner := ih habove hlast
      cases top with
      | nil =>
        have hbelow : Follows e pass ([] ++ (w.after :: rest)) (visits ++ [v]) last := hrest
        have hagain : w.move = .enterGlobal [] → _ := fun _ =>
          ih hbelow (Nat.le_succ_of_le hlast)
        rw [length_nil, blocksTaken, if_neg (by simp [hmove])]
        split
        · rw [isSome_map]
          exact hinner
        · split
          · rename_i hself
            exact hagain hself
          · exact hinner
      | cons id top =>
        rw [length_cons, blocksTaken_opens hmove]
        exact hinner

end Taken

namespace ScopeTree

variable {t t' t'' : ScopeTree} {q : ScopeId} {v : Visit} {visits : List Visit}

/-! ## Names that lead to scopes -/

variable {id scope : ScopeId} {e : EngineId} {pass : Pass} {rest : List ScopeId}
  {moves : List ScopeMove} {n : Nat} {move : ScopeMove}

theorem Ordered.le_of_subScopeAt? (h : t.Ordered) {names : List String}
    (hfound : t.subScopeAt? id names = some scope) : id.index ≤ scope.index := by
  induction names generalizing id with
  | nil =>
    cases hfound
    exact .refl
  | cons name rest ih =>
    obtain ⟨next, hnext, hrest⟩ := bind_eq_some_iff.mp hfound
    exact Nat.le_trans (Nat.le_of_lt (h.lt_of_subScope? hnext)) (ih hrest)

theorem Stride.lt_after (h : t.Stride v t') (ht : t.Grounded) (hmove : v.move.rewinds = false)
    (hagain : v.move ≠ .enterGlobal []) : v.before.index < v.after.index := by
  by_cases hblock : v.move = .enterBlock
  · obtain ⟨blocks, hwalk, -, hentered, -⟩ := h.walk_of_enterBlock ht hblock
    have hblocks : (t'.scope v.before).blocks = blocks := congrArg (·.1) hwalk
    rw [← hblocks] at hentered
    have horigin := (h.grounded ht).wellFormed.block_origin hentered
    refine (h.grounded ht).ordered ?_
    rw [parent?, horigin]
    rfl
  · have hleads := (h.walk_of_named hblock hmove).1
    cases hv : v.move with
    | enterGlobal names =>
      rw [hv] at hleads hagain
      cases names with
      | nil => exact absurd rfl hagain
      | cons name rest =>
        obtain ⟨next, hnext, hrest⟩ := bind_eq_some_iff.mp hleads
        exact Nat.lt_of_lt_of_le (ht.ordered.lt_of_subScope? hnext)
          (ht.ordered.le_of_subScopeAt? hrest)
    | enterLocal name =>
      rw [hv] at hleads
      refine ht.ordered ?_
      rw [parent?, (find?_eq_some hleads).2]
      rfl
    | enterBlock => exact absurd hv hblock
    | _ =>
      rw [hv] at hmove
      cases hmove

theorem Stride.after_of_again (h : t.Stride v t') (hagain : v.move = .enterGlobal []) :
    v.after = v.before := by
  have hleads := (h.walk_of_named (by simp [hagain]) (by rw [hagain]; rfl)).1
  rw [hagain] at hleads
  exact (Option.some.inj hleads).symm

theorem Stride.le_after (h : t.Stride v t') (ht : t.Grounded) (hmove : v.move.rewinds = false) :
    v.before.index ≤ v.after.index := by
  by_cases hagain : v.move = .enterGlobal []
  · exact Nat.le_of_eq (by rw [h.after_of_again hagain])
  · exact Nat.le_of_lt (h.lt_after ht hmove hagain)

/-! ## Blocks that are rewound -/

def Rewinding (q : ScopeId) (scopes : List ScopeId) (moves : List ScopeMove) (n : Nat) : Prop :=
  ∃ top rest, scopes = top ++ rest ∧ q = rest.head?.getD root ∧
    (∀ id ∈ top, q.index < id.index) ∧ blocksTaken top.length moves = some n

theorem Stride.rewinding_here (h : t.Stride v t') (ht : t.Grounded) (hv : v.Follows e pass rest)
    (hq : q = rest.head?.getD root) (htaken : blocksTaken 0 (v.move :: moves) = some n) :
    ((t'.scope q).canGrow = false ∧ (t.scope q).cursor + n = (t'.scope q).blocks.length) ∨
      ∃ k, Rewinding q (v.opened rest) moves k ∧
        (t'.scope q).cursor + k = (t.scope q).cursor + n := by
  have hbefore : v.before = q := hv.before.trans hq.symm
  have hcursor := h.cursor (p := q) ht
  rw [turn, if_pos hbefore] at hcursor
  rw [blocksTaken] at htaken
  split at htaken
  · rename_i hmove
    cases htaken
    obtain ⟨hall, hwalk⟩ := h.walk_of_rewind hmove
    simp only [Scope.walk, Prod.mk.injEq] at hwalk
    rw [hbefore] at hall hwalk
    exact .inl ⟨hwalk.2.2, by rw [hwalk.1]; exact hall⟩
  · rename_i hmove
    have hopens : v.move.rewinds = false := by simpa using hmove
    have hyounger : v.move ≠ .enterGlobal [] → ∀ id ∈ [v.after], q.index < id.index := by
      intro hagain id hid
      rw [mem_singleton.mp hid, ← hbefore]
      exact h.lt_after ht hopens hagain
    rw [opened_of_opens hopens]
    split at htaken
    · rename_i hblock
      obtain ⟨k, hk, rfl⟩ := map_eq_some_iff.mp htaken
      rw [if_pos hblock] at hcursor
      exact .inr ⟨k, ⟨[v.after], rest, rfl, hq, hyounger (by simp [hblock]), hk⟩, by omega⟩
    · rename_i hblock
      rw [if_neg hblock, if_neg hmove] at hcursor
      refine .inr ⟨n, ?_, by rw [hcursor]⟩
      split at htaken
      · rename_i hagain
        have hafter := (h.after_of_again hagain).trans hbefore
        exact ⟨[], v.after :: rest, rfl, hafter.symm, forall_mem_nil _, htaken⟩
      · rename_i hagain
        exact ⟨[v.after], rest, rfl, hq, hyounger hagain, htaken⟩

/-- A move inside of the scope leaves its blocks alone. -/
theorem Stride.rewinding_inside (h : t.Stride v t') (ht : t.Grounded) {top : List ScopeId}
    (hv : v.Follows e pass (id :: top ++ rest)) (hq : q = rest.head?.getD root)
    (htop : ∀ other ∈ id :: top, q.index < other.index)
    (htaken : blocksTaken (top.length + 1) (v.move :: moves) = some n) :
    Rewinding q (v.opened (id :: top ++ rest)) moves n ∧
      (t'.scope q).cursor = (t.scope q).cursor := by
  have hbefore : v.before = id := hv.before
  have hid := htop id mem_cons_self
  have hne : q ≠ v.before := by
    rintro rfl
    rw [hbefore] at hid
    exact Nat.lt_irrefl _ hid
  refine ⟨?_, congrArg (·.2.1) (h.walk_of_ne hne)⟩
  rcases v.move.cases_rewinds with hmove | hmove | hmove
  · rw [blocksTaken_exit hmove] at htaken
    rw [opened_of_isExit hmove]
    exact ⟨top, rest, rfl, hq, fun other hother => htop other (mem_cons_of_mem _ hother), htaken⟩
  · rw [hmove, blocksTaken_endPass] at htaken
    rw [opened_of_endPass hmove]
    exact ⟨id :: top, rest, rfl, hq, htop, htaken⟩
  · rw [blocksTaken_opens hmove] at htaken
    rw [opened_of_opens hmove]
    refine ⟨v.after :: id :: top, rest, rfl, hq, fun other hother => ?_, htaken⟩
    rcases mem_cons.mp hother with rfl | hother
    · have hle := h.le_after ht hmove
      rw [hbefore] at hle
      exact Nat.lt_of_lt_of_le hid hle
    · exact htop other hother

theorem Strides.rewound (h : t.Strides visits t') (ht : t.Grounded) {scopes last : List ScopeId}
    (hfollows : Follows e pass scopes visits last)
    (hrewinding : Rewinding q scopes (visits.map Visit.move) n) :
    (t'.scope q).canGrow = false ∧ (t.scope q).cursor + n = (t'.scope q).blocks.length := by
  induction h generalizing scopes n with
  | nil t =>
    obtain ⟨top, rest, -, -, -, htaken⟩ := hrewinding
    cases htaken
  | steady h hrest ih =>
    rw [← h.cursor]
    exact ih (ht.steady h) hfollows hrewinding
  | @stride t t1 t' v visits h hrest ih =>
    obtain ⟨hv, hfollows⟩ := hfollows
    obtain ⟨top, rest, rfl, hq, htop, htaken⟩ := hrewinding
    cases top with
    | nil =>
      rcases h.rewinding_here ht hv hq htaken with ⟨hfixed, hall⟩ | ⟨k, hrewinding, hcursor⟩
      · -- From then on the blocks stay as they are.
        obtain ⟨hfixed', hblocks⟩ := (hrest.blocks (h.grounded ht) q).2 hfixed
        rw [hblocks]
        exact ⟨hfixed', hall⟩
      · rw [← hcursor]
        exact ih (h.grounded ht) hfollows hrewinding
    | cons id top =>
      obtain ⟨hrewinding, hcursor⟩ := h.rewinding_inside ht hv hq htop htaken
      rw [← hcursor]
      exact ih (h.grounded ht) hfollows hrewinding

/-! ## Names lead to the same scopes -/

theorem Leads.mono (h : t.Leads id move scope) (hsize : t.size ≤ t'.size)
    (hplace : ∀ {id : ScopeId}, id.index < t.size → (t'.scope id).origin = (t.scope id).origin) :
    t'.Leads id move scope := by
  cases move with
  | enterGlobal names =>
    induction names generalizing id with
    | nil => exact h
    | cons name rest ih =>
      obtain ⟨next, hnext, hrest⟩ := bind_eq_some_iff.mp h
      exact bind_eq_some_iff.mpr ⟨next, find?_mono hsize hplace hnext, ih hrest⟩
  | enterLocal name => exact find?_mono hsize hplace h
  | _ => exact h.elim

theorem Leads.unique {other : ScopeId} (h : t.Leads id move scope) (h' : t.Leads id move other) :
    scope = other := by
  cases move with
  | enterGlobal names => exact Option.some.inj (h.symm.trans h')
  | enterLocal name => exact Option.some.inj (h.symm.trans h')
  | _ => exact h.elim

theorem Steady.origin (h : t.Steady t') (hid : id.index < t.size) :
    (t'.scope id).origin = (t.scope id).origin :=
  congrArg Prod.fst (h.place hid)

theorem Strides.leads (h : t.Strides visits t') (hleads : t.Leads id move scope) :
    t'.Leads id move scope := by
  induction h with
  | nil t => exact hleads
  | steady h hrest ih => exact ih (hleads.mono h.size_le h.origin)
  | stride h hrest ih => exact ih (hleads.mono h.keeps.size h.keeps.origin)

theorem Strides.entered (h : t.Strides (v :: visits) t') (hblock : v.move ≠ .enterBlock)
    (hmove : v.move.rewinds = false) : t'.Leads v.before v.move v.after := by
  generalize hall : v :: visits = all at h
  induction h with
  | nil t => cases hall
  | steady h hrest ih => exact ih hall
  | stride h hrest ih =>
    cases hall
    obtain ⟨hleads, rfl⟩ := h.walk_of_named hblock hmove
    exact hrest.leads (hleads.mono .refl fun _ => rfl)

theorem Strides.of_cons (h : t.Strides (v :: visits) t'') :
    ∃ t', t.Strides [v] t' ∧ t'.Strides visits t'' := by
  generalize hall : v :: visits = all at h
  induction h with
  | nil t => cases hall
  | steady h hrest ih =>
    obtain ⟨t', hfirst, hlater⟩ := ih hall
    exact ⟨t', .steady h hfirst, hlater⟩
  | stride h hrest ih =>
    cases hall
    exact ⟨_, .stride h (.nil _), hrest⟩

/-! ## The same moves -/

section Replay

variable {e : EngineId} {first second : Pass} {scopes last last' : List ScopeId}
  {between visits' : List Visit} {a b : Visit} {t1 t2 t3 : ScopeTree}

variable {w : Visit}

section Replay

variable (ht : t.Grounded) (h : t.Strides (v :: visits ++ [a]) t1)
  (hbetween : t1.Strides between t2) (h' : t2.Strides (w :: visits' ++ [b]) t3)
  (hfollows : Follows e first scopes (v :: visits ++ [a]) last)
  (hfollows' : Follows e second scopes (w :: visits' ++ [b]) last') (ha : a.move = .endPass)
  (hlast : last.length ≤ scopes.length)
  (hmoves : (v :: visits ++ [a]).map Visit.move = (w :: visits' ++ [b]).map Visit.move)

include ht h hbetween h' hfollows hfollows' ha hlast hmoves

theorem Strides.block_eq (hblock : v.move = .enterBlock) : v.after = w.after := by
  have ht1 := h.grounded ht
  have hmove : v.move = w.move := (List.cons.inj hmoves).1
  have hbefore : w.before = v.before := hfollows'.1.before.trans hfollows.1.before.symm
  have hbase : Follows e first ([] ++ scopes) (v :: visits ++ [a]) last := hfollows
  obtain ⟨n, htaken⟩ := isSome_iff_exists.mp (hbase.isSome_blocksTaken ha hlast)
  obtain ⟨hfixed, hcount⟩ :=
    h.rewound ht hfollows ⟨[], scopes, rfl, hfollows.1.before, forall_mem_nil _, htaken⟩
  rw [hmoves] at htaken
  obtain ⟨-, hcount'⟩ := h'.rewound (hbetween.grounded ht1) hfollows'
    ⟨[], scopes, rfl, hfollows'.1.before, forall_mem_nil _, htaken⟩
  have hfirst : t.Strides ([] ++ v :: (visits ++ [a])) t1 := h
  have hfirst' : t2.Strides ([] ++ w :: (visits' ++ [b])) t3 := h'
  have hentered : (t1.scope v.before).blocks[(t.scope v.before).cursor]? = some v.after :=
    hfirst.enteredBlock ht hblock
  have hentered' : (t3.scope w.before).blocks[(t2.scope w.before).cursor]? = some w.after :=
    hfirst'.enteredBlock (hbetween.grounded ht1) (hmove ▸ hblock)
  -- No block was added after the first pass.
  have hblocks := (((hbetween.append h').blocks ht1 v.before).2 hfixed).2
  rw [hbefore, hblocks] at hcount' hentered'
  have hcursor : (t2.scope v.before).cursor = (t.scope v.before).cursor := by omega
  rw [hcursor, hentered] at hentered'
  exact Option.some.inj hentered'

theorem Strides.after_eq : v.after = w.after := by
  have hmove : v.move = w.move := (List.cons.inj hmoves).1
  have hbefore : w.before = v.before := hfollows'.1.before.trans hfollows.1.before.symm
  rcases v.move.cases_rewinds with hexit | hend | hopens
  · rw [hfollows.1.after, hfollows'.1.after, opened_of_isExit hexit,
      opened_of_isExit (hmove ▸ hexit)]
  · rw [hfollows.1.after, hfollows'.1.after, opened_of_endPass hend,
      opened_of_endPass (hmove ▸ hend)]
  · by_cases hblock : v.move = .enterBlock
    · exact h.block_eq ht hbetween h' hfollows hfollows' ha hlast hmoves hblock
    · have hentered := (hbetween.append h').leads (h.entered hblock hopens)
      have hentered' := h'.entered (hmove ▸ hblock) (hmove ▸ hopens)
      rw [hbefore, ← hmove] at hentered'
      exact hentered.unique hentered'

end Replay

theorem Strides.replayed {depth : Nat} (ht : t.Grounded) (h : t.Strides (visits ++ [a]) t1)
    (hbetween : t1.Strides between t2) (h' : t2.Strides (visits' ++ [b]) t3)
    (hfollows : Follows e first scopes (visits ++ [a]) last)
    (hfollows' : Follows e second scopes (visits' ++ [b]) last') (ha : a.move = .endPass)
    (hlast : scopes.length = depth + last.length)
    (hinside : staysInside depth ((visits ++ [a]).map Visit.move) = true)
    (hmoves : (visits ++ [a]).map Visit.move = (visits' ++ [b]).map Visit.move) :
    (visits ++ [a]).map Visit.after = (visits' ++ [b]).map Visit.after := by
  induction visits generalizing t t2 visits' between scopes depth with
  | nil =>
    cases visits' with
    | nil =>
      have hmove : a.move = b.move := (List.cons.inj hmoves).1
      simp only [nil_append, map_cons, map_nil, List.cons.injEq, and_true]
      rw [hfollows.1.after, hfollows'.1.after, opened_of_endPass ha,
        opened_of_endPass (hmove ▸ ha)]
    | cons w visits' => simp at hmoves
  | cons v visits ih =>
    cases visits' with
    | nil => simp at hmoves
    | cons w visits' =>
      have hmove : v.move = w.move := (List.cons.inj hmoves).1
      have hafter := h.after_eq ht hbetween h' hfollows hfollows' ha (by omega) hmoves
      obtain ⟨inner, hinner, hlength⟩ := length_opened hinside hlast
      obtain ⟨tv, hfirst, hlater⟩ := h.of_cons
      obtain ⟨tw, hfirst', hlater'⟩ := h'.of_cons
      have hrest' := hfollows'.2
      rw [← opened_congr hmove hafter] at hrest'
      have hreplayed := ih (hfirst.grounded ht) hlater (hbetween.append hfirst') hlater' hfollows.2
        hrest' hlength hinner (List.cons.inj hmoves).2
      simp only [cons_append, map_cons, hafter]
      exact congrArg _ hreplayed

end Replay

end ScopeTree

end StagedAsm
