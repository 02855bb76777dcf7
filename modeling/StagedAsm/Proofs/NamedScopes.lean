import StagedAsm.Proofs.BlockRuns
import StagedAsm.Proofs.Outcomes

/-!
# Named scopes

A named scope is entered under its name in every pass, and a plain name is looked up in the open
scopes, innermost first. Both see of the tree only which scope hangs where and what each binds.
-/

namespace StagedAsm

open ScopeTree

namespace ScopeTree

variable {t t' : ScopeTree} {id : ScopeId} {origin : ScopeOrigin}

/-! ## Trees with the same names -/

/-- A global scope without blocks. -/
structure IsPlain (t : ScopeTree) (id : ScopeId) : Prop where
  lt : id.index < t.size
  kind : (t.scope id).kind = .global
  blocks : (t.scope id).blocks = []
  cursor : (t.scope id).cursor = 0

theorem IsPlain.isLocal (h : t.IsPlain id) : t.isLocal id = false := by
  rw [ScopeTree.isLocal, Scope.isLocal, h.kind]
  rfl

theorem IsPlain.congr (h : t.IsPlain id) (hsize : t.size ≤ t'.size)
    (hscope : t'.scope id = t.scope id ∨
      ∃ members, t'.scope id = { t.scope id with members }) : t'.IsPlain id := by
  have hlt := Nat.lt_of_lt_of_le h.lt hsize
  rcases hscope with heq | ⟨members, heq⟩
  · exact ⟨hlt, by rw [heq, h.kind], by rw [heq, h.blocks], by rw [heq, h.cursor]⟩
  · exact ⟨hlt, by rw [heq, ← h.kind], by rw [heq, ← h.blocks], by rw [heq, ← h.cursor]⟩

/-- The trees differ in nothing but that blocks were rewound. -/
structure SameNames (t t' : ScopeTree) : Prop where
  size : t'.size = t.size
  scope : ∀ id, t'.scope id = t.scope id ∨
    t'.scope id = { t.scope id with cursor := 0, canGrow := false }

namespace SameNames

theorem refl (t : ScopeTree) : t.SameNames t := ⟨rfl, fun _ => .inl rfl⟩

theorem member? (h : t.SameNames t') (id : ScopeId) (name : String) :
    t'.member? id name = t.member? id name := by
  rcases h.scope id with heq | heq
  all_goals
    rw [ScopeTree.member?, heq]
    rfl

theorem associatedType (h : t.SameNames t') (id : ScopeId) :
    (t'.scope id).associatedType = (t.scope id).associatedType := by
  rcases h.scope id with heq | heq
  all_goals rw [heq]

theorem subScope? (h : t.SameNames t') (parent : ScopeId) (name : String) :
    t'.subScope? parent name = t.subScope? parent name := by
  refine find?_congr h.size (fun id => ?_) _
  rcases h.scope id with heq | heq
  all_goals rw [heq]

theorem isPlain (h : t.SameNames t') (hid : t.IsPlain id) : t'.IsPlain id := by
  have hlt : id.index < t'.size := by
    rw [h.size]
    exact hid.lt
  rcases h.scope id with heq | heq
  · exact ⟨hlt, by rw [heq, hid.kind], by rw [heq, hid.blocks], by rw [heq, hid.cursor]⟩
  · exact ⟨hlt, by rw [heq, ← hid.kind], by rw [heq, ← hid.blocks], by rw [heq]⟩

theorem visited (h : t.SameNames t') (visit : Visit) : t.SameNames (t'.visited visit) :=
  ⟨h.size, h.scope⟩

end SameNames

theorem sameNames_rewound (t : ScopeTree) (id : ScopeId) : t.SameNames (t.rewound id) := by
  refine ⟨size_rewound t id, fun other => ?_⟩
  rw [rewound, scope_modifyScope]
  split
  · rename_i heq
    rw [heq.1]
    exact .inr rfl
  · exact .inl rfl

end ScopeTree

/-! ## Binding names in a scope -/

/-- One scope may bind other names or bind them to something else. -/
structure ScopeTree.Changes (scope : ScopeId) (t t' : ScopeTree) : Prop where
  size : t'.size = t.size
  others : ∀ id, id ≠ scope → t'.scope id = t.scope id
  current : ∃ members, t'.scope scope = { t.scope scope with members }

/-- Names were bound in one scope. -/
structure ScopeTree.Binds (scope : ScopeId) (t t' : ScopeTree) : Prop extends
    t.Changes scope t' where
  keeps : ∀ name symbol, t.member? scope name = some symbol → t'.member? scope name = some symbol

namespace ScopeTree

variable {t t' t'' : ScopeTree} {scope : ScopeId} {name : String} {symbol : Symbol}

theorem Changes.refl (scope : ScopeId) (t : ScopeTree) : t.Changes scope t :=
  ⟨rfl, fun _ _ => rfl, ⟨_, rfl⟩⟩

theorem Changes.trans (h : t.Changes scope t') (h' : t'.Changes scope t'') :
    t.Changes scope t'' := by
  obtain ⟨members, hmembers⟩ := h.current
  obtain ⟨members', hmembers'⟩ := h'.current
  refine ⟨h'.size.trans h.size, fun id hid => (h'.others id hid).trans (h.others id hid),
    ⟨members', ?_⟩⟩
  rw [hmembers', hmembers]

variable {id : ScopeId}

theorem Changes.member?_of_ne (h : t.Changes scope t') (hid : id ≠ scope) (name : String) :
    t'.member? id name = t.member? id name := by
  rw [member?, h.others id hid]
  rfl

theorem Changes.origin (h : t.Changes scope t') (id : ScopeId) :
    (t'.scope id).origin = (t.scope id).origin := by
  by_cases hid : id = scope
  · obtain ⟨members, hmembers⟩ := h.current
    rw [hid, hmembers]
  · rw [h.others id hid]

theorem Changes.associatedType (h : t.Changes scope t') (id : ScopeId) :
    (t'.scope id).associatedType = (t.scope id).associatedType := by
  by_cases hid : id = scope
  · obtain ⟨members, hmembers⟩ := h.current
    rw [hid, hmembers]
  · rw [h.others id hid]

theorem Changes.subScope? (h : t.Changes scope t') (parent : ScopeId) (name : String) :
    t'.subScope? parent name = t.subScope? parent name := find?_congr h.size h.origin _

theorem Changes.isPlain (h : t.Changes scope t') (hid : t.IsPlain id) : t'.IsPlain id := by
  refine hid.congr (Nat.le_of_eq h.size.symm) ?_
  by_cases heq : id = scope
  · rw [heq]
    exact .inr h.current
  · exact .inl (h.others id heq)

theorem Binds.refl (scope : ScopeId) (t : ScopeTree) : t.Binds scope t :=
  ⟨.refl scope t, fun _ _ h => h⟩

theorem Binds.trans (h : Binds scope t t') (h' : Binds scope t' t'') : Binds scope t t'' :=
  ⟨h.toChanges.trans h'.toChanges,
    fun name symbol hs => h'.keeps name symbol (h.keeps name symbol hs)⟩

theorem Binds.member? (h : Binds scope t t') (hs : t.member? id name = some symbol) :
    t'.member? id name = some symbol := by
  by_cases hid : id = scope
  · rw [hid] at hs ⊢
    exact h.keeps name symbol hs
  · rw [h.member?_of_ne hid, hs]

theorem binds_set (hlt : scope.index < t.size) (hfree : t.member? scope name = none)
    (ht : t' = t.modifyScope scope fun s => { s with members := s.members.set name symbol }) :
    Binds scope t t' ∧ t'.member? scope name = some symbol ∧
      ∀ other value, t'.member? scope other = some value →
        other = name ∧ value = symbol ∨ t.member? scope other = some value := by
  subst ht
  have hself : (t.modifyScope scope fun s =>
      { s with members := s.members.set name symbol }).scope scope =
        { t.scope scope with members := (t.scope scope).members.set name symbol } :=
    scope_modifyScope_self hlt _
  have hmember : ∀ other, other ≠ name → (t.modifyScope scope fun s =>
      { s with members := s.members.set name symbol }).member? scope other =
        t.member? scope other := by
    intro other hne
    rw [member?, hself]
    exact Dictionary.get?_set_of_ne _ hne _
  refine ⟨⟨⟨size_modifyScope _ _ _, fun id hid => scope_modifyScope_of_ne hid _, ⟨_, hself⟩⟩, ?_⟩,
    member?_declare hlt, ?_⟩
  · intro other value hvalue
    rw [hmember other]
    · exact hvalue
    · rintro rfl
      rw [hfree] at hvalue
      cases hvalue
  · intro other value hvalue
    by_cases hne : other = name
    · rw [hne, member?_declare hlt] at hvalue
      cases hvalue
      exact .inl ⟨hne, rfl⟩
    · rw [hmember other hne] at hvalue
      exact .inr hvalue

theorem declare_ends {bad : Fault → Prop} (hlt : scope.index < t.size)
    (hbound : ∀ old, t.member? scope name = some old →
      ∀ text, bad (.error (.duplicateSymbol name text))) :
    Ends (declare scope name symbol) t (fun _ t' => t.member? scope name = none ∧
      Binds scope t t' ∧ t'.member? scope name = some symbol ∧
      ∀ other value, t'.member? scope other = some value →
        other = name ∧ value = symbol ∨ t.member? scope other = some value) bad := by
  refine .after rfl (.check (fun hle => absurd hlt (Nat.not_lt.mpr hle)) fun _ =>
    .check (fun hcontains => ?_) fun hcontains => ?_)
  · obtain ⟨old, hold⟩ := Option.isSome_iff_exists.mp hcontains
    exact hbound old hold _
  · have hfree : t.member? scope name = none := Option.not_isSome_iff_eq_none.mp hcontains
    exact .of_ok rfl ⟨hfree, binds_set hlt hfree rfl⟩

end ScopeTree

/-! ## Adding named scopes -/

/-- Scopes were added, and only the root may bind more names. -/
structure ScopeTree.Extends (t t' : ScopeTree) : Prop where
  size : t.size ≤ t'.size
  found : ∀ origin id, t.find? origin = some id → t'.find? origin = some id
  others : ∀ id, id.index < t.size → id ≠ root → t'.scope id = t.scope id
  current : ∃ members, t'.scope root = { t.scope root with members }
  keeps : ∀ name symbol, t.member? root name = some symbol → t'.member? root name = some symbol

/-- A named scope below the root was added, for the members of a type. -/
structure ScopeTree.Adds (t t' : ScopeTree) (name : String) (type : TypeSymbol) : Prop extends
    t.Extends t' where
  made : (t'.scope ⟨t.size⟩).associatedType = some type
  plain : t'.IsPlain ⟨t.size⟩
  unbound : ∀ other, t'.member? ⟨t.size⟩ other = none
  named : t'.member? root name = some (.type type)
  sub : t'.subScope? root name = some ⟨t.size⟩
  onlyMember : ∀ other symbol, t'.member? root other = some symbol →
    other = name ∨ t.member? root other = some symbol
  onlySub : ∀ parent other id, t'.subScope? parent other = some id →
    parent = root ∧ other = name ∨ t.subScope? parent other = some id

namespace ScopeTree

variable {t t' t'' : ScopeTree} {scope : ScopeId} {name : String} {type : TypeSymbol}

theorem Extends.visited (h : t.Extends t') (visit : Visit) : t.Extends (t'.visited visit) :=
  ⟨h.size, h.found, h.others, h.current, h.keeps⟩

theorem Adds.visited (h : t.Adds t' name type) (visit : Visit) :
    t.Adds (t'.visited visit) name type :=
  { toExtends := h.toExtends.visited visit
    made := h.made
    plain := ⟨h.plain.lt, h.plain.kind, h.plain.blocks, h.plain.cursor⟩
    unbound := h.unbound
    named := h.named
    sub := h.sub
    onlyMember := h.onlyMember
    onlySub := h.onlySub }

theorem Extends.isPlain (h : t.Extends t') {id : ScopeId} (hid : t.IsPlain id) :
    t'.IsPlain id := by
  refine hid.congr h.size ?_
  by_cases heq : id = root
  · rw [heq]
    exact .inr h.current
  · exact .inl (h.others id hid.lt heq)

theorem Extends.later (h : t.Extends t') (ht : 0 < t.size) (hsize : t''.size = t'.size)
    (horigin : ∀ id, (t''.scope id).origin = (t'.scope id).origin)
    (hold : ∀ id, id.index < t.size → t''.scope id = t'.scope id) : t.Extends t'' := by
  refine ⟨Nat.le_trans h.size (Nat.le_of_eq hsize.symm), fun origin id hid => ?_,
    fun id hid hne => (hold id hid).trans (h.others id hid hne), ?_, fun name symbol hs => ?_⟩
  · rw [find?_congr hsize horigin]
    exact h.found origin id hid
  · rw [hold root ht]
    exact h.current
  · rw [member?, hold root ht]
    exact h.keeps name symbol hs

theorem Extends.binds (h : t.Extends t') (ht : 0 < t.size) (hscope : t.size ≤ scope.index)
    (hbinds : Binds scope t' t'') : t.Extends t'' := by
  refine h.later ht hbinds.size hbinds.origin fun id hid => hbinds.others id ?_
  rintro rfl
  omega

def typeScope (parent : ScopeId) (name : String) (type : Option TypeSymbol) : Scope :=
  { origin := .member parent name, name := some name, associatedType := type }

theorem addGlobal_ends {bad : Fault → Prop} {parent : ScopeId} {type : Option TypeSymbol}
    (hfound : ∀ old, t.subScope? parent name = some old →
      ∀ text, bad (.error (.duplicateSymbol name text))) :
    Ends (addGlobal parent name type) t (fun id t' => t.subScope? parent name = none ∧
      id = ⟨t.size⟩ ∧ t' = (t.push (typeScope parent name type)).2) bad := by
  unfold addGlobal
  refine .after rfl ?_
  cases hsub : t.subScope? parent name with
  | some old => exact .of_error rfl (hfound old hsub _)
  | none => exact .of_ok rfl ⟨rfl, rfl, rfl⟩

theorem adds_of_binds (hroot : t.IsPlain root) (hfree : t.subScope? root name = none)
    (hbinds : Binds root (t.push (typeScope root name (some type))).2 t')
    (hnamed : t'.member? root name = some (.type type))
    (honly : ∀ other value, t'.member? root other = some value →
      other = name ∧ value = .type type ∨
        (t.push (typeScope root name (some type))).2.member? root other = some value) :
    t.Adds t' name type := by
  have hmember : ∀ other, (t.push (typeScope root name (some type))).2.member? root other =
      t.member? root other := by
    intro other
    rw [member?, scope_push_of_lt hroot.lt]
    rfl
  have hmade : t'.scope ⟨t.size⟩ = typeScope root name (some type) := by
    rw [hbinds.others _ (ne_size hroot.lt).symm, scope_push, if_pos rfl]
  have hsize : t'.size = t.size + 1 := hbinds.size.trans (size_push _ _)
  obtain ⟨members, hcurrent⟩ := hbinds.current
  refine { size := by omega, found := fun origin id hid => ?_, others := fun id hid hne => ?_,
           current := ⟨members, by rw [hcurrent, scope_push_of_lt hroot.lt]⟩,
           keeps := fun other symbol hs => hbinds.keeps _ _ ((hmember other).trans hs),
           made := by rw [hmade]; rfl,
           plain := ⟨by rw [hsize]; exact Nat.lt_succ_self _, ?_, ?_, ?_⟩,
           unbound := fun other => by rw [member?, hmade]; rfl,
           named := hnamed, sub := ?_, onlyMember := fun other symbol hs => ?_,
           onlySub := fun parent other id hid => ?_ }
  · rw [find?_congr hbinds.size hbinds.origin]
    exact find?_push_of_some hid _
  · rw [hbinds.others id hne, scope_push_of_lt hid]
  · rw [hmade]
    rfl
  · rw [hmade]
    rfl
  · rw [hmade]
    rfl
  · rw [subScope?, find?_congr hbinds.size hbinds.origin]
    exact find?_push_of_none hfree
  · rcases honly other symbol hs with ⟨hname, -⟩ | hs
    · exact .inl hname
    · exact .inr ((hmember other).symm.trans hs)
  · rw [subScope?, find?_congr hbinds.size hbinds.origin] at hid
    rcases find?_push_cases hid with horigin | hid
    · cases horigin
      exact .inl ⟨rfl, rfl⟩
    · exact .inr hid

end ScopeTree

/-! ## Entering and leaving -/

/-- The state of an engine of the session. -/
structure Session.At (s : Session) (e : EngineId) (engine : Engine) : Prop where
  lt : e.index < s.engines.size
  eq : s.engine e = engine

namespace Session

variable {s s' : Session} {e : EngineId} {engine : Engine} {id : ScopeId}

theorem At.congr (h : s.At e engine) (hs : s'.engines = s.engines) : s'.At e engine := by
  refine ⟨by rw [hs]; exact h.lt, ?_⟩
  rw [Session.engine, hs]
  exact h.eq

theorem At.currentScope (h : s.At e engine) {outer : List ScopeId}
    (hscopes : engine.scopes = id :: outer) : (s.engine e).currentScope = id := by
  rw [h.eq, Engine.currentScope, hscopes]
  rfl

theorem At.opening (h : s.At e engine) (move : ScopeMove) (id : ScopeId) :
    (e.opening move id s).At e { engine with scopes := id :: engine.scopes } := by
  refine ⟨by simpa [EngineId.opening] using h.lt, ?_⟩
  rw [EngineId.engine_opening, if_pos ⟨rfl, h.lt⟩, h.eq]

theorem At.closing (h : s.At e engine) (move : ScopeMove) :
    (e.closing move s).At e { engine with scopes := engine.scopes.tail } := by
  refine ⟨by simpa [EngineId.closing] using h.lt, ?_⟩
  rw [EngineId.engine_closing, if_pos ⟨rfl, h.lt⟩, h.eq]

theorem At.afterExit (h : s.At e engine) {move : ScopeMove} {t : ScopeTree}
    {outer : List ScopeId} (hscopes : engine.scopes = id :: outer) :
    (e.closing move (s.withTree t)).At e { engine with scopes := outer } := by
  have hsame : (s.withTree t).At e engine := h.congr rfl
  have hclosed := hsame.closing move
  rwa [hscopes] at hclosed

end Session

namespace EngineId

variable {e : EngineId} {s : Session} {id current : ScopeId} {engine : Engine}
  {outer : List ScopeId}

theorem requirePass_of_at {pass : Pass} (he : s.At e engine) (hpass : engine.currentPass = pass)
    (operation : String) : e.requirePass pass operation s = .ok () s := by
  refine requirePass_eq_ok.mpr ⟨?_, rfl⟩
  rw [he.eq, hpass]

theorem enterGlobal_of_found {name : String} (he : s.At e engine)
    (hscopes : engine.scopes = current :: outer) (hcurrent : s.tree.IsPlain current)
    (hid : s.tree.subScope? current name = some id) :
    e.enterGlobal (Path.ofName name) s = .ok () (e.opening (.enterGlobal [name]) id s) := by
  have hscope := he.currentScope hscopes
  have hdescend : descend current (Path.ofName name) s = .ok id s := by
    refine bind_eq_ok.mpr ⟨id, s, ?_, rfl⟩
    refine onTree_eq_ok.mpr ⟨s.tree, ?_, rfl⟩
    unfold getOrAddGlobal
    rw [get_bind_eq_ok, hid]
    rfl
  unfold enterGlobal
  rw [isLocal_bind, fail, check_eq_ok, hscope, hcurrent.isLocal]
  refine ⟨Bool.false_ne_true, ?_⟩
  dsimp only
  rw [currentScope_bind, hscope]
  exact bind_eq_ok.mpr ⟨id, s, hdescend, rfl⟩

theorem exitGlobal_of_inside {next : ScopeId} (he : s.At e engine)
    (hscopes : engine.scopes = current :: next :: outer) (hcurrent : s.tree.IsPlain current) :
    e.exitGlobal s = .ok () (e.closing .exitGlobal (s.withTree (s.tree.rewound current))) := by
  have hscope := he.currentScope hscopes
  unfold exitGlobal
  rw [isLocal_bind, state_bind, fail, check_eq_ok, hscope, hcurrent.isLocal, he.eq, hscopes]
  refine ⟨by simp, leave_eq_ok.mpr ⟨_, ?_, rfl⟩⟩
  rw [hscope]
  exact rewindBlocks_eq_ok.mpr ⟨by rw [hcurrent.cursor, hcurrent.blocks]; rfl, rfl⟩

end EngineId

/-! ## Looking names up -/

/-- Nothing follows the segment, or it has template arguments. -/
def Segment.asksMember (segment : Segment) (rest : Path) : Bool :=
  rest.isEmpty || segment.isTemplated

namespace Runner

variable {r : Runner} {s : Session} {name : String} {engine : Engine}

section Paths

variable {path rest : Path} {first : Segment} {scope : ScopeId} {scopes : List ScopeId}
  {good here : Option Symbol → Prop} {bad : Fault → Prop}

theorem findFrom?_ends (hglobal : s.tree.isLocal scope = false)
    (hunbound : first.asksMember rest = true → s.tree.member? scope first.name = none → good none)
    (hmember : first.asksMember rest = true →
      ∀ symbol, s.tree.member? scope first.name = some symbol →
        (∀ id, s.settled symbol ≠ .template id) ∧
        (first.isTemplated = false → good (some (s.settled symbol))) ∧
        (first.isTemplated = true → ∀ name kind, bad (.error (.notATemplate name kind))))
    (hnone : first.asksMember rest = false → s.tree.subScope? scope first.name = none → good none)
    (hnext : first.asksMember rest = false → ∀ next, s.tree.subScope? scope first.name = some next →
      Ends (r.findFrom? next rest) s (fun found s' => s' = s ∧ good found) bad) :
    Ends (r.findFrom? scope (first :: rest)) s (fun found s' => s' = s ∧ good found) bad := by
  rw [findFrom?]
  refine .after rfl ?_
  rw [hglobal, if_neg Bool.false_ne_true]
  cases htemplated : first.isTemplated with
  | true =>
    have hasks : first.asksMember rest = true := by
      rw [Segment.asksMember, htemplated, Bool.or_true]
    have hinstance : Ends (r.segmentInstance? scope first) s
        (fun found s' => s' = s ∧ found = none ∧ good none) bad := by
      unfold segmentInstance?
      refine .after rfl ?_
      cases hfound : s.tree.member? scope first.name with
      | none => exact .pure ⟨rfl, rfl, hunbound hasks hfound⟩
      | some symbol =>
        obtain ⟨hother, -, hbad⟩ := hmember hasks symbol hfound
        rw [Option.map_some]
        cases hsettled : s.settled symbol with
        | template id => exact absurd hsettled (hother id)
        | _ => exact .throw (hbad htemplated _ _)
    rw [if_pos rfl]
    refine .bind hinstance ?_
    rintro _ s' ⟨rfl, rfl, hgood⟩
    exact .pure ⟨rfl, hgood⟩
  | false =>
    rw [if_neg Bool.false_ne_true]
    cases hempty : rest.isEmpty with
    | true =>
      have hasks : first.asksMember rest = true := by rw [Segment.asksMember, hempty, Bool.true_or]
      rw [if_pos rfl]
      refine .of_ok rfl ⟨rfl, ?_⟩
      cases hfound : s.tree.member? scope first.name with
      | none => exact hunbound hasks hfound
      | some symbol => exact (hmember hasks symbol hfound).2.1 htemplated
    | false =>
      have hasks : first.asksMember rest = false := by
        rw [Segment.asksMember, hempty, htemplated]; rfl
      rw [if_neg Bool.false_ne_true]
      refine .after rfl ?_
      cases hsub : s.tree.subScope? scope first.name with
      | none => exact .pure ⟨rfl, hnone hasks hsub⟩
      | some next => exact hnext hasks next hsub

theorem findFirst?_cons_ends
    (hfirst : Ends (r.findFrom? scope path) s (fun found s' => s' = s ∧ here found) bad)
    (hfound : ∀ symbol, here (some symbol) → good (some symbol))
    (hrest : here none → Ends (r.findFirst? path scopes) s
      (fun found s' => s' = s ∧ good found) bad) :
    Ends (r.findFirst? path (scope :: scopes)) s (fun found s' => s' = s ∧ good found) bad := by
  refine .bind hfirst ?_
  rintro found s' ⟨rfl, hhere⟩
  cases found with
  | some symbol => exact .pure ⟨rfl, hfound symbol hhere⟩
  | none => exact hrest hhere

theorem find_ends (he : s.At r.engine engine) (hfiles : engine.files = [])
    (hpass : engine.currentPass ≠ .declare)
    (hfind : Ends (r.findFirst? path engine.scopes) s (fun found s' => s' = s ∧ good found) bad)
    (hunbound : good none → ∀ text, bad (.error (.undefinedSymbol text))) :
    Ends (r.find path) s (fun symbol s' => s' = s ∧ good (some symbol)) bad := by
  have himported : r.imported s = .ok [] s := by
    have hrun : r.imported s =
        .ok (((s.engine r.engine).files.head?.bind s.imports.get?).getD []) s := rfl
    rw [hrun, he.eq, hfiles]
    rfl
  have hforbid : ∀ operation, r.engine.forbidPass .declare operation s = .ok () s := by
    intro operation
    refine EngineId.forbidPass_eq_ok.mpr ⟨?_, rfl⟩
    rw [he.eq]
    exact hpass
  have hall : Ends (r.find? path) s (fun found s' => s' = s ∧ good found) bad := by
    refine .after rfl ?_
    rw [he.eq]
    refine .bind hfind ?_
    rintro found s' ⟨rfl, hgood⟩
    cases found with
    | some symbol => exact .pure ⟨rfl, hgood⟩
    | none => exact .after himported (.pure ⟨rfl, hgood⟩)
  unfold find
  refine .after rfl (.after (hforbid _) (.bind hall ?_))
  rintro found s' ⟨rfl, hgood⟩
  cases found with
  | some symbol => exact .pure ⟨rfl, hgood⟩
  | none => exact .of_error rfl (hunbound hgood _)

end Paths

theorem findFrom?_ofName (scope : ScopeId) : r.findFrom? scope (Path.ofName name) s =
    .ok ((s.tree.member? scope name).map s.settled) s := by
  have hfind : r.findFrom? scope (Path.ofName name) s =
      (if s.tree.isLocal scope then member? scope name else member? scope name) s := rfl
  rw [hfind, ite_self]
  rfl

theorem findFirst?_ofName (scopes : List ScopeId) : r.findFirst? (Path.ofName name) scopes s =
    .ok ((scopes.findSome? fun scope => s.tree.member? scope name).map s.settled) s := by
  induction scopes with
  | nil => rfl
  | cons scope rest ih =>
    refine bind_eq_ok.mpr ⟨_, s, findFrom?_ofName scope, ?_⟩
    rw [List.findSome?_cons]
    cases s.tree.member? scope name with
    | none => exact ih
    | some symbol => rfl

theorem find_ofName_ends {bad : Fault → Prop} (he : s.At r.engine engine)
    (hfiles : engine.files = []) (hpass : engine.currentPass ≠ .declare)
    (hunbound : (engine.scopes.findSome? fun scope => s.tree.member? scope name) = none →
      ∀ path, bad (.error (.undefinedSymbol path))) :
    Ends (r.find (Path.ofName name)) s (fun symbol s' => s' = s ∧ ∃ member,
      (engine.scopes.findSome? fun scope => s.tree.member? scope name) = some member ∧
        symbol = s.settled member) bad := by
  have hfind : Ends (r.findFirst? (Path.ofName name) engine.scopes) s (fun found s' => s' = s ∧
      found = (engine.scopes.findSome? fun scope => s.tree.member? scope name).map s.settled) bad :=
    .of_ok (findFirst?_ofName _) ⟨rfl, rfl⟩
  refine (find_ends he hfiles hpass hfind fun hnone =>
    hunbound (Option.map_eq_none_iff.mp hnone.symm)).mono ?_
  rintro symbol s' ⟨rfl, hsymbol⟩
  obtain ⟨member, hmember, rfl⟩ := Option.map_eq_some_iff.mp hsymbol.symm
  exact ⟨rfl, member, hmember, rfl⟩

end Runner

end StagedAsm
