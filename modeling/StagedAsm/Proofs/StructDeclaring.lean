import StagedAsm.Proofs.PlacedStructs

/-!
# Declaring structures

The first pass gives every structure a type, a placeholder for its layout and a scope, in which the
offsets of the leading fields are bound at once and each other field is a placeholder. All of it is
new, so older structures keep what they have. The pass fails only where a name is declared twice.
-/

namespace StagedAsm

open DependencyGraph EngineId List ScopeTree Session

/-! ## The open epoch -/

def Session.OpenWith (s : Session) (decls : List StructDecl) (nodes : PlaceholderId → Prop)
    (waits : PlaceholderId → PlaceholderId → Prop) : Prop :=
  ∃ g, s.epoch = some g ∧ g.WellFormed ∧ g.sorted = false ∧ (∀ x, x ∈ g.nodes ↔ nodes x) ∧
    (∀ x y, waits x y → g.Waits x y) ∧ ∀ x y, g.Waits x y → waits x y ∨ Hides decls

namespace Session.OpenWith

variable {s s' : Session} {decls : List StructDecl} {nodes nodes' : PlaceholderId → Prop}
  {waits : PlaceholderId → PlaceholderId → Prop}

theorem congr (h : s.OpenWith decls nodes waits) (hepoch : s'.epoch = s.epoch)
    (hnodes : ∀ x, nodes x ↔ nodes' x := by exact fun _ => Iff.rfl) :
    s'.OpenWith decls nodes' waits := by
  obtain ⟨g, hopen, hwf, hsorted, hmem, hwaits⟩ := h
  exact ⟨g, hepoch.trans hopen, hwf, hsorted, fun x => (hmem x).trans (hnodes x), hwaits⟩

theorem of_empty (h : s.epoch = some {}) : s.OpenWith decls (fun _ => False) fun _ _ => False :=
  ⟨{}, h, wellFormed_empty, rfl, by simp, fun _ _ => False.elim,
    fun x y h => absurd h (not_waits_empty x y)⟩

end Session.OpenWith

variable {s s1 s' : Session} {scope : ScopeId}

theorem onEpoch_of_ok
    {f : DependencyGraph PlaceholderId → Except CompileError (DependencyGraph PlaceholderId)}
    {g g' : DependencyGraph PlaceholderId} (hopen : s.epoch = some g) (hf : f g = .ok g') :
    onEpoch f s = .ok () { s with epoch := some g' } := by
  rw [onEpoch_apply, hopen]
  dsimp only
  rw [hf]
  rfl

def Session.withEpoch (s : Session) (epoch : Option (DependencyGraph PlaceholderId))
    (history : Array Event) : Session := { s with epoch, history }

theorem EngineId.register_of_open {decls : List StructDecl} {nodes : PlaceholderId → Prop}
    {waits : PlaceholderId → PlaceholderId → Prop} (h : s.OpenWith decls nodes waits)
    (id : PlaceholderId) :
    ∃ epoch history, register id s = .ok () (s.withEpoch epoch history) ∧
      (s.withEpoch epoch history).OpenWith decls (fun x => nodes x ∨ x = id) waits := by
  obtain ⟨g, hopen, hwf, hsorted, hmem, hlower, hupper⟩ := h
  obtain ⟨g', hadd, hwf', hsorted', hmem', hwaits⟩ := addNode_spec hwf hsorted id
  refine ⟨some g', s.history.push (.registered id),
    bind_eq_ok.mpr ⟨(), _, onEpoch_of_ok hopen hadd, rfl⟩, g', rfl, hwf', hsorted', fun x => ?_,
    fun x y hxy => (hwaits x y).mpr (hlower x y hxy),
    fun x y hxy => hupper x y ((hwaits x y).mp hxy)⟩
  rw [hmem', hmem]

/-! ## Fields -/

/-- Names were bound in one scope and placeholders were made. -/
structure Session.OnlyBinds (scope : ScopeId) (s s' : Session) : Prop where
  tree : s.tree.Binds scope s'.tree
  types : s'.types = s.types
  typeRefs : s'.typeRefs = s.typeRefs
  engines : s'.engines = s.engines
  size : s.placeholders.size ≤ s'.placeholders.size
  placeholders : ∀ x, x.index < s.placeholders.size → s'.placeholder x = s.placeholder x

theorem Session.OnlyBinds.trans (h : s.OnlyBinds scope s1) (h' : s1.OnlyBinds scope s') :
    s.OnlyBinds scope s' where
  tree := h.tree.trans h'.tree
  types := h'.types.trans h.types
  typeRefs := h'.typeRefs.trans h.typeRefs
  engines := h'.engines.trans h.engines
  size := le_trans h.size h'.size
  placeholders x hx :=
    (h'.placeholders x (lt_of_lt_of_le hx h.size)).trans (h.placeholders x hx)

theorem Session.OnlyBinds.of_binds {t : ScopeTree} (h : s.tree.Binds scope t) :
    s.OnlyBinds scope (s.withTree t) :=
  ⟨h, rfl, rfl, rfl, le_refl _, fun _ _ => rfl⟩

theorem Session.Grows.onlyBinds (h : s.Grows s1) (hs : 0 < s.tree.size)
    (hscope : s.tree.size ≤ scope.index) (hbinds : s1.OnlyBinds scope s') : s.Grows s' where
  tree := h.tree.binds hs hscope hbinds.tree
  sizeTypes := by
    rw [hbinds.types]
    exact h.sizeTypes
  types i hi := by
    rw [hbinds.types]
    exact h.types i hi
  sizePlaceholders := le_trans h.sizePlaceholders hbinds.size
  placeholders x hx :=
    (hbinds.placeholders x (lt_of_lt_of_le hx h.sizePlaceholders)).trans (h.placeholders x hx)

def Clashes (distinct : Prop) (fault : Fault) : Prop :=
  (∃ name text, fault = .error (.duplicateSymbol name text)) ∧ ¬ distinct

theorem Clashes.mono {P Q : Prop} {fault : Fault} (h : Clashes P fault) (himp : Q → P) :
    Clashes Q fault := ⟨h.1, mt himp h.2⟩

theorem nodup_map_snoc {α β : Type} {f : α → β} {l : List α} {x : α} (h : (l.map f).Nodup)
    (hx : f x ∉ l.map f) : ((l ++ [x]).map f).Nodup := by
  rw [map_append]
  exact h.append (nodup_singleton _) (by simpa using hx)

section Fields

variable {s : Session} {decls : List StructDecl} {e : EngineId} {engine : Engine} {scope : ScopeId}

variable {value : ValueType} {types : List ValueType} {bad : Fault → Prop} {name : String}
  {rest : List (FieldType × String)} {nodes : PlaceholderId → Prop}
  {waits : PlaceholderId → PlaceholderId → Prop} {p : PlacedStruct} {i : Nat}

theorem FieldType.hasType_of_known {type : FieldType} (h : type.known? = some value) (s : Session) :
    s.HasType type value := by
  cases type with
  | sized size =>
    cases h
    exact .sized size
  | block bytes =>
    cases h
    exact .block bytes
  | named | value | reference | far => cases h

theorem Session.Lays.withTree {fields : List (FieldType × String)}
    (h : s.Lays decls scope fields types) {t : ScopeTree} {id : ScopeId} (ht : s.tree.Binds id t) :
    (s.withTree t).Lays decls scope fields types :=
  h.mono (fun _ _ htype => htype.mono (fun _ _ hmember => ht.member? hmember) fun _ _ hs => hs)
    fun _ _ _ hmember => ht.member? hmember

theorem TypeRefId.known_of_eq {id : TypeRefId} (h : (s.typeRef id).known = some value) :
    id.known s = .ok value s := by
  refine get_bind_eq_ok.mpr ?_
  rw [h]
  rfl

theorem EngineId.declare_ends {symbol : Symbol} (he : s.At e engine)
    (hscope : engine.currentScope = scope) (hlt : scope.index < s.tree.size)
    (hbound : ∀ old, s.tree.member? scope name = some old →
      ∀ text, bad (.error (.duplicateSymbol name text))) :
    Ends (e.declare name symbol) s (fun _ s' => ∃ t, s' = s.withTree t ∧
      s.tree.member? scope name = none ∧ s.tree.Binds scope t ∧
      t.member? scope name = some symbol ∧ ∀ other value, t.member? scope other = some value →
        other = name ∧ value = symbol ∨ s.tree.member? scope other = some value) bad := by
  refine .after rfl ?_
  rw [he.eq, hscope]
  exact .onTree ((ScopeTree.declare_ends hlt hbound).mono fun _ t ht => ⟨t, rfl, ht⟩)

theorem Structure.declareKnown_ends {total size : Nat} {done : List (FieldType × String)}
    {offsets : List UInt32} {first : Nat} (hleading : Leading total rest offsets size)
    (he : s.At e engine) (hscope : engine.currentScope = scope) (hlt : scope.index < s.tree.size)
    (hnodup : (done.map Prod.snd).Nodup)
    (hfresh : ∀ i field, rest[i]? = some field →
      s.typeRef ⟨first + i⟩ = TypeRef.ofForm field.1.form) (hdone : s.Lays decls scope done types)
    (htotal : totalBytes types = total)
    (hmembers : ∀ name symbol, s.tree.member? scope name = some symbol →
      name ∈ done.map Prod.snd ∧ ∃ text type, symbol = .constant text type) :
    Ends (declareKnown e ((fieldsFrom first rest).zip offsets)) s (fun _ s' => ∃ t types',
      s' = s.withTree t ∧ s.tree.Binds scope t ∧
      s'.Lays decls scope (done ++ rest.take offsets.length) types' ∧ totalBytes types' = size ∧
      ((done ++ rest.take offsets.length).map Prod.snd).Nodup ∧
      ∀ name symbol, t.member? scope name = some symbol →
        name ∈ (done ++ rest.take offsets.length).map Prod.snd ∧
          ∃ text type, symbol = .constant text type)
      (Clashes ((done ++ rest).map Prod.snd).Nodup) := by
  induction hleading generalizing first done types s with
  | stop total fields =>
    rw [zip_nil_right]
    refine .pure ⟨s.tree, types, rfl, .refl scope _, ?_, htotal, ?_, ?_⟩
    · simpa using hdone
    · simpa using hnodup
    · simpa using hmembers
  | @next total size type name value rest offset offsets hknown hoffset _ ih =>
    have hvalue : (s.typeRef ⟨first⟩).known = some value := by
      have href := hfresh 0 _ rfl
      rw [add_zero] at href
      rw [href, type.known_ofForm, hknown]
    have hmoved : done ++ (type, name) :: rest = done ++ [(type, name)] ++ rest := by simp
    rw [fieldsFrom_cons, zip_cons_cons]
    refine .after (TypeRefId.known_of_eq hvalue) (.bind (declare_ends he hscope hlt ?_) ?_)
    · -- a name that is bound already is that of a field before
      intro old hold text
      have hmem := (hmembers name old hold).1
      refine ⟨⟨_, _, rfl⟩, fun hnames => ?_⟩
      rw [map_append, map_cons, nodup_middle, nodup_cons] at hnames
      exact hnames.1 (mem_append_left _ hmem)
    · rintro _ s1 ⟨t, rfl, hfree, hbinds, hmember, honly⟩
      have hnew : name ∉ done.map Prod.snd := by
        intro hmem
        obtain ⟨symbol, hsymbol⟩ := hdone.exists_member hmem
        rw [hfree] at hsymbol
        cases hsymbol
      have hlays : (s.withTree t).Lays decls scope (done ++ [(type, name)]) (types ++ [value]) := by
        refine .snoc (hdone.withTree hbinds) (FieldType.hasType_of_known hknown _)
          (FieldType.takes_of_known hknown decls) ?_
        rw [htotal, ← hoffset]
        exact hmember
      refine .mono (ih (he.congr rfl) ?_ (nodup_map_snoc hnodup hnew) ?_ hlays ?_ ?_) ?_ ?_
      · exact hbinds.size ▸ hlt
      · intro i field hfield
        rw [Nat.add_right_comm, Nat.add_assoc]
        exact hfresh (i + 1) field hfield
      · rw [totalBytes_snoc, htotal]
      · intro other symbol hs
        rcases honly other symbol hs with ⟨rfl, rfl⟩ | hs
        · exact ⟨by simp, _, _, rfl⟩
        · obtain ⟨hmem, hconstant⟩ := hmembers other symbol hs
          exact ⟨by rw [map_append]; exact mem_append_left _ hmem, hconstant⟩
      · rintro _ s2 ⟨t', types', rfl, hbinds', hlays', hsize, hnodup', hmembers'⟩
        refine ⟨t', types', rfl, hbinds.trans hbinds', ?_, hsize, ?_, ?_⟩
        · simpa using hlays'
        · simpa using hnodup'
        · simpa using hmembers'
      · exact fun fault h => hmoved ▸ h

theorem EngineId.declarePlaceholder_ends {resolution : Resolution} (he : s.At e engine)
    (hscope : engine.currentScope = scope) (hpass : engine.currentPass = .declare)
    (hplain : s.tree.IsPlain scope)
    (hbound : ∀ old, s.tree.member? scope name = some old →
      ∀ text, bad (.error (.duplicateSymbol name text)))
    (hopen : s.OpenWith decls nodes waits) :
    Ends (e.declarePlaceholder name resolution) s (fun _ s' => s.tree.member? scope name = none ∧
      s.OnlyBinds scope s' ∧
      s'.tree.member? scope name = some (.placeholder ⟨s.placeholders.size⟩) ∧
      (∀ other value, s'.tree.member? scope other = some value →
        other = name ∧ value = .placeholder ⟨s.placeholders.size⟩ ∨
          s.tree.member? scope other = some value) ∧
      s'.placeholders = s.placeholders.push
        { name := some name, owner := some scope, state := .pending resolution } ∧
      s'.OpenWith decls (fun x => nodes x ∨ x = ⟨s.placeholders.size⟩) waits) bad := by
  have hsite : e.checkPlaceholderSite s = .ok () s := by
    unfold checkPlaceholderSite
    rw [isLocal_bind, he.eq, hscope, hplain.isLocal]
    exact requirePass_of_at he hpass _
  refine .after hsite (.after rfl ?_)
  rw [he.eq, hscope]
  unfold bindPlaceholder
  rw [bind_assoc]
  refine .after rfl ?_
  rw [bind_assoc]
  refine .onTree_bind (ScopeTree.declare_ends hplain.lt hbound) ?_
  rintro _ t ⟨hfree, hbinds, hmember, honly⟩
  refine .after rfl ?_
  -- the new placeholder goes into the epoch
  have hopen1 : ({ s with
      tree := t
      placeholders := s.placeholders.push
        { name := some name, owner := some scope, state := .pending resolution } } :
          Session).OpenWith decls nodes waits := hopen.congr rfl
  obtain ⟨epoch, history, hregister, hopen'⟩ := register_of_open hopen1 ⟨s.placeholders.size⟩
  refine .after hregister (.pure ⟨hfree, ⟨hbinds, rfl, rfl, rfl, ?_, fun x hx => ?_⟩, hmember,
    honly, rfl, hopen'⟩)
  · show s.placeholders.size ≤ (s.placeholders.push _).size
    rw [Array.size_push]
    exact Nat.le_succ _
  · exact (getD_push _ _ _ _).trans (if_neg (Nat.ne_of_lt hx))

/-- The pending fields before the given one are open, and the scope binds nothing but fields. -/
structure PlacedStruct.IsOpenTo (p : PlacedStruct) (s : Session) (n : Nat) : Prop where
  fields : ∀ i field, p.offsets.length ≤ i → i < n → p.decl.fields[i]? = some field →
    p.IsOpen s i field.2
  members : ∀ name symbol, s.tree.member? p.scope name = some symbol →
    name ∈ (p.decl.fields.take n).map Prod.snd ∧ p.IsMember n symbol

theorem take_succ_of_getElem? {α : Type} {l : List α} {n : Nat} {a : α} (h : l[n]? = some a) :
    l.take (n + 1) = l.take n ++ [a] := by
  rw [take_add_one, h]
  rfl

theorem PlacedStruct.IsOpenTo.snoc {s' : Session} {field : FieldType × String} (h : p.IsOpenTo s i)
    (hfield : p.decl.fields[i]? = some field) (hsize : s.placeholders.size = (p.slot i).index)
    (hbinds : s.OnlyBinds p.scope s') (hi : p.offsets.length ≤ i) (hopen : p.IsOpen s' i field.2)
    (honly : ∀ name symbol, s'.tree.member? p.scope name = some symbol →
      name = field.2 ∧ symbol = .placeholder (p.slot i) ∨
        s.tree.member? p.scope name = some symbol) : p.IsOpenTo s' (i + 1) := by
  constructor
  · intro j field' hj hlt hfield'
    by_cases hji : j = i
    · subst hji
      cases hfield.symm.trans hfield'
      exact hopen
    · obtain ⟨hmember, hplaceholder⟩ := h.fields j field' hj (by omega) hfield'
      refine ⟨hbinds.tree.keeps _ _ hmember, ?_⟩
      rw [hbinds.placeholders, hplaceholder]
      rw [hsize, index_slot, index_slot]
      omega
  · intro name symbol hs
    rw [take_succ_of_getElem? hfield, map_append, mem_append]
    rcases honly name symbol hs with ⟨rfl, rfl⟩ | hs
    · exact ⟨.inr (by simp), .inr ⟨i, hi, Nat.lt_succ_self i, rfl⟩⟩
    · obtain ⟨hname, hconstant | ⟨j, hj, hlt, rfl⟩⟩ := h.members name symbol hs
      · exact ⟨.inl hname, .inl hconstant⟩
      · exact ⟨.inl hname, .inr ⟨j, hj, Nat.lt_succ_of_lt hlt, rfl⟩⟩

theorem drop_eq_cons {α : Type} {l rest : List α} {n : Nat} {a : α} (h : l.drop n = a :: rest) :
    n < l.length ∧ l[n]? = some a ∧ l.drop (n + 1) = rest := by
  have hhead := congrArg (·[0]?) h
  have hget : l[n]? = some a := by simpa using hhead
  exact ⟨(List.getElem?_eq_some_iff.mp hget).1, hget, by rw [← List.tail_drop, h, List.tail_cons]⟩

theorem Structure.declarePending_ends (hrest : p.decl.fields.drop i = rest)
    (hi : p.offsets.length ≤ i) (hle : i ≤ p.decl.fields.length) (he : s.At e engine)
    (hscope : engine.currentScope = p.scope) (hpass : engine.currentPass = .declare)
    (hplain : s.tree.IsPlain p.scope) (hnodup : ((p.decl.fields.take i).map Prod.snd).Nodup)
    (hbound : ∀ name ∈ (p.decl.fields.take i).map Prod.snd,
      ∃ symbol, s.tree.member? p.scope name = some symbol)
    (hsize : s.placeholders.size = (p.slot i).index) (hto : p.IsOpenTo s i)
    (hnodes : s.OpenWith decls nodes waits) :
    Ends (declarePending e p.base (fieldsFrom (p.references + i) rest)) s (fun _ s' =>
      s.OnlyBinds p.scope s' ∧ p.IsOpenTo s' p.decl.fields.length ∧
      (p.decl.fields.map Prod.snd).Nodup ∧
      s'.placeholders.size = (p.slot p.decl.fields.length).index ∧
      s'.OpenWith decls
        (fun x => nodes x ∨ ∃ j, i ≤ j ∧ j < p.decl.fields.length ∧ x = p.slot j) waits)
      (Clashes (p.decl.fields.map Prod.snd).Nodup) := by
  induction rest generalizing i s nodes with
  | nil =>
    have hlast : i = p.decl.fields.length := le_antisymm hle (drop_eq_nil_iff.mp hrest)
    subst hlast
    rw [take_length] at hnodup
    refine .pure ⟨⟨.refl _ _, rfl, rfl, rfl, le_refl _, fun _ _ => rfl⟩, hto, hnodup, hsize,
      hnodes.congr rfl fun x => ⟨.inl, ?_⟩⟩
    rintro (hx | ⟨j, hij, hj, -⟩)
    · exact hx
    · omega
  | cons field rest ih =>
    obtain ⟨hlt, hfield, htail⟩ := drop_eq_cons hrest
    have hslot : (⟨s.placeholders.size⟩ : PlaceholderId) = p.slot i :=
      congrArg PlaceholderId.mk hsize
    rw [fieldsFrom_cons]
    refine .discard_bind (declarePlaceholder_ends he hscope hpass hplain ?_ hnodes) ?_
    · -- a name that is bound already is that of a field before
      intro old hold text
      have hmem := (hto.members field.2 old hold).1
      refine ⟨⟨_, _, rfl⟩, fun hnames => ?_⟩
      rw [← take_append_drop i p.decl.fields, hrest, map_append, map_cons,
        nodup_middle, nodup_cons] at hnames
      exact hnames.1 (mem_append_left _ hmem)
    · rintro _ s1 ⟨hfree, hbinds, hmember, honly, hpushed, hnodes1⟩
      have hnew : field.2 ∉ (p.decl.fields.take i).map Prod.snd := by
        intro hmem
        obtain ⟨symbol, hsymbol⟩ := hbound field.2 hmem
        rw [hfree] at hsymbol
        cases hsymbol
      have hsucc := take_succ_of_getElem? hfield
      rw [hslot] at hmember honly hnodes1
      have hplaceholder : s1.placeholder (p.slot i) =
          { name := some field.2, owner := some p.scope,
            state := .pending (.field p.base (p.reference i)) } := by
        rw [← hslot, placeholder, hpushed]
        exact (getD_push _ _ _ _).trans (if_pos rfl)
      have hsize1 : s1.placeholders.size = (p.slot (i + 1)).index := by
        rw [hpushed, Array.size_push, hsize, PlacedStruct.index_slot, PlacedStruct.index_slot]
        omega
      have hto1 : p.IsOpenTo s1 (i + 1) :=
        hto.snoc hfield hsize hbinds hi ⟨hmember, hplaceholder⟩ honly
      refine .mono (ih htail (Nat.le_succ_of_le hi) hlt (he.congr hbinds.engines)
        (hbinds.tree.isPlain hplain) (hsucc ▸ nodup_map_snoc hnodup hnew) ?_ hsize1 hto1 hnodes1) ?_
      · intro name hname
        rw [hsucc, map_append, mem_append] at hname
        rcases hname with hname | hname
        · obtain ⟨symbol, hsymbol⟩ := hbound name hname
          exact ⟨symbol, hbinds.tree.keeps _ _ hsymbol⟩
        · rw [mem_singleton.mp hname]
          exact ⟨_, hmember⟩
      rintro _ s' ⟨hbinds', hto', hnodup', hsize', hnodes'⟩
      refine ⟨hbinds.trans hbinds', hto', hnodup', hsize', hnodes'.congr rfl fun x => ?_⟩
      rw [or_assoc]
      refine or_congr_right ⟨?_, ?_⟩
      · rintro (rfl | ⟨j, hj, hjlt, rfl⟩)
        · exact ⟨i, le_refl _, hlt, rfl⟩
        · exact ⟨j, by omega, hjlt, rfl⟩
      · rintro ⟨j, hj, hjlt, rfl⟩
        rcases eq_or_lt_of_le hj with rfl | hj
        · exact .inl rfl
        · exact .inr ⟨j, hj, hjlt, rfl⟩

end Fields

/-! ## Structures -/

section Structures

variable {s : Session} {decls : List StructDecl} {e : EngineId} {engine : Engine}

/-- A new structure, whose layout is a new placeholder. -/
def Session.withStruct (s : Session) (size : UInt32) : Session :=
  { s with
    types := s.types.push { running := size }
    placeholders := s.placeholders.push { state := .pending (.layout ⟨s.types.size⟩) } }

/-- A type has a scope for its members. -/
def Session.withMembers (s : Session) (t : ScopeTree) (type : TypeId) (members : ScopeId) :
    Session :=
  { s with
    tree := t
    types := s.types.modify type.index fun info => { info with members := some members } }

theorem EngineId.declareType_ends {bad : Fault → Prop} {name : String} {type : TypeSymbol}
    (he : s.At e engine) (hscopes : engine.scopes = [ScopeTree.root])
    (hpass : engine.currentPass = .declare) (hroot : s.tree.IsPlain ScopeTree.root)
    (hfound : ∀ old, s.tree.subScope? ScopeTree.root name = some old →
      ∀ text, bad (.error (.duplicateSymbol name text)))
    (hbound : ∀ old, s.tree.member? ScopeTree.root name = some old →
      ∀ text, bad (.error (.duplicateSymbol name text))) :
    Ends (e.declareType name type) s (fun _ s' => ∃ t, s.tree.Adds t name type ∧
      s' = s.withMembers t type.base ⟨s.tree.size⟩) bad := by
  have hscope := he.currentScope hscopes
  have hglobal : e.requireGlobal "declare a type" s = .ok () s := by
    unfold requireGlobal
    rw [isLocal_bind, hscope, hroot.isLocal]
    rfl
  refine .after (requirePass_of_at he hpass _) (.after hglobal (.after rfl ?_))
  rw [hscope]
  refine .onTree_bind (ScopeTree.addGlobal_ends hfound) ?_
  rintro _ _ ⟨hfree, rfl, rfl⟩
  refine .onTree_bind (ScopeTree.declare_ends ?_ fun old hs => ?_) ?_
  · rw [ScopeTree.size_push]
    exact Nat.zero_lt_succ _
  · rw [ScopeTree.member?, ScopeTree.scope_push_of_lt hroot.lt] at hs
    exact hbound old hs
  · rintro _ t ⟨-, hbinds, hnamed, honly⟩
    exact .of_ok rfl ⟨t, ScopeTree.adds_of_binds hroot hfree hbinds hnamed honly, rfl⟩

variable {placed : List PlacedStruct} {p : PlacedStruct} {s' s1 : Session}

theorem Session.Declared.snoc (h : s.Declared decls placed) (hgrows : s.Grows s')
    (hroot : s'.tree.IsPlain ScopeTree.root) (hp : p.Stands s' decls p.offsets.length)
    (hunsized : p.IsUnsized s') (hbefore : ∀ q ∈ placed, q.Before p)
    (hmembers : ∀ other symbol, s'.tree.member? ScopeTree.root other = some symbol →
      other = p.decl.name ∨ s.tree.member? ScopeTree.root other = some symbol)
    (hscopes : ∀ parent other id, s'.tree.subScope? parent other = some id →
      parent = ScopeTree.root ∧ other = p.decl.name ∨ s.tree.subScope? parent other = some id) :
    s'.Declared decls (placed ++ [p]) := by
  have hall : ∀ q ∈ placed ++ [p], q ∈ placed ∨ q = p := by simp
  refine ⟨hroot, fun q hq => ?_, fun q hq => ?_, ?_, fun name symbol hs => ?_,
    fun parent name id hs => ?_⟩
  · rcases hall q hq with hq | rfl
    · exact (h.stands q hq).grows hgrows
    · exact hp
  · rcases hall q hq with hq | rfl
    · exact (h.unsized q hq).grows (h.stands q hq).fits hgrows
    · exact hunsized
  · refine pairwise_append.mpr ⟨h.apart, pairwise_singleton _ _, fun q hq p' hp' => ?_⟩
    rw [mem_singleton.mp hp']
    exact hbefore q hq
  · rcases hmembers name symbol hs with rfl | hs
    · exact ⟨p, by simp, rfl⟩
    · obtain ⟨q, hq, hname⟩ := h.members name symbol hs
      exact ⟨q, by simp [hq], hname⟩
  · rcases hscopes parent name id hs with ⟨hparent, rfl⟩ | hs
    · exact ⟨hparent, p, by simp, rfl⟩
    · obtain ⟨hparent, q, hq, hname⟩ := h.scopes parent name id hs
      exact ⟨hparent, q, by simp [hq], hname⟩

/-- What is there once the type of a structure and its scope were made. -/
structure PlacedStruct.IsFounded (p : PlacedStruct) (s s' : Session) : Prop where
  base : p.base = ⟨s.types.size⟩
  layout : p.layout = ⟨s.placeholders.size⟩
  scope : p.scope = ⟨s.tree.size⟩
  grows : s.Grows s'
  adds : s.tree.Adds s'.tree p.decl.name (.reference p.struct)
  typeRefs : s'.typeRefs = s.typeRefs
  sizeTypes : s'.types.size = s.types.size + 1
  typeInfo : s'.typeInfo p.struct = { running := p.size, members := some p.scope }
  sizePlaceholders : s'.placeholders.size = s.placeholders.size + 1
  placeholder : s'.placeholder p.layout = { state := .pending (.layout p.base) }

def WrittenStruct.place (w : WrittenStruct) (s : Session) : PlacedStruct :=
  { w with base := ⟨s.types.size⟩, layout := ⟨s.placeholders.size⟩, scope := ⟨s.tree.size⟩ }

theorem WrittenStruct.isFounded_place (w : WrittenStruct) {t : ScopeTree}
    (hadds : s.tree.Adds t w.decl.name (.reference (w.place s).struct)) :
    (w.place s).IsFounded s
      ((s.withStruct w.size).withMembers t (w.place s).base (w.place s).scope) := by
  have htypes : ∀ i, ((s.withStruct w.size).withMembers t (w.place s).base
      (w.place s).scope).types.getD i default = if i = s.types.size then
        { running := w.size, members := some (w.place s).scope } else s.types.getD i default := by
    intro i
    show ((s.types.push { running := w.size }).modify s.types.size fun info =>
      { info with members := some (w.place s).scope }).getD i default = _
    rw [getD_modify, getD_push, getD_push, Array.size_push, if_pos rfl]
    by_cases hi : i = s.types.size
    · rw [if_pos ⟨hi, Nat.lt_succ_self _⟩, if_pos hi]
    · rw [if_neg fun h => hi h.1, if_neg hi, if_neg hi]
  refine ⟨rfl, rfl, rfl, ⟨hadds.toExtends, ?_, fun i hi => ?_, ?_, fun x hx => ?_⟩, hadds, rfl, ?_,
    ?_, ?_, ?_⟩
  · simp [withMembers, withStruct]
  · rw [htypes, if_neg (ne_of_lt hi)]
  · simp [withMembers, withStruct]
  · exact (getD_push _ _ _ _).trans (if_neg (ne_of_lt hx))
  · simp [withMembers, withStruct]
  · exact (htypes _).trans (if_pos rfl)
  · simp [withMembers, withStruct]
  · exact (getD_push _ _ _ _).trans (if_pos rfl)

theorem PlacedStruct.IsFounded.congr (h : p.IsFounded s s1) {visit : Visit}
    (htree : s'.tree = s1.tree.visited visit) (htypes : s'.types = s1.types)
    (hplaceholders : s'.placeholders = s1.placeholders) (htypeRefs : s'.typeRefs = s1.typeRefs) :
    p.IsFounded s s' := by
  have hplaceholder : ∀ x, s'.placeholder x = s1.placeholder x := by
    intro x
    rw [Session.placeholder, hplaceholders]
    rfl
  obtain ⟨hextends, hsizeTypes, hinfo, hsizePlaceholders, hold⟩ := h.grows
  refine ⟨h.base, h.layout, h.scope, ⟨htree ▸ hextends.visited visit, htypes ▸ hsizeTypes,
    htypes ▸ hinfo, hplaceholders ▸ hsizePlaceholders,
    fun x hx => (hplaceholder x).trans (hold x hx)⟩, htree ▸ h.adds.visited visit,
    htypeRefs.trans h.typeRefs, htypes ▸ h.sizeTypes, ?_,
    hplaceholders ▸ h.sizePlaceholders, (hplaceholder _).trans h.placeholder⟩
  rw [Session.typeInfo, htypes]
  exact h.typeInfo

theorem PlacedStruct.IsFounded.stands {types : List ValueType} (h : p.IsFounded s s1)
    (hroot : s.tree.IsPlain root) (hle : p.offsets.length ≤ p.decl.fields.length)
    (hbinds : s1.OnlyBinds p.scope s')
    (hlays : s'.Lays decls p.scope (p.decl.fields.take p.offsets.length) types)
    (htotal : totalBytes types = p.size.toNat) (hto : p.IsOpenTo s' p.decl.fields.length)
    (hsize : s'.placeholders.size = (p.slot p.decl.fields.length).index) :
    p.Stands s' decls p.offsets.length := by
  have hplain : s1.tree.IsPlain p.scope := h.scope ▸ h.adds.plain
  have hinfo : s'.typeInfo p.struct = { running := p.size, members := some p.scope } := by
    rw [Session.typeInfo, hbinds.types]
    exact h.typeInfo
  refine ⟨le_refl _, hle, hbinds.tree.member? h.adds.named, ?_, ?_, hbinds.tree.isPlain hplain,
    ?_, ⟨?_, ?_, ?_⟩, ⟨types, hlays, by rw [hinfo, htotal]⟩, fun i field hi hfield => ?_,
    fun name symbol hs => ?_, fun i symbol hi hs => ?_⟩
  · rw [subScope?, find?_congr hbinds.tree.size hbinds.tree.origin, h.scope]
    exact h.adds.sub
  · rw [h.scope]
    intro heq
    exact ne_of_gt hroot.lt (congrArg ScopeId.index heq)
  · rw [hbinds.tree.associatedType, h.scope]
    exact h.adds.made
  · rw [hbinds.tree.size]
    exact hplain.lt
  · rw [hbinds.types, h.base, h.sizeTypes]
    exact Nat.lt_succ_self _
  · rw [hsize, index_slot]
    omega
  · exact hto.fields i field hi (List.getElem?_eq_some_iff.mp hfield).1 hfield
  · have hmember := hto.members name symbol hs
    rwa [take_length] at hmember
  · -- a field that was just declared waits to be asked
    obtain ⟨field, hfield⟩ : ∃ field, p.decl.fields[i]? = some field :=
      ⟨_, getElem?_eq_getElem hi.lt⟩
    rw [(hto.fields i field hi.le hi.lt hfield).placeholder] at hs
    cases hs

theorem Structure.declareFields_ends
    (hleading : Leading 0 p.decl.fields p.offsets p.size.toNat) (hfresh : p.IsFresh s)
    (hdeclared : s.Declared decls placed) (hbefore : ∀ q ∈ placed, q.Before p)
    (hfounded : p.IsFounded s s1) (he : s1.At e engine) (hscope : engine.currentScope = p.scope)
    (hpass : engine.currentPass = .declare)
    (hopen :
      s1.OpenWith decls (fun x => (∃ q ∈ placed, q.Owns x) ∨ x = p.layout) fun _ _ => False) :
    Ends (declareKnown e (p.fields.zip p.offsets) >>= fun _ =>
        declarePending e p.base (p.fields.drop p.offsets.length)) s1 (fun _ s' =>
      s'.Declared decls (placed ++ [p]) ∧ s'.At e engine ∧ s'.typeRefs = s.typeRefs ∧
      (p.decl.fields.map Prod.snd).Nodup ∧
      s'.OpenWith decls (fun x => ∃ q ∈ placed ++ [p], q.Owns x) fun _ _ => False)
      (Clashes (p.decl.fields.map Prod.snd).Nodup) := by
  have hplain : s1.tree.IsPlain p.scope := hfounded.scope ▸ hfounded.adds.plain
  have hunbound : ∀ name symbol, s1.tree.member? p.scope name ≠ some symbol := by
    intro name symbol hs
    rw [hfounded.scope, hfounded.adds.unbound] at hs
    cases hs
  have hfresh1 : ∀ i field, p.decl.fields[i]? = some field →
      s1.typeRef ⟨p.references + i⟩ = TypeRef.ofForm field.1.form := by
    intro i field hfield
    rw [typeRef, hfounded.typeRefs]
    exact hfresh i field hfield
  have hnone : s1.Lays decls p.scope [] [] := .nil
  refine .bind (declareKnown_ends hleading he hscope hplain.lt (by simp) hfresh1 hnone rfl
    fun name symbol hs => absurd hs (hunbound name symbol)) ?_
  rintro _ _ ⟨t, types, rfl, hbinds, hlays, htotal, hnodup, hconstants⟩
  -- the leading fields are constants, and the placeholders of the others are made next
  have hto : p.IsOpenTo (s1.withTree t) p.offsets.length := by
    refine ⟨fun i field hi hlt => absurd hlt (not_lt.mpr hi), fun name symbol hs => ?_⟩
    obtain ⟨hname, hconstant⟩ := hconstants name symbol hs
    exact ⟨by simpa using hname, .inl hconstant⟩
  have hsize : s1.placeholders.size = (p.slot p.offsets.length).index := by
    rw [hfounded.sizePlaceholders, PlacedStruct.index_slot, hfounded.layout, Nat.sub_self]
  have hopen1 : (s1.withTree t).OpenWith decls
      (fun x => (∃ q ∈ placed, q.Owns x) ∨ x = p.layout) fun _ _ => False :=
    hopen.congr rfl
  rw [WrittenStruct.fields, drop_fieldsFrom]
  refine .mono (declarePending_ends rfl (le_refl _) hleading.length_le (he.congr rfl) hscope
    hpass (hbinds.isPlain hplain) hnodup (fun name => hlays.exists_member) hsize hto hopen1) ?_
  rintro _ s' ⟨hbinds', hto', hnodup', hsize', hopen'⟩
  have hall := (Session.OnlyBinds.of_binds hbinds).trans hbinds'
  have hlays' : s'.Lays decls p.scope (p.decl.fields.take p.offsets.length) types := by
    refine hlays.mono (fun type value htype => htype.mono (fun _ _ hs => hbinds'.tree.member? hs)
      ?_)
      fun _ _ _ hs => hbinds'.tree.member? hs
    intro t bytes hs
    rw [instanceSize, typeInfo, hbinds'.types]
    exact hs
  have hstands := hfounded.stands hdeclared.root hleading.length_le hall hlays' htotal hto' hsize'
  have hscopeSize : s.tree.size ≤ p.scope.index := by
    rw [hfounded.scope]
  have hgrows := hfounded.grows.onlyBinds hdeclared.root.lt hscopeSize hall
  have hrootMember : ∀ name, s'.tree.member? root name = s1.tree.member? root name := by
    intro name
    rw [member?, hall.tree.others _ hstands.inner.symm]
    rfl
  refine ⟨hdeclared.snoc hgrows (hgrows.tree.isPlain hdeclared.root) hstands ⟨?_, ?_⟩ hbefore ?_ ?_,
    he.congr hall.engines, hall.typeRefs.trans hfounded.typeRefs, hnodup',
    hopen'.congr rfl fun x => ?_⟩
  · rw [hall.placeholders, hfounded.placeholder]
    rw [hfounded.layout, hfounded.sizePlaceholders]
    exact Nat.lt_succ_self _
  · rw [typeInfo, hall.types]
    exact congrArg TypeInfo.instanceSize hfounded.typeInfo
  · intro name symbol hs
    rw [hrootMember] at hs
    exact hfounded.adds.onlyMember name symbol hs
  · intro parent name id hs
    rw [subScope?, find?_congr hall.tree.size hall.tree.origin] at hs
    exact hfounded.adds.onlySub parent name id hs
  · constructor
    · rintro ((⟨q, hq, hx⟩ | rfl) | ⟨j, hj, hlt, rfl⟩)
      · exact ⟨q, mem_append_left _ hq, hx⟩
      · exact ⟨p, by simp, .inl rfl⟩
      · exact ⟨p, by simp, .inr ⟨j, ⟨hj, hlt⟩, rfl⟩⟩
    · rintro ⟨q, hq, hx⟩
      rcases mem_append.mp hq with hq | hq
      · exact .inl (.inl ⟨q, hq, hx⟩)
      · rw [mem_singleton.mp hq] at hx
        rcases hx with rfl | ⟨j, hj, rfl⟩
        · exact .inl (.inr rfl)
        · exact .inr ⟨j, hj.le, hj.lt, rfl⟩

theorem Structure.declare_ends {w : WrittenStruct} (hw : w.decl ∈ decls)
    (hleading : Leading 0 w.decl.fields w.offsets w.size.toNat) (hfresh : w.IsFresh s)
    (hdeclared : s.Declared decls placed)
    (hnew : Distinct decls → ∀ q ∈ placed, q.decl.name ≠ w.decl.name)
    (hafter : ∀ q ∈ placed, q.references + q.decl.fields.length ≤ w.references) (he : s.At e engine)
    (hscopes : engine.scopes = [root]) (hpass : engine.currentPass = .declare)
    (hopen : s.OpenWith decls (fun x => ∃ p ∈ placed, p.Owns x) fun _ _ => False) :
    Ends (declare e w.decl.name w.fields w.offsets w.size) s (fun _ s' => ∃ p : PlacedStruct,
      p.toWrittenStruct = w ∧ s'.Declared decls (placed ++ [p]) ∧
      s'.At e { engine with scopes := p.scope :: engine.scopes } ∧ s'.typeRefs = s.typeRefs ∧
      (w.decl.fields.map Prod.snd).Nodup ∧
      s'.OpenWith decls (fun x => ∃ q ∈ placed ++ [p], q.Owns x) fun _ _ => False)
      (Clashes (Distinct decls)) := by
  have hfree : (∃ q ∈ placed, q.decl.name = w.decl.name) → ∀ text,
      Clashes (Distinct decls) (.error (.duplicateSymbol w.decl.name text)) := by
    rintro ⟨q, hq, hname⟩ text
    exact ⟨⟨_, _, rfl⟩, fun hdistinct => hnew hdistinct q hq hname⟩
  have hbefore : ∀ q ∈ placed, q.Before (w.place s) := by
    intro q hq
    have hfits := (hdeclared.stands q hq).fits
    exact ⟨hfits.scope, hfits.base, hfits.layout, hafter q hq⟩
  have hlaid : laidOutStruct w.decl.name w.size .layout s =
      .ok (w.place s).struct (s.withStruct w.size) := rfl
  unfold declare
  refine .after hlaid (.discard_bind (declareType_ends (he.congr rfl) hscopes hpass
    hdeclared.root (fun old hs => hfree (hdeclared.scopes _ _ _ hs).2)
    fun old hs => hfree (hdeclared.members _ _ hs)) ?_)
  rintro _ s2 ⟨t1, hadds, hs2⟩
  have hfounded2 : (w.place s).IsFounded s s2 := hs2 ▸ w.isFounded_place hadds
  have he2 : s2.At e engine := he.congr (by rw [hs2]; rfl)
  have hopen2 : s2.OpenWith decls (fun x => ∃ p ∈ placed, p.Owns x) fun _ _ => False :=
    hopen.congr (by rw [hs2]; rfl)
  -- the placeholder of the layout goes into the epoch, and the scope is entered
  obtain ⟨epoch, history, hregister, hopen3⟩ :=
    register_of_open hopen2 (w.place s).layout
  have hadd : e.addPlaceholder (w.place s).layout s2 = .ok () (s2.withEpoch epoch history) :=
    bind_eq_ok.mpr ⟨(), s2, requirePass_of_at he2 hpass _, hregister⟩
  refine .after hadd ?_
  have he3 : (s2.withEpoch epoch history).At e engine := he2.congr rfl
  have hroot2 : s2.tree.IsPlain root := hfounded2.adds.isPlain hdeclared.root
  refine .after (enterGlobal_of_found he3 hscopes hroot2 hfounded2.adds.sub) ?_
  refine .mono (declareFields_ends hleading hfresh hdeclared hbefore
    (hfounded2.congr rfl rfl rfl rfl) (he3.opening _ _) rfl hpass
    (hopen3.congr rfl)) (fun _ s' h => ⟨w.place s, rfl, h⟩) fun fault hclash => ?_
  exact hclash.mono fun hdistinct => hdistinct.fields _ hw

theorem Session.Declared.exit (h : s.Declared decls placed) (hp : p ∈ placed) (he : s.At e engine)
    {outer : List ScopeId} (hscopes : engine.scopes = p.scope :: ScopeTree.root :: outer) :
    ∃ s', e.exitGlobal s = .ok () s' ∧ s'.Declared decls placed ∧
      s'.At e { engine with scopes := ScopeTree.root :: outer } ∧ s'.typeRefs = s.typeRefs ∧
      s'.epoch = s.epoch := by
  refine ⟨_, exitGlobal_of_inside he hscopes (h.stands p hp).plain,
    h.sameNames ((sameNames_rewound _ _).visited _) rfl rfl, he.afterExit hscopes, rfl, rfl⟩

/-- The first pass declares all structures, one after the other. -/
theorem Runner.declareStructs_ends {r : Runner} {rest : List WrittenStruct}
    (hdecls : placed.map (·.decl) ++ rest.map WrittenStruct.decl = decls)
    (hrest : ∀ w ∈ rest, Leading 0 w.decl.fields w.offsets w.size.toNat ∧ w.IsFresh s)
    (hapart : rest.Pairwise fun w w' => w.references + w.decl.fields.length ≤ w'.references)
    (hafter : ∀ q ∈ placed, ∀ w ∈ rest, q.references + q.decl.fields.length ≤ w.references)
    (hdeclared : s.Declared decls placed) (he : s.At r.engine engine)
    (hscopes : engine.scopes = [ScopeTree.root]) (hpass : engine.currentPass = .declare)
    (hopen : s.OpenWith decls (fun x => ∃ p ∈ placed, p.Owns x) fun _ _ => False) :
    Ends (r.runActions .declare (rest.flatMap WrittenStruct.actions)) s (fun _ s' =>
      ∃ added : List PlacedStruct, added.map PlacedStruct.toWrittenStruct = rest ∧
        s'.Declared decls (placed ++ added) ∧ s'.At r.engine engine ∧ s'.typeRefs = s.typeRefs ∧
        (∀ w ∈ rest, (w.decl.fields.map Prod.snd).Nodup) ∧
        s'.OpenWith decls (fun x => ∃ p ∈ placed ++ added, p.Owns x) fun _ _ => False)
      (Clashes (Distinct decls)) := by
  induction rest generalizing placed s with
  | nil => exact .pure ⟨[], rfl, by simpa using hdeclared, he, rfl, by simp, by simpa using hopen⟩
  | cons w rest ih =>
    obtain ⟨hleading, hfresh⟩ := hrest w mem_cons_self
    have hw : w.decl ∈ decls := by
      rw [← hdecls]
      simp
    have hnew : Distinct decls → ∀ q ∈ placed, q.decl.name ≠ w.decl.name := by
      intro hdistinct q hq heq
      have hnames := hdistinct.names
      rw [← hdecls, map_append, map_map, map_cons, map_cons,
        nodup_middle, nodup_cons] at hnames
      exact hnames.1 (mem_append_left _ (mem_map.mpr ⟨q, hq, heq⟩))
    refine .bind (Structure.declare_ends hw hleading hfresh hdeclared hnew
      (fun q hq => hafter q hq w mem_cons_self) he hscopes hpass hopen) ?_
    rintro _ s1 ⟨p, rfl, hdeclared1, he1, htypeRefs1, hnodup1, hopen1⟩
    have hinside : ({ engine with scopes := p.scope :: engine.scopes } : Engine).scopes =
        [p.scope, ScopeTree.root] := by rw [hscopes]
    obtain ⟨s2, hexit, hdeclared2, he2, htypeRefs2, hepoch2⟩ :=
      hdeclared1.exit (mem_append_right _ (mem_singleton_self p)) he1 hinside
    have hengine : ({ engine with scopes := [ScopeTree.root] } : Engine) = engine := by
      rw [← hscopes]
    refine .after hexit ?_
    have htypeRefs : s2.typeRefs = s.typeRefs := htypeRefs2.trans htypeRefs1
    have hpair := pairwise_cons.mp hapart
    refine .mono (ih (by simpa using hdecls) ?_ hpair.2 ?_ hdeclared2 (hengine ▸ he2)
      (hopen1.congr hepoch2)) ?_
    · intro w hw
      obtain ⟨hleading, hfresh⟩ := hrest w (mem_cons_of_mem _ hw)
      refine ⟨hleading, fun i field hfield => ?_⟩
      rw [typeRef, htypeRefs]
      exact hfresh i field hfield
    · intro q hq w hw
      rcases mem_append.mp hq with hq | hq
      · exact hafter q hq w (mem_cons_of_mem _ hw)
      · rw [mem_singleton.mp hq]
        exact hpair.1 w hw
    · rintro _ s' ⟨added, rfl, hdeclared', he', htypeRefs', hnodup', hopen'⟩
      rw [append_assoc] at hdeclared' hopen'
      exact ⟨p :: added, rfl, hdeclared', he', htypeRefs'.trans htypeRefs,
        forall_mem_cons.mpr ⟨hnodup1, hnodup'⟩, hopen'⟩

end Structures

end StagedAsm
