import StagedAsm.Proofs.DependencyOrder
import StagedAsm.Proofs.StructBuilding

/-!
# Structures with their scopes and placeholders

What a session holds of a structure between the passes: its type, the scope of its fields and its
placeholders. `Stands` says that all this is in place and that a number of fields have their
offsets. It looks at little of the session, so what happens to one structure leaves the others
standing.
-/

namespace StagedAsm

open List

/-- A structure that was declared, with what was made for it. -/
structure PlacedStruct extends WrittenStruct where
  base : TypeId
  layout : PlaceholderId
  scope : ScopeId

namespace PlacedStruct

variable (p q : PlacedStruct)

def struct : TypeSymbol := .struct p.base p.decl.name (some p.layout)

/-- The placeholder of a field that is not among the leading ones. -/
def slot (i : Nat) : PlaceholderId := ⟨p.layout.index + 1 + (i - p.offsets.length)⟩

theorem index_slot (i : Nat) : (p.slot i).index = p.layout.index + 1 + (i - p.offsets.length) := rfl

structure IsPending (i : Nat) : Prop where
  le : p.offsets.length ≤ i
  lt : i < p.decl.fields.length

/-- The placeholder is that of the layout or of a field. -/
def Owns (x : PlaceholderId) : Prop := x = p.layout ∨ ∃ i, p.IsPending i ∧ x = p.slot i

/-- Everything of the first structure was made before the second. -/
structure Before : Prop where
  scope : p.scope.index < q.scope.index
  base : p.base.index < q.base.index
  layout : p.layout.index + (p.decl.fields.length - p.offsets.length) < q.layout.index
  references : p.references + p.decl.fields.length ≤ q.references

/-- What was made for the structure is in the session. -/
structure Fits (s : Session) : Prop where
  scope : p.scope.index < s.tree.size
  base : p.base.index < s.types.size
  layout : p.layout.index + (p.decl.fields.length - p.offsets.length) < s.placeholders.size

/-- The name of a field is bound to its placeholder, which waits to be asked. -/
structure IsOpen (s : Session) (i : Nat) (name : String) : Prop where
  member : s.tree.member? p.scope name = some (.placeholder (p.slot i))
  placeholder : s.placeholder (p.slot i) =
    { name := some name, owner := some p.scope, state := .pending (.field p.base (p.reference i)) }

/-- What a field before the given one may be bound to. -/
def IsMember (n : Nat) (symbol : Symbol) : Prop :=
  (∃ text type, symbol = .constant text type) ∨
    ∃ i, p.offsets.length ≤ i ∧ i < n ∧ symbol = .placeholder (p.slot i)

/-- The structure is declared and its first `n` fields have their offsets. -/
structure Stands (s : Session) (decls : List StructDecl) (n : Nat) : Prop where
  le : p.offsets.length ≤ n
  bound : n ≤ p.decl.fields.length
  named : s.tree.member? ScopeTree.root p.decl.name = some (.type (.reference p.struct))
  sub : s.tree.subScope? ScopeTree.root p.decl.name = some p.scope
  inner : p.scope ≠ ScopeTree.root
  plain : s.tree.IsPlain p.scope
  associated : (s.tree.scope p.scope).associatedType = some (.reference p.struct)
  fits : p.Fits s
  laid : ∃ types, s.Lays decls p.scope (p.decl.fields.take n) types ∧
    (s.typeInfo p.struct).running.toNat = totalBytes types
  opened : ∀ i field, n ≤ i → p.decl.fields[i]? = some field → p.IsOpen s i field.2
  members : ∀ name symbol, s.tree.member? p.scope name = some symbol →
    name ∈ p.decl.fields.map Prod.snd ∧ p.IsMember p.decl.fields.length symbol
  answers : ∀ i symbol, p.IsPending i → (s.placeholder (p.slot i)).state = .settled symbol →
    ∃ text type, symbol = .constant text type

/-- The layout waits to be asked. -/
structure IsUnsized (s : Session) : Prop where
  placeholder : s.placeholder p.layout = { state := .pending (.layout p.base) }
  size : (s.typeInfo p.struct).instanceSize = none

variable {p q}

variable {x : PlaceholderId} {s : Session} {placed : List PlacedStruct} {decls : List StructDecl}
  {n : Nat}

theorem Owns.index_le (h : p.Owns x) : p.layout.index ≤ x.index ∧
    x.index ≤ p.layout.index + (p.decl.fields.length - p.offsets.length) := by
  rcases h with rfl | ⟨i, hi, rfl⟩
  · exact ⟨.refl, Nat.le_add_right _ _⟩
  · have hle := hi.le
    have hlt := hi.lt
    rw [index_slot]
    omega

theorem Owns.lt_size (h : p.Owns x) (hfits : p.Fits s) :
    x.index < s.placeholders.size := lt_of_le_of_lt h.index_le.2 hfits.layout

theorem slot_inj {i j : Nat} (hi : p.IsPending i) (hj : p.IsPending j)
    (h : p.slot i = p.slot j) : i = j := by
  have hindex := congrArg PlaceholderId.index h
  have hle := hi.le
  have hle' := hj.le
  rw [index_slot, index_slot] at hindex
  omega

theorem slot_ne_layout (i : Nat) : p.slot i ≠ p.layout := by
  intro h
  have hindex := congrArg PlaceholderId.index h
  rw [index_slot] at hindex
  omega

theorem eq_or_before (h : placed.Pairwise Before) (hp : p ∈ placed) (hq : q ∈ placed) :
    p = q ∨ p.Before q ∨ q.Before p := by
  induction h with
  | nil => cases hp
  | cons hfirst _ ih =>
    rcases mem_cons.mp hp with hp | hp <;> rcases mem_cons.mp hq with hq | hq
    · exact .inl (hp.trans hq.symm)
    · exact .inr (.inl (hp ▸ hfirst q hq))
    · exact .inr (.inr (hq ▸ hfirst p hp))
    · exact ih hp hq

theorem Owns.unique (h : placed.Pairwise Before) (hp : p ∈ placed) (hq : q ∈ placed) (hx : p.Owns x)
    (hx' : q.Owns x) : p = q := by
  have hle := hx.index_le
  have hle' := hx'.index_le
  rcases eq_or_before h hp hq with heq | hbefore | hbefore
  · exact heq
  · have hlt := hbefore.layout
    omega
  · have hlt := hbefore.layout
    omega

theorem Stands.mono {s' : Session} (h : p.Stands s decls n)
    (hroot : ∀ name t, s.tree.member? ScopeTree.root name = some (.type t) →
      s'.tree.member? ScopeTree.root name = some (.type t))
    (hsub : s'.tree.subScope? ScopeTree.root p.decl.name = some p.scope)
    (hplain : s'.tree.IsPlain p.scope)
    (hassociated : (s'.tree.scope p.scope).associatedType = (s.tree.scope p.scope).associatedType)
    (hmember : ∀ name, s'.tree.member? p.scope name = s.tree.member? p.scope name)
    (hsizes : ∀ t bytes, s.instanceSize t = .ok bytes → s'.instanceSize t = .ok bytes)
    (hrunning : (s'.typeInfo p.struct).running = (s.typeInfo p.struct).running) (hfits : p.Fits s')
    (hslots : ∀ i, p.IsPending i → s'.placeholder (p.slot i) = s.placeholder (p.slot i)) :
    p.Stands s' decls n := by
  obtain ⟨types, hlays, htotal⟩ := h.laid
  refine ⟨h.le, h.bound, hroot _ _ h.named, hsub, h.inner, hplain, hassociated.trans h.associated,
    hfits, ⟨types, ?_, ?_⟩, fun i field hn hfield => ?_, fun name symbol hs => ?_,
    fun i symbol hi hs => ?_⟩
  · refine hlays.mono (fun type value htype => htype.mono hroot hsizes) fun name text type hs => ?_
    rw [hmember]
    exact hs
  · rw [hrunning, htotal]
  · obtain ⟨hopen, hplaceholder⟩ := h.opened i field hn hfield
    have hlt : i < p.decl.fields.length := (List.getElem?_eq_some_iff.mp hfield).1
    refine ⟨by rw [hmember, hopen], ?_⟩
    rw [hslots i ⟨le_trans h.le hn, hlt⟩, hplaceholder]
  · rw [hmember] at hs
    exact h.members name symbol hs
  · rw [hslots i hi] at hs
    exact h.answers i symbol hi hs

theorem Stands.exists_member (h : p.Stands s decls n) {name : String}
    (hname : name ∈ p.decl.fields.map Prod.snd) :
    ∃ symbol, s.tree.member? p.scope name = some symbol := by
  rw [← take_append_drop n p.decl.fields, map_append, mem_append] at hname
  rcases hname with hname | hname
  · obtain ⟨types, hlays, -⟩ := h.laid
    exact hlays.exists_member hname
  · obtain ⟨field, hmem, rfl⟩ := mem_map.mp hname
    obtain ⟨i, hfield⟩ := mem_iff_getElem?.mp hmem
    rw [getElem?_drop] at hfield
    exact ⟨_, (h.opened _ field (Nat.le_add_right n i) hfield).member⟩

end PlacedStruct

/-! ## What leaves structures standing -/

/-- More was declared, and what was there is as it was. -/
structure Session.Grows (s s' : Session) : Prop where
  tree : s.tree.Extends s'.tree
  sizeTypes : s.types.size ≤ s'.types.size
  types : ∀ i, i < s.types.size → s'.types.getD i default = s.types.getD i default
  sizePlaceholders : s.placeholders.size ≤ s'.placeholders.size
  placeholders : ∀ x, x.index < s.placeholders.size → s'.placeholder x = s.placeholder x

namespace Session

variable {s s' : Session}

variable {t : TypeSymbol} {bytes : UInt32}

theorem lt_size_of_instanceSize (h : s.instanceSize t = .ok bytes) :
    t.base.index < s.types.size := by
  refine Nat.lt_of_not_le fun hle => ?_
  have hinfo : s.typeInfo t = default := by simp [typeInfo, Array.getElem?_eq_none hle]
  rw [instanceSize, hinfo] at h
  cases h

theorem Grows.instanceSize (h : s.Grows s') (hsize : s.instanceSize t = .ok bytes) :
    s'.instanceSize t = .ok bytes := by
  have hinfo : s'.typeInfo t = s.typeInfo t := h.types _ (lt_size_of_instanceSize hsize)
  rw [Session.instanceSize, hinfo]
  exact hsize

end Session

namespace PlacedStruct

variable {p : PlacedStruct} {s s' : Session} {decls : List StructDecl} {n : Nat}

theorem Stands.grows (h : p.Stands s decls n) (hgrows : s.Grows s') : p.Stands s' decls n := by
  have hscope : s'.tree.scope p.scope = s.tree.scope p.scope :=
    hgrows.tree.others p.scope h.fits.scope h.inner
  refine h.mono (fun name t => hgrows.tree.keeps name _) (hgrows.tree.found _ _ h.sub)
    (hgrows.tree.isPlain h.plain) (by rw [hscope]) (fun name => ?_)
    (fun t bytes => hgrows.instanceSize) ?_ ?_ fun i hi => ?_
  · rw [ScopeTree.member?, hscope]
    rfl
  · have hinfo : s'.typeInfo p.struct = s.typeInfo p.struct := hgrows.types _ h.fits.base
    rw [hinfo]
  · exact ⟨lt_of_lt_of_le h.fits.scope hgrows.tree.size,
      lt_of_lt_of_le h.fits.base hgrows.sizeTypes,
      lt_of_lt_of_le h.fits.layout hgrows.sizePlaceholders⟩
  · exact hgrows.placeholders _ (Owns.lt_size (.inr ⟨i, hi, rfl⟩) h.fits)

theorem IsUnsized.grows (h : p.IsUnsized s) (hfits : p.Fits s) (hgrows : s.Grows s') :
    p.IsUnsized s' := by
  have hinfo : s'.typeInfo p.struct = s.typeInfo p.struct := hgrows.types _ hfits.base
  refine ⟨?_, by rw [hinfo, h.size]⟩
  rw [hgrows.placeholders _ (Owns.lt_size (.inl rfl) hfits), h.placeholder]

theorem Stands.sameNames (h : p.Stands s decls n) (htree : s.tree.SameNames s'.tree)
    (htypes : s'.types = s.types) (hplaceholders : s'.placeholders = s.placeholders) :
    p.Stands s' decls n := by
  have hinfo : ∀ t, s'.typeInfo t = s.typeInfo t := by
    intro t
    rw [Session.typeInfo, htypes]
    rfl
  refine h.mono (fun name t hs => ?_) ?_ (htree.isPlain h.plain) (htree.associatedType _)
    (htree.member? p.scope) (fun t bytes hs => ?_) (by rw [hinfo]) ?_ fun x _ => ?_
  · rw [htree.member?, hs]
  · rw [htree.subScope?, h.sub]
  · rw [Session.instanceSize, hinfo]
    exact hs
  · refine ⟨?_, ?_, ?_⟩
    · rw [htree.size]
      exact h.fits.scope
    · rw [htypes]
      exact h.fits.base
    · rw [hplaceholders]
      exact h.fits.layout
  · rw [Session.placeholder, hplaceholders]
    rfl

end PlacedStruct

/-! ## Declared structures -/

/-- Structures were declared one after the other, and nothing else is in the root. -/
structure Session.Declared (s : Session) (decls : List StructDecl)
    (placed : List PlacedStruct) : Prop where
  root : s.tree.IsPlain ScopeTree.root
  stands : ∀ p ∈ placed, p.Stands s decls p.offsets.length
  unsized : ∀ p ∈ placed, p.IsUnsized s
  apart : placed.Pairwise PlacedStruct.Before
  members : ∀ name symbol, s.tree.member? ScopeTree.root name = some symbol →
    ∃ p ∈ placed, p.decl.name = name
  scopes : ∀ parent name id, s.tree.subScope? parent name = some id →
    parent = ScopeTree.root ∧ ∃ p ∈ placed, p.decl.name = name

variable {s : Session} {decls : List StructDecl} {placed : List PlacedStruct}

theorem Session.Declared.subScope?_eq_none (h : s.Declared decls placed) {p : PlacedStruct}
    (hp : p ∈ placed) (name : String) : s.tree.subScope? p.scope name = none := by
  cases hsub : s.tree.subScope? p.scope name with
  | none => rfl
  | some id => exact absurd (h.scopes _ _ _ hsub).1 (h.stands p hp).inner

theorem Session.Declared.exists_of_subScope? (h : s.Declared decls placed) {name : String}
    {id : ScopeId} (hsub : s.tree.subScope? ScopeTree.root name = some id) :
    ∃ p ∈ placed, p.decl.name = name ∧ id = p.scope := by
  obtain ⟨-, p, hp, rfl⟩ := h.scopes _ _ _ hsub
  rw [(h.stands p hp).sub] at hsub
  exact ⟨p, hp, rfl, (Option.some.inj hsub).symm⟩

theorem Session.Declared.exists_of_member? (h : s.Declared decls placed) {name : String}
    {symbol : Symbol} (hmember : s.tree.member? ScopeTree.root name = some symbol) :
    ∃ p ∈ placed, p.decl.name = name ∧ symbol = .type (.reference p.struct) := by
  obtain ⟨p, hp, rfl⟩ := h.members _ _ hmember
  rw [(h.stands p hp).named] at hmember
  exact ⟨p, hp, rfl, (Option.some.inj hmember).symm⟩

theorem Session.Declared.settled_member (h : s.Declared decls placed) {p : PlacedStruct}
    (hp : p ∈ placed) {name : String} {symbol : Symbol}
    (hmember : s.tree.member? p.scope name = some symbol) : s.settled symbol = symbol := by
  rcases ((h.stands p hp).members name symbol hmember).2 with ⟨text, type, rfl⟩ | ⟨i, hi, hlt, rfl⟩
  · rfl
  · have hopen := (h.stands p hp).opened i _ hi (getElem?_eq_getElem hlt)
    rw [Session.settled, hopen.placeholder]
    rfl

theorem Session.Declared.isMember_settled (h : s.Declared decls placed) {p : PlacedStruct}
    (hp : p ∈ placed) {name : String} {symbol : Symbol}
    (hmember : s.tree.member? p.scope name = some symbol) :
    (∀ id, s.settled symbol ≠ .template id) ∧
      p.IsMember p.decl.fields.length (s.settled symbol) := by
  have hsymbol := ((h.stands p hp).members name symbol hmember).2
  rw [h.settled_member hp hmember]
  refine ⟨fun id => ?_, hsymbol⟩
  rcases hsymbol with ⟨_, _, rfl⟩ | ⟨_, _, _, rfl⟩ <;> exact nofun

theorem Session.Declared.eq_of_name (h : s.Declared decls placed) {p q : PlacedStruct}
    (hp : p ∈ placed) (hq : q ∈ placed) (hname : p.decl.name = q.decl.name) : p = q := by
  have hnamed := (h.stands p hp).named
  rw [hname, (h.stands q hq).named] at hnamed
  have hlayout : p.layout = q.layout := by
    injection hnamed with hnamed
    injection hnamed with hnamed
    injection hnamed with hnamed
    injection hnamed with _ _ hlayout
    exact (Option.some.inj hlayout).symm
  exact PlacedStruct.Owns.unique h.apart hp hq (.inl rfl) (.inl hlayout)

theorem Session.Declared.distinct (h : s.Declared decls placed)
    (hplaced : placed.map (·.decl) = decls)
    (hfields : ∀ p ∈ placed, (p.decl.fields.map Prod.snd).Nodup) : Distinct decls := by
  subst hplaced
  refine ⟨?_, by simpa using hfields⟩
  rw [map_map]
  refine pairwise_map.mpr (h.apart.imp_of_mem fun hp hq hbefore hname => ?_)
  obtain rfl := h.eq_of_name hp hq hname
  exact lt_irrefl _ hbefore.base

theorem Session.Declared.sameNames {s' : Session} (h : s.Declared decls placed)
    (htree : s.tree.SameNames s'.tree) (htypes : s'.types = s.types)
    (hplaceholders : s'.placeholders = s.placeholders) : s'.Declared decls placed where
  root := htree.isPlain h.root
  stands p hp := (h.stands p hp).sameNames htree htypes hplaceholders
  unsized p hp := by
    obtain ⟨hplaceholder, hsize⟩ := h.unsized p hp
    refine ⟨?_, ?_⟩
    · rw [Session.placeholder, hplaceholders]
      exact hplaceholder
    · rw [Session.typeInfo, htypes]
      exact hsize
  apart := h.apart
  members name symbol hs := by
    rw [htree.member?] at hs
    exact h.members name symbol hs
  scopes parent name id hs := by
    rw [htree.subScope?] at hs
    exact h.scopes parent name id hs

end StagedAsm
