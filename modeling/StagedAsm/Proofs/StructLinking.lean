import StagedAsm.Proofs.StructDeclaring

/-!
# Linking the fields of structures

The second pass looks up the types of the fields that have no offsets yet. Each of these fields then
waits for its type, unless that is a pointer, and for the field before it, and the layout for the
last of them. These are the only edges of the epoch, unless a field hides something.
-/

namespace StagedAsm

open EngineId List ScopeTree

/-! ## What fields wait for -/

inductive PlacedStruct.Links (placed : List PlacedStruct) (p : PlacedStruct) (n : Nat) :
    PlaceholderId → PlaceholderId → Prop
  | type {i : Nat} {q : PlacedStruct} {name : String} (hi : p.IsPending i) (hn : i < n)
      (hq : q ∈ placed) (hfield : p.decl.fields[i]? = some (.value q.decl.name, name))
      (hfree : q.decl.name ∉ p.decl.fields.map Prod.snd) : Links placed p n q.layout (p.slot i)
  | previous {i : Nat} (hi : p.IsPending i) (hn : i + 1 < n) :
      Links placed p n (p.slot i) (p.slot (i + 1))

/-- What the placeholders of a structure wait for. -/
inductive PlacedStruct.Waits (placed : List PlacedStruct) (p : PlacedStruct) :
    PlaceholderId → PlaceholderId → Prop
  | field {x y : PlaceholderId} (h : p.Links placed p.decl.fields.length x y) : Waits placed p x y
  | last {i : Nat} (hi : p.IsPending i) (hlast : i + 1 = p.decl.fields.length) :
      Waits placed p (p.slot i) p.layout

inductive Session.Tied (s : Session) (decls : List StructDecl) (placed : List PlacedStruct)
    (p : PlacedStruct) (type : FieldType) (r : TypeRef) : Prop
  | known {value : ValueType} (h : r.known = some value) (htype : s.HasType type value)
      (hbytes : type.Takes decls value.bytes.toNat)
  | layout {q : PlacedStruct} (hq : q ∈ placed) (htype : type = .value q.decl.name)
      (hfree : q.decl.name ∉ p.decl.fields.map Prod.snd) (hknown : r.known = none)
      (h : r.awaited = some (.layout q.struct))
  | symbol {q : PlacedStruct} {i : Nat} (hq : q ∈ placed) (hi : q.IsPending i)
      (hhides : Hides decls) (hknown : r.known = none)
      (h : r.awaited = some (.symbol (q.slot i)))

theorem Session.Tied.mono {s s' : Session} {decls : List StructDecl} {placed : List PlacedStruct}
    {p : PlacedStruct} {type : FieldType} {r : TypeRef} (h : s.Tied decls placed p type r)
    (htypes : ∀ type value, s.HasType type value → s'.HasType type value) :
    s'.Tied decls placed p type r := by
  cases h with
  | known h htype hbytes => exact .known h (htypes _ _ htype) hbytes
  | layout hq htype hfree hknown h => exact .layout hq htype hfree hknown h
  | symbol hq hi hhides hknown h => exact .symbol hq hi hhides hknown h

/-! ## Edges of the epoch -/

section Epoch

variable {s s' : Session} {decls : List StructDecl} {nodes : PlaceholderId → Prop}
  {waits waits' : PlaceholderId → PlaceholderId → Prop}

theorem Session.OpenWith.weaken (h : s.OpenWith decls nodes waits) (hepoch : s'.epoch = s.epoch)
    (hlower : ∀ x y, waits' x y → waits x y)
    (hupper : ∀ x y, waits x y → waits' x y ∨ Hides decls) : s'.OpenWith decls nodes waits' := by
  obtain ⟨g, hopen, hwf, hsorted, hmem, hlower', hupper'⟩ := h
  refine ⟨g, hepoch.trans hopen, hwf, hsorted, hmem, fun x y hxy => hlower' x y (hlower x y hxy),
    fun x y hxy => ?_⟩
  rcases hupper' x y hxy with hxy | hhides
  · exact hupper x y hxy
  · exact .inr hhides

theorem Session.OpenWith.congr_waits (h : s.OpenWith decls nodes waits)
    (hepoch : s'.epoch = s.epoch) (hwaits : ∀ x y, waits x y ↔ waits' x y) :
    s'.OpenWith decls nodes waits' :=
  h.weaken hepoch (fun x y => (hwaits x y).mpr) fun x y hxy => .inl ((hwaits x y).mp hxy)

theorem EngineId.addDependency_of_open {e : EngineId} {engine : Engine} (he : s.At e engine)
    (hpass : engine.currentPass = .resolve) (h : s.OpenWith decls nodes waits)
    {a b : PlaceholderId} (ha : nodes a) (hb : nodes b) :
    ∃ epoch history, e.addDependency a b s = .ok () (s.withEpoch epoch history) ∧
      (s.withEpoch epoch history).OpenWith decls nodes (fun x y => waits x y ∨ x = a ∧ y = b) := by
  obtain ⟨g, hopen, hwf, hsorted, hmem, hlower, hupper⟩ := h
  obtain ⟨g', hadd, hwf', hsorted', hmem', hwaits⟩ := DependencyGraph.addEdge_spec hwf hsorted a b
  refine ⟨some g', s.history.push (.linked a b), ?_, g', rfl, hwf', hsorted', fun x => ?_,
    fun x y hxy => (hwaits x y).mpr (hxy.imp_left (hlower x y)), fun x y hxy => ?_⟩
  · exact bind_eq_ok.mpr ⟨(), s, requirePass_of_at he hpass _,
      bind_eq_ok.mpr ⟨(), _, onEpoch_of_ok hopen hadd, rfl⟩⟩
  · rw [hmem', hmem]
    constructor
    · rintro ((hx | rfl) | rfl)
      · exact hx
      · exact ha
      · exact hb
    · exact fun hx => .inl (.inl hx)
  · rcases (hwaits x y).mp hxy with hxy | hxy
    · exact (hupper x y hxy).imp_left .inl
    · exact .inl (.inr hxy)

end Epoch

/-! ## Type references -/

/-- Some type references were changed, and nothing else but the epoch. -/
structure Session.OnlyTies (ids : TypeRefId → Prop) (s s' : Session) : Prop where
  tree : s'.tree = s.tree
  types : s'.types = s.types
  placeholders : s'.placeholders = s.placeholders
  engines : s'.engines = s.engines
  typeRefs : ∀ other, ¬ ids other → s'.typeRef other = s.typeRef other

namespace Session

variable {s s' : Session}

theorem typeRef_modify (s : Session) (id other : TypeRefId) (f : TypeRef → TypeRef) :
    ({ s with typeRefs := s.typeRefs.modify id.index f } : Session).typeRef other =
      if other = id ∧ id.index < s.typeRefs.size then f (s.typeRef id) else s.typeRef other := by
  cases id
  cases other
  simp only [typeRef, getD_modify, TypeRefId.mk.injEq]

theorem onlyTies_modify (s : Session) (id : TypeRefId) (f : TypeRef → TypeRef) :
    s.OnlyTies (· = id) { s with typeRefs := s.typeRefs.modify id.index f } :=
  ⟨rfl, rfl, rfl, rfl, fun other hne =>
    (s.typeRef_modify id other f).trans (if_neg fun h => hne h.1)⟩

variable {type : FieldType} {ids : TypeRefId → Prop}

theorem lt_size_of_known {id : TypeRefId} (h : s.typeRef id = TypeRef.ofForm type.form)
    (hknown : type.known? = none) : id.index < s.typeRefs.size := by
  refine Nat.lt_of_not_le fun hle => ?_
  have hnone : s.typeRef id = default := by simp [typeRef, Array.getElem?_eq_none hle]
  rw [hnone] at h
  cases type with
  | sized | block => cases hknown
  | named | value | reference => cases h
  | far use => cases use <;> cases h

theorem OnlyTies.trans {s1 : Session} (h : s.OnlyTies ids s1) (h' : s1.OnlyTies ids s') :
    s.OnlyTies ids s' where
  tree := h'.tree.trans h.tree
  types := h'.types.trans h.types
  placeholders := h'.placeholders.trans h.placeholders
  engines := h'.engines.trans h.engines
  typeRefs other hother := (h'.typeRefs other hother).trans (h.typeRefs other hother)

theorem OnlyTies.mono {ids' : TypeRefId → Prop} (h : s.OnlyTies ids s')
    (hids : ∀ id, ids id → ids' id) : s.OnlyTies ids' s' where
  tree := h.tree
  types := h.types
  placeholders := h.placeholders
  engines := h.engines
  typeRefs other hother := h.typeRefs other fun hid => hother (hids other hid)

theorem OnlyTies.declared {decls : List StructDecl} {placed : List PlacedStruct}
    (h : s.OnlyTies ids s') (hdeclared : s.Declared decls placed) : s'.Declared decls placed :=
  hdeclared.sameNames (h.tree ▸ .refl _) h.types h.placeholders

theorem hasType_congr (htree : s'.tree = s.tree) (htypes : s'.types = s.types) {value : ValueType}
    (h : s.HasType type value) : s'.HasType type value := by
  refine h.mono (fun name t hs => by rw [htree, hs]) fun t bytes hs => ?_
  rw [instanceSize, typeInfo, htypes]
  exact hs

/-! What a written type comes to if its name is that of a structure. -/

theorem applyTypeForm_value {path : Path} {p : PlacedStruct} (h : p.IsUnsized s) :
    s.applyTypeForm (.value path) (.type (.reference p.struct)) =
      .ok (.awaitingLayout p.struct) := by
  show applyTypeForm.outcome s p.struct = _
  rw [applyTypeForm.outcome, h.size]
  rfl

end Session

section Linking

variable {s : Session} {decls : List StructDecl} {placed : List PlacedStruct} {p : PlacedStruct}
  {e : EngineId} {engine : Engine} {nodes : PlaceholderId → Prop}
  {waits : PlaceholderId → PlaceholderId → Prop}

variable {id : TypeRefId} {i : Nat} {field : FieldType × String} {r : Runner} {x y : PlaceholderId}
  {s' : Session}

theorem TypeRefId.setKnown_of_lt (hlt : id.index < s.typeRefs.size) (type : ValueType) :
    ∃ s', id.setKnown type s = .ok () s' ∧ s.OnlyTies (· = id) s' ∧
      s'.typeRef id = { s.typeRef id with known := some type } ∧ s'.epoch = s.epoch := by
  refine ⟨_, rfl, s.onlyTies_modify id _, ?_, rfl⟩
  exact (s.typeRef_modify id id _).trans (if_pos ⟨rfl, hlt⟩)

theorem TypeRefId.waitFor_of_open (hlt : id.index < s.typeRefs.size) {awaited : Awaited}
    {dependency dependent : PlaceholderId}
    (hawaited : awaitedPlaceholder awaited s = .ok dependency s) (he : s.At e engine)
    (hpass : engine.currentPass = .resolve) (hopen : s.OpenWith decls nodes waits)
    (hdependency : nodes dependency) (hdependent : nodes dependent) :
    ∃ s', await.waitFor id (fun x => e.addDependency x dependent) awaited s = .ok () s' ∧
      s.OnlyTies (· = id) s' ∧ s'.typeRef id = { s.typeRef id with awaited := some awaited } ∧
      s'.OpenWith decls nodes (fun x y => waits x y ∨ x = dependency ∧ y = dependent) := by
  obtain ⟨epoch, history, hadd, hopen'⟩ :=
    addDependency_of_open he hpass hopen hdependency hdependent
  have hrun : await.waitFor id (fun x => e.addDependency x dependent) awaited s = .ok ()
      { s.withEpoch epoch history with typeRefs := s.typeRefs.modify id.index fun r =>
        { r with awaited := some awaited } } :=
    bind_eq_ok.mpr ⟨dependency, s, hawaited, bind_eq_ok.mpr ⟨(), _, hadd, rfl⟩⟩
  refine ⟨_, hrun, ⟨rfl, rfl, rfl, rfl, fun other hne => ?_⟩, ?_,
    hopen'.congr rfl⟩
  · exact ((s.withEpoch epoch history).typeRef_modify id other _).trans (if_neg fun h => hne h.1)
  · exact ((s.withEpoch epoch history).typeRef_modify id id _).trans (if_pos ⟨rfl, hlt⟩)

/-- A structure in place is waited for until its layout is known. -/
def PlacedStruct.TypeWaits (p : PlacedStruct) (placed : List PlacedStruct) (i : Nat)
    (type : FieldType) (x y : PlaceholderId) : Prop :=
  ∃ q ∈ placed, type = .value q.decl.name ∧ q.decl.name ∉ p.decl.fields.map Prod.snd ∧
    x = q.layout ∧ y = p.slot i

/-- The type of a field was looked up, and now the epoch has the given edges. -/
structure PlacedStruct.IsTied (p : PlacedStruct) (decls : List StructDecl)
    (placed : List PlacedStruct) (nodes : PlaceholderId → Prop)
    (waits : PlaceholderId → PlaceholderId → Prop) (i : Nat) (type : FieldType)
    (s s' : Session) : Prop where
  only : s.OnlyTies (· = p.reference i) s'
  tied : s'.Tied decls placed p type (s'.typeRef (p.reference i))
  opened : s'.OpenWith decls nodes waits

theorem TypeRefId.settleFrom_of_struct {q : PlacedStruct} (hq : q ∈ placed)
    (hunsized : q.IsUnsized s)
    (hnamed : s.tree.member? root q.decl.name = some (.type (.reference q.struct)))
    (href : s.typeRef (p.reference i) = TypeRef.ofForm field.1.form)
    (hlt : (p.reference i).index < s.typeRefs.size)
    (hname : field.1.name? = some q.decl.name) (he : s.At e engine)
    (hpass : engine.currentPass = .resolve) (hopen : s.OpenWith decls nodes waits)
    (hlayout : nodes q.layout) (hslot : nodes (p.slot i))
    (hunique : ∀ q' ∈ placed, q'.decl.name = q.decl.name → q' = q)
    (hfree : q.decl.name ∉ p.decl.fields.map Prod.snd) :
    ∃ s', await.settleFrom (p.reference i) (fun x => e.addDependency x (p.slot i)) s
        (TypeRef.ofForm field.1.form) (.type (.reference q.struct)) s = .ok () s' ∧
      p.IsTied decls placed nodes (fun x y => waits x y ∨ p.TypeWaits placed i field.1 x y) i
        field.1 s s' := by
  obtain ⟨type, name⟩ := field
  dsimp only at href hname ⊢
  -- a pointer is known at once
  have hpointer : ∀ value, (∀ s' : Session, s'.tree = s.tree → s'.HasType type value) →
      type.Takes decls value.bytes.toNat → (∀ name, type ≠ .value name) →
      ∃ s', (p.reference i).setKnown value s = .ok () s' ∧ p.IsTied decls placed nodes
        (fun x y => waits x y ∨ p.TypeWaits placed i type x y) i type s s' := by
    intro value htype hbytes hne
    obtain ⟨s', hrun, honly, href', hepoch⟩ := setKnown_of_lt hlt value
    refine ⟨s', hrun, honly, .known (by rw [href']) (htype s' honly.tree) hbytes, ?_⟩
    exact hopen.congr_waits hepoch fun x y => by simp [PlacedStruct.TypeWaits, hne]
  cases type with
  | sized | block | far => cases hname
  | named name =>
    cases hname
    exact hpointer ⟨.qword, 8, some (.reference q.struct)⟩
      (fun s' htree => .named (by rw [htree, hnamed])) (.named _) nofun
  | reference name =>
    cases hname
    exact hpointer ⟨.qword, 8, some (.reference (.reference q.struct))⟩
      (fun s' htree => .reference (by rw [htree, hnamed])) (.reference _) nofun
  | value name =>
    cases hname
    have hawaited : awaitedPlaceholder (.layout q.struct) s = .ok q.layout s := rfl
    obtain ⟨s', hrun, honly, href', hopen'⟩ :=
      waitFor_of_open hlt hawaited he hpass hopen hlayout hslot
    refine ⟨s', ?_, honly, .layout hq rfl hfree (by rw [href', href]; rfl) (by rw [href']), ?_⟩
    · refine bind_eq_ok.mpr ⟨.awaitingLayout q.struct, s, ?_, hrun⟩
      show ofExcept (s.applyTypeForm (.value (Path.ofName q.decl.name)) _) s = _
      rw [Session.applyTypeForm_value hunsized]
      rfl
    · refine hopen'.weaken rfl ?_ fun x y hxy =>
        .inl (hxy.imp_right fun h => ⟨q, hq, rfl, hfree, h⟩)
      rintro x y (hxy | ⟨q', hq', hvalue, -, hxy⟩)
      · exact .inl hxy
      · obtain rfl := hunique q' hq' (FieldType.value.inj hvalue).symm
        exact .inr hxy

theorem PlacedStruct.links_succ_iff (hi : p.IsPending i) (hfield : p.decl.fields[i]? = some field) :
    p.Links placed (i + 1) x y ↔ (p.Links placed i x y ∨ p.TypeWaits placed i field.1 x y) ∨
      p.offsets.length < i ∧ x = p.slot (i - 1) ∧ y = p.slot i := by
  constructor
  · intro h
    cases h with
    | @type j q name hj hn hq hfield' hfree =>
      rcases Nat.eq_or_lt_of_le (Nat.le_of_lt_succ hn) with rfl | hlt
      · cases hfield.symm.trans hfield'
        exact .inl (.inr ⟨q, hq, rfl, hfree, rfl, rfl⟩)
      · exact .inl (.inl (.type hj hlt hq hfield' hfree))
    | @previous j hj hn =>
      rcases Nat.eq_or_lt_of_le (Nat.le_of_lt_succ hn) with rfl | hlt
      · exact .inr ⟨Nat.lt_succ_of_le hj.le, rfl, rfl⟩
      · exact .inl (.inl (.previous hj hlt))
  · rintro ((h | ⟨q, hq, hvalue, hfree, rfl, rfl⟩) | ⟨hlt, rfl, rfl⟩)
    · cases h with
      | type hj hn hq hfield' hfree =>
        exact .type hj (Nat.lt_succ_of_lt hn) hq hfield' hfree
      | previous hj hn => exact .previous hj (Nat.lt_succ_of_lt hn)
    · have hvalue' : p.decl.fields[i]? = some (.value q.decl.name, field.2) := by
        rw [hfield, ← hvalue]
      exact .type hi (Nat.lt_succ_self i) hq hvalue' hfree
    · obtain ⟨j, rfl⟩ : ∃ j, i = j + 1 := ⟨i - 1, by omega⟩
      exact .previous ⟨Nat.le_of_lt_succ hlt, Nat.lt_of_succ_lt hi.lt⟩ (Nat.lt_succ_self _)

theorem PlacedStruct.IsTied.first (h : p.IsTied decls placed nodes (fun x y =>
      (waits x y ∨ p.Links placed i x y) ∨ p.TypeWaits placed i field.1 x y) i field.1 s s')
    (hi : p.IsPending i) (hfield : p.decl.fields[i]? = some field)
    (hfirst : ¬ p.offsets.length < i) : p.IsTied decls placed nodes
      (fun x y => waits x y ∨ p.Links placed (i + 1) x y) i field.1 s s' := by
  refine ⟨h.only, h.tied, h.opened.congr_waits rfl fun x y => ?_⟩
  rw [links_succ_iff hi hfield]
  simp only [hfirst, false_and, or_false, or_assoc]

theorem PlacedStruct.IsTied.addDependency (h : p.IsTied decls placed nodes (fun x y =>
      (waits x y ∨ p.Links placed i x y) ∨ p.TypeWaits placed i field.1 x y) i field.1 s s')
    (hi : p.IsPending i) (hfield : p.decl.fields[i]? = some field) (hnext : p.offsets.length < i)
    (he : s'.At e engine) (hpass : engine.currentPass = .resolve)
    (hnodes : ∀ x, p.Owns x → nodes x) :
    ∃ s'', e.addDependency (p.slot (i - 1)) (p.slot i) s' = .ok () s'' ∧ p.IsTied decls placed nodes
      (fun x y => waits x y ∨ p.Links placed (i + 1) x y) i field.1 s s'' := by
  have hlt := hi.lt
  obtain ⟨epoch, history, hadd, hopen⟩ := addDependency_of_open he hpass h.opened
    (hnodes (p.slot (i - 1)) (.inr ⟨i - 1, ⟨by omega, by omega⟩, rfl⟩))
    (hnodes (p.slot i) (.inr ⟨i, hi, rfl⟩))
  refine ⟨_, hadd, { h.only with },
    h.tied.mono fun _ _ htype => htype.mono (fun _ _ hs => hs) fun _ _ hs => hs,
    hopen.congr_waits rfl fun x y => ?_⟩
  rw [links_succ_iff hi hfield]
  simp only [hnext, true_and, or_assoc]

theorem PlacedStruct.reference_ne {j : Nat} (h : j ≠ i) : p.reference j ≠ p.reference i := by
  intro heq
  have hindex : p.references + j = p.references + i := congrArg TypeRefId.index heq
  omega

/-- The placeholder of the field before the given one, if it has one. -/
def PlacedStruct.previous? (p : PlacedStruct) (i : Nat) : Option PlaceholderId :=
  if p.offsets.length < i then some (p.slot (i - 1)) else none

/-- The types of the pending fields were looked up. -/
structure PlacedStruct.IsChained (p : PlacedStruct) (decls : List StructDecl)
    (placed : List PlacedStruct) (nodes : PlaceholderId → Prop)
    (waits : PlaceholderId → PlaceholderId → Prop) (s s' : Session) : Prop where
  only : s.OnlyTies (fun id => ∃ j, j < p.decl.fields.length ∧ id = p.reference j) s'
  tied : ∀ j field, p.offsets.length ≤ j → p.decl.fields[j]? = some field →
    s'.Tied decls placed p field.1 (s'.typeRef (p.reference j))
  opened : s'.OpenWith decls nodes waits

theorem PlacedStruct.waits_iff : p.Waits placed x y ↔
    p.Links placed p.decl.fields.length x y ∨ p.offsets.length < p.decl.fields.length ∧
      x = p.slot (p.decl.fields.length - 1) ∧ y = p.layout := by
  constructor
  · intro h
    cases h with
    | field h => exact .inl h
    | @last i hi hlast =>
      have hle := hi.le
      exact .inr ⟨by omega, by rw [← hlast, Nat.add_sub_cancel], rfl⟩
  · rintro (h | ⟨hlt, rfl, rfl⟩)
    · exact .field h
    · exact .last ⟨by omega, by omega⟩ (by omega)

theorem PlacedStruct.IsChained.settled (h : p.IsChained decls placed nodes
      (fun x y => waits x y ∨ p.Links placed p.decl.fields.length x y) s s')
    (hnone : ¬ p.offsets.length < p.decl.fields.length) :
    p.IsChained decls placed nodes (fun x y => waits x y ∨ p.Waits placed x y) s s' := by
  refine ⟨h.only, h.tied, h.opened.congr_waits rfl fun x y => ?_⟩
  rw [waits_iff]
  simp only [hnone, false_and, or_false]

theorem PlacedStruct.IsChained.addDependency (h : p.IsChained decls placed nodes
      (fun x y => waits x y ∨ p.Links placed p.decl.fields.length x y) s s')
    (hlt : p.offsets.length < p.decl.fields.length) (he : s'.At e engine)
    (hpass : engine.currentPass = .resolve) (hnodes : ∀ x, p.Owns x → nodes x) :
    ∃ s'', e.addDependency (p.slot (p.decl.fields.length - 1)) p.layout s' = .ok () s'' ∧
      p.IsChained decls placed nodes (fun x y => waits x y ∨ p.Waits placed x y) s s'' := by
  obtain ⟨epoch, history, hadd, hopen⟩ := addDependency_of_open he hpass h.opened
    (hnodes _ (.inr ⟨p.decl.fields.length - 1, ⟨by omega, by omega⟩, rfl⟩))
    (hnodes p.layout (.inl rfl))
  refine ⟨_, hadd, { h.only with },
    fun j field hj hfield => (h.tied j field hj hfield).mono fun _ _ htype =>
      htype.mono (fun _ _ hs => hs) fun _ _ hs => hs, hopen.congr_waits rfl fun x y => ?_⟩
  rw [waits_iff]
  simp only [hlt, true_and, or_assoc]

/-- The structure that is named, or a field that hides it. -/
inductive PlacedStruct.Finds (p : PlacedStruct) (decls : List StructDecl)
    (placed : List PlacedStruct) (type : FieldType) : Symbol → Prop
  | struct {q : PlacedStruct} (hq : q ∈ placed) (hname : type.name? = some q.decl.name)
      (hfree : q.decl.name ∉ p.decl.fields.map Prod.snd) :
      Finds p decls placed type (.type (.reference q.struct))
  | field {q : PlacedStruct} {symbol : Symbol} (hq : q ∈ placed)
      (hmeets : p.decl.Meets decls type.form.path)
      (h : q.IsMember q.decl.fields.length symbol) : Finds p decls placed type symbol

def PlacedStruct.Misses (p : PlacedStruct) (decls : List StructDecl) (type : FieldType)
    (fault : Fault) : Prop :=
  p.decl.Meets decls type.form.path ∨
    ∃ miss, type.miss? (decls.map StructDecl.name) = some miss ∧ miss.Explains fault

def PlacedStruct.Answers (p : PlacedStruct) (decls : List StructDecl) (placed : List PlacedStruct)
    (type : FieldType) : Option Symbol → Prop
  | some symbol => p.Finds decls placed type symbol
  | none => type.miss? (decls.map StructDecl.name) = some .undefined

def Misses (decls : List StructDecl) (fields : List (FieldType × String)) (fault : Fault) : Prop :=
  Hides decls ∨ ∃ miss, firstMiss? decls fields = some miss ∧ miss.Explains fault

section Misses

variable {fields before later : List (FieldType × String)} {fault : Fault} {type : FieldType}

theorem Misses.of_type (h : p.Misses decls field.1 fault) (hd : p.decl ∈ decls)
    (hfield : field ∈ p.decl.fields) : Misses decls (field :: later) fault := by
  rcases h with hmeets | ⟨miss, hmiss, hexplains⟩
  · exact .inl ⟨p.decl, hd, field, hfield, hmeets⟩
  · exact .inr ⟨miss, by rw [firstMiss?, findSome?_cons, hmiss], hexplains⟩

theorem Misses.append_left (h : Misses decls before fault) (later : List (FieldType × String)) :
    Misses decls (before ++ later) fault := by
  refine h.imp_right fun ⟨miss, hmiss, hexplains⟩ => ⟨miss, ?_, hexplains⟩
  rw [firstMiss?, findSome?_append, ← firstMiss?, hmiss]
  rfl

theorem Misses.append (h : Misses decls later fault) (hbefore : ∀ field ∈ before,
      Hides decls ∨ field.1.miss? (decls.map StructDecl.name) = none) :
    Misses decls (before ++ later) fault := by
  refine or_iff_not_imp_left.mpr fun hhides => ?_
  obtain ⟨miss, hmiss, hexplains⟩ := h.resolve_left hhides
  have hnone : firstMiss? decls before = none :=
    findSome?_eq_none_iff.mpr fun field hfield => (hbefore field hfield).resolve_left hhides
  refine ⟨miss, ?_, hexplains⟩
  rw [firstMiss?, findSome?_append, ← firstMiss?, hnone]
  exact hmiss

theorem Session.HasType.found {value : ValueType} (h : s.HasType type value)
    (hdeclared : s.Declared decls placed) (hplaced : placed.map (·.decl) = decls) :
    type.miss? (decls.map StructDecl.name) = none := by
  refine FieldType.miss?_eq_none_iff.mpr fun hknown => ?_
  have hname : ∃ name, type.name? = some name := by
    cases h with
    | sized | block => cases hknown
    | named | reference | value => exact ⟨_, rfl⟩
  obtain ⟨name, hname⟩ := hname
  obtain ⟨symbol, hsymbol⟩ := h.exists_member hname
  obtain ⟨q, hq, rfl⟩ := hdeclared.members name symbol hsymbol
  exact ⟨q.decl, hplaced ▸ mem_map_of_mem hq, hname⟩

theorem Session.Tied.found {ref : TypeRef} (h : s.Tied decls placed p type ref)
    (hdeclared : s.Declared decls placed) (hplaced : placed.map (·.decl) = decls) :
    Hides decls ∨ type.miss? (decls.map StructDecl.name) = none := by
  cases h with
  | known _ htype => exact .inr (htype.found hdeclared hplaced)
  | layout hq htype =>
    refine .inr (FieldType.miss?_eq_none_iff.mpr fun _ => ⟨_, hplaced ▸ mem_map_of_mem hq, ?_⟩)
    rw [htype]
    rfl
  | symbol _ _ hhides => exact .inl hhides

theorem PlacedStruct.Stands.found {n : Nat} (h : p.Stands s decls n)
    (hdeclared : s.Declared decls placed) (hplaced : placed.map (·.decl) = decls) :
    ∀ field ∈ p.decl.fields.take n, field.1.miss? (decls.map StructDecl.name) = none := by
  intro field hfield
  obtain ⟨types, hlays, -⟩ := h.laid
  obtain ⟨value, -, hvalue, -⟩ := hlays.of_mem hfield
  exact hvalue.found hdeclared hplaced

end Misses

/-- Behind the name of a structure a path leads to its fields. -/
theorem Runner.findFrom?_struct_ends {type : FieldType} {first : Segment} {rest : Path}
    {q : PlacedStruct} (hdeclared : s.Declared decls placed)
    (hplaced : placed.map (·.decl) = decls) (hknown : type.known? = none)
    (hpath : type.form.path = first :: rest) (hleads : first.asksMember rest = false)
    (hq : q ∈ placed) (hname : q.decl.name = first.name) :
    Ends (r.findFrom? q.scope rest) s
      (fun found s' => s' = s ∧ p.Answers decls placed type found) (p.Misses decls type) := by
  have hmiss := FieldType.miss?_of_not_asks (decls.map StructDecl.name) hknown hpath hleads
  cases rest with
  | nil => cases hleads
  | cons second later =>
    have hmeets : second.asksMember later = true → ∀ symbol,
        s.tree.member? q.scope second.name = some symbol → p.decl.Meets decls type.form.path := by
      intro hasks symbol hmember
      have hmem := ((hdeclared.stands q hq).members second.name symbol hmember).1
      rw [hpath]
      exact .other hleads (hplaced ▸ mem_map_of_mem hq) hname hasks hmem
    refine findFrom?_ends (hdeclared.stands q hq).plain.isLocal (fun _ _ => hmiss) ?_
      (fun _ _ => hmiss) ?_
    · intro hasks symbol hmember
      obtain ⟨hother, hfield⟩ := hdeclared.isMember_settled hq hmember
      exact ⟨hother, fun _ => .field hq (hmeets hasks symbol hmember) hfield,
        fun _ _ _ => .inl (hmeets hasks symbol hmember)⟩
    · intro _ next hsub
      rw [hdeclared.subScope?_eq_none hq] at hsub
      cases hsub

variable (hdeclared : s.Declared decls placed) (hplaced : placed.map (·.decl) = decls)
  (hp : p ∈ placed) (he : s.At r.engine engine) (hscopes : engine.scopes = [p.scope, root])
  (hfiles : engine.files = []) (hpass : engine.currentPass = .resolve)
  (hnodes : ∀ q ∈ placed, ∀ x, q.Owns x → nodes x)

include hdeclared hplaced hp he hscopes hfiles hpass hnodes

omit hnodes in
theorem Runner.findType_ends {type : FieldType} (hknown : type.known? = none) :
    Ends (r.find type.form.path) s (fun symbol s' => s' = s ∧ p.Finds decls placed type symbol)
      (p.Misses decls type) := by
  have hstands := hdeclared.stands p hp
  have hfind : Ends (r.findFirst? type.form.path engine.scopes) s
      (fun found s' => s' = s ∧ p.Answers decls placed type found) (p.Misses decls type) := by
    rw [hscopes]
    cases hpath : type.form.path with
    | nil => exact .of_ok rfl ⟨rfl, FieldType.miss?_of_path _ hknown hpath⟩
    | cons first rest =>
      have hin : Ends (r.findFrom? p.scope (first :: rest)) s (fun found s' => s' = s ∧
          (∀ symbol ∈ found, p.Finds decls placed type symbol) ∧ (found = none →
            first.asksMember rest = true → first.name ∉ p.decl.fields.map Prod.snd))
          (p.Misses decls type) := by
        have hnothing : ∀ symbol ∈ none, p.Finds decls placed type symbol := fun _ h => by cases h
        refine findFrom?_ends hstands.plain.isLocal
          (fun _ hnone => ⟨hnothing, fun _ _ hmem => ?_⟩) ?_
          (fun hleads _ => ⟨hnothing, fun _ hasks => ?_⟩) ?_
        · obtain ⟨symbol, hsymbol⟩ := hstands.exists_member hmem
          rw [hnone] at hsymbol
          cases hsymbol
        · -- a field of the structure hides what the name should mean
          intro hasks symbol hmember
          obtain ⟨hother, hfield⟩ := hdeclared.isMember_settled hp hmember
          have hmeets : p.decl.Meets decls type.form.path := by
            rw [hpath]
            exact .own hasks (hstands.members _ _ hmember).1
          refine ⟨hother, fun _ => ⟨fun other hsome => ?_, fun h => by cases h⟩,
            fun _ _ _ => .inl hmeets⟩
          cases hsome
          exact .field hp hmeets hfield
        · rw [hleads] at hasks
          cases hasks
        · intro _ next hsub
          rw [hdeclared.subScope?_eq_none hp] at hsub
          cases hsub
      refine findFirst?_cons_ends hin (fun symbol h => h.1 symbol rfl) ?_
      rintro ⟨-, hfree⟩
      -- every structure is bound in the root, and nothing else is
      refine findFirst?_cons_ends (findFrom?_ends hdeclared.root.isLocal ?_ ?_ ?_ ?_)
        (fun _ h => h) fun h => .pure ⟨rfl, h⟩
      · intro hasks hnone
        refine (FieldType.miss?_of_path _ hknown hpath).trans (if_neg fun hfound => ?_)
        obtain ⟨-, hmem⟩ := hfound
        rw [← hplaced, map_map] at hmem
        obtain ⟨q, hq, hname⟩ := mem_map.mp hmem
        rw [← hname] at hnone
        cases hnone.symm.trans (hdeclared.stands q hq).named
      · intro hasks symbol hmember
        obtain ⟨q, hq, hname, rfl⟩ := hdeclared.exists_of_member? hmember
        refine ⟨fun x h => (by cases h), fun hplain => ?_,
          fun htemplated _ _ => .inr ⟨_, ?_, .noTemplate _ _⟩⟩
        · refine .struct hq (FieldType.name?_eq_some_iff.mpr ?_) (hname ▸ hfree rfl hasks)
          rw [hpath, hname, Path.eq_ofName hasks hplain]
        · have hmem : first.name ∈ decls.map StructDecl.name := by
            rw [← hname, ← hplaced, map_map]
            exact mem_map_of_mem hq
          rw [FieldType.miss?_of_path _ hknown hpath, Path.miss?, if_pos ⟨hasks, hmem⟩,
            if_pos htemplated]
      · exact fun hleads _ => FieldType.miss?_of_not_asks _ hknown hpath hleads
      · intro hleads next hsub
        obtain ⟨q, hq, hname, rfl⟩ := hdeclared.exists_of_subScope? hsub
        exact findFrom?_struct_ends hdeclared hplaced hknown hpath hleads hq hname
  exact find_ends he hfiles (by rw [hpass]; decide) hfind fun hnone text =>
    .inr ⟨_, hnone, .undefined text⟩

theorem TypeRefId.await_ends (hi : p.IsPending i) (hfield : p.decl.fields[i]? = some field)
    (href : s.typeRef (p.reference i) = TypeRef.ofForm field.1.form)
    (hopen : s.OpenWith decls nodes waits) :
    Ends ((p.reference i).await r.find fun x => r.engine.addDependency x (p.slot i)) s
      (fun _ s' => p.IsTied decls placed nodes
        (fun x y => waits x y ∨ p.TypeWaits placed i field.1 x y) i field.1 s s')
      (p.Misses decls field.1) := by
  have hslot : nodes (p.slot i) := hnodes p hp _ (.inr ⟨i, hi, rfl⟩)
  have hd : p.decl ∈ decls := by
    rw [← hplaced]
    exact mem_map_of_mem hp
  unfold await
  refine .after rfl ?_
  rw [href]
  dsimp only
  rw [field.1.known_ofForm, field.1.form_ofForm]
  cases hknown : field.1.known? with
  | some value =>
    refine .pure ⟨⟨rfl, rfl, rfl, rfl, fun _ _ => rfl⟩,
      .known ?_ (FieldType.hasType_of_known hknown s)
      (FieldType.takes_of_known hknown decls), ?_⟩
    · rw [href, field.1.known_ofForm, hknown]
    · have hne : ∀ name, field.1 ≠ .value name := by
        intro name hvalue
        rw [hvalue] at hknown
        cases hknown
      exact hopen.congr_waits rfl fun x y => by simp [PlacedStruct.TypeWaits, hne]
  | none =>
    have hlt := Session.lt_size_of_known href hknown
    refine .bind (Runner.findType_ends hdeclared hplaced hp he hscopes hfiles hpass hknown) ?_
    rintro symbol s1 ⟨hs1, hfinds⟩
    obtain rfl : s = s1 := hs1.symm
    refine .after rfl ?_
    cases hfinds with
    | @struct q hq hname hfree =>
      obtain ⟨s', hrun, htied⟩ := settleFrom_of_struct hq (hdeclared.unsized q hq)
        (hdeclared.stands q hq).named href hlt hname he hpass hopen (hnodes q hq _ (.inl rfl)) hslot
        (fun q' hq' heq => hdeclared.eq_of_name hq' hq heq) hfree
      exact .of_ok hrun htied
    | @field q _ hq hmeets hsymbol =>
      have hhides : Hides decls := ⟨p.decl, hd, field, mem_of_getElem? hfield, hmeets⟩
      rcases hsymbol with ⟨text, type, rfl⟩ | ⟨j, hj, hjlt, rfl⟩
      · exact .of_error rfl (.inl hmeets)
      · have hopened := (hdeclared.stands q hq).opened j _ hj (getElem?_eq_getElem hjlt)
        have hpending : (s.placeholder (q.slot j)).isSettled = false := by
          rw [hopened.placeholder]
          rfl
        have hawaited : awaitedPlaceholder (.symbol (q.slot j)) s = .ok (q.slot j) s := rfl
        obtain ⟨s', hrun, honly, href', hopen'⟩ := waitFor_of_open hlt hawaited he hpass hopen
          (hnodes q hq _ (.inr ⟨j, ⟨hj, hjlt⟩, rfl⟩)) hslot
        dsimp only
        rw [hpending]
        refine .of_ok hrun ⟨honly, .symbol hq ⟨hj, hjlt⟩ hhides ?_ (by rw [href']), ?_⟩
        · rw [href', href, field.1.known_ofForm, hknown]
        · refine hopen'.weaken rfl ?_ fun _ _ _ => .inr hhides
          rintro x y (hxy | ⟨q, -, hvalue, hfree, -⟩)
          · exact .inl hxy
          · rw [hvalue] at hmeets
            exact absurd (StructDecl.meets_ofName.mp hmeets) hfree

/-- The fields are linked one after the other. -/
theorem Structure.chain_ends {name : String} {rest : List (FieldType × String)}
    (hrest : p.decl.fields.drop i = rest) (hi : p.offsets.length ≤ i)
    (hle : i ≤ p.decl.fields.length)
    (hfresh : ∀ j field, i ≤ j → p.decl.fields[j]? = some field →
      s.typeRef (p.reference j) = TypeRef.ofForm field.1.form)
    (htied : ∀ j field, p.offsets.length ≤ j → j < i → p.decl.fields[j]? = some field →
      s.Tied decls placed p field.1 (s.typeRef (p.reference j)))
    (hopen : s.OpenWith decls nodes fun x y => waits x y ∨ p.Links placed i x y) :
    Ends (chain r name (p.previous? i) (fieldsFrom (p.references + i) rest)) s (fun last s' =>
      last = p.previous? p.decl.fields.length ∧ p.IsChained decls placed nodes
        (fun x y => waits x y ∨ p.Links placed p.decl.fields.length x y) s s')
      (Misses decls rest) := by
  induction rest generalizing i s with
  | nil =>
    have hlast : i = p.decl.fields.length := le_antisymm hle (drop_eq_nil_iff.mp hrest)
    subst hlast
    refine .pure ⟨rfl, ⟨rfl, rfl, rfl, rfl, fun _ _ => rfl⟩, fun j field hj hfield => ?_, hopen⟩
    exact htied j field hj (List.getElem?_eq_some_iff.mp hfield).1 hfield
  | cons field rest ih =>
    obtain ⟨hlt, hfield, htail⟩ := drop_eq_cons hrest
    obtain ⟨hmember, hplaceholder⟩ := (hdeclared.stands p hp).opened i field hi hfield
    have hfound : (engine.scopes.findSome? fun scope => s.tree.member? scope field.2) =
        some (.placeholder (p.slot i)) := by
      rw [hscopes, findSome?_cons, hmember]
    have hsettled : s.settled (.placeholder (p.slot i)) = .placeholder (p.slot i) := by
      rw [Session.settled, hplaceholder]
      rfl
    -- once the field is linked, the others follow
    have hlater : ∀ s1, p.IsTied decls placed nodes
        (fun x y => waits x y ∨ p.Links placed (i + 1) x y) i field.1 s s1 →
        Ends (chain r name (some (p.slot i)) (fieldsFrom (p.references + i + 1) rest)) s1
          (fun last s' => last = p.previous? p.decl.fields.length ∧ p.IsChained decls placed nodes
            (fun x y => waits x y ∨ p.Links placed p.decl.fields.length x y) s s')
          (Misses decls (field :: rest)) := by
      rintro s1 ⟨honly, htied1, hopen1⟩
      have hnext : p.previous? (i + 1) = some (p.slot i) := by
        rw [PlacedStruct.previous?, if_pos (Nat.lt_succ_of_le hi), Nat.add_sub_cancel]
      rw [← hnext]
      refine .mono (ih (honly.declared hdeclared) (he.congr honly.engines) htail
        (Nat.le_succ_of_le hi) hlt (fun j field hj hfield => ?_)
        (fun j field' hj hjlt hfield' => ?_) hopen1) ?_ ?_
      · rw [honly.typeRefs _ (PlacedStruct.reference_ne (by omega))]
        exact hfresh j field (by omega) hfield
      · by_cases hji : j = i
        · subst hji
          cases hfield.symm.trans hfield'
          exact htied1
        · rw [honly.typeRefs _ (PlacedStruct.reference_ne hji)]
          exact (htied j field' hj (by omega) hfield').mono fun type value =>
            Session.hasType_congr honly.tree honly.types
      · rintro last s' ⟨hlast, honly', htied', hopen'⟩
        refine ⟨hlast, .trans (honly.mono ?_) honly', htied', hopen'⟩
        rintro id rfl
        exact ⟨i, hlt, rfl⟩
      · intro fault h
        show Misses decls ([field] ++ rest) fault
        refine h.append fun _ hfirst => ?_
        rw [mem_singleton.mp hfirst]
        exact htied1.found (honly.declared hdeclared) hplaced
    rw [fieldsFrom_cons, chain]
    refine .bind (Runner.find_ofName_ends he hfiles (by rw [hpass]; decide) ?_) ?_
    · intro hnone path
      rw [hfound] at hnone
      cases hnone
    rintro _ s1 ⟨hs1, member, hmember', rfl⟩
    obtain rfl : s = s1 := hs1.symm
    cases hfound.symm.trans hmember'
    rw [hsettled]
    dsimp only
    refine .bind ((TypeRefId.await_ends hdeclared hplaced hp he hscopes hfiles hpass hnodes
      ⟨hi, hlt⟩
      hfield (hfresh i field (le_refl _) hfield) hopen).mono (fun _ _ h => h) fun fault h =>
        .of_type h (hplaced ▸ mem_map_of_mem hp) (mem_of_getElem? hfield)) ?_
    intro _ s1 htied1
    rw [PlacedStruct.previous?]
    by_cases hfirst : p.offsets.length < i
    · obtain ⟨s2, hadd, hlinked⟩ := htied1.addDependency ⟨hi, hlt⟩ hfield hfirst
        (he.congr htied1.only.engines) hpass (hnodes p hp)
      rw [if_pos hfirst]
      exact .after hadd (hlater s2 hlinked)
    · rw [if_neg hfirst]
      exact hlater s1 (htied1.first ⟨hi, hlt⟩ hfield hfirst)

theorem Structure.link_ends (name : String) (hfresh : p.IsFresh s)
    (hopen : s.OpenWith decls nodes waits) :
    Ends (link r name (p.fields.drop p.offsets.length)) s
      (fun _ s' => p.IsChained decls placed nodes
        (fun x y => waits x y ∨ p.Waits placed x y) s s') (Misses decls p.decl.fields) := by
  have hstands := hdeclared.stands p hp
  have hscope := he.currentScope hscopes
  have htype : r.engine.associatedType s = .ok (some (.reference p.struct)) s := by
    unfold EngineId.associatedType
    rw [isLocal_bind, hscope, hstands.plain.isLocal]
    have hrun : (r.engine.scope >>= fun scope => pure scope.associatedType) s =
        .ok (s.tree.scope (s.engine r.engine).currentScope).associatedType s := rfl
    rw [hscope, hstands.associated] at hrun
    exact hrun
  have hnolinks : ∀ x y, ¬ p.Links placed p.offsets.length x y := by
    intro x y h
    cases h with
    | type hi hn => exact absurd hi.le (not_le.mpr hn)
    | previous hi hn => exact absurd hi.le (Nat.not_le.mpr (Nat.lt_of_succ_lt hn))
  have hfirst : p.previous? p.offsets.length = none := if_neg (lt_irrefl _)
  have hopen1 : s.OpenWith decls nodes fun x y => waits x y ∨ p.Links placed p.offsets.length x y :=
    hopen.congr_waits rfl fun x y => by simp only [hnolinks x y, or_false]
  refine .after htype ?_
  rw [WrittenStruct.fields, drop_fieldsFrom, ← hfirst]
  refine .bind ((chain_ends hdeclared hplaced hp he hscopes hfiles hpass hnodes rfl (le_refl _)
    hstands.bound (fun j field _ hfield => hfresh j field hfield)
    (fun j field hj hlt => absurd hj (not_le.mpr hlt)) hopen1).mono (fun _ _ h => h) ?_) ?_
  · intro fault h
    rw [← take_append_drop p.offsets.length p.decl.fields]
    exact h.append fun field hfield => .inr (hstands.found hdeclared hplaced field hfield)
  rintro _ s1 ⟨rfl, hchained⟩
  rw [PlacedStruct.previous?]
  by_cases hlt : p.offsets.length < p.decl.fields.length
  · obtain ⟨s2, hadd, hwaiting⟩ := hchained.addDependency hlt (he.congr hchained.only.engines) hpass
      (hnodes p hp)
    rw [if_pos hlt]
    exact .of_ok hadd hwaiting
  · rw [if_neg hlt]
    exact .pure (hchained.settled hlt)

end Linking

/-! ## The whole pass -/

structure Session.Linked (s : Session) (decls : List StructDecl)
    (placed linked : List PlacedStruct) : Prop where
  declared : s.Declared decls placed
  tied : ∀ p ∈ linked, ∀ j field, p.offsets.length ≤ j → p.decl.fields[j]? = some field →
    s.Tied decls placed p field.1 (s.typeRef (p.reference j))
  opened : s.OpenWith decls (fun x => ∃ p ∈ placed, p.Owns x)
    fun x y => ∃ p ∈ linked, p.Waits placed x y

section Pass

variable {s : Session} {decls : List StructDecl} {placed linked : List PlacedStruct}
  {p : PlacedStruct} {e : EngineId} {engine : Engine}

theorem PlacedStruct.Before.reference_ne {q : PlacedStruct} (h : p.Before q) {i j : Nat}
    (hi : i < p.decl.fields.length) : p.reference i ≠ q.reference j := by
  intro heq
  have hindex : p.references + i = q.references + j := congrArg TypeRefId.index heq
  have hle := h.references
  omega

variable {s' : Session}

theorem Session.Linked.snoc (h : s.Linked decls placed linked) (hbefore : ∀ q ∈ linked, q.Before p)
    (hp : p.IsChained decls placed (fun x => ∃ p ∈ placed, p.Owns x)
      (fun x y => (∃ q ∈ linked, q.Waits placed x y) ∨ p.Waits placed x y) s s') :
    s'.Linked decls placed (linked ++ [p]) := by
  refine ⟨hp.only.declared h.declared, fun q hq j field hj hfield => ?_,
    hp.opened.congr_waits rfl fun x y => by simp [or_and_right, exists_or]⟩
  · rcases mem_append.mp hq with hq | hq
    · have hlt : j < q.decl.fields.length := (List.getElem?_eq_some_iff.mp hfield).1
      rw [hp.only.typeRefs]
      · exact (h.tied q hq j field hj hfield).mono fun type value =>
          hasType_congr hp.only.tree hp.only.types
      · rintro ⟨i, -, heq⟩
        exact (hbefore q hq).reference_ne hlt heq
    · rw [mem_singleton] at hq
      subst hq
      exact hp.tied j field hj hfield

theorem Session.Linked.sameNames (h : s.Linked decls placed linked)
    (htree : s.tree.SameNames s'.tree) (htypes : s'.types = s.types)
    (hplaceholders : s'.placeholders = s.placeholders) (htypeRefs : s'.typeRefs = s.typeRefs)
    (hepoch : s'.epoch = s.epoch) : s'.Linked decls placed linked := by
  refine ⟨h.declared.sameNames htree htypes hplaceholders, fun p hp j field hj hfield => ?_,
    h.opened.congr hepoch⟩
  rw [Session.typeRef, htypeRefs]
  refine (h.tied p hp j field hj hfield).mono fun type value htype => htype.mono ?_ ?_
  · intro name t hs
    rw [htree.member?, hs]
  · intro t bytes hs
    rw [instanceSize, typeInfo, htypes]
    exact hs

theorem Session.Linked.exit (h : s.Linked decls placed linked) (hp : p ∈ placed)
    (he : s.At e engine) {outer : List ScopeId}
    (hscopes : engine.scopes = p.scope :: root :: outer) :
    ∃ s', e.exitGlobal s = .ok () s' ∧ s'.Linked decls placed linked ∧
      s'.At e { engine with scopes := root :: outer } ∧ s'.typeRefs = s.typeRefs := by
  refine ⟨_, exitGlobal_of_inside he hscopes (h.declared.stands p hp).plain,
    h.sameNames ((sameNames_rewound _ _).visited _) rfl rfl rfl rfl, ?_, rfl⟩
  exact he.afterExit hscopes

theorem Session.Linked.found (h : s.Linked decls placed linked)
    (hplaced : placed.map (·.decl) = decls) (hp : p ∈ placed) (hlinked : p ∈ linked) :
    ∀ field ∈ p.decl.fields, Hides decls ∨ field.1.miss? (decls.map StructDecl.name) = none := by
  intro field hfield
  obtain ⟨i, hi⟩ := mem_iff_getElem?.mp hfield
  by_cases hlt : i < p.offsets.length
  · have htaken : (p.decl.fields.take p.offsets.length)[i]? = some field := by
      rw [getElem?_take_of_lt hlt, hi]
    exact .inr ((h.declared.stands p hp).found h.declared hplaced field (mem_of_getElem? htaken))
  · exact (h.tied p hlinked i field (Nat.le_of_not_lt hlt) hi).found h.declared hplaced

theorem Session.Linked.defined (h : s.Linked decls placed placed)
    (hplaced : placed.map (·.decl) = decls) : Hides decls ∨ Defined decls := by
  refine or_iff_not_imp_left.mpr fun hhides d hd field hfield => ?_
  obtain ⟨p, hp, rfl⟩ := mem_map.mp (hplaced ▸ hd)
  exact FieldType.miss?_eq_none_iff.mp ((h.found hplaced hp hp field hfield).resolve_left hhides)

theorem Runner.linkStructs_ends {r : Runner} {rest : List PlacedStruct}
    (hall : linked ++ rest = placed) (hplaced : placed.map (·.decl) = decls)
    (hlinked : s.Linked decls placed linked) (hfresh : ∀ p ∈ rest, p.IsFresh s)
    (he : s.At r.engine engine) (hscopes : engine.scopes = [root])
    (hfiles : engine.files = []) (hpass : engine.currentPass = .resolve) :
    Ends (r.runActions .resolve
        ((rest.map PlacedStruct.toWrittenStruct).flatMap WrittenStruct.actions)) s
      (fun _ s' => s'.Linked decls placed placed ∧ s'.At r.engine engine)
      (Misses decls (rest.flatMap fun p => p.decl.fields)) := by
  induction rest generalizing linked s with
  | nil =>
    rw [append_nil] at hall
    subst hall
    exact .pure ⟨hlinked, he⟩
  | cons p rest ih =>
    have hp : p ∈ placed := by
      rw [← hall]
      simp
    have hapart := hlinked.declared.apart
    rw [← hall, pairwise_append] at hapart
    have hbefore : ∀ q ∈ linked, q.Before p := fun q hq => hapart.2.2 q hq p mem_cons_self
    have hlater : ∀ q ∈ rest, p.Before q := (pairwise_cons.mp hapart.2.1).1
    have hstands := hlinked.declared.stands p hp
    -- the scope of the structure is entered
    have hlinked1 : (r.engine.opening (.enterGlobal [p.decl.name]) p.scope s).Linked decls placed
        linked := hlinked.sameNames ((ScopeTree.SameNames.refl _).visited _) rfl rfl rfl rfl
    have he1 := he.opening (.enterGlobal [p.decl.name]) p.scope
    have hinside : ({ engine with scopes := p.scope :: engine.scopes } : Engine).scopes =
        [p.scope, root] := by rw [hscopes]
    have hlink := Structure.link_ends hlinked1.declared hplaced hp he1 hinside hfiles hpass
      (fun q hq x hx => ⟨q, hq, hx⟩) p.decl.name (hfresh p mem_cons_self) hlinked1.opened
    rw [flatMap_cons]
    refine .bind (.after (enterGlobal_of_found he hscopes hlinked.declared.root hstands.sub)
      (hlink.mono (fun _ _ h => h) fun _ h => h.append_left _)) fun _ s2 hwaiting => ?_
    -- and left again
    have hlinked2 := hlinked1.snoc hbefore hwaiting
    obtain ⟨s3, hexit, hlinked3, he3, htypeRefs3⟩ :=
      hlinked2.exit hp (he1.congr hwaiting.only.engines) hinside
    have hengine : ({ engine with scopes := [root] } : Engine) = engine := by
      rw [← hscopes]
    refine .after hexit ((ih (by simpa using hall) hlinked3 (fun q hq i field hfield => ?_)
      (hengine ▸ he3)).mono (fun _ _ h => h) fun _ h => h.append
        (hlinked2.found hplaced hp (mem_append_right _ (mem_singleton_self p))))
    rw [Session.typeRef, htypeRefs3, ← hfresh q (mem_cons_of_mem _ hq) i field hfield]
    refine hwaiting.only.typeRefs _ ?_
    rintro ⟨j, hj, heq⟩
    exact (hlater q hq).reference_ne hj heq.symm

end Pass

end StagedAsm
