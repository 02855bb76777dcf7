import StagedAsm.Proofs.PlaceholderRecords
import StagedAsm.Proofs.StructLinking

/-!
# Settling the fields of structures

When the epoch closes, the fields of a structure settle one after the other, each at the sum of the
bytes of those before it, and the layout after the last of them; a structure in place has its size
by then. One placeholder changes the records of one structure only.
-/

namespace StagedAsm

open List PlacedStruct Session

/-! ## Progress -/

/-- The first `n` fields have their offsets, and the size is known if the layout is settled. -/
structure PlacedStruct.Progress (p : PlacedStruct) (s : Session) (decls : List StructDecl)
    (placed : List PlacedStruct) (done : List PlaceholderId) (n : Nat) : Prop where
  stands : p.Stands s decls n
  fields : ∀ i, p.IsPending i → (p.slot i ∈ done ↔ i < n)
  tied : ∀ j field, n ≤ j → p.decl.fields[j]? = some field →
    s.Tied decls placed p field.1 (s.typeRef (p.reference j))
  sized : p.layout ∈ done → n = p.decl.fields.length ∧
    (s.typeInfo p.struct).instanceSize = some (s.typeInfo p.struct).running
  unsized : p.layout ∉ done → p.IsUnsized s

/-- A placeholder of a structure was settled, and no other structure was changed. -/
structure PlacedStruct.OnlySettles (p : PlacedStruct) (x : PlaceholderId) (s s' : Session) :
    Prop where
  tree : s.tree.Changes p.scope s'.tree
  sizeTypes : s'.types.size = s.types.size
  types : ∀ t : TypeSymbol, t.base ≠ p.base → s'.typeInfo t = s.typeInfo t
  sizes : ∀ t bytes, s.instanceSize t = .ok bytes → s'.instanceSize t = .ok bytes
  typeRefs : ∀ id, (∀ j, j < p.decl.fields.length → id ≠ p.reference j) →
    s'.typeRef id = s.typeRef id
  sizePlaceholders : s'.placeholders.size = s.placeholders.size
  placeholders : ∀ y, y ≠ x → s'.placeholder y = s.placeholder y
  engines : s'.engines = s.engines

namespace PlacedStruct

variable {p q : PlacedStruct} {s s' : Session} {decls : List StructDecl}
  {placed : List PlacedStruct} {done : List PlaceholderId} {n : Nat} {x : PlaceholderId}

theorem OnlySettles.hasType (h : p.OnlySettles x s s') (hinner : p.scope ≠ ScopeTree.root)
    {type : FieldType} {value : ValueType} (htype : s.HasType type value) :
    s'.HasType type value := by
  refine htype.mono (fun name t hs => ?_) h.sizes
  rw [h.tree.member?_of_ne hinner.symm, hs]

theorem OnlySettles.fits (h : p.OnlySettles x s s') (hq : q.Fits s) : q.Fits s' := by
  refine ⟨?_, ?_, ?_⟩
  · rw [h.tree.size]
    exact hq.scope
  · rw [h.sizeTypes]
    exact hq.base
  · rw [h.sizePlaceholders]
    exact hq.layout

theorem ne_of_apart (h : p.Before q ∨ q.Before p) :
    q.scope ≠ p.scope ∧ q.base ≠ p.base ∧
      ∀ i j, i < p.decl.fields.length → j < q.decl.fields.length →
        q.reference j ≠ p.reference i := by
  refine ⟨fun heq => ?_, fun heq => ?_, fun i j hi hj heq => ?_⟩
  · have hindex := congrArg ScopeId.index heq
    rcases h with h | h
    all_goals
      have hlt := h.scope
      omega
  · have hindex := congrArg TypeId.index heq
    rcases h with h | h
    all_goals
      have hlt := h.base
      omega
  · rcases h with h | h
    · exact h.reference_ne hi heq.symm
    · exact h.reference_ne hj heq

/-- A structure is as far as it was if another one was changed. -/
theorem Progress.of_other (h : q.Progress s decls placed done n) (hsettles : p.OnlySettles x s s')
    (hinner : p.scope ≠ ScopeTree.root) (hx : ¬ q.Owns x) (hapart : p.Before q ∨ q.Before p) :
    q.Progress s' decls placed (done ++ [x]) n := by
  obtain ⟨hscope, hbase, hreference⟩ := ne_of_apart hapart
  have hinfo : s'.typeInfo q.struct = s.typeInfo q.struct := hsettles.types _ hbase
  have hplaceholder : ∀ y, q.Owns y → s'.placeholder y = s.placeholder y := by
    intro y hy
    refine hsettles.placeholders y ?_
    rintro rfl
    exact hx hy
  have hdone : ∀ y, q.Owns y → (y ∈ done ++ [x] ↔ y ∈ done) := by
    intro y hy
    have hne : y ≠ x := by
      rintro rfl
      exact hx hy
    simp [hne]
  refine ⟨?_, fun i hi => ?_, fun j field hj hfield => ?_, fun hmem => ?_, fun hmem => ?_⟩
  · refine h.stands.mono (fun name t hs => ?_) ?_ (hsettles.tree.isPlain h.stands.plain)
      (hsettles.tree.associatedType _) (hsettles.tree.member?_of_ne hscope) hsettles.sizes
      (by rw [hinfo]) (hsettles.fits h.stands.fits)
      fun i hi => hplaceholder _ (.inr ⟨i, hi, rfl⟩)
    · rw [hsettles.tree.member?_of_ne hinner.symm, hs]
    · rw [hsettles.tree.subScope?, h.stands.sub]
  · rw [hdone _ (.inr ⟨i, hi, rfl⟩), h.fields i hi]
  · have hlt : j < q.decl.fields.length := (List.getElem?_eq_some_iff.mp hfield).1
    rw [hsettles.typeRefs _ fun i hi => hreference i j hi hlt]
    exact (h.tied j field hj hfield).mono fun type value => hsettles.hasType hinner
  · rw [hinfo]
    exact h.sized ((hdone _ (.inl rfl)).mp hmem)
  · obtain ⟨hlayout, hsize⟩ := h.unsized fun hold => hmem ((hdone _ (.inl rfl)).mpr hold)
    exact ⟨by rw [hplaceholder _ (.inl rfl), hlayout], by rw [hinfo, hsize]⟩

end PlacedStruct

/-! ## Asking one placeholder -/

section Asking

variable {s : Session} {x : PlaceholderId} {resolution : Resolution} {bad : Fault → Prop}

theorem PlaceholderId.resolve_ends {good : Symbol → Session → Prop}
    (hstate : (s.placeholder x).state = .pending resolution)
    (h : Ends (runResolution (s.placeholder x) resolution) (s.ask x)
      (fun symbol s' => good symbol (s'.answer x symbol)) bad) : Ends x.resolve s good bad := by
  rw [Ends, resolve_eq, hstate]
  dsimp only
  cases hrun : runResolution (s.placeholder x) resolution (s.ask x) with
  | ok symbol s' => exact h.good_of_ok hrun
  | error fault s' => exact h.bad_of_error hrun

theorem PlaceholderId.resolve_keeps_ends (good : Symbol → Session → Prop)
    (hstate : (s.placeholder x).state = .pending resolution)
    (h : Ends (runResolution (s.placeholder x) resolution) (s.ask x) (fun symbol s' =>
      s'.placeholders = (s.ask x).placeholders ∧ good symbol (s'.answer x symbol)) bad) :
    Ends x.resolve s (fun symbol s' => (s'.placeholder x).owner = (s.placeholder x).owner ∧
      (s'.placeholder x).name = (s.placeholder x).name ∧ good symbol s') bad := by
  have hlt : x.index < s.placeholders.size := lt_size_of_isPending ⟨resolution, hstate⟩
  refine PlaceholderId.resolve_ends hstate (h.mono ?_)
  rintro symbol s' ⟨hplaceholders, hgood⟩
  have hlt' : x.index < s'.placeholders.size := by simpa [hplaceholders] using hlt
  have hask : s'.placeholder x = (s.ask x).placeholder x := by
    rw [placeholder, hplaceholders]
    rfl
  rw [placeholder_answer, if_pos ⟨rfl, hlt'⟩, hask, placeholder_ask,
    if_pos ⟨rfl, hlt⟩]
  exact ⟨rfl, rfl, hgood⟩

variable {good : Session → Prop}

theorem settlePlaceholder_anonymous_ends (hx : s.placeholder x = { state := .pending resolution })
    (h : Ends (runResolution (s.placeholder x) resolution) (s.ask x) (fun symbol s' =>
      s'.placeholders = (s.ask x).placeholders ∧ good (s'.answer x symbol)) bad) :
    Ends (settlePlaceholder x) s (fun _ => good) bad := by
  rw [settlePlaceholder_eq]
  refine (PlaceholderId.resolve_keeps_ends (fun _ => good) (by rw [hx]) h).bind ?_
  rintro symbol s' ⟨howner, -, hgood⟩
  refine .after rfl ?_
  rw [howner, hx]
  exact .pure hgood

theorem settlePlaceholder_named_ends {owner : ScopeId} {name : String} {other : PlaceholderId}
    (hx : s.placeholder x =
      { name := some name, owner := some owner, state := .pending resolution })
    (hmember : s.tree.member? owner name = some (.placeholder other))
    (h : Ends (runResolution (s.placeholder x) resolution) (s.ask x) (fun symbol s' =>
      s'.tree = s.tree ∧ s'.placeholders = (s.ask x).placeholders ∧
        good ((s'.answer x symbol).rebind owner name symbol)) bad) :
    Ends (settlePlaceholder x) s (fun _ => good) bad := by
  have hresolve := PlaceholderId.resolve_keeps_ends
    (fun symbol s' => s'.tree = s.tree ∧ good (s'.rebind owner name symbol)) (by rw [hx])
    (h.mono fun _ _ ⟨htree, hplaceholders, hgood⟩ => ⟨hplaceholders, htree, hgood⟩)
  rw [settlePlaceholder_eq]
  refine hresolve.bind ?_
  rintro symbol s' ⟨howner, hname, htree, hgood⟩
  have hreplace : ScopeTree.replacePlaceholder owner name symbol s'.tree = .ok ()
      (s'.tree.modifyScope owner fun scope =>
        { scope with members := scope.members.set name symbol }) := by
    rw [ScopeTree.replacePlaceholder_apply, htree, hmember]
    rfl
  refine .after rfl ?_
  rw [howner, hname, hx]
  refine .of_ok (a := ()) ?_ hgood
  simp only [bind, EStateM.bind, onTree, hreplace]
  rfl

end Asking

/-! ## Settling a field -/

section Field

variable {s : Session} {decls : List StructDecl} {placed : List PlacedStruct} {p : PlacedStruct}
  {type : FieldType}

/-- A structure in place has its size and takes that many bytes. -/
def Session.Sized (s : Session) (decls : List StructDecl) (placed : List PlacedStruct)
    (p : PlacedStruct) (type : FieldType) : Prop :=
  ∀ q ∈ placed, type = .value q.decl.name → q.decl.name ∉ p.decl.fields.map Prod.snd →
    ∃ bytes, s.HasType type ⟨.none, bytes, some q.struct⟩ ∧ type.Takes decls bytes.toNat

theorem PlaceholderId.result_ends {x : PlaceholderId} {bad : Fault → Prop}
    (hbad : ∀ fault, bad fault) : Ends x.result s
      (fun symbol s' => s' = s ∧ (s.placeholder x).state = .settled symbol) bad := by
  refine .after rfl ?_
  dsimp only
  unfold Placeholder.result?
  cases (s.placeholder x).state with
  | settled symbol => exact .pure ⟨rfl, rfl⟩
  | pending resolution => exact .throw (hbad _)
  | spent => exact .throw (hbad _)

/-- Fields that are settled are numbers. -/
def Session.Numbered (s : Session) (placed : List PlacedStruct) : Prop :=
  ∀ q ∈ placed, ∀ i symbol, q.IsPending i → (s.placeholder (q.slot i)).state = .settled symbol →
    ∃ text type, symbol = .constant text type

theorem TypeRefId.settle_ends {id : TypeRefId}
    (htied : s.Tied decls placed p type (s.typeRef id)) (hsized : s.Sized decls placed p type)
    (hanswers : s.Numbered placed) :
    Ends id.settle s (fun _ s' => s.OnlyTies (· = id) s' ∧ ∃ value,
      (s'.typeRef id).known = some value ∧ s.HasType type value ∧
        type.Takes decls value.bytes.toNat) fun _ => Hides decls := by
  -- a reference that waits for something is in the session
  have hlt : ∀ awaited, (s.typeRef id).awaited = some awaited → id.index < s.typeRefs.size := by
    intro awaited h
    refine Nat.lt_of_not_le fun hle => ?_
    have hnone : s.typeRef id = default := by simp [typeRef, Array.getElem?_eq_none hle]
    rw [hnone] at h
    cases h
  unfold settle
  refine .after rfl ?_
  dsimp only
  cases htied with
  | @known value h htype hbytes =>
    rw [h]
    exact .pure ⟨⟨rfl, rfl, rfl, rfl, fun _ _ => rfl⟩, value, h, htype, hbytes⟩
  | @layout q hq htype hfree hknown h =>
    obtain ⟨bytes, hhas, hbytes⟩ := hsized q hq htype hfree
    have hsize : s.instanceSize q.struct = .ok bytes := by
      subst htype
      cases hhas with
      | value _ hsize => exact hsize
    have hvalue : s.valueTypeOf q.struct = .ok ⟨.none, bytes, some q.struct⟩ := by
      show (s.instanceSize q.struct).map _ = _
      rw [hsize]
      rfl
    rw [hknown, h]
    dsimp only
    refine .after rfl ?_
    rw [hvalue]
    have hforgets := s.onlyTies_modify id fun r => { r with awaited := none }
    obtain ⟨s', hrun, honly, href, -⟩ := setKnown_of_lt (s := { s with
      typeRefs := s.typeRefs.modify id.index fun r => { r with awaited := none } })
      (by simpa using hlt _ h) ⟨.none, bytes, some q.struct⟩
    exact .of_ok hrun ⟨hforgets.trans honly, _, by rw [href], hhas, hbytes⟩
  | @symbol q i hq hi hhides hknown h =>
    -- a field is a number, which is no type
    rw [hknown, h]
    dsimp only
    refine .after rfl ?_
    refine .bind (PlaceholderId.result_ends fun _ => hhides) ?_
    rintro symbol s' ⟨-, hstate⟩
    obtain ⟨text, type, rfl⟩ := hanswers q hq i symbol hi hstate
    exact .of_error rfl hhides

/-- What settling a field changes before its name is given the offset. -/
structure PlacedStruct.Advances (p : PlacedStruct) (i : Nat) (value : ValueType)
    (s s' : Session) : Prop where
  tree : s'.tree = s.tree
  placeholders : s'.placeholders = s.placeholders
  engines : s'.engines = s.engines
  typeRefs : ∀ id, id ≠ p.reference i → s'.typeRef id = s.typeRef id
  sizeTypes : s'.types.size = s.types.size
  types : ∀ t : TypeSymbol, t.base ≠ p.base → s'.typeInfo t = s.typeInfo t
  size : (s'.typeInfo p.struct).instanceSize = (s.typeInfo p.struct).instanceSize
  running : (s'.typeInfo p.struct).running.toNat =
    (s.typeInfo p.struct).running.toNat + value.bytes.toNat

theorem Session.typeInfo_modify (s : Session) (id : TypeId) (t : TypeSymbol)
    (f : TypeInfo → TypeInfo) :
    ({ s with types := s.types.modify id.index f } : Session).typeInfo t =
      if t.base = id ∧ id.index < s.types.size then f (s.typeInfo t) else s.typeInfo t := by
  simp only [typeInfo, getD_modify]
  by_cases h : t.base = id
  · simp [h]
  · have hindex : t.base.index ≠ id.index := fun heq => h (congrArg TypeId.mk heq)
    simp [h, hindex]

/-- The offset is too large, unless a field hides something. -/
def Overflows (decls : List StructDecl) (fault : Fault) : Prop :=
  Hides decls ∨ fault = .overflow .add ∧ ¬ Bounded decls

theorem runResolution_field_ends {x : Placeholder} {i : Nat}
    (htied : s.Tied decls placed p type (s.typeRef (p.reference i)))
    (hsized : s.Sized decls placed p type) (hanswers : s.Numbered placed)
    (hbase : p.base.index < s.types.size)
    (hbounded : ∀ bytes : UInt32, type.Takes decls bytes.toNat →
      UInt32.size ≤ (s.typeInfo p.struct).running.toNat + bytes.toNat → ¬ Bounded decls) :
    Ends (runResolution x (.field p.base (p.reference i))) s (fun symbol s' => ∃ value,
      symbol = .constant (toString (s.typeInfo p.struct).running.toNat) (some value) ∧
        s.HasType type value ∧ type.Takes decls value.bytes.toNat ∧ p.Advances i value s s')
      (Overflows decls) := by
  refine .bind ((TypeRefId.settle_ends htied hsized hanswers).mono (fun _ _ h => h) fun _ => .inl)
    ?_
  rintro _ s1 ⟨honly, value, hvalue, htype, hbytes⟩
  have hinfo : ∀ t, s1.typeInfo t = s.typeInfo t := by
    intro t
    rw [typeInfo, honly.types]
    rfl
  refine .after (TypeRefId.known_of_eq hvalue) (.after rfl ?_)
  show Ends (ofFault (addBytes (s1.typeInfo p.struct).running value.bytes) >>= _) s1 _ _
  rw [hinfo]
  cases hnext : addBytes (s.typeInfo p.struct).running value.bytes with
  | error fault =>
    obtain ⟨rfl, hlarge⟩ := addBytes_eq_error hnext
    exact .of_error rfl (.inr ⟨rfl, hbounded value.bytes hbytes hlarge⟩)
  | ok next =>
    have hsum := addBytes_eq_ok_iff.mp hnext
    have hmodified := fun t => s1.typeInfo_modify p.base t fun info => { info with running := next }
    have hlt : p.base.index < s1.types.size := by rwa [honly.types]
    have hown := (hmodified p.struct).trans (if_pos ⟨rfl, hlt⟩)
    have hsize := congrArg TypeInfo.instanceSize hown
    refine .of_ok rfl ⟨value, ?_, htype, hbytes, honly.tree, honly.placeholders, honly.engines,
      honly.typeRefs, ?_, fun t ht => ?_, ?_, ?_⟩
    · show Symbol.constant (toString (s1.typeInfo p.struct).running) _ = _
      rw [hinfo]
      rfl
    · show (s1.types.modify _ _).size = _
      rw [Array.size_modify, honly.types]
    · rw [← hinfo]
      exact (hmodified t).trans (if_neg fun h => ht h.1)
    · rw [← hinfo]
      exact hsize
    · rw [← hsum]
      exact congrArg (fun info => info.running.toNat) hown

theorem Session.Lays.sizes_snoc {scope : ScopeId} {fields : List (FieldType × String)}
    {types : List ValueType} {n size : Nat} {field : FieldType × String}
    (h : s.Lays decls scope (fields.take n) types) (hfield : fields[n]? = some field)
    (htakes : field.1.Takes decls size) :
    Sizes decls fields ((types.map fun type => type.bytes.toNat) ++ [size]) := by
  have hn : n < fields.length := (List.getElem?_eq_some_iff.mp hfield).1
  have hlength : types.length = n := by
    rw [h.length_eq, List.length_take]
    omega
  refine ⟨?_, fun i field' size' hfield' hsize' => ?_⟩
  · simp only [List.length_append, List.length_map, List.length_singleton]
    omega
  · by_cases hi : i < n
    · rw [List.getElem?_append_left (by simp; omega), List.getElem?_map] at hsize'
      obtain ⟨value, hvalue, rfl⟩ := Option.map_eq_some_iff.mp hsize'
      have htaken : (fields.take n)[i]? = some field' := by
        rw [List.getElem?_take_of_lt hi, hfield']
      exact (h.field htaken hvalue).2.1
    · have hlast : i = n := by
        have hlt := (List.getElem?_eq_some_iff.mp hsize').1
        simp only [List.length_append, List.length_map, List.length_singleton] at hlt
        omega
      subst hlast
      rw [List.getElem?_append_right (by simp; omega)] at hsize'
      cases hfield.symm.trans hfield'
      simp only [List.length_map, hlength, Nat.sub_self, List.getElem?_cons_zero,
        Option.some.injEq] at hsize'
      rw [← hsize']
      exact htakes

theorem Session.changes_rebind (s : Session) (owner : ScopeId) (name : String) (symbol : Symbol) :
    s.tree.Changes owner (s.rebind owner name symbol).tree := by
  have hscope := fun other => s.tree.scope_modifyScope owner other fun scope =>
    { scope with members := scope.members.set name symbol }
  refine ⟨?_, fun id hid => ?_, ?_⟩
  · simp [rebind, ScopeTree.modifyScope, ScopeTree.size]
  · exact (hscope id).trans (if_neg fun h => hid h.1)
  · by_cases hlt : owner.index < s.tree.scopes.size
    · exact ⟨_, (hscope owner).trans (if_pos ⟨rfl, hlt⟩)⟩
    · exact ⟨_, (hscope owner).trans (if_neg fun h => hlt h.2)⟩

def PlacedStruct.withOffset (p : PlacedStruct) (i : Nat) (name : String) (symbol : Symbol)
    (s : Session) : Session :=
  (s.answer (p.slot i) symbol).rebind p.scope name symbol

namespace PlacedStruct

variable {s1 : Session} {done : List PlaceholderId} {i : Nat} {value : ValueType}

theorem Advances.placeholder (h : p.Advances i value (s.ask (p.slot i)) s1)
    (hlt : (p.slot i).index < s.placeholders.size) (name : String) (symbol : Symbol)
    (y : PlaceholderId) : (p.withOffset i name symbol s1).placeholder y =
      if y = p.slot i then { s.placeholder y with state := .settled symbol }
      else s.placeholder y := by
  have hasked : ∀ z, s1.placeholder z = (s.ask (p.slot i)).placeholder z := by
    intro z
    rw [Session.placeholder, h.placeholders]
    rfl
  have hlt1 : (p.slot i).index < s1.placeholders.size := by
    rw [h.placeholders, size_placeholders_ask]
    exact hlt
  show (s1.answer (p.slot i) symbol).placeholder y = _
  rw [placeholder_answer, hasked, hasked, placeholder_ask, placeholder_ask]
  by_cases hy : y = p.slot i
  · simp [hy, hlt, hlt1]
  · simp [hy]

theorem Advances.onlySettles (h : p.Advances i value (s.ask (p.slot i)) s1)
    (hi : p.IsPending i) (hfits : p.Fits s) (name : String) (symbol : Symbol) :
    p.OnlySettles (p.slot i) s (p.withOffset i name symbol s1) := by
  have hlt : (p.slot i).index < s.placeholders.size := Owns.lt_size (.inr ⟨i, hi, rfl⟩) hfits
  have hinfo : ∀ t, ((p.withOffset i name symbol s1).typeInfo t).instanceSize =
      (s.typeInfo t).instanceSize := by
    intro t
    by_cases ht : t.base = p.base
    · have hsize := h.size
      rw [typeInfo, typeInfo] at hsize ⊢
      rw [ht]
      exact hsize
    · exact congrArg TypeInfo.instanceSize (h.types t ht)
  refine ⟨?_, h.sizeTypes, h.types, fun t bytes hbytes => ?_, fun id hid => ?_, ?_,
    fun y hy => ?_, h.engines⟩
  · have hchanges := (s1.answer (p.slot i) symbol).changes_rebind p.scope name symbol
    have htree : (s1.answer (p.slot i) symbol).tree = s.tree := h.tree
    rw [htree] at hchanges
    exact hchanges
  · rw [instanceSize, hinfo]
    exact hbytes
  · exact h.typeRefs id (hid i hi.lt)
  · show (s1.answer (p.slot i) symbol).placeholders.size = _
    rw [size_placeholders_answer, h.placeholders, size_placeholders_ask]
  · rw [h.placeholder hlt name symbol, if_neg hy]

theorem Advances.member? (h : p.Advances i value (s.ask (p.slot i)) s1) {name : String}
    {old : Symbol} (hold : s.tree.member? p.scope name = some old) (symbol : Symbol)
    (other : String) :
    (p.withOffset i name symbol s1).tree.member? p.scope other =
      if other = name then some symbol else s.tree.member? p.scope other := by
  have htree : (s1.answer (p.slot i) symbol).tree = s.tree := h.tree
  have hbound : ∃ old, (s1.answer (p.slot i) symbol).tree.member? p.scope name = some old :=
    ⟨old, by rw [htree, hold]⟩
  rw [PlacedStruct.withOffset, member?_rebind hbound, htree]
  simp

variable {field : FieldType × String} {symbol : Symbol}

theorem Stands.withOffset (h : p.Stands s decls i) (hi : p.IsPending i)
    (hfield : p.decl.fields[i]? = some field) (htype : s.HasType field.1 value)
    (hbytes : field.1.Takes decls value.bytes.toNat)
    (hadvances : p.Advances i value (s.ask (p.slot i)) s1)
    (hsymbol : symbol = .constant (toString (s.typeInfo p.struct).running.toNat) (some value)) :
    p.Stands (p.withOffset i field.2 symbol s1) decls (i + 1) := by
  have hsettles := hadvances.onlySettles hi h.fits field.2 symbol
  have hplaceholder := hadvances.placeholder (Owns.lt_size (.inr ⟨i, hi, rfl⟩) h.fits)
    field.2 symbol
  have hopen := h.opened i field (le_refl i) hfield
  have hmember := hadvances.member? hopen.member symbol
  refine ⟨Nat.le_succ_of_le h.le, hi.lt, ?_, ?_, h.inner, hsettles.tree.isPlain h.plain, ?_,
    hsettles.fits h.fits, ?_, ?_, ?_, ?_⟩
  · rw [hsettles.tree.member?_of_ne h.inner.symm, h.named]
  · rw [hsettles.tree.subScope?, h.sub]
  · rw [hsettles.tree.associatedType, h.associated]
  · obtain ⟨types, hlays, htotal⟩ := h.laid
    refine ⟨types ++ [value], ?_, ?_⟩
    · rw [take_add_one, hfield]
      refine .snoc (hlays.mono (fun type value => hsettles.hasType h.inner) ?_)
        (hsettles.hasType h.inner htype) hbytes ?_
      · -- a field before has an offset, so it has another name
        intro name text type hs
        rw [hmember, if_neg, hs]
        rintro rfl
        rw [hopen.member] at hs
        cases hs
      · rw [hmember, if_pos rfl, hsymbol, htotal]
    · rw [totalBytes_snoc, ← htotal]
      exact hadvances.running
  · intro j field' hj hfield'
    have hlt : j < p.decl.fields.length := (List.getElem?_eq_some_iff.mp hfield').1
    have hpending : p.IsPending j := ⟨le_trans h.le (le_of_lt hj), hlt⟩
    have hne : p.slot j ≠ p.slot i := fun heq => ne_of_gt hj (slot_inj hpending hi heq)
    have hopen' := h.opened j field' (le_of_lt hj) hfield'
    refine ⟨?_, by rw [hplaceholder, if_neg hne, hopen'.placeholder]⟩
    -- a field behind has another placeholder, so it has another name
    rw [hmember, if_neg, hopen'.member]
    intro hname
    have hsame := hopen'.member
    rw [hname, hopen.member] at hsame
    injection hsame with hsame
    injection hsame with hsame
    exact hne hsame.symm
  · intro name old hs
    rw [hmember] at hs
    split at hs
    · rename_i hname
      cases hs
      refine ⟨?_, .inl ⟨_, _, hsymbol⟩⟩
      rw [hname]
      exact mem_map_of_mem (mem_of_getElem? hfield)
    · exact h.members name old hs
  · intro j answer hj hstate
    rw [hplaceholder] at hstate
    split at hstate
    · cases hstate
      exact ⟨_, _, hsymbol⟩
    · exact h.answers j answer hj hstate

theorem Progress.withOffset (h : p.Progress s decls placed done i) (hi : p.IsPending i)
    (hfield : p.decl.fields[i]? = some field) (htype : s.HasType field.1 value)
    (hbytes : field.1.Takes decls value.bytes.toNat)
    (hadvances : p.Advances i value (s.ask (p.slot i)) s1)
    (hsymbol : symbol = .constant (toString (s.typeInfo p.struct).running.toNat) (some value)) :
    p.Progress (p.withOffset i field.2 symbol s1) decls placed (done ++ [p.slot i]) (i + 1) := by
  have hsettles := hadvances.onlySettles hi h.stands.fits field.2 symbol
  refine ⟨h.stands.withOffset hi hfield htype hbytes hadvances hsymbol, ?_, ?_, ?_, ?_⟩
  · intro j hj
    rw [mem_append, mem_singleton, h.fields j hj]
    constructor
    · rintro (hlt | heq)
      · omega
      · have hji := slot_inj hj hi heq
        omega
    · intro hlt
      by_cases hji : j = i
      · exact .inr (by rw [hji])
      · exact .inl (by omega)
  · intro j field' hj hfield'
    have href : (p.withOffset i field.2 symbol s1).typeRef (p.reference j) =
        s.typeRef (p.reference j) := hadvances.typeRefs _ (reference_ne (ne_of_gt hj))
    rw [href]
    exact (h.tied j field' (le_of_lt hj) hfield').mono fun type value =>
      hsettles.hasType h.stands.inner
  · intro hmem
    have hlast := (h.sized (by simpa [(slot_ne_layout i).symm] using hmem)).1
    have hlt := hi.lt
    omega
  · intro hmem
    obtain ⟨hlayout, hsize⟩ := h.unsized fun hold => hmem (mem_append_left _ hold)
    refine ⟨?_, hadvances.size.trans hsize⟩
    rw [hsettles.placeholders _ (slot_ne_layout i).symm, hlayout]

theorem Progress.settleField_ends (h : p.Progress s decls placed done i) (hi : p.IsPending i)
    (hfield : p.decl.fields[i]? = some field) (hd : p.decl ∈ decls)
    (hsized : s.Sized decls placed p field.1) (hanswers : s.Numbered placed) :
    Ends (settlePlaceholder (p.slot i)) s (fun _ s' => p.OnlySettles (p.slot i) s s' ∧
      p.Progress s' decls placed (done ++ [p.slot i]) (i + 1)) (Overflows decls) := by
  have hopen := h.stands.opened i field (le_refl i) hfield
  have hasked : ∀ type value, s.HasType type value → (s.ask (p.slot i)).HasType type value :=
    fun type value htype => htype.mono (fun _ _ hs => hs) fun _ _ hs => hs
  have htied : (s.ask (p.slot i)).Tied decls placed p field.1
      ((s.ask (p.slot i)).typeRef (p.reference i)) :=
    (h.tied i field (le_refl i) hfield).mono hasked
  refine settlePlaceholder_named_ends hopen.placeholder hopen.member
    (.mono (runResolution_field_ends htied ?_ ?_ h.stands.fits.base ?_) ?_)
  · intro q hq hvalue hfree
    obtain ⟨bytes, htype, hbytes⟩ := hsized q hq hvalue hfree
    exact ⟨bytes, hasked _ _ htype, hbytes⟩
  · intro q hq j symbol hj hstate
    rw [placeholder_ask] at hstate
    split at hstate
    · cases hstate
    · exact hanswers q hq j symbol hj hstate
  · -- the offsets would not fit
    intro bytes hbytes hlarge hbounded
    obtain ⟨types, hlays, htotal⟩ := h.stands.laid
    have hfits := hbounded p.decl hd _ (hlays.sizes_snoc hfield hbytes)
    rw [sum_append, sum_singleton] at hfits
    have hrunning : (s.typeInfo p.struct).running.toNat =
        (types.map fun type => type.bytes.toNat).sum := htotal
    exact absurd hlarge (not_le.mpr (hrunning ▸ hfits))
  · rintro symbol s1 ⟨value, hsymbol, htype, hbytes, hadvances⟩
    exact ⟨hadvances.tree, hadvances.placeholders, hadvances.onlySettles hi h.stands.fits _ _,
      h.withOffset hi hfield (htype.mono (fun _ _ hs => hs) fun _ _ hs => hs) hbytes hadvances
        hsymbol⟩

end PlacedStruct

end Field

/-! ## Settling a layout -/

namespace PlacedStruct

variable {p : PlacedStruct} {s : Session} {decls : List StructDecl} {placed : List PlacedStruct}
  {done : List PlaceholderId} {n : Nat}

def withSize (p : PlacedStruct) (s : Session) : Session :=
  let running := (s.typeInfo p.struct).running
  let sized : Session := { s.ask p.layout with
    types := s.types.modify p.base.index fun info => { info with instanceSize := some running } }
  sized.answer p.layout (.ofText (toString running))

theorem typeInfo_withSize (p : PlacedStruct) (s : Session) (t : TypeSymbol) :
    (p.withSize s).typeInfo t = if t.base = p.base ∧ p.base.index < s.types.size then
      { s.typeInfo t with instanceSize := some (s.typeInfo p.struct).running }
      else s.typeInfo t := (s.ask p.layout).typeInfo_modify p.base t _

theorem IsUnsized.settleLayout (h : p.IsUnsized s) :
    Ends (settlePlaceholder p.layout) s (fun _ s' => s' = p.withSize s) fun _ => False := by
  refine settlePlaceholder_anonymous_ends h.placeholder (.of_ok rfl ⟨rfl, ?_⟩)
  rfl

theorem IsUnsized.onlySettles (h : p.IsUnsized s) :
    p.OnlySettles p.layout s (p.withSize s) := by
  have hinfo := p.typeInfo_withSize s
  refine ⟨.refl _ _, ?_, fun t ht => ?_, fun t bytes hbytes => ?_, fun _ _ => rfl, ?_,
    fun y hy => ?_, rfl⟩
  · simp [withSize, answer]
  · rw [hinfo, if_neg fun hown => ht hown.1]
  · -- the size of the structure itself was not known before
    have hne : t.base ≠ p.base := by
      intro hbase
      have hnone := h.size
      rw [instanceSize, typeInfo, hbase] at hbytes
      rw [typeInfo] at hnone
      rw [show p.struct.base = p.base from rfl] at hnone
      rw [hnone] at hbytes
      cases hbytes
    rw [instanceSize, hinfo, if_neg fun hown => hne hown.1]
    exact hbytes
  · simp [withSize]
  · rw [withSize, placeholder_answer, if_neg fun hown => hy hown.1]
    exact (s.placeholder_ask p.layout y).trans (if_neg fun hown => hy hown.1)

theorem Progress.withSize (h : p.Progress s decls placed done n) (hn : n = p.decl.fields.length)
    (hnew : p.layout ∉ done) :
    p.Progress (p.withSize s) decls placed (done ++ [p.layout]) n := by
  have hunsized := h.unsized hnew
  have hsettles := hunsized.onlySettles
  have hinfo : (p.withSize s).typeInfo p.struct =
      { s.typeInfo p.struct with instanceSize := some (s.typeInfo p.struct).running } := by
    rw [typeInfo_withSize, if_pos ⟨rfl, h.stands.fits.base⟩]
  refine ⟨?_, fun i hi => ?_, fun j field hj hfield => ?_, fun _ => ⟨hn, ?_⟩, fun hmem => ?_⟩
  · exact h.stands.mono (fun _ _ hs => hs) h.stands.sub h.stands.plain rfl (fun _ => rfl)
      hsettles.sizes (by rw [hinfo]) (hsettles.fits h.stands.fits)
      fun i hi => hsettles.placeholders _ (slot_ne_layout i)
  · rw [mem_append, mem_singleton, ← h.fields i hi]
    simp [slot_ne_layout]
  · have hlt : j < p.decl.fields.length := (List.getElem?_eq_some_iff.mp hfield).1
    omega
  · rw [hinfo]
  · simp at hmem

end PlacedStruct

/-! ## Settling all structures -/

structure Session.Settling (s : Session) (decls : List StructDecl) (placed : List PlacedStruct)
    (done : List PlaceholderId) : Prop where
  root : s.tree.IsPlain ScopeTree.root
  apart : placed.Pairwise PlacedStruct.Before
  progress : ∀ p ∈ placed, ∃ n, p.Progress s decls placed done n

section Settling

variable {s : Session} {decls : List StructDecl} {placed : List PlacedStruct}
  {done : List PlaceholderId} {p : PlacedStruct} {x : PlaceholderId}

theorem Session.Linked.settling (h : s.Linked decls placed placed) :
    s.closeEpoch.Settling decls placed [] := by
  have hdeclared : s.closeEpoch.Declared decls placed := h.declared.sameNames (.refl _) rfl rfl
  refine ⟨hdeclared.root, hdeclared.apart, fun p hp => ⟨p.offsets.length, hdeclared.stands p hp,
    fun i hi => ?_, fun j field hj hfield => ?_, fun hmem => ?_, fun _ => hdeclared.unsized p hp⟩⟩
  · have hle := hi.le
    simp only [not_mem_nil, false_iff]
    omega
  · exact (h.tied p hp j field hj hfield).mono fun _ _ htype =>
      htype.mono (fun _ _ hs => hs) fun _ _ hs => hs
  · cases hmem

variable {n : Nat}

/-- A structure whose layout is settled has its size. -/
theorem PlacedStruct.Progress.hasType (h : p.Progress s decls placed done n) (hd : p.decl ∈ decls)
    (hlayout : p.layout ∈ done) :
    ∃ bytes, s.HasType (.value p.decl.name) ⟨.none, bytes, some p.struct⟩ ∧
      FieldType.Takes decls (.value p.decl.name) bytes.toNat := by
  obtain ⟨hn, hsize⟩ := h.sized hlayout
  obtain ⟨types, hlays, htotal⟩ := h.stands.laid
  rw [hn, take_length] at hlays
  refine ⟨_, .value h.stands.named ?_, htotal ▸ hlays.takes hd⟩
  rw [instanceSize, hsize]

theorem Session.Settling.of_onlySettles {s' : Session} (h : s.Settling decls placed done)
    (hp : p ∈ placed) (hx : p.Owns x) (hinner : p.scope ≠ ScopeTree.root)
    (hsettles : p.OnlySettles x s s') (hprogress : p.Progress s' decls placed (done ++ [x]) n) :
    s'.Settling decls placed (done ++ [x]) := by
  refine ⟨hsettles.tree.isPlain h.root, h.apart, fun q hq => ?_⟩
  by_cases heq : p = q
  · exact ⟨n, heq ▸ hprogress⟩
  · obtain ⟨m, hm⟩ := h.progress q hq
    have hx' : ¬ q.Owns x := fun hown => heq (hx.unique h.apart hp hq hown)
    have hapart := (eq_or_before h.apart hp hq).resolve_left heq
    exact ⟨m, hm.of_other hsettles hinner hx' hapart⟩

/-- A placeholder settles once what it waits for is settled. -/
theorem Session.Settling.step_ends (h : s.Settling decls placed done)
    (hplaced : placed.map (·.decl) = decls) (hp : p ∈ placed) (hx : p.Owns x) (hnew : x ∉ done)
    (hwaited : ∀ y, p.Waits placed y x → y ∈ done) :
    Ends (settlePlaceholder x) s (fun _ s' =>
      s'.Settling decls placed (done ++ [x]) ∧ s'.engines = s.engines) (Overflows decls) := by
  have hd : ∀ q ∈ placed, q.decl ∈ decls := by
    intro q hq
    rw [← hplaced]
    exact mem_map_of_mem hq
  obtain ⟨n, hn⟩ := h.progress p hp
  have hle := hn.stands.le
  have hbound := hn.stands.bound
  rcases hx with rfl | ⟨i, hi, rfl⟩
  · -- the last field is settled, hence all of them
    have hlast : n = p.decl.fields.length := by
      by_contra hne
      have hpending : p.IsPending (p.decl.fields.length - 1) := ⟨by omega, by omega⟩
      have hdone := hwaited _ (.last hpending (by omega))
      rw [hn.fields _ hpending] at hdone
      omega
    refine (hn.unsized hnew).settleLayout.mono ?_ fun _ => False.elim
    rintro _ _ rfl
    have hsettles := (hn.unsized hnew).onlySettles
    exact ⟨h.of_onlySettles hp (.inl rfl) hn.stands.inner hsettles (hn.withSize hlast hnew),
      hsettles.engines⟩
  · -- the field before is settled, so this one is the next
    obtain rfl : i = n := by
      have hge : ¬ i < n := fun hlt => hnew ((hn.fields i hi).mpr hlt)
      by_contra hne
      have hlt := hi.lt
      have hpending : p.IsPending (i - 1) := ⟨by omega, by omega⟩
      have hprevious : p.Waits placed (p.slot (i - 1)) (p.slot (i - 1 + 1)) :=
        .field (.previous hpending (by omega))
      rw [show i - 1 + 1 = i by omega] at hprevious
      have hdone := hwaited _ hprevious
      rw [hn.fields _ hpending] at hdone
      omega
    obtain ⟨field, hfield⟩ : ∃ field, p.decl.fields[i]? = some field :=
      ⟨_, getElem?_eq_getElem hi.lt⟩
    have hsized : s.Sized decls placed p field.1 := by
      intro q hq hvalue hfree
      obtain ⟨m, hm⟩ := h.progress q hq
      have hfield' : p.decl.fields[i]? = some (.value q.decl.name, field.2) := by
        rw [hfield, ← hvalue]
      rw [hvalue]
      exact hm.hasType (hd q hq) (hwaited _ (.field (.type hi hi.lt hq hfield' hfree)))
    have hanswers : s.Numbered placed := by
      intro q hq
      obtain ⟨m, hm⟩ := h.progress q hq
      exact hm.stands.answers
    refine (hn.settleField_ends hi hfield (hd p hp) hsized hanswers).mono ?_
    rintro _ s' ⟨hsettles, hprogress⟩
    exact ⟨h.of_onlySettles hp (.inr ⟨i, hi, rfl⟩) hn.stands.inner hsettles hprogress,
      hsettles.engines⟩

theorem Session.Settling.run_ends {rest : List PlaceholderId}
    {report : List (Drained PlaceholderId)} {good : Session → Prop} {bad : Fault → Prop}
    (h : s.Settling decls placed done) (hplaced : placed.map (·.decl) = decls)
    (hnodup : (done ++ rest).Nodup) (howned : ∀ x ∈ rest, ∃ p ∈ placed, p.Owns x)
    (hordered : ∀ before x after, rest = before ++ x :: after →
      ∀ y p, p ∈ placed → p.Waits placed y x → y ∈ done ++ before)
    (hbad : ∀ fault, Overflows decls fault → bad fault)
    (hreport : ∀ s', s'.Settling decls placed (done ++ rest) → s'.engines = s.engines →
      Ends (settleDrained report) s' (fun _ => good) bad) :
    Ends (settleDrained (rest.map .node ++ report)) s (fun _ => good) bad := by
  induction rest generalizing s done with
  | nil =>
    rw [append_nil] at hreport
    exact hreport s h rfl
  | cons x rest ih =>
    obtain ⟨p, hp, hx⟩ := howned x mem_cons_self
    have hnew : x ∉ done := by
      rw [nodup_middle, nodup_cons] at hnodup
      exact fun hmem => hnodup.1 (mem_append_left _ hmem)
    have hwaited : ∀ y, p.Waits placed y x → y ∈ done := by
      intro y hy
      have hbefore := hordered [] x rest rfl y p hp hy
      rwa [append_nil] at hbefore
    refine .bind ((h.step_ends hplaced hp hx hnew hwaited).mono (fun _ _ h => h) hbad) ?_
    rintro _ s1 ⟨h1, hengines⟩
    refine ih h1 (by simpa using hnodup) (fun y hy => howned y (mem_cons_of_mem _ hy))
      (fun before y after heq z q hq hz => ?_) fun s' hs' hengines' => ?_
    · have hmem := hordered (x :: before) y after (by rw [heq]; rfl) z q hq hz
      simpa using hmem
    · exact hreport s' (by simpa using hs') (hengines'.trans hengines)

/-- The second placeholder waits for the first. -/
def Awaits (placed : List PlacedStruct) (x y : PlaceholderId) : Prop :=
  ∃ p ∈ placed, p.Waits placed x y

/-- Some placeholder waits, directly or not, for itself. -/
def PlacedStruct.Cyclic (placed : List PlacedStruct) : Prop :=
  ∃ x, Relation.TransGen (Awaits placed) x x

/-! ## What fits -/

theorem FieldType.Takes.unique (hnames : (decls.map StructDecl.name).Nodup) {type : FieldType}
    {size size' : Nat} (h : type.Takes decls size) (h' : type.Takes decls size') :
    size = size' := by
  induction h generalizing size' with
  | @value d hd sizes hlength _ ih =>
    generalize htype : FieldType.value d.name = type at h'
    cases h' with
    | @value d' hd' sizes' hlength' hsizes' =>
      obtain rfl : d = d' := inj_on_of_nodup_map hnames hd hd' (FieldType.value.inj htype)
      refine congrArg List.sum (ext_getElem (by omega) fun i hi hi' => ?_)
      have hfield := getElem?_eq_getElem (hlength ▸ hi)
      exact ih i _ _ hfield (getElem?_eq_getElem hi)
        (hsizes' i _ _ hfield (getElem?_eq_getElem hi'))
    | _ => cases htype
  | sized | block | named | reference =>
    cases h'
    rfl

theorem sum_le_of_getElem? {α : Type} {fields : List α} {sizes : List Nat} {f : α → Nat}
    (hlength : sizes.length ≤ fields.length)
    (h : ∀ (i : Nat) (field : α) (size : Nat), fields[i]? = some field →
      sizes[i]? = some size → size ≤ f field) : sizes.sum ≤ (fields.map f).sum := by
  induction sizes generalizing fields with
  | nil => exact Nat.zero_le _
  | cons size sizes ih =>
    cases fields with
    | nil => simp at hlength
    | cons field fields =>
      have hfirst : size ≤ f field := h 0 field size rfl rfl
      have hrest := ih (Nat.le_of_succ_le_succ hlength) fun i => h (i + 1)
      simp only [sum_cons, map_cons]
      omega

section Closed

variable (hclosed : ∀ p ∈ placed, ∀ y, p.Owns y →
  (∀ x, p.Waits placed x y → x ∈ done) → y ∈ done)

include hclosed

theorem PlacedStruct.slot_mem (hp : p ∈ placed) {n : Nat}
    (htypes : ∀ (i : Nat) (field : FieldType × String), i < n → p.decl.fields[i]? = some field →
      ∀ q ∈ placed, field.1 = .value q.decl.name → q.layout ∈ done)
    {i : Nat} (hlt : i < n) (hi : p.IsPending i) : p.slot i ∈ done := by
  induction i using Nat.strong_induction_on with
  | _ i ih =>
    refine hclosed p hp _ (.inr ⟨i, hi, rfl⟩) fun x hx => ?_
    generalize hy : p.slot i = y at hx
    cases hx with
    | last => exact absurd hy (slot_ne_layout _)
    | field hx =>
      cases hx with
      | type hj _ hq hfield =>
        obtain rfl := slot_inj hi hj hy
        exact htypes _ _ hlt hfield _ hq rfl
      | previous hj hn =>
        obtain rfl := slot_inj hi ⟨Nat.le_succ_of_le hj.le, hn⟩ hy
        exact ih _ (Nat.lt_succ_self _) (Nat.lt_of_succ_lt hlt) hj

theorem FieldType.Takes.layout_mem (hplaced : placed.map (·.decl) = decls)
    (hnames : (decls.map StructDecl.name).Nodup) {type : FieldType} {size : Nat}
    (h : type.Takes decls size) : ∀ p ∈ placed, type = .value p.decl.name → p.layout ∈ done := by
  induction h with
  | @value d hd sizes hlength _ ih =>
    intro p hp htype
    obtain rfl : d = p.decl := inj_on_of_nodup_map hnames hd
      (hplaced ▸ mem_map_of_mem hp) (FieldType.value.inj htype)
    refine hclosed p hp _ (.inl rfl) fun x hx => ?_
    generalize hy : p.layout = y at hx
    cases hx with
    | last hi =>
      refine slot_mem hclosed hp (fun i field hlt hfield => ?_) hi.lt hi
      exact ih i field _ hfield (getElem?_eq_getElem (hlength ▸ hlt))
    | field hx =>
      cases hx with
      | type | previous => exact absurd hy.symm (slot_ne_layout _)
  | _ => exact fun _ _ => nofun

theorem Session.Settling.bounded (h : s.Settling decls placed done)
    (hplaced : placed.map (·.decl) = decls) (hnames : (decls.map StructDecl.name).Nodup) :
    Bounded decls := by
  intro d hd sizes hsizes
  obtain ⟨p, hp, rfl⟩ := mem_map.mp (hplaced ▸ hd)
  obtain ⟨n, hn⟩ := h.progress p hp
  have hbound := hsizes.length_le
  have hle : sizes.length ≤ n := by
    by_contra hgt
    have hpending : p.IsPending n := ⟨hn.stands.le, by omega⟩
    have hmem := slot_mem hclosed hp (fun i field hlt hfield => (hsizes.takes i field _
      hfield (getElem?_eq_getElem hlt)).layout_mem hclosed hplaced hnames) (by omega) hpending
    exact lt_irrefl n ((hn.fields n hpending).mp hmem)
  obtain ⟨types, hlays, htotal⟩ := hn.stands.laid
  have hlength := hlays.length_eq
  rw [length_take] at hlength
  have hsum : sizes.sum ≤ totalBytes types := by
    apply sum_le_of_getElem? (by omega)
    intro i value size hvalue hsize
    have hlt := (List.getElem?_eq_some_iff.mp hsize).1
    have hfield := getElem?_eq_getElem (l := p.decl.fields.take n) (i := i) (by simp; omega)
    have htakes := (hlays.field hfield hvalue).2.1
    refine le_of_eq ((hsizes.takes i _ size ?_ hsize).unique hnames htakes)
    rw [← hfield, getElem?_take_of_lt (by omega)]
  exact lt_of_le_of_lt (htotal ▸ hsum) (UInt32.toNat_lt _)

end Closed

theorem PlacedStruct.Waits.owns {y : PlaceholderId} (h : p.Waits placed x y) : p.Owns y := by
  cases h with
  | last => exact .inl rfl
  | field h =>
    cases h with
    | type hi => exact .inr ⟨_, hi, rfl⟩
    | previous hi hn => exact .inr ⟨_, ⟨Nat.le_succ_of_le hi.le, hn⟩, rfl⟩

theorem closeEpoch_ends (h : s.Linked decls placed placed)
    (hplaced : placed.map (·.decl) = decls) (hnames : (decls.map StructDecl.name).Nodup) :
    Ends closeEpoch s (fun _ s' => (∃ done, s'.Settling decls placed done ∧
        ∀ p ∈ placed, ∀ x, p.Owns x → x ∈ done) ∧ s'.engines = s.engines ∧
        ¬ PlacedStruct.Cyclic placed ∧ (Hides decls ∨ Bounded decls))
      fun fault => Overflows decls fault ∨ (∃ names, fault = .error (.cyclicDependency names)) ∧
        PlacedStruct.Cyclic placed ∧ Bounded decls := by
  obtain ⟨g, hopen, hwf, hunsorted, hnodes, hlower, hupper⟩ := h.opened
  obtain ⟨d, closed, yielded, report, hsort, hexhausted, hnodup, hordered, -, hdrained, hreport⟩ :=
    DependencyGraph.sort_exhausts hwf hunsorted
  have hrun : closeEpoch s = settleDrained (yielded.map .node ++ report) s.closeEpoch := by
    rw [closeEpoch_eq, hopen]
    dsimp only
    rw [hsort, ← hdrained]
    rfl
  have howned : ∀ x ∈ yielded, ∃ p ∈ placed, p.Owns x := by
    intro x hx
    refine (hnodes x).mp (DependencyGraph.mem_nodes_of_mem_sort hsort ?_)
    rw [hdrained]
    exact mem_append_left _ (mem_map_of_mem hx)
  rw [Ends, hrun, ← Ends]
  refine h.settling.run_ends hplaced (by simpa using hnodup) howned
    (fun before x after heq y p hp hy => hordered before x after heq y (hlower y x ⟨p, hp, hy⟩))
    (fun _ => .inl) fun s' hs' hengines => ?_
  have hbounded : Hides decls ∨ Bounded decls := by
    refine or_iff_not_imp_left.mpr fun hhides => hs'.bounded (fun p hp y hy hwaited => ?_) hplaced
      hnames
    refine hexhausted y ((hnodes y).mpr ⟨p, hp, hy⟩) fun x hx => ?_
    obtain ⟨q, hq, hwaits⟩ := (hupper x y hx).resolve_right hhides
    obtain rfl := hy.unique h.declared.apart hp hq hwaits.owns
    exact hwaited x hwaits
  rcases hreport with ⟨rfl, hall, hacyclic⟩ | ⟨⟨ids, rfl⟩, hcyclic⟩
  · refine .pure ⟨⟨yielded, hs', fun p hp x hx => ?_⟩, hengines, ?_, hbounded⟩
    · exact (hall x).mpr ((hnodes x).mpr ⟨p, hp, hx⟩)
    · rintro ⟨x, hx⟩
      exact hacyclic ⟨x, Relation.TransGen.mono hlower x x hx⟩
  · refine .after rfl (.throw ?_)
    by_cases hhides : Hides decls
    · exact .inl (.inl hhides)
    · obtain ⟨x, hx⟩ := hcyclic
      exact .inr ⟨⟨_, rfl⟩, ⟨x, Relation.TransGen.mono
        (fun y z hyz => (hupper y z hyz).resolve_right hhides) x x hx⟩,
        hbounded.resolve_left hhides⟩

end Settling

end StagedAsm
