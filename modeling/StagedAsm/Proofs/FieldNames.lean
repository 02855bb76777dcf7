import StagedAsm.Proofs.EmbeddingCycles

/-!
# The names of fields

The type of a field is looked up from inside its structure, where a field that is called like the
first name of a path hides what the path would lead to. Apart from that the names of fields do not
matter: layouts, and what is wrong with declarations, are decided by the types.
-/

namespace StagedAsm

open List Relation

/-! ## What is wrong -/

/-- A fault without what it is about. -/
def Fault.kind (fault : Fault) : Fault ⊕ Nat :=
  match fault.bare with
  | .error e => .inr e.ctorIdx
  | fault => .inl fault

def Miss.kind : Miss → Nat
  | undefined => (CompileError.undefinedSymbol "").ctorIdx
  | noTemplate => (CompileError.notATemplate "" "").ctorIdx

open Classical in
noncomputable def verdict (decls : List StructDecl) : Option (Fault ⊕ Nat) :=
  if ¬ Small decls then some (.inl (.overflow .add))
  else if ¬ Distinct decls then some (.inr (CompileError.duplicateSymbol "" "").ctorIdx)
  else match firstMiss? decls (decls.flatMap StructDecl.fields) with
    | some miss => some (.inr miss.kind)
    | none =>
      if ¬ Bounded decls then some (.inl (.overflow .add))
      else if ∃ a, TransGen (Embeds decls) a a then
        some (.inr (CompileError.cyclicDependency []).ctorIdx)
      else none

theorem compileStructs_verdict {decls : List StructDecl} {upTo : Pass} (sections : List String)
    (settings : Settings) (depth : Nat) (hupTo : .resolve ≤ upTo) (hhides : ¬ Hides decls) :
    Ends (compileStatements sections depth (decls.map StructDecl.statement) upTo) { settings }
      (fun _ s => verdict decls = none ∧ Distinct decls ∧
        ∃ placed, IsPlacement decls placed ∧ s.LaidOut decls placed)
      fun fault => verdict decls = some fault.kind := by
  refine (compileStructs_exact_ends sections settings depth decls hupTo).mono ?_ fun fault h => ?_
  · rintro _ s ⟨placed, hplacement, hlaid, hacyclic, h⟩
    obtain ⟨hsmall, hdistinct, hdefined, hbounded⟩ := h.resolve_left hhides
    rw [PlacedStruct.cyclic_iff_of_not_hides hplacement hdistinct.names hhides] at hacyclic
    rw [defined_iff] at hdefined
    exact ⟨by simp [verdict, *], hdistinct, placed, hplacement, hlaid⟩
  · have hrejects := h.resolve_left hhides
    rw [Fault.kind]
    generalize fault.bare = fault at hrejects
    cases hrejects with
    | large h => simp [verdict, h]
    | clash hsmall h => simp [verdict, *, CompileError.ctorIdx]
    | missing hsmall hdistinct h hexplains =>
      cases hexplains with
      | undefined => simp [verdict, *, Miss.kind, CompileError.ctorIdx]
      | noTemplate =>
        simp only [verdict, hsmall, hdistinct, h, not_true_eq_false, if_false]
        rfl
    | overflow hsmall hdistinct hdefined h =>
      rw [defined_iff] at hdefined
      simp [verdict, *]
    | cycle hsmall hdistinct hdefined hbounded hplacement h =>
      rw [PlacedStruct.cyclic_iff_of_not_hides hplacement hdistinct.names hhides] at h
      rw [defined_iff] at hdefined
      simp [verdict, *, CompileError.ctorIdx]

/-! ## Declarations without the names of fields -/

def StructDecl.outline (d : StructDecl) : String × List FieldType := (d.name, d.fields.map Prod.fst)

section Outlines

variable {decls decls' : List StructDecl} {d d' : StructDecl}

theorem length_of_outline (h : d'.outline = d.outline) : d'.fields.length = d.fields.length := by
  simpa [StructDecl.outline] using congrArg (·.2.length) h

theorem field_of_outline (h : d'.outline = d.outline) {i : Nat} {field' : FieldType × String}
    (hfield' : d'.fields[i]? = some field') :
    ∃ field, d.fields[i]? = some field ∧ field.1 = field'.1 := by
  have htypes := congrArg (·.2[i]?) h
  simpa [StructDecl.outline, hfield', eq_comm] using htypes

theorem small_iff_outlines :
    Small decls ↔ ∀ o ∈ decls.map StructDecl.outline, leadBytes o.2 < UInt32.size := by
  simp [Small, StructDecl.outline]

theorem firstMiss?_eq_outlines : firstMiss? decls (decls.flatMap StructDecl.fields) =
    ((decls.map StructDecl.outline).flatMap Prod.snd).findSome?
      (FieldType.miss? ((decls.map StructDecl.outline).map Prod.fst)) := by
  have hnames : (decls.map StructDecl.outline).map Prod.fst = decls.map StructDecl.name := by
    rw [List.map_map]
    rfl
  have htypes : (decls.map StructDecl.outline).flatMap Prod.snd =
      (decls.flatMap StructDecl.fields).map Prod.fst := by
    rw [flatMap_map, map_flatMap]
    rfl
  rw [hnames, htypes, findSome?_map]
  rfl

theorem embeds_iff_outlines {a b : String} : Embeds decls a b ↔
    ∃ o ∈ decls.map StructDecl.outline, o.1 = a ∧ .value b ∈ o.2 := by
  simp [Embeds, StructDecl.outline]

variable (houtlines : decls.map StructDecl.outline = decls'.map StructDecl.outline)

include houtlines

theorem FieldType.Takes.of_outlines {type : FieldType} {size : Nat} (h : type.Takes decls size) :
    type.Takes decls' size := by
  induction h with
  | @value d hd sizes hlength _ ih =>
    obtain ⟨d', hd', houtline⟩ := mem_map.mp (houtlines ▸ mem_map_of_mem hd)
    have hname : d'.name = d.name := congrArg Prod.fst houtline
    refine hname ▸ .value hd' sizes (hlength.trans (length_of_outline houtline).symm) ?_
    intro i field' size hfield' hsize
    obtain ⟨field, hfield, htype⟩ := field_of_outline houtline hfield'
    exact htype ▸ ih i field size hfield hsize
  | sized | block | named | reference => constructor

theorem Bounded.of_outlines (h : Bounded decls) : Bounded decls' := by
  intro d' hd' sizes hsizes
  obtain ⟨d, hd, houtline⟩ := mem_map.mp (houtlines ▸ mem_map_of_mem hd')
  refine h d hd sizes ⟨length_of_outline houtline ▸ hsizes.length_le, ?_⟩
  intro i field size hfield hsize
  obtain ⟨field', hfield', htype⟩ := field_of_outline houtline hfield
  exact htype ▸ (hsizes.takes i field' size hfield' hsize).of_outlines houtlines.symm

end Outlines

theorem verdict_congr {decls decls' : List StructDecl}
    (houtlines : decls.map StructDecl.outline = decls'.map StructDecl.outline)
    (hdistinct : Distinct decls ↔ Distinct decls') : verdict decls = verdict decls' := by
  have hsmall : Small decls ↔ Small decls' := by
    rw [small_iff_outlines, small_iff_outlines, houtlines]
  have hmiss : firstMiss? decls (decls.flatMap StructDecl.fields) =
      firstMiss? decls' (decls'.flatMap StructDecl.fields) := by
    rw [firstMiss?_eq_outlines, firstMiss?_eq_outlines, houtlines]
  have hbounded : Bounded decls ↔ Bounded decls' :=
    ⟨.of_outlines houtlines, .of_outlines houtlines.symm⟩
  have hembeds : Embeds decls = Embeds decls' := by
    funext a b
    rw [embeds_iff_outlines, embeds_iff_outlines, houtlines]
  rw [verdict, hsmall, hdistinct, hmiss, hbounded, hembeds, verdict]

/-! ## Layouts -/

def SameLayouts (decls decls' : List StructDecl) (s s' : Session) : Prop :=
  ∀ (i : Nat) (d d' : StructDecl), decls[i]? = some d → decls'[i]? = some d' →
    ∃ target scope target' scope' size,
      s.tree.member? ScopeTree.root d.name = some (.type (.reference target)) ∧
      s'.tree.member? ScopeTree.root d'.name = some (.type (.reference target')) ∧
      s.tree.subScope? ScopeTree.root d.name = some scope ∧
      s'.tree.subScope? ScopeTree.root d'.name = some scope' ∧
      s.instanceSize target = .ok size ∧ s'.instanceSize target' = .ok size ∧
      ∀ (j : Nat) (field field' : FieldType × String), d.fields[j]? = some field →
        d'.fields[j]? = some field' → ∃ offset value value',
          s.tree.member? scope field.2 = some (.constant offset (some value)) ∧
          s'.tree.member? scope' field'.2 = some (.constant offset (some value')) ∧
          value.size = value'.size ∧ value.bytes = value'.bytes

theorem Session.HasType.size_eq {s s' : Session} {type : FieldType} {value value' : ValueType}
    (h : s.HasType type value) (h' : s'.HasType type value') : value.size = value'.size := by
  cases h <;> cases h' <;> rfl

section Layouts

variable {decls decls' : List StructDecl} {placed placed' : List PlacedStruct} {s s' : Session}
  {scope scope' : ScopeId} {types types' : List ValueType} {d d' : StructDecl}
  (houtlines : decls.map StructDecl.outline = decls'.map StructDecl.outline)

include houtlines

theorem Session.Lays.same_value (hnames : (decls'.map StructDecl.name).Nodup)
    (houtline : d'.outline = d.outline) (h : s.Lays decls scope d.fields types)
    (h' : s'.Lays decls' scope' d'.fields types') {i : Nat} {value value' : ValueType}
    (hvalue : types[i]? = some value) (hvalue' : types'[i]? = some value') :
    value.size = value'.size ∧ value.bytes = value'.bytes := by
  have hlt : i < d'.fields.length := h'.length_eq ▸ (List.getElem?_eq_some_iff.mp hvalue').1
  have hfield' := getElem?_eq_getElem hlt
  obtain ⟨field, hfield, heq⟩ := field_of_outline houtline hfield'
  obtain ⟨htype, hbytes, -⟩ := h.field hfield hvalue
  obtain ⟨htype', hbytes', -⟩ := h'.field hfield' hvalue'
  rw [heq] at htype hbytes
  exact ⟨htype.size_eq htype',
    UInt32.toNat_inj.mp ((hbytes.of_outlines houtlines).unique hnames hbytes')⟩

theorem Session.LaidOut.sameLayouts (hnames : (decls'.map StructDecl.name).Nodup)
    (hplacement : IsPlacement decls placed) (hplacement' : IsPlacement decls' placed')
    (h : s.LaidOut decls placed) (h' : s'.LaidOut decls' placed') :
    SameLayouts decls decls' s s' := by
  intro i d d' hd hd'
  have houtline : d'.outline = d.outline := by
    have hget := congrArg (·[i]?) houtlines
    simpa [hd, hd'] using hget.symm
  obtain ⟨p, hp, rfl⟩ := mem_map.mp (hplacement.decls ▸ mem_of_getElem? hd)
  obtain ⟨p', hp', rfl⟩ := mem_map.mp (hplacement'.decls ▸ mem_of_getElem? hd')
  obtain ⟨types, size, hlays, hsize, htotal⟩ := h.exists_types hp
  obtain ⟨types', size', hlays', hsize', htotal'⟩ := h'.exists_types hp'
  have hsame : ∀ i value value', types[i]? = some value → types'[i]? = some value' → _ :=
    fun i value value' => hlays.same_value houtlines hnames houtline hlays'
  have hlength : types.length = types'.length := by
    rw [hlays.length_eq, hlays'.length_eq, length_of_outline houtline]
  have hbytes : types.map (·.bytes.toNat) = types'.map (·.bytes.toNat) := by
    refine ext_getElem (by simpa using hlength) fun i hi hi' => ?_
    simp only [length_map] at hi hi'
    simp [(hsame i _ _ (getElem?_eq_getElem hi) (getElem?_eq_getElem hi')).2]
  obtain rfl : size = size' := by
    rw [← UInt32.toNat_inj, htotal, htotal', totalBytes, hbytes, totalBytes]
  refine ⟨p.struct, p.scope, p'.struct, p'.scope, size, (h.stands p hp).named,
    (h'.stands p' hp').named, (h.stands p hp).sub, (h'.stands p' hp').sub, hsize, hsize', ?_⟩
  intro j field field' hfield hfield'
  have hlt : j < types.length := hlays.length_eq ▸ (List.getElem?_eq_some_iff.mp hfield).1
  have hvalue := getElem?_eq_getElem hlt
  have hvalue' := getElem?_eq_getElem (hlength ▸ hlt)
  refine ⟨_, _, _, (hlays.field hfield hvalue).2.2, ?_, hsame j _ _ hvalue hvalue'⟩
  rw [(hlays'.field hfield' hvalue').2.2, totalBytes, totalBytes, map_take, map_take, hbytes]

end Layouts

/-! ## Other names -/

/-- Declarations with other names for the fields of each structure. -/
def renameFields (f : Nat → String → String) (decls : List StructDecl) : List StructDecl :=
  decls.mapIdx fun i d => ⟨d.name, d.fields.map fun field => (field.1, f i field.2)⟩

section Rename

variable (f : Nat → String → String) (decls : List StructDecl)

theorem outlines_renameFields :
    decls.map StructDecl.outline = (renameFields f decls).map StructDecl.outline := by
  refine ext_getElem? fun i => ?_
  cases h : decls[i]? <;> simp [renameFields, StructDecl.outline, h]

variable {f decls}

theorem distinct_renameFields (hf : ∀ i d, decls[i]? = some d → ∀ a ∈ d.fields, ∀ b ∈ d.fields,
    f i a.2 = f i b.2 → a.2 = b.2) : Distinct decls ↔ Distinct (renameFields f decls) := by
  have hnames : decls.map StructDecl.name = (renameFields f decls).map StructDecl.name := by
    have houtlines := congrArg (List.map Prod.fst) (outlines_renameFields f decls)
    simpa [StructDecl.outline, Function.comp_def] using houtlines
  constructor
  · intro h
    refine ⟨hnames ▸ h.names, fun d' hd' => ?_⟩
    obtain ⟨i, hi, rfl⟩ := mem_mapIdx.mp hd'
    have hinj : ∀ a ∈ decls[i].fields.map Prod.snd, ∀ b ∈ decls[i].fields.map Prod.snd,
        f i a = f i b → a = b := by
      simpa only [forall_mem_map] using hf i _ (getElem?_eq_getElem hi)
    simpa [Function.comp_def] using (h.fields _ (getElem_mem hi)).map_on hinj
  · intro h
    refine ⟨hnames ▸ h.names, fun d hd => ?_⟩
    obtain ⟨i, hi, rfl⟩ := mem_iff_getElem.mp hd
    have hnodup := h.fields _ (mem_mapIdx.mpr ⟨i, hi, rfl⟩)
    refine List.Nodup.of_map (f i) ?_
    simpa [Function.comp_def] using hnodup

end Rename

/-- A program of structures and the same program with other names for fields both compile, with the
    same layouts, or both fail with faults of the same kind, if no field hides anything. -/
theorem renamed_fields_compile_alike {sections : List String} {settings : Settings} {depth : Nat}
    {upTo : Pass} {decls : List StructDecl} (f : Nat → String → String) (hupTo : .resolve ≤ upTo)
    (hf : ∀ i d, decls[i]? = some d → ∀ a ∈ d.fields, ∀ b ∈ d.fields,
      f i a.2 = f i b.2 → a.2 = b.2)
    (hhides : ¬ Hides decls) (hhides' : ¬ Hides (renameFields f decls)) :
    let compile := fun decls : List StructDecl =>
      compileStatements sections depth (decls.map StructDecl.statement) upTo { settings }
    (∃ e s e' s', compile decls = .ok e s ∧ compile (renameFields f decls) = .ok e' s' ∧
        SameLayouts decls (renameFields f decls) s s') ∨
      ∃ fault s fault' s', compile decls = .error fault s ∧
        compile (renameFields f decls) = .error fault' s' ∧ fault.kind = fault'.kind := by
  intro compile
  have houtlines := outlines_renameFields f decls
  have hverdict := verdict_congr houtlines (distinct_renameFields hf)
  have hends := compileStructs_verdict sections settings depth hupTo hhides
  have hends' := compileStructs_verdict sections settings depth hupTo hhides'
  cases hrun : compile decls with
  | ok e s =>
    obtain ⟨hnone, -, placed, hplacement, hlaid⟩ := hends.good_of_ok hrun
    cases hrun' : compile (renameFields f decls) with
    | ok e' s' =>
      obtain ⟨-, hdistinct, placed', hplacement', hlaid'⟩ := hends'.good_of_ok hrun'
      exact .inl ⟨e, s, e', s', rfl, rfl,
        hlaid.sameLayouts houtlines hdistinct.names hplacement hplacement' hlaid'⟩
    | error fault' s' =>
      rw [hverdict, hends'.bad_of_error hrun'] at hnone
      cases hnone
  | error fault s =>
    have hsome := hends.bad_of_error hrun
    cases hrun' : compile (renameFields f decls) with
    | ok e' s' =>
      rw [hverdict, (hends'.good_of_ok hrun').1] at hsome
      cases hsome
    | error fault' s' =>
      rw [hverdict, hends'.bad_of_error hrun'] at hsome
      exact .inr ⟨fault, s, fault', s', rfl, rfl, (Option.some.inj hsome).symm⟩

/-- A structure that stores another one. -/
def holderDecls : List StructDecl :=
  [⟨"T", [(.sized .dword, "a")]⟩, ⟨"S", [(.value "T", "t")]⟩]

theorem not_hides_holderDecls (f : Nat → String → String) (h : f 1 "t" ≠ "T") :
    ¬ Hides (renameFields f holderDecls) := by
  rintro ⟨d, hd, field, hfield, hmeets⟩
  have hdecls : renameFields f holderDecls =
    [⟨"T", [(.sized .dword, f 0 "a")]⟩, ⟨"S", [(.value "T", f 1 "t")]⟩] := rfl
  rw [hdecls, mem_cons, mem_singleton] at hd
  rcases hd with rfl | rfl
  · cases mem_singleton.mp hfield
    cases hmeets
  · cases mem_singleton.mp hfield
    exact h (mem_singleton.mp (StructDecl.meets_ofName.mp hmeets)).symm

theorem renamed_fields_compile_alike_holder :
    let compile := fun decls : List StructDecl =>
      compileStatements defaultSections 0 (decls.map StructDecl.statement) .generate {}
    ∃ e s e' s', compile holderDecls = .ok e s ∧
      compile (renameFields (fun _ name => name ++ "_") holderDecls) = .ok e' s' ∧
      SameLayouts holderDecls (renameFields (fun _ name => name ++ "_") holderDecls) s s' := by
  have hsucceeds : succeeds (compileStatements defaultSections 0
      (holderDecls.map StructDecl.statement) .generate) {} = true := by decide +kernel
  obtain ⟨e, s, hok⟩ := exists_ok_of_succeeds hsucceeds
  rcases @renamed_fields_compile_alike defaultSections {} 0 .generate holderDecls
    (fun _ name => name ++ "_") (by decide) (by simp)
    (not_hides_holderDecls (fun _ name => name) (by decide)) (not_hides_holderDecls _ (by decide))
    with hboth | ⟨_, _, _, _, hfails, -⟩
  · exact hboth
  · cases hok.symm.trans hfails

/-- The path `A.x`. -/
def innerPath : FarPath where
  expr := [.mk "A" [], .mk "x" []]
  path := [{ name := "A" }, { name := "x" }]
  eval _ := rfl
  far _ h := by simp [Path.ofName] at h

def innerDecls : List StructDecl :=
  [⟨"A", [(.sized .dword, "x")]⟩, ⟨"S", [(.far .named innerPath, "f")]⟩]

def compileKind (decls : List StructDecl) : Option (Fault ⊕ Nat) :=
  match compileStatements defaultSections 0 (decls.map StructDecl.statement) .generate {} with
  | .ok _ _ => none
  | .error fault _ => some fault.kind

/-- A field that gets the name of the structure that it stores hides the structure. A path that
    leads to a field is no type, but if the field is called something else it leads nowhere. -/
theorem renamed_field_hides_structure :
    compileKind holderDecls = none ∧
      compileKind (renameFields (fun _ name => if name = "t" then "T" else name) holderDecls) ≠
        none ∧
      compileKind innerDecls = some (.inr (CompileError.notAType "" "").ctorIdx) ∧
      compileKind (renameFields (fun _ name => if name = "x" then "y" else name) innerDecls) =
        some (.inr (CompileError.undefinedSymbol "").ctorIdx) := by
  decide +kernel

end StagedAsm
