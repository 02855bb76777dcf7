import StagedAsm.Proofs.StructCompilation

/-!
# Structures that contain themselves

Placeholders wait in a circle exactly if structures are stored in place in a circle: a path between
layouts goes through the fields of one structure after the other, and leaves a structure only
through a field that is stored in place.
-/

namespace StagedAsm

open Relation

/-- A structure stores the other one in place. -/
def Embeds (decls : List StructDecl) (a b : String) : Prop :=
  ∃ d ∈ decls, d.name = a ∧ ∃ field ∈ d.fields, field.1 = .value b

namespace PlacedStruct

variable {decls : List StructDecl} {placed : List PlacedStruct} {p q : PlacedStruct}
  {x y z : PlaceholderId}

/-! ## From structures to placeholders -/

theorem layout_awaits_slot (hp : p ∈ placed) {i : Nat} (hi : p.IsPending i) :
    TransGen (Awaits placed) (p.slot i) p.layout := by
  have hle := hi.le
  have hlt := hi.lt
  -- induction on the number of fields behind the given one
  obtain ⟨k, hk⟩ : ∃ k, p.decl.fields.length = i + 1 + k :=
    ⟨p.decl.fields.length - (i + 1), by omega⟩
  induction k generalizing i with
  | zero => exact .single ⟨p, hp, .last hi (by omega)⟩
  | succ k ih =>
    have hnext : p.IsPending (i + 1) := ⟨by omega, by omega⟩
    apply TransGen.head ⟨p, hp, .field (.previous hi (by omega))⟩
    exact ih hnext hnext.le hnext.lt (by omega)

theorem layout_awaits_layout (hplacement : IsPlacement decls placed)
    (hnames : (decls.map StructDecl.name).Nodup) (hhides : ¬ Hides decls) (hp : p ∈ placed)
    (hq : q ∈ placed) (h : Embeds decls p.decl.name q.decl.name) :
    TransGen (Awaits placed) q.layout p.layout := by
  obtain ⟨d, hd, hname, field, hmem, hvalue⟩ := h
  have hpd : p.decl ∈ decls := by
    rw [← hplacement.decls]
    exact List.mem_map_of_mem hp
  -- names tell structures apart
  obtain rfl : d = p.decl := List.inj_on_of_nodup_map hnames hd hpd hname
  obtain ⟨i, hfield⟩ := List.mem_iff_getElem?.mp hmem
  have hlt : i < p.decl.fields.length := (List.getElem?_eq_some_iff.mp hfield).1
  -- a structure in place does not give its size, so the field is not among the leading ones
  have hi : p.IsPending i := by
    refine ⟨Nat.le_of_not_lt fun hlead => ?_, hlt⟩
    obtain ⟨value, hknown⟩ := (hplacement.leading p hp).known hfield hlead
    rw [hvalue] at hknown
    cases hknown
  have hfree : q.decl.name ∉ p.decl.fields.map Prod.snd := by
    intro hhidden
    refine hhides ⟨p.decl, hpd, field, hmem, ?_⟩
    rw [hvalue]
    exact StructDecl.meets_ofName.mpr hhidden
  have hfield' : p.decl.fields[i]? = some (.value q.decl.name, field.2) := by
    rw [hfield, ← hvalue]
  apply TransGen.head ⟨p, hp, .field (.type hi hlt hq hfield' hfree)⟩
  exact layout_awaits_slot hp hi

theorem layout_awaits_of_transGen (hplacement : IsPlacement decls placed)
    (hnames : (decls.map StructDecl.name).Nodup) (hhides : ¬ Hides decls) {a b : String}
    (h : TransGen (Embeds decls) a b) (hp : p ∈ placed) (hname : p.decl.name = a)
    (hq : q ∈ placed) (hname' : q.decl.name = b) :
    TransGen (Awaits placed) q.layout p.layout := by
  induction h generalizing q with
  | single hembeds =>
    subst hname hname'
    exact layout_awaits_layout hplacement hnames hhides hp hq hembeds
  | tail _ hembeds ih =>
    -- the structure in between is declared
    obtain ⟨d, hd, hmiddle, hfield⟩ := hembeds
    have hembeds : Embeds decls d.name _ := ⟨d, hd, rfl, hfield⟩
    rw [← hplacement.decls] at hd
    obtain ⟨middle, hmem, rfl⟩ := List.mem_map.mp hd
    subst hname'
    exact (layout_awaits_layout hplacement hnames hhides hmem hq hembeds).trans (ih hmem hmiddle)

/-! ## From placeholders to structures -/

/-- Fields come in order, then the layout. -/
def position (p : PlacedStruct) (x : PlaceholderId) : Nat :=
  if x = p.layout then p.layout.index + p.decl.fields.length + 1 else x.index

theorem position_slot (i : Nat) : p.position (p.slot i) = (p.slot i).index :=
  if_neg (slot_ne_layout i)

theorem position_layout : p.position p.layout = p.layout.index + p.decl.fields.length + 1 :=
  if_pos rfl

def Follows (decls : List StructDecl) (q p : PlacedStruct) (x y : PlaceholderId) : Prop :=
  q = p ∧ p.position x < p.position y ∨ TransGen (Embeds decls) p.decl.name q.decl.name

theorem Follows.trans {r : PlacedStruct} (h : Follows decls q p x y)
    (h' : Follows decls p r y z) : Follows decls q r x z := by
  rcases h with ⟨rfl, hlt⟩ | hpath
  · rcases h' with ⟨rfl, hlt'⟩ | hpath'
    · exact .inl ⟨rfl, lt_trans hlt hlt'⟩
    · exact .inr hpath'
  · rcases h' with ⟨rfl, -⟩ | hpath'
    · exact .inr hpath
    · exact .inr (hpath'.trans hpath)

theorem Waits.follows (hplacement : IsPlacement decls placed) (hp : p ∈ placed)
    (h : p.Waits placed x y) :
    p.Owns y ∧ ∃ q ∈ placed, q.Owns x ∧ Follows decls q p x y := by
  refine ⟨h.owns, ?_⟩
  cases h with
  | field h =>
    cases h with
    | @type i q name hi hlt hq hfield hfree =>
      refine ⟨q, hq, .inl rfl, .inr (.single ?_)⟩
      have hd : p.decl ∈ decls := by
        rw [← hplacement.decls]
        exact List.mem_map_of_mem hp
      exact ⟨p.decl, hd, rfl, _, List.mem_of_getElem? hfield, rfl⟩
    | @previous i hi hlt =>
      refine ⟨p, hp, .inr ⟨i, hi, rfl⟩, .inl ⟨rfl, ?_⟩⟩
      have hle := hi.le
      rw [position_slot, position_slot, index_slot, index_slot]
      omega
  | @last i hi hlast =>
    refine ⟨p, hp, .inr ⟨i, hi, rfl⟩, .inl ⟨rfl, ?_⟩⟩
    rw [position_slot, position_layout, index_slot]
    omega

theorem follows_of_transGen (hplacement : IsPlacement decls placed)
    (h : TransGen (Awaits placed) x y) :
    ∃ q ∈ placed, ∃ p ∈ placed, q.Owns x ∧ p.Owns y ∧ Follows decls q p x y := by
  induction h with
  | single hwaits =>
    obtain ⟨p, hp, hwaits⟩ := hwaits
    obtain ⟨hy, q, hq, hx, hfollows⟩ := hwaits.follows hplacement hp
    exact ⟨q, hq, p, hp, hx, hy, hfollows⟩
  | tail _ hwaits ih =>
    obtain ⟨q, hq, middle, hmiddle, hx, hy, hfollows⟩ := ih
    obtain ⟨p, hp, hwaits⟩ := hwaits
    obtain ⟨hz, middle', hmiddle', hy', hfollows'⟩ := hwaits.follows hplacement hp
    -- the placeholder in between belongs to one structure
    obtain rfl := hy.unique hplacement.apart hmiddle hmiddle' hy'
    exact ⟨q, hq, p, hp, hx, hz, hfollows.trans hfollows'⟩

theorem cyclic_iff_of_not_hides (hplacement : IsPlacement decls placed)
    (hnames : (decls.map StructDecl.name).Nodup) (hhides : ¬ Hides decls) :
    Cyclic placed ↔ ∃ a, TransGen (Embeds decls) a a := by
  constructor
  · rintro ⟨x, hx⟩
    obtain ⟨q, hq, p, hp, hown, hown', hfollows⟩ := follows_of_transGen hplacement hx
    obtain rfl := hown.unique hplacement.apart hq hp hown'
    rcases hfollows with ⟨-, hlt⟩ | hpath
    · exact absurd hlt (lt_irrefl _)
    · exact ⟨_, hpath⟩
  · rintro ⟨a, ha⟩
    -- the structure the circle starts from is declared
    obtain ⟨p, hp, hname⟩ : ∃ p ∈ placed, p.decl.name = a := by
      obtain ⟨b, ⟨d, hd, hname, -⟩, -⟩ := TransGen.head'_iff.mp ha
      rw [← hplacement.decls] at hd
      obtain ⟨p, hp, rfl⟩ := List.mem_map.mp hd
      exact ⟨p, hp, hname⟩
    exact ⟨p.layout, layout_awaits_of_transGen hplacement hnames hhides ha hp hname hp hname⟩

theorem cyclic_iff (hplacement : IsPlacement decls placed) (hproper : Proper decls) :
    Cyclic placed ↔ ∃ a, TransGen (Embeds decls) a a :=
  cyclic_iff_of_not_hides hplacement hproper.names hproper.not_hides

end PlacedStruct

/-- Compiling proper declarations fails because of a cyclic dependency exactly if structures are
    stored in place in a circle, and succeeds otherwise. -/
theorem compile_structs_fails_iff_cycle (sections : List String) (settings : Settings)
    (depth : Nat) (upTo : Pass) (hupTo : .resolve ≤ upTo) (decls : List StructDecl)
    (hproper : Proper decls) :
    ((∃ e names s, compileStatements sections depth (decls.map StructDecl.statement) upTo
        { settings } = .error (.error e) s ∧ e.cause = .cyclicDependency names) ↔
      ∃ a, TransGen (Embeds decls) a a) ∧
    ((¬ ∃ a, TransGen (Embeds decls) a a) →
      ∃ e s, compileStatements sections depth (decls.map StructDecl.statement) upTo
        { settings } = .ok e s) := by
  have hends := compileStructs_ends sections settings depth decls hupTo
  cases hrun : compileStatements sections depth (decls.map StructDecl.statement) upTo
      { settings } with
  | ok e s =>
    obtain ⟨placed, hplacement, -, hacyclic⟩ := hends.good_of_ok hrun
    rw [PlacedStruct.cyclic_iff hplacement hproper] at hacyclic
    refine ⟨⟨?_, fun hcycle => absurd hcycle hacyclic⟩, fun _ => ⟨e, s, rfl⟩⟩
    rintro ⟨_, _, _, hfails, -⟩
    cases hfails
  | error fault s =>
    obtain ⟨⟨e, names, rfl, hnames⟩, placed, hplacement, hcyclic⟩ :=
      (hends.bad_of_error hrun).resolve_left (· hproper)
    rw [PlacedStruct.cyclic_iff hplacement hproper] at hcyclic
    exact ⟨⟨fun _ => hcyclic, fun _ => ⟨e, names, s, rfl, hnames⟩⟩, fun hno => absurd hcyclic hno⟩

/-! ## Checking declarations -/

def FieldType.atMost (bound : String → Option Nat) : FieldType → Option Nat
  | sized size => some size.bytes.toNat
  | block bytes => some bytes.toNat
  | named _ => some 8
  | value name => bound name
  | reference _ => some 8
  | far _ _ => none

def StructDecl.atMost (bound : String → Option Nat) (d : StructDecl) : Nat :=
  (d.fields.map fun field => (field.1.atMost bound).getD 0).sum

section Bounds

variable {decls : List StructDecl} {bound : String → Option Nat}

/-- Bounds that fit the declarations bound what fields take. -/
theorem FieldType.Takes.le_atMost
    (hbound : ∀ d ∈ decls, (∀ field ∈ d.fields, (field.1.atMost bound).isSome) →
      ∃ total ∈ bound d.name, d.atMost bound ≤ total)
    {type : FieldType} {size : Nat} (h : type.Takes decls size) :
    ∃ total ∈ type.atMost bound, size ≤ total := by
  induction h with
  | sized | block | named | reference => exact ⟨_, rfl, le_refl _⟩
  | @value d hd sizes hlength _ ih =>
    have hsome : ∀ field ∈ d.fields, (field.1.atMost bound).isSome := by
      intro field hmem
      obtain ⟨i, hfield⟩ := List.mem_iff_getElem?.mp hmem
      have hlt : i < sizes.length := by
        rw [hlength]
        exact (List.getElem?_eq_some_iff.mp hfield).1
      obtain ⟨total, htotal, -⟩ := ih i field _ hfield (List.getElem?_eq_getElem hlt)
      rw [Option.mem_def.mp htotal]
      rfl
    obtain ⟨total, htotal, hle⟩ := hbound d hd hsome
    refine ⟨total, htotal, le_trans ?_ hle⟩
    apply sum_le_of_getElem? (le_of_eq hlength)
    intro i field size hfield hsize
    obtain ⟨most, hmost, hsize'⟩ := ih i field size hfield hsize
    rw [Option.mem_def.mp hmost]
    exact hsize'

theorem Proper.of_atMost (bound : String → Option Nat) (names : (decls.map StructDecl.name).Nodup)
    (fields : ∀ d ∈ decls, (d.fields.map Prod.snd).Nodup)
    (apart : ∀ d ∈ decls, ∀ field ∈ d.fields, ∀ d' ∈ decls, field.2 ≠ d'.name)
    (declared : ∀ d ∈ decls, ∀ field ∈ d.fields, field.1.known? = none →
      ∃ d' ∈ decls, field.1.name? = some d'.name)
    (hbound : ∀ d ∈ decls, (∀ field ∈ d.fields, (field.1.atMost bound).isSome) →
      ∃ total ∈ bound d.name, d.atMost bound ≤ total)
    (hsmall : ∀ d ∈ decls, d.atMost bound < UInt32.size) : Proper decls := by
  refine ⟨names, fields, apart, declared, fun d hd sizes hsizes => ?_⟩
  apply lt_of_le_of_lt _ (hsmall d hd)
  apply sum_le_of_getElem? hsizes.length_le
  intro i field size hfield hsize
  obtain ⟨most, hmost, hsize'⟩ := (hsizes.takes i field size hfield hsize).le_atMost hbound
  rw [Option.mem_def.mp hmost]
  exact hsize'

end Bounds

/-- A ring of two structures, and one that contains them. -/
def ringDecls : List StructDecl :=
  [⟨"Ring", [(.sized .dword, "size"), (.value "Node", "first"), (.named "Ring", "outer")]⟩,
    ⟨"Node", [(.reference "Ring", "owner"), (.value "Link", "next")]⟩,
    ⟨"Link", [(.block 6, "flags"), (.value "Node", "node")]⟩]

theorem ringDecls_proper : Proper ringDecls :=
  .of_atMost (fun _ => none) (by decide) (by decide) (by decide) (by decide) (by decide) (by decide)

theorem compile_structs_fails_ring :
    Proper ringDecls ∧ ∃ e names s, compileStatements defaultSections 0
      (ringDecls.map StructDecl.statement) .generate {} = .error (.error e) s ∧
        e.cause = .cyclicDependency names := by
  refine ⟨ringDecls_proper, (compile_structs_fails_iff_cycle defaultSections {} 0 .generate
    (by decide) ringDecls ringDecls_proper).1.mpr ⟨"Node", ?_⟩⟩
  have hnext : Embeds ringDecls "Node" "Link" :=
    ⟨_, .tail _ (.head _), rfl, _, .tail _ (.head _), rfl⟩
  have hback : Embeds ringDecls "Link" "Node" :=
    ⟨_, .tail _ (.tail _ (.head _)), rfl, _, .tail _ (.head _), rfl⟩
  exact .tail (.single hnext) hback

end StagedAsm
