import Mathlib.Algebra.GroupWithZero.Nat
import StagedAsm.Proofs.NamedScopes
import StagedAsm.Session.Building

/-!
# Structures as programs write them

What the layout of a structure has to be is said here from its declaration: each field starts where
the ones before it end. Building a program makes a type reference for each field, and finds the
offsets of the leading fields that give their size.
-/

namespace StagedAsm

open List

/-! ## Declarations -/

/-- A path that is no plain name. What it is made of is there already. -/
structure FarPath where
  expr : PathExpr
  path : Path
  eval : ∀ s, evalPath findNothing expr s = .ok path s
  far : ∀ name, path ≠ Path.ofName name

inductive PathUse where
  | named
  | value
  | reference

def PathUse.expr : PathUse → PathExpr → TypeRefExpr
  | named => .named
  | value => .value
  | reference => .reference

def PathUse.form : PathUse → Path → TypeForm
  | named => .named
  | value => .value
  | reference => .reference

/-- Structures are declared under plain names, so a path of another form leads to none of them. -/
inductive FieldType where
  | sized (size : Size)
  | block (bytes : UInt32)
  /-- A pointer to the structure. -/
  | named (name : String)
  /-- The structure, stored in place. -/
  | value (name : String)
  | reference (name : String)
  | far (use : PathUse) (path : FarPath)

namespace FieldType

def expr : FieldType → TypeRefExpr
  | sized size => .sized size
  | block bytes => .block bytes
  | named name => .named [.mk name []]
  | value name => .value [.mk name []]
  | reference name => .reference [.mk name []]
  | far use path => use.expr path.expr

def form : FieldType → TypeForm
  | sized size => .sized size
  | block bytes => .block bytes
  | named name => .named (Path.ofName name)
  | value name => .value (Path.ofName name)
  | reference name => .reference (Path.ofName name)
  | far use path => use.form path.path

/-- The type of the value, where it depends on no name. -/
def known? : FieldType → Option ValueType
  | sized size => some (.sized size)
  | block bytes => some (.block bytes)
  | _ => none

/-- The plain name that the type uses. -/
def name? : FieldType → Option String
  | named name => some name
  | value name => some name
  | reference name => some name
  | _ => none

theorem known_ofForm (t : FieldType) : (TypeRef.ofForm t.form).known = t.known? := by
  cases t with
  | far use => cases use <;> rfl
  | _ => rfl

theorem form_ofForm (t : FieldType) : (TypeRef.ofForm t.form).form = t.form := by
  cases t with
  | far use => cases use <;> rfl
  | _ => rfl

theorem path_form_far (use : PathUse) (path : FarPath) : (far use path).form.path = path.path := by
  cases use <;> rfl

theorem name?_eq_some_iff {t : FieldType} {name : String} :
    t.name? = some name ↔ t.form.path = Path.ofName name := by
  cases t with
  | sized | block => exact ⟨nofun, nofun⟩
  | named | value | reference => simp [name?, form, TypeForm.path, Path.ofName]
  | far use path => exact ⟨nofun, fun h => absurd (path_form_far use path ▸ h) (path.far name)⟩

end FieldType

/-- The declaration of a structure without members of its own. -/
structure StructDecl where
  name : String
  fields : List (FieldType × String)

def StructDecl.statement (d : StructDecl) : Statement :=
  .struct d.name (d.fields.map fun field => (field.1.expr, field.2)) []

/-! ## Layouts -/

/-- Pointers take eight bytes, and a structure in place takes what all its fields take. -/
inductive FieldType.Takes (decls : List StructDecl) : FieldType → Nat → Prop
  | sized (size : Size) : Takes decls (.sized size) size.bytes.toNat
  | block (bytes : UInt32) : Takes decls (.block bytes) bytes.toNat
  | named (name : String) : Takes decls (.named name) 8
  | reference (name : String) : Takes decls (.reference name) 8
  | value {d : StructDecl} (hd : d ∈ decls) (sizes : List Nat)
      (hlength : sizes.length = d.fields.length)
      (hsizes : ∀ (i : Nat) (field : FieldType × String) (size : Nat), d.fields[i]? = some field →
        sizes[i]? = some size → Takes decls field.1 size) : Takes decls (.value d.name) sizes.sum

structure Sizes (decls : List StructDecl) (fields : List (FieldType × String))
    (sizes : List Nat) : Prop where
  length_le : sizes.length ≤ fields.length
  takes : ∀ (i : Nat) (field : FieldType × String) (size : Nat), fields[i]? = some field →
    sizes[i]? = some size → field.1.Takes decls size

/-- Every name means one thing and every offset fits in 32 bits. -/
structure Proper (decls : List StructDecl) : Prop where
  names : (decls.map StructDecl.name).Nodup
  fields : ∀ d ∈ decls, (d.fields.map Prod.snd).Nodup
  apart : ∀ d ∈ decls, ∀ field ∈ d.fields, ∀ d' ∈ decls, field.2 ≠ d'.name
  declared : ∀ d ∈ decls, ∀ field ∈ d.fields, field.1.known? = none →
    ∃ d' ∈ decls, field.1.name? = some d'.name
  bounded : ∀ d ∈ decls, ∀ sizes, Sizes decls d.fields sizes → sizes.sum < UInt32.size

/-- Structures have different names, and so have the fields of each. -/
structure Distinct (decls : List StructDecl) : Prop where
  names : (decls.map StructDecl.name).Nodup
  fields : ∀ d ∈ decls, (d.fields.map Prod.snd).Nodup

/-- Every type gives its size or names a structure that is declared. -/
def Defined (decls : List StructDecl) : Prop :=
  ∀ d ∈ decls, ∀ field ∈ d.fields, field.1.known? = none →
    ∃ d' ∈ decls, field.1.name? = some d'.name

/-- Every offset fits in 32 bits. -/
def Bounded (decls : List StructDecl) : Prop :=
  ∀ d ∈ decls, ∀ sizes, Sizes decls d.fields sizes → sizes.sum < UInt32.size

inductive StructDecl.Meets (decls : List StructDecl) (d : StructDecl) : Path → Prop
  | own {first : Segment} {rest : Path} (hasks : first.asksMember rest = true)
      (h : first.name ∈ d.fields.map Prod.snd) : Meets decls d (first :: rest)
  | other {d' : StructDecl} {first second : Segment} {later : Path}
      (hleads : first.asksMember (second :: later) = false) (hd' : d' ∈ decls)
      (hname : d'.name = first.name) (hasks : second.asksMember later = true)
      (h : second.name ∈ d'.fields.map Prod.snd) : Meets decls d (first :: second :: later)

/-- A field is called like something that a type uses. -/
def Hides (decls : List StructDecl) : Prop :=
  ∃ d ∈ decls, ∃ field ∈ d.fields, d.Meets decls field.1.form.path

theorem StructDecl.meets_ofName {decls : List StructDecl} {d : StructDecl} {name : String} :
    d.Meets decls (Path.ofName name) ↔ name ∈ d.fields.map Prod.snd := by
  refine ⟨fun h => ?_, fun h => .own rfl h⟩
  cases h with
  | own _ h => exact h

theorem Proper.not_hides {decls : List StructDecl} (h : Proper decls) : ¬ Hides decls := by
  rintro ⟨d, hd, field, hfield, hmeets⟩
  cases hknown : field.1.known? with
  | some value =>
    cases htype : field.1 with
    | sized | block =>
      rw [htype] at hmeets
      cases hmeets
    | named | value | reference | far =>
      rw [htype] at hknown
      cases hknown
  | none =>
    obtain ⟨d', hd', hname⟩ := h.declared d hd field hfield hknown
    rw [FieldType.name?_eq_some_iff.mp hname, StructDecl.meets_ofName] at hmeets
    obtain ⟨other, hother, heq⟩ := mem_map.mp hmeets
    exact h.apart d hd other hother d' hd' heq

/-! ## Types that lead nowhere -/

/-- What is wrong with a type that is not found. -/
inductive Miss where
  | undefined
  | noTemplate

inductive Miss.Explains : Miss → Fault → Prop
  | undefined (path : String) : Explains .undefined (.error (.undefinedSymbol path))
  | noTemplate (name kind : String) : Explains .noTemplate (.error (.notATemplate name kind))

/-- What is wrong with a path, unless it leads to a field. -/
def Path.miss? (names : List String) : Path → Option Miss
  | [] => some .undefined
  | first :: rest =>
    if first.asksMember rest ∧ first.name ∈ names then
      if first.isTemplated then some .noTemplate else none
    else some .undefined

def FieldType.miss? (names : List String) (type : FieldType) : Option Miss :=
  if type.known?.isSome then none else type.form.path.miss? names

def firstMiss? (decls : List StructDecl) (fields : List (FieldType × String)) : Option Miss :=
  fields.findSome? fun field => field.1.miss? (decls.map StructDecl.name)

theorem Path.eq_ofName {first : Segment} {rest : Path} (hasks : first.asksMember rest = true)
    (hplain : first.isTemplated = false) : first :: rest = Path.ofName first.name := by
  obtain ⟨name, arguments⟩ := first
  obtain rfl : rest = [] := by simpa [Segment.asksMember, hplain] using hasks
  obtain rfl : arguments = [] := by simpa [Segment.isTemplated] using hplain
  rfl

theorem Path.miss?_eq_none_iff {names : List String} {path : Path} :
    path.miss? names = none ↔ ∃ name ∈ names, path = Path.ofName name := by
  constructor
  · intro h
    cases path with
    | nil => cases h
    | cons first rest =>
      rw [miss?] at h
      split at h
      · rename_i hfound
        split at h
        · cases h
        · rename_i hplain
          exact ⟨first.name, hfound.2, eq_ofName hfound.1 (by simpa using hplain)⟩
      · cases h
  · rintro ⟨name, hname, rfl⟩
    exact if_pos ⟨rfl, hname⟩

section Miss

variable {type : FieldType} {first : Segment} {rest path : Path} (names : List String)

theorem FieldType.miss?_of_path (hknown : type.known? = none) (hpath : type.form.path = path) :
    type.miss? names = path.miss? names := by
  rw [miss?, hknown, hpath]
  rfl

theorem FieldType.miss?_of_not_asks (hknown : type.known? = none)
    (hpath : type.form.path = first :: rest) (hleads : first.asksMember rest = false) :
    type.miss? names = some .undefined := by
  rw [miss?_of_path names hknown hpath, Path.miss?, if_neg (by simp [hleads])]

end Miss

theorem FieldType.miss?_eq_none_iff {type : FieldType} {decls : List StructDecl} :
    type.miss? (decls.map StructDecl.name) = none ↔
      (type.known? = none → ∃ d ∈ decls, type.name? = some d.name) := by
  rw [miss?]
  cases type.known? with
  | some value => simp
  | none => simp [Path.miss?_eq_none_iff, name?_eq_some_iff]

theorem defined_iff {decls : List StructDecl} :
    Defined decls ↔ firstMiss? decls (decls.flatMap StructDecl.fields) = none := by
  simp only [Defined, firstMiss?, findSome?_eq_none_iff, FieldType.miss?_eq_none_iff, mem_flatMap,
    forall_exists_index, and_imp]
  exact ⟨fun h field d hd hfield => h d hd field hfield,
    fun h d hd field hfield => h field d hd hfield⟩

def leadBytes : List FieldType → Nat
  | [] => 0
  | type :: rest =>
    match type.known? with
    | some value => value.bytes.toNat + leadBytes rest
    | none => 0

/-- The leading fields fit in 32 bits. -/
def Small (decls : List StructDecl) : Prop :=
  ∀ d ∈ decls, leadBytes (d.fields.map Prod.fst) < UInt32.size

/-- The names of structures denote references to them. -/
inductive Session.HasType (s : Session) : FieldType → ValueType → Prop
  | sized (size : Size) : HasType s (.sized size) (.sized size)
  | block (bytes : UInt32) : HasType s (.block bytes) (.block bytes)
  | named {name : String} {target : TypeSymbol}
      (h : s.tree.member? ScopeTree.root name = some (.type (.reference target))) :
      HasType s (.named name) ⟨.qword, 8, some (.reference target)⟩
  | reference {name : String} {target : TypeSymbol}
      (h : s.tree.member? ScopeTree.root name = some (.type (.reference target))) :
      HasType s (.reference name) ⟨.qword, 8, some (.reference (.reference target))⟩
  | value {name : String} {target : TypeSymbol} {bytes : UInt32}
      (h : s.tree.member? ScopeTree.root name = some (.type (.reference target)))
      (hsize : s.instanceSize target = .ok bytes) :
      HasType s (.value name) ⟨.none, bytes, some target⟩

def totalBytes (types : List ValueType) : Nat := (types.map fun type => type.bytes.toNat).sum

@[simp] theorem totalBytes_snoc (types : List ValueType) (type : ValueType) :
    totalBytes (types ++ [type]) = totalBytes types + type.bytes.toNat := by
  simp [totalBytes]

/-- The names of fields in a scope are the offsets at which they start, one after the other. -/
inductive Session.Lays (s : Session) (decls : List StructDecl) (scope : ScopeId) :
    List (FieldType × String) → List ValueType → Prop
  | nil : Lays s decls scope [] []
  | snoc {fields : List (FieldType × String)} {types : List ValueType} {type : FieldType}
      {name : String} {value : ValueType} (hbefore : Lays s decls scope fields types)
      (htype : s.HasType type value) (hbytes : type.Takes decls value.bytes.toNat)
      (hmember : s.tree.member? scope name =
        some (.constant (toString (totalBytes types)) (some value))) :
      Lays s decls scope (fields ++ [(type, name)]) (types ++ [value])

namespace Session

variable {s s' : Session} {decls : List StructDecl} {scope : ScopeId}
  {fields : List (FieldType × String)} {types : List ValueType}

variable {value : ValueType}

theorem HasType.mono {type : FieldType} (h : s.HasType type value)
    (hmembers : ∀ name t, s.tree.member? ScopeTree.root name = some (.type t) →
      s'.tree.member? ScopeTree.root name = some (.type t))
    (hsizes : ∀ t bytes, s.instanceSize t = .ok bytes → s'.instanceSize t = .ok bytes) :
    s'.HasType type value := by
  cases h with
  | sized size => exact .sized size
  | block bytes => exact .block bytes
  | named h => exact .named (hmembers _ _ h)
  | reference h => exact .reference (hmembers _ _ h)
  | value h hsize => exact .value (hmembers _ _ h) (hsizes _ _ hsize)

theorem HasType.exists_member {type : FieldType} {name : String} (h : s.HasType type value)
    (hname : type.name? = some name) :
    ∃ symbol, s.tree.member? ScopeTree.root name = some symbol := by
  cases h with
  | sized | block => cases hname
  | named h | reference h | value h _ =>
    cases hname
    exact ⟨_, h⟩

theorem Lays.mono (h : s.Lays decls scope fields types)
    (htypes : ∀ type value, s.HasType type value → s'.HasType type value)
    (hmembers : ∀ name text type, s.tree.member? scope name = some (.constant text type) →
      s'.tree.member? scope name = some (.constant text type)) :
    s'.Lays decls scope fields types := by
  induction h with
  | nil => exact .nil
  | snoc _ htype hbytes hmember ih =>
    exact .snoc ih (htypes _ _ htype) hbytes (hmembers _ _ _ hmember)

theorem Lays.length_eq (h : s.Lays decls scope fields types) : types.length = fields.length := by
  induction h with
  | nil => rfl
  | snoc _ _ _ _ ih => simp [ih]

theorem Lays.field (h : s.Lays decls scope fields types) {i : Nat} {field : FieldType × String}
    (hfield : fields[i]? = some field) (hvalue : types[i]? = some value) :
    s.HasType field.1 value ∧ field.1.Takes decls value.bytes.toNat ∧ s.tree.member? scope field.2 =
        some (.constant (toString (totalBytes (types.take i))) (some value)) := by
  induction h with
  | nil => simp at hfield
  | @snoc fields types type name last hbefore htype hbytes hmember ih =>
    have hlength := hbefore.length_eq
    rcases Nat.lt_trichotomy i fields.length with hlt | rfl | hgt
    · rw [getElem?_append_left hlt] at hfield
      rw [getElem?_append_left (by omega)] at hvalue
      rw [take_append_of_le_length (by omega)]
      exact ih hfield hvalue
    · rw [getElem?_concat_length] at hfield
      rw [← hlength, getElem?_concat_length] at hvalue
      cases hfield
      cases hvalue
      rw [← hlength, take_left]
      exact ⟨htype, hbytes, hmember⟩
    · rw [getElem?_eq_none (by simp; omega)] at hfield
      cases hfield

theorem Lays.of_mem (h : s.Lays decls scope fields types) {field : FieldType × String}
    (hfield : field ∈ fields) :
    ∃ value symbol, s.HasType field.1 value ∧ s.tree.member? scope field.2 = some symbol := by
  induction h with
  | nil => cases hfield
  | snoc _ htype _ hmember ih =>
    rcases mem_append.mp hfield with hfield | hfield
    · exact ih hfield
    · rw [mem_singleton.mp hfield]
      exact ⟨_, _, htype, hmember⟩

theorem Lays.exists_member (h : s.Lays decls scope fields types) {name : String}
    (hname : name ∈ fields.map Prod.snd) : ∃ symbol, s.tree.member? scope name = some symbol := by
  obtain ⟨field, hfield, rfl⟩ := mem_map.mp hname
  obtain ⟨-, symbol, -, hmember⟩ := h.of_mem hfield
  exact ⟨symbol, hmember⟩

theorem Lays.takes {d : StructDecl} (h : s.Lays decls scope d.fields types) (hd : d ∈ decls) :
    FieldType.Takes decls (.value d.name) (totalBytes types) := by
  refine .value hd _ (by simp [h.length_eq]) fun i field size hfield hsize => ?_
  rw [List.getElem?_map] at hsize
  obtain ⟨value, hvalue, rfl⟩ := Option.map_eq_some_iff.mp hsize
  exact (h.field hfield hvalue).2.1

end Session

/-! ## Building -/

/-- Offsets of leading fields, and what they take together. -/
inductive Leading : Nat → List (FieldType × String) → List UInt32 → Nat → Prop
  | stop (total : Nat) (fields : List (FieldType × String)) : Leading total fields [] total
  | next {total size : Nat} {type : FieldType} {name : String} {value : ValueType}
      {rest : List (FieldType × String)} {offset : UInt32} {offsets : List UInt32}
      (hknown : type.known? = some value) (hoffset : offset.toNat = total)
      (hrest : Leading (total + value.bytes.toNat) rest offsets size) :
      Leading total ((type, name) :: rest) (offset :: offsets) size

def fieldsFrom (first : Nat) (fields : List (FieldType × String)) : List Field :=
  (fields.zipIdx first).map fun entry => { name := entry.1.2, type := ⟨entry.2⟩ }

/-- What building makes of the declaration of a structure. -/
structure WrittenStruct where
  decl : StructDecl
  references : Nat
  offsets : List UInt32
  size : UInt32

namespace WrittenStruct

variable (w : WrittenStruct)

def fields : List Field := fieldsFrom w.references w.decl.fields

/-- The type reference of a field. -/
def reference (i : Nat) : TypeRefId := ⟨w.references + i⟩

def actions : Program :=
  [.enterStruct w.decl.name w.fields w.offsets w.size, .exitGlobal]

def IsFresh (s : Session) : Prop :=
  ∀ i field, w.decl.fields[i]? = some field →
    s.typeRef (w.reference i) = TypeRef.ofForm field.1.form

end WrittenStruct

/-- The type references that fields need. -/
def newReferences (fields : List (FieldType × String)) : Array TypeRef :=
  (fields.map fun field => TypeRef.ofForm field.1.form).toArray

theorem evalTypeRef_expr (t : FieldType) (s : Session) : evalTypeRef findNothing t.expr s =
    .ok ⟨s.typeRefs.size⟩ { s with typeRefs := s.typeRefs.push (.ofForm t.form) } := by
  cases t with
  | far use path => cases use <;> exact bind_eq_ok.mpr ⟨path.path, s, path.eval s, rfl⟩
  | _ => rfl

theorem fieldsFrom_cons (first : Nat) (field : FieldType × String)
    (rest : List (FieldType × String)) : fieldsFrom first (field :: rest) =
      { name := field.2, type := ⟨first⟩ } :: fieldsFrom (first + 1) rest := rfl

theorem drop_fieldsFrom (first n : Nat) (fields : List (FieldType × String)) :
    (fieldsFrom first fields).drop n = fieldsFrom (first + n) (fields.drop n) := by
  induction n generalizing first fields with
  | zero => rfl
  | succ n ih =>
    cases fields with
    | nil => simp [fieldsFrom]
    | cons field rest =>
      rw [fieldsFrom_cons, drop_succ_cons, drop_succ_cons, ih]
      congr 1
      omega

theorem newReferences_cons (refs : Array TypeRef) (field : FieldType × String)
    (rest : List (FieldType × String)) : refs ++ newReferences (field :: rest) =
      refs.push (.ofForm field.1.form) ++ newReferences rest := by
  simp [newReferences]

/-- Every field gets a type reference of its own, in order. -/
theorem evalTypedNames_fields (fields : List (FieldType × String)) (s : Session) :
    ∃ names, evalTypedNames findNothing (fields.map fun field => (field.1.expr, field.2)) s =
        .ok names { s with typeRefs := s.typeRefs ++ newReferences fields } ∧
      (names.map fun entry => { name := entry.2, type := entry.1 }) =
        fieldsFrom s.typeRefs.size fields := by
  induction fields generalizing s with
  | nil => exact ⟨[], by simp [evalTypedNames, newReferences, pure, EStateM.pure], rfl⟩
  | cons field rest ih =>
    obtain ⟨names, hrest, hnames⟩ :=
      ih { s with typeRefs := s.typeRefs.push (.ofForm field.1.form) }
    refine ⟨(⟨s.typeRefs.size⟩, field.2) :: names, ?_, ?_⟩
    · refine bind_eq_ok.mpr ⟨_, _, evalTypeRef_expr field.1 s, ?_⟩
      refine bind_eq_ok.mpr ⟨_, _, hrest, ?_⟩
      rw [newReferences_cons]
      rfl
    · rw [map_cons, hnames, fieldsFrom_cons, Array.size_push]

variable {s : Session} {fields : List (FieldType × String)} {i total size first : Nat}
  {field : FieldType × String} {offsets : List UInt32} {decls : List StructDecl} {d : StructDecl}

theorem typeRef_newReferences {refs later : Array TypeRef}
    (hs : s.typeRefs = refs ++ newReferences fields ++ later) (h : fields[i]? = some field) :
    s.typeRef ⟨refs.size + i⟩ = TypeRef.ofForm field.1.form := by
  have hlt : i < fields.length := (List.getElem?_eq_some_iff.mp h).1
  have href : s.typeRefs[refs.size + i]? = some (TypeRef.ofForm field.1.form) := by
    rw [hs, Array.getElem?_append_left (by simpa [newReferences] using hlt),
      Array.getElem?_append_right (Nat.le_add_right _ _), Nat.add_sub_cancel_left]
    simp [newReferences, h]
  rw [Session.typeRef, Array.getD_eq_getD_getElem?, href]
  rfl

theorem Leading.length_le (h : Leading total fields offsets size) :
    offsets.length ≤ fields.length := by
  induction h with
  | stop total fields => exact Nat.zero_le _
  | next _ _ _ ih => exact Nat.succ_le_succ ih

theorem Leading.known (h : Leading total fields offsets size) (hfield : fields[i]? = some field)
    (hi : i < offsets.length) : ∃ value, field.1.known? = some value := by
  induction h generalizing i with
  | stop total fields => exact absurd hi (Nat.not_lt_zero i)
  | next hknown _ _ ih =>
    cases i with
    | zero =>
      cases hfield
      exact ⟨_, hknown⟩
    | succ i => exact ih hfield (Nat.lt_of_succ_lt_succ hi)

theorem FieldType.takes_of_known {type : FieldType} {value : ValueType}
    (h : type.known? = some value) (decls : List StructDecl) :
    type.Takes decls value.bytes.toNat := by
  cases type with
  | sized size =>
    cases h
    exact .sized size
  | block bytes =>
    cases h
    exact .block bytes
  | named | value | reference | far => cases h

theorem Sizes.nil (decls : List StructDecl) (fields : List (FieldType × String)) :
    Sizes decls fields [] :=
  ⟨Nat.zero_le _, fun _ _ _ _ h => by simp at h⟩

theorem Sizes.cons {rest : List (FieldType × String)} {sizes : List Nat}
    (hfield : field.1.Takes decls size) (hrest : Sizes decls rest sizes) :
    Sizes decls (field :: rest) (size :: sizes) := by
  refine ⟨Nat.succ_le_succ hrest.length_le, fun i field' size' hfield' hsize' => ?_⟩
  cases i with
  | zero =>
    cases hfield'
    cases hsize'
    exact hfield
  | succ i => exact hrest.takes i field' size' hfield' hsize'

theorem exists_sizes_lead (decls : List StructDecl) (fields : List (FieldType × String)) :
    ∃ sizes, Sizes decls fields sizes ∧ sizes.sum = leadBytes (fields.map Prod.fst) := by
  induction fields with
  | nil => exact ⟨[], .nil decls [], rfl⟩
  | cons field rest ih =>
    rw [map_cons, leadBytes]
    cases htype : field.1.known? with
    | none => exact ⟨[], .nil decls _, rfl⟩
    | some value =>
      obtain ⟨sizes, hsizes, hsum⟩ := ih
      exact ⟨_, .cons (FieldType.takes_of_known htype decls) hsizes, by rw [sum_cons, hsum]⟩

theorem Bounded.small (h : Bounded decls) : Small decls := by
  intro d hd
  obtain ⟨sizes, hsizes, hsum⟩ := exists_sizes_lead decls d.fields
  exact hsum ▸ h d hd sizes hsizes

theorem addBytes_eq_error {a b : UInt32} {fault : Fault} (h : addBytes a b = .error fault) :
    fault = .overflow .add ∧ UInt32.size ≤ a.toNat + b.toNat := by
  unfold addBytes at h
  split at h
  · cases h
  · cases h
    exact ⟨rfl, by omega⟩

/-- Offsets are found unless a sum is too large. -/
theorem leadingOffsets_cases (total : UInt32) (hfresh : ∀ i field, fields[i]? = some field →
      s.typeRef ⟨first + i⟩ = TypeRef.ofForm field.1.form) :
    (∃ offsets size, leadingOffsets s total (fieldsFrom first fields) = .ok (offsets, size) ∧
        Leading total.toNat fields offsets size.toNat ∧
        total.toNat + leadBytes (fields.map Prod.fst) < UInt32.size) ∨
      leadingOffsets s total (fieldsFrom first fields) = .error (.overflow .add) ∧
        UInt32.size ≤ total.toNat + leadBytes (fields.map Prod.fst) := by
  induction fields generalizing first total with
  | nil => exact .inl ⟨[], total, rfl, .stop _ _, total.toNat_lt_size⟩
  | cons field rest ih =>
    obtain ⟨type, name⟩ := field
    have hknown : (s.typeRef ⟨first⟩).known = type.known? := by
      rw [← type.known_ofForm, ← hfresh 0 _ rfl, add_zero]
    rw [fieldsFrom_cons, leadingOffsets, hknown, map_cons, leadBytes]
    cases htype : type.known? with
    | none => exact .inl ⟨[], total, rfl, .stop _ _, total.toNat_lt_size⟩
    | some value =>
      cases hnext : addBytes total value.bytes with
      | error fault =>
        obtain ⟨rfl, hlarge⟩ := addBytes_eq_error hnext
        exact .inr ⟨by simp [hnext, bind, Except.bind], by dsimp only; omega⟩
      | ok next =>
        have hsum := addBytes_eq_ok_iff.mp hnext
        have hlater : ∀ i field, rest[i]? = some field →
            s.typeRef ⟨first + 1 + i⟩ = TypeRef.ofForm field.1.form := by
          intro i field hfield
          rw [Nat.add_right_comm, Nat.add_assoc]
          exact hfresh (i + 1) field hfield
        rw [← add_assoc, ← hsum]
        rcases ih next hlater with ⟨offsets, size, hrest, hleading, hsmall⟩ | ⟨hrest, hlarge⟩
        · refine .inl ⟨total :: offsets, size, ?_, .next htype rfl (hsum ▸ hleading), hsmall⟩
          simp [hnext, hrest, bind, Except.bind, pure, Except.pure]
        · exact .inr ⟨by simp [hnext, hrest, bind, Except.bind], hlarge⟩

theorem openStruct_ends {names : List (TypeRefId × String)}
    (hnames : (names.map fun entry => { name := entry.2, type := entry.1 }) =
      fieldsFrom first d.fields) (hfresh : ∀ i field, d.fields[i]? = some field →
      s.typeRef ⟨first + i⟩ = TypeRef.ofForm field.1.form) :
    Ends (openStruct d.name names) s (fun action s' => s' = s ∧ ∃ offsets size,
      action = .enterStruct d.name (fieldsFrom first d.fields) offsets size ∧
        Leading 0 d.fields offsets size.toNat ∧ leadBytes (d.fields.map Prod.fst) < UInt32.size)
      fun fault => fault = .overflow .add ∧ UInt32.size ≤ leadBytes (d.fields.map Prod.fst) := by
  unfold openStruct
  rw [hnames]
  refine .after rfl ?_
  rcases leadingOffsets_cases 0 hfresh with ⟨offsets, size, hoffsets, hleading, hsmall⟩ |
    ⟨herror, hlarge⟩
  all_goals rw [UInt32.toNat_zero, zero_add] at *
  · rw [hoffsets]
    exact .of_ok rfl ⟨rfl, offsets, size, rfl, hleading, hsmall⟩
  · rw [herror]
    exact .of_error rfl ⟨rfl, hlarge⟩

theorem buildStatement_statement_ends (d : StructDecl) (s : Session) :
    Ends (buildStatement d.statement) s (fun program s' => ∃ w : WrittenStruct, w.decl = d ∧
      w.references = s.typeRefs.size ∧ program = w.actions ∧
      Leading 0 d.fields w.offsets w.size.toNat ∧ leadBytes (d.fields.map Prod.fst) < UInt32.size ∧
      s' = { s with typeRefs := s.typeRefs ++ newReferences d.fields })
      fun fault => fault = .overflow .add ∧ UInt32.size ≤ leadBytes (d.fields.map Prod.fst) := by
  obtain ⟨names, hnames, hfields⟩ := evalTypedNames_fields d.fields s
  rw [StructDecl.statement, buildStatement]
  refine .after hnames (.after (by rw [buildProgram]; rfl) ?_)
  refine .bind (openStruct_ends hfields fun i field hfield =>
    typeRef_newReferences Array.append_empty.symm hfield) ?_
  rintro action s' ⟨rfl, offsets, size, rfl, hleading, hsmall⟩
  exact .pure ⟨⟨d, s.typeRefs.size, offsets, size⟩, rfl, rfl, rfl, hleading, hsmall, rfl⟩

theorem buildProgram_statements_ends (decls : List StructDecl) (s : Session) :
    Ends (buildProgram (decls.map StructDecl.statement)) s (fun program s' =>
      Small decls ∧ ∃ written : List WrittenStruct, written.map WrittenStruct.decl = decls ∧
        program = written.flatMap WrittenStruct.actions ∧
        (∀ w ∈ written, s.typeRefs.size ≤ w.references ∧
          Leading 0 w.decl.fields w.offsets w.size.toNat ∧ w.IsFresh s') ∧
        written.Pairwise (fun w w' => w.references + w.decl.fields.length ≤ w'.references) ∧
        ∃ added, s' = { s with typeRefs := s.typeRefs ++ added })
      fun fault => fault = .overflow .add ∧ ¬ Small decls := by
  induction decls generalizing s with
  | nil =>
    rw [map_nil, buildProgram]
    exact .pure ⟨by simp [Small], [], rfl, rfl, by simp, List.Pairwise.nil, #[], by simp⟩
  | cons d rest ih =>
    rw [map_cons, buildProgram]
    refine ((buildStatement_statement_ends d s).mono (fun _ _ h => h) ?_).bind ?_
    · rintro fault ⟨hfault, hlarge⟩
      exact ⟨hfault, fun hsmall => Nat.not_le.mpr (hsmall d List.mem_cons_self) hlarge⟩
    rintro actions s1 ⟨w, rfl, href, rfl, hleading, hfirst, rfl⟩
    refine ((ih _).mono (fun _ _ h => h) ?_).bind ?_
    · exact fun fault h => ⟨h.1, fun hsmall => h.2 (forall_mem_cons.mp hsmall).2⟩
    rintro later s2 ⟨hsmall, written, rfl, rfl, hwritten, hapart, added, rfl⟩
    have hsize : (s.typeRefs ++ newReferences w.decl.fields).size =
        w.references + w.decl.fields.length := by
      simp [newReferences, href]
    refine .pure ⟨forall_mem_cons.mpr ⟨hfirst, hsmall⟩, w :: written, rfl, rfl, ?_, ?_, ?_⟩
    · intro w' hw'
      rcases mem_cons.mp hw' with rfl | hw'
      · refine ⟨Nat.le_of_eq href.symm, hleading, fun i field hfield => ?_⟩
        rw [WrittenStruct.reference, href]
        exact typeRef_newReferences rfl hfield
      · obtain ⟨hle, hrest⟩ := hwritten w' hw'
        rw [hsize] at hle
        exact ⟨by omega, hrest⟩
    · refine List.Pairwise.cons (fun w' hw' => ?_) hapart
      rw [← hsize]
      exact (hwritten w' hw').1
    · exact ⟨newReferences w.decl.fields ++ added, by simp [Array.append_assoc]⟩

end StagedAsm
