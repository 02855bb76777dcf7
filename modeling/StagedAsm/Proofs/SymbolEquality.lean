import Mathlib.Data.List.Forall2
import Mathlib.Data.List.Induction
import StagedAsm.Session.Equality

/-!
# Equal arguments

Two symbols are the same if they agree in what tells symbols of their kind apart. So equality is an
equivalence, and equal arguments have equal keys: instances are found by equality alone. Without
register aliases none of this depends on the session.
-/

namespace StagedAsm

open List Option

/-! ## What tells symbols apart -/

/-- What tells a type from others. -/
def TypeSymbol.core : TypeSymbol → TypeSymbol
  | primitive _ size => primitive ⟨0⟩ size
  | struct id _ _ => struct id "" none
  | reference target => reference target.core

theorem TypeSymbol.same_iff {t t' : TypeSymbol} : t.same t' = true ↔ t.core = t'.core := by
  induction t generalizing t' with
  | primitive id size => cases t' <;> simp [same, core]
  | struct id name layout => cases t' <;> simp [same, core]
  | reference target ih => cases t' <;> simp [same, core, ih]

theorem TypeSymbol.key_core (t : TypeSymbol) : t.core.key = t.key := by
  induction t with
  | primitive id size => rfl
  | struct id name layout => rfl
  | reference target ih => simp [core, key, ih]

def ValueType.core (v : ValueType) : ValueType := { v with type := v.type.map TypeSymbol.core }

theorem ValueType.same_iff {v v' : ValueType} : v.same v' = true ↔ v.core = v'.core := by
  obtain ⟨size, bytes, type⟩ := v
  obtain ⟨size', bytes', type'⟩ := v'
  cases type <;> cases type' <;> simp [same, core, TypeSymbol.same_iff, and_assoc]

namespace Symbol

/-- The symbol is a register alias, which may be another register later. -/
def isAlias : Symbol → Bool
  | registerAlias _ => true
  | _ => false

/-- Registers are told apart by their names, beside the symbol. -/
def core : Symbol → Symbol × String
  | constant text valueType => (constant text (valueType.map ValueType.core), "")
  | slot frame offset _ => (slot frame offset default, "")
  | register r => (register default, r.name)
  | registerAlias id => (registerAlias id, "")
  | function label _ => (function label none, "")
  | type t => (type t.core, "")
  | placeholder id => (placeholder id, "")
  | template id => (template id, "")
  | deferred id _ => (deferred id .absent, "")

/-- The part of a key that a symbol makes, if it is no alias. -/
def coreKey : Symbol × String → List KeyPart
  | (constant text _, _) => [.kind 0, .text text]
  | (slot frame offset _, _) => [.kind 1, .identity frame.index, .offset offset]
  | (register _, name) => [.kind 2, .text name]
  | (registerAlias _, _) => []
  | (function label _, _) => [.kind 3, .text label]
  | (type t, _) => .kind 4 :: t.key
  | (placeholder id, _) => [.kind 5, .identity id.index]
  | (template id, _) => [.kind 6, .identity id.index]
  | (deferred id _, _) => [.kind 7, .identity id]

end Symbol

/-- None of the arguments is a register alias. -/
def AliasFree (arguments : List Symbol) : Prop := ∀ a ∈ arguments, a.isAlias = false

def argumentsCore (arguments : List Symbol) : List (Symbol × String) := arguments.map Symbol.core

namespace Session

variable {s s' : Session} {a b : Symbol} {as bs : List Symbol}

/-- A register alias is the register it stands for. -/
def pinnedCore (s : Session) : Symbol → Symbol × String
  | .registerAlias id => (.register default, (s.aliasRegister id).name)
  | a => a.core

theorem pinnedCore_eq (ha : a.isAlias = false) : s.pinnedCore a = a.core := by
  cases a with
  | registerAlias id => cases ha
  | _ => rfl

theorem map_pinnedCore_eq (has : AliasFree as) : as.map s.pinnedCore = argumentsCore as :=
  map_congr_left fun a ha => pinnedCore_eq (has a ha)

/-! ## Equality -/

theorem sameSymbol_iff : s.sameSymbol a b = true ↔ s.pinnedCore a = s.pinnedCore b := by
  cases a with
  | constant text type =>
    cases b with
    | constant text' type' =>
      cases type <;> cases type' <;> simp [sameSymbol, pinnedCore, Symbol.core, ValueType.same_iff]
    | _ => simp [sameSymbol, pinnedCore, Symbol.core]
  | type t =>
    cases b with
    | type t' => simp [sameSymbol, pinnedCore, Symbol.core, TypeSymbol.same_iff]
    | _ => simp [sameSymbol, pinnedCore, Symbol.core]
  | _ => cases b <;> simp [sameSymbol, pinnedCore, Symbol.core]

theorem sameArguments_iff_forall₂ :
    s.sameArguments as bs = true ↔ List.Forall₂ (fun a b => s.sameSymbol a b = true) as bs := by
  induction as generalizing bs with
  | nil => cases bs <;> simp [sameArguments]
  | cons a as ih => cases bs <;> simp [sameArguments, ih]

theorem sameArguments_iff_core :
    s.sameArguments as bs = true ↔ as.map s.pinnedCore = bs.map s.pinnedCore := by
  simp only [sameArguments_iff_forall₂, sameSymbol_iff, ← forall₂_eq_eq_eq,
    forall₂_map_left_iff, forall₂_map_right_iff]

theorem sameArguments_iff (has : AliasFree as) (hbs : AliasFree bs) :
    s.sameArguments as bs = true ↔ argumentsCore as = argumentsCore bs := by
  rw [sameArguments_iff_core, map_pinnedCore_eq has, map_pinnedCore_eq hbs]

/-! ## Keys -/

theorem symbolKey_eq (a : Symbol) : s.symbolKey a = Symbol.coreKey (s.pinnedCore a) := by
  cases a with
  | type t => simp [symbolKey, Symbol.coreKey, pinnedCore, Symbol.core, TypeSymbol.key_core]
  | _ => rfl

/-! ## Finding instances -/

def SameAliases (s s' : Session) (arguments : List Symbol) : Prop :=
  ∀ id, .registerAlias id ∈ arguments → (s.aliasRegister id).name = (s'.aliasRegister id).name

theorem SameAliases.map_pinnedCore (h : s.SameAliases s' as) :
    as.map s.pinnedCore = as.map s'.pinnedCore := by
  refine map_congr_left fun a ha => ?_
  cases a with
  | registerAlias id => rw [pinnedCore, pinnedCore, h id ha]
  | _ => rfl

theorem sameAliases_of_aliasFree (h : AliasFree as) : s.SameAliases s' as :=
  fun _ hid => nomatch h _ hid

theorem argumentsKey_eq (as : List Symbol) : s.argumentsKey as =
    .identity (as.map s.pinnedCore).length :: (as.map s.pinnedCore).flatMap Symbol.coreKey := by
  rw [argumentsKey, length_map, flatMap_map]
  exact congrArg (_ :: as.flatMap ·) (funext symbolKey_eq)

theorem hits_iff {slot : MemoSlot} : s.hits as slot = true ↔
    slot.key = s.argumentsKey as ∧ s.sameArguments slot.arguments as = true := by
  rw [hits, Bool.and_eq_true, beq_iff_eq]

def Tabled (s : Session) (m : Memo) : Prop :=
  m.slots = m.entries.map fun entry => ⟨entry.1, s.argumentsKey entry.1, entry.2⟩

variable {m : Memo} {id : InstanceId}

theorem Tabled.congr (h : s.Tabled m) (hm : ∀ entry ∈ m.entries, s.SameAliases s' entry.1) :
    s'.Tabled m := by
  rw [Tabled, h]
  refine map_congr_left fun entry hentry => ?_
  rw [argumentsKey_eq, argumentsKey_eq, (hm entry hentry).map_pinnedCore]

theorem Tabled.findInstance? (h : s.Tabled m) (as : List Symbol) : s.findInstance? m as =
    (m.entries.find? fun entry => s.sameArguments entry.1 as).map Prod.snd := by
  have hhits : (s.hits as ∘ fun entry : List Symbol × InstanceId =>
      (⟨entry.1, s.argumentsKey entry.1, entry.2⟩ : MemoSlot)) =
        fun entry => s.sameArguments entry.1 as := by
    funext entry
    rw [Function.comp_apply, Bool.eq_iff_iff, hits_iff, and_iff_right_iff_imp]
    intro hsame
    rw [argumentsKey_eq, argumentsKey_eq, sameArguments_iff_core.mp hsame]
  rw [Session.findInstance?, h, find?_map, Option.map_map, hhits]
  rfl

theorem Tabled.memoInsert (h : s.Tabled m) (hnew : s.findInstance? m as = none)
    (id : InstanceId) : s.Tabled (s.memoInsert m as id) ∧
      (s.memoInsert m as id).entries = m.entries ++ [(as, id)] := by
  have hroom : (s.makeRoom m).slots = m.slots := by
    rw [makeRoom]
    split
    · rfl
    · rw [h, List.map_map]
      rfl
  have hslots : s.takeSlot m.slots as id = m.slots ++ [⟨as, s.argumentsKey as, id⟩] := by
    rw [takeSlot, findIdx?_eq_none_iff.mpr]
    intro slot hslot
    rw [Session.findInstance?, map_eq_none_iff, find?_eq_none] at hnew
    exact Bool.not_eq_true _ ▸ hnew slot hslot
  have hinsert : s.memoInsert m as id =
      { entries := m.entries ++ [(as, id)]
        slots := m.slots ++ [⟨as, s.argumentsKey as, id⟩]
        capacity := (s.makeRoom m).capacity } := by
    simp [Session.memoInsert, hnew, hroom, hslots]
  rw [hinsert]
  refine ⟨?_, rfl⟩
  rw [Tabled, map_append, ← h]
  rfl

theorem exists_of_findInstance? {i : InstanceId} (h : s.Tabled m)
    (hm : ∀ entry ∈ m.entries, AliasFree entry.1) (has : AliasFree as)
    (hfound : s.findInstance? m as = some i) :
    ∃ entry ∈ m.entries, entry.2 = i ∧ argumentsCore entry.1 = argumentsCore as := by
  rw [h.findInstance?] at hfound
  obtain ⟨entry, hentry, rfl⟩ := map_eq_some_iff.mp hfound
  have hmem := mem_of_find?_eq_some hentry
  have hsame := find?_some hentry
  exact ⟨entry, hmem, rfl, (sameArguments_iff (hm entry hmem) has).mp hsame⟩

theorem findInstance?_eq_none (h : s.Tabled m) (hm : ∀ entry ∈ m.entries, AliasFree entry.1)
    (has : AliasFree as) :
    s.findInstance? m as = none ↔
      ∀ entry ∈ m.entries, argumentsCore entry.1 ≠ argumentsCore as := by
  rw [h.findInstance?, map_eq_none_iff, find?_eq_none]
  exact forall₂_congr fun entry hentry => (sameArguments_iff (hm entry hentry) has).not

/-! ## Runs of insertions -/

def memoOf (added : List (Session × List Symbol × InstanceId)) (m : Memo) : Memo :=
  added.foldl (fun m x => x.1.memoInsert m x.2.1 x.2.2) m

variable {added : List (Session × List Symbol × InstanceId)}

theorem arguments_of_mem_memoInsert {slot : MemoSlot} (h : slot ∈ (s.memoInsert m as id).slots) :
    slot.arguments = as ∨ ∃ old ∈ m.slots, slot.arguments = old.arguments := by
  have hroom : ∀ slot ∈ (s.makeRoom m).slots, ∃ old ∈ m.slots, slot.arguments = old.arguments := by
    intro slot hslot
    rw [makeRoom] at hslot
    split at hslot
    · exact ⟨slot, hslot, rfl⟩
    · obtain ⟨old, hold, rfl⟩ := mem_map.mp hslot
      exact ⟨old, hold, rfl⟩
  rw [memoInsert] at h
  split at h
  · exact .inr ⟨slot, h, rfl⟩
  simp only [takeSlot] at h
  split at h
  · obtain ⟨n, hn⟩ := mem_iff_getElem?.mp h
    rw [getElem?_modify] at hn
    obtain ⟨placed, hplaced, rfl⟩ := map_eq_some_iff.mp hn
    obtain ⟨old, hold, heq⟩ := hroom placed (mem_of_getElem? hplaced)
    refine .inr ⟨old, hold, ?_⟩
    split <;> exact heq
  · rcases mem_append.mp h with hplaced | hnew
    · exact .inr (hroom slot hplaced)
    · rw [mem_singleton.mp hnew]
      exact .inl rfl

theorem exists_of_mem_memoOf {slot : MemoSlot} (h : slot ∈ (memoOf added {}).slots) :
    ∃ x ∈ added, x.2.1 = slot.arguments := by
  induction added using List.reverseRecOn generalizing slot with
  | nil => cases h
  | append_singleton added x ih =>
    rw [memoOf, foldl_append, foldl_cons, foldl_nil] at h
    rcases arguments_of_mem_memoInsert h with heq | ⟨old, hold, heq⟩
    · exact ⟨x, by simp, heq.symm⟩
    · obtain ⟨y, hy, hargs⟩ := ih hold
      exact ⟨y, mem_append_left _ hy, hargs.trans heq.symm⟩

theorem findInstance?_memoOf (hm : s.Tabled m)
    (hold : ∀ x ∈ added, ∀ entry ∈ m.entries, s.SameAliases x.1 entry.1)
    (hadded : ∀ x ∈ added, ∀ y ∈ added, s.SameAliases x.1 y.2.1) (as : List Symbol) :
    s.findInstance? (memoOf added m) as =
      ((m.entries ++ added.map Prod.snd).find? fun entry => s.sameArguments entry.1 as).map
        Prod.snd := by
  induction added generalizing m with
  | nil => rw [map_nil, append_nil, memoOf, foldl_nil, hm.findInstance?]
  | cons x added ih =>
    obtain ⟨holdx, hold⟩ := forall_mem_cons.mp hold
    obtain ⟨hx, hrest⟩ := forall_mem_cons.mp hadded
    replace hrest : ∀ y ∈ added, s.SameAliases y.1 x.2.1 ∧ ∀ z ∈ added, s.SameAliases y.1 z.2.1 :=
      fun y hy => forall_mem_cons.mp (hrest y hy)
    have hx1 : x.1.Tabled m := hm.congr holdx
    rw [memoOf, foldl_cons, ← memoOf]
    cases hfound : x.1.findInstance? m x.2.1 with
    | some i =>
      -- equal arguments are there, so the new entry would never be found
      rw [memoInsert, hfound, isSome_some, if_pos rfl,
        ih hm hold fun y hy => (hrest y hy).2]
      rw [hx1.findInstance?] at hfound
      obtain ⟨entry, hentry, -⟩ := map_eq_some_iff.mp hfound
      have hsame : x.1.sameArguments entry.1 x.2.1 = true := by simpa using find?_some hentry
      have hcore := sameArguments_iff_core.mp hsame
      rw [← (holdx entry (mem_of_find?_eq_some hentry)).map_pinnedCore,
        ← (forall_mem_cons.mp hx).1.map_pinnedCore] at hcore
      rw [map_cons, find?_append, find?_append, find?_cons]
      split
      · rename_i hnew
        have hsome : (m.entries.find? fun entry => s.sameArguments entry.1 as).isSome := by
          rw [find?_isSome]
          exact ⟨entry, mem_of_find?_eq_some hentry,
            sameArguments_iff_core.mpr (hcore.trans (sameArguments_iff_core.mp hnew))⟩
        obtain ⟨first, hfirst⟩ := isSome_iff_exists.mp hsome
        rw [hfirst, some_or, some_or]
      · rfl
    | none =>
      obtain ⟨hm', hentries⟩ := hx1.memoInsert hfound x.2.2
      have hs' : s.Tabled (x.1.memoInsert m x.2.1 x.2.2) := by
        refine hm'.congr fun entry hentry => ?_
        rw [hentries] at hentry
        rcases mem_append.mp hentry with hentry | hentry
        · exact fun id hid => (holdx entry hentry id hid).symm
        · rw [mem_singleton.mp hentry]
          exact fun id hid => ((forall_mem_cons.mp hx).1 id hid).symm
      rw [ih hs' (fun y hy entry hentry => ?_) fun y hy => (hrest y hy).2, hentries]
      · simp
      · rw [hentries] at hentry
        rcases mem_append.mp hentry with hentry | hentry
        · exact hold y hy entry hentry
        · rw [mem_singleton.mp hentry]
          exact (hrest y hy).1

end Session

/-- Equality of symbols is an equivalence that keys respect. A memo finds arguments only if equal
    ones were added to it. As long as the aliases among what was added stand for the registers they
    stood for then, it finds them whenever equal ones were added, and they lead to the instance that
    was added first. -/
theorem memo_keys_lawful (s : Session) :
    Equivalence (fun a b => s.sameSymbol a b = true) ∧
      (∀ a b, s.sameSymbol a b = true → s.symbolKey a = s.symbolKey b) ∧
      ∀ (added : List (Session × List Symbol × InstanceId)) (arguments : List Symbol),
        ((s.findInstance? (Session.memoOf added {}) arguments).isSome →
          ∃ x ∈ added, List.Forall₂ (fun a b => s.sameSymbol a b = true) x.2.1 arguments) ∧
        ((∀ x ∈ added, ∀ y ∈ added, s.SameAliases x.1 y.2.1) →
          ((s.findInstance? (Session.memoOf added {}) arguments).isSome ↔
            ∃ x ∈ added, List.Forall₂ (fun a b => s.sameSymbol a b = true) x.2.1 arguments) ∧
          s.findInstance? (Session.memoOf added {}) arguments =
            (added.find? fun x => s.sameArguments x.2.1 arguments).map (·.2.2)) := by
  refine ⟨⟨fun a => ?_, fun h => ?_, fun h h' => ?_⟩, fun a b h => ?_, fun added arguments =>
    ⟨fun hfound => ?_, fun hsame => ?_⟩⟩
  · exact Session.sameSymbol_iff.mpr rfl
  · exact Session.sameSymbol_iff.mpr (Session.sameSymbol_iff.mp h).symm
  · exact Session.sameSymbol_iff.mpr
      ((Session.sameSymbol_iff.mp h).trans (Session.sameSymbol_iff.mp h'))
  · rw [Session.symbolKey_eq, Session.symbolKey_eq, Session.sameSymbol_iff.mp h]
  · rw [Session.findInstance?, Option.isSome_map, List.find?_isSome] at hfound
    obtain ⟨slot, hslot, hhits⟩ := hfound
    obtain ⟨x, hx, heq⟩ := Session.exists_of_mem_memoOf hslot
    refine ⟨x, hx, ?_⟩
    rw [heq]
    exact Session.sameArguments_iff_forall₂.mp (Session.hits_iff.mp hhits).2
  · have hfind := Session.findInstance?_memoOf (m := {}) rfl (fun _ _ _ h => nomatch h) hsame
      arguments
    rw [List.nil_append, List.find?_map, Option.map_map] at hfind
    refine ⟨?_, hfind⟩
    rw [hfind, Option.isSome_map, List.find?_isSome]
    simp only [Function.comp_apply, Session.sameArguments_iff_forall₂]

def aliasSession (r : Register) : Session := { settings := {}, aliases := #[r] }

/-- An alias that was added to a memo and now stands for another register is not found, though it is
    the same as itself. -/
theorem moved_alias_missed :
    let m := (aliasSession (.general .rax .qword)).memoInsert {} [.registerAlias ⟨0⟩] ⟨0⟩
    let s := aliasSession (.general .rbx .qword)
    s.sameSymbol (.registerAlias ⟨0⟩) (.registerAlias ⟨0⟩) = true ∧
      s.findInstance? m [.registerAlias ⟨0⟩] = none := by
  decide +kernel

end StagedAsm
