import StagedAsm.Proofs.LaterSessions
import StagedAsm.Proofs.TemplateCache

/-!
# The names of instances

The name of an instance is made of the name of its template and a hash of the texts of its
arguments, joined with commas. So two instances share their name exactly if the joined texts are the
same, as far as the hash tells these apart. Texts without commas can be read off the joined text.
Which symbols they are the texts of cannot.
-/

namespace StagedAsm

open List Session

/-! ## Labels stay -/

section Labels

variable {α β : Type} {f : α → β} {xs ys : Array α}

theorem map_modify_of_eq {g : α → α} (hg : ∀ x, f (g x) = f x) (n : Nat) :
    (xs.modify n g).toList.map f = xs.toList.map f := by
  apply ext_getElem?
  intro i
  simp only [getElem?_map, Array.getElem?_toList, Array.getElem?_modify]
  split
  · simp [Function.comp_def, hg]
  · rfl

theorem getD_of_prefix_map [Inhabited α] (h : xs.toList.map f <+: ys.toList.map f) {n : Nat}
    (hn : n < xs.size) : f (ys.getD n default) = f (xs.getD n default) := by
  have hle : n < ys.size := Nat.lt_of_lt_of_le hn (by simpa using h.length_le)
  have hget := h.getElem (i := n) (by simpa using hn)
  simpa [hn, hle] using hget.symm

end Labels

def Template.label (t : Template) : String × List String := (t.name, t.parameters)

def Instance.label (i : Instance) : List Symbol × String := (i.arguments, i.mangled)

/-- Templates and instances keep their labels. -/
structure KeepsLabels (s s' : Session) : Prop where
  templates : s.templates.toList.map Template.label <+: s'.templates.toList.map Template.label
  instances : s.instances.toList.map Instance.label <+: s'.instances.toList.map Instance.label

namespace KeepsLabels

variable {s s' : Session}

theorem of_eq (htemplates : s'.templates.toList.map Template.label =
      s.templates.toList.map Template.label)
    (hinstances : s'.instances.toList.map Instance.label = s.instances.toList.map Instance.label) :
    KeepsLabels s s' := ⟨htemplates ▸ prefix_rfl, hinstances ▸ prefix_rfl⟩

theorem of_quiet (h : Quiet s s') : KeepsLabels s s' := by
  obtain ⟨added, hadded, -⟩ := h.templates
  exact ⟨by simp [hadded], h.instances ▸ prefix_rfl⟩

instance : IsPreorder Session KeepsLabels where
  refl _ := of_eq rfl rfl
  trans _ _ _ h h' := ⟨h.templates.trans h'.templates, h.instances.trans h'.instances⟩

theorem of_make {s1 : Session} {t : TemplateId} {made : Instance} (h : Prepared s s1 t made)
    (pass : Pass) : KeepsLabels s (s1.enlist t made pass) := by
  obtain ⟨engine, -, hquiet⟩ := h.quiet
  have hprepared := of_quiet hquiet
  have htemplates : (s1.enlist t made pass).templates.toList.map Template.label =
      s1.templates.toList.map Template.label := by
    rw [s1.templates_enlist, map_modify_of_eq fun _ => by rfl]
  refine ⟨hprepared.templates.trans (htemplates ▸ prefix_rfl), hprepared.instances.trans ?_⟩
  show _ <+: (s1.instances.push made).toList.map _
  simp

instance : AdmitsRuns KeepsLabels where
  quiet := of_quiet
  step h := by
    cases h with
    | quiet h => exact of_quiet h
    | declare id snapshot => exact of_eq (map_modify_of_eq (fun _ => by rfl) _) rfl
    | make id made pass hlt hfresh h => exact of_make h pass
    | _ => exact of_eq rfl rfl
  run h := by
    cases h with
    | busy id busy => exact of_eq rfl (map_modify_of_eq (fun _ => by rfl) _)
    | _ => exact of_eq rfl rfl

end KeepsLabels

/-! ## Texts -/

/-- The symbol is a placeholder without a name. -/
def Session.isNameless (s : Session) : Symbol → Bool
  | .placeholder id => (s.placeholder id).name.isNone
  | _ => false

/-- The name of an instance has the hash of this text. -/
def Session.keyText (s : Session) (arguments : List Symbol) : String :=
  String.intercalate "," (arguments.map s.symbolText)

theorem Session.map_nameText {s : Session} {arguments : List Symbol}
    (h : ∀ x ∈ arguments, s.isNameless x = false) :
    arguments.map s.nameText = arguments.map s.symbolText := by
  refine map_congr_left fun x hx => ?_
  cases x with
  | placeholder id =>
    have hnamed : (s.placeholder id).name.isNone = false := h _ hx
    cases hname : (s.placeholder id).name with
    | none => simp [hname] at hnamed
    | some name => simp only [nameText, hname, symbolText]
  | _ => rfl

/-- Texts without commas can be read off the joined text. -/
theorem eq_of_intercalate_eq {xs ys : List String} (hlength : xs.length = ys.length)
    (hcomma : ∀ text ∈ xs ++ ys, ',' ∉ text.toList)
    (h : String.intercalate "," xs = String.intercalate "," ys) : xs = ys := by
  have hsplit : ∀ zs : List String, zs ≠ [] → (∀ text ∈ zs, ',' ∉ text.toList) →
      (String.intercalate "," zs).toList.splitOn ',' = zs.map String.toList := by
    intro zs hne hzs
    rw [String.toList_intercalate]
    exact splitOn_intercalate ',' (by simpa using hzs) (by simpa using hne)
  cases xs with
  | nil => exact (length_eq_zero_iff.mp hlength.symm).symm
  | cons x xs =>
    have hne : ys ≠ [] := by
      rintro rfl
      cases hlength
    have hparts := hsplit ys hne fun text ht => hcomma text (mem_append_right _ ht)
    rw [← h, hsplit _ (cons_ne_nil x xs) fun text ht =>
      hcomma text (mem_append_left _ ht)] at hparts
    exact map_injective_iff.mpr (fun _ _ => String.toList_inj.mp) hparts

/-! ## Texts that tell symbols apart -/

theorem intText_injective : Function.Injective (toString : Int → String) := by
  have hnat : Function.Injective Nat.repr := by
    intro m n h
    have hdigits : Nat.toDigits 10 m = Nat.toDigits 10 n := String.ofList_injective h
    rw [← Nat.ofDigitChars_ten_toDigits (n := m), hdigits, Nat.ofDigitChars_ten_toDigits]
  have hsign : ∀ m n : Nat, Nat.repr m ≠ "-" ++ Nat.repr n := by
    intro m n h
    have hmem : '-' ∈ (Nat.repr m).toList := by simp [h]
    rw [Nat.repr, String.toList_ofList] at hmem
    exact absurd (Nat.isDigit_of_mem_toDigits (by omega) (by omega) hmem) (by decide)
  intro x y h
  rw [Int.toString_eq_repr, Int.toString_eq_repr] at h
  cases x with
  | ofNat m =>
    cases y with
    | ofNat n => exact congrArg Int.ofNat (hnat h)
    | negSucc n => exact absurd h (hsign _ _)
  | negSucc m =>
    cases y with
    | ofNat n => exact absurd h.symm (hsign _ _)
    | negSucc n =>
      exact congrArg Int.negSucc (Nat.succ.inj (hnat ((String.append_right_inj _).mp h)))

namespace TypeSymbol

/-- What all references lead to in the end. -/
def root : TypeSymbol → TypeSymbol
  | reference target => target.root
  | t => t

/-- The type is made of sizes and references only. -/
def isBuiltin : TypeSymbol → Bool
  | primitive _ _ => true
  | struct _ _ _ => false
  | reference target => target.isBuiltin

theorem length_name (t : TypeSymbol) : t.name.length = t.levels + t.root.name.length := by
  induction t with
  | reference target ih =>
    have hdollar : "$".length = 1 := rfl
    rw [name, String.length_append, ih, hdollar, levels, root]
    omega
  | _ => simp [levels, root]

theorem eq_of_root {t t' : TypeSymbol} (hroot : t.root = t'.root) (hlevels : t.levels = t'.levels) :
    t = t' := by
  induction t generalizing t' with
  | reference target ih =>
    cases t' with
    | reference target' => exact congrArg reference (ih hroot (Nat.succ.inj hlevels))
    | _ => cases hlevels
  | _ =>
    cases t' with
    | reference target' => cases hlevels
    | _ => exact hroot

theorem core_eq_of_isBuiltin {t t' : TypeSymbol} (ht : t.isBuiltin = true)
    (ht' : t'.isBuiltin = true) (h : t.name = t'.name) : t.core = t'.core := by
  -- no size is written with a dollar sign
  have hdollar : ∀ (size : Size) (rest : String), size.text ≠ "$" ++ rest := by
    intro size rest heq
    have hhead := congrArg (·.toList.head?) heq
    cases size <;> simp [Size.text, Size.keyword?] at hhead
  induction t generalizing t' with
  | struct id name layout => cases ht
  | primitive id size =>
    cases t' with
    | struct id' name' layout' => cases ht'
    | primitive id' size' =>
      have hsize : size = size' := by
        revert h
        simp only [name]
        cases size <;> cases size' <;> decide
      rw [core, core, hsize]
    | reference target' => exact absurd h (hdollar _ _)
  | reference target ih =>
    cases t' with
    | struct id' name' layout' => cases ht'
    | primitive id' size' => exact absurd h.symm (hdollar _ _)
    | reference target' =>
      have hname : target.name = target'.name := (String.append_right_inj "$").mp h
      have hcore : target.core = target'.core := ih ht ht' hname
      rw [core, core, hcore]

end TypeSymbol

def Symbol.Comparable : Symbol → Symbol → Prop
  | constant _ valueType, constant _ valueType' =>
    valueType.map ValueType.core = valueType'.map ValueType.core
  | slot frame _ _, slot frame' _ _ => frame = frame'
  | register _, register _ | register _, registerAlias _ => True
  | registerAlias _, register _ | registerAlias _, registerAlias _ => True
  | function _ _, function _ _ => True
  | type t, type t' => (t.isBuiltin = true ∧ t'.isBuiltin = true) ∨ t.root = t'.root
  | placeholder id, placeholder id' => id = id'
  | template id, template id' => id = id'
  | deferred id _, deferred id' _ => id = id'
  | _, _ => False

theorem Symbol.Comparable.pinnedCore_eq {s₁ s₂ : Session} {a b : Symbol} (h : a.Comparable b)
    (htext : s₁.symbolText a = s₂.symbolText b) : s₁.pinnedCore a = s₂.pinnedCore b := by
  cases a with
  | constant text valueType =>
    cases b with
    | constant text' valueType' =>
      have hvalueType : valueType.map ValueType.core = valueType'.map ValueType.core := h
      simp only [pinnedCore, core, show text = text' from htext, hvalueType]
    | _ => cases h
  | slot frame offset valueType =>
    cases b with
    | slot frame' offset' valueType' =>
      have hoffset : offset = offset' := by
        simp only [symbolText] at htext
        exact intText_injective
          ((String.append_right_inj _).mp ((String.append_left_inj _).mp htext))
      simp only [pinnedCore, core, show frame = frame' from h, hoffset]
    | _ => cases h
  | type t =>
    cases b with
    | type t' =>
      have hcore : t.core = t'.core := by
        rcases h with ⟨ht, ht'⟩ | hroot
        · exact TypeSymbol.core_eq_of_isBuiltin ht ht' htext
        · have hlength := congrArg String.length (show t.name = t'.name from htext)
          rw [t.length_name, t'.length_name, hroot, Nat.add_right_cancel_iff] at hlength
          rw [TypeSymbol.eq_of_root hroot hlength]
      simp only [pinnedCore, core, hcore]
    | _ => cases h
  | register r =>
    cases b with
    | register r' | registerAlias id' => exact congrArg _ htext
    | _ => cases h
  | registerAlias id =>
    cases b with
    | register r' | registerAlias id' => exact congrArg _ htext
    | _ => cases h
  | function label parameters =>
    cases b with
    | function label' parameters' => simp only [pinnedCore, core, show label = label' from htext]
    | _ => cases h
  | placeholder id | template id | deferred id text =>
    cases b <;> cases h
    rfl

theorem map_pinnedCore_eq_of_texts {s₁ s₂ : Session} {as bs : List Symbol}
    (h : List.Forall₂ Symbol.Comparable as bs)
    (htexts : as.map s₁.symbolText = bs.map s₂.symbolText) :
    as.map s₁.pinnedCore = bs.map s₂.pinnedCore := by
  induction h with
  | nil => rfl
  | cons hab _ ih =>
    obtain ⟨htext, htexts⟩ := cons.inj htexts
    rw [map_cons, map_cons, hab.pinnedCore_eq htext, ih htexts]

/-! ## Names -/

/-- Leaves it to others to compile the instances that it makes. -/
def EngineId.maker (e : EngineId) : Runner := ⟨e, fun _ _ => pure ()⟩

variable {s s' : Session} {t : TemplateId} {arguments : List Symbol}

theorem nameText_enlist (s : Session) (t : TemplateId) (made : Instance) (pass : Pass)
    (x : Symbol) : (s.enlist t made pass).nameText x = s.nameText x := by
  cases x with
  | template id =>
    show ((s.enlist t made pass).template id).name = (s.template id).name
    rw [s.template_of_modify t (s.templates_enlist t made pass) id]
    split
    · rename_i heq
      rw [heq.1]
    · rfl
  | _ => rfl

theorem label_of_make {e : EngineId} {i : InstanceId} {s₁ : Session}
    (h : e.maker.instantiate t arguments s = .ok i s₁)
    (hnew : s.findInstance? (s.template t).memo arguments = none) (hlater : Later s₁ s')
    (hnamed : ∀ x ∈ arguments, s₁.isNameless x = false) :
    (s'.template t).label = (s.template t).label ∧ (s'.instanceAt i).label =
      (arguments, (s.template t).name ++ "_" ++ Digest.XXH64.hexOfText (s₁.keyText arguments)) := by
  rw [Runner.instantiate_apply (Runner.arity_of_instantiate h), hnew] at h
  obtain ⟨made, s2, hprepared, rfl, rfl, hlt, hmangled, hmade⟩ := Runner.createInstance_eq_ok h
  obtain ⟨pass, rfl⟩ : ∃ pass, s₁ = s2.enlist t made pass := ⟨_, hmade⟩
  have hkeeps : KeepsLabels _ s' := hlater.related
  have htemplate := (trans_of KeepsLabels (.of_make hprepared pass) hkeeps).templates
  have hinstance := getD_of_prefix_map hkeeps.instances (n := s2.instances.size) (by simp [enlist])
  have hlast := instanceAt_enlist s2 t made pass ⟨s2.instances.size⟩
  rw [if_pos rfl] at hlast
  have htexts : made.arguments.map s2.nameText =
      made.arguments.map (s2.enlist t made pass).symbolText := by
    rw [← map_nameText hnamed]
    exact map_congr_left fun x _ => (nameText_enlist s2 t made pass x).symm
  refine ⟨getD_of_prefix_map htemplate hlt, (hinstance.trans (congrArg _ hlast)).trans ?_⟩
  rw [Instance.label, hmangled, mangledName, htexts, keyText]

/-- Two instances of a template, whoever made them and whether or not they could be compiled, have
    the same name in all later sessions exactly if the joined texts of their arguments were the same
    when they were made; if no text has a comma, exactly if all texts were the same. So arguments of
    the same kinds that are not the same, and whose texts have no commas, lead to different names.
    It is asked of the hash that it tells the two joined texts apart, and of the aliases among the
    arguments that they stand for the registers they stood for then. -/
theorem mangled_names_separate {a b : List Symbol} {i j : InstanceId} {e₁ e₂ : EngineId}
    {s₁ s₁' s₂ s₂' : Session}
    (ha : e₁.maker.instantiate t a s₁ = .ok i s₁') (hb : e₂.maker.instantiate t b s₂ = .ok j s₂')
    (hnew₁ : s₁.findInstance? (s₁.template t).memo a = none)
    (hnew₂ : s₂.findInstance? (s₂.template t).memo b = none)
    (hnamed₁ : ∀ x ∈ a, s₁'.isNameless x = false) (hnamed₂ : ∀ x ∈ b, s₂'.isNameless x = false)
    (hlater₁ : Later s₁' s) (hlater₂ : Later s₂' s)
    (hhash : Digest.XXH64.hexOfText (s₁'.keyText a) = Digest.XXH64.hexOfText (s₂'.keyText b) →
      s₁'.keyText a = s₂'.keyText b) :
    (s.instanceAt i).arguments = a ∧ (s.instanceAt j).arguments = b ∧
    ((s.instanceAt i).mangled = (s.instanceAt j).mangled ↔ s₁'.keyText a = s₂'.keyText b) ∧
    ((∀ text ∈ a.map s₁'.symbolText ++ b.map s₂'.symbolText, ',' ∉ text.toList) →
      ((s.instanceAt i).mangled = (s.instanceAt j).mangled ↔
        a.map s₁'.symbolText = b.map s₂'.symbolText) ∧
      (List.Forall₂ Symbol.Comparable a b → s₁'.SameAliases s a → s₂'.SameAliases s b →
        s.sameArguments a b = false → (s.instanceAt i).mangled ≠ (s.instanceAt j).mangled)) := by
  obtain ⟨htemplate₁, hlabel₁⟩ := label_of_make ha hnew₁ hlater₁ hnamed₁
  obtain ⟨htemplate₂, hlabel₂⟩ := label_of_make hb hnew₂ hlater₂ hnamed₂
  obtain ⟨harguments₁, hmangled₁⟩ := Prod.mk.inj hlabel₁
  obtain ⟨harguments₂, hmangled₂⟩ := Prod.mk.inj hlabel₂
  obtain ⟨hname, hparameters⟩ := Prod.mk.inj (htemplate₁.symm.trans htemplate₂)
  have hagree : (s.instanceAt i).mangled = (s.instanceAt j).mangled ↔
      s₁'.keyText a = s₂'.keyText b := by
    rw [hmangled₁, hmangled₂, hname, String.append_right_inj]
    exact ⟨hhash, congrArg Digest.XXH64.hexOfText⟩
  refine ⟨harguments₁, harguments₂, hagree, fun hcomma => ?_⟩
  have hlength : (a.map s₁'.symbolText).length = (b.map s₂'.symbolText).length := by
    rw [List.length_map, List.length_map, Runner.arity_of_instantiate ha,
      Runner.arity_of_instantiate hb, hparameters]
  have htexts : (s.instanceAt i).mangled = (s.instanceAt j).mangled ↔
      a.map s₁'.symbolText = b.map s₂'.symbolText := by
    rw [hagree]
    exact ⟨eq_of_intercalate_eq hlength hcomma, congrArg (String.intercalate ",")⟩
  refine ⟨htexts, fun hkinds halias₁ halias₂ hother heq => ?_⟩
  -- the same texts would be those of the same arguments
  have hcore := map_pinnedCore_eq_of_texts hkinds (htexts.mp heq)
  rw [halias₁.map_pinnedCore, halias₂.map_pinnedCore, ← sameArguments_iff_core] at hcore
  rw [hcore] at hother
  cases hother

def sizeDeclared : Session :=
  leaves ((EngineId.runner ⟨0⟩ 1).compile [.template ⟨0⟩] .declare)
    (templateStart [.constant "Size" "1"])

def sizeUsed (argument : Symbol) (s : Session) : Session :=
  leaves ((EngineId.maker ⟨0⟩).instantiate ⟨0⟩ [argument]) s

theorem mangled_names_separate_sizes : ∃ s i j, s = sizeUsed (.constant "4" none)
    (sizeUsed (.constant "8" none) sizeDeclared) ∧
      (s.instanceAt i).mangled ≠ (s.instanceAt j).mangled := by
  obtain ⟨i, s₁, hi⟩ : ∃ i s₁, (EngineId.maker ⟨0⟩).instantiate ⟨0⟩ [.constant "8" none]
      sizeDeclared = .ok i s₁ := exists_ok_of_succeeds (by decide +kernel)
  obtain rfl : sizeUsed (.constant "8" none) sizeDeclared = s₁ := leaves_of_ok hi
  obtain ⟨j, s₂, hj⟩ : ∃ j s₂, (EngineId.maker ⟨0⟩).instantiate ⟨0⟩ [.constant "4" none]
      (sizeUsed (.constant "8" none) sizeDeclared) = .ok j s₂ :=
    exists_ok_of_succeeds (by decide +kernel)
  have : AdmitsForks Later := AdmitsDeeds.forks default
  have hlater : Later _ s₂ := Moves.of_ok (Runner.moves_instantiate _ (fun _ _ => .pure ()) _ _) hj
  obtain rfl : sizeUsed (.constant "4" none) _ = s₂ := leaves_of_ok hj
  obtain ⟨-, -, -, hseparate⟩ := mangled_names_separate hi hj (by decide +kernel)
    (by decide +kernel) (by decide +kernel) (by decide +kernel) hlater (refl_of Later _)
    (by decide +kernel)
  have hfree : ∀ text, AliasFree [.constant text none] := by simp [AliasFree, Symbol.isAlias]
  exact ⟨_, i, j, rfl, (hseparate (by decide +kernel)).2 (.cons rfl .nil)
    (sameAliases_of_aliasFree (hfree _)) (sameAliases_of_aliasFree (hfree _)) (by decide)⟩

/-- A constant and the register of that name make two instances with one name. -/
theorem other_arguments_same_name :
    let rax := .register (.general .rax .qword)
    let s := sizeUsed rax (sizeUsed (.constant "rax" none) sizeDeclared)
    (s.template ⟨0⟩).memo.entries = [([.constant "rax" none], ⟨0⟩), ([rax], ⟨1⟩)] ∧
      (s.instanceAt ⟨0⟩).mangled = (s.instanceAt ⟨1⟩).mangled := by
  decide +kernel

end StagedAsm
