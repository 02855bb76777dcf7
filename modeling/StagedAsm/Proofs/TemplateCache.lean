import Mathlib.Data.List.Nodup
import StagedAsm.Proofs.NamedScopes
import StagedAsm.Proofs.PassOrder
import StagedAsm.Proofs.SymbolEquality
import StagedAsm.Proofs.WholeRuns

/-!
# The instances of a template

The first use of a template with some arguments makes an instance for them. `Session.Memoized` says
how the instances follow from the uses in the history. It stays true in all runs in which no
argument is a register alias: an alias can be pointed at another register.
-/

namespace StagedAsm

open List Runner Session

/-! ## Uses -/

def Event.use? (t : TemplateId) : Event → Option (List Symbol × InstanceId)
  | .used t' arguments i => if t' = t then some (arguments, i) else none
  | _ => none

def Event.build? (t : TemplateId) : Event → Option (List Symbol)
  | .building t' arguments => if t' = t then some arguments else none
  | _ => none

def Event.aboutUse : Event → Bool
  | .used _ _ _ => true
  | .building _ _ => true
  | _ => false

theorem Event.use?_of_not_aboutUse {event : Event} (h : event.aboutUse = false) (t : TemplateId) :
    event.use? t = none ∧ event.build? t = none := by
  cases event <;> simp_all [aboutUse, use?, build?]

namespace Session

def uses (s : Session) (t : TemplateId) : List (List Symbol × InstanceId) :=
  s.history.toList.filterMap (Event.use? t)

def builds (s : Session) (t : TemplateId) : List (List Symbol) :=
  s.history.toList.filterMap (Event.build? t)

/-- No use of the template had a register alias among its arguments. -/
def UsedPlainly (s : Session) (t : TemplateId) : Prop := ∀ use ∈ s.uses t, AliasFree use.1

structure Memoized (s : Session) (t : TemplateId) : Prop where
  tabled : ∀ s₁ : Session, s₁.Tabled (s.template t).memo
  lt : ∀ entry ∈ (s.template t).memo.entries, entry.2.index < s.instances.size
  instances : (s.template t).memo.instances = ((s.uses t).map Prod.snd).eraseDups
  nodup : ((s.template t).memo.entries.map Prod.snd).Nodup
  distinct : ((s.template t).memo.entries.map fun entry => argumentsCore entry.1).Nodup
  used : ∀ entry ∈ (s.template t).memo.entries, entry ∈ s.uses t
  found : ∀ use ∈ s.uses t, ∃ entry ∈ (s.template t).memo.entries,
    entry.2 = use.2 ∧ argumentsCore entry.1 = argumentsCore use.1
  builds : s.builds t = (s.template t).memo.entries.map Prod.fst

variable {s s' : Session} {t : TemplateId}

theorem memoized_new (settings : Settings) (t : TemplateId) : Memoized { settings } t := by
  have hmemo : (({ settings } : Session).template t).memo = {} := by
    simp [template]
    rfl
  have huses : ({ settings } : Session).uses t = [] := rfl
  have hbuilds : ({ settings } : Session).builds t = [] := rfl
  constructor <;> simp [hmemo, huses, hbuilds, Memo.instances, Tabled]

variable {new : List Event} {use : List Symbol × InstanceId}

theorem uses_append (h : s'.history.toList = s.history.toList ++ new) (t : TemplateId) :
    s'.uses t = s.uses t ++ new.filterMap (Event.use? t) := by
  rw [uses, h, filterMap_append, uses]

theorem builds_append (h : s'.history.toList = s.history.toList ++ new) (t : TemplateId) :
    s'.builds t = s.builds t ++ new.filterMap (Event.build? t) := by
  rw [builds, h, filterMap_append, builds]

theorem uses_subset_of_longer (h : s.history.toList <+: s'.history.toList) (t : TemplateId) :
    s.uses t ⊆ s'.uses t := by
  obtain ⟨new, hnew⟩ := h
  intro use huse
  rw [uses_append hnew.symm]
  exact mem_append_left _ huse

theorem UsedPlainly.of_prefix (hs' : s'.UsedPlainly t)
    (h : s.history.toList <+: s'.history.toList) : s.UsedPlainly t :=
  fun use huse => hs' use (uses_subset_of_longer h t huse)

theorem Memoized.aliasFree (hs : s.Memoized t) (hplain : s.UsedPlainly t) :
    ∀ entry ∈ (s.template t).memo.entries, AliasFree entry.1 :=
  fun entry hentry => hplain entry (hs.used entry hentry)

theorem Memoized.instance_eq_iff (hs : s.Memoized t) {a b : List Symbol × InstanceId}
    (ha : a ∈ s.uses t) (hb : b ∈ s.uses t) :
    a.2 = b.2 ↔ argumentsCore a.1 = argumentsCore b.1 := by
  obtain ⟨entry, hentry, hinstance, hcore⟩ := hs.found a ha
  obtain ⟨entry', hentry', hinstance', hcore'⟩ := hs.found b hb
  constructor
  · intro heq
    have hsame : entry = entry' := by
      apply inj_on_of_nodup_map hs.nodup hentry hentry'
      rw [hinstance, hinstance', heq]
    rw [← hcore, ← hcore', hsame]
  · intro heq
    have hsame : entry = entry' := by
      apply inj_on_of_nodup_map hs.distinct hentry hentry'
      rw [hcore, hcore', heq]
    rw [← hinstance, ← hinstance', hsame]

theorem Memoized.mem_instances_iff (hs : s.Memoized t) {i : InstanceId} :
    i ∈ (s.template t).memo.entries.map Prod.snd ↔ i ∈ (s.uses t).map Prod.snd := by
  have hinstances := hs.instances
  rw [Memo.instances] at hinstances
  rw [hinstances, mem_eraseDups]

theorem Memoized.again (hs : s.Memoized t) {entry : List Symbol × InstanceId}
    (hmemo : (s'.template t).memo = (s.template t).memo)
    (hinstances : s'.instances.size = s.instances.size) (huses : s'.uses t = s.uses t ++ [use])
    (hbuilds : s'.builds t = s.builds t) (hentry : entry ∈ (s.template t).memo.entries)
    (hsame : entry.2 = use.2 ∧ argumentsCore entry.1 = argumentsCore use.1) : s'.Memoized t := by
  have hused : use.2 ∈ (s.uses t).map Prod.snd :=
    hs.mem_instances_iff.mp (hsame.1 ▸ mem_map_of_mem hentry)
  constructor
  case tabled => exact hmemo ▸ hs.tabled
  case lt => rw [hmemo, hinstances]; exact hs.lt
  case instances =>
    -- The instance was used before, so it is not listed again.
    rw [hmemo, hs.instances, huses, map_append, eraseDups_append]
    simp [List.removeAll, hused]
  case nodup => exact hmemo ▸ hs.nodup
  case distinct => exact hmemo ▸ hs.distinct
  case used =>
    rw [hmemo, huses]
    exact fun entry hentry => mem_append_left _ (hs.used entry hentry)
  case found =>
    intro use' huse'
    rw [hmemo]
    rw [huses] at huse'
    rcases mem_append.mp huse' with hold | hnew
    · exact hs.found use' hold
    · obtain rfl := mem_singleton.mp hnew
      exact ⟨entry, hentry, hsame⟩
  case builds => rw [hmemo, hbuilds, hs.builds]

theorem Memoized.first (hs : s.Memoized t)
    (htabled : ∀ s₁ : Session, s₁.Tabled (s'.template t).memo)
    (hentries : (s'.template t).memo.entries = (s.template t).memo.entries ++ [use])
    (hinstances : s'.instances.size = s.instances.size + 1) (huses : s'.uses t = s.uses t ++ [use])
    (hbuilds : s'.builds t = s.builds t ++ [use.1]) (hnew : use.2.index = s.instances.size)
    (hapart : ∀ entry ∈ (s.template t).memo.entries, argumentsCore entry.1 ≠ argumentsCore use.1) :
    s'.Memoized t := by
  have hunkept : use.2 ∉ (s.template t).memo.entries.map Prod.snd := by
    intro hmem
    obtain ⟨entry, hentry, heq⟩ := mem_map.mp hmem
    have hlt := hs.lt entry hentry
    rw [heq] at hlt
    omega
  constructor
  case tabled => exact htabled
  case lt =>
    intro entry hentry
    rw [hentries] at hentry
    rcases mem_append.mp hentry with hold | hlast
    · have hlt := hs.lt entry hold
      omega
    · obtain rfl := mem_singleton.mp hlast
      omega
  case instances =>
    have hunused : use.2 ∉ (s.uses t).map Prod.snd := fun h => hunkept (hs.mem_instances_iff.mpr h)
    have hkept := hs.instances
    rw [Memo.instances] at hkept ⊢
    rw [hentries, huses, map_append, map_append, eraseDups_append, hkept]
    simp [List.removeAll, hunused, eraseDups_cons]
  case nodup =>
    rw [hentries, map_append, nodup_append]
    refine ⟨hs.nodup, by simp, fun i hi j hj => ?_⟩
    obtain rfl := mem_singleton.mp hj
    exact fun heq => hunkept (heq ▸ hi)
  case distinct =>
    rw [hentries, map_append, nodup_append]
    refine ⟨hs.distinct, by simp, fun a ha b hb => ?_⟩
    obtain ⟨entry, hentry, rfl⟩ := mem_map.mp ha
    obtain rfl := mem_singleton.mp hb
    exact hapart entry hentry
  case used =>
    intro entry hentry
    rw [huses]
    rw [hentries] at hentry
    rcases mem_append.mp hentry with hold | hlast
    · exact mem_append_left _ (hs.used entry hold)
    · exact mem_append_right _ hlast
  case found =>
    intro use' huse'
    rw [hentries]
    rw [huses] at huse'
    rcases mem_append.mp huse' with hold | hlast
    · obtain ⟨entry, hentry, heq⟩ := hs.found use' hold
      exact ⟨entry, mem_append_left _ hentry, heq⟩
    · exact ⟨use', mem_append_right _ hlast, rfl, rfl⟩
  case builds =>
    rw [hbuilds, hentries, map_append, hs.builds]
    rfl

end Session

/-! ## Steps -/

theorem Template.Builds.of_body {a b : Template} (h : b.Builds) (heq : a.body = b.body) :
    a.Builds := by
  intro s
  rw [heq]
  exact h s

theorem Template.builds_default : (default : Template).Builds := fun s => ⟨[], s, rfl⟩

/-- A template stays memoized, provided that its body builds and that it is used without aliases. -/
structure Memoizes (t : TemplateId) (s s' : Session) : Prop where
  history : s.history.toList <+: s'.history.toList
  body : t.index < s.templates.size →
    t.index < s'.templates.size ∧ (s'.template t).body = (s.template t).body
  memoized : (s'.template t).Builds → s'.UsedPlainly t → s.Memoized t → s'.Memoized t

namespace Memoizes

variable {t : TemplateId} {s s' : Session}

theorem builds (h : Memoizes t s s') (hbuilds : (s'.template t).Builds) :
    (s.template t).Builds := by
  by_cases hlt : t.index < s.templates.size
  · exact hbuilds.of_body (h.body hlt).2.symm
  · rw [template_of_size_le (Nat.le_of_not_lt hlt)]
    exact Template.builds_default

instance : IsPreorder Session (Memoizes t) where
  refl _ := ⟨List.prefix_rfl, fun hlt => ⟨hlt, rfl⟩, fun _ _ hs => hs⟩
  trans _ _ _ h h' :=
    { history := h.history.trans h'.history
      body := fun hlt => by
        obtain ⟨hlt', hbody⟩ := h.body hlt
        obtain ⟨hlt'', hbody'⟩ := h'.body hlt'
        exact ⟨hlt'', hbody'.trans hbody⟩
      memoized := fun hbuilds hplain hs => h'.memoized hbuilds hplain
        (h.memoized (h'.builds hbuilds) (hplain.of_prefix h'.history) hs) }

theorem of_events (new : List Event) (hhistory : s'.history.toList = s.history.toList ++ new)
    (hnew : ∀ event ∈ new, event.use? t = none ∧ event.build? t = none)
    (hmemo : (s'.template t).memo = (s.template t).memo)
    (hbody : t.index < s.templates.size →
      t.index < s'.templates.size ∧ (s'.template t).body = (s.template t).body)
    (hinstances : s.instances.size ≤ s'.instances.size) : Memoizes t s s' := by
  have huses : s'.uses t = s.uses t := by
    rw [uses_append hhistory, filterMap_eq_nil_iff.mpr fun e he => (hnew e he).1,
      append_nil]
  have hbuilt : s'.builds t = s.builds t := by
    rw [builds_append hhistory, filterMap_eq_nil_iff.mpr fun e he => (hnew e he).2,
      append_nil]
  refine ⟨⟨new, hhistory.symm⟩, hbody, fun _ _ hs => ?_⟩
  constructor
  case tabled => exact hmemo ▸ hs.tabled
  case lt => exact fun entry hentry => Nat.lt_of_lt_of_le (hs.lt entry (hmemo ▸ hentry)) hinstances
  case instances => rw [hmemo, huses, hs.instances]
  case nodup => exact hmemo ▸ hs.nodup
  case distinct => exact hmemo ▸ hs.distinct
  case used => rw [hmemo, huses]; exact hs.used
  case found => rw [hmemo, huses]; exact hs.found
  case builds => rw [hmemo, hbuilt, hs.builds]

theorem of_still (htemplates : s'.templates = s.templates)
    (hinstances : s'.instances.size = s.instances.size)
    (hhistory : s'.history = s.history ∨
      ∃ event, s'.history = s.history.push event ∧ event.aboutUse = false) :
    Memoizes t s s' := by
  have htemplate : s'.template t = s.template t := by
    rw [template, htemplates, template]
  have hmemo := congrArg Template.memo htemplate
  have hbody : t.index < s.templates.size →
      t.index < s'.templates.size ∧ (s'.template t).body = (s.template t).body := fun hlt =>
    ⟨htemplates ▸ hlt, congrArg Template.body htemplate⟩
  have hle := Nat.le_of_eq hinstances.symm
  rcases hhistory with hhistory | ⟨event, hhistory, habout⟩
  · exact of_events [] (by simp [hhistory]) (by simp) hmemo hbody hle
  · refine of_events [event] (by simp [hhistory]) ?_ hmemo hbody hle
    simpa using Event.use?_of_not_aboutUse habout t

theorem of_quiet (h : Quiet s s') : Memoizes t s s' := by
  refine of_events [] (by simp [h.history]) (by simp) (h.memo_eq t) (fun hlt => ?_)
    (Nat.le_of_eq (congrArg Array.size h.instances.symm))
  obtain ⟨added, hadded, -⟩ := h.templates
  have hle : s.templates.size ≤ s'.templates.size := by simp [hadded]
  exact ⟨by omega, congrArg Template.body (h.template_of_lt hlt)⟩

variable {id : TemplateId} {arguments : List Symbol}

theorem use {i : InstanceId} (hfound : s.findInstance? (s.template id).memo arguments = some i) :
    Memoizes t s (s.use id arguments i) := by
  have hhistory : (s.use id arguments i).history.toList =
      s.history.toList ++ [.used id arguments i] := by simp [Session.use]
  by_cases hid : id = t
  · subst hid
    have huses := uses_append hhistory id
    have hbuilt := builds_append hhistory id
    simp only [filterMap_cons, filterMap_nil, Event.use?, Event.build?, if_true,
      append_nil] at huses hbuilt
    refine ⟨⟨_, hhistory.symm⟩, fun hlt => ⟨hlt, rfl⟩, fun _ hplain hs => ?_⟩
    have hold := hplain.of_prefix ⟨_, hhistory.symm⟩
    have hnew : AliasFree arguments := hplain (arguments, i) (by simp [huses])
    obtain ⟨entry, hentry, hsame⟩ :=
      exists_of_findInstance? (hs.tabled s) (hs.aliasFree hold) hnew hfound
    exact hs.again rfl rfl huses hbuilt hentry hsame
  · refine of_events _ hhistory ?_ rfl (fun hlt => ⟨hlt, rfl⟩) .refl
    simp [Event.use?, Event.build?, hid]

theorem reject (hfails : ¬ (s.template id).Builds) :
    Memoizes t s { s with history := s.history.push (.building id arguments) } := by
  have hhistory : ({ s with history := s.history.push (.building id arguments) } :
      Session).history.toList = s.history.toList ++ [.building id arguments] := by simp
  by_cases hid : id = t
  · subst hid
    exact ⟨⟨_, hhistory.symm⟩, fun hlt => ⟨hlt, rfl⟩, fun hbuilds => absurd hbuilds hfails⟩
  · refine of_events _ hhistory ?_ rfl (fun hlt => ⟨hlt, rfl⟩) .refl
    simp [Event.use?, Event.build?, hid]

theorem make {s1 : Session} {made : Instance} {pass : Pass} (hlt : id.index < s.templates.size)
    (hfresh : s.findInstance? (s.template id).memo made.arguments = none)
    (h : Prepared s s1 id made) : Memoizes t s (s1.enlist id made pass) := by
  obtain ⟨engine, -, hquiet⟩ := h.quiet
  have hhistory := h.history_eq pass
  have hsize : s1.instances.size = s.instances.size := congrArg Array.size hquiet.instances
  have hmemo1 : (s1.template t).memo = (s.template t).memo := hquiet.memo_eq t
  have htemplate := s1.template_of_modify id (s1.templates_enlist id made pass) t
  have hbody1 : t.index < s.templates.size →
      t.index < s1.templates.size ∧ (s1.template t).body = (s.template t).body :=
    (of_quiet (t := t) hquiet).body
  have hsize' : (s1.enlist id made pass).templates.size = s1.templates.size :=
    Array.size_modify ..
  by_cases hid : id = t
  · subst hid
    obtain ⟨hlt1, hbody⟩ := hbody1 hlt
    rw [if_pos ⟨rfl, hlt1⟩] at htemplate
    have huses := uses_append hhistory id
    have hbuilt := builds_append hhistory id
    simp only [filterMap_cons, filterMap_nil, Event.use?, Event.build?, if_true]
      at huses hbuilt
    refine ⟨⟨_, hhistory.symm⟩, fun _ => ⟨by omega, ?_⟩, fun _ hplain hs => ?_⟩
    · rw [htemplate]
      exact hbody
    -- No arguments that were used before are the same, in whatever session that is asked.
    have hold := hplain.of_prefix ⟨_, hhistory.symm⟩
    have hnew : AliasFree made.arguments :=
      hplain (made.arguments, ⟨s1.instances.size⟩) (by simp [huses])
    have hapart := (findInstance?_eq_none (hs.tabled s) (hs.aliasFree hold) hnew).mp hfresh
    let sInsert : Session := { s1 with instances := s1.instances.push made }
    have hnone := (findInstance?_eq_none (hs.tabled sInsert) (hs.aliasFree hold) hnew).mpr hapart
    obtain ⟨htabled, hentries⟩ := (hs.tabled sInsert).memoInsert hnone ⟨s1.instances.size⟩
    have hmemo : ((s1.enlist id made pass).template id).memo =
        sInsert.memoInsert (s.template id).memo made.arguments ⟨s1.instances.size⟩ := by
      rw [htemplate, ← hmemo1]
    rw [← hmemo] at htabled hentries
    refine hs.first (fun s₁ => htabled.congr fun entry hentry => sameAliases_of_aliasFree ?_)
      hentries (h.size_instances pass) huses hbuilt hsize hapart
    rw [hentries] at hentry
    rcases mem_append.mp hentry with hentry | hentry
    · exact hs.aliasFree hold entry hentry
    · rw [mem_singleton.mp hentry]
      exact hnew
  · rw [if_neg fun heq => hid heq.1.symm] at htemplate
    refine of_events _ hhistory ?_ (by rw [htemplate, hmemo1]) (fun hlt => ?_) ?_
    · simp [Event.use?, Event.build?, hid]
    · rw [htemplate, hsize']
      exact hbody1 hlt
    · rw [h.size_instances]
      omega

theorem of_step (h : Step s s') : Memoizes t s s' := by
  cases h with
  | quiet h => exact of_quiet h
  | declare id snapshot =>
    have hsame : ∀ s' : Session, (s'.templates = s.templates.modify id.index fun template =>
          { template with declaration := some snapshot }) →
        (s'.template t).memo = (s.template t).memo ∧
          (s'.template t).body = (s.template t).body := by
      intro s' htemplates
      rw [s.template_of_modify id htemplates t]
      split
      · rename_i heq
        rw [heq.1]
        exact ⟨rfl, rfl⟩
      · exact ⟨rfl, rfl⟩
    refine of_events [] (by simp) (by simp) (hsame _ rfl).1
      (fun hlt => ⟨?_, (hsame _ rfl).2⟩) .refl
    rw [Array.size_modify]
    exact hlt
  | reject id arguments h => exact reject h
  | make id made pass hlt hfresh h => exact make hlt hfresh h
  | use id arguments i h => exact use h
  | bind | fork => exact of_still rfl rfl (.inl rfl)
  | _ => exact of_still rfl rfl (.inr ⟨_, rfl, rfl⟩)

instance : AdmitsRuns (Memoizes t) where
  quiet h := of_quiet h
  step := of_step
  run h := by
    cases h with
    | engine | openEpoch | start => exact of_still rfl rfl (.inl rfl)
    | busy id busy => exact of_still rfl (Array.size_modify ..) (.inl rfl)
    | happened event h =>
      refine of_still rfl rfl (.inr ⟨event, rfl, ?_⟩)
      cases event <;> first | rfl | exact nomatch h

end Memoizes

variable {s : Session} {t : TemplateId}

theorem Reached.memoized {engines : List EngineId} (hs : Reached engines s)
    (hbuilds : (s.template t).Builds) (hplain : s.UsedPlainly t) : s.Memoized t := by
  obtain ⟨settings, h⟩ := hs.related (R := Memoizes t)
  exact h.memoized hbuilds hplain (memoized_new settings t)

/-! ## Calls -/

theorem EngineId.declareAll_of_free {e : EngineId} {names : List (String × Symbol)}
    {scope : ScopeId} (hscope : (s.engine e).currentScope = scope) (hlt : scope.index < s.tree.size)
    (hnodup : (names.map Prod.fst).Nodup)
    (hfree : ∀ entry ∈ names, s.tree.member? scope entry.1 = none) :
    ∃ s', e.declareAll names s = .ok () s' := by
  induction names generalizing s with
  | nil => exact ⟨s, rfl⟩
  | cons entry rest ih =>
    obtain ⟨name, symbol⟩ := entry
    obtain ⟨hname, hrest⟩ := nodup_cons.mp hnodup
    have hunbound : ∀ old, s.tree.member? scope name = some old → String → False := by
      intro old hold
      rw [hfree (name, symbol) mem_cons_self] at hold
      exact nomatch hold
    obtain ⟨_, t, hdeclare, -, hbinds, -, honly⟩ :
        ∃ _ t, ScopeTree.declare scope name symbol s.tree = .ok () t ∧ _ :=
      (ScopeTree.declare_ends hlt hunbound).exists_ok fun _ h => h
    have hfirst : e.declare name symbol s = .ok () { s with tree := t } :=
      bind_eq_ok.mpr ⟨_, s, rfl, onTree_eq_ok.mpr ⟨t, hscope ▸ hdeclare, rfl⟩⟩
    have hfree' : ∀ entry ∈ rest, t.member? scope entry.1 = none := by
      intro entry hentry
      cases hmember : t.member? scope entry.1 with
      | none => rfl
      | some value =>
        -- A name that is bound now was bound before, or it is the first one again.
        rcases honly _ _ hmember with ⟨heq, -⟩ | hold
        · exact absurd (mem_map.mpr ⟨entry, hentry, heq⟩) hname
        · rw [hfree entry (mem_cons_of_mem _ hentry)] at hold
          exact nomatch hold
    have hlt' : scope.index < t.size := hbinds.size ▸ hlt
    obtain ⟨s', hall⟩ := ih (s := { s with tree := t }) hscope hlt' hrest hfree'
    exact ⟨s', bind_eq_ok.mpr ⟨(), _, hfirst, hall⟩⟩

theorem Runner.prepareInstance_of_fits {id : TemplateId} {template : Template}
    {snapshot : Snapshot} {arguments : List Symbol} (hnodup : template.parameters.Nodup)
    (harity : arguments.length = template.parameters.length) (hbuilds : template.Builds)
    (s : Session) :
    ∃ made s', Runner.prepareInstance id template snapshot arguments s = .ok made s' := by
  let s1 : Session := { s with
    tree := (s.tree.push (snapshot.privateScope s.tree)).2
    engines := s.engines.push (.ofSnapshot snapshot ⟨s.tree.size⟩) }
  have hscope : (s1.engine ⟨s.engines.size⟩).currentScope = ⟨s.tree.size⟩ := by
    rw [Session.engine, getD_push, if_pos rfl]
    rfl
  have hlt : s.tree.size < s1.tree.size := by simp [s1]
  have hempty : ∀ name, s1.tree.member? ⟨s.tree.size⟩ name = none := by
    intro name
    rw [ScopeTree.member?, ScopeTree.scope_push, if_pos rfl]
    exact Dictionary.get?_empty name
  have hnames : ((template.parameters.zip arguments).map Prod.fst).Nodup := by
    rw [List.map_fst_zip (Nat.le_of_eq harity.symm)]
    exact hnodup
  obtain ⟨s2, hdeclare⟩ := EngineId.declareAll_of_free hscope hlt hnames fun entry _ =>
    hempty entry.1
  obtain ⟨s3, hrecord⟩ : ∃ s3, record (.building template.name) s2 = .ok () s3 := ⟨_, rfl⟩
  obtain ⟨program, s4, hbuild⟩ :=
    hbuilds { s3 with history := s3.history.push (.building id arguments) }
  exact ⟨_, s4, bind_eq_ok.mpr ⟨_, s1, fork_apply snapshot s, bind_eq_ok.mpr ⟨(), s2, hdeclare,
    bind_eq_ok.mpr ⟨(), s3, hrecord, bind_eq_ok.mpr ⟨(), _, rfl,
      bind_eq_ok.mpr ⟨program, s4, hbuild, rfl⟩⟩⟩⟩⟩⟩

namespace Runner

variable {r : Runner} {t : TemplateId} {arguments : List Symbol} {s s' : Session} {i : InstanceId}

theorem instantiate_apply (harity : arguments.length = (s.template t).parameters.length) :
    r.instantiate t arguments s =
      match s.findInstance? (s.template t).memo arguments with
      | some i => .ok i (s.use t arguments i)
      | none => r.createInstance t arguments s := by
  show (if arguments.length ≠ (s.template t).parameters.length then _
    else match s.findInstance? (s.template t).memo arguments with
      | some i => happened (.used t arguments i) >>= fun _ => pure i
      | none => r.createInstance t arguments : CompileM InstanceId) s = _
  rw [if_neg (not_not.mpr harity)]
  cases s.findInstance? (s.template t).memo arguments <;> rfl

theorem arity_of_instantiate (h : r.instantiate t arguments s = .ok i s') :
    arguments.length = (s.template t).parameters.length := by
  by_contra hne
  have hrun :
      (if arguments.length ≠ (s.template t).parameters.length then _ else _ : CompileM _) s =
      .ok i s' := h
  rw [if_pos hne] at hrun
  exact nomatch hrun

theorem createInstance_run : r.createInstance t arguments s =
    (match (s.template t).declaration with
    | none => fail (.templateUndeclared (s.template t).name)
    | some snapshot => prepareInstance t (s.template t) snapshot arguments >>= fun prepared =>
      r.engine.currentPass >>= fun pass => enlistInstance t prepared pass >>= fun made =>
        r.advance made pass >>= fun _ => pure made : CompileM InstanceId) s := rfl

theorem createInstance_apply {snapshot : Snapshot} {made : Instance} {s1 : Session}
    (hdeclared : (s.template t).declaration = some snapshot)
    (hprepare : prepareInstance t (s.template t) snapshot arguments s = .ok made s1) :
    r.createInstance t arguments s =
      (r.advance ⟨s1.instances.size⟩ (s1.engine r.engine).currentPass >>= fun _ =>
        pure ⟨s1.instances.size⟩)
        (s1.enlist t made (s1.engine r.engine).currentPass) := by
  rw [createInstance_run, hdeclared]
  simp only [bind, EStateM.bind, hprepare]
  rfl

theorem createInstance_eq_ok (h : r.createInstance t arguments s = .ok i s') :
    ∃ made s1, Prepared s s1 t made ∧ made.arguments = arguments ∧ i = ⟨s1.instances.size⟩ ∧
      t.index < s.templates.size ∧ made.mangled = mangledName s1 (s.template t).name arguments ∧
      s' = leaves (r.advance i (s1.engine r.engine).currentPass >>= fun _ => pure i)
        (s1.enlist t made (s1.engine r.engine).currentPass) := by
  have hrun := h
  rw [createInstance_run] at hrun
  cases hdeclared : (s.template t).declaration with
  | none =>
    rw [hdeclared] at hrun
    exact nomatch hrun
  | some snapshot =>
    rw [hdeclared] at hrun
    obtain ⟨made, s1, hprepare, -⟩ := bind_eq_ok.mp hrun
    obtain ⟨hprepared, harguments, hmangled⟩ := prepared_of_ok hprepare
    rw [createInstance_apply hdeclared hprepare] at h
    obtain ⟨_, s2, hadvance, hpure⟩ := bind_eq_ok.mp h
    cases hpure
    exact ⟨made, s1, hprepared, harguments, rfl, lt_of_declared hdeclared, hmangled,
      (leaves_of_ok h).symm⟩

end Runner

section Calls

variable {e : EngineId} {depth : Nat} {t : TemplateId} {arguments : List Symbol}

variable {s : Session}

theorem mem_uses_of_enlist {s1 : Session} {made : Instance} (h : Prepared s s1 t made)
    (pass : Pass) :
    (made.arguments, ⟨s1.instances.size⟩) ∈ (leaves ((e.runner depth).advance
      ⟨s1.instances.size⟩ pass >>= fun _ => pure (⟨s1.instances.size⟩ : InstanceId))
      (s1.enlist t made pass)).uses t := by
  have hmoves : Moves (Memoizes t) ((e.runner depth).advance ⟨s1.instances.size⟩ pass >>=
      fun _ => pure (⟨s1.instances.size⟩ : InstanceId)) :=
    .returns (moves_advanceWithin depth _ pass)
  apply uses_subset_of_longer (hmoves _).history
  rw [uses_append (h.history_eq pass)]
  simp [Event.use?]

theorem exists_mem_uses_of_fits (hdeclared : (s.template t).declaration.isSome)
    (hnodup : (s.template t).parameters.Nodup)
    (harity : arguments.length = (s.template t).parameters.length)
    (hbuilds : (s.template t).Builds) :
    ∃ i, (arguments, i) ∈ (leaves ((e.runner depth).instantiate t arguments) s).uses t := by
  obtain ⟨snapshot, hsnapshot⟩ := Option.isSome_iff_exists.mp hdeclared
  rw [leaves, instantiate_apply harity]
  cases hfound : s.findInstance? (s.template t).memo arguments with
  | some i => exact ⟨i, by simp [uses, use, Event.use?]⟩
  | none =>
    obtain ⟨made, s1, hprepare⟩ : ∃ made s1,
        Runner.prepareInstance t (s.template t) snapshot arguments s = .ok made s1 :=
      prepareInstance_of_fits hnodup harity hbuilds s
    dsimp only
    rw [createInstance_apply hsnapshot hprepare]
    obtain ⟨hprepared, rfl, -⟩ := prepared_of_ok hprepare
    exact ⟨⟨s1.instances.size⟩, mem_uses_of_enlist hprepared _⟩

theorem mem_uses_of_instantiate {s' : Session} {i : InstanceId}
    (h : (e.runner depth).instantiate t arguments s = .ok i s') : (arguments, i) ∈ s'.uses t := by
  rw [instantiate_apply (arity_of_instantiate h)] at h
  cases hfound : s.findInstance? (s.template t).memo arguments with
  | some i =>
    rw [hfound] at h
    cases h
    simp [uses, use, Event.use?]
  | none =>
    rw [hfound] at h
    obtain ⟨made, s1, hprepared, rfl, rfl, -, -, rfl⟩ := createInstance_eq_ok h
    exact mem_uses_of_enlist hprepared _

end Calls

/-! ## One instance for equal arguments -/

/-- If the body of a template builds and no argument was a register alias, uses with equal
    arguments, and only those, led to the same instance; the template keeps the instances in the
    order of their first uses, with different arguments; its body was built once for each; and the
    engine of each ran its passes in order, taking up a pass only while no run of it had succeeded.
    These are all the uses: a call that returns an instance is among them, and so is one that fits
    the template, even if compiling the instance fails. -/
theorem instances_memoized {engines : List EngineId} {s : Session} (hs : Reached engines s)
    {t : TemplateId} (hbuilds : (s.template t).Builds) (hplain : s.UsedPlainly t) :
    (∀ a ∈ s.uses t, ∀ b ∈ s.uses t,
      a.2 = b.2 ↔ List.Forall₂ (fun x y => s.sameSymbol x y = true) a.1 b.1) ∧
    (s.template t).memo.instances = ((s.uses t).map Prod.snd).eraseDups ∧
    ((s.template t).memo.entries.Pairwise fun a b => s.sameArguments a.1 b.1 = false) ∧
    s.builds t = (s.template t).memo.entries.map Prod.fst ∧
    (∀ i ∈ (s.template t).memo.instances, s.InOrder (s.instanceAt i).engine) ∧
    ∀ (e : EngineId) (depth : Nat) (arguments : List Symbol) (s₁ : Session),
      (∀ i s₂, (e.runner depth).instantiate t arguments s₁ = .ok i s₂ →
        (arguments, i) ∈ s₂.uses t) ∧
      ((s₁.template t).declaration.isSome → (s₁.template t).parameters.Nodup →
        arguments.length = (s₁.template t).parameters.length → (s₁.template t).Builds →
        ∃ i, (arguments, i) ∈ (leaves ((e.runner depth).instantiate t arguments) s₁).uses t) := by
  have hmemoized := hs.memoized hbuilds hplain
  refine ⟨fun a ha b hb => ?_, hmemoized.instances, ?_, hmemoized.builds,
    fun i _ => hs.orderly _, fun e depth arguments s₁ => ⟨fun i s₂ => mem_uses_of_instantiate,
      exists_mem_uses_of_fits⟩⟩
  · rw [hmemoized.instance_eq_iff ha hb, ← Session.sameArguments_iff_forall₂,
      Session.sameArguments_iff (hplain a ha) (hplain b hb)]
  · have hentries := hmemoized.aliasFree hplain
    refine (List.pairwise_map.mp hmemoized.distinct).imp_of_mem fun ha hb hne => ?_
    rw [← Bool.not_eq_true, Session.sameArguments_iff (hentries _ ha) (hentries _ hb)]
    exact hne

theorem Template.Builds.compiled (h : (s.template t).Builds) (hlt : t.index < s.templates.size)
    (e : EngineId) (depth : Nat) (program : Program) (upTo : Pass) :
    ((leaves ((e.runner depth).compile program upTo) s).template t).Builds := by
  have hmoves : Moves (Memoizes t) ((e.runner depth).compile program upTo) :=
    moves_compile _ (moves_advanceWithin depth) _ _
  exact h.of_body ((hmoves s).body hlt).2

def templateStart (body : List Statement) : Session :=
  leaves (buildProgram [.template "Size" ["N"] body "Size"])
    (leaves (startEngine defaultSections) {})

theorem reached_templateStart (body : List Statement) : Reached [⟨0⟩] (templateStart body) :=
  .build _ (.start (.new {}) (rfl : startEngine defaultSections {} = _))

def useSize (argument : String) : Call :=
  .mk "" (.symbol (.find [.mk "Size" [.text argument]] none)) false

def sizeSession : Session :=
  leaves ((EngineId.runner ⟨0⟩ 1).compile
    [.template ⟨0⟩, .perform (some .generate) [useSize "8", useSize "4", useSize "8"]] .generate)
    (templateStart [.constant "Size" "1"])

theorem instances_memoized_size :
    Reached [⟨0⟩] sizeSession ∧ (sizeSession.template ⟨0⟩).Builds ∧
      sizeSession.UsedPlainly ⟨0⟩ ∧
      sizeSession.uses ⟨0⟩ = [([.constant "8" none], ⟨0⟩), ([.constant "4" none], ⟨1⟩),
        ([.constant "8" none], ⟨0⟩)] ∧
      (sizeSession.template ⟨0⟩).memo.instances = [⟨0⟩, ⟨1⟩] ∧
      sizeSession.builds ⟨0⟩ = [[.constant "8" none], [.constant "4" none]] := by
  have hreached : Reached [⟨0⟩] sizeSession :=
    .compile 1 _ .generate (reached_templateStart _) List.mem_cons_self
  have hbuilds : (sizeSession.template ⟨0⟩).Builds :=
    Template.Builds.compiled (fun s => ⟨_, s, rfl⟩) (by decide +kernel) ⟨0⟩ 1 _ .generate
  have huses : sizeSession.uses ⟨0⟩ = [([.constant "8" none], ⟨0⟩), ([.constant "4" none], ⟨1⟩),
      ([.constant "8" none], ⟨0⟩)] := by decide +kernel
  have hplain : sizeSession.UsedPlainly ⟨0⟩ := by
    rw [Session.UsedPlainly, huses]
    unfold AliasFree
    decide
  obtain ⟨-, hinstances, -, hbuilt, -⟩ := instances_memoized hreached hbuilds hplain
  refine ⟨hreached, hbuilds, hplain, huses, ?_, ?_⟩
  · rw [hinstances, huses]
    decide
  · rw [hbuilt]
    decide +kernel

/-- The template fails in its second pass. -/
def failingStart : Session :=
  templateStart [.perform (some .resolve)
    [.mk "" (.symbol (.find [.mk "missing" []] none)) false]]

def failingProgram : Program := [.template ⟨0⟩, .perform (some .resolve) [useSize "1"]]

/-- The program was compiled twice. -/
def retriedSession : Session :=
  leaves ((EngineId.runner ⟨0⟩ 1).compile failingProgram .resolve)
    (leaves ((EngineId.runner ⟨0⟩ 1).compile failingProgram .resolve) failingStart)

theorem failed_pass_runs_again :
    Reached [⟨0⟩] retriedSession ∧ (retriedSession.template ⟨0⟩).Builds ∧
      (retriedSession.template ⟨0⟩).parameters = ["N"] ∧
      retriedSession.uses ⟨0⟩ = [([.constant "1" none], ⟨0⟩)] ∧
      (retriedSession.runsOf (retriedSession.instanceAt ⟨0⟩).engine).map PassRun.pass =
        [.declare, .resolve, .resolve] := by
  have hstart : Reached [⟨0⟩] failingStart := reached_templateStart _
  have hreached : Reached [⟨0⟩] retriedSession :=
    .compile 1 failingProgram .resolve (.compile 1 failingProgram .resolve hstart
      List.mem_cons_self) List.mem_cons_self
  have hbuilds : (failingStart.template ⟨0⟩).Builds := fun s => ⟨_, s, rfl⟩
  refine ⟨hreached, ?_, by decide +kernel, by decide +kernel, by decide +kernel⟩
  exact (hbuilds.compiled (by decide +kernel) ⟨0⟩ 1 failingProgram .resolve).compiled
    (by decide +kernel) ⟨0⟩ 1 failingProgram .resolve

end StagedAsm
