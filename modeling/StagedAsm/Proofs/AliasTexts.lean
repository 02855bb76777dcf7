import StagedAsm.Proofs.RegisterFile
import StagedAsm.Proofs.WaitingLines

/-!
# Aliases in lines that wait

Emitting a line replaces its aliases by the registers they name at that moment; deferring it does
not. A line that waits is written as it renders when frame sizes are announced, so the assignments
made until then show in its text exactly if one of its symbols denotes an alias at that time.
-/

namespace StagedAsm

/-! ## Texts without aliases -/

/-- Alike in everything that texts depend on, except for the registers that aliases name. -/
structure AlikeButAliases (s s' : Session) : Prop where
  placeholders : s'.placeholders = s.placeholders
  templates : s'.templates = s.templates
  cells : s'.cells = s.cells
  sizes : ∀ f, (s'.tree.frame f).size = (s.tree.frame f).size

namespace Session

variable {s s' : Session} {line : Line} {symbol : Symbol} {id : AliasId}

/-- A symbol of the line denotes the alias. -/
def readsAlias (s : Session) (line : Line) (id : AliasId) : Prop :=
  ∃ symbol ∈ line, s.denoted symbol = .registerAlias id

theorem denoted_withAliases (s : Session) (aliases : Array Register) (symbol : Symbol) :
    ({ s with aliases } : Session).denoted symbol = s.denoted symbol :=
  have hsame : ({ s with aliases } : Session).placeholders = s.placeholders := rfl
  denoted_congr hsame symbol

theorem render_withAliases (h : ∀ id, s.denoted symbol ≠ .registerAlias id)
    (aliases : Array Register) :
    ({ s with aliases } : Session).render symbol = s.render symbol := by
  rw [render, s.denoted_withAliases, render]
  cases hsymbol : s.denoted symbol with
  | registerAlias id => exact absurd hsymbol (h id)
  | deferred id text => cases text <;> rfl
  | _ => rfl

theorem renderLine_of_alike (h : AlikeButAliases s s') (hline : ∀ id, ¬ s.readsAlias line id) :
    s'.renderLine line = s.renderLine line := by
  have hsame : RendersAs s { s' with aliases := s.aliases } :=
    ⟨rfl, h.placeholders, h.templates, h.cells, h.sizes⟩
  have hall : ({ s' with aliases := s.aliases } : Session).renderAll line = s'.renderAll line := by
    induction line with
    | nil => rfl
    | cons symbol rest ih =>
      have hrest : ∀ id, ¬ s.readsAlias rest id := by
        rintro id ⟨other, hother, hid⟩
        exact hline id ⟨other, List.mem_cons_of_mem _ hother, hid⟩
      have hsymbol : ∀ id, s'.denoted symbol ≠ .registerAlias id := by
        intro id hid
        rw [denoted_congr h.placeholders] at hid
        exact hline id ⟨symbol, List.mem_cons_self, hid⟩
      simp only [renderAll, render_withAliases hsymbol, ih hrest]
  rw [← hsame.renderLine, renderLine, renderLine, hall]

end Session

/-! ## Texts with aliases -/

namespace Register

theorem ofToken_name (r : Register) : TokenKind.ofToken r.name = .word := by
  have words : ∀ r ∈ all, TokenKind.ofToken r.name = .word := by decide +kernel
  exact words r (mem_all r)

theorem exists_length_ne (r : Register) :
    ∃ other : Register, other.name.length ≠ r.name.length := by
  by_cases h : r.name.length = 2
  · exact ⟨.general .rax .qword, by rw [h]; decide⟩
  · exact ⟨.lowByte .a, fun heq => h (heq.symm.trans rfl)⟩

theorem gapBefore_name (r : Register) (last : Option TokenKind) :
    gapBefore last r.name = gapBefore last "rax" := by
  have hkind : TokenKind.ofToken "rax" = .word := rfl
  simp only [gapBefore, r.ofToken_name, hkind]
  cases last with
  | none => rfl
  | some kind => cases kind <;> rfl

end Register

/-- One register stands in some places for another. -/
def Renamed (r r' : Register) : List String → List String → Prop :=
  List.Forall₂ fun token token' => token' = token ∨ (token = r.name ∧ token' = r'.name)

variable {r r' : Register} {tokens tokens' : List String}

theorem Renamed.exists_length_eq (h : Renamed r r' tokens tokens') (last : Option TokenKind) :
    ∃ places, (tokens' ≠ tokens → 0 < places) ∧
      (joinTokensAfter last tokens').length + places * r.name.length =
        (joinTokensAfter last tokens).length + places * r'.name.length := by
  induction h generalizing last with
  | nil => exact ⟨0, fun h => absurd rfl h, by simp⟩
  | @cons token token' tokens tokens' htoken hrest ih =>
    rcases htoken with rfl | ⟨rfl, rfl⟩
    · obtain ⟨places, hpos, hlength⟩ := ih (some (.ofToken token'))
      refine ⟨places, fun hne => hpos fun heq => hne (by rw [heq]), ?_⟩
      simp only [joinTokensAfter, String.length_append]
      omega
    -- the gaps are those of any word
    · obtain ⟨places, -, hlength⟩ := ih (some .word)
      refine ⟨places + 1, fun _ => Nat.succ_pos places, ?_⟩
      simp only [joinTokensAfter, String.length_append, r.gapBefore_name, r'.gapBefore_name,
        r.ofToken_name, r'.ofToken_name, Nat.add_mul, Nat.one_mul]
      omega

theorem Renamed.joinTokens_ne (h : Renamed r r' tokens tokens') (hne : tokens' ≠ tokens)
    (hlength : r'.name.length ≠ r.name.length) : joinTokens tokens' ≠ joinTokens tokens := by
  obtain ⟨places, hpos, heq⟩ := h.exists_length_eq none
  intro hjoin
  have hjoined : (joinTokensAfter none tokens').length = (joinTokensAfter none tokens).length :=
    congrArg String.length hjoin
  have hplaces : places * r.name.length = places * r'.name.length := by omega
  exact hlength (Nat.eq_of_mul_eq_mul_left (hpos hne) hplaces.symm)

namespace Session

variable {s : Session} {line : Line} {id : AliasId}

/-- An alias was pointed at a register. -/
def assign (s : Session) (id : AliasId) (register : Register) : Session :=
  { s with aliases := s.aliases.setIfInBounds id.index register }

theorem alike_assign (s : Session) (id : AliasId) (register : Register) :
    AlikeButAliases s (s.assign id register) := ⟨rfl, rfl, rfl, fun _ => rfl⟩

theorem aliasRegister_assign (hid : id.index < s.aliases.size) (register : Register)
    (other : AliasId) :
    (s.assign id register).aliasRegister other =
      if other = id then register else s.aliasRegister other := by
  cases id
  cases other
  simp only [aliasRegister, assign, AliasId.mk.injEq, Array.getD_eq_getD_getElem?,
    Array.getElem?_setIfInBounds, eq_comm] at hid ⊢
  split
  · simp
  · rfl

theorem render_assign (hid : id.index < s.aliases.size) (register : Register) (symbol : Symbol) :
    (s.assign id register).render symbol = s.render symbol ∧ s.denoted symbol ≠ .registerAlias id ∨
      s.denoted symbol = .registerAlias id ∧
      s.render symbol = .ok (some (s.aliasRegister id).name) ∧
      (s.assign id register).render symbol = .ok (some register.name) := by
  have hdenoted : (s.assign id register).denoted symbol = s.denoted symbol :=
    s.denoted_withAliases _ symbol
  by_cases halias : ∃ other, s.denoted symbol = .registerAlias other
  · obtain ⟨other, hother⟩ := halias
    simp only [render, hdenoted, hother, aliasRegister_assign hid, ne_eq,
      Symbol.registerAlias.injEq]
    by_cases hsame : other = id
    · simp [hsame]
    · simp [hsame]
  · refine .inl ⟨render_withAliases (fun other hother => halias ⟨other, hother⟩) _, ?_⟩
    exact fun hother => halias ⟨id, hother⟩

/-- The tokens of a line after an assignment. -/
theorem exists_renderAll_assign (hid : id.index < s.aliases.size) (register : Register)
    {tokens : List String} (h : s.renderAll line = .ok (some tokens)) :
    ∃ tokens', (s.assign id register).renderAll line = .ok (some tokens') ∧
      Renamed (s.aliasRegister id) register tokens tokens' ∧
      (register.name ≠ (s.aliasRegister id).name → s.readsAlias line id → tokens' ≠ tokens) := by
  induction line generalizing tokens with
  | nil =>
    cases h
    exact ⟨[], rfl, .nil, fun _ hreads => by obtain ⟨_, hmem, -⟩ := hreads; simp at hmem⟩
  | cons symbol rest ih =>
    unfold renderAll at h
    split at h
    · rename_i text htext
      split at h
      · rename_i others hothers
        cases h
        obtain ⟨others', hothers', hrenamed, hne⟩ := ih hothers
        rcases render_assign hid register symbol with
          ⟨hsame, hnot⟩ | ⟨hdenoted, hbefore, hafter⟩
        · refine ⟨text :: others', ?_, .cons (.inl rfl) hrenamed, fun hname hreads heq => ?_⟩
          · simp only [renderAll, hsame, htext, hothers']
          · obtain ⟨other, hmem, hother⟩ := hreads
            rcases List.mem_cons.mp hmem with rfl | hmem
            · exact hnot hother
            · exact hne hname ⟨other, hmem, hother⟩ (List.cons.inj heq).2
        · have hfirst : text = (s.aliasRegister id).name := by
            rw [htext] at hbefore
            simpa using hbefore
          refine ⟨register.name :: others', ?_, .cons (.inr ⟨hfirst, rfl⟩) hrenamed, ?_⟩
          · simp only [renderAll, hafter, hothers']
          · intro hname _ heq
            exact hname ((List.cons.inj heq).1.trans hfirst)
      · rename_i hother
        exact absurd h (hother _)
    · cases h
    · cases h

theorem exists_renderLine_assign (hid : id.index < s.aliases.size) (hreads : s.readsAlias line id)
    {text : String} (h : s.renderLine line = .ok (some text)) :
    ∃ register text', (s.assign id register).renderLine line = .ok (some text') ∧ text' ≠ text := by
  obtain ⟨register, hlength⟩ := (s.aliasRegister id).exists_length_ne
  have hname : register.name ≠ (s.aliasRegister id).name := fun heq => hlength (by rw [heq])
  unfold renderLine at h
  cases hall : s.renderAll line with
  | error fault =>
    rw [hall] at h
    cases h
  | ok tokens =>
    rw [hall] at h
    cases tokens with
    | none => cases h
    | some tokens =>
      cases h
      obtain ⟨tokens', hall', hrenamed, hne⟩ := exists_renderAll_assign hid register hall
      refine ⟨register, joinTokens tokens', ?_, hrenamed.joinTokens_ne (hne hname hreads) hlength⟩
      rw [renderLine, hall']
      rfl

end Session

/-! ## Lines that are handed over -/

inductive HandOver where
  | emitted
  | deferred
  deriving DecidableEq

namespace HandOver

def run : HandOver → EngineId → Line → String → CompileM Unit
  | emitted => EngineId.emit
  | deferred => EngineId.emitDeferred

/-- What a section gets of a line. -/
def entry (s : Session) (line : Line) : HandOver → Except Fault Entry
  | emitted => s.entry line
  | deferred => .ok (.waiting line)

variable {hand : HandOver} {e : EngineId} {line : Line} {name : String} {s s' : Session}

theorem exists_entry (h : hand.run e line name s = .ok () s') :
    ∃ entry, hand.entry s line = .ok entry ∧ FeedsInto e name entry s s' := by
  cases hand with
  | emitted => exact EngineId.emit_feedsInto h
  | deferred => exact ⟨_, rfl, EngineId.emitDeferred_feedsInto h⟩

theorem any_of_run (h : hand.run e line name s = .ok () s') :
    (s.engine e).sections.any (fun entry => entry.1 == name) = true := by
  cases hand with
  | emitted => exact EngineId.any_of_requireSection h
  | deferred => exact EngineId.any_of_requireSection h

theorem registerAlias_notMem {kept : Line} (h : emitted.entry s line = .ok (.waiting kept))
    (id : AliasId) : Symbol.registerAlias id ∉ kept := by
  have hkept : s.pinAliases line = kept := by
    rcases Session.entry_eq_ok h with hkept | ⟨_, _, hknown⟩
    · cases hkept
      rfl
    · cases hknown
  rw [← hkept, Session.pinAliases, List.mem_map]
  rintro ⟨symbol, -, hsymbol⟩
  cases symbol <;> cases hsymbol

end HandOver

/-- A line that is handed over becomes an entry of its section, from what the session holds at that
    moment. A line that waits is written as it renders when frame sizes are announced. Assignments
    of aliases make no difference to its text if none of its symbols denotes an alias at that time;
    if one does, an assignment can change the text. A line that was emitted has no aliases of its
    own. -/
theorem aliases_read_when_written {hand : HandOver} {e : EngineId} {line : Line} {name : String}
    {s s₁ : Session} (h : hand.run e line name s = .ok () s₁) :
    ∃ (entry : Entry) (n : Nat) (x : Section), hand.entry s line = .ok entry ∧
      (s.engine e).sections[n]? = some (name, x) ∧
      (s₁.engine e).sections[n]? = some (name, x.feed entry) ∧
      ∀ kept, entry = .waiting kept → (∀ s₂, Later s₁ s₂ → s₂.waiting? e n x.pending = some kept ∨
          ∃ b b', Later s₁ b ∧ b.Announces b' e n x.pending kept ∧ Later b' s₂) ∧
        (∀ b b', AlikeButAliases b b' → (∀ id, ¬ b.readsAlias kept id) →
          b'.renderLine kept = b.renderLine kept) ∧
        (∀ b id text, Later s₁ b → b.readsAlias kept id → id.index < b.aliases.size →
          b.renderLine kept = .ok (some text) →
          ∃ register b' text', Runner.assignRegister (.registerAlias id) register b = .ok () b' ∧
            Later s₁ b' ∧ AlikeButAliases b b' ∧ b'.renderLine kept = .ok (some text') ∧
            text' ≠ text) ∧
        (hand = .emitted → ∀ id, Symbol.registerAlias id ∉ kept) := by
  obtain ⟨entry, hentry, hfeeds⟩ := HandOver.exists_entry h
  obtain ⟨n, x, hx, hfed⟩ :=
    Section.exists_getElem?_modifyFirst (·.feed entry) (HandOver.any_of_run h)
  rw [← hfeeds.sections] at hfed
  refine ⟨entry, n, x, hentry, hx, hfed, ?_⟩
  rintro kept rfl
  have hwaits : s₁.waiting? e n x.pending = some kept := by
    refine Session.waiting?_eq_some.mpr ⟨name, _, hfed, ?_⟩
    have hlength : x.waitingLines.length = x.pending := List.length_map _
    simp [Section.feed, Section.waitingLines_defer, ← hlength]
  refine ⟨fun s₂ hlater => hlater.waits_or_announced hwaits,
    fun b b' halike hreads => Session.renderLine_of_alike halike hreads, ?_, ?_⟩
  · intro b id text hlater hreads hid htext
    obtain ⟨register, text', htext', hne⟩ := Session.exists_renderLine_assign hid hreads htext
    have hassigned : Later b (b.assign id register) :=
      AdmitsCalm.calm (Calm.of_eq rfl rfl)
    exact ⟨register, _, text', rfl, trans_of Later hlater hassigned, b.alike_assign id register,
      htext', hne⟩
  · rintro rfl id
    exact HandOver.registerAlias_notMem hentry id

/-- A line is deferred while its alias names a register. It gets another text once the alias names a
    second one. -/
theorem aliases_read_when_written_deferred :
    ∃ s s₁ : Session,
      HandOver.deferred.run ⟨0⟩ [.ofText "push", .registerAlias ⟨0⟩] programSection s =
        .ok () s₁ ∧
      s₁.readsAlias [.ofText "push", .registerAlias ⟨0⟩] ⟨0⟩ ∧
      s₁.renderLine [.ofText "push", .registerAlias ⟨0⟩] = .ok (some "push rax") ∧
      ∃ register b' text', Runner.assignRegister (.registerAlias ⟨0⟩) register s₁ = .ok () b' ∧
        Later s₁ b' ∧ b'.renderLine [.ofText "push", .registerAlias ⟨0⟩] = .ok (some text') ∧
        text' ≠ "push rax" := by
  let s : Session :=
    { aliases := #[.general .rax .qword]
      engines :=
        #[{ sections := [(programSection, { sink := ⟨0⟩ })], scopes := [ScopeTree.root] }] }
  obtain ⟨s₁, h, hsize, hreads, htext⟩ : ∃ s₁,
      HandOver.deferred.run ⟨0⟩ [.ofText "push", .registerAlias ⟨0⟩] programSection s = .ok () s₁ ∧
      0 < s₁.aliases.size ∧ s₁.readsAlias [.ofText "push", .registerAlias ⟨0⟩] ⟨0⟩ ∧
      s₁.renderLine [.ofText "push", .registerAlias ⟨0⟩] = .ok (some "push rax") :=
    ⟨_, rfl, by decide, ⟨_, List.mem_cons_of_mem _ List.mem_cons_self, rfl⟩, rfl⟩
  obtain ⟨entry, n, x, hentry, -, -, hwaiting⟩ := aliases_read_when_written h
  cases hentry
  obtain ⟨-, -, hchanges, -⟩ := hwaiting _ rfl
  obtain ⟨register, b', text', hassign, hlater, -, htext', hne⟩ :=
    hchanges s₁ ⟨0⟩ "push rax" (refl_of Later s₁) hreads hsize htext
  exact ⟨s, s₁, h, hreads, htext, register, b', text', hassign, hlater, htext', hne⟩

end StagedAsm
