import Mathlib.Algebra.Order.Group.Int
import Mathlib.Algebra.Order.Group.Nat
import Mathlib.Data.List.Forall2
import StagedAsm.Proofs.BlockReplay
import StagedAsm.Proofs.FrameRuns
import StagedAsm.Proofs.SectionOutput
import StagedAsm.Proofs.StackLines

/-!
# What engines emit

A line that is emitted becomes an entry of a section: a text if it has one now, a line that waits if
it addresses the frame. Once frame sizes are announced, the texts of the entries are written behind
everything that was there.
-/

namespace StagedAsm

open Entry List Session

/-! ## Texts of lines -/

theorem Session.denoted_congr {s s' : Session} (h : s'.placeholders = s.placeholders)
    (symbol : Symbol) : s'.denoted symbol = s.denoted symbol := by
  have hfollow : ∀ fuel symbol, s'.follow fuel symbol = s.follow fuel symbol := by
    intro fuel
    induction fuel with
    | zero => exact fun _ => rfl
    | succ fuel ih =>
      intro symbol
      cases symbol with
      | placeholder id =>
        have hid : s'.placeholder id = s.placeholder id := by
          simp only [placeholder, h]
        simp only [follow, hid, ih]
      | _ => rfl
  rw [denoted, denoted, h, hfollow]

/-- The sessions are alike in everything that the texts of lines depend on. -/
structure RendersAs (s s' : Session) : Prop where
  aliases : s'.aliases = s.aliases
  placeholders : s'.placeholders = s.placeholders
  templates : s'.templates = s.templates
  cells : s'.cells = s.cells
  sizes : ∀ f, (s'.tree.frame f).size = (s.tree.frame f).size

namespace RendersAs

variable {s s' : Session}

instance : IsPreorder Session RendersAs where
  refl _ := ⟨rfl, rfl, rfl, rfl, fun _ => rfl⟩
  trans _ _ _ h h' :=
    { aliases := h'.aliases.trans h.aliases
      placeholders := h'.placeholders.trans h.placeholders
      templates := h'.templates.trans h.templates
      cells := h'.cells.trans h.cells
      sizes := fun f => (h'.sizes f).trans (h.sizes f) }

theorem denoted (h : RendersAs s s') (symbol : Symbol) : s'.denoted symbol = s.denoted symbol :=
  denoted_congr h.placeholders symbol

theorem render (h : RendersAs s s') (symbol : Symbol) : s'.render symbol = s.render symbol := by
  have hsize : ∀ f, (s'.tree.frame f).finalSize = (s.tree.frame f).finalSize := by
    intro f
    simp only [Frame.finalSize, h.sizes]
  rw [Session.render, Session.render, h.denoted]
  cases s.denoted symbol with
  | slot f offset type => simp only [Session.slotAddress, hsize]
  | deferred id text => cases text with
    | frameAdjustment f instruction inPrologue => simp only [Session.deferredText, hsize]
    | cell name => simp only [Session.deferredText, h.cells]
    | _ => rfl
  | registerAlias id => simp only [Session.aliasRegister, h.aliases]
  | placeholder id => simp only [Session.placeholder, h.placeholders]
  | template id => simp only [Session.template, h.templates]
  | _ => rfl

theorem renderLine (h : RendersAs s s') (line : Line) : s'.renderLine line = s.renderLine line := by
  have hall : s'.renderAll line = s.renderAll line := by
    induction line with
    | nil => rfl
    | cons symbol rest ih => simp only [Session.renderAll, h.render, ih]
  rw [Session.renderLine, Session.renderLine, hall]

theorem pinAliases (h : RendersAs s s') (line : Line) : s'.pinAliases line = s.pinAliases line := by
  simp only [Session.pinAliases, Session.aliasRegister, h.aliases]

end RendersAs

variable (s : Session) (text : String)

theorem Session.render_ofText : s.render (.ofText text) = .ok (some text) := by
  have hdenoted : s.denoted (.constant text none) = .constant text none := by
    unfold denoted
    cases s.placeholders.size <;> rfl
  rw [Symbol.ofText, render, hdenoted]

theorem joinTokens_cons (first : String) (rest : List String) :
    joinTokens (first :: rest) = first ++ joinTokensAfter (some (.ofToken first)) rest := by
  have hgap : gapBefore none first = false := by
    unfold gapBefore
    cases TokenKind.ofToken first <;> rfl
  simp [joinTokens, joinTokensAfter, hgap]

theorem Session.renderLine_ofText : s.renderLine (Line.ofText text) = .ok (some text) := by
  simp only [Line.ofText, renderLine, renderAll, s.render_ofText, Except.map,
    Option.map_some, joinTokens_cons, joinTokensAfter, String.append_empty]

theorem joinTokensAfter_append (last : Option TokenKind) (first second : List String) :
    ∃ tail, joinTokensAfter last (first ++ second) = joinTokensAfter last first ++ tail ∧
      (second = [] → tail = "") := by
  induction first generalizing last with
  | nil =>
    refine ⟨joinTokensAfter last second, (String.empty_append).symm, ?_⟩
    rintro rfl
    rfl
  | cons token rest ih =>
    obtain ⟨tail, hjoin, hempty⟩ := ih (some (.ofToken token))
    refine ⟨tail, ?_, hempty⟩
    rw [cons_append, joinTokensAfter, joinTokensAfter, hjoin, String.append_assoc,
      String.append_assoc, String.append_assoc]

theorem Session.renderLine_append {s : Session} {tokens : List String} {rest : Line}
    {text : String} (h : s.renderLine (tokens.map .ofText ++ rest) = .ok (some text)) :
    ∃ tail, text = joinTokens tokens ++ tail ∧ (rest = [] → tail = "") := by
  have hall : ∀ {tokens texts}, s.renderAll (tokens.map .ofText ++ rest) = .ok (some texts) →
      ∃ more, texts = tokens ++ more ∧ s.renderAll rest = .ok (some more) := by
    intro tokens
    induction tokens with
    | nil => exact fun h => ⟨_, rfl, h⟩
    | cons token tokens ih =>
      intro texts h
      rw [map_cons, cons_append, renderAll, s.render_ofText] at h
      dsimp only at h
      split at h
      · rename_i others hothers
        cases h
        obtain ⟨more, rfl, hmore⟩ := ih hothers
        exact ⟨more, rfl, hmore⟩
      · rename_i hother
        exact absurd h (hother texts)
  rw [renderLine] at h
  cases hrender : s.renderAll (tokens.map .ofText ++ rest) with
  | error fault =>
    rw [hrender] at h
    cases h
  | ok texts =>
    rw [hrender] at h
    cases texts with
    | none => cases h
    | some texts =>
      cases h
      obtain ⟨more, rfl, hmore⟩ := hall hrender
      obtain ⟨tail, hjoin, hempty⟩ := joinTokensAfter_append none tokens more
      refine ⟨tail, hjoin, fun hrest => hempty ?_⟩
      rw [hrest] at hmore
      cases hmore
      rfl

/-! ## Entries -/

/-- The entry that a line becomes when it is emitted. -/
def Session.entry (s : Session) (line : Line) : Except Fault Entry :=
  let line := s.pinAliases line
  if line.addressesFrame then .ok (.waiting line) else (s.renderLine line).map .known

theorem Session.entry_eq_ok {s : Session} {line : Line} {entry : Entry}
    (h : s.entry line = .ok entry) : entry = .waiting (s.pinAliases line) ∨
      ∃ text, s.renderLine (s.pinAliases line) = .ok text ∧ entry = .known text := by
  simp only [Session.entry] at h
  split at h
  · cases h
    exact .inl rfl
  · cases hrender : s.renderLine (s.pinAliases line) with
    | error fault =>
      rw [hrender] at h
      cases h
    | ok text =>
      rw [hrender] at h
      cases h
      exact .inr ⟨text, rfl, rfl⟩

theorem RendersAs.entry {s s' : Session} (h : RendersAs s s') (line : Line) :
    s'.entry line = s.entry line := by
  simp only [Session.entry, h.pinAliases, h.renderLine]

theorem Session.entry_ofText : s.entry (Line.ofText text) = .ok (.known (some text)) := by
  have hpin : s.pinAliases (Line.ofText text) = Line.ofText text := rfl
  have hslot : (Line.ofText text).addressesFrame = false := rfl
  simp only [entry, hpin, hslot, s.renderLine_ofText]
  rfl

theorem Session.entry_label (label : String) (parameters : Option (List Parameter)) :
    s.entry [.function label parameters, .ofText ":"] = .ok (.known (some (label ++ ":"))) := by
  have hdenoted : s.denoted (.function label parameters) = .function label parameters := by
    unfold denoted
    cases s.placeholders.size <;> rfl
  have hrender : s.render (.function label parameters) = .ok (some label) := by
    rw [render, hdenoted]
  have hpin : s.pinAliases [.function label parameters, .ofText ":"] =
      [.function label parameters, .ofText ":"] := rfl
  have hslot : Line.addressesFrame [.function label parameters, .ofText ":"] = false := rfl
  have hjoin : joinTokens [label, ":"] = label ++ ":" := by
    rw [joinTokens_cons]
    rfl
  simp only [entry, hpin, hslot, renderLine, renderAll, hrender,
    s.render_ofText, Except.map, Option.map_some, hjoin]
  rfl

/-- The entries that lines become. -/
def Session.Becomes (s : Session) : List Line → List Entry → Prop :=
  List.Forall₂ fun line entry => s.entry line = .ok entry

theorem RendersAs.becomes {s s' : Session} (h : RendersAs s s') {lines : List Line}
    {entries : List Entry} (hb : s'.Becomes lines entries) : s.Becomes lines entries :=
  hb.imp fun line _ hentry => (h.entry line).symm.trans hentry

/-- The texts of entries, once frame sizes are announced. -/
def Entry.texts (render : Line → Except Fault (Option String)) (entries : List Entry) :
    List String := (entries.map (announce render)).filterMap text?

namespace Entry

variable (render : Line → Except Fault (Option String))

theorem texts_append (first second : List Entry) :
    texts render (first ++ second) = texts render first ++ texts render second := by
  simp only [texts, map_append, filterMap_append]

theorem texts_singleton (entry : Entry) :
    texts render [entry] = (entry.announce render).text?.toList := by
  simp only [texts, map_cons, map_nil, filterMap_cons, filterMap_nil]
  cases (entry.announce render).text? <;> rfl

theorem texts_known (lines : List String) :
    texts render (lines.map fun line => .known (some line)) = lines := by
  simp [texts, filterMap_map, Function.comp_def, text?, announce]

end Entry

def Line.Transfers (line : Line) (spared : Prop := True) : Prop :=
  ∃ (tokens : List String) (rest : Line), line = tokens.map Symbol.ofText ++ rest ∧
    ∀ tail, (rest = [] → tail = "") → IsTransfer (joinTokens tokens ++ tail) spared

def Entry.Transfers (spared : Prop) : Entry → Prop
  | known text => ∀ line, text = some line → IsTransfer line spared
  | waiting line => line.Transfers spared

variable {spared : Prop}

theorem Line.Transfers.imp {line : Line} {spared' : Prop} (h : line.Transfers spared)
    (himp : spared' → spared) : line.Transfers spared' := by
  obtain ⟨tokens, rest, hline, htokens⟩ := h
  refine ⟨tokens, rest, hline, fun tail hempty => ?_⟩
  obtain ⟨hmnemonic, hspares⟩ := htokens tail hempty
  exact ⟨hmnemonic, fun hspared => hspares (himp hspared)⟩

theorem Line.Transfers.of_renderLine {s : Session} {line : Line} {text : String}
    (h : line.Transfers spared) (htext : s.renderLine line = .ok (some text)) :
    IsTransfer text spared := by
  obtain ⟨tokens, rest, rfl, htokens⟩ := h
  obtain ⟨tail, rfl, hempty⟩ := renderLine_append htext
  exact htokens tail hempty

theorem Line.Transfers.entry {s : Session} {line : Line} (h : line.Transfers spared)
    {entry : Entry} (hentry : s.entry line = .ok entry) : entry.Transfers spared := by
  have hpinned : (s.pinAliases line).Transfers spared := by
    obtain ⟨tokens, rest, rfl, htokens⟩ := h
    refine ⟨tokens, s.pinAliases rest, ?_, fun tail hempty => htokens tail fun hrest => ?_⟩
    · simp [pinAliases, Symbol.ofText]
    · exact hempty (by rw [hrest]; rfl)
  rcases entry_eq_ok hentry with rfl | ⟨_, hrender, rfl⟩
  · exact hpinned
  · rintro text rfl
    exact hpinned.of_renderLine hrender

theorem Session.Becomes.transfers {s : Session} {lines : List Line} {entries : List Entry}
    (h : s.Becomes lines entries) (hlines : ∀ line ∈ lines, line.Transfers spared) :
    ∀ entry ∈ entries, entry.Transfers spared := by
  induction h with
  | nil => simp
  | cons hentry _ ih =>
    intro entry hmem
    rcases mem_cons.mp hmem with rfl | hmem
    · exact (hlines _ mem_cons_self).entry hentry
    · exact ih (fun line hline => hlines line (mem_cons_of_mem _ hline)) entry hmem

theorem Entry.Transfers.announce {entry : Entry} (h : entry.Transfers spared) {s : Session}
    {text : String} (htext : (entry.announce s.renderLine).text? = some text) :
    IsTransfer text spared := by
  cases entry with
  | known known => exact h text htext
  | waiting line =>
    refine Line.Transfers.of_renderLine h (s := s) ?_
    simp only [Entry.announce, Entry.text?] at htext
    cases hline : s.renderLine line with
    | error fault =>
      rw [hline] at htext
      cases htext
    | ok found =>
      rw [hline] at htext
      exact congrArg Except.ok htext

/-! ## Sections -/

namespace Section

/-- Puts an entry into a section. -/
def feed (x : Section) : Entry → Section
  | .known (some text) => x.accept text
  | .known none => x
  | .waiting line => x.defer line

def announced (render : Line → Except Fault (Option String)) (x : Section) : String :=
  x.buffer ++ linesText (texts render (x.backlog.flatMap WaitingLine.entries))

variable (render : Line → Except Fault (Option String)) (x : Section)

theorem announced_feed (entry : Entry) : (x.feed entry).announced render =
      x.announced render ++ linesText (texts render [entry]) := by
  cases entry with
  | waiting line => simp only [feed, announced, defer, flatMap_append, flatMap_cons, flatMap_nil,
      WaitingLine.entries, map_nil, append_nil, texts_append, linesText_append,
      String.append_assoc]
  | known text =>
    cases text with
    | none => simp [feed, texts_singleton, text?, announce, linesText]
    | some text =>
      by_cases hbacklog : x.backlog = []
      · simp [feed, accept, announced, hbacklog, linesText, texts, text?, announce,
          String.append_assoc]
      · simp [feed, accept, announced, flatMap_entries_appendToLast text hbacklog,
          texts_append, linesText_append, String.append_assoc]

theorem announced_foldl_feed (entries : List Entry) : (entries.foldl feed x).announced render =
      x.announced render ++ linesText (texts render entries) := by
  induction entries generalizing x with
  | nil => simp [linesText, texts]
  | cons entry rest ih =>
    have htexts : texts render (entry :: rest) = texts render [entry] ++
        texts render rest := texts_append render [entry] rest
    rw [foldl_cons, ih, announced_feed, htexts, linesText_append, String.append_assoc]

theorem fire_feed {render : Line → Except Fault (Option String)} {x : Section}
    {entries : List Entry} (h : ((entries.foldl feed x).fire render).2 = .ok ()) :
    ((entries.foldl feed x).fire render).1.buffer =
      x.announced render ++ linesText (texts render entries) := by
  have hannounced := announced_writeOut render (entries.foldl feed x).buffer
    (entries.foldl feed x).backlog
  have hok : (writeOut render _ (entries.foldl feed x).backlog).2 = .ok () := h
  rw [hok] at hannounced
  rw [← announced_foldl_feed]
  refine (writeOut_fst render _ _).trans ?_
  rw [hannounced]
  rfl

end Section

/-! ## Emitting -/

def Feeds (e : EngineId) (entries : List Entry) (s s' : Session) : Prop :=
  (s'.engine e).sections = Section.modifyFirst programSection
    (fun x => entries.foldl Section.feed x) (s.engine e).sections

namespace Feeds

variable {e : EngineId} {s s' s'' : Session} {entries more : List Entry}

theorem nothing (h : (s'.engine e).sections = (s.engine e).sections) : Feeds e [] s s' :=
  h.trans (Section.modifyFirst_self _ _).symm

theorem trans (h : Feeds e entries s s') (h' : Feeds e more s' s'') :
    Feeds e (entries ++ more) s s'' := by
  unfold Feeds at h h' ⊢
  rw [h', h, Section.modifyFirst_modifyFirst]
  simp only [foldl_append]

end Feeds

/-- Entries were put into the program section, and all lines have the same texts as before. -/
structure Emits (e : EngineId) (entries : List Entry) (s s' : Session) : Prop where
  renders : RendersAs s s'
  feeds : Feeds e entries s s'

namespace Emits

variable {e : EngineId} {s s' s'' : Session} {entries more : List Entry}

theorem nothing (hrenders : RendersAs s s')
    (hsections : (s'.engine e).sections = (s.engine e).sections) : Emits e [] s s' :=
  ⟨hrenders, .nothing hsections⟩

theorem refl (s : Session) : Emits e [] s s := nothing (refl_of RendersAs s) rfl

theorem trans (h : Emits e entries s s') (h' : Emits e more s' s'') :
    Emits e (entries ++ more) s s'' :=
  ⟨trans_of RendersAs h.renders h'.renders, h.feeds.trans h'.feeds⟩

end Emits

structure FeedsInto (e : EngineId) (name : String) (entry : Entry) (s s' : Session) : Prop where
  renders : RendersAs s s'
  sections : (s'.engine e).sections =
    Section.modifyFirst name (·.feed entry) (s.engine e).sections

theorem FeedsInto.emits {e : EngineId} {entry : Entry} {s s' : Session}
    (h : FeedsInto e programSection entry s s') : Emits e [entry] s s' := ⟨h.renders, h.sections⟩

/-- An engine has put lines into its program section. -/
def Writes (e : EngineId) (lines : List Line) (s s' : Session) : Prop :=
  ∃ entries, s.Becomes lines entries ∧ Emits e entries s s'

namespace Writes

variable {e : EngineId} {s s' s'' : Session} {lines more : List Line}

theorem nothing (h : Emits e [] s s') : Writes e [] s s' := ⟨[], .nil, h⟩

theorem single {line : Line} {entry : Entry} (hentry : s.entry line = .ok entry)
    (h : Emits e [entry] s s') : Writes e [line] s s' := ⟨[entry], .cons hentry .nil, h⟩

theorem trans (h : Writes e lines s s') (h' : Writes e more s' s'') :
    Writes e (lines ++ more) s s'' := by
  obtain ⟨entries, hbecomes, hemits⟩ := h
  obtain ⟨entries', hbecomes', hemits'⟩ := h'
  exact ⟨entries ++ entries', rel_append hbecomes (hemits.renders.becomes hbecomes'),
    hemits.trans hemits'⟩

end Writes

namespace EngineId

variable {e : EngineId} {s s' : Session}

variable {name : String} {u : PUnit} {line : Line}

theorem feedsInto_modifySection (entry : Entry) (hsection : e.requireSection name s = .ok u s) :
    FeedsInto e name entry s (leaves (e.modifySection name (·.feed entry)) s) := by
  have hlt : e.index < s.engines.size := by
    apply Decidable.byContradiction
    intro hge
    unfold requireSection at hsection
    rw [state_bind, engine_of_size_le (Nat.le_of_not_lt hge)] at hsection
    cases hsection
  refine ⟨⟨rfl, rfl, rfl, rfl, fun _ => rfl⟩, ?_⟩
  show (engine { s with engines := s.engines.modify e.index fun engine =>
    { engine with sections := Section.modifyFirst name (·.feed entry) engine.sections } }
    e).sections = _
  rw [engine_modify, if_pos ⟨rfl, hlt⟩]

theorem requireSection_eq_ok (h : e.requireSection name s = .ok u s') :
    s' = s := ((e.moves_requireSection (R := Eq) name).of_ok h).symm

theorem any_of_requireSection {α : Type} {f : Unit → CompileM α} {a : α}
    (h : (e.requireSection name >>= f) s = .ok a s') :
    ((s.engine e).sections.any fun entry => entry.1 == name) = true := by
  obtain ⟨_, s1, hrequire, -⟩ := bind_eq_ok.mp h
  unfold requireSection at hrequire
  rw [state_bind] at hrequire
  cases hany : (s.engine e).sections.any fun entry => entry.1 == name with
  | true => rfl
  | false =>
    rw [hany] at hrequire
    cases hrequire

theorem emit_feedsInto (h : e.emit line name s = .ok () s') :
    ∃ entry, s.entry line = .ok entry ∧ FeedsInto e name entry s s' := by
  unfold emit at h
  obtain ⟨_, s1, hrequire, h1⟩ := bind_eq_ok.mp h
  obtain rfl := requireSection_eq_ok hrequire
  rw [get_bind_eq_ok] at h1
  split at h1
  · rename_i hslot
    refine ⟨.waiting (s1.pinAliases line), if_pos hslot, ?_⟩
    rw [← leaves_of_ok h1]
    exact feedsInto_modifySection (.waiting _) hrequire
  · rename_i hslot
    obtain ⟨text, s2, hrender, h2⟩ := bind_eq_ok.mp h1
    obtain ⟨htext, rfl⟩ := ofFault_eq_ok.mp hrender
    have hentry : s2.entry line = .ok (.known text) := by
      simp only [entry, hslot, htext]
      rfl
    refine ⟨.known text, hentry, ?_⟩
    cases text with
    | none =>
      obtain ⟨-, rfl⟩ := pure_eq_ok.mp h2
      exact ⟨refl_of RendersAs _, (Section.modifyFirst_self _ _).symm⟩
    | some text =>
      rw [← leaves_of_ok h2]
      exact feedsInto_modifySection (.known (some text)) hrequire

theorem emitDeferred_feedsInto (h : e.emitDeferred line name s = .ok () s') :
    FeedsInto e name (.waiting line) s s' := by
  obtain ⟨_, s1, hrequire, h1⟩ := bind_eq_ok.mp h
  obtain rfl := requireSection_eq_ok hrequire
  rw [← leaves_of_ok h1]
  exact feedsInto_modifySection (.waiting line) hrequire

theorem emit_writes (h : e.emit line programSection s = .ok () s') : Writes e [line] s s' := by
  obtain ⟨entry, hentry, hfeeds⟩ := emit_feedsInto h
  exact .single hentry hfeeds.emits

theorem emits_of_entry {entry : Entry} (h : e.emit line programSection s = .ok () s')
    (hentry : s.entry line = .ok entry) : Emits e [entry] s s' := by
  obtain ⟨entry', hentry', hfeeds⟩ := emit_feedsInto h
  cases hentry.symm.trans hentry'
  exact hfeeds.emits

theorem emitText_writes {text : String} (h : e.emitText text programSection s = .ok () s') :
    Emits e [.known (some text)] s s' := emits_of_entry h (s.entry_ofText text)

theorem emitDeferred_writes (h : e.emitDeferred line programSection s = .ok () s') :
    Emits e [.waiting line] s s' := (emitDeferred_feedsInto h).emits

theorem movePointer_writes {delta : Int} (h : e.movePointer delta s = .ok () s') :
    Emits e [] s s' := by
  obtain ⟨f, frame, -, -, -, hmove, rfl⟩ := movePointer_eq_ok.mp h
  obtain ⟨hold, hnew, -⟩ := Frame.setPointer_eq_ok (Frame.move_eq_ok hmove)
  refine .nothing ⟨rfl, rfl, rfl, rfl, fun g => ?_⟩ rfl
  show ((s.tree.setFrame f frame).frame g).size = (s.tree.frame g).size
  rw [ScopeTree.frame_setFrame]
  split
  · rename_i heq
    rw [heq.1, hold, hnew]
  · rfl

end EngineId

end StagedAsm
