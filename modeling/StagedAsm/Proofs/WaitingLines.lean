import StagedAsm.Proofs.EmittedLines
import StagedAsm.Proofs.LaterSessions

/-!
# Lines that wait

A line that cannot be written yet keeps its place in the backlog of its section, whatever happens to
the session, until frame sizes are announced. Only then is its text made.
-/

namespace StagedAsm

open List Session

/-! ## Announcing frame sizes to one section -/

namespace Section

variable {render : Line → Except Fault (Option String)} {s : Section}

/-- The lines that wait, oldest first. -/
def waitingLines (s : Section) : List Line := s.backlog.map WaitingLine.line

theorem map_line_appendToLast (text : String) (backlog : List WaitingLine) :
    (appendToLast text backlog).map WaitingLine.line = backlog.map WaitingLine.line := by
  fun_induction appendToLast text backlog with
  | case1 => rfl
  | case2 last => rfl
  | case3 first second rest ih => simp only [map_cons, ih]

theorem waitingLines_accept (s : Section) (text : String) :
    (s.accept text).waitingLines = s.waitingLines := by
  unfold accept
  split
  · rename_i hnone
    simp [waitingLines, hnone]
  · exact map_line_appendToLast text s.backlog

theorem waitingLines_defer (s : Section) (line : Line) :
    (s.defer line).waitingLines = s.waitingLines ++ [line] := by
  simp [waitingLines, defer]

theorem waitingLines_of_close {text : String} {s' : Section} (h : s.close = .ok (text, s')) :
    s'.waitingLines = s.waitingLines := by
  unfold close at h
  split at h
  · cases h
    rfl
  · cases h

theorem writeOut_append (buffer : String) (first rest : List WaitingLine) :
    writeOut render buffer (first ++ rest) =
      match writeOut render buffer first with
      | (buffer, .ok ()) => writeOut render buffer rest
      | (buffer, .error fault) => (buffer, .error fault) := by
  induction first generalizing buffer with
  | nil => rfl
  | cons item first ih =>
    simp only [cons_append, writeOut]
    cases render item.line with
    | ok text => exact ih _
    | error fault => rfl

theorem exists_writeOut_eq (render : Line → Except Fault (Option String)) (buffer : String)
    (backlog : List WaitingLine) :
    ∃ more, (writeOut render buffer backlog).1 = buffer ++ more := by
  induction backlog generalizing buffer with
  | nil => exact ⟨"", by simp [writeOut]⟩
  | cons item rest ih =>
    simp only [writeOut]
    cases render item.line with
    | ok text =>
      obtain ⟨more, hmore⟩ := ih (buffer ++ linesText (text.toList ++ item.tail))
      exact ⟨_, hmore.trans (String.append_assoc ..)⟩
    | error fault => exact ⟨"", by simp⟩

def Writes (render : Line → Except Fault (Option String)) (s : Section) (place : Nat)
    (text : Option String) : Prop :=
  ∃ item before after, s.backlog[place]? = some item ∧ render item.line = .ok text ∧
    writeOut render s.buffer (s.backlog.take place) = (before, .ok ()) ∧
    (s.fire render).1.buffer = before ++ linesText (text.toList ++ item.tail) ++ after

def Loses (render : Line → Except Fault (Option String)) (s : Section) (place : Nat) : Prop :=
  ∃ line ∈ s.waitingLines.take (place + 1), ∃ fault, render line = .error fault

theorem writes_or_loses {place : Nat} {line : Line} (h : s.waitingLines[place]? = some line) :
    (∃ text, render line = .ok text ∧ s.Writes render place text) ∨ s.Loses render place := by
  have hplace : s.backlog[place]?.map WaitingLine.line = some line := by
    rw [← getElem?_map]
    exact h
  obtain ⟨item, hitem, rfl⟩ := Option.map_eq_some_iff.mp hplace
  obtain ⟨hlt, hget⟩ := List.getElem?_eq_some_iff.mp hitem
  have hsplit : s.backlog = s.backlog.take place ++ item :: s.backlog.drop (place + 1) := by
    rw [← hget, getElem_cons_drop, take_append_drop]
  have hlose : ∀ other ∈ s.backlog.take (place + 1), ∀ fault, render other.line = .error fault →
      s.Loses render place := by
    intro other hother fault hfails
    refine ⟨other.line, ?_, fault, hfails⟩
    rw [waitingLines, ← map_take]
    exact mem_map.mpr ⟨other, hother, rfl⟩
  have htake : s.backlog.take (place + 1) = s.backlog.take place ++ [item] := by
    rw [take_add_one, hitem]
    rfl
  cases hfirst : writeOut render s.buffer (s.backlog.take place) with
  | mk before outcome =>
    cases outcome with
    | error fault =>
      obtain ⟨other, hother, hfails⟩ := exists_render_of_writeOut (congrArg Prod.snd hfirst)
      exact .inr (hlose other (htake ▸ mem_append_left _ hother) fault hfails)
    | ok done =>
      cases hrender : render item.line with
      | error fault => exact .inr (hlose item (by simp [htake]) fault hrender)
      | ok text =>
        obtain ⟨after, hafter⟩ := exists_writeOut_eq render
          (before ++ linesText (text.toList ++ item.tail)) (s.backlog.drop (place + 1))
        refine .inl ⟨text, rfl, item, before, after, hitem, hrender, hfirst, ?_⟩
        rw [← hafter]
        show (writeOut render s.buffer s.backlog).1 = _
        conv_lhs => rw [hsplit]
        rw [writeOut_append, hfirst]
        simp only [writeOut, hrender]

end Section

/-! ## Changes of the sections of an engine -/

section Changes

variable {sections : List (String × Section)} {n : Nat} {name : String} {x : Section}

/-- Each section becomes one that `P` relates it to, in its place. -/
def Section.Become (P : Section → Section → Prop) :
    List (String × Section) → List (String × Section) → Prop :=
  List.Forall₂ fun a b => b.1 = a.1 ∧ P a.2 b.2

namespace Section.Become

variable {P : Section → Section → Prop}

theorem getElem? {sections' : List (String × Section)} (h : Become P sections sections')
    (hx : sections[n]? = some (name, x)) : ∃ x', sections'[n]? = some (name, x') ∧ P x x' := by
  induction h generalizing n with
  | nil => simp at hx
  | @cons _ b _ _ hfirst _ ih =>
    cases n with
    | zero =>
      cases hx
      exact ⟨b.2, congrArg some (Prod.ext hfirst.1 rfl), hfirst.2⟩
    | succ n => simpa using ih (by simpa using hx)

variable (hrefl : ∀ x, P x x)

include hrefl

theorem self (sections : List (String × Section)) : Become P sections sections :=
  forall₂_same.mpr fun entry _ => ⟨rfl, hrefl entry.2⟩

theorem modifyFirst (other : String) {f : Section → Section} (hf : ∀ x, P x (f x)) :
    Become P sections (modifyFirst other f sections) := by
  induction sections with
  | nil => exact .nil
  | cons entry rest ih =>
    simp only [Section.modifyFirst]
    split
    · exact .cons ⟨rfl, hf _⟩ (self hrefl rest)
    · exact .cons ⟨rfl, hrefl _⟩ ih

theorem fireAll {render : Line → Except Fault (Option String)}
    (hfire : ∀ x, P x (x.fire render).1) : Become P sections (fireAll render sections).1 := by
  induction sections with
  | nil => exact .nil
  | cons entry rest ih =>
    have hfirst := hfire entry.2
    simp only [Section.fireAll]
    split <;> rename_i hfired <;> rw [hfired] at hfirst
    · exact .cons ⟨rfl, hfirst⟩ ih
    -- the sections behind one that fails are not told
    · exact .cons ⟨rfl, hfirst⟩ (self hrefl rest)

theorem closeAll (hclose : ∀ {x text x'}, x.close = .ok (text, x') → P x x')
    (sinks : Array String) : Become P sections (closeAll sinks sections).1 := by
  induction sections generalizing sinks with
  | nil => exact .nil
  | cons entry rest ih =>
    simp only [Section.closeAll]
    split
    · rename_i hclosed
      exact .cons ⟨rfl, hclose hclosed⟩ (ih _)
    · exact self hrefl _

end Section.Become

theorem Section.exists_getElem?_modifyFirst (f : Section → Section)
    (h : sections.any (fun entry => entry.1 == name) = true) :
    ∃ (n : Nat) (x : Section), sections[n]? = some (name, x) ∧
      (modifyFirst name f sections)[n]? = some (name, f x) := by
  induction sections with
  | nil => simp at h
  | cons entry rest ih =>
    obtain ⟨first, y⟩ := entry
    by_cases hfirst : first = name
    · refine ⟨0, y, ?_, ?_⟩
      · simp [hfirst]
      · simp [modifyFirst, hfirst]
    · rw [any_cons, Bool.or_eq_true, beq_iff_eq] at h
      obtain ⟨n, x, hx, hfx⟩ := ih (h.resolve_left hfirst)
      exact ⟨n + 1, x, by simpa using hx, by simpa [modifyFirst, hfirst] using hfx⟩

theorem SectionChange.getElem?_apply (s : Session) (change : SectionChange)
    (h : sections[n]? = some (name, x)) :
    ∃ x', (change.apply s sections)[n]? = some (name, x') ∧
      (x.waitingLines <+: x'.waitingLines ∨ x' = (x.fire s.renderLine).1) := by
  refine Section.Become.getElem? (P := fun x x' => x.waitingLines <+: x'.waitingLines ∨
    x' = (x.fire s.renderLine).1) ?_ h
  have hrefl : ∀ x : Section, x.waitingLines <+: x.waitingLines ∨ x = (x.fire s.renderLine).1 :=
    fun _ => .inl prefix_rfl
  cases change with
  | accept other text =>
    exact .modifyFirst hrefl other fun x => .inl (x.waitingLines_accept text ▸ prefix_rfl)
  | defer other line =>
    exact .modifyFirst hrefl other fun x =>
      .inl (x.waitingLines_defer line ▸ prefix_append _ _)
  | announce => exact .fireAll hrefl fun _ => .inr rfl
  | close sinks =>
    exact .closeAll hrefl (fun hclose =>
      .inl (Section.waitingLines_of_close hclose ▸ prefix_rfl)) sinks

end Changes

/-! ## Sections over time -/

section Turns

variable {e : EngineId} {s s' : Session}

def SectionsChange (e : EngineId) (s s' : Session) : Prop :=
  (s'.engine e).sections = (s.engine e).sections ∨
    ∃ change : SectionChange, (s'.engine e).sections = change.apply s (s.engine e).sections

theorem SectionsChange.of_engines (h : s'.engines = s.engines) : SectionsChange e s s' :=
  .inl (by rw [engine, h, engine])

theorem SectionsChange.of_modify {other : EngineId} {f : Engine → Engine}
    (h : s'.engines = s.engines.modify other.index f)
    (hf : ∀ engine, (f engine).sections = engine.sections) : SectionsChange e s s' := by
  have hengine := s.engine_modify other e f
  rw [engine, ← h] at hengine
  refine .inl ?_
  rw [engine, hengine]
  split
  · rename_i hsame
    rw [hf, hsame.1]
  · rfl

theorem SectionsChange.of_push {new : Engine} (he : e.index < s.engines.size)
    (h : s'.engines = s.engines.push new) : SectionsChange e s s' := by
  refine .inl ?_
  rw [engine, h, getD_push, if_neg (ne_of_lt he), engine]

theorem Deed.sectionsChange {other : EngineId} (h : Deed other s s')
    (he : e.index < s.engines.size) : SectionsChange e s s' := by
  cases h with
  | plain h => exact .of_engines h.engines
  | own f hf => exact .of_modify rfl fun engine => (hf engine).2.2.2.2
  | write change f hf =>
    have hengine := s.engine_modify other e fun engine =>
      { engine with sections := f engine.sections }
    unfold SectionsChange
    rw [hengine]
    split
    · rename_i hsame
      exact .inr ⟨change, by rw [hsame.1]; exact hf⟩
    · exact .inl rfl
  | enter move id h =>
    exact .of_modify (f := fun engine => { engine with scopes := id :: engine.scopes }) rfl
      fun _ => rfl
  | @enterBlock block tree h =>
    exact .of_modify (f := fun engine => { engine with scopes := block :: engine.scopes }) rfl
      fun _ => rfl
  | leave hmove hopen h =>
    exact .of_modify (f := fun engine => { engine with scopes := engine.scopes.tail }) rfl
      fun _ => rfl
  | fork id hdeclared h => exact .of_push he h.calm.engines
  | make id made pass hlt hfresh hdeclared hengine hbusy h => exact .of_push he h.calm.engines
  | _ => exact .of_engines rfl

theorem Turn.sectionsChange (h : Turn s s') (he : e.index < s.engines.size) :
    SectionsChange e s s' := by
  cases h with
  | deed other h => exact h.sectionsChange he
  | pass other h =>
    cases h with
    | start pass => exact .of_engines rfl
    | own f hf => exact .of_modify rfl fun engine => (hf engine).2.2
    | openEpoch hnone =>
      exact .of_modify (f := fun engine => { engine with ownsEpoch := true }) rfl fun _ => rfl
    | finished pass => exact .of_engines rfl
  | running h => cases h <;> exact .of_engines rfl
  | rebind howner hname hsettled => exact .of_engines rfl
  | engine new hnew h => exact .of_push he h.engines

end Turns

namespace Session

variable {e : EngineId} {s s' : Session} {n place : Nat} {line : Line}

/-- The line that waits at a place in the backlog of a section. -/
def waiting? (s : Session) (e : EngineId) (n place : Nat) : Option Line :=
  (s.engine e).sections[n]?.bind fun entry => entry.2.waitingLines[place]?

theorem waiting?_eq_some : s.waiting? e n place = some line ↔
    ∃ name x, (s.engine e).sections[n]? = some (name, x) ∧ x.waitingLines[place]? = some line := by
  simp only [waiting?, Option.bind_eq_some_iff, Prod.exists]

theorem lt_of_waiting? (h : s.waiting? e n place = some line) : e.index < s.engines.size := by
  apply Decidable.byContradiction
  intro hge
  rw [waiting?, engine_of_size_le (Nat.le_of_not_lt hge)] at h
  cases h

def Announces (s s' : Session) (e : EngineId) (n place : Nat) (line : Line) : Prop :=
  ∃ name x, (s.engine e).sections[n]? = some (name, x) ∧ x.waitingLines[place]? = some line ∧
    (s'.engine e).sections[n]? = some (name, (x.fire s.renderLine).1) ∧
    ((∃ text, s.renderLine line = .ok text ∧ x.Writes s.renderLine place text) ∨
      x.Loses s.renderLine place)

end Session

section Waiting

variable {e : EngineId} {s s' : Session} {n place : Nat} {line : Line}

theorem Turn.waits_or_announces (h : Turn s s') (hwaits : s.waiting? e n place = some line) :
    s'.waiting? e n place = some line ∨ s.Announces s' e n place line := by
  obtain ⟨name, x, hx, hline⟩ := waiting?_eq_some.mp hwaits
  rcases h.sectionsChange (lt_of_waiting? hwaits) with hsame | ⟨change, hchange⟩
  · left
    rw [waiting?, hsame]
    exact hwaits
  · obtain ⟨x', hx', hcases⟩ := change.getElem?_apply s hx
    rw [← hchange] at hx'
    rcases hcases with ⟨more, hmore⟩ | rfl
    · left
      refine waiting?_eq_some.mpr ⟨name, x', hx', ?_⟩
      rw [← hmore, List.getElem?_append_left (List.getElem?_eq_some_iff.mp hline).1]
      exact hline
    · exact .inr ⟨name, x, hx, hline, hx', Section.writes_or_loses hline⟩

/-- A line waits until frame sizes are announced to its section. -/
theorem Later.waits_or_announced (h : Later s s') (hwaits : s.waiting? e n place = some line) :
    s'.waiting? e n place = some line ∨
      ∃ b b', Later s b ∧ b.Announces b' e n place line ∧ Later b' s' := by
  induction h with
  | refl => exact .inl hwaits
  | tail hbefore hturn ih =>
    rcases ih with hwaits | ⟨b, b', hb, hannounces, hlater⟩
    · rcases hturn.waits_or_announces hwaits with hwaits | hannounces
      · exact .inl hwaits
      · exact .inr ⟨_, _, hbefore, hannounces, .refl⟩
    · exact .inr ⟨b, b', hb, hannounces, hlater.tail hturn⟩

end Waiting

end StagedAsm
