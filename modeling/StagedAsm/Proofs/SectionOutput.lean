import StagedAsm.Proofs.Evaluation
import StagedAsm.Run.SectionScript

/-!
# What sections write

A section is an ordered list of the lines it accepted since it was last closed. Where a line is kept
meanwhile (in the buffer, in the backlog, or behind a line of the backlog) makes no difference to
what reaches the sink.
-/

namespace StagedAsm

open Section

/-! ## Sections as lists -/

/-- A line that a section accepted. -/
inductive Entry where
  | known (text : Option String)
  | waiting (line : Line)

namespace Entry

def text? : Entry → Option String
  | known text => text
  | waiting _ => none

def isWaiting : Entry → Bool
  | known _ => false
  | waiting _ => true

/-- A line that waits gets the text it renders to now. -/
def announce (render : Line → Except Fault (Option String)) : Entry → Entry
  | known text => known text
  | waiting line => known (render line).toOption.join

/-- A line that fails is gone, with all behind it. -/
def announceAll (render : Line → Except Fault (Option String)) : List Entry → List Entry
  | [] => []
  | known text :: rest => known text :: announceAll render rest
  | waiting line :: rest =>
    match render line with
    | .ok text => known text :: announceAll render rest
    | .error _ => []

/-- All lines are left, or those in front of the first one that fails. -/
def Announced (render : Line → Except Fault (Option String)) (entries left : List Entry) :
    Except Fault Unit → Prop
  | .ok () => left = entries.map (announce render)
  | .error fault => ∃ kept line lost, entries = kept ++ waiting line :: lost ∧
      render line = .error fault ∧
      (∀ other, waiting other ∈ kept → ∃ text, render other = .ok text) ∧
      left = kept.map (announce render)

theorem filterMap_text?_map_known (texts : List (Option String)) :
    (texts.map known).filterMap text? = texts.filterMap id := by
  rw [List.filterMap_map]
  rfl

section

variable {render : Line → Except Fault (Option String)} {entries left : List Entry}
  {outcome : Except Fault Unit}

theorem Announced.cons {entry : Entry}
    (hentry : ∀ line, entry = waiting line → ∃ text, render line = .ok text)
    (h : Announced render entries left outcome) :
    Announced render (entry :: entries) (entry.announce render :: left) outcome := by
  cases outcome with
  | ok => exact congrArg (_ :: ·) h
  | error fault =>
    obtain ⟨kept, line, lost, rfl, hline, hkept, rfl⟩ := h
    refine ⟨entry :: kept, line, lost, rfl, hline, fun other hother => ?_, rfl⟩
    rcases List.mem_cons.mp hother with heq | hmem
    · exact hentry other heq.symm
    · exact hkept other hmem

theorem Announced.known_append (h : Announced render entries left outcome)
    (texts : List (Option String)) :
    Announced render (texts.map known ++ entries) (texts.map known ++ left) outcome := by
  induction texts with
  | nil => exact h
  | cons text texts ih => exact ih.cons fun line hline => by cases hline

theorem announceAll_known_append (texts : List (Option String)) (rest : List Entry) :
    announceAll render (texts.map known ++ rest) = texts.map known ++ announceAll render rest := by
  induction texts with
  | nil => rfl
  | cons text texts ih => simp only [List.map_cons, List.cons_append, announceAll, ih]

theorem map_known_map_text? (entries : List Entry) :
    ((announceAll render entries).map text?).map known = announceAll render entries := by
  induction entries with
  | nil => rfl
  | cons entry rest ih =>
    cases entry with
    | known text => simp only [announceAll, List.map_cons, text?, ih]
    | waiting line =>
      unfold announceAll
      split
      · simp only [List.map_cons, text?, ih]
      · rfl

end

end Entry

def WaitingLine.entries (w : WaitingLine) : List Entry :=
  .waiting w.line :: w.tail.map fun text => .known (some text)

theorem WaitingLine.entries_eq (w : WaitingLine) :
    w.entries = .waiting w.line :: (w.tail.map some).map .known := by
  rw [List.map_map]
  rfl

namespace Section

def Represents (s : Section) (entries : List Entry) : Prop :=
  ∃ written : List (Option String), s.buffer = linesText (written.filterMap id) ∧
    entries = written.map .known ++ s.backlog.flatMap WaitingLine.entries

theorem linesText_append (first second : List String) :
    linesText (first ++ second) = linesText first ++ linesText second := by
  induction first with
  | nil => simp [linesText]
  | cons text rest ih => simp only [List.cons_append, linesText, ih, String.append_assoc]

theorem linesText_singleton (text : String) : linesText [text] = text ++ "\n" := by
  simp [linesText]

variable {backlog : List WaitingLine}

theorem flatMap_entries_appendToLast (text : String) (h : backlog ≠ []) :
    (appendToLast text backlog).flatMap WaitingLine.entries =
      backlog.flatMap WaitingLine.entries ++ [.known (some text)] := by
  induction backlog with
  | nil => exact absurd rfl h
  | cons first rest ih =>
    cases rest with
    | nil => simp [appendToLast, WaitingLine.entries]
    | cons second rest =>
      have hrest := ih (by simp)
      simp only [appendToLast, List.flatMap_cons, List.append_assoc] at hrest ⊢
      rw [hrest]

section

variable (render : Line → Except Fault (Option String)) (buffer : String)
  (backlog : List WaitingLine)

theorem writeOut_fst : (writeOut render buffer backlog).1 = buffer ++ linesText
    ((Entry.announceAll render (backlog.flatMap WaitingLine.entries)).filterMap Entry.text?) := by
  induction backlog generalizing buffer with
  | nil => simp [writeOut, Entry.announceAll, linesText]
  | cons item rest ih =>
    simp only [writeOut, List.flatMap_cons, WaitingLine.entries_eq, List.cons_append,
      Entry.announceAll]
    cases render item.line with
    | error fault => simp [linesText]
    | ok text =>
      have htexts : (((text :: item.tail.map some).map .known).filterMap Entry.text?) =
          text.toList ++ item.tail := by
        rw [Entry.filterMap_text?_map_known]
        cases text <;> simp
      simp only
      rw [ih, Entry.announceAll_known_append, ← List.cons_append, ← List.map_cons,
        List.filterMap_append, htexts, linesText_append _ (List.filterMap _ _),
        String.append_assoc]

theorem announced_writeOut : Entry.Announced render (backlog.flatMap WaitingLine.entries)
    (Entry.announceAll render (backlog.flatMap WaitingLine.entries))
    (writeOut render buffer backlog).2 := by
  induction backlog generalizing buffer with
  | nil => rfl
  | cons item rest ih =>
    simp only [writeOut, List.flatMap_cons, WaitingLine.entries_eq, List.cons_append,
      Entry.announceAll, Entry.announceAll_known_append]
    cases hrender : render item.line with
    | error fault => exact ⟨[], item.line, _, rfl, hrender, by simp, rfl⟩
    | ok text =>
      have hfirst : Entry.known text = (Entry.waiting item.line).announce render := by
        rw [Entry.announce, hrender]
        rfl
      simp only [hfirst]
      refine ((ih _).known_append _).cons fun line hline => ?_
      cases hline
      exact ⟨text, hrender⟩

end

theorem exists_render_of_writeOut {render : Line → Except Fault (Option String)} {fault : Fault}
    {buffer : String} (h : (writeOut render buffer backlog).2 = .error fault) :
    ∃ item ∈ backlog, render item.line = .error fault := by
  have hannounced := announced_writeOut render buffer backlog
  rw [h] at hannounced
  obtain ⟨kept, line, lost, hentries, hrender, -⟩ := hannounced
  have hmem : .waiting line ∈ backlog.flatMap WaitingLine.entries := by simp [hentries]
  obtain ⟨item, hitem, hline⟩ := List.mem_flatMap.mp hmem
  obtain rfl : line = item.line := by simpa [WaitingLine.entries] using hline
  exact ⟨item, hitem, hrender⟩

namespace Represents

variable {s : Section} {entries : List Entry}

theorem new (sink : SinkId) : Represents { sink } [] := ⟨[], rfl, rfl⟩

theorem accept (h : s.Represents entries) (text : String) :
    (s.accept text).Represents (entries ++ [.known (some text)]) := by
  obtain ⟨written, hbuffer, rfl⟩ := h
  by_cases hbacklog : s.backlog = []
  -- Nothing waits: the text goes to the buffer.
  · refine ⟨written ++ [some text], ?_, ?_⟩
    · simp [accept, hbacklog, hbuffer, linesText_append, linesText_singleton,
        String.append_assoc]
    · simp [accept, hbacklog]
  · refine ⟨written, ?_, ?_⟩
    · simp [accept, hbuffer]
    · simp [accept, flatMap_entries_appendToLast text hbacklog]

theorem defer (h : s.Represents entries) (line : Line) :
    (s.defer line).Represents (entries ++ [.waiting line]) := by
  obtain ⟨written, hbuffer, rfl⟩ := h
  refine ⟨written, hbuffer, ?_⟩
  simp [defer, WaitingLine.entries]

theorem fire (h : s.Represents entries) (render : Line → Except Fault (Option String)) :
    (s.fire render).1.Represents (Entry.announceAll render entries) ∧
      Entry.Announced render entries (Entry.announceAll render entries) (s.fire render).2 := by
  obtain ⟨written, hbuffer, rfl⟩ := h
  have hwrite : (s.fire render).1.buffer = (writeOut render s.buffer s.backlog).1 := rfl
  have hbacklog : (s.fire render).1.backlog = [] := rfl
  rw [Entry.announceAll_known_append]
  refine ⟨?_, (announced_writeOut render s.buffer s.backlog).known_append written⟩
  -- Every line that is left has its text now, so all of them are in the buffer.
  refine ⟨written ++ (Entry.announceAll render (s.backlog.flatMap WaitingLine.entries)).map
    Entry.text?, ?_, ?_⟩
  · rw [hwrite, writeOut_fst, hbuffer, List.filterMap_append, linesText_append]
    simp [List.filterMap_map]
  · rw [hbacklog, List.map_append, Entry.map_known_map_text?]
    simp

theorem any_isWaiting (h : s.Represents entries) :
    entries.any Entry.isWaiting = true ↔ s.backlog ≠ [] := by
  obtain ⟨written, -, rfl⟩ := h
  cases s.backlog with
  | nil => simp [Entry.isWaiting]
  | cons first rest => simp [WaitingLine.entries, Entry.isWaiting]

theorem buffer_eq (h : s.Represents entries) (hnone : s.backlog = []) :
    s.buffer = linesText (entries.filterMap Entry.text?) := by
  obtain ⟨written, hbuffer, rfl⟩ := h
  rw [hbuffer, hnone, List.flatMap_nil, List.append_nil, Entry.filterMap_text?_map_known]

end Represents

end Section

/-! ## Runs -/

/-- A command on sections with its answer, and the session in which it was run. -/
structure SectionMoment where
  session : Session
  command : SectionCommand
  answer : SectionAnswer

inductive SectionRun : Sections → Array String → List SectionMoment → Sections → Array String →
    Prop where
  | done (sections : Sections) (sinks : Array String) : SectionRun sections sinks [] sections sinks
  | step {sections sections1 sections' : Sections} {sinks sinks' : Array String}
      {s s1 : Session} {command : SectionCommand} {answer : SectionAnswer}
      {moments : List SectionMoment} (hsinks : s.sinks = sinks)
      (hrun : command.run sections s = .ok (answer, sections1) s1)
      (hrest : SectionRun sections1 s1.sinks moments sections' sinks') :
      SectionRun sections sinks (⟨s, command, answer⟩ :: moments) sections' sinks'

def SectionMoment.renders (m : SectionMoment) : Bool :=
  match m.command, m.answer with
  | .fire _, .state (.error _) _ => false
  | _, _ => true

variable {sections sections' : Sections} {s s' : Session}

theorem SectionRun.split {sinks sinks' : Array String} {before after : List SectionMoment}
    {m : SectionMoment} (h : SectionRun sections sinks (before ++ m :: after) sections' sinks') :
    ∃ sections1 sections2 s2, SectionRun sections sinks before sections1 m.session.sinks ∧
      m.command.run sections1 m.session = .ok (m.answer, sections2) s2 := by
  induction before generalizing sections sinks with
  | nil =>
    cases h with
    | step hsinks hrun hrest => exact ⟨sections, _, _, hsinks ▸ .done _ _, hrun⟩
  | cons first before ih =>
    cases h with
    | step hsinks hrun hrest =>
      obtain ⟨sections1, sections2, s2, hbefore, hm⟩ := ih hrest
      exact ⟨sections1, sections2, s2, .step hsinks hrun hbefore, hm⟩

/-- Each section writes to the sink with the given number. -/
def newSections (sinks : List Nat) : Sections :=
  (sinks.map fun sink => { sink := ⟨sink⟩ : Section }).toArray

def newSinks (sinks : List Nat) : Array String := Array.replicate (sinks.foldl max 0 + 1) ""

/-- The moments of commands that are run one right after the other. -/
def sectionMoments (sections : Sections) : List SectionCommand → Session → List SectionMoment
  | [], _ => []
  | command :: rest, s =>
    match command.run sections s with
    | .ok (answer, sections1) s1 => ⟨s, command, answer⟩ :: sectionMoments sections1 rest s1
    | .error _ _ => []

theorem sectionRun_of_runSectionCommands {commands : List SectionCommand}
    {answers : List SectionAnswer} (h : runSectionCommands sections commands s = .ok answers s') :
    ∃ sections', SectionRun sections s.sinks (sectionMoments sections commands s) sections'
      s'.sinks := by
  induction commands generalizing sections s answers with
  | nil =>
    cases h
    exact ⟨sections, .done _ _⟩
  | cons command rest ih =>
    obtain ⟨⟨answer, sections1⟩, s1, hcommand, h1⟩ := bind_eq_ok.mp h
    obtain ⟨answers', s2, hrest, h2⟩ := bind_eq_ok.mp h1
    cases h2
    obtain ⟨sections', hrun⟩ := ih hrest
    simp only [sectionMoments, hcommand]
    exact ⟨sections', .step rfl hcommand hrun⟩

/-! ## What was accepted and closed -/

/-- What sections have accepted and handed on, as lists of lines. -/
structure Ledger where
  accepted : Array (List Entry)
  closes : List (Nat × List String) := []

namespace Ledger

def add (ledger : Ledger) (number : Nat) (entry : Entry) : Ledger :=
  { ledger with accepted := ledger.accepted.modify number (· ++ [entry]) }

def entries (ledger : Ledger) (number : Nat) : List Entry := ledger.accepted.getD number []

def announce (ledger : Ledger) (number : Nat) (render : Line → Except Fault (Option String)) :
    Ledger :=
  { ledger with accepted := ledger.accepted.modify number (List.map (Entry.announce render)) }

/-- Unless a line of it waits. -/
def close (ledger : Ledger) (number : Nat) : Ledger :=
  if (ledger.entries number).any Entry.isWaiting then ledger
  else
    { accepted := ledger.accepted.modify number fun _ => []
      closes := ledger.closes ++ [(number, (ledger.entries number).filterMap Entry.text?)] }

def record (ledger : Ledger) (m : SectionMoment) : Ledger :=
  match m.command with
  | .accept number text => ledger.add number (.known (some text))
  | .defer number line =>
    match evalLine findNothing line m.session with
    | .ok line _ => ledger.add number (.waiting line)
    | .error _ _ => ledger
  | .fire number => ledger.announce number m.session.renderLine
  | .close number => ledger.close number
  | .setCell _ _ => ledger
  | .sameSink _ _ => ledger

def ofMoments (count : Nat) (moments : List SectionMoment) : Ledger :=
  moments.foldl record { accepted := Array.replicate count [] }

/-- Lines may fail to render. -/
def keep (ledger : Ledger) (m : SectionMoment) : Ledger :=
  match m.command with
  | .fire number =>
    { ledger with
      accepted := ledger.accepted.modify number (Entry.announceAll m.session.renderLine) }
  | _ => ledger.record m

theorem entries_keep_fire (ledger : Ledger) {m : SectionMoment} {number : Nat}
    (h : m.command = .fire number) : (ledger.keep m).entries number =
      Entry.announceAll m.session.renderLine (ledger.entries number) := by
  simp only [keep, h, entries, getD_modify, true_and]
  split
  · rfl
  · simp only [*, Entry.announceAll]

/-- Without the lines that were lost. -/
def keptOf (count : Nat) (moments : List SectionMoment) : Ledger :=
  moments.foldl keep { accepted := Array.replicate count [] }

/-- The texts that were handed to a sink, in order. -/
def written (ledger : Ledger) (sinks : List Nat) (sink : Nat) : List String :=
  (ledger.closes.filter fun close => sinks[close.1]? == some sink).flatMap Prod.snd

/-- The sections hold the lines that the ledger has for them, and the sinks those it has closed. -/
structure Tracks (ledger : Ledger) (sinks : List Nat) (sections : Sections)
    (texts : Array String) : Prop where
  size_sections : sections.size = sinks.length
  size_accepted : ledger.accepted.size = sinks.length
  sink : ∀ number, number < sinks.length →
    sinks[number]? = some (sections.getD number default).sink.index
  sink_lt : ∀ number, (sections.getD number default).sink.index < texts.size
  represents : ∀ number, (sections.getD number default).Represents (ledger.entries number)
  texts : ∀ sink, texts.getD sink "" = linesText (ledger.written sinks sink)

theorem tracks_new (sinks : List Nat) :
    Tracks { accepted := Array.replicate sinks.length [] } sinks (newSections sinks)
      (newSinks sinks) where
  size_sections := by simp [newSections]
  size_accepted := by simp
  sink number hnumber := by simp [newSections, hnumber]
  sink_lt number := by
    by_cases hnumber : number < sinks.length
    · have hle : sinks[number] ≤ sinks.foldl max 0 := by
        rw [List.foldl_max]
        have hmax : sinks[number] ≤ sinks.max?.getD 0 :=
          List.le_max?_getD_of_mem (List.getElem_mem hnumber)
        omega
      simp [newSections, newSinks, hnumber]
      omega
    · have hdefault : (newSections sinks).getD number default = default := by
        simp [newSections, hnumber]
      rw [hdefault]
      simp [newSinks, default, instInhabitedSection.default, instInhabitedSinkId.default]
  represents number := by
    by_cases hnumber : number < sinks.length
    · simpa [newSections, entries, hnumber] using Section.Represents.new ⟨sinks[number]⟩
    · have hdefault : (newSections sinks).getD number default = { sink := default } := by
        simp [newSections, hnumber]
        rfl
      rw [hdefault]
      simpa [entries, hnumber] using Section.Represents.new default
  texts sink := by
    have hempty : (newSinks sinks).getD sink "" = "" := by
      simp only [newSinks, Array.getD_eq_getD_getElem?, Array.getElem?_replicate]
      split <;> rfl
    rw [hempty]
    rfl

theorem written_concat (accepted : Array (List Entry)) (closes : List (Nat × List String))
    (last : Nat × List String) (sinks : List Nat) (sink : Nat) :
    written ⟨accepted, closes ++ [last]⟩ sinks sink =
      written ⟨accepted, closes⟩ sinks sink ++
        if sinks[last.1]? = some sink then last.2 else [] := by
  simp only [written, List.filter_append, List.flatMap_append]
  by_cases hsink : sinks[last.1]? = some sink <;> simp [hsink]

namespace Tracks

variable {ledger : Ledger} {sinks : List Nat} {sections : Sections} {texts : Array String}

variable {number : Nat}

theorem change (h : ledger.Tracks sinks sections texts) {changed : Section}
    {f : List Entry → List Entry} (hsink : changed.sink = (sections.getD number default).sink)
    (hrepresents : changed.Represents (f (ledger.entries number))) :
    Tracks { ledger with accepted := ledger.accepted.modify number f } sinks
      (sections.setIfInBounds number changed) texts where
  size_sections := by simpa using h.size_sections
  size_accepted := by simpa using h.size_accepted
  sink other hother := by
    rw [getD_setIfInBounds]
    split
    · rename_i heq
      rw [hsink, ← heq.1]
      exact h.sink other hother
    · exact h.sink other hother
  sink_lt other := by
    rw [getD_setIfInBounds]
    split
    · rw [hsink]
      exact h.sink_lt number
    · exact h.sink_lt other
  represents other := by
    have hsize : sections.size = ledger.accepted.size := h.size_sections.trans h.size_accepted.symm
    simp only [entries, getD_modify, getD_setIfInBounds, ← hsize]
    split
    · exact hrepresents
    · exact h.represents other
  texts := h.texts

theorem close (h : ledger.Tracks sinks sections texts)
    (hnone : (sections.getD number default).backlog = []) :
    (ledger.close number).Tracks sinks
      (sections.setIfInBounds number { sections.getD number default with buffer := "" })
      (texts.modify (sections.getD number default).sink.index
        (· ++ (sections.getD number default).buffer)) := by
  have hrepresents := h.represents number
  have hwaiting : (ledger.entries number).any Entry.isWaiting = false := by
    rw [Bool.eq_false_iff]
    exact fun hany => hrepresents.any_isWaiting.mp hany hnone
  have hbuffer := hrepresents.buffer_eq hnone
  have hemptied : Section.Represents { sections.getD number default with buffer := "" } [] :=
    ⟨[], rfl, by simp only [hnone]; rfl⟩
  have hchange : Tracks { ledger with accepted := ledger.accepted.modify number fun _ => [] } sinks
      (sections.setIfInBounds number { sections.getD number default with buffer := "" }) texts :=
    h.change rfl hemptied
  simp only [Ledger.close, hwaiting, Bool.false_eq_true, if_false]
  refine ⟨hchange.size_sections, hchange.size_accepted, hchange.sink, fun other => ?_,
    hchange.represents, fun sink => ?_⟩
  · rw [Array.size_modify]
    exact hchange.sink_lt other
  rw [written_concat, linesText_append, getD_modify, hbuffer]
  have htexts : texts.getD sink "" =
      linesText (written ⟨ledger.accepted.modify number fun _ => [], ledger.closes⟩ sinks
        sink) := h.texts sink
  by_cases hnumber : number < sinks.length
  -- The text of the buffer goes to the one sink that the close is counted for.
  · rw [h.sink number hnumber]
    have hlt := h.sink_lt number
    by_cases hsink : (sections.getD number default).sink.index = sink
    · rw [if_pos ⟨hsink.symm, hlt⟩, if_pos (by rw [hsink]), hsink, htexts]
    · rw [if_neg fun heq => hsink heq.1.symm, if_neg fun heq => hsink (Option.some.inj heq), htexts]
      simp [linesText]
  -- A number that no section has changes nothing.
  · have hentries : ledger.entries number = [] := by
      simp [entries, h.size_accepted, hnumber]
    rw [hentries]
    simp only [List.filterMap_nil, linesText, String.append_empty, ite_self]
    rw [← htexts]
    split
    · rename_i heq
      rw [heq.1]
    · rfl

end Tracks

end Ledger

/-! ## Steps -/

theorem Sections.update_eq_ok {number : Nat}
    {f : Section → CompileM (Section × Except CompileError Unit)} {answer : SectionAnswer}
    (h : sections.update number f s = .ok (answer, sections') s') :
    ∃ changed outcome view, f (sections.getD number default) s = .ok (changed, outcome) s' ∧
      sections' = sections.setIfInBounds number changed ∧ answer = .state outcome view := by
  obtain ⟨⟨changed, outcome⟩, s1, hf, h1⟩ := bind_eq_ok.mp h
  obtain ⟨now, s2, hget, h2⟩ := bind_eq_ok.mp h1
  cases hget
  cases h2
  exact ⟨changed, outcome, _, hf, rfl, rfl⟩

def asFault {α : Type} : Except CompileError α → Except Fault α
  | .ok a => .ok a
  | .error e => .error (.error e)

theorem keepError_eq_ok {α : Type} {x : Except Fault α} {outcome : Except CompileError α}
    (h : keepError x s = .ok outcome s') : x = asFault outcome ∧ s' = s := by
  cases x with
  | ok b =>
    cases h
    exact ⟨rfl, rfl⟩
  | error fault =>
    cases fault <;> cases h
    exact ⟨rfl, rfl⟩

theorem closeSection_eq_ok {sec changed : Section} {outcome : Except CompileError Unit}
    (h : closeSection sec s = .ok (changed, outcome) s') :
    (sec.backlog = [] ∧ changed = { sec with buffer := "" } ∧ outcome = .ok () ∧
      s'.sinks = s.sinks.modify sec.sink.index (· ++ sec.buffer)) ∨
    (sec.backlog ≠ [] ∧ changed = sec ∧ (∃ e, outcome = .error e) ∧ s' = s) := by
  cases hbacklog : sec.backlog with
  | nil =>
    simp only [closeSection, close, hbacklog] at h
    cases h
    exact .inl ⟨rfl, by simp, rfl, rfl⟩
  | cons first rest =>
    simp only [closeSection, close, hbacklog] at h
    cases h
    exact .inr ⟨by simp, rfl, ⟨_, rfl⟩, rfl⟩

namespace Ledger.Tracks

variable {ledger : Ledger} {sinks : List Nat} {sections sections' : Sections} {s s' : Session}
  {answer : SectionAnswer}

variable {number : Nat} {command : SectionCommand} {texts texts' : Array String}
  {moments : List SectionMoment}

section

variable (h : ledger.Tracks sinks sections s.sinks)
include h

theorem runClose
    (hrun : (SectionCommand.close number).run sections s = .ok (answer, sections') s') :
    (ledger.close number).Tracks sinks sections' s'.sinks ∧
      ((∃ e view, answer = .state (.error e) view) ↔
        ∃ line, .waiting line ∈ ledger.entries number) := by
  have hwaiting : (ledger.entries number).any Entry.isWaiting = true ↔
      ∃ line, .waiting line ∈ ledger.entries number := by
    rw [List.any_eq_true]
    constructor
    · rintro ⟨entry, hmem, hentry⟩
      cases entry with
      | known text => cases hentry
      | waiting line => exact ⟨line, hmem⟩
    · rintro ⟨line, hmem⟩
      exact ⟨_, hmem, rfl⟩
  have hany := (h.represents number).any_isWaiting
  obtain ⟨changed, outcome, view, hclose, rfl, rfl⟩ := Sections.update_eq_ok hrun
  rcases closeSection_eq_ok hclose with ⟨hnone, rfl, rfl, hsinks⟩ | ⟨hsome, rfl, ⟨e, rfl⟩, rfl⟩
  · refine ⟨hsinks ▸ h.close hnone, ?_⟩
    rw [← hwaiting, hany, ne_eq, hnone]
    simp
  · refine ⟨?_, fun _ => hwaiting.mp (hany.mpr hsome), fun _ => ⟨e, view, rfl⟩⟩
    rw [Ledger.close, if_pos (hany.mpr hsome)]
    -- The section is put back as it was.
    have hsame : sections.setIfInBounds number (sections.getD number default) = sections := by
      apply Array.ext_getElem?
      intro i
      rw [Array.getElem?_setIfInBounds]
      by_cases hi : number = i
      · subst hi
        by_cases hlt : number < sections.size <;> simp [hlt]
      · simp [hi]
    rw [hsame]
    exact h

theorem runFire (hrun : (SectionCommand.fire number).run sections s = .ok (answer, sections') s') :
    (ledger.keep ⟨s, .fire number, answer⟩).Tracks sinks sections' s'.sinks ∧
      ∃ outcome view, answer = .state outcome view ∧
        Entry.Announced s.renderLine (ledger.entries number)
          (Entry.announceAll s.renderLine (ledger.entries number)) (asFault outcome) := by
  rw [SectionCommand.run] at hrun
  obtain ⟨changed, outcome, view, hfire, rfl, rfl⟩ := Sections.update_eq_ok hrun
  obtain ⟨now, s1, hget, h1⟩ := bind_eq_ok.mp hfire
  cases hget
  obtain ⟨kept, s2, hkeep, h2⟩ := bind_eq_ok.mp h1
  cases h2
  obtain ⟨houtcome, rfl⟩ := keepError_eq_ok hkeep
  obtain ⟨hrepresents, hannounced⟩ := (h.represents number).fire s'.renderLine
  have hfired : ((sections.getD number default).fire s'.renderLine).2 = asFault outcome := houtcome
  exact ⟨h.change rfl hrepresents, outcome, view, rfl, hfired ▸ hannounced⟩

theorem step (hrun : command.run sections s = .ok (answer, sections') s') :
    (ledger.keep ⟨s, command, answer⟩).Tracks sinks sections' s'.sinks := by
  cases command with
  | accept number text =>
    rw [SectionCommand.run] at hrun
    obtain ⟨changed, outcome, view, haccept, rfl, rfl⟩ := Sections.update_eq_ok hrun
    cases haccept
    refine h.change ?_ ((h.represents number).accept text)
    unfold accept
    split <;> rfl
  | defer number line =>
    obtain ⟨line', s1, heval, hupdate⟩ := bind_eq_ok.mp hrun
    obtain ⟨changed, outcome, view, hdefer, rfl, rfl⟩ := Sections.update_eq_ok hupdate
    cases hdefer
    have hsilent : Silent s s' := (moves_evalLine moves_findNothing line).of_ok heval
    simp only [keep, record, heval]
    rw [hsilent.sinks]
    exact h.change rfl ((h.represents number).defer line')
  | fire number => exact (h.runFire hrun).1
  | close number => exact (h.runClose hrun).1
  | setCell name value =>
    cases hrun
    exact h
  | sameSink first second =>
    cases hrun
    exact h

theorem keep_eq_record (hrun : command.run sections s = .ok (answer, sections') s')
    (hrenders : SectionMoment.renders ⟨s, command, answer⟩ = true) :
    ledger.keep ⟨s, command, answer⟩ = ledger.record ⟨s, command, answer⟩ := by
  cases command with
  | fire number =>
    obtain ⟨-, outcome, view, rfl, hannounced⟩ := h.runFire hrun
    cases outcome with
    | error e => cases hrenders
    | ok =>
      simp only [keep, record, announce, Ledger.mk.injEq, and_true]
      apply Array.ext_getElem?
      intro i
      rw [Array.getElem?_modify, Array.getElem?_modify]
      split
      · rename_i heq
        subst heq
        cases hat : ledger.accepted[number]? with
        | none => rfl
        | some entries =>
          have hentries : ledger.entries number = entries := by simp [Ledger.entries, hat]
          rw [hentries] at hannounced
          exact congrArg some hannounced
      · rfl
  | _ => rfl

end

theorem runKept (h : ledger.Tracks sinks sections texts)
    (hrun : SectionRun sections texts moments sections' texts') :
    (moments.foldl keep ledger).Tracks sinks sections' texts' := by
  induction hrun generalizing ledger with
  | done => exact h
  | step hsinks hstep _ ih =>
    subst hsinks
    exact ih (h.step hstep)

theorem foldl_keep (h : ledger.Tracks sinks sections texts)
    (hrun : SectionRun sections texts moments sections' texts')
    (hrenders : ∀ m ∈ moments, m.renders = true) :
    moments.foldl keep ledger = moments.foldl record ledger := by
  induction hrun generalizing ledger with
  | done => rfl
  | step hsinks hstep _ ih =>
    subst hsinks
    have hkeep := h.keep_eq_record hstep (hrenders _ List.mem_cons_self)
    rw [List.foldl_cons, List.foldl_cons, ← hkeep]
    exact ih (h.step hstep) fun m hm => hrenders m (List.mem_cons_of_mem _ hm)

theorem run (h : ledger.Tracks sinks sections texts)
    (hrun : SectionRun sections texts moments sections' texts')
    (hrenders : ∀ m ∈ moments, m.renders = true) :
    (moments.foldl record ledger).Tracks sinks sections' texts' :=
  h.foldl_keep hrun hrenders ▸ h.runKept hrun

end Ledger.Tracks

/-! ## Main result -/

/-- Whatever is done to sections that write to their own or to shared sinks, if every line renders,
    then each sink holds the lines that were accepted by the sections that write to it, from one
    close to the next and in the order of the closes; and closing a section fails if and only if a
    line of it waits. -/
theorem sinks_hold_closed_lines {sinks : List Nat} {moments : List SectionMoment}
    {sections : Sections} {texts : Array String}
    (hrun : SectionRun (newSections sinks) (newSinks sinks) moments sections texts)
    (hrenders : ∀ m ∈ moments, m.renders = true) :
    (∀ sink, texts.getD sink "" =
      Section.linesText ((Ledger.ofMoments sinks.length moments).written sinks sink)) ∧
    ∀ before m after number, moments = before ++ m :: after → m.command = .close number →
      ((∃ e view, m.answer = .state (.error e) view) ↔
        ∃ line, .waiting line ∈ (Ledger.ofMoments sinks.length before).entries number) := by
  refine ⟨fun sink => ((Ledger.tracks_new sinks).run hrun hrenders).texts sink, ?_⟩
  intro before m after number hsplit hclose
  subst hsplit
  obtain ⟨sections₁, sections₂, s₂, hbefore, hm⟩ := hrun.split
  have htracks := (Ledger.tracks_new sinks).run hbefore fun m hm =>
    hrenders m (List.mem_append_left _ hm)
  rw [hclose] at hm
  exact (htracks.runClose hm).2

def sharedSinkScript : List SectionCommand :=
  [.accept 0 "a", .defer 0 (.symbols [.text "mov rax,", .deferred (.cell "size")]),
    .accept 0 "b", .defer 0 (.symbols [.deferred .absent]), .accept 1 "x", .accept 0 "c", .close 0,
    .close 1, .setCell "size" (some "8"), .fire 0, .close 0]

def sharedSinkMoments : List SectionMoment :=
  sectionMoments (newSections [0, 0]) sharedSinkScript { sinks := newSinks [0, 0] }

theorem sinks_hold_closed_lines_shared :
    (∃ sections texts, SectionRun (newSections [0, 0]) (newSinks [0, 0]) sharedSinkMoments sections
      texts ∧ texts.getD 0 "" = "x\na\nmov rax, 8\nb\nc\n") ∧
    (∀ m ∈ sharedSinkMoments, m.renders = true) := by
  have hrenders : ∀ m ∈ sharedSinkMoments, m.renders = true := by decide +kernel
  have hok : succeeds (runSectionCommands (newSections [0, 0]) sharedSinkScript)
      { sinks := newSinks [0, 0] } = true := by decide +kernel
  cases hrun : runSectionCommands (newSections [0, 0]) sharedSinkScript
      { sinks := newSinks [0, 0] } with
  | error fault s => rw [succeeds, hrun] at hok; cases hok
  | ok answers s =>
    obtain ⟨sections, hmoments⟩ := sectionRun_of_runSectionCommands hrun
    refine ⟨⟨sections, s.sinks, hmoments, ?_⟩, hrenders⟩
    rw [(sinks_hold_closed_lines hmoments hrenders).1 0]
    decide +kernel

/-- Whatever is done to sections, the sinks and the sections hold the lines that were kept. Each
    announcement keeps all lines of its section or, if it fails, those in front of the line that
    fails. Nothing else loses lines. -/
theorem failed_fire_loses_rest {sinks : List Nat} {moments : List SectionMoment}
    {sections : Sections} {texts : Array String}
    (hrun : SectionRun (newSections sinks) (newSinks sinks) moments sections texts) :
    (∀ sink, texts.getD sink "" =
      Section.linesText ((Ledger.keptOf sinks.length moments).written sinks sink)) ∧
    (∀ number, (sections.getD number default).Represents
      ((Ledger.keptOf sinks.length moments).entries number)) ∧
    ((∀ m ∈ moments, m.renders = true) →
      Ledger.keptOf sinks.length moments = Ledger.ofMoments sinks.length moments) ∧
    ∀ before m after number, moments = before ++ m :: after → m.command = .fire number →
      ∃ outcome view, m.answer = .state outcome view ∧
        Entry.Announced m.session.renderLine ((Ledger.keptOf sinks.length before).entries number)
          ((Ledger.keptOf sinks.length (before ++ [m])).entries number) (asFault outcome) := by
  have htracks := (Ledger.tracks_new sinks).runKept hrun
  refine ⟨htracks.texts, htracks.represents, (Ledger.tracks_new sinks).foldl_keep hrun, ?_⟩
  intro before m after number hsplit hfire
  subst hsplit
  obtain ⟨sections₁, sections₂, s₂, hbefore, hm⟩ := hrun.split
  have hkept := (Ledger.tracks_new sinks).runKept hbefore
  rw [hfire] at hm
  obtain ⟨-, outcome, view, hanswer, hannounced⟩ := hkept.runFire hm
  refine ⟨outcome, view, hanswer, ?_⟩
  rw [Ledger.keptOf, Ledger.keptOf, List.foldl_append, List.foldl_cons, List.foldl_nil,
    Ledger.entries_keep_fire _ hfire]
  exact hannounced

def failingLineScript : List SectionCommand :=
  [.accept 0 "a", .defer 0 (.symbols [.text "push rax"]), .accept 0 "b",
    .defer 0 (.symbols [.deferred (.failing (.language "no frame"))]), .accept 0 "c",
    .defer 0 (.symbols [.text "pop rax"]), .fire 0, .accept 0 "d", .close 0]

def failingLineMoments : List SectionMoment :=
  sectionMoments (newSections [0]) failingLineScript { sinks := newSinks [0] }

theorem failed_fire_loses_rest_close :
    ∃ sections texts, SectionRun (newSections [0]) (newSinks [0]) failingLineMoments sections
      texts ∧ texts.getD 0 "" = "a\npush rax\nb\nd\n" := by
  have hok : succeeds (runSectionCommands (newSections [0]) failingLineScript)
      { sinks := newSinks [0] } = true := by decide +kernel
  obtain ⟨answers, s, hrun⟩ := exists_ok_of_succeeds hok
  obtain ⟨sections, hmoments⟩ := sectionRun_of_runSectionCommands hrun
  refine ⟨sections, s.sinks, hmoments, ?_⟩
  rw [(failed_fire_loses_rest hmoments).1 0]
  decide +kernel

end StagedAsm
