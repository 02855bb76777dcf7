import StagedAsm.Proofs.DependencyOrder
import StagedAsm.Proofs.PlaceholderRecords

/-!
# What becomes of epochs

The history tells which epoch is open and what was put into it. An engine that opened an epoch still
has to close it or all placeholders in it are settled, as long as no closing failed in between: a
closing that fails takes the epoch away and leaves the duty behind.
-/

namespace StagedAsm

open Array DependencyGraph List

/-! ## The open epoch -/

/-- The events of the open epoch, if there is one, after another event. -/
def Event.track (events : Option (List Event)) (event : Event) : Option (List Event) :=
  match events, event with
  | none, .opened _ => some []
  | none, _ => none
  | some _, .closing => none
  | some events, event => some (events ++ [event])

def openEvents (history : List Event) : Option (List Event) := history.foldl Event.track none

theorem openEvents_snoc (history : List Event) (event : Event) :
    openEvents (history ++ [event]) = Event.track (openEvents history) event := by
  rw [openEvents, List.foldl_append]
  rfl

variable {event : Event} {events : List Event} {g g' : DependencyGraph PlaceholderId}

theorem Event.track_none (h : ∀ e, event ≠ .opened e) : Event.track none event = none := by
  cases event with
  | opened e => exact absurd rfl (h e)
  | _ => rfl

theorem Event.track_some (h : event ≠ .closing) (events : List Event) :
    Event.track (some events) event = some (events ++ [event]) := by
  cases event with
  | closing => exact absurd rfl h
  | _ => rfl

theorem foldl_track (h : .closing ∉ events) (start : List Event) :
    events.foldl Event.track (some start) = some (start ++ events) := by
  induction events generalizing start with
  | nil => simp
  | cons event rest ih =>
    have hne : event ≠ .closing := fun heq => h (by simp [heq])
    rw [foldl_cons, Event.track_some hne, ih fun hmem => h (mem_cons_of_mem _ hmem)]
    simp

theorem openEvents_append_opened {old during : List Event} {e : EngineId}
    (h : openEvents (old ++ .opened e :: events) = some during) (hclosing : .closing ∉ events)
    (hopened : .opened e ∉ during) : during = events := by
  rw [openEvents, List.foldl_append, List.foldl_cons] at h
  cases hold : List.foldl Event.track none old with
  | none =>
    rw [hold, Event.track, foldl_track hclosing] at h
    exact (Option.some.inj h).symm
  | some start =>
    -- Had an epoch been open before, the opening would be among its events.
    rw [hold, Event.track_some (by simp), foldl_track hclosing] at h
    cases h
    simp at hopened

/-- What a graph has to hold of the events of its epoch. -/
structure Tracks (g : DependencyGraph PlaceholderId) (events : List Event) : Prop where
  wellFormed : g.WellFormed
  unsorted : g.sorted = false
  unopened : ∀ e, .opened e ∉ events
  registered : ∀ p, .registered p ∈ events → p ∈ g.nodes
  linked : ∀ a b, .linked a b ∈ events → g.Waits a b

/-- The event is about the epoch itself. -/
def Event.aboutEpoch : Event → Bool
  | .opened _ => true
  | .registered _ => true
  | .linked _ _ => true
  | .closing => true
  | _ => false

/-- The history tells which epoch is open. -/
structure Session.EpochRecorded (s : Session) : Prop where
  closed : s.epoch = none → openEvents s.history.toList = none
  tracks : ∀ g, s.epoch = some g → ∃ events, openEvents s.history.toList = some events ∧
    Tracks g events

theorem Tracks.snoc (h : Tracks g events) (hevent : event.aboutEpoch = false) :
    Tracks g (events ++ [event]) := by
  have hmem : ∀ other, other.aboutEpoch = true → other ∈ events ++ [event] → other ∈ events := by
    intro other hother hmem
    rcases mem_append.mp hmem with hmem | hmem
    · exact hmem
    · rw [mem_singleton.mp hmem, hevent] at hother
      exact nomatch hother
  exact
    { wellFormed := h.wellFormed
      unsorted := h.unsorted
      unopened := fun e he => h.unopened e (hmem _ rfl he)
      registered := fun p hp => h.registered p (hmem _ rfl hp)
      linked := fun a b hab => h.linked a b (hmem _ rfl hab) }

theorem Tracks.register (h : Tracks g events) {id : PlaceholderId} (hadd : g.addNode id = .ok g') :
    Tracks g' (events ++ [.registered id]) := by
  obtain ⟨_, hok, hg', hsorted, hnodes, hwaits⟩ :=
    addNode_spec h.wellFormed h.unsorted id
  cases hadd.symm.trans hok
  exact
    { wellFormed := hg'
      unsorted := hsorted
      unopened := fun e he => h.unopened e (by simpa using he)
      registered := fun p hp => (hnodes p).mpr
        ((mem_append.mp hp).imp (h.registered p) fun hp => by simpa using hp)
      linked := fun a b hab => (hwaits a b).mpr (h.linked a b (by simpa using hab)) }

theorem Tracks.link (h : Tracks g events) {a b : PlaceholderId} (hadd : g.addEdge a b = .ok g') :
    Tracks g' (events ++ [.linked a b]) := by
  obtain ⟨_, hok, hg', hsorted, hnodes, hwaits⟩ :=
    addEdge_spec h.wellFormed h.unsorted a b
  cases hadd.symm.trans hok
  exact
    { wellFormed := hg'
      unsorted := hsorted
      unopened := fun e he => h.unopened e (by simpa using he)
      registered := fun p hp => (hnodes p).mpr (.inl (.inl (h.registered p (by simpa using hp))))
      linked := fun c d hcd => (hwaits c d).mpr
        ((mem_append.mp hcd).imp (h.linked c d) fun hcd => by simpa using hcd) }

namespace Session.EpochRecorded

variable {s s' : Session}

theorem of_eq (hs : s.EpochRecorded) (hepoch : s'.epoch = s.epoch)
    (hhistory : s'.history = s.history) : s'.EpochRecorded := by
  constructor
  · rw [hepoch, hhistory]
    exact hs.closed
  · rw [hepoch, hhistory]
    exact hs.tracks

theorem push (hs : s.EpochRecorded) (hevent : event.aboutEpoch = false)
    (hepoch : s'.epoch = s.epoch) (hhistory : s'.history = s.history.push event) :
    s'.EpochRecorded := by
  have hne : ∀ other : Event, other.aboutEpoch = true → event ≠ other := by
    rintro other hother rfl
    exact nomatch hevent.symm.trans hother
  constructor
  · intro hclosed
    rw [hhistory, toList_push, openEvents_snoc, hs.closed (hepoch ▸ hclosed),
      Event.track_none fun e => hne (.opened e) rfl]
  · intro g hg
    obtain ⟨events, hopen, htracks⟩ := hs.tracks g (hepoch ▸ hg)
    refine ⟨events ++ [event], ?_, htracks.snoc hevent⟩
    rw [hhistory, toList_push, openEvents_snoc, hopen, Event.track_some (hne .closing rfl)]

theorem step (hs : s.EpochRecorded) (h : Step s s') : s'.EpochRecorded := by
  cases h with
  | quiet h => exact hs.of_eq h.epoch h.history
  | bind tree p owner name howner hname hpending hfree hkeeps hbound => exact hs.of_eq rfl rfl
  | register id hopen h =>
    obtain ⟨events, hevents, htracks⟩ := hs.tracks _ hopen
    refine ⟨fun h => (nomatch h), ?_⟩
    rintro _ ⟨⟩
    refine ⟨events ++ [.registered id], ?_, htracks.register h⟩
    rw [toList_push, openEvents_snoc, hevents]
    rfl
  | link a b hopen h =>
    obtain ⟨events, hevents, htracks⟩ := hs.tracks _ hopen
    refine ⟨fun h => (nomatch h), ?_⟩
    rintro _ ⟨⟩
    refine ⟨events ++ [.linked a b], ?_, htracks.link h⟩
    rw [toList_push, openEvents_snoc, hevents]
    rfl
  | close hopen =>
    obtain ⟨events, hevents, _⟩ := hs.tracks _ hopen
    refine ⟨fun _ => ?_, fun g h => (nomatch h)⟩
    rw [closeEpoch, toList_push, openEvents_snoc, hevents]
    rfl
  | declare id snapshot => exact hs.of_eq rfl rfl
  | fork engine h => exact hs.of_eq rfl rfl
  | @make s1 id made pass hlt hfresh h =>
    obtain ⟨engine, _, hquiet⟩ := h.quiet
    have hbegun : EpochRecorded { s with
        engines := s.engines.push engine
        history := s.history.push (.building id made.arguments) } := hs.push rfl rfl rfl
    have hprepared := hbegun.of_eq hquiet.epoch hquiet.history
    have hmade : EpochRecorded { s1 with
        history := s1.history.push (.made id ⟨s1.instances.size⟩ pass) } :=
      hprepared.push rfl rfl rfl
    exact hmade.push rfl rfl rfl
  | _ => exact hs.push rfl rfl rfl

end Session.EpochRecorded

/-! ## Closing the epoch -/

/-- The placeholders that were registered are settled, each after those it waits for. -/
structure Session.Settles (s : Session) (during settling : List Event) : Prop where
  events : ∀ event ∈ settling, event.settles = true
  settled : ∀ p, .registered p ∈ during → s.SettledIn p settling
  ordered : ∀ a b, .linked a b ∈ during → ∃ symbol first second third,
    settling = first ++ .answered a symbol :: (second ++ .asked b :: third)

/-- Closing the epoch settles all that is in it. -/
theorem closeEpoch_spec {s s' : Session} (hs : s.Recorded) (he : s.EpochRecorded)
    (h : closeEpoch s = .ok () s') :
    ∃ during settling, openEvents s.history.toList = some during ∧ (∀ e, .opened e ∉ during) ∧
      s'.history.toList = s.history.toList ++ .closing :: settling ∧
      s'.Settles during settling := by
  obtain ⟨g, drain, closed, hopen, hsort, hdrain⟩ := closeEpoch_eq_ok h
  obtain ⟨during, hduring, htracks⟩ := he.tracks g hopen
  obtain ⟨_, _, yielded, report, hok, -, _, horder, _, hlist, hreport⟩ :=
    sort_exhausts htracks.wellFormed htracks.unsorted
  cases hsort.symm.trans hok
  rw [hlist] at hdrain
  -- The graph is drained completely, or it ends in a cycle and closing fails.
  rcases hreport with ⟨rfl, hall, _⟩ | ⟨⟨nodes, rfl⟩, _⟩
  · rw [append_nil] at hdrain
    have hclosed : s.closeEpoch.Recorded := hs.step (.close hopen)
    obtain ⟨settling, hhistory, hsettles, hsettled, hasked⟩ := settleDrained_spec hclosed hdrain
    refine ⟨during, settling, hduring, htracks.unopened, ?_, hsettles, fun p hp => ?_, ?_⟩
    · rw [hhistory, Session.closeEpoch, Array.toList_push, List.append_assoc]
      rfl
    · exact hsettled p ((hall p).mpr (htracks.registered p hp))
    · intro a b hab
      have hwaits := htracks.linked a b hab
      have hb : b ∈ yielded := (hall b).mpr (mem_nodes_of_transGen_waits (.single hwaits))
      -- The drain yields `a` before `b`, and what comes earlier has answered when `b` is asked.
      obtain ⟨before, after, hyielded⟩ := append_of_mem hb
      obtain ⟨first, last, rfl, hfirst⟩ := hasked before b after hyielded
      obtain ⟨symbol, hanswered⟩ := hfirst a (horder before b after hyielded a hwaits)
      obtain ⟨first, second, rfl⟩ := append_of_mem hanswered
      exact ⟨symbol, first, second, last, by simp⟩
  · exact absurd hdrain (settleDrained_cycle yielded nodes _ _)

/-! ## Who has to close an epoch -/

namespace Session

def ClosedIn (s : Session) (events : List Event) : Prop :=
  ∃ during settling rest, events = during ++ .closing :: (settling ++ rest) ∧
    (∀ e, .opened e ∉ during) ∧ s.Settles during settling

/-- What holds of the engines that opened an epoch, whether they have closed it or not. -/
structure Owned (s : Session) : Prop where
  opened_lt : ∀ e, .opened e ∈ s.history → e.index < s.engines.size
  engine_lt : ∀ i, i.index < s.instances.size → (s.instanceAt i).engine.index < s.engines.size
  owner : ∀ old e events, s.history.toList = old ++ .opened e :: events →
    events.count .closing ≤ 1 → (s.engine e).ownsEpoch = true ∨ s.ClosedIn events
  finished : ∀ old e events later,
    s.history.toList = old ++ .opened e :: (events ++ .finished e .resolve :: later) →
    events.count .closing ≤ 1 → s.ClosedIn events

variable {s s' : Session}

variable {events history old : List Event} {event : Event}

theorem ClosedIn.append (h : s.ClosedIn events) (more : List Event) :
    s.ClosedIn (events ++ more) := by
  obtain ⟨during, settling, rest, rfl, hduring, hsettles⟩ := h
  exact ⟨during, settling, rest ++ more, by simp, hduring, hsettles⟩

theorem ClosedIn.mono (h : s.ClosedIn events)
    (hkeep : ∀ p events, s.SettledIn p events → s'.SettledIn p events) : s'.ClosedIn events := by
  obtain ⟨during, settling, rest, hevents, hduring, hsettles⟩ := h
  exact ⟨during, settling, rest, hevents, hduring, hsettles.events,
    fun p hp => hkeep p _ (hsettles.settled p hp), hsettles.ordered⟩

theorem split_before {more : List Event} (h : history ++ more = old ++ event :: events)
    (hmore : event ∉ more) :
    ∃ events', history = old ++ event :: events' ∧ events = events' ++ more := by
  rcases append_eq_append_iff.mp h with ⟨front, rfl, hfront⟩ | ⟨front, rfl, hfront⟩
  · simp [hfront] at hmore
  · cases front with
    | nil =>
      rw [nil_append] at hfront
      simp [← hfront] at hmore
    | cons other front =>
      cases hfront
      exact ⟨front, rfl, rfl⟩

namespace Owned

theorem extend (hs : s.Owned) (hengines : ∀ e, e.index < s.engines.size →
      e.index < s'.engines.size ∧ ((s.engine e).ownsEpoch = true → (s'.engine e).ownsEpoch = true))
    (hinstances : ∀ i, i.index < s'.instances.size →
      (s'.instanceAt i).engine.index < s'.engines.size)
    {new : List Event} (hhistory : s'.history.toList = s.history.toList ++ new)
    (hopened : ∀ e, .opened e ∈ new → e.index < s'.engines.size ∧ (s'.engine e).ownsEpoch = true)
    (hresolved : ∀ e, .finished e .resolve ∈ new → .opened e ∉ new ∧ (s.engine e).ownsEpoch = false)
    (hkeep : ∀ p events, s.SettledIn p events → s'.SettledIn p events) : s'.Owned where
  opened_lt e he := by
    rw [← Array.mem_toList_iff, hhistory, List.mem_append, Array.mem_toList_iff] at he
    rcases he with he | he
    · exact (hengines e (hs.opened_lt e he)).1
    · exact (hopened e he).1
  engine_lt := hinstances
  owner old e events hsplit honce := by
    by_cases hnew : .opened e ∈ new
    · exact .inl (hopened e hnew).2
    · obtain ⟨events', hsplit', rfl⟩ := split_before (hhistory.symm.trans hsplit) hnew
      rw [List.count_append] at honce
      have hlt := hs.opened_lt e (Array.mem_toList_iff.mp (by simp [hsplit']))
      exact (hs.owner old e events' hsplit' (by omega)).imp (hengines e hlt).2 fun h =>
        (h.mono hkeep).append _
  finished old e events later hsplit honce := by
    have hlast : .finished e .resolve ∈ new → ∀ events', s.history.toList =
        old ++ .opened e :: events' → events'.count .closing ≤ 1 → s'.ClosedIn events' := by
      intro hnew events' hsplit' honce'
      rcases hs.owner old e events' hsplit' honce' with howns | hclosed
      · exact nomatch (hresolved e hnew).2.symm.trans howns
      · exact hclosed.mono hkeep
    have hjoined := hhistory.symm.trans hsplit
    rw [← List.cons_append, ← List.append_assoc] at hjoined
    -- The pass is finished by a new event, or it was finished before.
    rcases List.append_eq_append_iff.mp hjoined with ⟨front, hfront, hnew⟩ | ⟨back, hback, hnew⟩
    · have hmem : .finished e .resolve ∈ new := by simp [hnew]
      have hold : .opened e ∉ front := fun hopen => (hresolved e hmem).1 (by simp [hnew, hopen])
      obtain ⟨events', hsplit', rfl⟩ := split_before hfront.symm hold
      rw [List.count_append] at honce
      exact (hlast hmem events' hsplit' (by omega)).append _
    · cases back with
      | nil =>
        have hmem : .finished e .resolve ∈ [] ++ new := hnew ▸ List.mem_cons_self
        exact hlast hmem events (by simpa using hback) honce
      | cons event back =>
        cases hnew
        exact (hs.finished old e events back (by simpa using hback) honce).mono hkeep

theorem step (hs : s.Owned) (hr : s.Recorded) (h : Step s s') : s'.Owned := by
  have hkeep : ∀ p events, s.SettledIn p events → s'.SettledIn p events :=
    fun p events hp => hp.step hr h
  rcases h.still_or with hstill | ⟨new, _, rfl⟩ | ⟨s1, id, made, pass, hmake, rfl⟩
  · obtain ⟨new, hhistory, hnew⟩ : ∃ new, s'.history.toList = s.history.toList ++ new ∧
        ∀ event ∈ new, event.aboutRun = false := by
      rcases hstill.history with hsame | ⟨event, hhistory, hevent⟩
      · exact ⟨[], by simp [hsame], by simp⟩
      · exact ⟨[event], by simp [hhistory], by simpa using hevent⟩
    refine hs.extend (fun e he => ?_) (fun i hi => ?_) hhistory (fun e he => ?_) (fun e he => ?_)
      hkeep
    · refine ⟨hstill.engines ▸ he, fun howns => ?_⟩
      rwa [engine, hstill.engines]
    · rw [instanceAt, hstill.instances, hstill.engines]
      exact hs.engine_lt i (hstill.instances ▸ hi)
    · cases hnew _ he
    · cases hnew _ he
  · refine hs.extend (fun e he => ?_) (fun i hi => ?_) (append_nil _).symm (by simp) (by simp) hkeep
    · rw [engine_push, if_neg (ne_of_lt he)]
      exact ⟨by simpa using Nat.lt_succ_of_lt he, id⟩
    · rw [size_push]
      exact Nat.lt_succ_of_lt (hs.engine_lt i hi)
  · refine hs.extend (fun e he => ?_) (hmake.engine_lt pass hs.engine_lt) (hmake.history_eq pass)
      (by simp) (by simp) hkeep
    rw [hmake.engine_of_lt pass he, hmake.size_engines]
    exact ⟨Nat.lt_succ_of_lt he, fun howns => howns⟩

variable {e : EngineId}

theorem closes {s1 : Session} (hr : s.Recorded) (he : s.EpochRecorded) (hr1 : s1.Recorded)
    (hs1 : s1.Owned) (h : StagedAsm.closeEpoch s = .ok () s1) (e : EngineId) :
    Owned { s1 with
      engines := s1.engines.modify e.index fun engine => { engine with ownsEpoch := false } } := by
  set s' : Session := { s1 with
    engines := s1.engines.modify e.index fun engine => { engine with ownsEpoch := false } }
  have hmild : Mild s1 s' := .of_eq rfl rfl fun _ => rfl
  have hkeep : ∀ p events, s1.SettledIn p events → s'.SettledIn p events :=
    fun p _ hp => hp.mild hr1 hmild
  have hsize : s'.engines.size = s1.engines.size := by simp [s']
  refine ⟨fun e' he' => hsize ▸ hs1.opened_lt e' he', fun i hi => hsize ▸ hs1.engine_lt i hi,
    fun old e' events hsplit honce => ?_, fun old e' events later hsplit honce =>
      (hs1.finished old e' events later hsplit honce).mono hkeep⟩
  by_cases heq : e' = e
  -- With no closing since the engine opened an epoch, that is the one that was closed here.
  · subst heq
    obtain ⟨during, settling, hduring, hopened, hhistory, hsettles⟩ := closeEpoch_spec hr he h
    right
    have hmore : .opened e' ∉ Event.closing :: settling := by
      intro hmem
      rcases mem_cons.mp hmem with hmem | hmem
      · exact nomatch hmem
      · exact nomatch hsettles.events _ hmem
    obtain ⟨events, hsplit', rfl⟩ := split_before (hhistory.symm.trans hsplit) hmore
    have hclosing : .closing ∉ events := by
      rw [List.count_append, List.count_cons_self] at honce
      exact count_eq_zero.mp (by omega)
    have hevents := openEvents_append_opened (hsplit' ▸ hduring) hclosing (hopened e')
    subst hevents
    exact ClosedIn.mono ⟨during, settling, [], by simp, hopened, hsettles⟩ hkeep
  · have hmodify : s'.engine e' = s1.engine e' :=
      (s1.engine_modify e e' _).trans (if_neg fun h => heq h.1)
    rw [hmodify]
    exact (hs1.owner old e' events hsplit honce).imp_right (·.mono hkeep)

theorem finishes (hs : s.Owned) (hr : s.Recorded) {pass : Pass}
    (he : pass = .resolve → (s.engine e).ownsEpoch = false) :
    Owned { s with history := s.history.push (.finished e pass) } := by
  have hmild : Mild s { s with history := s.history.push (.finished e pass) } :=
    .of_eq rfl rfl fun p => by simp [asks]
  refine hs.extend (fun _ he' => ⟨he', id⟩) hs.engine_lt toList_push (by simp)
    (fun e' hmem => ?_) fun p _ hp => hp.mild hr hmild
  cases mem_singleton.mp hmem
  exact ⟨by simp, he rfl⟩

end Owned

end Session

end StagedAsm
