import StagedAsm.Proofs.ScopeOperations
import StagedAsm.Run.Script

/-!
# What a path leads to

A scope answers a path if the names in front lead from it down through named global scopes, and the
last name is that of a member there. A path of plain names is found in the first scope that answers
it: the open scopes come first, from the innermost outward, then those imported into the file.
-/

namespace StagedAsm

open List ScopeTree

/-! ## Answers -/

namespace ScopeTree

/-- Names lead down through named scopes, which are global where they are passed through. -/
inductive Descends (t : ScopeTree) : ScopeId → List String → ScopeId → Prop where
  | here (scope : ScopeId) : Descends t scope [] scope
  | down {scope next last : ScopeId} {name : String} {rest : List String}
      (hglobal : t.isLocal scope = false) (hnext : t.subScope? scope name = some next)
      (hrest : Descends t next rest last) : Descends t scope (name :: rest) last

def Answers (t : ScopeTree) (scope : ScopeId) (names : List String) (symbol : Symbol) : Prop :=
  ∃ front name holder, names = front ++ [name] ∧ t.Descends scope front holder ∧
    t.member? holder name = some symbol

variable {t : ScopeTree} {scope : ScopeId} {name : String} {rest : List String}
  {symbol other : Symbol}

theorem not_answers_nil : ¬t.Answers scope [] symbol := by
  intro h
  obtain ⟨front, name, -, hnames, -⟩ := h
  simp at hnames

theorem answers_singleton : t.Answers scope [name] symbol ↔ t.member? scope name = some symbol := by
  constructor
  · intro h
    obtain ⟨front, last, holder, hnames, hdown, hmember⟩ := h
    cases front with
    | nil =>
      cases hnames
      cases hdown
      exact hmember
    | cons first front => simp at hnames
  · intro h
    exact ⟨[], name, scope, rfl, .here scope, h⟩

theorem answers_cons (hrest : rest ≠ []) : t.Answers scope (name :: rest) symbol ↔
    t.isLocal scope = false ∧ ∃ next, t.subScope? scope name = some next ∧
      t.Answers next rest symbol := by
  constructor
  · intro h
    obtain ⟨front, last, holder, hnames, hdown, hmember⟩ := h
    cases hdown with
    | here =>
      simp at hnames
      exact absurd hnames.2 hrest
    | down hglobal hnext hdown =>
      cases hnames
      exact ⟨hglobal, _, hnext, _, last, holder, rfl, hdown, hmember⟩
  · intro h
    obtain ⟨hglobal, next, hnext, front, last, holder, rfl, hdown, hmember⟩ := h
    exact ⟨name :: front, last, holder, rfl, .down hglobal hnext hdown, hmember⟩

theorem Answers.unique {names : List String} (h : t.Answers scope names symbol)
    (h' : t.Answers scope names other) : symbol = other := by
  induction names generalizing scope with
  | nil => exact absurd h not_answers_nil
  | cons name rest ih =>
    by_cases hrest : rest = []
    · rw [hrest, answers_singleton] at h h'
      exact Option.some.inj (h.symm.trans h')
    · obtain ⟨-, next, hnext, hanswers⟩ := (answers_cons hrest).mp h
      obtain ⟨-, next', hnext', hanswers'⟩ := (answers_cons hrest).mp h'
      rw [Option.some.inj (hnext'.symm.trans hnext)] at hanswers'
      exact ih hanswers hanswers'

/-- The first scope that answers a path designates a symbol by it. -/
def FirstAnswer (t : ScopeTree) (scopes : List ScopeId) (names : List String) (symbol : Symbol) :
    Prop :=
  ∃ before scope after, scopes = before ++ scope :: after ∧
    (∀ earlier ∈ before, ∀ x, ¬t.Answers earlier names x) ∧ t.Answers scope names symbol

variable {names : List String} {scopes : List ScopeId}

theorem FirstAnswer.of_mem (h : t.FirstAnswer scopes names symbol) :
    ∃ scope ∈ scopes, t.Answers scope names symbol := by
  obtain ⟨before, scope, after, rfl, -, hanswers⟩ := h
  exact ⟨scope, by simp, hanswers⟩

theorem firstAnswer_cons : t.FirstAnswer (scope :: scopes) names symbol ↔
    t.Answers scope names symbol ∨
      (∀ x, ¬t.Answers scope names x) ∧ t.FirstAnswer scopes names symbol := by
  constructor
  · rintro ⟨before, found, after, hsplit, hearlier, hanswers⟩
    cases before with
    | nil =>
      cases hsplit
      exact .inl hanswers
    | cons first before =>
      cases hsplit
      exact .inr ⟨hearlier _ mem_cons_self, before, found, after, rfl,
        fun earlier hmem => hearlier earlier (mem_cons_of_mem _ hmem), hanswers⟩
  · rintro (hanswers | ⟨hnot, before, found, after, rfl, hearlier, hanswers⟩)
    · exact ⟨[], scope, scopes, rfl, by simp, hanswers⟩
    · exact ⟨scope :: before, found, after, rfl, forall_mem_cons.mpr ⟨hnot, hearlier⟩,
        hanswers⟩

theorem firstAnswer_cons_of_answers (h : t.Answers scope names other) :
    t.FirstAnswer (scope :: scopes) names symbol ↔ symbol = other := by
  rw [firstAnswer_cons]
  constructor
  · rintro (hanswers | ⟨hnot, -⟩)
    · exact hanswers.unique h
    · exact absurd h (hnot _)
  · rintro rfl
    exact .inl h

theorem firstAnswer_cons_of_not (h : ∀ x, ¬t.Answers scope names x) :
    t.FirstAnswer (scope :: scopes) names symbol ↔ t.FirstAnswer scopes names symbol := by
  simp [firstAnswer_cons, h]

theorem FirstAnswer.unique (h : t.FirstAnswer scopes names symbol)
    (h' : t.FirstAnswer scopes names other) : symbol = other := by
  induction scopes with
  | nil =>
    obtain ⟨scope, hmem, -⟩ := h.of_mem
    cases hmem
  | cons scope rest ih =>
    by_cases hanswers : ∃ x, t.Answers scope names x
    · obtain ⟨x, hx⟩ := hanswers
      exact ((firstAnswer_cons_of_answers hx).mp h).trans
        ((firstAnswer_cons_of_answers hx).mp h').symm
    · have hnot : ∀ x, ¬t.Answers scope names x := fun x hx => hanswers ⟨x, hx⟩
      exact ih ((firstAnswer_cons_of_not hnot).mp h) ((firstAnswer_cons_of_not hnot).mp h')

theorem FirstAnswer.append_right (h : t.FirstAnswer scopes names symbol) (more : List ScopeId) :
    t.FirstAnswer (scopes ++ more) names symbol := by
  obtain ⟨before, scope, after, rfl, hearlier, hanswers⟩ := h
  exact ⟨before, scope, after ++ more, by simp, hearlier, hanswers⟩

theorem FirstAnswer.append_left (h : t.FirstAnswer scopes names symbol) {earlier : List ScopeId}
    (hnone : ∀ scope ∈ earlier, ∀ x, ¬t.Answers scope names x) :
    t.FirstAnswer (earlier ++ scopes) names symbol := by
  obtain ⟨before, scope, after, rfl, hearlier, hanswers⟩ := h
  refine ⟨earlier ++ before, scope, after, by simp, fun id hid => ?_, hanswers⟩
  cases mem_append.mp hid with
  | inl hid => exact hnone id hid
  | inr hid => exact hearlier id hid

end ScopeTree

/-! ## The scopes that are searched -/

namespace Session

variable (s : Session) (e : EngineId)

/-- The scopes imported into the file that an engine is in. -/
def imported : List ScopeId := ((s.engine e).files.head?.bind s.imports.get?).getD []

/-- The scopes in which an engine looks for names, in order. -/
def searched : List ScopeId := (s.engine e).scopes ++ s.imported e

theorem pathText_plain {path : Path} (hplain : ∀ segment ∈ path, segment.isTemplated = false) :
    s.pathText path = String.intercalate "." (path.map Segment.name) := by
  rw [pathText]
  congr 1
  apply map_congr_left
  intro segment hsegment
  rw [segmentText, hplain segment hsegment]
  rfl

end Session

theorem EngineId.importScope_eq_ok {e : EngineId} {path : Path} {s s' : Session}
    (h : e.importScope path s = .ok () s') :
    ∃ scope, s.tree.subScopeAt? ScopeTree.root (path.map Segment.name) = some scope ∧
      s'.searched e = s.searched e ++ if scope ∈ s.imported e then [] else [scope] := by
  unfold importScope at h
  obtain ⟨_, s1, hpass, h1⟩ := bind_eq_ok.mp h
  obtain ⟨-, rfl⟩ := forbidPass_eq_ok.mp hpass
  rw [state_bind] at h1
  cases hfiles : (s1.engine e).files with
  | nil =>
    rw [hfiles] at h1
    cases h1
  | cons file files =>
    have himported : s1.imported e = (s1.imports.get? file).getD [] := by
      rw [Session.imported, hfiles]
      rfl
    rw [hfiles] at h1
    dsimp only at h1
    rw [get_bind, ← himported] at h1
    cases hscope : s1.tree.subScopeAt? ScopeTree.root (path.map Segment.name) with
    | none =>
      rw [hscope] at h1
      cases h1
    | some scope =>
      rw [hscope] at h1
      refine ⟨scope, rfl, ?_⟩
      by_cases hknown : scope ∈ s1.imported e
      · have hcontains : (!(s1.imported e).contains scope) = false := by simp [hknown]
        simp only [hcontains, Bool.false_eq_true, ↓reduceIte] at h1
        obtain ⟨-, rfl⟩ := pure_eq_ok.mp h1
        rw [if_pos hknown, append_nil]
      · have hcontains : (!(s1.imported e).contains scope) = true := by simp [hknown]
        simp only [hcontains, ↓reduceIte] at h1
        obtain rfl := modify_eq_ok.mp h1
        rw [if_neg hknown, Session.searched, Session.searched, append_assoc]
        congr 1
        show ((s1.engine e).files.head?.bind _).getD [] = _
        rw [hfiles]
        simp

/-! ## Looking up plain paths -/

namespace Runner

variable (r : Runner) {s : Session} {path : Path} {scope : ScopeId}

theorem findFrom?_singleton {first : Segment} (hfirst : first.isTemplated = false) :
    r.findFrom? scope [first] s = .ok ((s.tree.member? scope first.name).map s.settled) s := by
  unfold findFrom?
  simp only [hfirst, isEmpty_nil, Bool.not_false, Bool.and_self, Bool.false_eq_true,
    ↓reduceIte, ite_self]
  rfl

theorem findFrom?_cons {first : Segment} {rest : Path} (hfirst : first.isTemplated = false)
    (hrest : rest ≠ []) :
    r.findFrom? scope (first :: rest) s =
      if s.tree.isLocal scope then .ok none s
      else (s.tree.subScope? scope first.name).elim (.ok none s) fun next =>
        r.findFrom? next rest s := by
  have hempty : rest.isEmpty = false := by simpa using hrest
  rw [findFrom?]
  simp only [hfirst, hempty, Bool.false_and, Bool.false_eq_true, ↓reduceIte]
  rw [get_bind]
  by_cases hlocal : s.tree.isLocal scope = true
  · rw [if_pos hlocal, if_pos hlocal]
    rfl
  · rw [if_neg hlocal, if_neg hlocal, get_bind]
    cases s.tree.subScope? scope first.name with
    | none => rfl
    | some next => rfl

section

variable (hplain : ∀ segment ∈ path, segment.isTemplated = false)
include hplain

/-- From one scope, what the scope answers. -/
theorem findFrom?_plain (scope : ScopeId) :
    (∃ found, s.tree.Answers scope (path.map Segment.name) found ∧
        r.findFrom? scope path s = .ok (some (s.settled found)) s) ∨
      (∀ x, ¬s.tree.Answers scope (path.map Segment.name) x) ∧
        r.findFrom? scope path s = .ok none s := by
  induction path generalizing scope with
  | nil => exact .inr ⟨fun _ => not_answers_nil, rfl⟩
  | cons first rest ih =>
    have hfirst : first.isTemplated = false := hplain first mem_cons_self
    have ih := ih fun segment hsegment => hplain segment (mem_cons_of_mem _ hsegment)
    by_cases hrest : rest = []
    · rw [hrest, r.findFrom?_singleton hfirst, map_singleton]
      simp only [answers_singleton]
      cases s.tree.member? scope first.name with
      | some found => exact .inl ⟨found, rfl, rfl⟩
      | none => exact .inr ⟨fun x hx => (by cases hx), rfl⟩
    · have hnames : rest.map Segment.name ≠ [] := by simpa using hrest
      rw [r.findFrom?_cons hfirst hrest, map_cons]
      simp only [answers_cons hnames]
      by_cases hlocal : s.tree.isLocal scope = true
      -- a scope of a function leads nowhere
      · rw [if_pos hlocal]
        exact .inr ⟨fun x hx => by simp [hlocal] at hx, rfl⟩
      · rw [if_neg hlocal]
        have hglobal : s.tree.isLocal scope = false := by simpa using hlocal
        cases hnext : s.tree.subScope? scope first.name with
        | none => exact .inr ⟨fun x hx => by simp at hx, rfl⟩
        | some next =>
          cases ih next with
          | inl hfound =>
            obtain ⟨found, hanswers, hfind⟩ := hfound
            exact .inl ⟨found, ⟨hglobal, next, rfl, hanswers⟩, hfind⟩
          | inr hnone =>
            refine .inr ⟨fun x hx => ?_, hnone.2⟩
            obtain ⟨-, next', hnext', hanswers⟩ := hx
            cases hnext'
            exact hnone.1 x hanswers

theorem findFirst?_plain (scopes : List ScopeId) :
    (∃ found, s.tree.FirstAnswer scopes (path.map Segment.name) found ∧
        r.findFirst? path scopes s = .ok (some (s.settled found)) s) ∨
      (∀ scope ∈ scopes, ∀ x, ¬s.tree.Answers scope (path.map Segment.name) x) ∧
        r.findFirst? path scopes s = .ok none s := by
  induction scopes with
  | nil => exact .inr ⟨by simp, rfl⟩
  | cons scope rest ih =>
    rw [findFirst?]
    cases r.findFrom?_plain (s := s) hplain scope with
    | inl hhere =>
      obtain ⟨found, hanswers, hfind⟩ := hhere
      refine .inl ⟨found, (firstAnswer_cons_of_answers hanswers).mpr rfl, ?_⟩
      exact bind_eq_ok.mpr ⟨_, s, hfind, rfl⟩
    | inr hhere =>
      obtain ⟨hnone, hfind⟩ := hhere
      cases ih with
      | inl hrest =>
        obtain ⟨found, hfirst, hrun⟩ := hrest
        refine .inl ⟨found, (firstAnswer_cons_of_not hnone).mpr hfirst, ?_⟩
        exact bind_eq_ok.mpr ⟨_, s, hfind, hrun⟩
      | inr hrest =>
        refine .inr ⟨fun id hid => ?_, bind_eq_ok.mpr ⟨_, s, hfind, hrest.2⟩⟩
        cases hid with
        | head => exact hnone
        | tail _ hid => exact hrest.1 id hid

theorem find?_plain :
    (∃ found, s.tree.FirstAnswer (s.searched r.engine) (path.map Segment.name) found ∧
        r.find? path s = .ok (some (s.settled found)) s) ∨
      (∀ scope ∈ s.searched r.engine, ∀ x, ¬s.tree.Answers scope (path.map Segment.name) x) ∧
        r.find? path s = .ok none s := by
  rw [find?, EngineId.state_bind]
  cases r.findFirst?_plain (s := s) hplain (s.engine r.engine).scopes with
  | inl hopen =>
    obtain ⟨found, hfirst, hfind⟩ := hopen
    exact .inl ⟨found, hfirst.append_right _, bind_eq_ok.mpr ⟨_, s, hfind, rfl⟩⟩
  | inr hopen =>
    obtain ⟨hnone, hfind⟩ := hopen
    cases r.findFirst?_plain (s := s) hplain (s.imported r.engine) with
    | inl himported =>
      obtain ⟨found, hfirst, hrun⟩ := himported
      exact .inl ⟨found, hfirst.append_left hnone, bind_eq_ok.mpr ⟨_, s, hfind, hrun⟩⟩
    | inr himported =>
      refine .inr ⟨fun scope hscope => ?_, bind_eq_ok.mpr ⟨_, s, hfind, himported.2⟩⟩
      cases mem_append.mp hscope with
      | inl hscope => exact hnone scope hscope
      | inr hscope => exact himported.1 scope hscope

end

end Runner

/-- Looking up a plain path after the first pass changes nothing. If a scope among those that are
    searched answers the path, the result is what the first of them designates by it, or what that
    has settled to. If there is none the path is undefined. Scopes are imported to the end of those
    that are searched. -/
theorem find_plain (r : Runner) (s : Session) {path : Path}
    (hplain : ∀ segment ∈ path, segment.isTemplated = false)
    (hpass : (s.engine r.engine).currentPass ≠ .declare) :
    (∀ symbol s', r.find path s = .ok symbol s' ↔ s' = s ∧
      ∃ before scope after found, s.searched r.engine = before ++ scope :: after ∧
        (∀ earlier ∈ before, ∀ x, ¬s.tree.Answers earlier (path.map Segment.name) x) ∧
        s.tree.Answers scope (path.map Segment.name) found ∧ symbol = s.settled found) ∧
    (∀ fault s', r.find path s = .error fault s' ↔ s' = s ∧
      fault = .error (.undefinedSymbol (String.intercalate "." (path.map Segment.name))) ∧
      ∀ scope ∈ s.searched r.engine, ∀ x, ¬s.tree.Answers scope (path.map Segment.name) x) ∧
    (∀ target s', r.engine.importScope target s = .ok () s' →
      ∃ scope, s.tree.subScopeAt? ScopeTree.root (target.map Segment.name) = some scope ∧
        s'.searched r.engine = s.searched r.engine ++
          if scope ∈ s.imported r.engine then [] else [scope]) := by
  have hguard : ∀ operation, r.engine.forbidPass .declare operation s = .ok ⟨⟩ s :=
    fun operation => EngineId.forbidPass_eq_ok.mpr ⟨hpass, rfl⟩
  cases r.find?_plain (s := s) hplain with
  | inl hfound =>
    obtain ⟨found, hfirst, hfind⟩ := hfound
    have hok : r.find path s = .ok (s.settled found) s := by
      rw [Runner.find, get_bind, bind_of_ok (hguard _), bind_of_ok hfind]
      rfl
    rw [hok]
    refine ⟨fun symbol s' => ⟨fun h => ?_, fun h => ?_⟩, fun fault s' => ⟨fun h => ?_, fun h => ?_⟩,
      fun target s' => EngineId.importScope_eq_ok⟩
    · cases h
      obtain ⟨before, scope, after, hsplit, hearlier, hanswers⟩ := hfirst
      exact ⟨rfl, before, scope, after, found, hsplit, hearlier, hanswers, rfl⟩
    · obtain ⟨rfl, before, scope, after, other, hsplit, hearlier, hanswers, rfl⟩ := h
      rw [hfirst.unique ⟨before, scope, after, hsplit, hearlier, hanswers⟩]
    · cases h
    · obtain ⟨scope, hscope, hanswers⟩ := hfirst.of_mem
      exact absurd hanswers (h.2.2 scope hscope found)
  | inr hnone =>
    obtain ⟨hnone, hfind⟩ := hnone
    have herror : r.find path s = .error (.error (.undefinedSymbol
        (String.intercalate "." (path.map Segment.name)))) s := by
      rw [Runner.find, get_bind, bind_of_ok (hguard _), bind_of_ok hfind]
      dsimp only
      rw [get_bind, s.pathText_plain hplain]
      rfl
    rw [herror]
    refine ⟨fun symbol s' => ⟨fun h => ?_, fun h => ?_⟩, fun fault s' => ⟨fun h => ?_, fun h => ?_⟩,
      fun target s' => EngineId.importScope_eq_ok⟩
    · cases h
    · obtain ⟨-, before, scope, after, found, hsplit, -, hanswers, -⟩ := h
      exact absurd hanswers (hnone scope (by simp [hsplit]) found)
    · cases h
      exact ⟨rfl, rfl, hnone⟩
    · obtain ⟨rfl, rfl, -⟩ := h
      rfl

def Path.ofNames (names : List String) : Path := names.map fun name => { name }

def shadowingProgram : Program :=
  [.enterFile "main", .enterGlobal (.ofNames ["a"]), .constant "x" "1", .exitGlobal,
    .enterGlobal (.ofNames ["lib"]), .constant "x" "2", .exitGlobal,
    .enterGlobal (.ofNames ["outer"]), .enterGlobal (.ofNames ["a"]), .constant "y" "3",
    .exitGlobal, .prologue "f" [], .epilogue, .exitGlobal, .exitFile]

/-- The function inside `outer` was entered, with `lib` imported. -/
def shadowingSession : Session :=
  leaves (do
      EngineId.enterFile ⟨0⟩ "main"
      EngineId.importScope ⟨0⟩ (.ofNames ["lib"])
      EngineId.enterGlobal ⟨0⟩ (.ofNames ["outer"])
      EngineId.enterLocal ⟨0⟩ "f")
    (leaves ((EngineId.runner ⟨0⟩ 0).compile shadowingProgram .declare)
      (leaves (startEngine defaultSections) {}))

theorem find_plain_shadowing :
    (∀ segment ∈ Path.ofNames ["a", "x"], segment.isTemplated = false) ∧
    (shadowingSession.engine ⟨0⟩).currentPass ≠ .declare ∧
    shadowingSession.searched ⟨0⟩ = [⟨5⟩, ⟨3⟩] ++ ScopeTree.root :: [⟨2⟩] ∧
    (EngineId.runner ⟨0⟩ 0).find (.ofNames ["a", "x"]) shadowingSession =
      .ok (.constant "1" none) shadowingSession := by
  have hplain : ∀ segment ∈ Path.ofNames ["a", "x"], segment.isTemplated = false := by decide
  have hpass : (shadowingSession.engine ⟨0⟩).currentPass ≠ .declare := by decide +kernel
  have hsearched : shadowingSession.searched ⟨0⟩ = [⟨5⟩, ⟨3⟩] ++ ScopeTree.root :: [⟨2⟩] := by
    decide +kernel
  have hx : ["x"] ≠ [] := by decide
  have hlocal : shadowingSession.tree.isLocal ⟨5⟩ = true := by decide +kernel
  have hinner : shadowingSession.tree.subScope? ⟨3⟩ "a" = some ⟨4⟩ := by decide +kernel
  have hnone : shadowingSession.tree.member? ⟨4⟩ "x" = none := by decide +kernel
  refine ⟨hplain, hpass, hsearched,
    ((find_plain (EngineId.runner ⟨0⟩ 0) shadowingSession hplain hpass).1 _ _).mpr
      ⟨rfl, _, _, _, .constant "1" none, hsearched, fun earlier hearlier x hanswers => ?_, ?_, rfl⟩⟩
  · obtain ⟨hglobal, next, hnext, hanswers⟩ := (ScopeTree.answers_cons hx).mp hanswers
    have hmember := ScopeTree.answers_singleton.mp hanswers
    cases hearlier with
    | head =>
      rw [hlocal] at hglobal
      cases hglobal
    -- `outer` has a scope `a` of its own, but that has no member `x`
    | tail _ hearlier =>
      cases List.mem_singleton.mp hearlier
      cases hnext.symm.trans hinner
      rw [hnone] at hmember
      cases hmember
  · refine (ScopeTree.answers_cons hx).mpr ⟨by decide +kernel, ⟨1⟩, by decide +kernel, ?_⟩
    exact ScopeTree.answers_singleton.mpr (by decide +kernel)

end StagedAsm
