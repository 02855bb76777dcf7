import StagedAsm.Proofs.EmittedLines

/-!
# Structured code is compiled to jumps that do the same

Constructs remember their labels in the scope they stand in, all under the same few keys. In the
last pass each finds its own label again: what stands between is in a block of its own, or uses
another key. So the program section holds the lines the code becomes.
-/

namespace StagedAsm

open EngineId Runner ScopeTree Session

/-! ## Writing lines and labels -/

namespace EngineId

variable {e : EngineId} {id : ScopeId} {n : Nat} {x : Blocks} {s : Session}

theorem emitText_eq_ok (text : String)
    (h : ((s.engine e).sections.any fun entry => entry.1 == programSection) = true) :
    e.emitText text programSection s = .ok () (s.writing e [text] 0 s.tree) := by
  have hrequire : e.requireSection programSection s = .ok () s := by
    unfold requireSection
    rw [state_bind, h]
    rfl
  have hpin : s.pinAliases (Line.ofText text) = Line.ofText text := rfl
  have hfault : ofFault (s.renderLine (s.pinAliases (Line.ofText text))) s = .ok (some text) s := by
    rw [hpin, s.renderLine_ofText]
    rfl
  refine bind_eq_ok.mpr ⟨(), s, hrequire, ?_⟩
  refine bind_eq_ok.mpr ⟨s, s, rfl, ?_⟩
  exact bind_eq_ok.mpr ⟨some text, s, hfault, rfl⟩

theorem currentPath_eq (h : ∀ other, (s.tree.scope other).name = none) :
    e.currentPath s = .ok [] s := by
  have hlineage : ∀ id, s.tree.lineageNames id = [] := by
    intro id
    simp [lineageNames, h]
  have hnames : ∀ scopes, pathNames s.tree scopes = [] := by
    intro scopes
    induction scopes with
    | nil => rfl
    | cons scope rest ih => simp [pathNames, hlineage, ih]
  show EStateM.Result.ok (pathNames s.tree (s.engine e).scopes).reverse s = _
  rw [hnames]
  rfl

theorem rememberLabel_eq_ok (hs : s.Stands e id n x) (key : String) :
    e.rememberLabel key s = .ok (controlLabel s.nextUid key) { s with
        nextUid := s.nextUid + 1
        tree := s.tree.remember id key (controlLabel s.nextUid key) } := by
  have hpath := currentPath_eq (e := e) (s := { s with nextUid := s.nextUid + 1 }) hs.unnamed
  have hlabel : e.label key s =
      .ok (controlLabel s.nextUid key) { s with nextUid := s.nextUid + 1 } := by
    refine bind_eq_ok.mpr ⟨_, _, rfl, ?_⟩
    exact bind_eq_ok.mpr ⟨_, _, hpath, rfl⟩
  refine bind_eq_ok.mpr ⟨_, _, hlabel, ?_⟩
  refine bind_eq_ok.mpr ⟨(), _, ?_, rfl⟩
  unfold setNote
  rw [currentScope_bind]
  have hscope : (({ s with nextUid := s.nextUid + 1 } : Session).engine e).currentScope = id :=
    hs.currentScope
  rw [hscope]
  rfl

theorem recallLabel_eq_ok (hs : s.Stands e id n x) {key label : String}
    (h : (s.tree.scope id).notes.get? key = some label) : e.recallLabel key s = .ok label s := by
  refine bind_eq_ok.mpr ⟨some label, s, ?_, rfl⟩
  show EStateM.Result.ok ((s.tree.scope (s.engine e).currentScope).notes.get? key) s = _
  rw [hs.currentScope, h]

end EngineId

namespace Runner

variable {r : Runner} {id : ScopeId} {n : Nat} {x : Blocks} {s : Session}

theorem generate_jumpToNew (hs : s.Stands r.engine id n x) (code key : String) :
    r.runAction .generate (.jumpToNew ("j" ++ code) key) s =
      .ok () (s.writing r.engine [jumpLine code (controlLabel s.nextUid key)] 1
        (s.tree.remember id key (controlLabel s.nextUid key))) :=
  bind_eq_ok.mpr ⟨_, _, rememberLabel_eq_ok hs key, emitText_eq_ok _ hs.output⟩

theorem generate_placeNew (hs : s.Stands r.engine id n x) (key : String) :
    r.runAction .generate (.placeNew key) s =
      .ok () (s.writing r.engine [labelLine (controlLabel s.nextUid key)] 1
        (s.tree.remember id key (controlLabel s.nextUid key))) :=
  bind_eq_ok.mpr ⟨_, _, rememberLabel_eq_ok hs key, emitText_eq_ok _ hs.output⟩

variable {key label : String}

theorem generate_jumpToKnown (hs : s.Stands r.engine id n x) (code : String)
    (h : (s.tree.scope id).notes.get? key = some label) :
    r.runAction .generate (.jumpToKnown ("j" ++ code) key) s =
      .ok () (s.writing r.engine [jumpLine code label] 0 s.tree) :=
  bind_eq_ok.mpr ⟨_, _, recallLabel_eq_ok hs h, emitText_eq_ok _ hs.output⟩

theorem generate_placeKnown (hs : s.Stands r.engine id n x)
    (h : (s.tree.scope id).notes.get? key = some label) :
    r.runAction .generate (.placeKnown key) s =
      .ok () (s.writing r.engine [labelLine label] 0 s.tree) :=
  bind_eq_ok.mpr ⟨_, _, recallLabel_eq_ok hs h, emitText_eq_ok _ hs.output⟩

theorem generate_startOtherwise (hs : s.Stands r.engine id n x)
    (h : (s.tree.scope id).notes.get? "end_of_if" = some label) :
    r.runAction .generate .startOtherwise s = .ok () (s.writing r.engine
        [jumpLine "mp" (controlLabel s.nextUid "end_of_else"), labelLine label] 1
        (s.tree.remember id "end_of_else" (controlLabel s.nextUid "end_of_else"))) := by
  have hvisits := visits_remember hs.inside "end_of_else" (controlLabel s.nextUid "end_of_else")
  have hnext := hs.next hvisits [jumpLine "mp" (controlLabel s.nextUid "end_of_else")] 1
  have hlabel := hvisits.notes (show "end_of_if" ≠ "end_of_else" by decide)
  rw [h] at hlabel
  have hplace := generate_placeKnown hnext hlabel
  rw [writing_writing] at hplace
  refine bind_eq_ok.mpr ⟨_, _, rememberLabel_eq_ok hs "end_of_else", ?_⟩
  exact bind_eq_ok.mpr ⟨_, _, emitText_eq_ok _ hs.output, hplace⟩

end Runner

/-! ## Constructs -/

namespace Replays

variable {r : Runner} {kept : String → Prop} {p q q' : Program} {f g h : Fragment}
  {x y z : Blocks}

theorem instruction (line : String) :
    Replays r .generate kept [.emitText line programSection] (.instruction line) .none := by
  intro s id n hs
  refine ⟨s.tree, ?_, .refl⟩
  exact runActions_singleton_of_ok (emitText_eq_ok line hs.output)

theorem remembered {a : Action} {s : Session} {id : ScopeId} {n : Nat} {lines : List String}
    {key : String} (hs : s.Stands r.engine id n (y.append z))
    (hq : Replays r .generate kept q g y)
    (ha : r.runAction .generate a s = .ok () (s.writing r.engine lines 1
      (s.tree.remember id key (controlLabel s.nextUid key)))) (hkey : kept key) :
    ∃ s' t, r.runActions .generate (a :: q) s = .ok () s' ∧
      s' = s.writing r.engine (lines ++ g.lines (s.nextUid + 1)) (1 + g.labels) t ∧
      s'.Stands r.engine id (n + y.size) z ∧
      s.tree.Visits (fun k => kept k ∧ k ≠ key) id y.length t ∧
      (t.scope id).notes.get? key = some (controlLabel s.nextUid key) := by
  have hremember := visits_remember hs.inside key (controlLabel s.nextUid key)
  obtain ⟨t, hrun, hvisits⟩ := hq _ id _ (hs.next hremember lines 1).left
  rw [writing_writing] at hrun
  have hfirst : s.tree.Visits (fun k => kept k ∧ k ≠ key) id 0 _ := hremember.mono fun _ hk => hk.2
  have hboth := hfirst.trans (hvisits.mono fun _ hk => hk.1)
  rw [zero_add] at hboth
  exact ⟨_, t, runActions_cons_of_ok ha hrun, rfl, hs.right hboth _ _, hboth,
    (hvisits.notes hkey).trans (notes_remember hs.inside key _)⟩

theorem guarded (key code : String) (hp : Replays r .generate kept p f x)
    (hq : Replays r .generate (fun _ => True) q g y) :
    Replays r .generate (fun k => kept k ∧ k ≠ key)
      (p ++ .jumpToNew ("j" ++ invertCondition code) key :: q ++ [.placeKnown key])
      (.guarded key code f g) (x.append y) := by
  intro s id n hs
  obtain ⟨t1, hcondition, hvisits1⟩ := hp s id n hs.left
  have hs1 := hs.right hvisits1 (f.lines s.nextUid) f.labels
  rw [← Blocks.append_none y] at hs1
  obtain ⟨s2, t2, hbody, rfl, hs2, hvisits2, hnote⟩ :=
    remembered hs1 hq (generate_jumpToNew hs1 (invertCondition code) key) trivial
  have hrun := runActions_append_of_ok (runActions_append_of_ok hcondition hbody)
    (runActions_singleton_of_ok (generate_placeKnown hs2 hnote))
  refine ⟨t2, ?_, ?_⟩
  · rw [hrun]
    simp [writing_writing, nextUid_writing, tree_writing, Fragment.guarded]
  · rw [Blocks.length_append]
    have hfirst : s.tree.Visits (fun k => kept k ∧ k ≠ key) id x.length t1 :=
      hvisits1.mono fun _ hk => hk.1
    exact hfirst.trans (hvisits2.mono fun _ hk => ⟨trivial, hk.2⟩)

theorem ifElse (code : String) (hp : Replays r .generate kept p f x)
    (hq : Replays r .generate (fun _ => True) q g y)
    (hq' : Replays r .generate (fun _ => True) q' h z) :
    Replays r .generate (fun k => kept k ∧ k ≠ "end_of_if" ∧ k ≠ "end_of_else")
      (p ++ .jumpToNew ("j" ++ invertCondition code) "end_of_if" :: q ++ .startOtherwise :: q' ++
        [.placeKnown "end_of_else"])
      (.ifElse code f g h) (x.append (y.append z)) := by
  intro s id n hs
  obtain ⟨t1, hcondition, hvisits1⟩ := hp s id n hs.left
  have hs1 := hs.right hvisits1 (f.lines s.nextUid) f.labels
  obtain ⟨s2, t2, hbody, rfl, hs2, hvisits2, hnote⟩ :=
    remembered hs1 hq (generate_jumpToNew hs1 (invertCondition code) "end_of_if") trivial
  rw [← Blocks.append_none z] at hs2
  obtain ⟨s3, t3, hotherwise, rfl, hs3, hvisits3, hnote'⟩ :=
    remembered hs2 hq' (generate_startOtherwise hs2 hnote) trivial
  have hrun := runActions_append_of_ok
    (runActions_append_of_ok (runActions_append_of_ok hcondition hbody) hotherwise)
    (runActions_singleton_of_ok (generate_placeKnown hs3 hnote'))
  refine ⟨t3, ?_, ?_⟩
  · rw [hrun]
    simp [writing_writing, nextUid_writing, tree_writing, Fragment.ifElse, add_assoc]
  · rw [Blocks.length_append, Blocks.length_append, ← add_assoc]
    have hbranch : s.tree.Visits (fun k => kept k ∧ k ≠ "end_of_if" ∧ k ≠ "end_of_else") id
        (x.length + y.length) t2 :=
      (hvisits1.mono fun _ hk => hk.1).trans (hvisits2.mono fun _ hk => ⟨trivial, hk.2.1⟩)
    exact hbranch.trans (hvisits3.mono fun _ hk => ⟨trivial, hk.2.2⟩)

theorem rounds (code : String) (hp : Replays r .generate kept p f x)
    (hstart : kept "start_of_loop") :
    Replays r .generate (fun k => kept k ∧ k ≠ "start_of_loop")
      (.placeNew "start_of_loop" :: p ++ [.jumpToKnown ("j" ++ code) "start_of_loop"])
      (.rounds code f) x := by
  intro s id n hs
  rw [← Blocks.append_none x] at hs
  obtain ⟨s1, t, hround, rfl, hs1, hvisits, hnote⟩ :=
    remembered hs hp (generate_placeNew hs "start_of_loop") hstart
  have hjump := generate_jumpToKnown hs1 code hnote
  refine ⟨t, ?_, hvisits⟩
  rw [runActions_append_of_ok hround (runActions_singleton_of_ok hjump)]
  simp [writing_writing, tree_writing, Fragment.rounds]

end Replays

/-! ## Code -/

namespace Blocks

def doLoop (start body advance condition : Blocks) : Blocks :=
  .next (start.append (body.append (advance.append condition))) .none

/-- A loop with its condition in front is a loop inside. -/
def forLoop (start condition advance body : Blocks) : Blocks :=
  .next (start.append (condition.append (doLoop .none body advance condition))) .none

end Blocks

namespace Code

/-- The actions of code. -/
def program : Code → Program
  | done => []
  | instruction line next => .emitText line programSection :: next.program
  | ifThen code condition body next =>
    Program.ifThen code condition.program body.program ++ next.program
  | ifElse code condition body otherwise next =>
    Program.ifElse code condition.program body.program otherwise.program ++ next.program
  | whileLoop code condition body next =>
    Program.whileLoop code condition.program body.program ++ next.program
  | forLoop start code condition advance body next =>
    Program.forLoop start.program code condition.program advance.program body.program ++
      next.program
  | doLoop start body advance code condition next =>
    Program.doLoop start.program body.program advance.program code condition.program ++
      next.program

/-- The blocks of code. -/
def blocks : Code → Blocks
  | done => .none
  | instruction _ next => next.blocks
  | ifThen _ condition body next =>
    (condition.blocks.append (.next body.blocks .none)).append next.blocks
  | ifElse _ condition body otherwise next =>
    (condition.blocks.append ((Blocks.next body.blocks .none).append
      (.next otherwise.blocks .none))).append next.blocks
  | whileLoop _ condition body next =>
    (Blocks.forLoop .none condition.blocks .none body.blocks).append next.blocks
  | forLoop start _ condition advance body next =>
    (Blocks.forLoop start.blocks condition.blocks advance.blocks body.blocks).append next.blocks
  | doLoop start body advance _ condition next =>
    (Blocks.doLoop start.blocks body.blocks advance.blocks condition.blocks).append next.blocks

theorem buildProgram_statements (c : Code) (s : Session) :
    buildProgram c.statements s = .ok c.program s := by
  induction c with
  | done => rw [statements, buildProgram]; rfl
  | instruction line next ih =>
    rw [statements, buildProgram, buildStatement]
    exact bind_eq_ok.mpr ⟨_, s, rfl, bind_eq_ok.mpr ⟨_, s, ih, rfl⟩⟩
  | ifThen _ _ _ _ ihc ihb ih | whileLoop _ _ _ _ ihc ihb ih =>
    rw [statements, buildProgram, buildStatement]
    refine bind_eq_ok.mpr ⟨_, s, ?_, bind_eq_ok.mpr ⟨_, s, ih, rfl⟩⟩
    exact bind_eq_ok.mpr ⟨_, s, ihc, bind_eq_ok.mpr ⟨_, s, ihb, rfl⟩⟩
  | ifElse code condition body otherwise next ihc ihb iho ih =>
    rw [statements, buildProgram, buildStatement]
    refine bind_eq_ok.mpr ⟨_, s, ?_, bind_eq_ok.mpr ⟨_, s, ih, rfl⟩⟩
    exact bind_eq_ok.mpr ⟨_, s, ihc, bind_eq_ok.mpr ⟨_, s, ihb, bind_eq_ok.mpr ⟨_, s, iho, rfl⟩⟩⟩
  | forLoop start code condition advance body next ihs ihc iha ihb ih =>
    rw [statements, buildProgram, buildStatement]
    refine bind_eq_ok.mpr ⟨_, s, ?_, bind_eq_ok.mpr ⟨_, s, ih, rfl⟩⟩
    exact bind_eq_ok.mpr ⟨_, s, ihs, bind_eq_ok.mpr ⟨_, s, ihc,
      bind_eq_ok.mpr ⟨_, s, iha, bind_eq_ok.mpr ⟨_, s, ihb, rfl⟩⟩⟩⟩
  | doLoop start body advance code condition next ihs ihb iha ihc ih =>
    rw [statements, buildProgram, buildStatement]
    refine bind_eq_ok.mpr ⟨_, s, ?_, bind_eq_ok.mpr ⟨_, s, ih, rfl⟩⟩
    exact bind_eq_ok.mpr ⟨_, s, ihs, bind_eq_ok.mpr ⟨_, s, ihb,
      bind_eq_ok.mpr ⟨_, s, iha, bind_eq_ok.mpr ⟨_, s, ihc, rfl⟩⟩⟩⟩

theorem program_doLoop (start body advance : Program) (code : String) (condition : Program) :
    Program.doLoop start body advance code condition =
      Program.inBlock (start ++ (.placeNew "start_of_loop" :: (body ++ (advance ++ condition)) ++
        [.jumpToKnown ("j" ++ code) "start_of_loop"])) := by
  simp [Program.doLoop]

theorem program_forLoop (start : Program) (code : String) (condition advance body : Program) :
    Program.forLoop start code condition advance body = Program.inBlock (start ++ (condition ++
        .jumpToNew ("j" ++ invertCondition code) "end_of_loop" ::
          Program.doLoop [] body advance code condition ++ [.placeKnown "end_of_loop"])) := by
  simp [Program.forLoop]

section Opens

variable {p q b a c : Program} {x y z w : Blocks}

theorem opens_guarded (mnemonic key : String) (hp : Opens p x) (hq : Opens q y) :
    Opens (p ++ .jumpToNew mnemonic key :: q ++ [.placeKnown key]) (x.append y) := by
  have h := (hp.append (.writes (.jumpToNew mnemonic key) hq)).append
    (.writes (.placeKnown key) .nil)
  rwa [Blocks.append_none] at h

theorem opens_doLoop (code : String) (hs : Opens p x) (hb : Opens b y) (ha : Opens a z)
    (hc : Opens c w) : Opens (Program.doLoop p b a code c) (Blocks.doLoop x y z w) := by
  have h := (Opens.writes (.placeNew "start_of_loop") (hb.append (ha.append hc))).append
    (.writes (.jumpToKnown ("j" ++ code) "start_of_loop") .nil)
  rw [Blocks.append_none] at h
  rw [program_doLoop]
  exact (hs.append h).inBlock

theorem opens_forLoop (code : String) (hs : Opens p x) (hc : Opens c w) (ha : Opens a z)
    (hb : Opens b y) : Opens (Program.forLoop p code c a b) (Blocks.forLoop x w z y) := by
  rw [program_forLoop]
  exact (hs.append (opens_guarded _ _ hc (opens_doLoop code .nil hb ha hc))).inBlock

end Opens

theorem opens_program (c : Code) : Opens c.program c.blocks := by
  induction c with
  | done => exact .nil
  | instruction line next ih => exact .writes (.emitText _ _) ih
  | ifThen code condition body next ihc ihb ih =>
    exact (opens_guarded _ _ ihc ihb.inBlock).append ih
  | ifElse code condition body otherwise next ihc ihb iho ih =>
    have h := ((ihc.append (.writes (.jumpToNew ("j" ++ invertCondition code) "end_of_if")
      ihb.inBlock)).append (.writes .startOtherwise iho.inBlock)).append
        (.writes (.placeKnown "end_of_else") .nil)
    rw [Blocks.append_none, Blocks.append_assoc] at h
    exact h.append ih
  | whileLoop code condition body next ihc ihb ih =>
    exact (opens_forLoop code .nil ihc .nil ihb).append ih
  | forLoop start code condition advance body next ihs ihc iha ihb ih =>
    exact (opens_forLoop code ihs ihc iha ihb).append ih
  | doLoop start body advance code condition next ihs ihb iha ihc ih =>
    exact (opens_doLoop code ihs ihb iha ihc).append ih

section Generates

variable {r : Runner} {p b a c : Program} {fs fb fa fc : Fragment} {x y z w : Blocks}

abbrev LoopKey (key : String) : Prop := key = "start_of_loop"

theorem generates_doLoop (code : String) (hs : Replays r .generate LoopKey p fs x)
    (hb : Replays r .generate LoopKey b fb y) (ha : Replays r .generate LoopKey a fa z)
    (hc : Replays r .generate LoopKey c fc w) :
    Replays r .generate (fun _ => True) (Program.doLoop p b a code c)
      (.doLoop fs fb fa code fc) (Blocks.doLoop x y z w) := by
  have hrounds := Replays.rounds code (hb.append (ha.append hc)) rfl
  -- nothing has to be kept in a block of its own
  have hall : Replays r .generate (fun _ => False) _ _ _ :=
    .append (hs.mono fun _ hkey => hkey.elim) (hrounds.mono fun _ hkey => hkey.elim)
  rw [program_doLoop]
  exact hall.inBlock

theorem generates_forLoop (code : String) (hs : Replays r .generate LoopKey p fs x)
    (hc : Replays r .generate LoopKey c fc w) (ha : Replays r .generate LoopKey a fa z)
    (hb : Replays r .generate LoopKey b fb y) :
    Replays r .generate (fun _ => True) (Program.forLoop p code c a b)
      (.forLoop fs code fc fa fb) (Blocks.forLoop x w z y) := by
  have hinner := generates_doLoop code .nil hb ha hc
  have hguarded := hc.guarded "end_of_loop" code hinner
  rw [program_forLoop]
  refine Replays.inBlock (hs.append (hguarded.mono fun key hkey => ⟨hkey, ?_⟩))
  rw [hkey]
  decide

end Generates

theorem generates (r : Runner) (c : Code) :
    Replays r .generate LoopKey c.program c.fragment c.blocks := by
  have hloop : ∀ {p : Program} {f : Fragment} {x : Blocks},
      Replays r .generate (fun _ => True) p f x → Replays r .generate LoopKey p f x :=
    fun h => h.mono fun _ _ => trivial
  induction c with
  | done => exact .nil
  | instruction line next ih => exact (Replays.instruction line).append ih
  | ifThen code condition body next ihc ihb ih =>
    refine Replays.append ((ihc.guarded "end_of_if" code ihb.inBlock).mono fun key hkey =>
      ⟨hkey, ?_⟩) ih
    rw [hkey]
    decide
  | ifElse code condition body otherwise next ihc ihb iho ih =>
    refine Replays.append ((ihc.ifElse code ihb.inBlock iho.inBlock).mono fun key hkey =>
      ⟨hkey, ?_, ?_⟩) ih
    all_goals
      rw [hkey]
      decide
  | whileLoop code condition body next ihc ihb ih =>
    exact (hloop (generates_forLoop code .nil ihc .nil ihb)).append ih
  | forLoop start code condition advance body next ihs ihc iha ihb ih =>
    exact (hloop (generates_forLoop code ihs ihc iha ihb)).append ih
  | doLoop start body advance code condition next ihs ihb iha ihc ih =>
    exact (hloop (generates_doLoop code ihs ihb iha ihc)).append ih

end Code

end StagedAsm
