import StagedAsm.Engine.Scopes

/-!
# Text as a program

Lines of text run as a program. A line that ends in a colon places a label. A line that starts with
a `j` and ends with a label of the program jumps there, always or if its condition code holds. Every
other line is an instruction, which is all that can be seen of a run.
-/

namespace StagedAsm

open List

/-! ## What can be seen of a run -/

structure Oracle where
  holds : List String → Nat → String → Bool
  inverts : ∀ ran asked code, holds ran asked (invertCondition code) = !holds ran asked code

/-- The past of a run. -/
structure Trace where
  ran : List String := []
  /-- How often the oracle was asked. -/
  asked : Nat := 0
  deriving DecidableEq, Repr

namespace Trace

def push (t : Trace) (line : String) : Trace := { t with ran := t.ran ++ [line] }

def ask (t : Trace) : Trace := { t with asked := t.asked + 1 }

end Trace

def Oracle.answer (o : Oracle) (t : Trace) (code : String) : Bool := o.holds t.ran t.asked code

theorem Oracle.answer_invert (o : Oracle) (t : Trace) (code : String) :
    o.answer t (invertCondition code) = !o.answer t code := o.inverts _ _ _

/-- How far a run has come. -/
structure Progress where
  ran : List String
  finished : Bool
  deriving DecidableEq, Repr

/-- A run that goes on may come from one point to the other. -/
def Progress.Within (p q : Progress) : Prop := p.ran <+: q.ran ∧ (p.finished = true → p = q)

/-! ## Lines -/

/-- The label that a line places. -/
def placedLabel? (line : String) : Option String :=
  match line.toList.reverse with
  | ':' :: label => some (String.ofList label.reverse)
  | _ => none

def jump? (line : String) : Option (String × String) :=
  match line.toList with
  | 'j' :: rest =>
    match rest.reverse.dropWhile (· ≠ ' ') with
    | _ :: code =>
      some (String.ofList code.reverse, String.ofList (rest.reverse.takeWhile (· ≠ ' ')).reverse)
    | [] => none
  | _ => none

/-- The lines behind the place of a label. -/
def after (label : String) : List String → Option (List String)
  | [] => none
  | line :: rest => if placedLabel? line = some label then some rest else after label rest

/-- Each line ends with a line break. -/
def textLines (text : String) : List String := (splitLines text.toList).map String.ofList
where
  splitLines : List Char → List (List Char)
    | [] => []
    | c :: cs =>
      if c = '\n' then [] :: splitLines cs
      else
        match splitLines cs with
        | [] => [[c]]
        | line :: rest => (c :: line) :: rest

/-! ## Runs -/

/-- The lines from where a run stands to the end of the program. -/
structure Machine where
  left : List String
  trace : Trace := {}
  deriving DecidableEq, Repr

namespace Machine

def step (o : Oracle) (program : List String) (m : Machine) : Machine :=
  match m.left with
  | [] => m
  | line :: rest =>
    if (placedLabel? line).isSome then { m with left := rest }
    else
      match (jump? line).bind fun jump => (after jump.2 program).map fun target => (jump.1, target)
        with
      | none => ⟨rest, m.trace.push line⟩
      | some (code, target) =>
        if code = "mp" then { m with left := target }
        else ⟨if o.answer m.trace code then target else rest, m.trace.ask⟩

/-- A number of steps. -/
def runFor (o : Oracle) (program : List String) : Nat → Machine → Machine
  | 0, m => m
  | n + 1, m => runFor o program n (m.step o program)

def progress (m : Machine) : Progress := ⟨m.trace.ran, m.left.isEmpty⟩

/-- How far a program comes in a number of steps. -/
def progressIn (o : Oracle) (program : List String) (steps : Nat) : Progress :=
  (runFor o program steps ⟨program, {}⟩).progress

variable {o : Oracle} {program : List String}

theorem runFor_add (n k : Nat) (m : Machine) :
    runFor o program (n + k) m = runFor o program k (runFor o program n m) := by
  induction n generalizing m with
  | zero => rw [Nat.zero_add]; rfl
  | succ n ih => rw [Nat.succ_add]; exact ih _

theorem runFor_end (n : Nat) (t : Trace) : runFor o program n ⟨[], t⟩ = ⟨[], t⟩ := by
  induction n with
  | zero => rfl
  | succ n ih => exact ih

theorem ran_prefix_step (m : Machine) : m.trace.ran <+: (m.step o program).trace.ran := by
  unfold step
  split
  · exact prefix_rfl
  · split
    · exact prefix_rfl
    · split
      · exact prefix_append _ _
      · split
        · exact prefix_rfl
        · exact prefix_rfl

theorem ran_prefix_runFor (n : Nat) (m : Machine) :
    m.trace.ran <+: (runFor o program n m).trace.ran := by
  induction n generalizing m with
  | zero => exact prefix_rfl
  | succ n ih => exact (ran_prefix_step m).trans (ih _)

theorem progress_of_ne_nil {left : List String} (h : left ≠ []) (t : Trace) :
    progress ⟨left, t⟩ = ⟨t.ran, false⟩ := by
  unfold progress
  rw [isEmpty_eq_false_iff.mpr h]

theorem progress_within (o : Oracle) (program : List String) (n : Nat) (m : Machine) :
    m.progress.Within (runFor o program n m).progress := by
  refine ⟨ran_prefix_runFor n m, fun hfinished => ?_⟩
  obtain ⟨left, t⟩ := m
  obtain rfl := isEmpty_iff.mp hfinished
  rw [runFor_end]

variable {line label : String} {rest target : List String} {t : Trace}

theorem step_label (h : placedLabel? line = some label) :
    step o program ⟨line :: rest, t⟩ = ⟨rest, t⟩ := by
  simp [step, h]

theorem step_instruction (hlabel : placedLabel? line = none)
    (hjump : ∀ code label, jump? line = some (code, label) → after label program = none) :
    step o program ⟨line :: rest, t⟩ = ⟨rest, t.push line⟩ := by
  have hnone : ((jump? line).bind fun jump =>
      (after jump.2 program).map fun target => (jump.1, target)) = none := by
    cases hline : jump? line with
    | none => rfl
    | some jump => simp [hjump jump.1 jump.2 hline]
  simp [step, hlabel, hnone]

theorem step_jump (hlabel : placedLabel? line = none) (hjump : jump? line = some ("mp", label))
    (htarget : after label program = some target) :
    step o program ⟨line :: rest, t⟩ = ⟨target, t⟩ := by
  simp [step, hlabel, hjump, htarget]

theorem step_branch {code : String} (hlabel : placedLabel? line = none)
    (hjump : jump? line = some (code, label)) (htarget : after label program = some target)
    (hcode : code ≠ "mp") :
    step o program ⟨line :: rest, t⟩ = ⟨if o.answer t code then target else rest, t.ask⟩ := by
  simp [step, hlabel, hjump, htarget, hcode]

end Machine

/-! ## Labels -/

variable {label line : String} {program rest : List String}

theorem mem_of_after (h : after label program = some rest) :
    label ∈ program.filterMap placedLabel? := by
  induction program with
  | nil => cases h
  | cons line program ih =>
    by_cases hline : placedLabel? line = some label
    · rw [filterMap_cons_some hline]
      exact mem_cons_self
    · rw [after, if_neg hline] at h
      have hmem := ih h
      rw [mem_filterMap] at hmem ⊢
      obtain ⟨other, hother, hlabel⟩ := hmem
      exact ⟨other, mem_cons_of_mem _ hother, hlabel⟩

theorem after_of_suffix (hunique : (program.filterMap placedLabel?).Nodup)
    (hline : placedLabel? line = some label) (h : line :: rest <:+ program) :
    after label program = some rest := by
  obtain ⟨before, rfl⟩ := h
  induction before with
  | nil => rw [nil_append, after, if_pos hline]
  | cons first before ih =>
    rw [cons_append] at hunique ⊢
    -- an earlier line that places the label would place it a second time
    have hother : placedLabel? first ≠ some label := by
      intro hfirst
      rw [filterMap_cons_some hfirst] at hunique
      apply (nodup_cons.mp hunique).1
      exact mem_filterMap.mpr ⟨line, by simp, hline⟩
    rw [after, if_neg hother]
    apply ih
    cases hfirst : placedLabel? first with
    | none => rwa [filterMap_cons_none hfirst] at hunique
    | some other =>
      rw [filterMap_cons_some hfirst] at hunique
      exact (nodup_cons.mp hunique).2

/-! ## How lines are read -/

theorem placedLabel?_append_colon (label : String) : placedLabel? (label ++ ":") = some label := by
  simp [placedLabel?, String.toList_append]

theorem placedLabel?_eq_none {front back : List Char} (h : line.toList = front ++ back)
    (hback : back ≠ []) (hcolon : ':' ∉ back) : placedLabel? line = none := by
  unfold placedLabel?
  rw [h, reverse_append]
  cases hrev : back.reverse with
  | nil => exact absurd (reverse_eq_nil_iff.mp hrev) hback
  | cons c rest =>
    have hc : c ≠ ':' := by
      rintro rfl
      apply hcolon
      rw [← mem_reverse, hrev]
      exact mem_cons_self
    simp [hc]

theorem jump?_of_target {code target : String} (h : ' ' ∉ target.toList) :
    jump? ("j" ++ code ++ " " ++ target) = some (code, target) := by
  have hchars : ("j" ++ code ++ " " ++ target).toList =
      'j' :: (code.toList ++ ' ' :: target.toList) := by
    simp [String.toList_append]
  have hall : ∀ c ∈ target.toList.reverse, (decide (c ≠ ' ')) = true := by
    intro c hc
    rw [decide_eq_true_eq]
    rintro rfl
    exact h (mem_reverse.mp hc)
  unfold jump?
  rw [hchars]
  simp only [reverse_append, reverse_cons, append_assoc, singleton_append]
  rw [dropWhile_append_of_pos hall, takeWhile_append_of_pos hall]
  simp

theorem textLines_linesText {lines : List String} (h : ∀ line ∈ lines, '\n' ∉ line.toList) :
    textLines (Section.linesText lines) = lines := by
  have hsplit : ∀ line rest : List Char, '\n' ∉ line →
      textLines.splitLines (line ++ '\n' :: rest) = line :: textLines.splitLines rest := by
    intro line rest hline
    induction line with
    | nil => simp [textLines.splitLines]
    | cons c line ih =>
      rw [mem_cons, not_or] at hline
      rw [cons_append, textLines.splitLines, if_neg (Ne.symm hline.1), ih hline.2]
  induction lines with
  | nil => rfl
  | cons line rest ih =>
    have hrest := ih fun other hother => h other (mem_cons_of_mem _ hother)
    have hchars : (Section.linesText (line :: rest)).toList =
        line.toList ++ '\n' :: (Section.linesText rest).toList := by
      simp [Section.linesText, String.toList_append]
    rw [textLines, hchars, hsplit _ _ (h line mem_cons_self), map_cons]
    rw [String.ofList_toList]
    exact congrArg (line :: ·) hrest

end StagedAsm
