import StagedAsm.Proofs.JumpPrograms

/-!
# Structured code and the jumps it becomes

The meaning of code is a run of its instructions; an oracle tells which conditions hold. A run need
not end, so it is cut off where a loop has made as many rounds as are allowed.

The lines that code becomes are written down here as one would by hand. A run of these lines is a
run of the code, and one that is cut off late has gone on for long, so the two cannot come apart
where they do not end either.
-/

namespace StagedAsm

/-! ## Meaning -/

/-- The run after the code, or the run up to where a loop was cut off. -/
abbrev Meaning := Trace → Except Trace Trace

namespace Meaning

def skip : Meaning := fun t => .ok t

def instruction (line : String) : Meaning := fun t => .ok (t.push line)

def seq (f g : Meaning) : Meaning := fun t => (f t).bind g

def branch (o : Oracle) (code : String) (yes no : Meaning) : Meaning := fun t =>
  if o.answer t code then yes t.ask else no t.ask

def rounds (o : Oracle) (code : String) (round : Meaning) : Nat → Meaning
  | 0 => fun t => .error t
  | n + 1 => round.seq (branch o code (rounds o code round n) skip)

def ifElse (o : Oracle) (code : String) (condition body otherwise : Meaning) : Meaning :=
  condition.seq (branch o code body otherwise)

def doLoop (o : Oracle) (limit : Nat) (start body advance : Meaning) (code : String)
    (condition : Meaning) : Meaning :=
  start.seq (rounds o code (body.seq (advance.seq condition)) limit)

def forLoop (o : Oracle) (limit : Nat) (start : Meaning) (code : String)
    (condition advance body : Meaning) : Meaning :=
  start.seq (ifElse o code condition (doLoop o limit skip body advance code condition) skip)

end Meaning

/-! ## Labels and jumps -/

/-- The keys under which the constructs remember their labels. -/
def controlKeys : List String := ["end_of_if", "end_of_else", "start_of_loop", "end_of_loop"]

/-- A label of a construct outside of all named scopes. -/
def controlLabel (uid : Nat) (key : String) : String := EngineId.labelText uid [] key

def IsControlLabel (label : String) : Prop :=
  ∃ uid, ∃ key ∈ controlKeys, label = controlLabel uid key

def labelLine (label : String) : String := label ++ ":"

def jumpLine (code label : String) : String := "j" ++ code ++ " " ++ label

theorem toList_controlLabel (uid : Nat) (key : String) :
    (controlLabel uid key).toList = 'L' :: (Nat.toDigits 10 uid ++ '_' :: '_' :: key.toList) := by
  have htext : controlLabel uid key = "L" ++ Nat.repr uid ++ "_" ++ "" ++ "_" ++ key := rfl
  simp [htext, String.toList_append, Nat.toList_repr]

variable {uid uid' : Nat} {key : String}

theorem labelText_inj {path path' : List String} {name name' : String}
    (h : EngineId.labelText uid path name = EngineId.labelText uid' path' name') : uid = uid' := by
  have hchars := congrArg String.toList h
  have htext : ∀ n (path : List String) (name : String), (EngineId.labelText n path name).toList =
      'L' :: (Nat.toDigits 10 n ++ '_' :: (String.intercalate "_" path ++ "_" ++ name).toList) := by
    intro n path name
    have hlabel : EngineId.labelText n path name =
        "L" ++ Nat.repr n ++ "_" ++ String.intercalate "_" path ++ "_" ++ name := rfl
    simp [hlabel, String.toList_append, Nat.toList_repr]
  rw [htext, htext, List.cons_inj_right] at hchars
  have hdigits : ∀ n (rest : List Char),
      (Nat.toDigits 10 n ++ '_' :: rest).takeWhile (· ≠ '_') = Nat.toDigits 10 n := by
    intro n rest
    have hall : ∀ c ∈ Nat.toDigits 10 n, decide (c ≠ '_') = true := by
      intro c hc
      rw [decide_eq_true_eq]
      rintro rfl
      exact Nat.underscore_not_in_toDigits hc
    rw [List.takeWhile_append_of_pos hall]
    simp
  have heq := congrArg (List.takeWhile (· ≠ '_')) hchars
  rw [hdigits, hdigits] at heq
  rw [← Nat.ofDigitChars_ten_toDigits (n := uid), heq, Nat.ofDigitChars_ten_toDigits]

theorem controlLabel_inj {key' : String} (h : controlLabel uid key = controlLabel uid' key') :
    uid = uid' := labelText_inj h

theorem not_mem_controlLabel {c : Char} (hdigit : c.isDigit = false) (hL : c ≠ 'L')
    (hunderscore : c ≠ '_') (hkey : c ∉ key.toList) : c ∉ (controlLabel uid key).toList := by
  rw [toList_controlLabel]
  simp only [List.mem_cons, List.mem_append, not_or]
  refine ⟨hL, fun hmem => ?_, hunderscore, hunderscore, hkey⟩
  have hc := Nat.isDigit_of_mem_toDigits (b := 10) (by omega) (by omega) hmem
  rw [hdigit] at hc
  cases hc

theorem placedLabel?_labelLine (label : String) : placedLabel? (labelLine label) = some label :=
  placedLabel?_append_colon label

section Keys

variable {uid : Nat} {key : String} (hkey : key ∈ controlKeys)

include hkey

theorem blank_not_mem_controlLabel : ' ' ∉ (controlLabel uid key).toList :=
  have hall : ∀ key ∈ controlKeys, ' ' ∉ key.toList := by decide
  not_mem_controlLabel rfl (by decide) (by decide) (hall key hkey)

theorem break_not_mem_controlLabel : '\n' ∉ (controlLabel uid key).toList :=
  have hall : ∀ key ∈ controlKeys, '\n' ∉ key.toList := by decide
  not_mem_controlLabel rfl (by decide) (by decide) (hall key hkey)

theorem jump?_jumpLine (code : String) :
    jump? (jumpLine code (controlLabel uid key)) = some (code, controlLabel uid key) :=
  jump?_of_target (blank_not_mem_controlLabel hkey)

theorem placedLabel?_jumpLine (code : String) :
    placedLabel? (jumpLine code (controlLabel uid key)) = none := by
  have hall : ∀ key ∈ controlKeys, key.toList ≠ [] ∧ ':' ∉ key.toList := by decide
  have hchars : (jumpLine code (controlLabel uid key)).toList =
      ("j" ++ code ++ " ").toList ++ 'L' :: (Nat.toDigits 10 uid ++ ['_', '_']) ++ key.toList := by
    rw [jumpLine, String.toList_append, toList_controlLabel]
    simp
  exact placedLabel?_eq_none hchars (hall key hkey).1 (hall key hkey).2

end Keys

/-! ## Fragments -/

/-- The number of labels it makes, and its lines by the number of the first of them. -/
structure Fragment where
  labels : Nat
  lines : Nat → List String

namespace Fragment

def empty : Fragment := ⟨0, fun _ => []⟩

def instruction (line : String) : Fragment := ⟨0, fun _ => [line]⟩

def append (f g : Fragment) : Fragment :=
  ⟨f.labels + g.labels, fun uid => f.lines uid ++ g.lines (uid + f.labels)⟩

/-- A condition, and a body that is left out unless the condition holds. -/
def guarded (key code : String) (condition body : Fragment) : Fragment where
  labels := condition.labels + (1 + body.labels)
  lines uid :=
    let finish := controlLabel (uid + condition.labels) key
    condition.lines uid ++ jumpLine (invertCondition code) finish ::
      (body.lines (uid + condition.labels + 1) ++ [labelLine finish])

def ifElse (code : String) (condition body otherwise : Fragment) : Fragment where
  labels := condition.labels + (1 + body.labels + (1 + otherwise.labels))
  lines uid :=
    let second := controlLabel (uid + condition.labels) "end_of_if"
    let uid' := uid + condition.labels + 1 + body.labels
    let finish := controlLabel uid' "end_of_else"
    condition.lines uid ++ jumpLine (invertCondition code) second ::
      (body.lines (uid + condition.labels + 1) ++ jumpLine "mp" finish :: labelLine second ::
        (otherwise.lines (uid' + 1) ++ [labelLine finish]))

def rounds (code : String) (round : Fragment) : Fragment where
  labels := 1 + round.labels
  lines uid :=
    let start := controlLabel uid "start_of_loop"
    labelLine start :: (round.lines (uid + 1) ++ [jumpLine code start])

def doLoop (start body advance : Fragment) (code : String) (condition : Fragment) : Fragment :=
  start.append (rounds code (body.append (advance.append condition)))

def forLoop (start : Fragment) (code : String) (condition advance body : Fragment) : Fragment :=
  start.append (guarded "end_of_loop" code condition (doLoop empty body advance code condition))

end Fragment

/-! ## Runs of fragments -/

/-- The labels of the program differ, and they are those of constructs. -/
structure WellLabelled (program : List String) : Prop where
  unique : (program.filterMap placedLabel?).Nodup
  control : ∀ label ∈ program.filterMap placedLabel?, IsControlLabel label

/-- An instruction that is no label and no jump to a label of a construct. -/
structure IsOpaque (line : String) : Prop where
  one_line : '\n' ∉ line.toList
  no_label : placedLabel? line = none
  no_jump : ∀ code label, jump? line = some (code, label) → ¬IsControlLabel label

/-- It can be written into a jump and does not make it unconditional. -/
structure IsConditionCode (code : String) : Prop where
  one_line : '\n' ∉ code.toList
  conditional : code ≠ "mp"
  conditional_inverse : invertCondition code ≠ "mp"

def Machine.Follows (o : Oracle) (program : List String) (least : Nat) (m : Machine)
    (rest : List String) : Except Trace Trace → Prop
  | .ok t => ∃ n, runFor o program n m = ⟨rest, t⟩
  | .error t => ∃ n left, least ≤ n ∧ left ≠ [] ∧ runFor o program n m = ⟨left, t⟩

def Executes (o : Oracle) (program : List String) (limit : Nat) (lines : List String)
    (meaning : Meaning) : Prop :=
  ∀ rest t, lines ++ rest <:+ program →
    Machine.Follows o program limit ⟨lines ++ rest, t⟩ rest (meaning t)

namespace Machine.Follows

variable {o : Oracle} {program rest : List String} {least : Nat} {m : Machine}

variable {m' : Machine} {outcome : Except Trace Trace} {next : List String}

theorem of_steps {least' : Nat} (n : Nat) (h : Follows o program least m' rest outcome)
    (hn : runFor o program n m = m') (hleast : least' ≤ n + least) :
    Follows o program least' m rest outcome := by
  cases outcome with
  | ok t =>
    obtain ⟨k, hk⟩ := h
    exact ⟨n + k, by rw [runFor_add, hn, hk]⟩
  | error t =>
    obtain ⟨k, left, hle, hleft, hk⟩ := h
    exact ⟨n + k, left, by omega, hleft, by rw [runFor_add, hn, hk]⟩

theorem of_step (h : Follows o program least m' rest outcome) (hn : m.step o program = m') :
    Follows o program least m rest outcome :=
  h.of_steps 1 hn (by omega)

theorem seq {f g : Meaning} {t : Trace} (hf : Follows o program least m rest (f t))
    (hg : ∀ t, Follows o program least ⟨rest, t⟩ next (g t)) :
    Follows o program least m next (f.seq g t) := by
  unfold Meaning.seq
  cases hft : f t with
  | ok t' =>
    rw [hft] at hf
    obtain ⟨n, hn⟩ := hf
    exact (hg t').of_steps n hn (by omega)
  | error t' =>
    rw [hft] at hf
    exact hf

theorem trans (h : Follows o program least m rest outcome)
    (hnext : ∀ t, (⟨rest, t⟩ : Machine).step o program = ⟨next, t⟩) :
    Follows o program least m next outcome := by
  cases outcome with
  | ok t =>
    obtain ⟨n, hn⟩ := h
    exact ⟨n + 1, by rw [runFor_add, hn]; exact hnext t⟩
  | error t => exact h

end Machine.Follows

namespace Executes

open Machine

variable {o : Oracle} {program : List String} {limit : Nat}

theorem skip : Executes o program limit [] .skip := fun _ _ _ => ⟨0, rfl⟩

theorem instruction (hprogram : WellLabelled program) {line : String} (hline : IsOpaque line) :
    Executes o program limit [line] (.instruction line) := by
  intro rest t _
  refine ⟨1, step_instruction hline.no_label fun code label hjump => ?_⟩
  -- the target of such a jump is not placed in the program
  cases hafter : after label program with
  | none => rfl
  | some target =>
    exact absurd (hprogram.control label (mem_of_after hafter)) (hline.no_jump code label hjump)

variable {f g : Meaning} {rest body : List String} {key code : String} {uid : Nat}

theorem append {first second : List String} (hf : Executes o program limit first f)
    (hg : Executes o program limit second g) :
    Executes o program limit (first ++ second) (f.seq g) := by
  intro rest t hsuffix
  rw [List.append_assoc] at hsuffix ⊢
  apply (hf (second ++ rest) t hsuffix).seq
  intro t'
  exact hg rest t' ((List.suffix_append _ _).trans hsuffix)

variable (hprogram : WellLabelled program)

include hprogram

theorem after_labelLine {label : String} (front : List String)
    (h : front ++ labelLine label :: rest <:+ program) : after label program = some rest :=
  after_of_suffix hprogram.unique (placedLabel?_labelLine label) ((List.suffix_append _ _).trans h)

omit hprogram in
/-- A jump with the inverted code is taken unless the code holds. -/
theorem step_unless {target : List String} {t : Trace} (hkey : key ∈ controlKeys)
    (hcode : IsConditionCode code) (hafter : after (controlLabel uid key) program = some target) :
    step o program ⟨jumpLine (invertCondition code) (controlLabel uid key) :: rest, t⟩ =
      ⟨if o.answer t code then rest else target, t.ask⟩ := by
  rw [step_branch (placedLabel?_jumpLine hkey _) (jump?_jumpLine hkey _) hafter
    hcode.conditional_inverse, o.answer_invert]
  cases o.answer t code <;> rfl

theorem guarded (hkey : key ∈ controlKeys) (hcode : IsConditionCode code)
    (hf : Executes o program limit body f) :
    Executes o program limit (jumpLine (invertCondition code) (controlLabel uid key) ::
        (body ++ [labelLine (controlLabel uid key)])) (.branch o code f .skip) := by
  intro rest t hsuffix
  rw [List.cons_append, List.append_assoc, List.singleton_append] at hsuffix ⊢
  have hafter : after (controlLabel uid key) program = some rest :=
    after_labelLine hprogram (jumpLine (invertCondition code) (controlLabel uid key) :: body)
      hsuffix
  apply Follows.of_step _ (step_unless hkey hcode hafter)
  unfold Meaning.branch
  by_cases hholds : o.answer t code = true
  · rw [if_pos hholds, if_pos hholds]
    have hbody := hf _ t.ask ((List.suffix_cons _ _).trans hsuffix)
    exact hbody.trans fun t => step_label (placedLabel?_labelLine _)
  · rw [if_neg hholds, if_neg hholds]
    exact ⟨0, rfl⟩

theorem ifElse {otherwise : List String} (hcode : IsConditionCode code)
    (hf : Executes o program limit body f) (hg : Executes o program limit otherwise g) :
    Executes o program limit (jumpLine (invertCondition code) (controlLabel uid "end_of_if") ::
        (body ++ jumpLine "mp" (controlLabel uid' "end_of_else") ::
          labelLine (controlLabel uid "end_of_if") ::
          (otherwise ++ [labelLine (controlLabel uid' "end_of_else")])))
      (.branch o code f g) := by
  intro rest t hsuffix
  have hif : "end_of_if" ∈ controlKeys := by decide
  have helse : "end_of_else" ∈ controlKeys := by decide
  simp only [List.cons_append, List.append_assoc] at hsuffix ⊢
  generalize hfinish : controlLabel uid' "end_of_else" = finish at *
  have hbody := (List.suffix_cons _ _).trans hsuffix
  -- the lines from the end of the first branch on
  have htail : jumpLine "mp" finish :: labelLine (controlLabel uid "end_of_if") ::
      (otherwise ++ labelLine finish :: rest) <:+ program :=
    (List.suffix_append _ _).trans hbody
  have hafter := after_labelLine hprogram [_] htail
  have hend : after finish program = some rest :=
    after_labelLine hprogram (jumpLine "mp" finish :: labelLine _ :: otherwise) htail
  apply Follows.of_step _ (step_unless hif hcode hafter)
  unfold Meaning.branch
  by_cases hholds : o.answer t code = true
  · rw [if_pos hholds, if_pos hholds]
    -- the first branch jumps over the second
    refine (hf _ t.ask hbody).trans fun t => ?_
    exact step_jump (hfinish ▸ placedLabel?_jumpLine helse _) (hfinish ▸ jump?_jumpLine helse _)
      hend
  · rw [if_neg hholds, if_neg hholds]
    refine (hg _ t.ask ?_).trans fun t => step_label (placedLabel?_labelLine _)
    exact ((List.suffix_cons _ _).trans (List.suffix_cons _ _)).trans htail

theorem rounds {round : List String} (hcode : IsConditionCode code)
    (hf : Executes o program limit round f) :
    Executes o program limit (labelLine (controlLabel uid "start_of_loop") ::
        (round ++ [jumpLine code (controlLabel uid "start_of_loop")]))
      (.rounds o code f limit) := by
  intro rest t hsuffix
  have hkey : "start_of_loop" ∈ controlKeys := by decide
  generalize hstart : controlLabel uid "start_of_loop" = start at *
  rw [List.cons_append, List.append_assoc, List.singleton_append] at hsuffix ⊢
  have hafter : after start program = some (round ++ jumpLine code start :: rest) :=
    after_labelLine hprogram [] hsuffix
  have hround : round ++ jumpLine code start :: rest <:+ program :=
    (List.suffix_cons _ _).trans hsuffix
  have hloop : ∀ n ≤ limit, ∀ t, Follows o program n
      ⟨round ++ jumpLine code start :: rest, t⟩ rest (Meaning.rounds o code f n t) := by
    intro n hn
    induction n with
    | zero =>
      intro t
      exact ⟨0, _, .refl, by simp, rfl⟩
    | succ n ih =>
      intro t
      have hjump : ∀ t, Follows o program (n + 1) ⟨jumpLine code start :: rest, t⟩ rest
          (Meaning.branch o code (Meaning.rounds o code f n) .skip t) := by
        intro t
        have hstep : step o program ⟨jumpLine code start :: rest, t⟩ =
            ⟨if o.answer t code then round ++ jumpLine code start :: rest else rest, t.ask⟩ :=
          step_branch (hstart ▸ placedLabel?_jumpLine hkey _) (hstart ▸ jump?_jumpLine hkey _)
            hafter hcode.conditional
        unfold Meaning.branch
        by_cases hholds : o.answer t code = true
        · rw [if_pos hholds]
          rw [if_pos hholds] at hstep
          exact (ih (by omega) t.ask).of_steps 1 hstep (by omega)
        · rw [if_neg hholds]
          rw [if_neg hholds] at hstep
          exact ⟨1, hstep⟩
      exact Follows.seq ((hf _ t hround).of_steps 0 rfl (by omega)) hjump
  exact (hloop limit .refl t).of_step (step_label (placedLabel?_labelLine _))

end Executes

/-! ## Lines that can be told apart -/

structure Tidy (numbers : Nat → Prop) (lines : List String) : Prop where
  one_line : ∀ line ∈ lines, '\n' ∉ line.toList
  unique : (lines.filterMap placedLabel?).Nodup
  control : ∀ label ∈ lines.filterMap placedLabel?,
    ∃ uid, numbers uid ∧ ∃ key ∈ controlKeys, label = controlLabel uid key

namespace Tidy

variable {numbers others : Nat → Prop} {lines : List String}

theorem mono (h : Tidy numbers lines) (himp : ∀ uid, numbers uid → others uid) :
    Tidy others lines where
  one_line := h.one_line
  unique := h.unique
  control label hlabel := by
    obtain ⟨uid, huid, hkey⟩ := h.control label hlabel
    exact ⟨uid, himp uid huid, hkey⟩

theorem nil : Tidy numbers [] := ⟨by simp, by simp, by simp⟩

theorem other {line : String} (h : Tidy numbers lines) (hbreak : '\n' ∉ line.toList)
    (hlabel : placedLabel? line = none) : Tidy numbers (line :: lines) where
  one_line := by
    simp only [List.mem_cons, forall_eq_or_imp]
    exact ⟨hbreak, h.one_line⟩
  unique := by
    rw [List.filterMap_cons_none hlabel]
    exact h.unique
  control := by
    rw [List.filterMap_cons_none hlabel]
    exact h.control

variable {key : String}

theorem jump (h : Tidy numbers lines) (uid : Nat) {code : String} (hkey : key ∈ controlKeys)
    (hcode : '\n' ∉ code.toList) :
    Tidy numbers (jumpLine code (controlLabel uid key) :: lines) := by
  refine h.other ?_ (placedLabel?_jumpLine hkey _)
  simp only [jumpLine, String.toList_append, List.mem_append, not_or]
  exact ⟨⟨⟨by decide, hcode⟩, by decide⟩, break_not_mem_controlLabel hkey⟩

theorem label (uid : Nat) (hkey : key ∈ controlKeys) :
    Tidy (· = uid) [labelLine (controlLabel uid key)] where
  one_line := by
    simp only [List.mem_singleton, forall_eq, labelLine, String.toList_append, List.mem_append,
      not_or]
    exact ⟨break_not_mem_controlLabel hkey, by decide⟩
  unique := by simp [placedLabel?_labelLine]
  control label hlabel := by
    obtain rfl : label = controlLabel uid key := by simpa [placedLabel?_labelLine] using hlabel
    exact ⟨uid, rfl, key, hkey, rfl⟩

theorem append {more : List String} (h : Tidy numbers lines) (hmore : Tidy others more)
    (hdisjoint : ∀ uid, numbers uid → ¬others uid) :
    Tidy (fun uid => numbers uid ∨ others uid) (lines ++ more) where
  one_line line hline := by
    rcases List.mem_append.mp hline with hline | hline
    · exact h.one_line line hline
    · exact hmore.one_line line hline
  unique := by
    rw [List.filterMap_append, List.nodup_append]
    refine ⟨h.unique, hmore.unique, fun a ha b hb hab => ?_⟩
    obtain ⟨uid, huid, key, -, rfl⟩ := h.control a ha
    obtain ⟨uid', huid', key', -, rfl⟩ := hmore.control b hb
    obtain rfl := controlLabel_inj hab
    exact hdisjoint uid huid huid'
  control label hlabel := by
    rw [List.filterMap_append, List.mem_append] at hlabel
    rcases hlabel with hlabel | hlabel
    · obtain ⟨uid, huid, hkey⟩ := h.control label hlabel
      exact ⟨uid, .inl huid, hkey⟩
    · obtain ⟨uid, huid, hkey⟩ := hmore.control label hlabel
      exact ⟨uid, .inr huid, hkey⟩

end Tidy

/-- The labels of a fragment are numbered on from any number. -/
def Fragment.IsTidy (f : Fragment) : Prop :=
  ∀ uid, Tidy (fun n => uid ≤ n ∧ n < uid + f.labels) (f.lines uid)

namespace Fragment.IsTidy

theorem empty : Fragment.empty.IsTidy := fun _ => .nil

theorem instruction {line : String} (h : IsOpaque line) : (Fragment.instruction line).IsTidy :=
  fun _ => Tidy.nil.other h.one_line h.no_label

variable {f g : Fragment}

theorem append (hf : f.IsTidy) (hg : g.IsTidy) : (f.append g).IsTidy := by
  intro uid
  refine ((hf uid).append (hg _) fun n => ?_).mono fun n => ?_
  · omega
  · simp only [Fragment.append]
    omega

variable {code : String}

theorem break_not_mem_invert (h : '\n' ∉ code.toList) : '\n' ∉ (invertCondition code).toList := by
  unfold invertCondition
  split
  · rename_i rest hcode
    rw [hcode] at h
    rw [String.toList_ofList]
    exact fun hmem => h (List.mem_cons_of_mem _ hmem)
  · rw [String.toList_append, List.mem_append, not_or]
    exact ⟨by decide, h⟩

theorem guarded (hkey : key ∈ controlKeys) (hcode : '\n' ∉ code.toList) (hf : f.IsTidy)
    (hg : g.IsTidy) : (Fragment.guarded key code f g).IsTidy := by
  intro uid
  have hbody := (hg (uid + f.labels + 1)).append (.label (uid + f.labels) hkey) fun n => by omega
  have hjump := hbody.jump (uid + f.labels) hkey (break_not_mem_invert hcode)
  refine ((hf uid).append hjump fun n => ?_).mono fun n => ?_
  · omega
  · simp only [Fragment.guarded]
    omega

theorem ifElse {h : Fragment} (hcode : '\n' ∉ code.toList) (hf : f.IsTidy) (hg : g.IsTidy)
    (hh : h.IsTidy) : (Fragment.ifElse code f g h).IsTidy := by
  intro uid
  have hif : "end_of_if" ∈ controlKeys := by decide
  have helse : "end_of_else" ∈ controlKeys := by decide
  have hotherwise := (hh (uid + f.labels + 1 + g.labels + 1)).append
    (.label (uid + f.labels + 1 + g.labels) helse) fun n => by omega
  have hsecond := (Tidy.label (uid + f.labels) hif).append hotherwise fun n => by omega
  have hmp : '\n' ∉ "mp".toList := by decide
  have hover := hsecond.jump (uid + f.labels + 1 + g.labels) helse hmp
  have hbody := (hg (uid + f.labels + 1)).append hover fun n => by omega
  have hjump := hbody.jump (uid + f.labels) hif (break_not_mem_invert hcode)
  refine ((hf uid).append hjump fun n => ?_).mono fun n => ?_
  · omega
  · simp only [Fragment.ifElse]
    omega

theorem rounds (hcode : '\n' ∉ code.toList) (hf : f.IsTidy) : (Fragment.rounds code f).IsTidy := by
  intro uid
  have hkey : "start_of_loop" ∈ controlKeys := by decide
  have hjump := (Tidy.nil : Tidy (· < 0) []).jump uid hkey hcode
  have hround := (hf (uid + 1)).append hjump fun n => by omega
  refine ((Tidy.label uid hkey).append hround fun n => ?_).mono fun n => ?_
  · omega
  · simp only [Fragment.rounds]
    omega

end Fragment.IsTidy

/-! ## Structured code -/

/-- Code as a sequence of constructs. -/
inductive Code where
  | done
  | instruction (line : String) (next : Code)
  | ifThen (code : String) (condition body next : Code)
  | ifElse (code : String) (condition body otherwise next : Code)
  | whileLoop (code : String) (condition body next : Code)
  | forLoop (start : Code) (code : String) (condition advance body next : Code)
  | doLoop (start body advance : Code) (code : String) (condition next : Code)

namespace Code

def statements : Code → List Statement
  | done => []
  | instruction line next => .instruction line :: next.statements
  | ifThen code condition body next =>
    .ifThen code condition.statements body.statements :: next.statements
  | ifElse code condition body otherwise next =>
    .ifElse code condition.statements body.statements otherwise.statements :: next.statements
  | whileLoop code condition body next =>
    .whileLoop code condition.statements body.statements :: next.statements
  | forLoop start code condition advance body next =>
    .forLoop start.statements code condition.statements advance.statements body.statements ::
      next.statements
  | doLoop start body advance code condition next =>
    .doLoop start.statements body.statements advance.statements code condition.statements ::
      next.statements

/-- No loop makes more than a number of rounds. -/
def meaning (o : Oracle) (limit : Nat) : Code → Meaning
  | done => .skip
  | instruction line next => (Meaning.instruction line).seq (next.meaning o limit)
  | ifThen code condition body next =>
    (Meaning.ifElse o code (condition.meaning o limit) (body.meaning o limit) .skip).seq
      (next.meaning o limit)
  | ifElse code condition body otherwise next =>
    (Meaning.ifElse o code (condition.meaning o limit) (body.meaning o limit)
      (otherwise.meaning o limit)).seq (next.meaning o limit)
  | whileLoop code condition body next =>
    (Meaning.forLoop o limit .skip code (condition.meaning o limit) .skip
      (body.meaning o limit)).seq (next.meaning o limit)
  | forLoop start code condition advance body next =>
    (Meaning.forLoop o limit (start.meaning o limit) code (condition.meaning o limit)
      (advance.meaning o limit) (body.meaning o limit)).seq (next.meaning o limit)
  | doLoop start body advance code condition next =>
    (Meaning.doLoop o limit (start.meaning o limit) (body.meaning o limit)
      (advance.meaning o limit) code (condition.meaning o limit)).seq (next.meaning o limit)

def fragment : Code → Fragment
  | done => .empty
  | instruction line next => (Fragment.instruction line).append next.fragment
  | ifThen code condition body next =>
    (Fragment.guarded "end_of_if" code condition.fragment body.fragment).append next.fragment
  | ifElse code condition body otherwise next =>
    (Fragment.ifElse code condition.fragment body.fragment otherwise.fragment).append next.fragment
  | whileLoop code condition body next =>
    (Fragment.forLoop .empty code condition.fragment .empty body.fragment).append next.fragment
  | forLoop start code condition advance body next =>
    (Fragment.forLoop start.fragment code condition.fragment advance.fragment
      body.fragment).append next.fragment
  | doLoop start body advance code condition next =>
    (Fragment.doLoop start.fragment body.fragment advance.fragment code
      condition.fragment).append next.fragment

def Clean : Code → Prop
  | done => True
  | instruction line next => IsOpaque line ∧ next.Clean
  | ifThen code condition body next =>
    IsConditionCode code ∧ condition.Clean ∧ body.Clean ∧ next.Clean
  | ifElse code condition body otherwise next =>
    IsConditionCode code ∧ condition.Clean ∧ body.Clean ∧ otherwise.Clean ∧ next.Clean
  | whileLoop code condition body next =>
    IsConditionCode code ∧ condition.Clean ∧ body.Clean ∧ next.Clean
  | forLoop start code condition advance body next =>
    IsConditionCode code ∧ start.Clean ∧ condition.Clean ∧ advance.Clean ∧ body.Clean ∧ next.Clean
  | doLoop start body advance code condition next =>
    IsConditionCode code ∧ start.Clean ∧ body.Clean ∧ advance.Clean ∧ condition.Clean ∧ next.Clean

def progressIn (o : Oracle) (limit : Nat) (c : Code) : Progress :=
  match c.meaning o limit {} with
  | .ok t => ⟨t.ran, true⟩
  | .error t => ⟨t.ran, false⟩

theorem isTidy_fragment (c : Code) (h : c.Clean) : c.fragment.IsTidy := by
  have hrounds : ∀ {code : String} {body advance condition : Fragment}, IsConditionCode code →
      body.IsTidy → advance.IsTidy → condition.IsTidy →
      (Fragment.rounds code (body.append (advance.append condition))).IsTidy :=
    fun hcode hbody hadvance hcondition =>
      .rounds hcode.one_line (hbody.append (hadvance.append hcondition))
  have hfor : ∀ {code : String} {start condition advance body : Fragment}, IsConditionCode code →
      start.IsTidy → condition.IsTidy → advance.IsTidy → body.IsTidy →
      (Fragment.forLoop start code condition advance body).IsTidy :=
    fun hcode hstart hcondition hadvance hbody =>
      hstart.append (.guarded (by decide) hcode.one_line hcondition
        (.append .empty (hrounds hcode hbody hadvance hcondition)))
  induction c with
  | done => exact .empty
  | instruction line next ih => exact .append (.instruction h.1) (ih h.2)
  | ifThen code condition body next ihc ihb ihn =>
    obtain ⟨hcode, hc, hb, hn⟩ := h
    exact .append (.guarded (by decide) hcode.one_line (ihc hc) (ihb hb)) (ihn hn)
  | ifElse code condition body otherwise next ihc ihb iho ihn =>
    obtain ⟨hcode, hc, hb, ho, hn⟩ := h
    exact .append (.ifElse hcode.one_line (ihc hc) (ihb hb) (iho ho)) (ihn hn)
  | whileLoop code condition body next ihc ihb ihn =>
    obtain ⟨hcode, hc, hb, hn⟩ := h
    exact .append (hfor hcode .empty (ihc hc) .empty (ihb hb)) (ihn hn)
  | forLoop start code condition advance body next ihs ihc iha ihb ihn =>
    obtain ⟨hcode, hs, hc, ha, hb, hn⟩ := h
    exact .append (hfor hcode (ihs hs) (ihc hc) (iha ha) (ihb hb)) (ihn hn)
  | doLoop start body advance code condition next ihs ihb iha ihc ihn =>
    obtain ⟨hcode, hs, hb, ha, hc, hn⟩ := h
    exact .append ((ihs hs).append (hrounds hcode (ihb hb) (iha ha) (ihc hc))) (ihn hn)

section Loops

variable {o : Oracle} {program : List String} {limit : Nat} {code : String}
  {start body advance condition : Fragment} {s b a c : Meaning} (hprogram : WellLabelled program)
  (hcode : IsConditionCode code) (hs : ∀ uid, Executes o program limit (start.lines uid) s)
  (hb : ∀ uid, Executes o program limit (body.lines uid) b)
  (ha : ∀ uid, Executes o program limit (advance.lines uid) a)
  (hc : ∀ uid, Executes o program limit (condition.lines uid) c) (uid : Nat)

include hprogram hcode hs hb ha hc

theorem executes_doLoop :
    Executes o program limit ((Fragment.doLoop start body advance code condition).lines uid)
      (Meaning.doLoop o limit s b a code c) :=
  (hs _).append (.rounds hprogram hcode ((hb _).append ((ha _).append (hc _))))

theorem executes_forLoop :
    Executes o program limit ((Fragment.forLoop start code condition advance body).lines uid)
      (Meaning.forLoop o limit s code c a b) :=
  (hs _).append ((hc _).append (.guarded hprogram (by decide) hcode
    (executes_doLoop hprogram hcode (fun _ => .skip) hb ha hc _)))

end Loops

theorem executes (o : Oracle) {program : List String} (hprogram : WellLabelled program)
    (limit : Nat) (c : Code) (h : c.Clean) (uid : Nat) :
    Executes o program limit (c.fragment.lines uid) (c.meaning o limit) := by
  induction c generalizing uid with
  | done => exact .skip
  | instruction line next ih => exact .append (.instruction hprogram h.1) (ih h.2 _)
  | ifThen code condition body next ihc ihb ihn =>
    obtain ⟨hcode, hc, hb, hn⟩ := h
    exact .append ((ihc hc _).append (.guarded hprogram (by decide) hcode (ihb hb _))) (ihn hn _)
  | ifElse code condition body otherwise next ihc ihb iho ihn =>
    obtain ⟨hcode, hc, hb, ho, hn⟩ := h
    exact .append ((ihc hc _).append (.ifElse hprogram hcode (ihb hb _) (iho ho _))) (ihn hn _)
  | whileLoop code condition body next ihc ihb ihn =>
    obtain ⟨hcode, hc, hb, hn⟩ := h
    exact .append (executes_forLoop hprogram hcode (fun _ => .skip) (ihb hb) (fun _ => .skip)
      (ihc hc) _)
      (ihn hn _)
  | forLoop start code condition advance body next ihs ihc iha ihb ihn =>
    obtain ⟨hcode, hs, hc, ha, hb, hn⟩ := h
    exact .append (executes_forLoop hprogram hcode (ihs hs) (ihb hb) (iha ha) (ihc hc) _) (ihn hn _)
  | doLoop start body advance code condition next ihs ihb iha ihc ihn =>
    obtain ⟨hcode, hs, hb, ha, hc, hn⟩ := h
    exact .append (executes_doLoop hprogram hcode (ihs hs) (ihb hb) (iha ha) (ihc hc) _) (ihn hn _)

theorem follows_fragment (o : Oracle) (limit : Nat) (c : Code) (h : c.Clean) (uid : Nat) :
    Machine.Follows o (c.fragment.lines uid) limit ⟨c.fragment.lines uid, {}⟩ []
      (c.meaning o limit {}) := by
  have htidy := c.isTidy_fragment h uid
  have hprogram : WellLabelled (c.fragment.lines uid) :=
    { unique := htidy.unique
      control := fun label hlabel => by
        obtain ⟨n, -, hkey⟩ := htidy.control label hlabel
        exact ⟨n, hkey⟩ }
  have hrun := executes o hprogram limit c h uid [] {} (by simp)
  rwa [List.append_nil] at hrun

theorem exists_steps (o : Oracle) (limit : Nat) (c : Code) (h : c.Clean) (uid : Nat) :
    ∃ steps, Machine.progressIn o (c.fragment.lines uid) steps = c.progressIn o limit := by
  have hrun := c.follows_fragment o limit h uid
  unfold progressIn Machine.progressIn
  cases houtcome : c.meaning o limit {} with
  | ok t =>
    rw [houtcome] at hrun
    obtain ⟨n, hn⟩ := hrun
    exact ⟨n, by rw [hn]; rfl⟩
  | error t =>
    rw [houtcome] at hrun
    obtain ⟨n, left, -, hleft, hn⟩ := hrun
    exact ⟨n, by rw [hn, Machine.progress_of_ne_nil hleft]⟩

theorem exists_rounds (o : Oracle) (steps : Nat) (c : Code) (h : c.Clean) (uid : Nat) :
    ∃ limit, (Machine.progressIn o (c.fragment.lines uid) steps).Within (c.progressIn o limit) := by
  have hrun := c.follows_fragment o steps h uid
  refine ⟨steps, ?_⟩
  unfold progressIn Machine.progressIn
  generalize c.fragment.lines uid = program at *
  cases houtcome : c.meaning o steps {} with
  | ok t =>
    rw [houtcome] at hrun
    obtain ⟨n, hn⟩ := hrun
    by_cases hle : steps ≤ n
    · obtain ⟨k, rfl⟩ := Nat.exists_eq_add_of_le hle
      rw [Machine.runFor_add] at hn
      have hwithin := Machine.progress_within o program k
        (Machine.runFor o program steps ⟨program, {}⟩)
      rwa [hn] at hwithin
    · obtain ⟨k, rfl⟩ := Nat.exists_eq_add_of_le (Nat.le_of_not_le hle)
      rw [Machine.runFor_add, hn, Machine.runFor_end]
      exact ⟨List.prefix_rfl, fun _ => rfl⟩
  | error t =>
    rw [houtcome] at hrun
    obtain ⟨n, left, hle, hleft, hn⟩ := hrun
    obtain ⟨k, rfl⟩ := Nat.exists_eq_add_of_le hle
    rw [Machine.runFor_add] at hn
    have hwithin := Machine.progress_within o program k
      (Machine.runFor o program steps ⟨program, {}⟩)
    rwa [hn, Machine.progress_of_ne_nil hleft] at hwithin

end Code

end StagedAsm
