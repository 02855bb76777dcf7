import StagedAsm.Literal

/-!
# Reading literals back

What the contents of a literal denote is said here without the encoder: a sequence of items, each a
plain character or an escape that stands for a code point. The operands of a data directive are read
by a reader of their own.
-/

namespace StagedAsm.Literal

open List

inductive Item where
  | plain (c : Char)
  | letter (c : Char)
  | unicode (digits : List Char)

/-- The code point of an escape by a single letter. -/
def letterPoint? : Char → Option Nat
  | '\\' => some 92
  | 'n' => some 10
  | 'r' => some 13
  | 't' => some 9
  | _ => none

/-- The value of a hexadecimal digit. -/
def digitValue (c : Char) : Nat :=
  if c.isDigit then c.toNat - 48 else if c < 'a' then c.toNat - 55 else c.toNat - 87

/-- The number that hexadecimal digits denote. -/
def hexValue (digits : List Char) : Nat :=
  digits.foldl (fun value c => 16 * value + digitValue c) 0

namespace Item

def text : Item → List Char
  | plain c => [c]
  | letter c => ['\\', c]
  | unicode digits => '\\' :: 'u' :: '(' :: (digits ++ [')'])

/-- The item is a plain character or one of the escapes. -/
def IsValid : Item → Prop
  | plain c => c ≠ '\\'
  | letter c => (letterPoint? c).isSome = true
  | unicode digits => digits ≠ [] ∧ digits.length ≤ 8 ∧ ∀ c ∈ digits, isHexDigit c = true

/-- The code point that the item stands for. -/
def codePoint : Item → Nat
  | plain c => c.toNat
  | letter c => (letterPoint? c).getD 0
  | unicode digits => hexValue digits

end Item

/-- The contents are a sequence of items. -/
def Spells (contents : List Char) (items : List Item) : Prop :=
  (∀ item ∈ items, item.IsValid) ∧ items.flatMap Item.text = contents

/-- The maximal runs of plain characters between escapes. -/
def runs : List Item → List (List Char)
  | [] => [[]]
  | .plain c :: items => (runs items).modifyHead (c :: ·)
  | _ :: items => [] :: runs items

/-- A run does not hold both quotes. -/
def QuotesApart (run : List Char) : Prop := ¬ ('"' ∈ run ∧ '\'' ∈ run)

/-! ## A reader of operands -/

inductive ReadMode where
  | operand
  | quoted (quote : Char)
  | digits (digits : List Char)
  | behind

def controlPoint? : Char → Option Nat
  | 'a' => some 10
  | 'd' => some 13
  | '9' => some 9
  | _ => none

def readFrom : ReadMode → List Char → Option (List Nat)
  | .behind, [] => some []
  | .behind, ',' :: rest => readFrom .operand rest
  | .operand, ' ' :: rest => readFrom .operand rest
  | .operand, '"' :: rest => readFrom (.quoted '"') rest
  | .operand, '\'' :: rest => readFrom (.quoted '\'') rest
  | .operand, '`' :: '\\' :: 'U' :: rest => readFrom (.digits []) rest
  | .operand, '0' :: c :: 'h' :: rest =>
    (controlPoint? c).bind fun point => (readFrom .behind rest).map (point :: ·)
  | .quoted quote, c :: rest =>
    if c = quote then readFrom .behind rest
    else (readFrom (.quoted quote) rest).map (c.toNat :: ·)
  | .digits digits, c :: rest =>
    if c = '`' ∧ digits.length = 8 then
      (readFrom .behind rest).map (hexValue digits.reverse :: ·)
    else if isHexDigit c then readFrom (.digits (c :: digits)) rest
    else none
  | _, _ => none

/-- The code points that a list of operands denotes. -/
def readOperands (text : String) : Option (List Nat) :=
  if text = "" then some [] else readFrom .operand text.toList

/-- Operands that denote code points, wherever they stand in a list. -/
inductive Reads : List String → List Nat → Prop
  | nil : Reads [] []
  | cons {operand : String} {operands : List String} {points others : List Nat}
      (hread : ∀ rest, readFrom .operand (operand.toList ++ rest) =
        (readFrom .behind rest).map (points ++ ·))
      (hrest : Reads operands others) : Reads (operand :: operands) (points ++ others)

section Reads

variable {operand : String} {operands others : List String} {points more : List Nat}

theorem Reads.single (h : ∀ rest, readFrom .operand (operand.toList ++ rest) =
      (readFrom .behind rest).map (points ++ ·)) : Reads [operand] points := by
  simpa using Reads.cons h .nil

theorem Reads.append (h : Reads operands points) (h' : Reads others more) :
    Reads (operands ++ others) (points ++ more) := by
  induction h with
  | nil => exact h'
  | cons hread _ ih => simpa using Reads.cons hread ih

theorem Reads.readFrom_intercalate (h : Reads operands points) (hne : operands ≠ []) :
    readFrom .operand (String.intercalate ", " operands).toList = some points := by
  induction h with
  | nil => exact absurd rfl hne
  | @cons operand operands points others hread hrest ih =>
    cases hrest with
    | nil => simpa [String.intercalate_singleton, readFrom] using hread []
    | cons =>
      rw [String.intercalate_cons_cons]
      simp only [String.toList_append, append_assoc, hread, String.reduceToList,
        cons_append, nil_append, readFrom, ih (cons_ne_nil _ _), Option.map_some]

theorem Reads.readOperands (h : Reads operands points) :
    readOperands (String.intercalate ", " operands) = some points := by
  by_cases hne : operands = []
  · subst hne
    cases h
    rfl
  · have hread := h.readFrom_intercalate hne
    rw [Literal.readOperands, if_neg, hread]
    intro hempty
    rw [hempty] at hread
    cases hread

end Reads

/-! ## Operands of items -/

/-- The operand of an escape. -/
def Item.operand : Item → String
  | plain _ => ""
  | letter c => (escapeOperand? c).getD ""
  | unicode digits => unicodeOperand digits

/-- The operands of items behind a run, which is kept latest first. -/
def operandsOf : List Char → List Item → Except CompileError (List String)
  | run, [] => flush run
  | run, .plain c :: items => operandsOf (c :: run) items
  | run, item :: items => do
    let before ← flush run
    return before ++ item.operand :: (← operandsOf [] items)

variable {contents : String} {items : List Item} {operands : List String}

variable {digits rest run : List Char} {c : Char}

theorem operandsFrom_digits (h : ∀ c ∈ digits, isHexDigit c = true) (before : List Char) :
    operandsFrom contents (.unicodeDigits before) (digits ++ ')' :: rest) =
      operandsFrom contents (.unicodeDigits (digits.reverse ++ before)) (')' :: rest) := by
  induction digits generalizing before with
  | nil => rfl
  | cons c digits ih =>
    have hc : isHexDigit c = true := h c mem_cons_self
    have hne : c ≠ ')' := by
      rintro rfl
      exact absurd hc (by decide)
    rw [cons_append, operandsFrom, if_neg hne, if_pos hc,
      ih fun c hc => h c (mem_cons_of_mem _ hc)]
    simp

theorem escapeOperand?_eq_some {operand : String} (h : escapeOperand? c = some operand) :
    c ≠ 'u' ∧ (letterPoint? c).isSome = true ∧ Reads [operand] [(letterPoint? c).getD 0] := by
  unfold escapeOperand? at h
  split at h <;> cases h
  all_goals exact ⟨by decide, rfl, .single fun _ => rfl⟩

theorem exists_escapeOperand (h : (letterPoint? c).isSome = true) :
    ∃ operand, escapeOperand? c = some operand := by
  unfold letterPoint? at h
  split at h
  case h_5 => cases h
  all_goals exact ⟨_, rfl⟩

theorem operandsFrom_flatMap (h : ∀ item ∈ items, item.IsValid) (run : List Char) :
    operandsFrom contents (.plain run) (items.flatMap Item.text) = operandsOf run items := by
  induction items generalizing run with
  | nil => rfl
  | cons item items ih =>
    have hitem := h item mem_cons_self
    have hrest := ih fun item hitem => h item (mem_cons_of_mem _ hitem)
    rw [flatMap_cons]
    cases item with
    | plain c =>
      rw [Item.text, singleton_append, operandsFrom, if_neg hitem, hrest, operandsOf]
    | letter c =>
      obtain ⟨operand, hoperand⟩ := exists_escapeOperand hitem
      have hne := (escapeOperand?_eq_some hoperand).1
      simp [Item.text, operandsFrom, operandsOf, Item.operand, hne, hoperand, hrest]
    | unicode digits =>
      obtain ⟨hne, hle, hdigits⟩ := hitem
      have hbound : ¬ 8 < digits.length := by omega
      simp [Item.text, operandsFrom, operandsOf, Item.operand, operandsFrom_digits hdigits, hne,
        hbound, hrest]

/-- What the reader of contents has seen of an item. -/
def Mode.text : Mode → List Char
  | plain _ => []
  | escape _ => ['\\']
  | unicodeOpen => ['\\', 'u']
  | unicodeDigits digits => '\\' :: 'u' :: '(' :: digits.reverse

/-- The digits that were seen are digits. -/
def Mode.IsValid : Mode → Prop
  | unicodeDigits digits => ∀ c ∈ digits, isHexDigit c = true
  | _ => True

theorem Spells.cons {item : Item} (hitem : item.IsValid) (h : Spells rest items) :
    Spells (item.text ++ rest) (item :: items) :=
  ⟨forall_mem_cons.mpr ⟨hitem, h.1⟩, by rw [flatMap_cons, h.2]⟩

theorem bind_eq_ok {α β : Type} {x : Except CompileError α} {f : α → Except CompileError β} {b : β}
    (h : (x >>= f) = .ok b) : ∃ a, x = .ok a ∧ f a = .ok b := by
  cases x with
  | error e => cases h
  | ok a => exact ⟨a, rfl, h⟩

theorem exists_spells {mode : Mode} (h : operandsFrom contents mode rest = .ok operands)
    (hmode : mode.IsValid) : ∃ items, Spells (mode.text ++ rest) items := by
  fun_induction operandsFrom contents mode rest generalizing operands with
  | case1 run => exact ⟨[], by simp, rfl⟩
  | case2 run rest ih => exact ih h trivial
  | case3 run c rest hc ih =>
    obtain ⟨items, hitems⟩ := ih h trivial
    exact ⟨.plain c :: items, hitems.cons hc⟩
  | case5 run c rest ihu ihletter =>
    obtain ⟨before, -, h⟩ := bind_eq_ok h
    split at h
    · rename_i hu
      obtain ⟨others, hrest, -⟩ := bind_eq_ok h
      exact hu ▸ ihu hrest trivial
    · split at h
      · rename_i operand hoperand
        obtain ⟨others, hrest, -⟩ := bind_eq_ok h
        obtain ⟨items, hitems⟩ := ihletter hrest trivial
        exact ⟨.letter c :: items, hitems.cons (escapeOperand?_eq_some hoperand).2.1⟩
      · cases h
  | case7 rest ih => exact ih h (forall_mem_nil _)
  | case11 digits rest hlength ih =>
    obtain ⟨others, hrest, -⟩ := bind_eq_ok h
    obtain ⟨items, hitems⟩ := ih hrest trivial
    refine ⟨.unicode digits.reverse :: items, ?_⟩
    have hvalid : (Item.unicode digits.reverse).IsValid := by
      simp [Item.IsValid] at hlength ⊢
      exact ⟨hlength.1, hlength.2, hmode⟩
    simpa [Mode.text, Item.text] using hitems.cons hvalid
  | case12 digits c rest hne hc ih =>
    simpa [Mode.text] using ih h (forall_mem_cons.mpr ⟨hc, hmode⟩)
  | _ => cases h

theorem quote_cases (run : List Char) : (QuotesApart run ∧ ∃ q, (q = '"' ∨ q = '\'') ∧ q ∉ run ∧
      quote run = .ok (String.ofList (q :: (run ++ [q])))) ∨
    ¬ QuotesApart run ∧ ∃ e, quote run = .error e := by
  by_cases hdouble : '"' ∈ run
  · by_cases hsingle : '\'' ∈ run
    · exact .inr ⟨not_not_intro ⟨hdouble, hsingle⟩, _, by simp [quote, hdouble, hsingle]; rfl⟩
    · exact .inl ⟨fun h => hsingle h.2, '\'', .inr rfl, hsingle, by
        simp [quote, hdouble, hsingle, String.append_assoc]⟩
  · exact .inl ⟨fun h => hdouble h.1, '"', .inl rfl, hdouble, by
      simp [quote, hdouble, String.append_assoc]⟩

theorem flush_cons (c : Char) (run : List Char) :
    flush (c :: run) = (quote (c :: run).reverse).map fun operand => [operand] := rfl

theorem flush_ok_iff : (∃ before, flush run = .ok before) ↔ QuotesApart run.reverse := by
  cases run with
  | nil => simp [flush, QuotesApart]
  | cons c run =>
    rcases quote_cases (c :: run).reverse with ⟨hapart, q, -, -, hquote⟩ | ⟨hboth, e, hquote⟩
    · simpa only [flush_cons, hquote, hapart, iff_true] using ⟨_, rfl⟩
    · simp only [flush_cons, hquote, hboth, iff_false]
      rintro ⟨before, h⟩
      cases h

theorem modifyHead_nil_append (l : List (List Char)) : l.modifyHead ([] ++ ·) = l := by
  cases l <;> rfl

theorem operandsOf_ok_iff (run : List Char) : (∃ operands, operandsOf run items = .ok operands) ↔
    ∀ r ∈ (runs items).modifyHead (run.reverse ++ ·), QuotesApart r := by
  fun_induction operandsOf run items with
  | case1 run => simp [runs, flush_ok_iff]
  | case2 run c items ih =>
    rw [ih, runs, modifyHead_modifyHead]
    simp [Function.comp_def]
  | case3 run item items hescape ih =>
    have hruns : runs (item :: items) = [] :: runs items := by
      cases item with
      | plain c => exact absurd rfl (hescape c)
      | letter c => rfl
      | unicode digits => rfl
    rw [reverse_nil, modifyHead_nil_append] at ih
    rw [hruns, modifyHead_cons, append_nil, forall_mem_cons, ← ih, ← flush_ok_iff]
    constructor
    · rintro ⟨operands, h⟩
      obtain ⟨before, hflush, h⟩ := bind_eq_ok h
      obtain ⟨others, hrest, -⟩ := bind_eq_ok h
      exact ⟨⟨before, hflush⟩, others, hrest⟩
    · rintro ⟨⟨before, hflush⟩, others, hrest⟩
      refine ⟨before ++ item.operand :: others, ?_⟩
      simp [hflush, hrest, bind, Except.bind, pure, Except.pure]

/-! ## Code points of operands -/

theorem readFrom_quoted {quote : Char} {chars : List Char} (h : quote ∉ chars) (rest : List Char) :
    readFrom (.quoted quote) (chars ++ quote :: rest) =
      (readFrom .behind rest).map (chars.map Char.toNat ++ ·) := by
  induction chars with
  | nil => simp [readFrom]
  | cons c chars ih =>
    obtain ⟨hc, hchars⟩ := not_or.mp (mt mem_cons.mpr h)
    simp [readFrom, Ne.symm hc, ih hchars, Function.comp_def]

theorem reads_flush {before : List String} (h : flush run = .ok before) :
    Reads before (run.reverse.map Char.toNat) := by
  cases run with
  | nil =>
    cases h
    exact .nil
  | cons c run =>
    rcases quote_cases (c :: run).reverse with ⟨-, q, hq, hnot, hquote⟩ | ⟨-, e, hquote⟩
    · rw [flush_cons, hquote] at h
      cases h
      refine .single fun rest => ?_
      have hread := readFrom_quoted hnot rest
      rcases hq with rfl | rfl <;> simpa [readFrom] using hread
    · rw [flush_cons, hquote] at h
      cases h

theorem readFrom_digits (h : ∀ c ∈ digits, isHexDigit c = true) (before rest : List Char) :
    readFrom (.digits before) (digits ++ rest) =
      readFrom (.digits (digits.reverse ++ before)) rest := by
  induction digits generalizing before with
  | nil => rfl
  | cons c digits ih =>
    have hc : isHexDigit c = true := h c mem_cons_self
    have hne : c ≠ '`' := by
      rintro rfl
      exact absurd hc (by decide)
    rw [cons_append, readFrom, if_neg (fun h => hne h.1), if_pos hc,
      ih fun c hc => h c (mem_cons_of_mem _ hc)]
    simp

theorem hexValue_zeros (n : Nat) (digits : List Char) :
    hexValue (List.replicate n '0' ++ digits) = hexValue digits := by
  induction n with
  | zero => rfl
  | succ n ih => exact ih

theorem reads_unicodeOperand (hle : digits.length ≤ 8) (h : ∀ c ∈ digits, isHexDigit c = true) :
    Reads [unicodeOperand digits] [hexValue digits] := by
  have hall : ∀ c ∈ List.replicate (8 - digits.length) '0' ++ digits, isHexDigit c = true := by
    intro c hc
    rcases mem_append.mp hc with hzero | hdigit
    · obtain rfl := eq_of_mem_replicate hzero
      rfl
    · exact h c hdigit
  have hlength : digits.length + (8 - digits.length) = 8 := by omega
  refine .single fun rest => ?_
  have hread := readFrom_digits hall [] ('`' :: rest)
  simp only [append_assoc] at hread
  simp [unicodeOperand, readFrom, hread, hlength, hexValue_zeros]

theorem reads_operandsOf (h : operandsOf run items = .ok operands)
    (hitems : ∀ item ∈ items, item.IsValid) :
    Reads operands (run.reverse.map Char.toNat ++ items.map Item.codePoint) := by
  fun_induction operandsOf run items generalizing operands with
  | case1 run => simpa using reads_flush h
  | case2 run c items ih =>
    simpa [Item.codePoint] using ih h fun item hitem => hitems item (mem_cons_of_mem _ hitem)
  | case3 run item items hescape ih =>
    obtain ⟨before, hflush, h⟩ := bind_eq_ok h
    obtain ⟨others, hrest, h⟩ := bind_eq_ok h
    cases h
    have hitem : Reads [item.operand] [item.codePoint] := by
      have hvalid := hitems item mem_cons_self
      cases item with
      | plain c => exact absurd rfl (hescape c)
      | letter c =>
        obtain ⟨operand, hoperand⟩ := exists_escapeOperand hvalid
        rw [Item.operand, hoperand]
        exact (escapeOperand?_eq_some hoperand).2.2
      | unicode digits => exact reads_unicodeOperand hvalid.2.1 hvalid.2.2
    exact (reads_flush hflush).append (hitem.append
      (ih hrest fun item hitem => hitems item (mem_cons_of_mem _ hitem)))

/-- Contents can be encoded exactly if they are a sequence of plain characters and escapes in which
    no run between escapes holds both quotes, and what they are encoded to denotes the code points
    that they denote. -/
theorem encode_reads_back (contents : String) : ((∃ encoded, encode contents = .ok encoded) ↔
      ∃ items, Spells contents.toList items ∧ ∀ run ∈ runs items, QuotesApart run) ∧
    ∀ encoded items, encode contents = .ok encoded → Spells contents.toList items →
      readOperands encoded = some (items.map Item.codePoint) := by
  have hencode : ∀ {items}, Spells contents.toList items →
      encode contents = (operandsOf [] items).map (String.intercalate ", ") := by
    rintro items ⟨hvalid, htext⟩
    rw [encode, operands, ← htext, operandsFrom_flatMap hvalid]
  have hapart : ∀ {items}, (∃ operands, operandsOf [] items = .ok operands) ↔
      ∀ run ∈ runs items, QuotesApart run := by
    intro items
    rw [operandsOf_ok_iff, List.reverse_nil, modifyHead_nil_append]
  refine ⟨⟨?_, ?_⟩, ?_⟩
  · rintro ⟨encoded, h⟩
    obtain ⟨operands, hoperands⟩ : ∃ operands, Literal.operands contents = .ok operands := by
      cases hoperands : Literal.operands contents with
      | error e => rw [encode, hoperands] at h; cases h
      | ok operands => exact ⟨operands, rfl⟩
    obtain ⟨items, hspells⟩ := exists_spells hoperands trivial
    refine ⟨items, hspells, hapart.mp ⟨operands, ?_⟩⟩
    rw [← hoperands, Literal.operands, ← operandsFrom_flatMap hspells.1, hspells.2]
    rfl
  · rintro ⟨items, hspells, hruns⟩
    obtain ⟨operands, hoperands⟩ := hapart.mpr hruns
    exact ⟨_, by rw [hencode hspells, hoperands]; rfl⟩
  · intro encoded items h hspells
    rw [hencode hspells] at h
    cases hoperands : operandsOf [] items with
    | error e => rw [hoperands] at h; cases h
    | ok operands =>
      rw [hoperands] at h
      cases h
      exact (reads_operandsOf hoperands hspells.1).readOperands

end StagedAsm.Literal
