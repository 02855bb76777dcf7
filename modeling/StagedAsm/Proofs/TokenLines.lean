import Mathlib.Data.List.Chain
import StagedAsm.Session.Text

/-!
# Tokens of a line

Some of the gaps between the tokens of a line are left out. The tokens can be told apart all the
same: a token that is no word is a single character that stands in no word, and two words are never
next to each other without a gap.
-/

namespace StagedAsm

open List

/-- A character that is a token of its own. -/
def isSpecial (c : Char) : Bool := TokenKind.ofToken (String.singleton c) != .word

/-- A special character, or a word without spaces and special characters. -/
def IsToken (token : String) : Prop :=
  TokenKind.ofToken token ≠ .word ∨ token ≠ "" ∧ ∀ c ∈ token.toList, c ≠ ' ' ∧ isSpecial c = false

instance (token : String) : Decidable (IsToken token) :=
  -- Deciding it for the characters of the token, not for all characters there are.
  haveI : Decidable (∀ c ∈ token.toList, c ≠ ' ' ∧ isSpecial c = false) := List.decidableBAll _ _
  inferInstanceAs (Decidable (_ ∨ _))

def endedWord : List Char → List String
  | [] => []
  | word => [String.ofList word]

/-- `word` was read of the word that the rest of the line continues. -/
def splitFrom : List Char → List Char → List String
  | word, [] => endedWord word
  | word, c :: rest =>
    if c = ' ' then endedWord word ++ splitFrom [] rest
    else if isSpecial c then endedWord word ++ String.singleton c :: splitFrom [] rest
    else splitFrom (word ++ [c]) rest

def splitLine (line : String) : List String := splitFrom [] line.toList

/-- The second character may stand behind the first. -/
def Spaced (before after : Char) : Prop :=
  before = ' ' → after ≠ ' ' ∧ after ≠ ',' ∧ after ≠ ':'

/-! ## Tokens -/

theorem exists_special {token : String} (h : TokenKind.ofToken token ≠ .word) :
    ∃ c, token.toList = [c] ∧ isSpecial c = true ∧ c ≠ ' ' := by
  have hmem : token ∈ TokenKind.separators ++ TokenKind.brackets ++ TokenKind.operators := by
    unfold TokenKind.ofToken at h
    simp only [mem_append]
    grind
  have hall : ∀ token ∈ TokenKind.separators ++ TokenKind.brackets ++ TokenKind.operators,
      token.toList = [token.toList.headD ' '] ∧ isSpecial (token.toList.headD ' ') = true ∧
        token.toList.headD ' ' ≠ ' ' := by decide +kernel
  exact ⟨_, hall token hmem⟩

theorem ofToken_eq_separator {c : Char} :
    TokenKind.ofToken (String.singleton c) = .separator ↔ c = ',' ∨ c = ':' := by
  constructor
  · intro h
    have hmem : String.singleton c ∈ TokenKind.separators := by
      unfold TokenKind.ofToken at h
      grind
    simpa [TokenKind.separators, ← String.toList_inj] using hmem
  · rintro (rfl | rfl) <;> rfl

variable {token : String} {tokens : List String} {last : Option TokenKind}

theorem IsToken.ne_nil (h : IsToken token) : token.toList ≠ [] := by
  rcases h with h | ⟨hne, -⟩
  · obtain ⟨c, hc, -⟩ := exists_special h
    simp [hc]
  · simpa using hne

theorem IsToken.notMem_space (h : IsToken token) : ' ' ∉ token.toList := by
  rcases h with h | ⟨-, hword⟩
  · obtain ⟨c, hc, -, hspace⟩ := exists_special h
    simpa [hc] using hspace.symm
  · exact fun hmem => (hword ' ' hmem).1 rfl

theorem IsToken.head_of_gap (h : IsToken token) (hgap : gapBefore last token = true) {c : Char}
    (hc : c ∈ token.toList.head?) : c ≠ ' ' ∧ c ≠ ',' ∧ c ≠ ':' := by
  have hsep : TokenKind.ofToken token ≠ .separator := by
    intro hsep
    simp [gapBefore, hsep] at hgap
  have hmem := mem_of_mem_head? hc
  refine ⟨fun heq => h.notMem_space (heq ▸ hmem), ?_⟩
  rw [← not_or, ← ofToken_eq_separator]
  intro hc'
  rcases h with h | ⟨-, hword⟩
  · obtain ⟨d, hd, -⟩ := exists_special h
    obtain rfl : c = d := by simpa [hd] using hmem
    rw [← String.ofList_toList (s := token), hd] at hsep
    exact hsep hc'
  · have := (hword c hmem).2
    simp [isSpecial, hc'] at this

/-! ## Splitting -/

theorem endedWord_of_ne_nil (h : token.toList ≠ []) : endedWord token.toList = [token] := by
  cases hchars : token.toList with
  | nil => exact absurd hchars h
  | cons c rest =>
    have htoken := congrArg String.ofList hchars
    rw [String.ofList_toList] at htoken
    rw [htoken]
    rfl

theorem splitFrom_word {chars : List Char} (h : ∀ c ∈ chars, c ≠ ' ' ∧ isSpecial c = false)
    (word rest : List Char) : splitFrom word (chars ++ rest) = splitFrom (word ++ chars) rest := by
  induction chars generalizing word with
  | nil => simp
  | cons c chars ih =>
    obtain ⟨hspace, hspecial⟩ := h c mem_cons_self
    simp only [cons_append, splitFrom, hspace, if_false, hspecial, Bool.false_eq_true]
    rw [ih (fun c hc => h c (List.mem_cons_of_mem _ hc)), List.append_assoc, List.singleton_append]

theorem splitFrom_joinTokensAfter (h : ∀ token ∈ tokens, IsToken token) {word : List Char}
    (hword : word = [] ∨ last = some .word) :
    splitFrom word (joinTokensAfter last tokens).toList = endedWord word ++ tokens := by
  induction tokens generalizing last word with
  | nil => simp [joinTokensAfter, splitFrom]
  | cons token rest ih =>
    have hrest := fun t ht => h t (mem_cons_of_mem _ ht)
    simp only [joinTokensAfter, String.toList_append, List.append_assoc]
    by_cases hkind : TokenKind.ofToken token = .word
    · obtain ⟨-, hchars⟩ := (h token mem_cons_self).resolve_left (not_not_intro hkind)
      have hrest' : splitFrom token.toList (joinTokensAfter (some .word) rest).toList =
          token :: rest := by
        rw [ih hrest (.inr rfl), endedWord_of_ne_nil (h token mem_cons_self).ne_nil]
        rfl
      cases hgap : gapBefore last token with
      | true => simp [splitFrom, splitFrom_word hchars, hkind, hrest', endedWord]
      | false =>
        -- no gap is left out between two words
        obtain rfl : word = [] := hword.resolve_right fun hlast => by
          simp [gapBefore, hkind, hlast] at hgap
        simp [splitFrom_word hchars, hkind, hrest', endedWord]
    · obtain ⟨c, hc, hspecial, hspace⟩ := exists_special hkind
      have hrest' : splitFrom [] (joinTokensAfter (some (.ofToken token)) rest).toList = rest :=
        ih hrest (.inl rfl)
      have htoken : String.singleton c = token := by
        rw [← String.ofList_toList (s := token), hc]
        rfl
      cases gapBefore last token <;>
        simp [splitFrom, hc, hspecial, hspace, hrest', endedWord, htoken]

/-! ## Spaces -/

theorem getLast?_joinTokensAfter (h : ∀ token ∈ tokens, IsToken token) :
    (joinTokensAfter last tokens).toList.getLast? ≠ some ' ' := by
  induction tokens generalizing last with
  | nil => simp [joinTokensAfter]
  | cons token rest ih =>
    have htoken := h token mem_cons_self
    have hrest : (joinTokensAfter (some (.ofToken token)) rest).toList.getLast? ≠ some ' ' :=
      ih fun t ht => h t (mem_cons_of_mem _ ht)
    simp only [joinTokensAfter, String.toList_append, getLast?_append]
    cases hend : (joinTokensAfter (some (.ofToken token)) rest).toList.getLast? with
    | some c => simpa [hend] using hrest
    | none =>
      have hlast := getLast?_eq_some_getLast htoken.ne_nil
      simp only [Option.none_or, hlast, Option.some_or]
      exact fun heq => htoken.notMem_space (Option.some.inj heq ▸ getLast_mem _)

theorem isChain_joinTokensAfter (h : ∀ token ∈ tokens, IsToken token) :
    (joinTokensAfter last tokens).toList.IsChain Spaced := by
  induction tokens generalizing last with
  | nil => simp [joinTokensAfter]
  | cons token rest ih =>
    have htoken := h token List.mem_cons_self
    have hinside : ∀ c ∈ token.toList, ∀ d, Spaced c d := by
      rintro c hc d rfl
      exact absurd hc htoken.notMem_space
    have htail : (token.toList ++ (joinTokensAfter (some (.ofToken token)) rest).toList).IsChain
        Spaced := by
      refine List.isChain_append.mpr ⟨?_, ih fun t ht => h t (List.mem_cons_of_mem _ ht), ?_⟩
      · exact (List.pairwise_of_forall_mem_list fun c hc d _ => hinside c hc d).isChain
      · exact fun c hc d _ => hinside c (List.mem_of_getLast? hc) d
    simp only [joinTokensAfter, String.toList_append, List.append_assoc]
    refine List.isChain_append.mpr ⟨?_, htail, ?_⟩
    · split <;> simp
    · intro c hc d hd _
      rw [List.head?_append_of_ne_nil _ htoken.ne_nil] at hd
      cases hgap : gapBefore last token with
      | true => exact htoken.head_of_gap hgap hd
      | false => simp [hgap] at hc

theorem renderAll_of_map {s : Session} {line : Line}
    (h : line.map s.render = tokens.map fun token => .ok (some token)) :
    s.renderAll line = .ok (some tokens) := by
  induction line generalizing tokens with
  | nil =>
    obtain rfl := map_eq_nil_iff.mp h.symm
    rfl
  | cons symbol line ih =>
    cases tokens with
    | nil => cases h
    | cons token tokens =>
      obtain ⟨hsymbol, hline⟩ := List.cons.inj h
      simp only [Session.renderAll, hsymbol, ih hline]

/-- A line whose symbols all have tokens as their texts splits into just these tokens. It has no
    space at its ends, and none in front of another space, a comma or a colon. -/
theorem rendered_line_splits {s : Session} {line : Line} {tokens : List String}
    (hrender : line.map s.render = tokens.map fun token => .ok (some token))
    (htokens : ∀ token ∈ tokens, IsToken token) :
    ∃ text, s.renderLine line = .ok (some text) ∧ splitLine text = tokens ∧
      text.toList.head? ≠ some ' ' ∧ text.toList.getLast? ≠ some ' ' ∧
      text.toList.IsChain Spaced := by
  refine ⟨joinTokens tokens, ?_, splitFrom_joinTokensAfter htokens (.inl rfl), ?_,
    getLast?_joinTokensAfter htokens, isChain_joinTokensAfter htokens⟩
  · rw [Session.renderLine, renderAll_of_map hrender]
    rfl
  · cases tokens with
    | nil => simp [joinTokens, joinTokensAfter]
    | cons token rest =>
      have htoken := htokens token List.mem_cons_self
      have hgap : gapBefore none token = false := by
        cases hkind : TokenKind.ofToken token <;> simp [gapBefore, hkind]
      have hhead := mt List.mem_of_head? htoken.notMem_space
      simpa [joinTokens, joinTokensAfter, hgap, List.head?_append_of_ne_nil _ htoken.ne_nil]
        using hhead

/-- Brackets stand next to words, an operator and a separator. -/
theorem rendered_line_splits_operands :
    ∃ text, ({} : Session).renderLine
      (["lea", "rax", ",", "[", "(", "rbx", ")", "+", "8", "]", ":"].map
        .ofText) = .ok (some text) ∧
      splitLine text = ["lea", "rax", ",", "[", "(", "rbx", ")", "+", "8", "]", ":"] ∧
      text.toList.head? ≠ some ' ' ∧ text.toList.getLast? ≠ some ' ' ∧
      text.toList.IsChain Spaced :=
  rendered_line_splits (by rfl) (by decide)

end StagedAsm
