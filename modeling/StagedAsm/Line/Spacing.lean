/-!
# Spacing of a line

How the tokens of a line are put together: a separator sticks to what stands before it, a bracket
sticks to both sides, an operator stands between gaps, and words are kept apart.
-/

namespace StagedAsm

/-- What a token is, as far as spacing goes. -/
inductive TokenKind where
  | separator
  | bracket
  | operator
  | word
  deriving DecidableEq, Repr

namespace TokenKind

def separators : List String := [",", ":"]

def brackets : List String := ["(", "[", "\x7b", "<", ")", "]", "\x7d", ">"]

def operators : List String := ["+", "-", "*", "/", "^", "&", "|"]

def ofToken (token : String) : TokenKind :=
  if separators.contains token then separator
  else if brackets.contains token then bracket
  else if operators.contains token then operator
  else word

end TokenKind

def gapBefore (last : Option TokenKind) (token : String) : Bool :=
  match TokenKind.ofToken token, last with
  | .separator, _ => false
  | _, none => false
  | _, some .bracket => false
  | .bracket, some .word => token == "["
  | _, _ => true

/-- Puts tokens together, where `last` is the kind of the token before them. -/
def joinTokensAfter : Option TokenKind → List String → String
  | _, [] => ""
  | last, token :: rest =>
    (if gapBefore last token then " " else "") ++ token ++
      joinTokensAfter (some (.ofToken token)) rest

def joinTokens (tokens : List String) : String := joinTokensAfter none tokens

end StagedAsm
