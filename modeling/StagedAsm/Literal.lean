import StagedAsm.Error

/-!
# String literals

How the contents of a string literal are written as operands of a data directive. A run of plain
characters is put between double quotes, or between single quotes if it holds a double quote; a run
with both cannot be written. Each escape (`\\`, `\n`, `\r`, `\t`, `\u(h)`) is an operand of its own.
-/

namespace StagedAsm.Literal

/-- Where a reader of the contents stands. Runs and digits are kept latest first. -/
inductive Mode where
  | plain (run : List Char)
  | escape (run : List Char)
  | unicodeOpen
  /-- Inside the brackets behind `\u`. -/
  | unicodeDigits (digits : List Char)
  deriving DecidableEq, Repr

/-- Puts a run between quotes that do not occur in it. -/
def quote (run : List Char) : Except CompileError String :=
  if !run.contains '"' then .ok ("\"" ++ String.ofList run ++ "\"")
  else if !run.contains '\'' then .ok ("'" ++ String.ofList run ++ "'")
  else .error (.mixedQuotes (String.ofList run))

/-- The operand of a run, unless it is empty. -/
def flush (run : List Char) : Except CompileError (List String) :=
  match run with
  | [] => .ok []
  | run => (quote run.reverse).map fun operand => [operand]

/-- The operand of an escape by a single letter. -/
def escapeOperand? : Char → Option String
  | '\\' => some "'\\'"
  | 'n' => some "0ah"
  | 'r' => some "0dh"
  | 't' => some "09h"
  | _ => none

def isHexDigit (c : Char) : Bool :=
  c.isDigit || ('a' ≤ c && c ≤ 'f') || ('A' ≤ c && c ≤ 'F')

/-- A code point is always written with eight digits. -/
def unicodeOperand (digits : List Char) : String :=
  "`\\U" ++ String.ofList (List.replicate (8 - digits.length) '0' ++ digits) ++ "`"

/-- The operands of what is left of the contents. -/
def operandsFrom (contents : String) : Mode → List Char → Except CompileError (List String)
  | .plain run, [] => flush run
  | .plain run, c :: rest =>
    if c = '\\' then operandsFrom contents (.escape run) rest
    else operandsFrom contents (.plain (c :: run)) rest
  | .escape _, [] => .error (.danglingEscape contents)
  | .escape run, c :: rest => do
    let before ← flush run
    if c = 'u' then
      return before ++ (← operandsFrom contents .unicodeOpen rest)
    else
      match escapeOperand? c with
      | some operand =>
        return before ++ operand :: (← operandsFrom contents (.plain []) rest)
      | none => .error (.unknownEscape c contents)
  | .unicodeOpen, [] => .error .badUnicodeEscape
  | .unicodeOpen, c :: rest =>
    if c = '(' then operandsFrom contents (.unicodeDigits []) rest
    else .error .badUnicodeEscape
  | .unicodeDigits _, [] => .error .badUnicodeEscape
  | .unicodeDigits digits, c :: rest => do
    if c = ')' then
      if digits.isEmpty || digits.length > 8 then .error .badUnicodeEscape
      else
        return unicodeOperand digits.reverse :: (← operandsFrom contents (.plain []) rest)
    else if isHexDigit c then operandsFrom contents (.unicodeDigits (c :: digits)) rest
    else .error .badUnicodeEscape

def operands (contents : String) : Except CompileError (List String) :=
  operandsFrom contents (.plain []) contents.toList

/-- The operands for the contents of a literal, without the terminating zero. -/
def encode (contents : String) : Except CompileError String :=
  (operands contents).map (String.intercalate ", ")

/-- The directive for encoded contents and the terminating zero. -/
def zeroTerminated (encoded : String) : String :=
  if encoded.isEmpty then "\tdb 0" else s!"\tdb {encoded}, 0"

def directive (size : Size) : Except CompileError String :=
  match size.dataSuffix? with
  | some suffix => .ok s!"d{suffix}"
  | none => .error .unsizedStringLength

end StagedAsm.Literal
