import StagedAsm.Register

/-!
# Register shuffles

Values that sit in registers have to be moved into the registers the callee expects them in. Moves
whose target nobody reads any more are made first; what is left are cycles, which are broken by
exchanging two registers.
-/

namespace StagedAsm.Win64

/-- A value that has to go from one register to another. -/
structure Move where
  source : Register
  target : Register
  deriving DecidableEq, Repr, Inhabited

inductive ShuffleStep where
  | mov (target source : Register)
  | xchg (target source : Register)
  deriving DecidableEq, Repr, Inhabited

def ShuffleStep.text : ShuffleStep → String
  | mov target source => s!"mov {target.name}, {source.name}"
  | xchg target source => s!"xchg {target.name}, {source.name}"

/-- Some move reads the register that `move` writes. -/
def Move.isBlocked (moves : List Move) (move : Move) : Bool :=
  moves.any fun other => other.source.base == move.target.base

def breakCycle (move : Move) (rest : List Move) :
    Except CompileError (List ShuffleStep × List Move) :=
  if move.source.base = move.target.base then .ok ([], rest)
  else
    match rest.findIdx? fun other => other.source.base == move.target.base with
    | none => .error .cycleLost
    | some reader => do
      let wanted := ((rest[reader]?.getD default).source).size
      let (source, target) ←
        if wanted.bytes > move.source.size.bytes then do
          let source ← move.source.resize wanted
          let target ← move.target.resize wanted
          pure (source, target)
        else pure (move.source, move.target)
      let found ← source.resize wanted
      return ([.xchg target source],
        rest.modify reader fun other => { other with source := found })

/-- One move at a time, at most `fuel` of them. -/
def shuffleSteps : Nat → List Move → Except CompileError (List ShuffleStep)
  | 0, _ => .ok []
  | fuel + 1, moves =>
    match moves.findIdx? fun move => !move.isBlocked moves with
    | some free => do
      let move := moves[free]?.getD default
      let steps ← shuffleSteps fuel (moves.eraseIdx free)
      return .mov move.target move.source :: steps
    | none =>
      match moves with
      | [] => .ok []
      | move :: rest => do
        let (first, rest) ← breakCycle move rest
        let steps ← shuffleSteps fuel rest
        return first ++ steps

/-- Each step of the search takes one move off the list. -/
def shuffle (moves : List Move) : Except CompileError (List ShuffleStep) :=
  shuffleSteps moves.length moves

end StagedAsm.Win64
