/-! The three stages that a program goes through, in order. -/

namespace Scratchpad

/-- A stage of running a program: reading it, finding its types, and running it. -/
inductive Stage where
  | ast
  | types
  | output
deriving DecidableEq

namespace Stage

/-- All stages, in order. -/
def all : List Stage := [ast, types, output]

/-- The place of a stage in the order, from 0. -/
def index : Stage → Nat
  | ast => 0
  | types => 1
  | output => 2

/-- The heading under which the outcome of a stage is shown. -/
def label : Stage → String
  | ast => "AST"
  | types => "Types"
  | output => "Output"

/-- The name of a stage in JSON texts, and in the answers of a scripted engine. -/
def name : Stage → String
  | ast => "ast"
  | types => "types"
  | output => "output"

/-- Stages are compared by their order. -/
instance : Ord Stage where
  compare left right := compare left.index right.index

end Stage

end Scratchpad
