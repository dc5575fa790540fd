import Klein.Tree.Basic

namespace Klein

mutual

/-- The number of nodes on the longest way down an expression. -/
def Expr.height : Expr → Nat
  | .integer .. => 1
  | .boolean .. => 1
  | .identifier .. => 1
  | .unary _ _ value => value.height + 1
  | .binary _ _ left right => max left.height right.height + 1
  | .conditional _ condition consequent alternative =>
    max condition.height (max consequent.height alternative.height) + 1
  | .call _ _ _ arguments => arguments.height + 2

/-- The number of nodes on the longest way down some arguments. -/
def Arguments.height : Arguments → Nat
  | .nil => 0
  | .cons _ value rest => max (value.height + 1) rest.height

end

def Body.height (b : Body) : Nat :=
  b.prints.foldl (fun h c => max h c.toExpr.height) b.result.height + 1

/-- The number of nodes on the longest way down a program. Its list of definitions is one of
    them. -/
def Program.height (p : Program) : Nat :=
  p.definitions.foldl (fun h d => max h (d.body.height + 1)) 0 + 2

end Klein
