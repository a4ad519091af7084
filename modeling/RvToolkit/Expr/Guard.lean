import RvToolkit.Expr.Token

/-! The guard: which texts are taken for arithmetic. Numbers and parenthesised expressions, each
behind any number of unary operators, joined by binary operators. -/

namespace RvToolkit.Expr

/-- Where the guard stands: before an operand or after one, under a number of open parentheses. -/
inductive Place where
  | before (depth : Nat)
  | after (depth : Nat)
deriving DecidableEq, Repr

/-- An expression that ends inside parentheses or before an operand is an error; what follows a
complete expression outside parentheses only makes the answer negative. Parentheses can be followed
into one another up to a limit. -/
def guardFrom (limit : Nat) : Place → List Token → Except Fault Bool
  | .before d, .unary _ :: ts => guardFrom limit (.before d) ts
  | .before d, .number _ :: ts => guardFrom limit (.after d) ts
  | .before d, .opening :: ts => if d < limit then guardFrom limit (.before (d + 1)) ts else .error .tooDeep
  | .before _, _ => .error (.parse .operandExpected)
  | .after d, .operator _ :: ts => guardFrom limit (.before d) ts
  | .after (d + 1), .closing :: ts => guardFrom limit (.after d) ts
  | .after (_ + 1), t :: _ => .error (.parse (.closingExpected t.describe))
  | .after (_ + 1), [] => .error (.parse (.closingExpected Token.describeEnd))
  | .after 0, t => .ok t.isEmpty

/-- Is the text an arithmetic expression? An ordinary condition on the way counts as no, a report is
passed on. -/
def isExpr (limit : Nat) (t : Text) : Except Fault Bool :=
  match Token.readAll t with
  | none => .ok false
  | some ts => Fault.recover false (guardFrom limit (.before 0) ts)

end RvToolkit.Expr
