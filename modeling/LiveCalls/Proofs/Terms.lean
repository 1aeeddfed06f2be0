import LiveCalls.Expr.Evaluation
import LiveCalls.Manifest.Compile

namespace LiveCalls.Manifest.Term

mutual

/-- The variables in a term, at whatever depth, in order. -/
def vars : Term → List String
  | one _ | many _ => []
  | var name => [name]
  | list items => varsAll items

def varsAll : List Term → List String
  | [] => []
  | t :: ts => t.vars ++ varsAll ts

end

mutual

/-- The constants in a term, at whatever depth, in order. Variables are passed over. -/
def leaves : Term → List Constant
  | one value => [value]
  | many values => values
  | var _ => []
  | list items => leavesAll items

def leavesAll : List Term → List Constant
  | [] => []
  | t :: ts => t.leaves ++ leavesAll ts

end

mutual

/-- The first variable in a term stands in the way of its constants. -/
theorem constants_eq : (t : Term) → t.constants =
    match t.vars with
    | name :: _ => .error name
    | [] => .ok t.leaves
  | one _ | many _ | var _ => rfl
  | list items => constantsOf_eq items

theorem constantsOf_eq : (ts : List Term) → constantsOf ts =
    match varsAll ts with
    | name :: _ => .error name
    | [] => .ok (leavesAll ts)
  | [] => rfl
  | t :: ts => by
    rw [constantsOf, constants_eq t, varsAll]
    cases t.vars with
    | cons name names => rfl
    | nil =>
      rw [constantsOf_eq ts, List.nil_append]
      cases varsAll ts with
      | cons name names => rfl
      | nil => rfl

end

mutual

/-- Where no variable is set, a term has its constants as its values. -/
theorem denote_unset (pos : Position) : (t : Term) → (t.toExpr pos).denote (fun _ => []) = t.leaves
  | one _ | many _ | var _ => rfl
  | list items => denoteItems_unset pos items

theorem denoteItems_unset (pos : Position) : (ts : List Term) →
    Expr.denoteItems (fun _ => []) (toExprs pos ts) = leavesAll ts
  | [] => rfl
  | t :: ts => by
    rw [toExprs, Expr.denoteItems, denote_unset pos t, denoteItems_unset pos ts, leavesAll]

end

end LiveCalls.Manifest.Term
