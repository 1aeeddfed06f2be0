import LiveCalls.Conversion
import LiveCalls.Diagnostic
import LiveCalls.Expr.Basic

/-!
# Conversion of expressions

An expression is changed so that it only has values of one type. Constants are converted on the
spot. A variable, whose values are known only when it is evaluated, is wrapped in a conversion. What
was wrapped before starts over from what it wraps, so that the earlier conversion does not limit the
later one. Constants stay what an earlier conversion made of them.

A conversion that fails reports to a log why it does. `Expr.convert` is the same conversion without
the log, with the reason for its answer: `Expr.convertedTo_eq`.
-/

namespace LiveCalls

/-- Why an expression cannot be converted: the first constant or variable in it that rules it
out. -/
inductive Unconvertible where
  | constant (c : Constant) (target : VarType)
  | var (name : String) (target : VarType)

namespace Unconvertible

/-- The reason in words. -/
def message : Unconvertible → String
  | constant c target => c.literal ++ " cannot be converted to " ++ target.name
  | var name target => "\x7b" ++ name ++ "\x7d can never be a " ++ target.name

/-- The reason as it is reported by those who do not know the call that it is about. -/
def diagnostic (reason : Unconvertible) : Diagnostic := ⟨none, reason.message⟩

end Unconvertible

namespace Constant

/-- The constants converted one by one, up to the first that has no counterpart, and the log with
that constant. -/
def convertedAll (target : VarType) (log : RetainingLog) :
    List Constant → Option (List Constant) × RetainingLog
  | [] => (some [], log)
  | c :: cs =>
    match c.convert? id target with
    | none => (none, log.report (Unconvertible.constant c target).diagnostic)
    | some d =>
      let (ds, log) := convertedAll target log cs
      (ds.map (d :: ·), log)

/-- The constants converted, or the first of them that has no counterpart. -/
def convertAll (target : VarType) : List Constant → Except Unconvertible (List Constant)
  | [] => .ok []
  | c :: cs =>
    match c.convert? id target with
    | none => .error (.constant c target)
    | some d => (convertAll target cs).map (d :: ·)

end Constant

namespace Expr

mutual

/-- The expression with every value converted to `target`; it stays as it is if its type says that
they conform already. -/
def convertedTo (target : VarType) (log : RetainingLog) (e : Expr) :
    Option Expr × RetainingLog :=
  if e.type.isSubtype target then (some e, log)
  else match e with
    | constants cs pos =>
      let (ds, log) := Constant.convertedAll target log cs
      (ds.map (constants · pos), log)
    | var name ty pos =>
      if ty.mayConvert target then (some (converted (var name ty pos) target pos), log)
      else (none, log.report (Unconvertible.var name target).diagnostic)
    | list items pos =>
      let (es, log) := convertedItems target log items
      (es.map (list · pos), log)
    | converted e _ _ => e.convertedTo target log

/-- The expressions converted one by one, up to the first that cannot be. -/
def convertedItems (target : VarType) (log : RetainingLog) :
    List Expr → Option (List Expr) × RetainingLog
  | [] => (some [], log)
  | e :: es =>
    match e.convertedTo target log with
    | (none, log) => (none, log)
    | (some e', log) =>
      let (es', log) := convertedItems target log es
      (es'.map (e' :: ·), log)

end

mutual

/-- The expression converted, or the first reason why it cannot be. -/
def convert (target : VarType) (e : Expr) : Except Unconvertible Expr :=
  if e.type.isSubtype target then .ok e
  else match e with
    | constants cs pos => (Constant.convertAll target cs).map (constants · pos)
    | var name ty pos =>
      if ty.mayConvert target then .ok (converted (var name ty pos) target pos)
      else .error (.var name target)
    | list items pos => (convertItems target items).map (list · pos)
    | converted e _ _ => e.convert target

def convertItems (target : VarType) : List Expr → Except Unconvertible (List Expr)
  | [] => .ok []
  | e :: es =>
    match e.convert target with
    | .error reason => .error reason
    | .ok e' => (convertItems target es).map (e' :: ·)

end

end Expr

namespace RetainingLog

variable {α β : Type} (log : RetainingLog)

/-- What a conversion gives, and the log after it: one report longer if the conversion fails, and as
it was if not. -/
def after : Except Unconvertible α → Option α × RetainingLog
  | .ok a => (some a, log)
  | .error reason => (none, log.report reason.diagnostic)

theorem after_map (f : α → β) (x : Except Unconvertible α) :
    log.after (x.map f) = ((log.after x).1.map f, (log.after x).2) := by
  cases x <;> rfl

end RetainingLog

theorem Constant.convertedAll_eq (target : VarType) (log : RetainingLog) (cs : List Constant) :
    convertedAll target log cs = log.after (convertAll target cs) := by
  induction cs with
  | nil => rfl
  | cons c cs ih =>
    rw [convertedAll, convertAll]
    cases c.convert? id target with
    | none => rfl
    | some d => rw [RetainingLog.after_map, ← ih]

namespace Expr

mutual

/-- A conversion logs the first reason why it fails, and nothing else. -/
theorem convertedTo_eq (target : VarType) (log : RetainingLog) : (e : Expr) →
    e.convertedTo target log = log.after (e.convert target)
  | constants cs pos => by
    rw [convertedTo, convert]
    split
    · rfl
    · rw [Constant.convertedAll_eq, RetainingLog.after_map]
  | var name ty pos => by
    rw [convertedTo, convert]
    split
    · rfl
    · split <;> rfl
  | list items pos => by
    rw [convertedTo, convert]
    split
    · rfl
    · rw [convertedItems_eq, RetainingLog.after_map]
  | converted e u pos => by
    rw [convertedTo, convert]
    split
    · rfl
    · exact convertedTo_eq target log e

theorem convertedItems_eq (target : VarType) (log : RetainingLog) : (es : List Expr) →
    convertedItems target log es = log.after (convertItems target es)
  | [] => rfl
  | e :: es => by
    rw [convertedItems, convertItems, convertedTo_eq target log e]
    cases e.convert target with
    | error reason => rfl
    | ok b =>
      rw [RetainingLog.after_map, ← convertedItems_eq target log es]
      rfl

end

end Expr

end LiveCalls
