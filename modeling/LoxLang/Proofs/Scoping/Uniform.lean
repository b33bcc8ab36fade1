import LoxLang.Scoping

/-!
Properties that resolving has because its steps have them. What holds of looking up a name, declaring
it and defining it, and goes on from one step to the next and into a scope and out again, holds of
whole trees.
-/
namespace LoxLang.Scoping

/-- Every way in which expressions are looked at keeps the property. -/
structure Visiting (keeps : (Scoping → Scoping) → Prop) : Prop where
  nothing : keeps fun state => state
  followed {first next : Scoping → Scoping} :
    keeps first → keeps next → keeps fun state => next (first state)
  refer (id : Nat) (name : String) : keeps (Scoping.refer id name)
  read (site : Site) (name : String) : keeps (Scoping.read site name)

/-- Every way in which statements are looked at keeps it, too. A scope is closed behind what it was
opened for, and behind a function's body the place is again what it was before. -/
structure Uniform (keeps : (Scoping → Scoping) → Prop) : Prop extends Visiting keeps where
  declare (name : Ident) : keeps (Scoping.declare name)
  define (name : Ident) : keeps (Scoping.define name)
  checkReturn (line : Nat) : keeps (Scoping.checkReturn line)
  enclosed {body : Scoping → Scoping} :
    keeps body → keeps fun state => (body state.openScope).closeScope
  called {body : Scoping → Scoping} : keeps body → keeps fun state =>
    (body { state with inFunction := true }.openScope).leaveFunction state.inFunction

theorem declare_inFunction (name : Ident) (state : Scoping) :
    (state.declare name).inFunction = state.inFunction := by
  unfold declare
  split
  · rfl
  · split <;> rfl

theorem define_inFunction (name : Ident) (state : Scoping) :
    (state.define name).inFunction = state.inFunction := by
  unfold define
  split <;> rfl

theorem function_eq (name : Ident) (names : List Ident) (body : List Stmt) (state : Scoping) :
    statement (.function name names body) state =
      let declared := (state.declare name).define name
      (statements body (parameters names { declared with inFunction := true }.openScope)).leaveFunction
        declared.inFunction := by
  dsimp only
  rw [define_inFunction, declare_inFunction]
  rfl

namespace Visiting

variable {keeps : (Scoping → Scoping) → Prop} (visiting : Visiting keeps)

include visiting

mutual

theorem expression : ∀ expr : Expr, keeps (Scoping.expression expr)
  | .literal _ _ => visiting.nothing
  | .variable site name => visiting.read site name
  | .assign site target value => (visiting.followed (expression value) (visiting.refer site.id target) :)
  | .group _ inner => expression inner
  | .unary _ _ operand => expression operand
  | .binary _ _ left right | .logical _ _ left right =>
    (visiting.followed (expression left) (expression right) :)
  | .call _ callee arguments => (visiting.followed (expression callee) (expressions arguments) :)

theorem expressions : ∀ values : List Expr, keeps (Scoping.expressions values)
  | [] => visiting.nothing
  | first :: rest => (visiting.followed (expression first) (expressions rest) :)

end

theorem optional (value : Option Expr) : keeps (Scoping.optional value) := by
  cases value with
  | none => exact visiting.nothing
  | some value => exact visiting.expression value

end Visiting

namespace Uniform

variable {keeps : (Scoping → Scoping) → Prop} (uniform : Uniform keeps)

include uniform

theorem parameters (names : List Ident) : keeps (Scoping.parameters names) := by
  induction names with
  | nil => exact uniform.nothing
  | cons name rest ih =>
    exact (uniform.followed (uniform.followed (uniform.declare name) (uniform.define name)) ih :)

mutual

theorem statement : ∀ stmt : Stmt, keeps (Scoping.statement stmt)
  | .var name initial =>
    (uniform.followed (uniform.followed (uniform.declare name) (uniform.optional initial))
      (uniform.define name) :)
  | .function name names body => by
    have inside := uniform.called (uniform.followed (uniform.parameters names) (statements body))
    have whole := uniform.followed (uniform.followed (uniform.declare name) (uniform.define name)) inside
    exact funext (function_eq name names body) ▸ whole
  | .expression value | .print value => uniform.expression value
  | .block body => (uniform.enclosed (statements body) :)
  | .ifThen test yes => (uniform.followed (uniform.expression test) (statement yes) :)
  | .ifElse test yes no =>
    (uniform.followed (uniform.followed (uniform.expression test) (statement yes)) (statement no) :)
  | .loop test body => (uniform.followed (uniform.expression test) (statement body) :)
  | .return line value =>
    (uniform.followed (uniform.checkReturn line) (uniform.optional value) :)

theorem statements : ∀ body : List Stmt, keeps (Scoping.statements body)
  | [] => uniform.nothing
  | first :: rest => (uniform.followed (statement first) (statements rest) :)

end

end Uniform
end LoxLang.Scoping
