import LoxLang.Proofs.Scoping.Renaming

/-!
Trees that are spelt differently. Whatever a renaming does, the tree stays the same but for some places
that have the new name where they had the old one.
-/
namespace LoxLang

/-- The same name, or the new one for the old one. -/
inductive NameRespelt (old fresh : String) : String → String → Prop
  | kept (name : String) : NameRespelt old fresh name name
  | changed : NameRespelt old fresh old fresh

structure Ident.Respelt (old fresh : String) (name other : Ident) : Prop where
  spelling : NameRespelt old fresh name.name other.name
  line : other.line = name.line

inductive Expr.Respelt (old fresh : String) : Expr → Expr → Prop
  | literal (site : Site) (value : Literal) : Respelt old fresh (.literal site value) (.literal site value)
  | variable {site : Site} {name other : String} : NameRespelt old fresh name other →
    Respelt old fresh (.variable site name) (.variable site other)
  | assign {site : Site} {target other : String} {value same : Expr} :
    NameRespelt old fresh target other → Respelt old fresh value same →
    Respelt old fresh (.assign site target value) (.assign site other same)
  | group {site : Site} {inner other : Expr} : Respelt old fresh inner other →
    Respelt old fresh (.group site inner) (.group site other)
  | unary {site : Site} {op : UnaryOp} {operand other : Expr} : Respelt old fresh operand other →
    Respelt old fresh (.unary site op operand) (.unary site op other)
  | binary {site : Site} {op : BinaryOp} {left right otherLeft otherRight : Expr} :
    Respelt old fresh left otherLeft → Respelt old fresh right otherRight →
    Respelt old fresh (.binary site op left right) (.binary site op otherLeft otherRight)
  | logical {site : Site} {op : LogicalOp} {left right otherLeft otherRight : Expr} :
    Respelt old fresh left otherLeft → Respelt old fresh right otherRight →
    Respelt old fresh (.logical site op left right) (.logical site op otherLeft otherRight)
  | call {site : Site} {callee other : Expr} {arguments others : List Expr} :
    Respelt old fresh callee other → List.Forall₂ (Respelt old fresh) arguments others →
    Respelt old fresh (.call site callee arguments) (.call site other others)

inductive Stmt.Respelt (old fresh : String) : Stmt → Stmt → Prop
  | var {name other : Ident} {initial value : Option Expr} : name.Respelt old fresh other →
    Option.Rel (Expr.Respelt old fresh) initial value →
    Respelt old fresh (.var name initial) (.var other value)
  | function {name other : Ident} {parameters others : List Ident} {body same : List Stmt} :
    name.Respelt old fresh other → List.Forall₂ (Ident.Respelt old fresh) parameters others →
    List.Forall₂ (Respelt old fresh) body same →
    Respelt old fresh (.function name parameters body) (.function other others same)
  | expression {value other : Expr} : value.Respelt old fresh other →
    Respelt old fresh (.expression value) (.expression other)
  | print {value other : Expr} : value.Respelt old fresh other →
    Respelt old fresh (.print value) (.print other)
  | block {body other : List Stmt} : List.Forall₂ (Respelt old fresh) body other →
    Respelt old fresh (.block body) (.block other)
  | ifThen {test otherTest : Expr} {yes otherYes : Stmt} : test.Respelt old fresh otherTest →
    Respelt old fresh yes otherYes →
    Respelt old fresh (.ifThen test yes) (.ifThen otherTest otherYes)
  | ifElse {test otherTest : Expr} {yes no otherYes otherNo : Stmt} :
    test.Respelt old fresh otherTest → Respelt old fresh yes otherYes →
    Respelt old fresh no otherNo →
    Respelt old fresh (.ifElse test yes no) (.ifElse otherTest otherYes otherNo)
  | loop {test otherTest : Expr} {body other : Stmt} : test.Respelt old fresh otherTest →
    Respelt old fresh body other → Respelt old fresh (.loop test body) (.loop otherTest other)
  | return {line : Nat} {value other : Option Expr} :
    Option.Rel (Expr.Respelt old fresh) value other →
    Respelt old fresh (.return line value) (.return line other)

section Itself

variable {old fresh : String}

theorem Ident.respelt_itself (name : Ident) : name.Respelt old fresh name := ⟨.kept _, rfl⟩

theorem Ident.respelt_list : ∀ names : List Ident,
    List.Forall₂ (Ident.Respelt old fresh) names names
  | [] => .nil
  | first :: rest => .cons first.respelt_itself (Ident.respelt_list rest)

mutual

theorem Expr.respelt_itself : ∀ expr : Expr, expr.Respelt old fresh expr
  | .literal site value => .literal site value
  | .variable _ name => .variable (.kept name)
  | .assign _ target value => .assign (.kept target) value.respelt_itself
  | .group _ inner => .group inner.respelt_itself
  | .unary _ _ operand => .unary operand.respelt_itself
  | .binary _ _ left right => .binary left.respelt_itself right.respelt_itself
  | .logical _ _ left right => .logical left.respelt_itself right.respelt_itself
  | .call _ callee arguments => .call callee.respelt_itself (Expr.respelt_list arguments)

theorem Expr.respelt_list : ∀ values : List Expr, List.Forall₂ (Expr.Respelt old fresh) values values
  | [] => .nil
  | first :: rest => .cons first.respelt_itself (Expr.respelt_list rest)

end

theorem Expr.respelt_optional (value : Option Expr) :
    Option.Rel (Expr.Respelt old fresh) value value := by
  cases value with
  | none => exact .none
  | some value => exact .some value.respelt_itself

mutual

theorem Stmt.respelt_itself : ∀ stmt : Stmt, stmt.Respelt old fresh stmt
  | .var name initial => .var name.respelt_itself (Expr.respelt_optional initial)
  | .function name parameters body =>
    .function name.respelt_itself (Ident.respelt_list parameters) (Stmt.respelt_list body)
  | .expression value => .expression value.respelt_itself
  | .print value => .print value.respelt_itself
  | .block body => .block (Stmt.respelt_list body)
  | .ifThen test yes => .ifThen test.respelt_itself yes.respelt_itself
  | .ifElse test yes no => .ifElse test.respelt_itself yes.respelt_itself no.respelt_itself
  | .loop test body => .loop test.respelt_itself body.respelt_itself
  | .return _ value => .return (Expr.respelt_optional value)

theorem Stmt.respelt_list : ∀ body : List Stmt, List.Forall₂ (Stmt.Respelt old fresh) body body
  | [] => .nil
  | first :: rest => .cons first.respelt_itself (Stmt.respelt_list rest)

end

end Itself

section Renamed

variable {change : Rename}

theorem Rename.called_respelt (depth : Nat) (distance : Option Nat) (name : String) :
    NameRespelt change.old change.fresh name (change.called depth distance name) := by
  unfold called
  split
  · rename_i bound
    rw [bound.1]
    exact .changed
  · exact .kept name

mutual

theorem Expr.rename_respelt (depth : Nat) : ∀ expr : Expr,
    expr.Respelt change.old change.fresh (expr.rename change depth)
  | .literal site value => .literal site value
  | .variable _ _ => .variable (Rename.called_respelt depth _ _)
  | .assign _ _ value => .assign (Rename.called_respelt depth _ _) (value.rename_respelt depth)
  | .group _ inner => .group (inner.rename_respelt depth)
  | .unary _ _ operand => .unary (operand.rename_respelt depth)
  | .binary _ _ left right => .binary (left.rename_respelt depth) (right.rename_respelt depth)
  | .logical _ _ left right => .logical (left.rename_respelt depth) (right.rename_respelt depth)
  | .call _ callee arguments =>
    .call (callee.rename_respelt depth) (Expr.renameAll_respelt depth arguments)

theorem Expr.renameAll_respelt (depth : Nat) : ∀ values : List Expr,
    List.Forall₂ (Expr.Respelt change.old change.fresh) values (Expr.renameAll change depth values)
  | [] => .nil
  | first :: rest => .cons (first.rename_respelt depth) (Expr.renameAll_respelt depth rest)

end

theorem Expr.renameOptional_respelt (depth : Nat) (value : Option Expr) :
    Option.Rel (Expr.Respelt change.old change.fresh) value
      (value.map (Expr.rename change depth)) := by
  cases value with
  | none => exact .none
  | some value => exact .some (value.rename_respelt depth)

mutual

theorem Stmt.rename_respelt : ∀ (stmt : Stmt) (depth : Nat),
    stmt.Respelt change.old change.fresh (stmt.rename change depth)
  | .var name initial, depth => .var name.respelt_itself (Expr.renameOptional_respelt depth initial)
  | .function name parameters body, depth =>
    .function name.respelt_itself (Ident.respelt_list parameters)
      (Stmt.renameAll_respelt body (depth + 1))
  | .expression value, depth => .expression (value.rename_respelt depth)
  | .print value, depth => .print (value.rename_respelt depth)
  | .block body, depth => .block (Stmt.renameAll_respelt body (depth + 1))
  | .ifThen test yes, depth => .ifThen (test.rename_respelt depth) (yes.rename_respelt depth)
  | .ifElse test yes no, depth =>
    .ifElse (test.rename_respelt depth) (yes.rename_respelt depth) (no.rename_respelt depth)
  | .loop test body, depth => .loop (test.rename_respelt depth) (body.rename_respelt depth)
  | .return _ value, depth => .return (Expr.renameOptional_respelt depth value)

theorem Stmt.renameAll_respelt : ∀ (body : List Stmt) (depth : Nat),
    List.Forall₂ (Stmt.Respelt change.old change.fresh) body (Stmt.renameAll change depth body)
  | [], _ => .nil
  | first :: rest, depth => .cons (first.rename_respelt depth) (Stmt.renameAll_respelt rest depth)

end

variable {stmt renamed : Stmt} {body other : List Stmt}

theorem Stmt.RenamedVar.respelt (var : RenamedVar change body other) :
    List.Forall₂ (Stmt.Respelt change.old change.fresh) body other := by
  cases var with
  | @mk front back line initial =>
    exact List.rel_append (Stmt.respelt_list front) (.cons
      (.var ⟨.changed, rfl⟩ (Expr.renameOptional_respelt 0 initial)) (Stmt.renameAll_respelt back 0))

theorem Stmt.Renamed.respelt (renames : Renamed change stmt renamed) :
    stmt.Respelt change.old change.fresh renamed := by
  cases renames with
  | @parameter name front back line body =>
    exact .function name.respelt_itself
      (List.rel_append (Ident.respelt_list front)
        (.cons ⟨.changed, rfl⟩ (Ident.respelt_list back)))
      (Stmt.renameAll_respelt body 0)
  | @functionVar name parameters body other var =>
    exact .function name.respelt_itself (Ident.respelt_list parameters) var.respelt
  | blockVar var => exact .block var.respelt

theorem Stmt.Within.respelt (within : Within (Stmt.Renamed change) stmt renamed) :
    stmt.Respelt change.old change.fresh renamed := by
  induction within with
  | whole renames => exact renames.respelt
  | @function name parameters front back _ _ _ ih =>
    exact .function name.respelt_itself (Ident.respelt_list parameters)
      (List.rel_append (Stmt.respelt_list front) (.cons ih (Stmt.respelt_list back)))
  | @block front back _ _ _ ih =>
    exact .block (List.rel_append (Stmt.respelt_list front) (.cons ih (Stmt.respelt_list back)))
  | @ifThen test _ _ _ ih => exact .ifThen test.respelt_itself ih
  | @yes test _ no _ _ ih => exact .ifElse test.respelt_itself ih no.respelt_itself
  | @no test yes _ _ _ ih => exact .ifElse test.respelt_itself yes.respelt_itself ih
  | @loop test _ _ _ ih => exact .loop test.respelt_itself ih

theorem respelt_renamed (renames : Stmt.WithinAll (Stmt.Renamed change) body other) :
    List.Forall₂ (Stmt.Respelt change.old change.fresh) body other := by
  obtain ⟨front, stmt, renamed, back, rfl, rfl, within⟩ := renames
  exact List.rel_append (Stmt.respelt_list front)
    (.cons within.respelt (Stmt.respelt_list back))

end Renamed
end LoxLang
