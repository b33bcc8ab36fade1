import LoxLang.Proofs.Syntax.Nodes

/-!
The parts of a tree: its expression nodes, each with all that stands below it, and the words that it
declares or returns with. The identities of the nodes are those of the tree, in the same order.
-/
namespace LoxLang

namespace Expr

mutual

def nodes : Expr → List Expr
  | .literal site value => [.literal site value]
  | .variable site name => [.variable site name]
  | .assign site target value => .assign site target value :: nodes value
  | .group site inner => .group site inner :: nodes inner
  | .unary site op operand => .unary site op operand :: nodes operand
  | .binary site op left right => .binary site op left right :: (nodes left ++ nodes right)
  | .logical site op left right => .logical site op left right :: (nodes left ++ nodes right)
  | .call site callee arguments =>
    .call site callee arguments :: (nodes callee ++ nodesAll arguments)

def nodesAll : List Expr → List Expr
  | [] => []
  | first :: rest => nodes first ++ nodesAll rest

end

def nodesOptional : Option Expr → List Expr
  | none => []
  | some value => value.nodes

theorem self_mem_nodes (expr : Expr) : expr ∈ expr.nodes := by
  cases expr <;> simp [nodes]

theorem nodes_subset_nodesAll {values : List Expr} {value : Expr} (member : value ∈ values) :
    value.nodes ⊆ nodesAll values := by
  induction values with
  | nil => cases member
  | cons first rest ih =>
    rcases List.mem_cons.mp member with rfl | later
    · exact List.subset_append_left _ _
    · exact List.Subset.trans (ih later) (List.subset_append_right _ _)

mutual

theorem ids_eq_map : ∀ expr : Expr, expr.ids = expr.nodes.map (·.site.id)
  | .literal _ _ | .variable _ _ => rfl
  | .assign _ _ value => by simp [ids, nodes, ids_eq_map value, site]
  | .group _ inner => by simp [ids, nodes, ids_eq_map inner, site]
  | .unary _ _ operand => by simp [ids, nodes, ids_eq_map operand, site]
  | .binary _ _ left right => by simp [ids, nodes, ids_eq_map left, ids_eq_map right, site]
  | .logical _ _ left right => by simp [ids, nodes, ids_eq_map left, ids_eq_map right, site]
  | .call _ callee arguments => by
    simp [ids, nodes, ids_eq_map callee, idsAll_eq_map arguments, site]

theorem idsAll_eq_map : ∀ values : List Expr, idsAll values = (nodesAll values).map (·.site.id)
  | [] => rfl
  | first :: rest => by simp [idsAll, nodesAll, ids_eq_map first, idsAll_eq_map rest]

end

theorem idsOptional_eq_map (value : Option Expr) :
    idsOptional value = (nodesOptional value).map (·.site.id) := by
  cases value with
  | none => rfl
  | some value => exact value.ids_eq_map

end Expr

namespace Stmt

mutual

def nodes : Stmt → List Expr
  | .var _ initial => Expr.nodesOptional initial
  | .function _ _ body => nodesAll body
  | .expression value => value.nodes
  | .print value => value.nodes
  | .block body => nodesAll body
  | .ifThen test yes => test.nodes ++ nodes yes
  | .ifElse test yes no => test.nodes ++ (nodes yes ++ nodes no)
  | .loop test body => test.nodes ++ nodes body
  | .return _ value => Expr.nodesOptional value

def nodesAll : List Stmt → List Expr
  | [] => []
  | first :: rest => nodes first ++ nodesAll rest

end

theorem nodesAll_append (first last : List Stmt) :
    nodesAll (first ++ last) = nodesAll first ++ nodesAll last := by
  induction first with
  | nil => rfl
  | cons statement rest ih => simp only [List.cons_append, nodesAll, ih, List.append_assoc]

mutual

theorem ids_eq_map : ∀ stmt : Stmt, stmt.ids = stmt.nodes.map (·.site.id)
  | .var _ initial => Expr.idsOptional_eq_map initial
  | .function _ _ body => idsAll_eq_map body
  | .expression value => value.ids_eq_map
  | .print value => value.ids_eq_map
  | .block body => idsAll_eq_map body
  | .ifThen test yes => by simp [ids, nodes, test.ids_eq_map, ids_eq_map yes]
  | .ifElse test yes no => by
    simp [ids, nodes, test.ids_eq_map, ids_eq_map yes, ids_eq_map no]
  | .loop test body => by simp [ids, nodes, test.ids_eq_map, ids_eq_map body]
  | .return _ value => Expr.idsOptional_eq_map value

theorem idsAll_eq_map : ∀ body : List Stmt, idsAll body = (nodesAll body).map (·.site.id)
  | [] => rfl
  | first :: rest => by simp [idsAll, nodesAll, ids_eq_map first, idsAll_eq_map rest]

end

theorem id_mem_idsAll {body : List Stmt} {node : Expr} (member : node ∈ nodesAll body) :
    node.site.id ∈ idsAll body := by
  rw [idsAll_eq_map]
  exact List.mem_map_of_mem member

mutual

/-- The names that are declared, and the word of each return. -/
def words : Stmt → List Ident
  | .var name _ => [name]
  | .function name parameters body => name :: (parameters ++ wordsAll body)
  | .expression _ => []
  | .print _ => []
  | .block body => wordsAll body
  | .ifThen _ yes => words yes
  | .ifElse _ yes no => words yes ++ words no
  | .loop _ body => words body
  | .return line _ => [⟨"return", line⟩]

def wordsAll : List Stmt → List Ident
  | [] => []
  | first :: rest => words first ++ wordsAll rest

end

end Stmt
end LoxLang
