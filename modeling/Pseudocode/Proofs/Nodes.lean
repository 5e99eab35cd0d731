import Pseudocode.Tree

/-! # The nodes of a program

A tree is made of expressions, parameters and statements. `Program.nodes` lists them all; a name
that is declared, assigned to or called is a node of its own. -/

namespace Pseudocode

inductive TreeNode where
  | expr (e : Expr)
  | param (p : Param)
  | stmt (s : Stmt)

/-! ## What a node holds -/

def Expr.children : Expr → List Expr
  | unary _ operand _ => [operand]
  | binary _ left right _ => [left, right]
  | call callee arguments _ => .name callee :: arguments
  | _ => []

namespace Stmt

/-- The expressions of a statement, without those of its parameters and of the statements in it. -/
def exprs : Stmt → List Expr
  | declare name declared _ => [.name name, declared]
  | constant name declared value _ => [.name name, declared, value]
  | assign target value _ => [.name target, value]
  | output value _ => [value]
  | call callee arguments _ => .name callee :: arguments.getD []
  | returning value _ => value.toList
  | ifThen condition _ _ | ifElse condition _ _ _ => [condition]
  | forLoop counter first last step _ _ => .name counter :: first :: last :: step.toList
  | whileLoop condition _ _ | doWhile _ condition _ => [condition]
  | procedure id _ _ _ => [.name id]
  | function id _ result _ _ => [.name id, result]

def params : Stmt → List Param
  | procedure _ params _ _ | function _ params _ _ _ => params
  | _ => []

def blocks : Stmt → List (List Stmt)
  | ifThen _ consequent _ => [consequent]
  | ifElse _ consequent alternate _ => [consequent, alternate]
  | forLoop _ _ _ _ body _ | whileLoop _ body _ | doWhile body _ _ => [body]
  | procedure _ _ body _ | function _ _ _ body _ => [body]
  | _ => []

end Stmt

namespace TreeNode

def span : TreeNode → Span
  | expr e => e.span
  | param p => p.span
  | stmt s => s.span

def children : TreeNode → List TreeNode
  | expr e => e.children.map expr
  | param p => [expr (.name p.name), expr p.declared]
  | stmt s => s.exprs.map expr ++ s.params.map param ++ s.blocks.flatten.map stmt

end TreeNode

/-! ## All the nodes of a tree -/

mutual

def Expr.nodes : Expr → List TreeNode
  | .unary op operand span => .expr (.unary op operand span) :: operand.nodes
  | .binary op left right span => .expr (.binary op left right span) :: (left.nodes ++ right.nodes)
  | .call callee arguments span =>
    .expr (.call callee arguments span) :: .expr (.name callee) :: Expr.allNodes arguments
  | e => [.expr e]

def Expr.allNodes : List Expr → List TreeNode
  | [] => []
  | e :: rest => e.nodes ++ Expr.allNodes rest

end

def Param.nodes (p : Param) : List TreeNode :=
  .param p :: .expr (.name p.name) :: p.declared.nodes

/-- The nodes of a statement that are not in its bodies. -/
def Stmt.header (s : Stmt) : List TreeNode :=
  .stmt s :: (s.exprs.flatMap Expr.nodes ++ s.params.flatMap Param.nodes)

mutual

def Stmt.nodes : Stmt → List TreeNode
  | .ifThen condition consequent span =>
    Stmt.header (.ifThen condition consequent span) ++ Stmt.allNodes consequent
  | .ifElse condition consequent alternate span =>
    Stmt.header (.ifElse condition consequent alternate span) ++
      (Stmt.allNodes consequent ++ Stmt.allNodes alternate)
  | .forLoop counter first last step body span =>
    Stmt.header (.forLoop counter first last step body span) ++ Stmt.allNodes body
  | .whileLoop condition body span =>
    Stmt.header (.whileLoop condition body span) ++ Stmt.allNodes body
  | .doWhile body condition span =>
    Stmt.header (.doWhile body condition span) ++ Stmt.allNodes body
  | .procedure id params body span =>
    Stmt.header (.procedure id params body span) ++ Stmt.allNodes body
  | .function id params result body span =>
    Stmt.header (.function id params result body span) ++ Stmt.allNodes body
  | s => s.header

def Stmt.allNodes : List Stmt → List TreeNode
  | [] => []
  | s :: rest => s.nodes ++ Stmt.allNodes rest

end

def Program.nodes (p : Program) : List TreeNode :=
  Stmt.allNodes p.body

/-! ## Nodes and what they hold -/

theorem Expr.allNodes_eq (es : List Expr) : Expr.allNodes es = es.flatMap Expr.nodes := by
  induction es with
  | nil => rw [allNodes, List.flatMap_nil]
  | cons e rest ih => rw [allNodes, ih, List.flatMap_cons]

theorem Stmt.allNodes_eq (body : List Stmt) : Stmt.allNodes body = body.flatMap Stmt.nodes := by
  induction body with
  | nil => rw [allNodes, List.flatMap_nil]
  | cons s rest ih => rw [allNodes, ih, List.flatMap_cons]

theorem Expr.nodes_eq (e : Expr) : e.nodes = .expr e :: e.children.flatMap Expr.nodes := by
  cases e <;> simp [nodes, children, allNodes_eq]

theorem Stmt.nodes_eq (s : Stmt) : s.nodes = s.header ++ s.blocks.flatten.flatMap Stmt.nodes := by
  cases s <;> simp [nodes, blocks, allNodes_eq]

theorem Program.nodes_eq (p : Program) : p.nodes = p.body.flatMap Stmt.nodes :=
  Stmt.allNodes_eq p.body

theorem Expr.mem_nodes (e : Expr) : .expr e ∈ e.nodes := by
  rw [nodes_eq]
  exact List.mem_cons_self

theorem Stmt.mem_nodes (s : Stmt) : .stmt s ∈ s.nodes := by
  rw [nodes_eq, header]
  simp

theorem Program.mem_nodes {p : Program} {s : Stmt} (member : s ∈ p.body) : .stmt s ∈ p.nodes := by
  rw [nodes_eq]
  exact List.mem_flatMap.mpr ⟨s, member, s.mem_nodes⟩

/-! ## What holds of all nodes -/

/-- What holds of a node holds of its children. -/
def TreeNode.Hereditary (P : TreeNode → Prop) : Prop :=
  ∀ n, P n → ∀ m ∈ n.children, P m

section Closure

variable {P : TreeNode → Prop}

mutual

theorem Expr.forall_nodes (step : TreeNode.Hereditary P) (e : Expr) (holds : P (.expr e)) :
    ∀ n ∈ e.nodes, P n := by
  have each (child : Expr) (member : child ∈ e.children) : P (.expr child) :=
    step _ holds _ (List.mem_map_of_mem member)
  cases e with
  | unary op operand span =>
    rw [nodes, List.forall_mem_cons]
    exact ⟨holds, Expr.forall_nodes step operand (each operand (by simp [children]))⟩
  | binary op left right span =>
    rw [nodes, List.forall_mem_cons, List.forall_mem_append]
    exact ⟨holds, Expr.forall_nodes step left (each left (by simp [children])),
      Expr.forall_nodes step right (each right (by simp [children]))⟩
  | call callee arguments span =>
    rw [nodes, List.forall_mem_cons, List.forall_mem_cons]
    exact ⟨holds, each (.name callee) (by simp [children]),
      Expr.forall_allNodes step arguments fun e member => each e (by simp [children, member])⟩
  | _ => simpa [nodes] using holds

theorem Expr.forall_allNodes (step : TreeNode.Hereditary P) (es : List Expr)
    (each : ∀ e ∈ es, P (.expr e)) :
    ∀ n ∈ Expr.allNodes es, P n := by
  cases es with
  | nil => simp [allNodes]
  | cons e rest =>
    obtain ⟨first, others⟩ := List.forall_mem_cons.mp each
    rw [allNodes, List.forall_mem_append]
    exact ⟨Expr.forall_nodes step e first, Expr.forall_allNodes step rest others⟩

end

theorem Param.forall_nodes (step : TreeNode.Hereditary P) (p : Param) (holds : P (.param p)) :
    ∀ n ∈ p.nodes, P n := by
  have each := step _ holds
  simp only [TreeNode.children, List.forall_mem_cons] at each
  rw [nodes, List.forall_mem_cons, List.forall_mem_cons]
  exact ⟨holds, each.1, Expr.forall_nodes step p.declared each.2.1⟩

theorem Stmt.forall_header (step : TreeNode.Hereditary P) (s : Stmt) (holds : P (.stmt s)) :
    ∀ n ∈ s.header, P n := by
  have each := step _ holds
  simp only [TreeNode.children, List.forall_mem_append, List.forall_mem_map] at each
  simp only [header, List.forall_mem_cons, List.forall_mem_append, List.forall_mem_flatMap]
  exact ⟨holds, fun e member => Expr.forall_nodes step e (each.1.1 e member),
    fun p member => Param.forall_nodes step p (each.1.2 p member)⟩

mutual

theorem Stmt.forall_nodes (step : TreeNode.Hereditary P) (s : Stmt) (holds : P (.stmt s)) :
    ∀ n ∈ s.nodes, P n := by
  have own := Stmt.forall_header step s holds
  have each (inner : Stmt) (member : inner ∈ s.blocks.flatten) : P (.stmt inner) :=
    step _ holds _ (List.mem_append_right _ (List.mem_map_of_mem member))
  cases s with
  | ifThen condition body | forLoop counter first last more body | whileLoop condition body
  | doWhile body | procedure id params body | function id params result body =>
    rw [nodes, List.forall_mem_append]
    exact ⟨own, Stmt.forall_allNodes step body fun s member => each s (by simp [blocks, member])⟩
  | ifElse condition body more =>
    rw [nodes, List.forall_mem_append, List.forall_mem_append]
    exact ⟨own, Stmt.forall_allNodes step body fun s member => each s (by simp [blocks, member]),
      Stmt.forall_allNodes step more fun s member => each s (by simp [blocks, member])⟩
  | _ => simpa only [nodes] using own

theorem Stmt.forall_allNodes (step : TreeNode.Hereditary P) (body : List Stmt)
    (each : ∀ s ∈ body, P (.stmt s)) :
    ∀ n ∈ Stmt.allNodes body, P n := by
  cases body with
  | nil => simp [allNodes]
  | cons s rest =>
    obtain ⟨first, others⟩ := List.forall_mem_cons.mp each
    rw [allNodes, List.forall_mem_append]
    exact ⟨Stmt.forall_nodes step s first, Stmt.forall_allNodes step rest others⟩

end

/-- What holds of the statements of a program, and of every child of a node it holds of, holds of
all its nodes. -/
theorem Program.forall_nodes (step : TreeNode.Hereditary P) (p : Program)
    (each : ∀ s ∈ p.body, P (.stmt s)) : ∀ n ∈ p.nodes, P n :=
  Stmt.forall_allNodes step p.body each

end Closure

def TreeNode.nodes : TreeNode → List TreeNode
  | expr e => e.nodes
  | param p => p.nodes
  | stmt s => s.nodes

theorem TreeNode.mem_nodes (n : TreeNode) : n ∈ n.nodes := by
  cases n with
  | expr e => exact e.mem_nodes
  | param p => exact List.mem_cons_self
  | stmt s => exact s.mem_nodes

theorem TreeNode.nodes_subset {n m : TreeNode} (isChild : m ∈ n.children) : m.nodes ⊆ n.nodes := by
  cases n with
  | expr e =>
    obtain ⟨child, member, rfl⟩ := List.mem_map.mp isChild
    rw [nodes, nodes, e.nodes_eq]
    exact List.subset_cons_of_subset _ fun n isNode =>
      List.mem_flatMap.mpr ⟨child, member, isNode⟩
  | param p =>
    simp only [children, List.mem_cons, List.not_mem_nil, or_false] at isChild
    rcases isChild with rfl | rfl
    · simp [nodes, Param.nodes, Expr.nodes]
    · exact fun n isNode => List.mem_cons_of_mem _ (List.mem_cons_of_mem _ isNode)
  | stmt s =>
    simp only [children, List.mem_append, List.mem_map] at isChild
    intro n isNode
    rw [nodes, s.nodes_eq, Stmt.header]
    simp only [List.mem_append, List.mem_cons, List.mem_flatMap]
    rcases isChild with (⟨e, member, rfl⟩ | ⟨p, member, rfl⟩) | ⟨inner, member, rfl⟩
    · exact .inl (.inr (.inl ⟨e, member, isNode⟩))
    · exact .inl (.inr (.inr ⟨p, member, isNode⟩))
    · exact .inr ⟨inner, member, isNode⟩

/-- What a node of a program holds is a node of the program. -/
theorem Program.mem_nodes_of_child {p : Program} {n m : TreeNode} (isNode : n ∈ p.nodes)
    (isChild : m ∈ n.children) : m ∈ p.nodes := by
  have hereditary : TreeNode.Hereditary fun n => n.nodes ⊆ p.nodes :=
    fun n below m isChild => List.Subset.trans (TreeNode.nodes_subset isChild) below
  have all := p.forall_nodes hereditary fun s member n isNode => by
    rw [p.nodes_eq]
    exact List.mem_flatMap.mpr ⟨s, member, isNode⟩
  exact hereditary n (all n isNode) m isChild m.mem_nodes

end Pseudocode
