import Pseudocode.Parser.Statement

/-! # Trees at other places

A map on positions carries over to tokens, errors and trees. With a map that sends all positions to
one, two trees become equal when they differ in their spans only. -/

namespace Pseudocode

variable (f : Position → Position)

def Span.moved (s : Span) : Span :=
  ⟨f s.start, f s.stop⟩

def Token.moved (t : Token) : Token :=
  ⟨t.lexeme, f t.start, f t.stop⟩

def SyntaxError.moved (e : SyntaxError) : SyntaxError :=
  { e with position := f e.position }

def Ident.moved (id : Ident) : Ident :=
  ⟨id.name, id.span.moved f⟩

mutual

def Expr.moved : Expr → Expr
  | .hole => .hole
  | .name id => .name (id.moved f)
  | .integer value span => .integer value (span.moved f)
  | .real value span => .real value (span.moved f)
  | .string value span => .string value (span.moved f)
  | .char text span => .char text (span.moved f)
  | .boolean value span => .boolean value (span.moved f)
  | .date value span => .date value (span.moved f)
  | .unary op operand span => .unary op operand.moved (span.moved f)
  | .binary op left right span => .binary op left.moved right.moved (span.moved f)
  | .call callee arguments span => .call (callee.moved f) (Expr.allMoved arguments) (span.moved f)

def Expr.allMoved : List Expr → List Expr
  | [] => []
  | e :: rest => e.moved :: Expr.allMoved rest

end

def Param.moved (p : Param) : Param :=
  ⟨p.name.moved f, p.declared.moved f, p.byRef, p.span.moved f⟩

mutual

def Stmt.moved : Stmt → Stmt
  | .declare name declared span => .declare (name.moved f) (declared.moved f) (span.moved f)
  | .constant name declared value span =>
    .constant (name.moved f) (declared.moved f) (value.moved f) (span.moved f)
  | .assign target value span => .assign (target.moved f) (value.moved f) (span.moved f)
  | .output value span => .output (value.moved f) (span.moved f)
  | .call callee arguments span =>
    .call (callee.moved f) (arguments.map (Expr.allMoved f)) (span.moved f)
  | .returning value span => .returning (value.map (Expr.moved f)) (span.moved f)
  | .ifThen condition consequent span =>
    .ifThen (condition.moved f) (Stmt.allMoved consequent) (span.moved f)
  | .ifElse condition consequent alternate span =>
    .ifElse (condition.moved f) (Stmt.allMoved consequent) (Stmt.allMoved alternate) (span.moved f)
  | .forLoop counter first last step body span =>
    .forLoop (counter.moved f) (first.moved f) (last.moved f) (step.map (Expr.moved f))
      (Stmt.allMoved body) (span.moved f)
  | .whileLoop condition body span =>
    .whileLoop (condition.moved f) (Stmt.allMoved body) (span.moved f)
  | .doWhile body condition span =>
    .doWhile (Stmt.allMoved body) (condition.moved f) (span.moved f)
  | .procedure id params body span =>
    .procedure (id.moved f) (params.map (Param.moved f)) (Stmt.allMoved body) (span.moved f)
  | .function id params result body span =>
    .function (id.moved f) (params.map (Param.moved f)) (result.moved f) (Stmt.allMoved body)
      (span.moved f)

def Stmt.allMoved : List Stmt → List Stmt
  | [] => []
  | s :: rest => s.moved :: Stmt.allMoved rest

end

variable {f}

theorem Stmt.allMoved_eq (body : List Stmt) : Stmt.allMoved f body = body.map (Stmt.moved f) := by
  induction body with
  | nil => rw [allMoved, List.map_nil]
  | cons s rest ih => rw [allMoved, ih, List.map_cons]

@[simp] theorem Token.lexeme_moved (t : Token) : (t.moved f).lexeme = t.lexeme := rfl

@[simp] theorem Token.isEnd_moved (t : Token) : (t.moved f).isEnd = t.isEnd := rfl

/-! ## Nothing moves -/

@[simp] theorem Span.moved_id (s : Span) : s.moved id = s := rfl

@[simp] theorem Ident.moved_id (i : Ident) : i.moved id = i := rfl

@[simp] theorem Token.moved_id (t : Token) : t.moved id = t := rfl

mutual

@[simp] theorem Expr.moved_id (e : Expr) : e.moved id = e := by
  cases e with
  | unary op operand => rw [moved, Expr.moved_id operand, Span.moved_id]
  | binary op left right => rw [moved, Expr.moved_id left, Expr.moved_id right, Span.moved_id]
  | call callee arguments => rw [moved, Expr.allMoved_id arguments, Ident.moved_id, Span.moved_id]
  | _ => simp only [moved, Ident.moved_id, Span.moved_id]

@[simp] theorem Expr.allMoved_id (es : List Expr) : Expr.allMoved id es = es := by
  cases es with
  | nil => rw [allMoved]
  | cons e rest => rw [allMoved, Expr.moved_id e, Expr.allMoved_id rest]

end

theorem Expr.moved_id_eq : Expr.moved id = id := funext Expr.moved_id

theorem Expr.allMoved_id_eq : Expr.allMoved id = id := funext Expr.allMoved_id

theorem Expr.eq_of_moved_id {e e' : Expr} (same : e.moved id = e'.moved id) : e = e' := by
  simpa using same

theorem Expr.eq_of_map_moved_id {e e' : Option Expr}
    (same : e.map (moved id) = e'.map (moved id)) : e = e' := by
  simpa [Expr.moved_id_eq] using same

theorem Param.moved_id_eq : Param.moved id = id := by
  funext p
  simp [Param.moved]

theorem Param.eq_of_allMoved_id {ps ps' : List Param}
    (same : ps.map (moved id) = ps'.map (moved id)) : ps = ps' := by
  simpa [Param.moved_id_eq] using same

mutual

@[simp] theorem Stmt.moved_id (s : Stmt) : s.moved id = s := by
  cases s with
  | ifThen condition consequent => simp [moved, Stmt.allMoved_id consequent]
  | ifElse condition consequent alternate =>
    simp [moved, Stmt.allMoved_id consequent, Stmt.allMoved_id alternate]
  | forLoop counter first last step body =>
    simp [moved, Stmt.allMoved_id body, Expr.moved_id_eq]
  | whileLoop condition body => simp [moved, Stmt.allMoved_id body]
  | doWhile body condition => simp [moved, Stmt.allMoved_id body]
  | procedure name params body => simp [moved, Stmt.allMoved_id body, Param.moved_id_eq]
  | function name params result body => simp [moved, Stmt.allMoved_id body, Param.moved_id_eq]
  | _ => simp [moved, Expr.moved_id_eq, Expr.allMoved_id_eq]

@[simp] theorem Stmt.allMoved_id (body : List Stmt) : Stmt.allMoved id body = body := by
  cases body with
  | nil => rw [allMoved]
  | cons s rest => rw [allMoved, Stmt.moved_id s, Stmt.allMoved_id rest]

end

/-! ## Moving twice -/

section Twice

variable (g : Position → Position)

theorem Ident.moved_moved (i : Ident) : (i.moved f).moved g = i.moved (g ∘ f) := rfl

mutual

theorem Expr.moved_moved (e : Expr) : (e.moved f).moved g = e.moved (g ∘ f) := by
  cases e with
  | unary op operand => simp only [moved, Expr.moved_moved operand, Span.moved, Function.comp]
  | binary op left right =>
    simp only [moved, Expr.moved_moved left, Expr.moved_moved right, Span.moved, Function.comp]
  | call callee arguments =>
    simp only [moved, Expr.allMoved_allMoved arguments, Ident.moved_moved, Span.moved,
      Function.comp]
  | _ => rfl

theorem Expr.allMoved_allMoved (es : List Expr) :
    allMoved g (allMoved f es) = allMoved (g ∘ f) es := by
  cases es with
  | nil => rfl
  | cons e rest =>
    rw [allMoved, allMoved, allMoved, Expr.moved_moved e, Expr.allMoved_allMoved rest]

end

theorem Expr.map_moved_moved (e : Option Expr) :
    (e.map (moved f)).map (moved g) = e.map (moved (g ∘ f)) := by
  cases e with
  | none => rfl
  | some e => exact congrArg some (e.moved_moved g)

theorem Param.map_moved_moved (ps : List Param) :
    (ps.map (moved f)).map (moved g) = ps.map (moved (g ∘ f)) := by
  rw [List.map_map]
  refine List.map_congr_left fun p _ => ?_
  simp only [Function.comp, moved, Expr.moved_moved, Ident.moved_moved, Span.moved]

mutual

theorem Stmt.moved_moved (s : Stmt) : (s.moved f).moved g = s.moved (g ∘ f) := by
  cases s with
  | declare | constant | assign | output =>
    simp only [moved, Expr.moved_moved]
    rfl
  | returning value =>
    simp only [moved, Expr.map_moved_moved]
    rfl
  | call callee arguments =>
    cases arguments with
    | none => rfl
    | some arguments =>
      simp only [moved, Option.map_some, Expr.allMoved_allMoved]
      rfl
  | ifThen condition consequent =>
    simp only [moved, Expr.moved_moved, Stmt.allMoved_allMoved consequent]
    rfl
  | ifElse condition consequent alternate =>
    simp only [moved, Expr.moved_moved, Stmt.allMoved_allMoved consequent,
      Stmt.allMoved_allMoved alternate]
    rfl
  | forLoop counter first last step body =>
    simp only [moved, Expr.moved_moved, Expr.map_moved_moved, Stmt.allMoved_allMoved body]
    rfl
  | whileLoop condition body | doWhile body condition =>
    simp only [moved, Expr.moved_moved, Stmt.allMoved_allMoved body]
    rfl
  | procedure name params body =>
    simp only [moved, Param.map_moved_moved, Stmt.allMoved_allMoved body]
    rfl
  | function name params result body =>
    simp only [moved, Expr.moved_moved, Param.map_moved_moved, Stmt.allMoved_allMoved body]
    rfl

theorem Stmt.allMoved_allMoved (body : List Stmt) :
    allMoved g (allMoved f body) = allMoved (g ∘ f) body := by
  cases body with
  | nil => rfl
  | cons s rest =>
    rw [allMoved, allMoved, allMoved, Stmt.moved_moved s, Stmt.allMoved_allMoved rest]

end

end Twice

end Pseudocode
