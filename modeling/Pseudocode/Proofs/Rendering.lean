import Pseudocode.Proofs.Composition
import Pseudocode.Proofs.Nodes
import Pseudocode.Proofs.Numerals
import Pseudocode.Proofs.Unplaced

/-! # Programs as text

A program tree is printable when every node of it can be written down. `Program.rendered` writes a
printable program, with one statement on a line and parentheses around operands that hold operators.
Reading what is written gives the tree back, but for its spans, and whatever is read is printable,
but for its real literals. -/

namespace Pseudocode

open Program (spanOf)

/-! ## What can be written -/

/-- Whether the word is a name: it starts and goes on as a word does, and is no keyword. -/
def isName (word : String) : Bool :=
  match word.toList with
  | [] => false
  | c :: rest => isWordStart c && rest.all isWordPart && (Keyword.ofSpelling? word).isNone

/-- Whether the text can stand between two of these quotes. -/
def isQuotable (quote : Char) (text : String) : Bool :=
  text.toList.all fun c => c ≠ quote && c ≠ '\n'

def UnaryOp.isKnown : UnaryOp → Bool
  | unknown _ => false
  | _ => true

def BinaryOp.isKnown : BinaryOp → Bool
  | unknown _ => false
  | _ => true

def Expr.isTypeName : Expr → Bool
  | name _ => true
  | _ => false

/-- Whether the node itself can be written; `reals` tells whether real literals count. -/
def TreeNode.isPrintable (reals : Bool) : TreeNode → Bool
  | expr .hole => false
  | expr (.name id) => isName id.name
  | expr (.integer n _) => 0 ≤ n || n = Int64.minValue
  | expr (.real _ _) => reals
  | expr (.string value _) => isQuotable '"' value
  | expr (.char text _) => isQuotable '\'' text
  | expr (.date value _) => value.fitsDigits
  | expr (.unary op _ _) => op.isKnown
  | expr (.binary op _ _ _) => op.isKnown
  | expr (.boolean _ _) | expr (.call _ _ _) => true
  | param p => p.declared.isTypeName
  | stmt (.declare _ declared _) | stmt (.constant _ declared _ _) => declared.isTypeName
  | stmt (.function _ _ result _ _) => result.isTypeName
  | stmt _ => true

def Expr.isPrintable (reals : Bool) (e : Expr) : Bool :=
  e.nodes.all (TreeNode.isPrintable reals)

def Param.isPrintable (reals : Bool) (p : Param) : Bool :=
  p.nodes.all (TreeNode.isPrintable reals)

def Stmt.isPrintable (reals : Bool) (s : Stmt) : Bool :=
  s.nodes.all (TreeNode.isPrintable reals)

def Program.isPrintable (reals : Bool) (p : Program) : Bool :=
  p.nodes.all (TreeNode.isPrintable reals)

/-! ## How it is written -/

def UnaryOp.lexeme : UnaryOp → Lexeme
  | negate => .symbol .minus
  | not => .keyword .not
  | unknown sign => .identifier sign

def BinaryOp.lexeme : BinaryOp → Lexeme
  | or => .keyword .or
  | and => .keyword .and
  | equal => .symbol .equal
  | notEqual => .symbol .notEqual
  | less => .symbol .less
  | greater => .symbol .greater
  | lessEqual => .symbol .lessEqual
  | greaterEqual => .symbol .greaterEqual
  | join => .symbol .join
  | add => .symbol .plus
  | subtract => .symbol .minus
  | multiply => .symbol .times
  | divide => .symbol .divide
  | modulo => .keyword .mod
  | quotient => .keyword .div
  | unknown sign => .identifier sign

section Lexemes

open Lexeme (keyword symbol identifier endOfLine)

namespace Lexeme

def parenthesised (ls : List Lexeme) : List Lexeme :=
  [symbol .leftParen] ++ ls ++ [symbol .rightParen]

def separated : List (List Lexeme) → List Lexeme
  | [] => []
  | [ls] => ls
  | ls :: more :: rest => ls ++ symbol .comma :: separated (more :: rest)

end Lexeme

namespace Expr

def isCompound : Expr → Bool
  | unary _ _ _ | binary _ _ _ _ => true
  | _ => false

/-- An operand, in parentheses if it is compound itself. -/
def operandOf (compound : Bool) (ls : List Lexeme) : List Lexeme :=
  if compound then Lexeme.parenthesised ls else ls

mutual

def lexemes : Expr → List Lexeme
  | hole | real _ _ => []
  | name id => [identifier id.name]
  | integer n _ =>
    if n = Int64.minValue then [symbol .minus, .integer leastMagnitude]
    else [.integer (toString n.toNatClampNeg)]
  | string value _ => [.string value]
  | char text _ => [.char text]
  | boolean value _ => [keyword (if value then .true_ else .false_)]
  | date value _ => [.date value.shown]
  | unary op operand _ => op.lexeme :: operandOf operand.isCompound operand.lexemes
  | binary op left right _ =>
    operandOf left.isCompound left.lexemes ++
      op.lexeme :: operandOf right.isCompound right.lexemes
  | call callee arguments _ =>
    identifier callee.name :: Lexeme.parenthesised (Lexeme.separated (allLexemes arguments))

def allLexemes : List Expr → List (List Lexeme)
  | [] => []
  | e :: rest => e.lexemes :: allLexemes rest

end

end Expr

def Param.lexemes (p : Param) : List Lexeme :=
  [keyword (if p.byRef then .byRef else .byVal), identifier p.name.name, symbol .colon] ++
    p.declared.lexemes

/-- Parameters in parentheses, which are left out when there are none. -/
def Param.allLexemes (params : List Param) : List Lexeme :=
  if params.isEmpty then [] else Lexeme.parenthesised (Lexeme.separated (params.map Param.lexemes))

namespace Stmt

mutual

def lexemes : Stmt → List Lexeme
  | declare name declared _ =>
    [keyword .declare, identifier name.name, symbol .colon] ++ declared.lexemes
  | constant name declared value _ =>
    [keyword .constant, identifier name.name, symbol .colon] ++ declared.lexemes ++
      [symbol .equal] ++ value.lexemes
  | assign target value _ => [identifier target.name, symbol .assign] ++ value.lexemes
  | output value _ => [keyword .output] ++ value.lexemes
  | call callee none _ => [keyword .call, identifier callee.name]
  | call callee (some arguments) _ =>
    [keyword .call, identifier callee.name] ++
      Lexeme.parenthesised (Lexeme.separated (Expr.allLexemes arguments))
  | returning none _ => [keyword .return_]
  | returning (some value) _ => [keyword .return_] ++ value.lexemes
  | ifThen condition consequent _ =>
    [keyword .if_] ++ condition.lexemes ++ [keyword .then_] ++ [endOfLine] ++
      lines consequent ++ [keyword .endIf]
  | ifElse condition consequent alternate _ =>
    [keyword .if_] ++ condition.lexemes ++ [keyword .then_] ++ [endOfLine] ++
      lines consequent ++ [keyword .else_] ++ [endOfLine] ++ lines alternate ++
      [keyword .endIf]
  | forLoop counter first last none body _ =>
    [keyword .for_, identifier counter.name, symbol .assign] ++ first.lexemes ++
      [keyword .to_] ++ last.lexemes ++ [endOfLine] ++ lines body ++
      [keyword .next, identifier counter.name]
  | forLoop counter first last (some step) body _ =>
    [keyword .for_, identifier counter.name, symbol .assign] ++ first.lexemes ++
      [keyword .to_] ++ last.lexemes ++ [keyword .step] ++ step.lexemes ++ [endOfLine] ++
      lines body ++ [keyword .next, identifier counter.name]
  | whileLoop condition body _ =>
    [keyword .while_] ++ condition.lexemes ++ [keyword .do_] ++ [endOfLine] ++
      lines body ++ [keyword .endWhile]
  | doWhile body condition _ =>
    [keyword .do_] ++ [endOfLine] ++ lines body ++ [keyword .while_] ++ condition.lexemes
  | procedure id params body _ =>
    [keyword .procedure, identifier id.name] ++ Param.allLexemes params ++ [endOfLine] ++
      lines body ++ [keyword .endProcedure]
  | function id params result body _ =>
    [keyword .function, identifier id.name] ++ Param.allLexemes params ++
      [keyword .returns] ++ result.lexemes ++ [endOfLine] ++ lines body ++
      [keyword .endFunction]

def lines : List Stmt → List Lexeme
  | [] => []
  | s :: rest => s.lexemes ++ endOfLine :: lines rest

end

end Stmt

end Lexemes

def Lexeme.written : Lexeme → List Char
  | string body => '"' :: (body.toList ++ ['"'])
  | char body => '\'' :: (body.toList ++ ['\''])
  | l => l.text.toList

/-- The lexemes with blanks between them, except where a line ends. -/
def Text.ofLexemes : List Lexeme → List Char
  | [] => []
  | [l] => l.written
  | l :: more :: rest =>
    l.written ++ (if l = .endOfLine ∨ more = .endOfLine then [] else [' ']) ++
      ofLexemes (more :: rest)

def Program.rendered (p : Program) : List UInt8 :=
  Text.utf8 (Text.ofLexemes (Stmt.lines p.body))

/-! ## What is written is formed

The lexemes stand nowhere: tokens at one place give trees without places. -/

def Lexeme.token (l : Lexeme) : Token :=
  ⟨l, ⟨0, 0⟩, ⟨0, 0⟩⟩

def Lexeme.tokens (ls : List Lexeme) : List Token :=
  ls.map Lexeme.token

namespace Lexeme

@[simp] theorem lexeme_token (l : Lexeme) : l.token.lexeme = l := rfl

@[simp] theorem span_token (l : Lexeme) : l.token.span = .zero := rfl

@[simp] theorem tokens_cons (l : Lexeme) (ls : List Lexeme) :
    tokens (l :: ls) = l.token :: tokens ls := rfl

@[simp] theorem tokens_nil : tokens [] = [] := rfl

@[simp] theorem tokens_append (ls more : List Lexeme) :
    tokens (ls ++ more) = tokens ls ++ tokens more :=
  List.map_append

theorem spanOf_tokens (ls : List Lexeme) : spanOf (tokens ls) = .zero := by
  cases ls with
  | nil => rfl
  | cons l ls =>
    rw [spanOf, tokens, List.getLast?_map, List.getLast?_cons]
    rfl

theorem separated_tokens (parts : List (List Lexeme)) :
    Separated (parts.map tokens) (tokens (separated parts)) := by
  induction parts with
  | nil => exact .nil
  | cons ls rest ih =>
    cases rest with
    | nil => exact .one
    | cons more rest =>
      rw [separated, tokens_append]
      exact .cons rfl ih

end Lexeme

variable {ts : List Token}

theorem Derives.tokens {k : Category} {ls : List Lexeme} {f : Span → Expr}
    (derives : Derives k ts (f (spanOf ts))) (same : ts = Lexeme.tokens ls) :
    Derives k (Lexeme.tokens ls) (f .zero) := by
  subst same
  rwa [Lexeme.spanOf_tokens] at derives

theorem Forms.tokens {ls : List Lexeme} {f : Span → Stmt} (forms : Forms ts (f (spanOf ts)))
    (same : ts = Lexeme.tokens ls) : Forms (Lexeme.tokens ls) (f .zero) := by
  subst same
  rwa [Lexeme.spanOf_tokens] at forms

open Lexeme (token tokens)

/-- An expression without operators may stand between operators of any level. -/
theorem Derives.operand_of_unary {e : Expr} (derives : Derives .unary ts e) (l : Level) :
    Derives (.operand l) ts e := by
  cases l with
  | product => exact derives
  | _ => exact derives.whole_of_unary _

theorem Level.Operator.isKnown {l : Level} {lexeme : Lexeme} {op : BinaryOp}
    (isOperator : l.Operator lexeme op) : op.isKnown = true := by
  cases isOperator <;> rfl

theorem BinaryOp.exists_operator {op : BinaryOp} (known : op.isKnown = true) :
    ∃ l : Level, l.Operator op.lexeme op := by
  cases op with
  | unknown => cases known
  | _ => exact ⟨_, by constructor⟩

namespace Expr

/-- The expression is derived from what is written, alone and as an operand. -/
def Written (e : Expr) : Prop :=
  Derives (.level .or) (tokens e.lexemes) e.unplaced ∧
    Derives .unary (tokens (operandOf e.isCompound e.lexemes)) e.unplaced

theorem Written.of_unary {e : Expr} (simple : e.isCompound = false)
    (derives : Derives .unary (tokens e.lexemes) e.unplaced) : e.Written := by
  refine ⟨derives.whole_of_unary .or, ?_⟩
  rw [simple]
  exact derives

theorem Written.of_compound {e : Expr} (compound : e.isCompound = true)
    (derives : Derives (.level .or) (tokens e.lexemes) e.unplaced) : e.Written := by
  refine ⟨derives, .primary ?_⟩
  have parens := Derives.parens (t := token _) (u := token _) rfl derives rfl
  simpa [operandOf, compound, Lexeme.parenthesised] using parens

theorem isPrintable_iff {reals : Bool} {e : Expr} : e.isPrintable reals = true ↔
    (TreeNode.expr e).isPrintable reals = true ∧
      ∀ child ∈ e.children, child.isPrintable reals = true := by
  rw [isPrintable, nodes_eq, List.all_cons, List.all_flatMap, Bool.and_eq_true, List.all_eq_true]
  rfl

theorem allLexemes_eq (es : List Expr) : allLexemes es = es.map lexemes := by
  induction es with
  | nil => rw [allLexemes, List.map_nil]
  | cons e rest ih => rw [allLexemes, ih, List.map_cons]

theorem allMoved_eq (f : Position → Position) (es : List Expr) :
    allMoved f es = es.map (moved f) := by
  induction es with
  | nil => rw [allMoved, List.map_nil]
  | cons e rest ih => rw [allMoved, ih, List.map_cons]

def parts (es : List Expr) : List (List Token × Expr) :=
  es.map fun e => (tokens e.lexemes, e.unplaced)

theorem separated_parts (es : List Expr) : Separated ((parts es).map Prod.fst)
    (tokens (Lexeme.separated (allLexemes es))) := by
  have separated := Lexeme.separated_tokens (allLexemes es)
  rw [allLexemes_eq, List.map_map] at separated
  rw [allLexemes_eq, parts, List.map_map]
  exact separated

theorem snd_parts (es : List Expr) : (parts es).map Prod.snd = allMoved .nowhere es := by
  rw [allMoved_eq, parts, List.map_map]
  rfl

theorem parts_derive {es : List Expr} (written : ∀ e ∈ es, e.Written) :
    ∀ part ∈ parts es, Derives (.level .or) part.1 part.2 := by
  intro part member
  obtain ⟨e, isHere, rfl⟩ := List.mem_map.mp member
  exact (written e isHere).1

variable {span : Span}

theorem integer_written {n : Int64}
    (printable : (TreeNode.expr (.integer n span)).isPrintable false = true) :
    (integer n span).Written := by
  by_cases least : n = Int64.minValue
  · subst least
    refine .of_unary rfl ?_
    rw [lexemes, if_pos rfl]
    exact .least rfl rfl
  · have nonneg : 0 ≤ n := by simpa [TreeNode.isPrintable, least] using printable
    refine .of_unary rfl ?_
    rw [lexemes, if_neg least]
    exact .primary (.integer rfl (Literal.isInteger_toString nonneg))

theorem unary_written {op : UnaryOp} {operand : Expr} (known : op.isKnown = true)
    (written : operand.Written) : (unary op operand span).Written := by
  refine .of_compound rfl ?_
  rw [lexemes, unplaced, moved]
  cases op with
  | unknown => cases known
  | negate =>
    have negated := Derives.negate (t := token (.symbol .minus)) rfl written.2
    rw [← Lexeme.tokens_cons, Lexeme.spanOf_tokens] at negated
    exact negated.whole
  | not =>
    have whole := written.2.whole_of_unary .comparison
    have negated := Derives.not (t := token (.keyword .not)) rfl whole
    rw [← Lexeme.tokens_cons, Lexeme.spanOf_tokens] at negated
    exact negated.whole

theorem binary_written {op : BinaryOp} {left right : Expr} (known : op.isKnown = true)
    (onLeft : left.Written) (onRight : right.Written) : (binary op left right span).Written := by
  obtain ⟨l, isOperator⟩ := BinaryOp.exists_operator known
  refine .of_compound rfl ?_
  rw [lexemes, unplaced, moved]
  have derives := Derives.binary (t := token op.lexeme) (.operand (onLeft.2.operand_of_unary l))
    isOperator (onRight.2.operand_of_unary l)
  rw [← Lexeme.tokens_cons, ← Lexeme.tokens_append, Lexeme.spanOf_tokens] at derives
  exact derives.whole

theorem call_written {callee : Ident} {arguments : List Expr}
    (written : ∀ e ∈ arguments, e.Written) : (call callee arguments span).Written := by
  refine .of_unary rfl (.primary ?_)
  rw [lexemes, unplaced, moved, ← snd_parts]
  have derives := Derives.call (t := token (.identifier callee.name))
    (u := token (.symbol .leftParen)) (v := token (.symbol .rightParen)) rfl rfl
    (separated_parts arguments) (parts_derive written) rfl
  refine derives.tokens (f := fun span => .call ⟨callee.name, .zero⟩ _ span) ?_
  simp [Lexeme.parenthesised]

mutual

theorem written (e : Expr) (printable : e.isPrintable false = true) : e.Written := by
  obtain ⟨own, each⟩ := isPrintable_iff.mp printable
  cases e with
  | hole | real => cases own
  | name => exact .of_unary rfl (.primary (.name rfl))
  | string => exact .of_unary rfl (.primary (.string rfl))
  | char => exact .of_unary rfl (.primary (.char rfl))
  | boolean value =>
    cases value with
    | true => exact .of_unary rfl (.primary (.true_ rfl))
    | false => exact .of_unary rfl (.primary (.false_ rfl))
  | date value =>
    have isDate := Literal.isDate_iff.mpr (Literal.date_shown own)
    exact .of_unary rfl (.primary (.date rfl isDate))
  | integer => exact integer_written own
  | unary op operand =>
    exact unary_written own (written operand (each operand (by simp [children])))
  | binary op left right =>
    have onLeft := written left (each left (by simp [children]))
    have onRight := written right (each right (by simp [children]))
    exact binary_written own onLeft onRight
  | call callee arguments =>
    have parts := allWritten arguments fun e member => each e (by simp [children, member])
    exact call_written parts

theorem allWritten (es : List Expr) (printable : ∀ e ∈ es, e.isPrintable false = true) :
    ∀ e ∈ es, e.Written := by
  cases es with
  | nil => simp
  | cons e rest =>
    obtain ⟨first, others⟩ := List.forall_mem_cons.mp printable
    exact List.forall_mem_cons.mpr ⟨written e first, allWritten rest others⟩

end

end Expr

/-! ## Statements -/

theorem Expr.exists_name {e : Expr} (isName : e.isTypeName = true) : ∃ id, e = .name id := by
  cases e with
  | name id => exact ⟨id, rfl⟩
  | _ => cases isName

namespace Param

theorem isPrintable_iff {reals : Bool} {p : Param} : p.isPrintable reals = true ↔
    p.declared.isTypeName = true ∧ Pseudocode.isName p.name.name = true ∧
      p.declared.isPrintable reals = true := by
  rw [isPrintable, nodes, List.all_cons, List.all_cons, Bool.and_eq_true, Bool.and_eq_true]
  rfl

theorem written {p : Param} (printable : p.isPrintable false = true) (byRef : Bool) :
    Takes byRef (tokens p.lexemes) (p.moved .nowhere) := by
  obtain ⟨name, declared, isRef, span⟩ := p
  obtain ⟨type, rfl⟩ := Expr.exists_name (isPrintable_iff.mp printable).1
  cases isRef <;> exact .marked rfl rfl rfl rfl

def parts (params : List Param) : List (List Token × Param) :=
  params.map fun p => (tokens p.lexemes, p.moved .nowhere)

theorem parts_take {params : List Param} (printable : ∀ p ∈ params, p.isPrintable false = true)
    (byRef : Bool) : TakesAll byRef (parts params) := by
  induction params generalizing byRef with
  | nil => trivial
  | cons p rest ih =>
    obtain ⟨first, others⟩ := List.forall_mem_cons.mp printable
    exact ⟨written first byRef, ih others _⟩

theorem allWritten {params : List Param} (printable : ∀ p ∈ params, p.isPrintable false = true) :
    TakesList (tokens (allLexemes params)) (params.map (Param.moved .nowhere)) := by
  cases isParams : params with
  | nil => exact .none
  | cons p rest =>
    rw [← isParams]
    have separated : Separated ((parts params).map Prod.fst)
        (tokens (Lexeme.separated (params.map Param.lexemes))) := by
      have separated := Lexeme.separated_tokens (params.map Param.lexemes)
      rw [List.map_map] at separated
      rw [parts, List.map_map]
      exact separated
    have takes := TakesList.listed (t := token (.symbol .leftParen))
      (u := token (.symbol .rightParen)) rfl separated (parts_take printable false) rfl
    have all : (parts params).map Prod.snd = params.map (Param.moved .nowhere) := by
      rw [parts, List.map_map]
      rfl
    rw [all] at takes
    simpa [allLexemes, isParams, Lexeme.parenthesised] using takes

end Param

/-- A line end in front of a block belongs to it. -/
theorem Lines.after_line {ending : Ending} {parts : List (List Token)} {t : Token}
    (isLineEnd : t.lexeme = .endOfLine) (lines : Lines ending parts ts) :
    Lines ending parts (t :: ts) := by
  have more {gap : List Token} (lineEnds : LineEnds gap) : LineEnds (t :: gap) :=
    List.forall_mem_cons.mpr ⟨isLineEnd, lineEnds⟩
  cases lines with
  | nil lineEnds => exact .nil (more lineEnds)
  | last lineEnds spares closers => exact .last (more lineEnds) spares closers
  | cons lineEnds spares isEnd rest => exact .cons (more lineEnds) spares isEnd rest

/-- No statement starts with a keyword that closes a block. -/
theorem Forms.spares {s : Stmt} (forms : Forms ts s) {closers : List Keyword}
    (close : ∀ word ∈ closers, (Lexeme.keyword word).startsStmt = false) :
    (Ending.words closers).Spares ts := by
  intro c isCursor
  obtain ⟨t, ts, rfl⟩ := List.exists_cons_of_ne_nil forms.ne_nil
  have starts := forms.head_starts t rfl
  obtain rfl : c = ⟨t, t, ts⟩ := by simpa [Cursor.ofTokens?] using isCursor.symm
  simp only [Ending.reached, List.any_eq_false, decide_eq_true_eq]
  rintro word member isWord
  simp [isWord, close word member] at starts

namespace Stmt

/-- The statement is formed by what is written, and does not end the block of a loop that is closed
by its condition. -/
def Written (s : Stmt) : Prop :=
  Forms (tokens s.lexemes) s.unplaced ∧ Ending.condition.Spares (tokens s.lexemes)

theorem isPrintable_iff {reals : Bool} {s : Stmt} : s.isPrintable reals = true ↔
    (TreeNode.stmt s).isPrintable reals = true ∧ (∀ e ∈ s.exprs, e.isPrintable reals = true) ∧
      (∀ p ∈ s.params, p.isPrintable reals = true) ∧
      ∀ block ∈ s.blocks, ∀ inner ∈ block, inner.isPrintable reals = true := by
  rw [isPrintable, nodes_eq, header]
  simp only [List.all_append, List.all_cons, List.all_flatMap, Bool.and_eq_true, List.mem_flatten,
    List.all_eq_true (p := fun s : Stmt => _), List.all_eq_true (p := fun e : Expr => _),
    List.all_eq_true (p := fun p : Param => _)]
  constructor
  · rintro ⟨⟨own, exprs, params⟩, blocks⟩
    exact ⟨own, exprs, params, fun block isBlock inner member =>
      blocks inner ⟨block, isBlock, member⟩⟩
  · rintro ⟨own, exprs, params, blocks⟩
    refine ⟨⟨own, exprs, params⟩, ?_⟩
    rintro inner ⟨block, isBlock, member⟩
    exact blocks block isBlock inner member

def parts (body : List Stmt) : List (List Token × Stmt) :=
  body.map fun s => (tokens s.lexemes, s.unplaced)

theorem snd_parts (body : List Stmt) : (parts body).map Prod.snd = allMoved .nowhere body := by
  rw [allMoved_eq, parts, List.map_map]
  rfl

variable {body : List Stmt}

theorem parts_form (written : ∀ s ∈ body, s.Written) :
    ∀ part ∈ parts body, Forms part.1 part.2 := by
  intro part member
  obtain ⟨s, isHere, rfl⟩ := List.mem_map.mp member
  exact (written s isHere).1

theorem lines_parts {ending : Ending}
    (spares : ∀ s ∈ body, ending.Spares (tokens s.lexemes)) :
    Lines ending ((parts body).map Prod.fst) (tokens (lines body)) := by
  induction body with
  | nil => exact .nil .nil
  | cons s rest ih =>
    obtain ⟨first, others⟩ := List.forall_mem_cons.mp spares
    have all := Lines.cons (t := token .endOfLine) .nil first rfl (ih others)
    simpa [lines, parts] using all

theorem block_lines {closers : List Keyword} (written : ∀ s ∈ body, s.Written)
    (close : ∀ word ∈ closers, (Lexeme.keyword word).startsStmt = false) :
    Lines (.words closers) ((parts body).map Prod.fst)
      (token .endOfLine :: tokens (lines body)) :=
  (lines_parts fun s member => (written s member).1.spares close).after_line rfl

attribute [local simp] lexemes

theorem Written.of_forms {s : Stmt} (forms : Forms (tokens s.lexemes) s.unplaced)
    (head : s.lexemes.head? ≠ some (.keyword .while_)) : s.Written := by
  refine ⟨forms, ?_⟩
  intro c isCursor
  cases isLexemes : s.lexemes with
  | nil => simp [isLexemes, Cursor.ofTokens?] at isCursor
  | cons l ls =>
    obtain rfl : ⟨l.token, l.token, tokens ls⟩ = c := by
      simpa [isLexemes, Cursor.ofTokens?] using isCursor
    simp [isLexemes] at head
    simp [Ending.reached, head]

section Blocks

variable {condition first last : Expr} {id : Ident} {params : List Param} {body more : List Stmt}
  {span : Span}

variable (written : ∀ s ∈ body, s.Written)

include written

theorem forLoop_written {step : Option Expr} (starts : first.Written) (ends : last.Written)
    (steps : ∀ e ∈ step, e.Written) : (forLoop id first last step body span).Written := by
  have forms {vs : List Token} {step : Option Expr} (stepsBy : StepsBy vs step) :=
    Forms.forLoop (t := token (.keyword .for_)) (u := token (.identifier id.name))
      (v := token (.symbol .assign)) (w := token (.keyword .to_)) rfl rfl rfl starts.1 rfl ends.1
      stepsBy (block_lines written (by decide)) (parts_form written)
      (.named (t := token (.keyword .next)) (u := token (.identifier id.name)) rfl rfl)
  cases step with
  | none =>
    refine .of_forms ?_ (by simp)
    rw [lexemes, unplaced, moved, ← snd_parts]
    refine (forms .none).tokens (f := .forLoop ⟨_, .zero⟩ _ _ none _) ?_
    simp
  | some step =>
    refine .of_forms ?_ (by simp)
    rw [lexemes, unplaced, moved, ← snd_parts]
    have stepsBy := StepsBy.some (t := token (.keyword .step)) rfl (steps step rfl).1
    refine (forms stepsBy).tokens (f := .forLoop ⟨_, .zero⟩ _ _ (some _) _) ?_
    simp

variable (tests : condition.Written)

include tests

theorem ifThen_written : (ifThen condition body span).Written := by
  refine .of_forms ?_ (by simp)
  rw [lexemes, unplaced, moved, ← snd_parts]
  have forms := Forms.ifThen (t := token (.keyword .if_)) (u := token (.keyword .then_))
    (v := token (.keyword .endIf)) rfl tests.1 .nil rfl (block_lines written (by decide))
    (parts_form written) rfl
  refine forms.tokens (f := .ifThen _ _) ?_
  simp

theorem ifElse_written (others : ∀ s ∈ more, s.Written) :
    (ifElse condition body more span).Written := by
  refine .of_forms ?_ (by simp)
  rw [lexemes, unplaced, moved, ← snd_parts, ← snd_parts]
  have forms := Forms.ifElse (t := token (.keyword .if_)) (u := token (.keyword .then_))
    (v := token (.keyword .else_)) (w := token (.keyword .endIf)) rfl tests.1 .nil rfl
    (block_lines written (by decide)) (parts_form written) rfl (block_lines others (by decide))
    (parts_form others) rfl
  refine forms.tokens (f := .ifElse _ _ _) ?_
  simp

theorem whileLoop_written : (whileLoop condition body span).Written := by
  rw [Written, lexemes, unplaced, moved, ← snd_parts]
  constructor
  · have forms := Forms.whileLoop (t := token (.keyword .while_)) (v := token (.keyword .endWhile))
      rfl tests.1 (.marked (t := token (.keyword .do_)) rfl) (block_lines written (by decide))
      (parts_form written) rfl
    refine forms.tokens (f := .whileLoop _ _) ?_
    simp
  · -- The line of the condition ends in `DO`.
    have inner : ∀ t ∈ tokens (condition.lexemes ++ [Lexeme.keyword .do_]),
        t.lexeme.endsLine = false := by
      rw [Lexeme.tokens_append, List.forall_mem_append]
      exact ⟨tests.1.inner, by simp [Lexeme.endsLine]⟩
    have line := Cursor.lastOfLine_append (u := token .endOfLine) rfl (token (.keyword .while_))
      (tokens (condition.lexemes ++ [Lexeme.keyword .do_]))
      (tokens (lines body ++ [Lexeme.keyword .endWhile]))
    rw [Cursor.lastOfLine_inner inner] at line
    have isDo := congrArg Token.lexeme line
    intro c isCursor
    obtain rfl : ⟨token (.keyword .while_), token (.keyword .while_),
        tokens (condition.lexemes ++ [Lexeme.keyword .do_] ++ [Lexeme.endOfLine] ++
          lines body ++ [Lexeme.keyword .endWhile])⟩ = c := by
      simpa [Cursor.ofTokens?] using isCursor
    simpa [Ending.reached] using isDo

theorem doWhile_written : (doWhile body condition span).Written := by
  refine .of_forms ?_ (by simp)
  rw [lexemes, unplaced, moved, ← snd_parts]
  have block := (lines_parts fun s member => (written s member).2).after_line
    (t := token .endOfLine) rfl
  have forms := Forms.doWhile (t := token (.keyword .do_)) (u := token (.keyword .while_)) rfl block
    (parts_form written) rfl tests.1
  refine forms.tokens (f := .doWhile _ _) ?_
  simp

omit tests

variable (takes : ∀ p ∈ params, p.isPrintable false = true)

include takes

theorem procedure_written : (procedure id params body span).Written := by
  refine .of_forms ?_ (by simp)
  rw [lexemes, unplaced, moved, ← snd_parts]
  have forms := Forms.procedure (t := token (.keyword .procedure))
    (u := token (.identifier id.name)) (v := token (.keyword .endProcedure)) rfl rfl
    (Param.allWritten takes) (block_lines written (by decide)) (parts_form written) rfl
  refine forms.tokens (f := .procedure ⟨_, .zero⟩ _ _) ?_
  simp

theorem function_written {type : Ident} : (function id params (.name type) body span).Written := by
  refine .of_forms ?_ (by simp)
  rw [lexemes, unplaced, moved, ← snd_parts]
  have forms := Forms.function (t := token (.keyword .function)) (u := token (.identifier id.name))
    (v := token (.keyword .returns)) (w := token (.identifier type.name))
    (x := token (.keyword .endFunction)) rfl rfl (Param.allWritten takes) rfl rfl
    (block_lines written (by decide)) (parts_form written) rfl
  refine forms.tokens (f := .function ⟨_, .zero⟩ _ (.name ⟨_, .zero⟩) _) ?_
  simp [Expr.lexemes]

end Blocks

mutual

theorem written (s : Stmt) (printable : s.isPrintable false = true) : s.Written := by
  obtain ⟨own, exprs, params, blocks⟩ := isPrintable_iff.mp printable
  have each {e : Expr} (member : e ∈ s.exprs) : e.Written := e.written (exprs e member)
  cases s with
  | declare name declared =>
    obtain ⟨type, rfl⟩ := Expr.exists_name own
    exact .of_forms (.declare rfl rfl rfl rfl) (by simp)
  | constant name declared value =>
    obtain ⟨type, rfl⟩ := Expr.exists_name own
    have forms := Forms.constant (t := token (.keyword .constant))
      (u := token (.identifier name.name)) (v := token (.symbol .colon))
      (w := token (.identifier type.name)) (x := token (.symbol .equal)) rfl rfl rfl rfl (.inl rfl)
      (each (e := value) (by simp [Stmt.exprs])).1
    refine .of_forms ?_ (by simp)
    refine forms.tokens (f := .constant ⟨_, .zero⟩ (.name ⟨_, .zero⟩) _) ?_
    simp [Expr.lexemes]
  | assign target value =>
    have forms := Forms.assign (t := token (.identifier target.name)) (u := token (.symbol .assign))
      rfl rfl (each (e := value) (by simp [Stmt.exprs])).1
    refine .of_forms ?_ (by simp)
    exact forms.tokens (f := .assign ⟨_, .zero⟩ _) rfl
  | output value =>
    have forms := Forms.output (t := token (.keyword .output)) rfl
      (each (e := value) (by simp [Stmt.exprs])).1
    exact .of_forms (forms.tokens (f := .output _) rfl) (by simp)
  | call callee arguments =>
    cases arguments with
    | none => exact .of_forms (.call rfl rfl) (by simp)
    | some arguments =>
      have written : ∀ e ∈ arguments, e.Written := fun e member =>
        each (by simp [Stmt.exprs, member])
      have forms := Forms.callWith (t := token (.keyword .call))
        (u := token (.identifier callee.name)) (v := token (.symbol .leftParen))
        (w := token (.symbol .rightParen)) rfl rfl rfl (Expr.separated_parts arguments)
        (Expr.parts_derive written) rfl
      rw [Expr.snd_parts] at forms
      refine .of_forms ?_ (by simp)
      refine forms.tokens (f := .call ⟨_, .zero⟩ (some _)) ?_
      simp [Lexeme.parenthesised]
  | returning value =>
    cases value with
    | none => exact .of_forms (.returnNone rfl) (by simp)
    | some value =>
      have forms := Forms.returning (t := token (.keyword .return_)) rfl
        (each (e := value) (by simp [Stmt.exprs])).1
      refine .of_forms ?_ (by simp)
      exact forms.tokens (f := .returning (some _)) rfl
  | ifThen condition body =>
    have written := allWritten body (blocks body (by simp [Stmt.blocks]))
    exact ifThen_written written (each (by simp [Stmt.exprs]))
  | ifElse condition body more =>
    have written := allWritten body (blocks body (by simp [Stmt.blocks]))
    have others := allWritten more (blocks more (by simp [Stmt.blocks]))
    exact ifElse_written written (each (by simp [Stmt.exprs])) others
  | forLoop counter first last step body =>
    have written := allWritten body (blocks body (by simp [Stmt.blocks]))
    have steps : ∀ e ∈ step, e.Written := fun e isStep => each (by simp_all [Stmt.exprs])
    exact forLoop_written written (each (by simp [Stmt.exprs])) (each (by simp [Stmt.exprs]))
      steps
  | whileLoop condition body =>
    have written := allWritten body (blocks body (by simp [Stmt.blocks]))
    exact whileLoop_written written (each (by simp [Stmt.exprs]))
  | doWhile body condition =>
    have written := allWritten body (blocks body (by simp [Stmt.blocks]))
    exact doWhile_written written (each (by simp [Stmt.exprs]))
  | procedure id params body =>
    have written := allWritten body (blocks body (by simp [Stmt.blocks]))
    exact procedure_written written params
  | function id params result body =>
    obtain ⟨type, rfl⟩ := Expr.exists_name own
    have written := allWritten body (blocks body (by simp [Stmt.blocks]))
    exact function_written written params

theorem allWritten (body : List Stmt) (printable : ∀ s ∈ body, s.isPrintable false = true) :
    ∀ s ∈ body, s.Written := by
  cases body with
  | nil => simp
  | cons s rest =>
    obtain ⟨first, others⟩ := List.forall_mem_cons.mp printable
    exact List.forall_mem_cons.mpr ⟨written s first, allWritten rest others⟩

end

end Stmt

/-- A printable program is composed of what is written. -/
theorem Program.composes {p : Program} (printable : p.isPrintable false = true) :
    Composes (tokens (Stmt.lines p.body)) (p.body.map Stmt.unplaced) := by
  rw [isPrintable, nodes_eq, List.all_flatMap, List.all_eq_true] at printable
  have written := Stmt.allWritten p.body printable
  refine ⟨Stmt.parts p.body, Stmt.lines_parts fun s _ => ?_, Stmt.parts_form written, ?_⟩
  · exact fun c _ => rfl
  · rw [Stmt.snd_parts, Stmt.allMoved_eq]

end Pseudocode
