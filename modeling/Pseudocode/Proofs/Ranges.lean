import Pseudocode.Proofs.Composition
import Pseudocode.Proofs.Nodes

/-! # The tokens of a node

Every node of a tree that was read stands on a range of the tokens: it is derived from them and
spans them. The ranges of its children lie inside its own range. -/

namespace Pseudocode

open Program (spanOf)

/-! ## Parts of a range -/

variable {ts : List Token}

theorem Separated.within {parts : List (List Token)} (separated : Separated parts ts) :
    ∀ part ∈ parts, part <:+: ts := by
  induction separated with
  | nil => simp
  | one => simp
  | @cons ts us rest vs t _ _ ih =>
    refine List.forall_mem_cons.mpr ⟨⟨[], t :: vs, by simp⟩, fun part member => ?_⟩
    exact (ih part member).trans ⟨ts ++ [t], [], by simp⟩

theorem Lines.within {ending : Ending} {parts : List (List Token)} (lines : Lines ending parts ts) :
    ∀ part ∈ parts, part <:+: ts := by
  induction lines with
  | nil => simp
  | @last gap part => simpa using List.IsInfix.trans ⟨gap, [], by simp⟩ (List.infix_refl _)
  | @cons gap part parts ts t _ _ _ _ ih =>
    refine List.forall_mem_cons.mpr ⟨⟨gap, t :: ts, by simp⟩, fun part' member => ?_⟩
    exact (ih part' member).trans ⟨gap ++ part ++ [t], [], by simp⟩

/-- The tokens are the statements of a block, on lines of their own. -/
def Fills (ts : List Token) (body : List Stmt) : Prop :=
  ∃ (ending : Ending) (parts : List (List Token × Stmt)), Lines ending (parts.map Prod.fst) ts ∧
    (∀ part ∈ parts, Forms part.1 part.2) ∧ body = parts.map Prod.snd

theorem Composes.fills {body : List Stmt} (composes : Composes ts body) : Fills ts body := by
  obtain ⟨parts, lines, each, same⟩ := composes
  exact ⟨.input, parts, lines, each, same⟩

/-! ## Nodes on their ranges -/

/-- The node is derived from the tokens and spans them. The type that an untyped constant takes from
its value stands where the value stands. -/
inductive TreeNode.Stands : TreeNode → List Token → Prop where
  | expr {e ts} : Derives (.level .or) ts e → e.span = spanOf ts → Stands (.expr e) ts
  | implied {value ts type} : Derives (.level .or) ts value → value.span = spanOf ts →
      value.literalType? = some type → Stands (.expr (.name ⟨type, value.span⟩)) ts
  | param {byRef p ts} : Takes byRef ts p → Stands (.param p) ts
  | stmt {s ts} : Forms ts s → Stands (.stmt s) ts

/-- Some part of the tokens is the node. -/
def TreeNode.Within (n : TreeNode) (ts : List Token) : Prop :=
  ∃ us, us <:+: ts ∧ n.Stands us

theorem TreeNode.Within.mono {n : TreeNode} {us : List Token} (within : n.Within ts)
    (inside : ts <:+: us) : n.Within us := by
  obtain ⟨vs, isInfix, stands⟩ := within
  exact ⟨vs, isInfix.trans inside, stands⟩

namespace Derives

variable {k : Category} {ts : List Token} {e : Expr}

/-- The expression is derived from a part of the tokens, which it spans. -/
def Core (ts : List Token) (e : Expr) : Prop :=
  ∃ us, us <:+: ts ∧ Derives (.level .or) us e ∧ e.span = spanOf us

theorem Core.mono {us : List Token} (core : Core ts e) (inside : ts <:+: us) : Core us e := by
  obtain ⟨vs, isInfix, derives, spans⟩ := core
  exact ⟨vs, isInfix.trans inside, derives, spans⟩

theorem core_self (derives : Derives k ts e) (spans : e.span = spanOf ts) : Core ts e :=
  ⟨ts, List.infix_refl ts, derives.whole, spans⟩

/-- Parentheses around an expression do not belong to it. -/
theorem core (derives : Derives k ts e) : Core ts e := by
  induction derives with
  | level _ ih | operand _ ih | primary _ ih => exact ih
  | @parens t u ts e _ _ _ ih => exact ih.mono ⟨[t], [u], by simp⟩
  | not isHere derives => exact (Derives.not isHere derives).core_self rfl
  | binary left isOperator right => exact (Derives.binary left isOperator right).core_self rfl
  | least isHere isNext => exact (Derives.least isHere isNext).core_self rfl
  | negate isHere derives => exact (Derives.negate isHere derives).core_self rfl
  | integer isHere isValue => exact (Derives.integer isHere isValue).core_self rfl
  | real isHere isValue => exact (Derives.real isHere isValue).core_self rfl
  | string isHere => exact (Derives.string isHere).core_self rfl
  | char isHere => exact (Derives.char isHere).core_self rfl
  | date isHere isValue => exact (Derives.date isHere isValue).core_self rfl
  | true_ isHere => exact (Derives.true_ isHere).core_self rfl
  | false_ isHere => exact (Derives.false_ isHere).core_self rfl
  | name isHere => exact (Derives.name isHere).core_self rfl
  | call isName isLeft separated each isRight =>
    exact (Derives.call isName isLeft separated each isRight).core_self rfl

theorem parts_core {parts : List (List Token × Expr)}
    (separated : Separated (parts.map Prod.fst) ts)
    (each : ∀ part ∈ parts, Derives (.level .or) part.1 part.2) :
    ∀ e ∈ parts.map Prod.snd, Core ts e := by
  refine List.forall_mem_map.mpr fun part member => ?_
  have inside := separated.within part.1 (List.mem_map_of_mem member)
  exact (each part member).core.mono inside

theorem core_name {t : Token} {name : String} (isName : t.lexeme = .identifier name)
    (member : t ∈ ts) : Core ts (.name ⟨name, t.span⟩) := by
  obtain ⟨before, after, rfl⟩ := List.append_of_mem member
  exact (Derives.name isName).core.mono ⟨before, after, by simp⟩

theorem children_core (derives : Derives k ts e) : ∀ child ∈ e.children, Core ts child := by
  induction derives with
  | level _ ih | operand _ ih | primary _ ih => exact ih
  | @parens t u ts e _ _ _ ih =>
    exact fun child member => (ih child member).mono ⟨[t], [u], by simp⟩
  | @not t ts e _ derives | @negate t ts e _ derives =>
    exact List.forall_mem_singleton.mpr (derives.core.mono ⟨[t], [], by simp⟩)
  | @binary l ts us left right op t onLeft _ onRight =>
    have inside : ts <:+: ts ++ t :: us := ⟨[], t :: us, rfl⟩
    have inside' : us <:+: ts ++ t :: us := ⟨ts ++ [t], [], by simp⟩
    simpa [Expr.children] using ⟨onLeft.core.mono inside, onRight.core.mono inside'⟩
  | @call t u v name parts ts isName _ separated each _ =>
    refine List.forall_mem_cons.mpr ⟨core_name isName (by simp), fun e member => ?_⟩
    exact (parts_core separated each e member).mono ⟨[t, u], [v], by simp⟩
  | _ => simp [Expr.children]

end Derives

theorem Derives.Core.within {e : Expr} (core : Core ts e) : (TreeNode.expr e).Within ts := by
  obtain ⟨us, inside, derives, spans⟩ := core
  exact ⟨us, inside, .expr derives spans⟩

namespace Forms

open Derives (Core core_name parts_core)

variable {ts : List Token} {s : Stmt}

/-- Every body of a statement fills a part of its tokens. -/
theorem blocks_within (forms : Forms ts s) :
    ∀ block ∈ s.blocks, ∃ us, us <:+: ts ∧ Fills us block := by
  cases forms with
  | @ifThen t u v ts gap us condition parts _ _ _ _ lines each =>
    refine List.forall_mem_singleton.mpr ⟨us, ⟨[t] ++ ts ++ gap ++ [u], [v], by simp⟩, ?_⟩
    exact ⟨_, parts, lines, each, rfl⟩
  | @ifElse t u v w ts gap us vs condition parts more _ _ _ _ lines each _ lines' each' =>
    refine List.forall_mem_cons.mpr ⟨?_, List.forall_mem_singleton.mpr ?_⟩
    · exact ⟨us, ⟨[t] ++ ts ++ gap ++ [u], [v] ++ vs ++ [w], by simp⟩, _, parts, lines, each, rfl⟩
    · exact ⟨vs, ⟨[t] ++ ts ++ gap ++ [u] ++ us ++ [v], [w], by simp⟩, _, more, lines', each',
        rfl⟩
  | @forLoop t u v w name ts us vs ws closing first last step parts _ _ _ _ _ _ _ lines each =>
    refine List.forall_mem_singleton.mpr
      ⟨ws, ⟨[t] ++ [u] ++ [v] ++ ts ++ [w] ++ us ++ vs, closing, by simp⟩, ?_⟩
    exact ⟨_, parts, lines, each, rfl⟩
  | @whileLoop t v ts opening us condition parts _ _ _ lines each =>
    refine List.forall_mem_singleton.mpr ⟨us, ⟨[t] ++ ts ++ opening, [v], by simp⟩, ?_⟩
    exact ⟨_, parts, lines, each, rfl⟩
  | @doWhile t u us ts condition parts _ lines each =>
    refine List.forall_mem_singleton.mpr ⟨us, ⟨[t], [u] ++ ts, by simp⟩, ?_⟩
    exact ⟨_, parts, lines, each, rfl⟩
  | @procedure t u v name ts params us parts _ _ _ lines each =>
    refine List.forall_mem_singleton.mpr ⟨us, ⟨[t] ++ [u] ++ ts, [v], by simp⟩, ?_⟩
    exact ⟨_, parts, lines, each, rfl⟩
  | @function t u v w x name type ts params us parts _ _ _ _ _ lines each =>
    refine List.forall_mem_singleton.mpr ⟨us, ⟨[t] ++ [u] ++ ts ++ [v] ++ [w], [x], by simp⟩, ?_⟩
    exact ⟨_, parts, lines, each, rfl⟩
  | _ => simp [Stmt.blocks]

/-- The expression is the type of an untyped constant, which its value gives. -/
def Implies (ts : List Token) (s : Stmt) (e : Expr) : Prop :=
  ∃ name value span type, s = .constant name e value span ∧ e = .name ⟨type, value.span⟩ ∧
    Core ts value ∧ value.literalType? = some type

theorem exprs_core (forms : Forms ts s) : ∀ e ∈ s.exprs, Core ts e ∨ Implies ts s e := by
  have all {es : List Expr} (each : ∀ e ∈ es, Core ts e) : ∀ e ∈ es, Core ts e ∨ Implies ts s e :=
    fun e member => .inl (each e member)
  have pair {e e' : Expr} (first : Core ts e) (second : Core ts e') : ∀ x ∈ [e, e'], Core ts x :=
    List.forall_mem_cons.mpr ⟨first, List.forall_mem_singleton.mpr second⟩
  cases forms with
  | declare _ isName _ isType =>
    exact all (pair (core_name isName (by simp)) (core_name isType (by simp)))
  | @constant t u v w x name type ts value _ isName _ isType _ derives =>
    refine all (List.forall_mem_cons.mpr ⟨core_name isName (by simp), ?_⟩)
    refine pair (core_name isType (by simp)) ?_
    exact derives.core.mono ⟨[t] ++ [u] ++ [v, w] ++ [x], [], by simp⟩
  | @implied t u x name type ts value _ isName _ derives isType =>
    have inside : ts <:+: [t] ++ [u] ++ [x] ++ ts := ⟨[t] ++ [u] ++ [x], [], by simp⟩
    have core := derives.core.mono inside
    refine List.forall_mem_cons.mpr ⟨.inl (core_name isName (by simp)), ?_⟩
    refine List.forall_mem_cons.mpr ⟨.inr ?_, List.forall_mem_singleton.mpr (.inl core)⟩
    exact ⟨_, value, _, type, rfl, rfl, core, isType⟩
  | @assign t u name ts value isName _ derives =>
    refine all (pair (core_name isName (by simp)) ?_)
    exact derives.core.mono ⟨[t] ++ [u], [], by simp⟩
  | @output t ts value _ derives =>
    exact all (List.forall_mem_singleton.mpr (derives.core.mono ⟨[t], [], by simp⟩))
  | call _ isName => exact all (List.forall_mem_singleton.mpr (core_name isName (by simp)))
  | @callWith t u v w name ts parts _ isName _ separated each _ =>
    refine all (List.forall_mem_cons.mpr ⟨core_name isName (by simp), fun e member => ?_⟩)
    exact (parts_core separated each e member).mono ⟨[t] ++ [u] ++ [v], [w], by simp⟩
  | returnNone => simp [Stmt.exprs]
  | @returning t ts value _ derives =>
    exact all (List.forall_mem_singleton.mpr (derives.core.mono ⟨[t], [], by simp⟩))
  | @ifThen t u v ts gap us condition parts _ derives =>
    refine all (List.forall_mem_singleton.mpr ?_)
    exact derives.core.mono ⟨[t], gap ++ [u] ++ us ++ [v], by simp⟩
  | @ifElse t u v w ts gap us vs condition parts more _ derives =>
    refine all (List.forall_mem_singleton.mpr ?_)
    exact derives.core.mono ⟨[t], gap ++ [u] ++ us ++ [v] ++ vs ++ [w], by simp⟩
  | @forLoop t u v w name ts us vs ws closing first last step parts _ isName _ starts _ ends
      steps =>
      refine all (List.forall_mem_cons.mpr ⟨core_name isName (by simp), ?_⟩)
      refine List.forall_mem_cons.mpr ⟨?_, List.forall_mem_cons.mpr ⟨?_, ?_⟩⟩
      · exact starts.core.mono ⟨[t] ++ [u] ++ [v], [w] ++ us ++ vs ++ ws ++ closing, by simp⟩
      · exact ends.core.mono ⟨[t] ++ [u] ++ [v] ++ ts ++ [w], vs ++ ws ++ closing, by simp⟩
      · cases steps with
        | none => simp
        | @some x vs e _ derives =>
          refine List.forall_mem_singleton.mpr ?_
          exact derives.core.mono
            ⟨[t] ++ [u] ++ [v] ++ ts ++ [w] ++ us ++ [x], ws ++ closing, by simp⟩
  | @whileLoop t v ts opening us condition parts _ derives =>
    refine all (List.forall_mem_singleton.mpr ?_)
    exact derives.core.mono ⟨[t], opening ++ us ++ [v], by simp⟩
  | @doWhile t u us ts condition parts _ _ _ _ derives =>
    refine all (List.forall_mem_singleton.mpr ?_)
    exact derives.core.mono ⟨[t] ++ us ++ [u], [], by simp⟩
  | procedure _ isName => exact all (List.forall_mem_singleton.mpr (core_name isName (by simp)))
  | function _ isName _ _ isType =>
    exact all (pair (core_name isName (by simp)) (core_name isType (by simp)))

theorem exprs_within (forms : Forms ts s) : ∀ e ∈ s.exprs, (TreeNode.expr e).Within ts := by
  intro e member
  rcases forms.exprs_core e member with core | ⟨name, value, span, type, -, rfl, core, isType⟩
  · exact core.within
  · obtain ⟨us, inside, derives, spans⟩ := core
    exact ⟨us, inside, .implied derives spans isType⟩

theorem params_within (forms : Forms ts s) : ∀ p ∈ s.params, (TreeNode.param p).Within ts := by
  have listed {us params} (takes : TakesList us params) (inside : us <:+: ts) :
      ∀ p ∈ params, (TreeNode.param p).Within ts := by
    cases takes with
    | none => simp
    | @listed t u us parts _ separated each =>
      have all {byRef} {parts : List (List Token × Param)} (each : TakesAll byRef parts) :
          ∀ part ∈ parts, ∃ byRef, Takes byRef part.1 part.2 := by
        induction parts generalizing byRef with
        | nil => simp
        | cons part parts ih => exact List.forall_mem_cons.mpr ⟨⟨byRef, each.1⟩, ih each.2⟩
      refine List.forall_mem_map.mpr fun part member => ?_
      obtain ⟨byRef, takes⟩ := all each part member
      have part_inside := separated.within part.1 (List.mem_map_of_mem member)
      have inside' : us <:+: [t] ++ us ++ [u] := ⟨[t], [u], rfl⟩
      exact ⟨part.1, part_inside.trans (inside'.trans inside), .param takes⟩
  cases forms with
  | @procedure t u v name us params ws parts _ _ takes =>
    exact listed takes ⟨[t] ++ [u], ws ++ [v], by simp⟩
  | @function t u v w x name type us params ws parts _ _ takes =>
    exact listed takes ⟨[t] ++ [u], [v] ++ [w] ++ ws ++ [x], by simp⟩
  | _ => simp [Stmt.params]

end Forms

theorem Fills.within {body : List Stmt} (fills : Fills ts body) :
    ∀ s ∈ body, (TreeNode.stmt s).Within ts := by
  obtain ⟨ending, parts, lines, each, rfl⟩ := fills
  refine List.forall_mem_map.mpr fun part member => ?_
  exact ⟨part.1, lines.within part.1 (List.mem_map_of_mem member), .stmt (each part member)⟩

namespace TreeNode.Stands

variable {n : TreeNode} {ts : List Token}

theorem spans (stands : n.Stands ts) : n.span = spanOf ts := by
  cases stands with
  | expr _ spans => exact spans
  | implied _ spans => exact spans
  | param takes => cases takes <;> rfl
  | stmt forms => cases forms <;> rfl

theorem ne_nil (stands : n.Stands ts) : ts ≠ [] := by
  cases stands with
  | expr derives | implied derives => exact derives.ne_nil
  | param takes => cases takes <;> simp
  | stmt forms => exact forms.ne_nil

theorem children_within (stands : n.Stands ts) : ∀ child ∈ n.children, child.Within ts := by
  cases stands with
  | expr derives =>
    exact List.forall_mem_map.mpr fun child member => (derives.children_core child member).within
  | implied => simp [children, Expr.children]
  | param takes =>
    cases takes with
    | marked _ isName _ isType | unmarked isName _ isType =>
      exact List.forall_mem_cons.mpr ⟨(Derives.core_name isName (by simp)).within,
        List.forall_mem_singleton.mpr (Derives.core_name isType (by simp)).within⟩
  | stmt forms =>
    simp only [children, List.forall_mem_append, List.forall_mem_map, List.forall_mem_flatten]
    refine ⟨⟨forms.exprs_within, forms.params_within⟩, fun block isBlock s member => ?_⟩
    obtain ⟨us, inside, fills⟩ := forms.blocks_within block isBlock
    exact (fills.within s member).mono inside

end TreeNode.Stands

/-- Every node of a program stands inside the tokens that compose it. -/
theorem Composes.within {p : Program} (composes : Composes ts p.body) :
    ∀ n ∈ p.nodes, n.Within ts := by
  have hereditary : TreeNode.Hereditary fun n => n.Within ts := by
    rintro n ⟨us, inside, stands⟩ child member
    exact (stands.children_within child member).mono inside
  exact p.forall_nodes hereditary composes.fills.within

end Pseudocode
