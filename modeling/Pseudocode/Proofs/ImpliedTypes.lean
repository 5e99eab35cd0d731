import Pseudocode.Proofs.Composition
import Pseudocode.Proofs.Kinds
import Pseudocode.Proofs.Nodes
import Pseudocode.Proofs.Permanence
import Pseudocode.Proofs.Resolution

/-! # Constants without a type

A constant that is declared without a type gets one from its value, which has to be a literal with
signs in front. The type is chosen when the program is read, and the value is checked against it when
the program runs. The check cannot fail: whatever a sign makes of a literal is of the literal's kind,
and as long as nothing hides the name of the kind it stands for the type it always stood for. -/

namespace Pseudocode

/-! ## What is read -/

namespace Parser

variable {α β : Type} {c d : Cursor} {p : Parser α} {k : α → Parser β}

theorem Reaches.then {a : α} {ok : β → Cursor → Prop} (reaches : Reaches p c a d)
    (second : Yields (k a) d ok fun _ => True) : Yields (p >>= k) c ok fun _ => True := by
  rcases reaches with ran | ⟨error, failed, -⟩
  · exact Yields.after ran second
  · unfold Yields
    rw [StateT.run_bind, failed]
    trivial

/-- Without a colon after the name, the value tells the type. -/
theorem constantDeclaration_implies (untyped : c.next.next.here.lexeme ≠ .symbol .colon) :
    Yields constantDeclaration c (fun s _ => ∃ k e type span,
      s = .constant k (.name ⟨type, e.span⟩) e span ∧ e.literalType? = some type)
      fun _ => True := by
  refine Yields.after advance_run ?_
  have named : Yields identifier c.next (fun _ d => d = c.next.next) fun _ => True := by
    refine Yields.after peek_run ?_
    split <;> trivial
  refine Yields.bind named ?_
  rintro id _ rfl
  refine (constantType_stays untyped).then (Yields.after (atSymbol_run .equal) ?_)
  refine Yields.after (atSymbol_run .assign) ?_
  split
  · trivial
  · refine Yields.after advance_run (Yields.after peek_run ?_)
    have any : Yields expression c.next.next.next (fun _ _ => True) fun _ => True := by
      unfold Yields
      split <;> trivial
    refine Yields.bind any fun e d _ => ?_
    dsimp only
    split
    case h_1 type implied =>
      refine Yields.after (spanFrom_run c.here) ?_
      have ends : Yields endOfStatement d (fun _ _ => True) fun _ => True := by
        unfold Yields
        split <;> trivial
      exact Yields.bind ends fun _ _ _ => ⟨id, e, type, _, rfl, implied⟩
    case h_2 => trivial

end Parser

/-! ## What is computed -/

namespace Config

variable {settings : Settings} {id : ScopeId} {state : State} {outcome : Control} {after : State}

theorem Comes.of_step {control : Control}
    (steps : step settings ⟨control, [], id, state⟩ = ⟨outcome, [], id, after⟩)
    (isOutcome : outcome.isOutcome = true) : Comes settings control id state outcome after := by
  rw [← comes_step, steps]
  exact (halts_outcome_iff isOutcome).mpr ⟨rfl, rfl⟩

theorem Comes.handed {control given : Control} {frame : Frame}
    (comes : Comes settings control id state given state)
    (steps : step settings ⟨given, [frame], id, state⟩ = ⟨outcome, [], id, after⟩)
    (isOutcome : outcome.isOutcome = true) :
    Halts settings ⟨control, [frame], id, state⟩ ⟨outcome, [], id, after⟩ := by
  refine comes.above.mpr (halts_step.mp ?_)
  rw [steps]
  exact (halts_outcome_iff isOutcome).mpr ⟨rfl, rfl⟩

/-- Evaluation fails, or it gives a value of the kind, which is enabled. The state stays as it is. -/
def Gets (settings : Settings) (id : ScopeId) (state : State) (kind : Kind) (e : Expr) : Prop :=
  (∃ f, Comes settings (.eval e) id state (.failing f) state) ∨
    ∃ v, Comes settings (.eval e) id state (.value v) state ∧ v.kind? = some kind ∧
      settings.builtins.enabled kind = true

theorem Gets.optional {kind : Kind} {e : Expr} {result : Except Cause Value}
    (steps : evaluate settings e [] id state =
      ofResult (optionalLiteral settings kind result) [] id state)
    (right : ∀ v, result = .ok v → v.kind? = some kind) : Gets settings id state kind e := by
  unfold optionalLiteral at steps
  split at steps
  case isTrue enabled =>
    cases result with
    | ok v => exact .inr ⟨v, .of_step steps rfl, right v rfl, enabled⟩
    | error cause => exact .inl ⟨_, .of_step steps rfl⟩
  case isFalse => exact .inl ⟨_, .of_step steps rfl⟩

/-- A sign keeps the kind of a number, and it takes nothing else. -/
theorem Gets.negate {kind : Kind} {e : Expr} {span : Span} (gets : Gets settings id state kind e) :
    Gets settings id state kind (.unary .negate e span) := by
  rcases gets with ⟨f, comes⟩ | ⟨v, comes, isKind, enabled⟩
  · exact .inl ⟨f, comes_step.mp (comes.handed rfl rfl)⟩
  · have steps : step settings ⟨.value v, [.unary .negate], id, state⟩ =
        ⟨.ofResult (UnaryOp.negate.apply v), [], id, state⟩ := ofResult_control ..
    cases v with
    | integer n =>
      unfold UnaryOp.apply at steps
      dsimp only at steps
      split at steps
      · exact .inr ⟨_, comes_step.mp (comes.handed steps rfl), isKind, enabled⟩
      · exact .inl ⟨_, comes_step.mp (comes.handed steps rfl)⟩
    | real x => exact .inr ⟨_, comes_step.mp (comes.handed steps rfl), isKind, enabled⟩
    | _ => exact .inl ⟨_, comes_step.mp (comes.handed steps rfl)⟩

/-- The type that is implied names the kind of what is computed. -/
theorem gets_implied (settings : Settings) (id : ScopeId) (state : State) {e : Expr} {type : String}
    (implied : e.literalType? = some type) :
    ∃ kind : Kind, kind.name = type ∧ Gets settings id state kind e := by
  have basic {v : Value} {kind : Kind} {e : Expr} (isKind : v.kind? = some kind)
      (steps : evaluate settings e [] id state = ⟨.value v, [], id, state⟩)
      (member : kind ∈ Builtins.always) : Gets settings id state kind e :=
    .inr ⟨v, .of_step steps rfl, isKind, settings.builtins.enabled_always member⟩
  cases e with
  | integer => exact ⟨.integer, Option.some.inj implied, basic rfl rfl (by decide)⟩
  | real => exact ⟨.real, Option.some.inj implied, basic rfl rfl (by decide)⟩
  | boolean => exact ⟨.boolean, Option.some.inj implied, basic rfl rfl (by decide)⟩
  | string => exact ⟨.string, Option.some.inj implied, .optional rfl (by rintro _ ⟨⟩; rfl)⟩
  | char => exact ⟨.char, Option.some.inj implied, .optional rfl fun _ => Value.ofCharText_kind⟩
  | date => exact ⟨.date, Option.some.inj implied, .optional rfl fun _ => Value.ofDate_kind⟩
  | unary op operand =>
    cases op with
    | negate =>
      obtain ⟨kind, isName, gets⟩ := gets_implied settings id state (e := operand) implied
      exact ⟨kind, isName, gets.negate⟩
    | _ => cases implied
  | hole | name | binary | call => cases implied

/-! ## What is declared -/

section Constant

variable {k type : Ident} {e : Expr} {span : Span} {kind : Kind}
  (resolved : state.memory.resolve? id type.name = some (.constant (.type (.of kind))))

include resolved

/-- The type is found, and the value is what counts. -/
theorem comes_constant {given : Control} (comes : Comes settings (.eval e) id state given state)
    (steps : step settings ⟨given, [.constantValue k (.of kind)], id, state⟩ =
      ⟨outcome, [], id, after⟩)
    (isOutcome : outcome.isOutcome = true) :
    Comes settings (.exec (.constant k (.name type) e span)) id state outcome after := by
  have named : Comes settings (.eval (.name type)) id state (.value (.type (.of kind))) state := by
    refine .of_step ?_ rfl
    change tryAccess state (Memory.lookup id type.name) [] id _ = _
    rw [tryAccess, access, Memory.lookup_run, resolved]
  exact comes_step.mp (named.above.mpr (halts_step.mp (comes.handed steps isOutcome)))

theorem comes_constant_value {v : Value} (comes : Comes settings (.eval e) id state (.value v) state)
    (isKind : v.kind? = some kind) :
    let statement := Stmt.constant k (.name type) e span
    if state.memory.has id k.name = true then
      Comes settings (.exec statement) id state (.failing (.of (.alreadyDeclared k.name))) state
    else
      Comes settings (.exec statement) id state .done
        { state with memory := state.memory.bound id k.name (.constant v) } := by
  have accepted : (Ty.of kind).accepts v = true := by simp [Ty.accepts, isKind]
  have steps : step settings ⟨.value v, [.constantValue k (.of kind)], id, state⟩ =
      tryAccess state (Memory.declareConstant id k.name (.of kind) v) [] id
        fun _ state => ⟨.done, [], id, state⟩ := rfl
  rw [tryAccess, access, Memory.declareConstant_run] at steps
  split
  case isTrue taken =>
    rw [if_pos taken] at steps
    exact comes_constant resolved comes steps rfl
  case isFalse free =>
    rw [if_neg free, if_pos accepted] at steps
    exact comes_constant resolved comes steps rfl

end Constant

end Config

theorem Memory.Sound.resolve?_global {m : Memory} (sound : m.Sound) {name : String} {b : Binding}
    (binds : m.Binds global name b) : m.resolve? global name = some b := by
  cases resolved : m.resolve? global name with
  | none =>
    have free := resolve?_eq_none sound.ranked resolved (.refl sound.size_pos)
    rw [has_iff.mpr ⟨b, binds⟩] at free
    cases free
  | some b' =>
    obtain ⟨a, chain, binds'⟩ := resolve?_onChain resolved
    obtain rfl := Nat.le_zero.mp (chain.le sound.ranked)
    rw [sound.binds_unique binds' binds]

/-- The names of the built-in types mean in the scope of the configuration what they mean
globally. -/
def Config.SeesTypes (settings : Settings) (c : Config) : Prop :=
  ∀ kind, settings.builtins.enabled kind = true →
    c.state.memory.resolve? c.scope kind.name = c.state.memory.resolve? Memory.global kind.name

namespace Session

variable {options : Options} {s : Session}

theorem Reached.resolves_type (reached : Reached options s) {c : Config} (passes : s.Passes c)
    {kind : Kind} (enabled : s.settings.builtins.enabled kind = true) :
    c.state.memory.resolve? Memory.global kind.name = some (.constant (.type (.of kind))) := by
  have sound := (reached.idle.passes passes).2.settled.memory
  obtain ⟨fresh, started, continues⟩ := reached
  have idle := (start_fresh started).1
  obtain ⟨same, idle'⟩ := continues.idle idle
  have retains := idle'.retains (continues.retains idle) passes
  obtain ⟨builtins, memory, -, installed, rfl⟩ := start_ok started
  rw [same] at enabled
  refine sound.resolve?_global (retains.binds _ _ ?_)
  exact (Builtins.install_binds installed ..).mpr
    ⟨rfl, kind, of_decide_eq_true enabled, rfl, rfl⟩

/-- Where nothing hides the types, a constant that is read without a type fits the type that it is
given: if there is a value, it is of this type, and the constant is bound to it unless its name is
taken. Otherwise the declaration fails as its value does, or because the type is switched off. -/
theorem Reached.implied_type_fits (reached : Reached options s) {c : Config} (passes : s.Passes c)
    (sees : c.SeesTypes s.settings) {start rest : Cursor} {statement : Stmt}
    (untyped : start.next.next.here.lexeme ≠ .symbol .colon)
    (read : Parser.constantDeclaration.run start = .ok (statement, rest)) :
    ∃ k e kind span, statement = .constant k (.name ⟨Kind.name kind, e.span⟩) e span ∧
      e.literalType? = some kind.name ∧
      ((∃ f, Config.Comes s.settings (.eval e) c.scope c.state (.failing f) c.state ∧
          (s.settings.builtins.enabled kind = true →
            Config.Comes s.settings (.exec statement) c.scope c.state (.failing f) c.state)) ∨
        ∃ v, Config.Comes s.settings (.eval e) c.scope c.state (.value v) c.state ∧
          v.kind? = some kind ∧
          if c.state.memory.has c.scope k.name = true then
            Config.Comes s.settings (.exec statement) c.scope c.state
              (.failing (.of (.alreadyDeclared k.name))) c.state
          else
            Config.Comes s.settings (.exec statement) c.scope c.state .done
              { c.state with memory := c.state.memory.bound c.scope k.name (.constant v) }) := by
  have yields := Parser.constantDeclaration_implies untyped
  unfold Parser.Yields at yields
  rw [read] at yields
  obtain ⟨k, e, type, span, rfl, implied⟩ := yields
  obtain ⟨kind, rfl, gets⟩ := Config.gets_implied s.settings c.scope c.state implied
  refine ⟨k, e, kind, span, rfl, implied, ?_⟩
  have resolved (enabled : s.settings.builtins.enabled kind = true) :=
    (sees kind enabled).trans (reached.resolves_type passes enabled)
  rcases gets with ⟨f, comes⟩ | ⟨v, comes, isKind, enabled⟩
  · exact .inl ⟨f, comes, fun enabled => Config.comes_constant (resolved enabled) comes rfl rfl⟩
  · exact .inr ⟨v, comes, isKind, Config.comes_constant_value (resolved enabled) comes isKind⟩

end Session

/-- `CONSTANT k = - - 5` at the start of a program. -/
theorem Session.Reached.implied_type_fits_sample :
    let token (l : Lexeme) : Token := ⟨l, .first, .first⟩
    let start : Cursor := ⟨token .endOfLine, token (.keyword .constant),
      [token (.identifier "k"), token (.symbol .equal), token (.symbol .minus),
        token (.symbol .minus), token (.integer "5"), token .endOfInput]⟩
    let settings := Sample.fresh.settings
    let c := Sample.fresh.begin Sample.program
    Reached {} Sample.fresh ∧ Sample.fresh.Passes c ∧ c.SeesTypes settings ∧
      ∃ statement rest e, Parser.constantDeclaration.run start = .ok (statement, rest) ∧
        e ∈ statement.exprs ∧ e.literalType? = some "INTEGER" ∧
        ((∃ f, Config.Comes settings (.eval e) c.scope c.state (.failing f) c.state) ∨
          ∃ v, Config.Comes settings (.eval e) c.scope c.state (.value v) c.state ∧
            v.kind? = some .integer) := by
  intro token start settings c
  have reached : Reached {} Sample.fresh := ⟨_, Sample.started, .refl⟩
  have passes : Sample.fresh.Passes c := ⟨.program (some Sample.program), _, 0, rfl, rfl⟩
  have sees : c.SeesTypes settings := fun _ _ => rfl
  refine ⟨reached, passes, sees, ?_⟩
  have told : (Parser.constantDeclaration.run start).toOption.map
      (fun result => result.1.exprs.map Expr.literalType?) = some [none, none, some "INTEGER"] := by
    decide +kernel
  cases ran : Parser.constantDeclaration.run start with
  | error error =>
    rw [ran] at told
    cases told
  | ok result =>
    rw [ran] at told
    obtain ⟨statement, rest⟩ := result
    obtain ⟨k, e, kind, span, rfl, implied, comes⟩ :=
      Reached.implied_type_fits reached passes sees (by decide) ran
    have isInteger : e.literalType? = some "INTEGER" := by
      simpa [Stmt.exprs, Except.toOption, Expr.literalType?] using told
    have same : Kind.name kind = "INTEGER" := Option.some.inj (implied.symm.trans isInteger)
    obtain rfl : kind = .integer := by cases kind <;> first | rfl | exact absurd same (by decide)
    refine ⟨_, rest, e, rfl, by simp [Stmt.exprs], isInteger, ?_⟩
    rcases comes with ⟨f, comes, -⟩ | ⟨v, comes, isKind, -⟩
    · exact .inl ⟨f, comes⟩
    · exact .inr ⟨v, comes, isKind⟩

end Pseudocode
