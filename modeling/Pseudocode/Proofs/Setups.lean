import Mathlib.Data.List.Nodup
import Pseudocode.Command.Setup
import Pseudocode.Proofs.Sessions
import Pseudocode.Proofs.Trimming

/-! # Setups that work

A manifest, the flags and a session check the settings one after the other. A level that the
manifest may name is still one when its text has been trimmed and put in lower case. The depth has
the same bounds everywhere. So a manifest without issues gives a session, and flags that are not
refused can only spoil that by naming a type that is not optional. -/

namespace Pseudocode

/-! ## Levels -/

namespace Text

theorem toList_lower (s : String) : (lower s).toList = s.toList.map lowerChar :=
  String.toList_map

end Text

namespace LogLevel

theorem toNat_lt_of_toLower {c : Char} (ascii : c.toLower.toNat < 128) : c.toNat < 128 := by
  by_cases upper : c.val ≥ 'A'.val ∧ c.val ≤ 'Z'.val
  · exact Nat.lt_of_le_of_lt (UInt32.le_iff_toNat_le.mp upper.2) (by simp)
  · have same : c.toLower = c := dif_neg upper
    rwa [same] at ascii

/-- A form of a letter is no blank, and in lower case it is still a form of that letter. -/
theorem foldCase_lowerChar {c : Char} (letter : (foldCase c).isLower = true) :
    Text.isBlank c = false ∧ foldCase (Text.lowerChar c) = foldCase c := by
  by_cases ascii : c.toNat < 128
  · refine Text.of_ascii (P := fun c => (foldCase c).isLower = true →
      Text.isBlank c = false ∧ foldCase (Text.lowerChar c) = foldCase c) ?_ ascii letter
    decide +kernel
  · -- Beyond ASCII, only the long s and the Kelvin sign are forms of letters.
    by_cases longS : c = '\u017f'
    · subst longS
      decide +kernel
    by_cases kelvin : c = '\u212a'
    · subst kelvin
      decide +kernel
    rw [foldCase, if_neg longS, if_neg kelvin] at letter
    refine absurd (toNat_lt_of_toLower ?_) ascii
    have last : c.toLower.val ≤ 'z'.val := of_decide_eq_true (Bool.and_eq_true_iff.mp letter).2
    exact Nat.lt_of_le_of_lt (UInt32.le_iff_toNat_le.mp last) (by simp)

def decimals : List Char :=
  ['-', '+', '0', '1', '2', '3', '4', '5', '6', '7', '8', '9']

theorem lowerChar_decimals :
    ∀ c ∈ decimals, Text.isBlank c = false ∧ Text.lowerChar c = c := by
  have all : (decimals.all fun c => !Text.isBlank c && Text.lowerChar c == c) = true := rfl
  simpa only [List.all_eq_true, Bool.and_eq_true, Bool.not_eq_true', beq_iff_eq] using all

theorem mem_decimals_of_digit? {c : Char} {d : Nat} (digit : Numeral.digit? c = some d)
    (small : d < 10) : c ∈ decimals := by
  unfold Numeral.digit? at digit
  split at digit
  case isTrue range =>
    have ascii : c.toNat ≤ '9'.toNat := range.2
    refine Text.of_ascii (P := fun c => '0' ≤ c ∧ c ≤ '9' → c ∈ decimals) ?_ ?_ range
    · decide +kernel
    · exact Nat.lt_of_le_of_lt ascii (by simp)
  case isFalse =>
    -- A letter counts for ten or more.
    split at digit
    · cases digit
      omega
    · split at digit <;> cases digit
      omega

theorem mem_decimals_of_magnitude {acc n : Nat} {cs : List Char}
    (read : Numeral.magnitudeFrom 10 acc cs = .ok n) : ∀ c ∈ cs, c ∈ decimals := by
  induction cs generalizing acc with
  | nil => simp
  | cons c rest ih =>
    unfold Numeral.magnitudeFrom at read
    split at read
    · cases read
    case h_2 d digit =>
      split at read
      · cases read
      case isFalse small =>
        split at read
        · cases read
        · rw [List.forall_mem_cons]
          exact ⟨mem_decimals_of_digit? digit (Nat.not_le.mp small), ih read⟩

theorem mem_decimals {text : String} {n : Int} (read : Numeral.decimal text = .ok n) :
    ∀ c ∈ text.toList, c ∈ decimals := by
  unfold Numeral.decimal Numeral.signed at read
  split at read
  case h_1 negative body taken =>
    have inBody : ∀ c ∈ body, c ∈ decimals := by
      split at read
      · cases read
      · cases magnitude : Numeral.magnitude 10 body with
        | error flaw =>
          rw [magnitude] at read
          cases read
        | ok _ => exact mem_decimals_of_magnitude magnitude
    split at taken
    case h_1 rest signed =>
      cases taken
      rw [signed, List.forall_mem_cons]
      exact ⟨by simp [decimals], inBody⟩
    case h_2 rest signed =>
      cases taken
      rw [signed, List.forall_mem_cons]
      exact ⟨by simp [decimals], inBody⟩
    case h_3 =>
      cases taken
      exact inBody

theorem named_isLower : ∀ entry ∈ named, ∀ c ∈ entry.1.toList, c.isLower = true := by
  have all : (named.all fun entry => entry.1.toList.all Char.isLower) = true := rfl
  simpa only [List.all_eq_true] using all

/-- A level is still recognised when its text is trimmed and put in lower case. -/
theorem ofText_lower_trim {text : String} {level : LogLevel} (read : ofText text = .ok level) :
    ofText (Text.lower (Text.trim text)) = .ok level := by
  unfold ofText at read
  split at read
  case h_1 name found isNamed =>
    cases read
    have spells := List.find?_some isNamed
    simp only [decide_eq_true_eq] at spells
    have letters : ∀ c ∈ text.toList, (foldCase c).isLower = true := by
      have inName := named_isLower _ (List.mem_of_find?_eq_some isNamed)
      rwa [spells, List.forall_mem_map] at inName
    have solid : Text.trimChars text.toList = text.toList :=
      Text.trimChars_eq_self fun c member => (foldCase_lowerChar (letters c member)).1
    have same : (Text.lower (Text.trim text)).toList.map foldCase = text.toList.map foldCase := by
      rw [Text.toList_lower, Text.toList_trim, solid, List.map_map]
      exact List.map_congr_left fun c member => (foldCase_lowerChar (letters c member)).2
    rw [ofText, same, isNamed]
  case h_2 unnamed =>
    cases number : Numeral.decimal text with
    | error flaw =>
      rw [number] at read
      cases read
    | ok n =>
      have plain := fun c member => lowerChar_decimals c (mem_decimals number c member)
      have same : Text.lower (Text.trim text) = text := by
        rw [← String.toList_inj, Text.toList_lower, Text.toList_trim,
          Text.trimChars_eq_self fun c member => (plain c member).1]
        exact (List.map_congr_left fun c member => (plain c member).2).trans (List.map_id _)
      rw [same, ofText, unnamed]
      exact read

/-- What is asked of a reader of levels: a level that it takes, it also takes trimmed and in lower
case, and the level for the case that nothing is said. -/
structure Reader.Lawful (readLevel : Reader) : Prop where
  lower_trim : ∀ text level, readLevel text = .ok level →
    ∃ level', readLevel (Text.lower (Text.trim text)) = .ok level'
  warn : ∃ level, readLevel "warn" = .ok level

theorem lawful_ofText : Reader.Lawful ofText where
  lower_trim _ level read := ⟨level, ofText_lower_trim read⟩
  warn := ⟨.warn, by decide +kernel⟩

end LogLevel

/-! ## Types -/

theorem Kind.name_injective : Function.Injective Kind.name := by
  intro kind other
  cases kind <;> cases other <;> simp [name]

namespace Memory

variable {m : Memory} {id : ScopeId} {name other : String}

theorem has_bound (apart : other ≠ name) (b : Binding) :
    (m.bound id name b).has id other = m.has id other := by
  rw [has, has, bound, extended, Array.getElem?_modify, if_pos rfl]
  cases m.scopes[id]? with
  | none => rfl
  | some scope =>
    have found : ((name, b) :: scope.bindings).lookup other = scope.bindings.lookup other := by
      rw [List.lookup_cons, beq_false_of_ne apart]
    exact congrArg Option.isSome found

end Memory

namespace Builtins

theorem optionalKind?_eq_none {name : String} :
    optionalKind? name = none ↔ name ∉ optionalKinds.map Kind.name := by
  rw [optionalKind?, List.find?_eq_none]
  simp only [decide_eq_true_eq, List.mem_map, not_exists, not_and]

/-- A choice fails if it names a type that is not optional. -/
theorem choose_error_iff {names : List String} (chosen : List Kind) :
    (∃ reason, choose chosen names = .error reason) ↔
      ∃ name ∈ names, name ∉ optionalKinds.map Kind.name := by
  induction names generalizing chosen with
  | nil => simp [choose]
  | cons name rest ih =>
    rw [choose, List.exists_mem_cons_iff, ← optionalKind?_eq_none]
    cases optionalKind? name with
    | none => simp
    | some kind => simp only [ih, reduceCtorEq, false_or]

variable {types : Option (List String)}

theorem kinds_nodup {b : Builtins} (chosen : ofNames types = .ok b) : b.kinds.Nodup := by
  obtain ⟨unique, each⟩ := ofNames_ok chosen
  refine List.nodup_append.mpr ⟨by decide, unique, fun fixed isFixed kind member same => ?_⟩
  exact not_mem_always (each kind member).1 (same ▸ isFixed)

/-- Types with different names that are still free are declared without a fault. -/
theorem declare_ok {kinds : List Kind} (nodup : kinds.Nodup) {m : Memory} {id : ScopeId}
    (free : ∀ kind ∈ kinds, m.has id kind.name = false) :
    ∃ m', (kinds.forM fun kind =>
      Memory.declareConstant id kind.name (.of .type) (.type (.of kind))).run m = .ok () m' := by
  induction kinds generalizing m with
  | nil => exact ⟨m, rfl⟩
  | cons kind rest ih =>
    rw [List.nodup_cons] at nodup
    rw [List.forall_mem_cons] at free
    have later : ∀ other ∈ rest,
        (m.bound id kind.name (.constant (.type (.of kind)))).has id other.name = false := by
      intro other member
      rw [Memory.has_bound _ _, free.2 other member]
      intro same
      exact nodup.1 (Kind.name_injective same ▸ member)
    obtain ⟨m', declared⟩ := ih nodup.2 later
    refine ⟨m', ?_⟩
    rw [List.forM, EStateM.run_bind, Memory.declareConstant_run, free.1]
    exact declared

theorem install_ok {b : Builtins} (chosen : ofNames types = .ok b) :
    ∃ m, (b.install Memory.global).run {} = .ok () m :=
  declare_ok (kinds_nodup chosen) fun _ _ => rfl

theorem ofNames_error_iff :
    (∃ reason, ofNames types = .error reason) ↔
      ∃ names, types = some names ∧ ∃ name ∈ names, name ∉ optionalKinds.map Kind.name := by
  cases types with
  | none => simp [ofNames]
  | some names =>
    simp only [Option.some.injEq, exists_eq_left', ← choose_error_iff [], ofNames]
    cases choose [] names <;> simp [Except.map]

end Builtins

namespace Setup

theorem mem_typesOf {list name : String} :
    name ∈ typesOf list ↔ ∃ part ∈ list.toList.splitOn ',',
      name = Text.upper (Text.trim (String.ofList part)) ∧ name ≠ "" := by
  rw [typesOf, List.mem_filter, List.mem_map, decide_eq_true_eq]
  simp only [Text.trim, String.toList_ofList]
  constructor
  · rintro ⟨⟨part, member, rfl⟩, nonempty⟩
    exact ⟨part, member, rfl, nonempty⟩
  · rintro ⟨part, member, rfl, nonempty⟩
    exact ⟨⟨part, member, rfl⟩, nonempty⟩

/-- The shared level keeps nothing from the log of a setup, nor from a log that was there before. -/
theorem takes_sharedLevel (s : Setup) (before entry : LogLevel) :
    (s.sharedLevel before).takes entry = (s.level.takes entry || before.takes entry) := by
  rw [Bool.eq_iff_iff]
  unfold sharedLevel LogLevel.min
  split <;> simp only [LogLevel.takes, Bool.or_eq_true, decide_eq_true_eq] <;> omega

end Setup

/-! ## Sessions -/

/-- A session is refused for its depth or for a type that is not optional. -/
theorem Session.start_error_iff {options : Options} :
    (∃ reason, start options = .error reason) ↔
      options.maxDepth < 0 ∨ Options.deepest < options.maxDepth ∨
        ∃ names, options.types = some names ∧
          ∃ name ∈ names, name ∉ Builtins.optionalKinds.map Kind.name := by
  rw [← Builtins.ofNames_error_iff, start]
  split
  case isTrue negative => simp [refuse, negative]
  case isFalse nonnegative =>
    split
    case isTrue deep => simp [refuse, deep]
    case isFalse shallow =>
      simp only [nonnegative, shallow, false_or]
      cases chosen : Builtins.ofNames options.types with
      | error reason => simp [refuse]
      | ok builtins =>
        obtain ⟨m, installed⟩ := Builtins.install_ok chosen
        simp [installed]

namespace Manifest

/-- What a manifest without issues says about the settings. -/
structure Sane (readLevel : LogLevel.Reader) (m : Manifest) : Prop where
  types : ∀ name ∈ m.types, name ∈ optionalNames
  nonnegative : 0 ≤ m.maxDepth
  shallow : m.maxDepth ≤ Options.deepest
  level : m.logLevel = "" ∨ ∃ level, readLevel m.logLevel = .ok level

theorem issueIf_eq_nil {bad : Bool} {issue : Issue} : issueIf bad issue = [] ↔ bad = false := by
  cases bad <;> simp [issueIf]

theorem sane_of_issues {readLevel : LogLevel.Reader} {m : Manifest}
    (valid : m.issues readLevel = []) : m.Sane readLevel := by
  unfold issues at valid
  simp only [List.append_eq_nil_iff, issueIf_eq_nil, decide_eq_false_iff_not, List.map_eq_nil_iff,
    List.filter_eq_nil_iff, decide_eq_true_eq, not_not] at valid
  obtain ⟨⟨⟨⟨⟨-, types⟩, nonnegative⟩, shallow⟩, level⟩, -⟩ := valid
  refine ⟨types, Int.not_lt.mp nonnegative, Int.not_lt.mp shallow, ?_⟩
  unfold logLevelIssues at level
  split at level
  case isTrue unnamed => exact .inl unnamed
  case isFalse =>
    split at level
    case h_1 found read => exact .inr ⟨found, read⟩
    case h_2 => cases level

end Manifest

namespace Setup

theorem depthOf_range {flag : Option Int} {fallback n : Int}
    (merged : depthOf flag fallback = .ok n)
    (range : 0 ≤ fallback ∧ fallback ≤ Options.deepest) : 0 ≤ n ∧ n ≤ Options.deepest := by
  unfold depthOf at merged
  split at merged
  · cases merged
    exact range
  · split at merged
    · cases merged
    · split at merged
      · cases merged
      · cases merged
        omega

def levelText (m : Manifest) : String :=
  if m.logLevel = "" then defaultLevel else m.logLevel

theorem of_eq (readLevel : LogLevel.Reader) (m : Manifest) (flags : Flags) :
    of readLevel (some m) flags =
      (depthOf flags.maxDepth m.maxDepth).bind fun maxDepth =>
        (levelOf readLevel (flags.logLevel.getD (levelText m))).bind fun level =>
          .ok ⟨(flags.coreTypes.map typesOf).or m.enabledTypes, maxDepth, level⟩ := by
  obtain ⟨coreTypes, logLevel, maxDepth⟩ := flags
  cases coreTypes <;> rfl

variable {readLevel : LogLevel.Reader} {m : Manifest}

/-- The flags override the manifest setting by setting. -/
theorem of_eq_ok_iff {flags : Flags} {setup : Setup} :
    of readLevel (some m) flags = .ok setup ↔
      depthOf flags.maxDepth m.maxDepth = .ok setup.maxDepth ∧
      levelOf readLevel (flags.logLevel.getD (levelText m)) = .ok setup.level ∧
      (flags.coreTypes.map typesOf).or m.enabledTypes = setup.types := by
  obtain ⟨types, depth, level⟩ := setup
  rw [of_eq]
  cases depthOf flags.maxDepth m.maxDepth with
  | error refusal => simp [Except.bind]
  | ok n =>
    cases levelOf readLevel (flags.logLevel.getD (levelText m)) with
    | error refusal => simp [Except.bind]
    | ok found =>
      simp only [Except.bind, Except.ok.injEq, Setup.mk.injEq]
      tauto

theorem levelOf_levelText (lawful : readLevel.Lawful) (sane : m.Sane readLevel) :
    ∃ level, levelOf readLevel (levelText m) = .ok level := by
  unfold levelText
  obtain ⟨level, read⟩ : ∃ level, readLevel (Text.lower (Text.trim
      (if m.logLevel = "" then defaultLevel else m.logLevel))) = .ok level := by
    split
    case isTrue =>
      obtain ⟨level, read⟩ := lawful.warn
      exact lawful.lower_trim defaultLevel level read
    case isFalse named =>
      obtain ⟨level, read⟩ := sane.level.resolve_left named
      exact lawful.lower_trim m.logLevel level read
  exact ⟨level, by rw [levelOf, read]⟩

/-- A manifest without issues is enough for a setup. -/
theorem exists_plain (lawful : readLevel.Lawful) (sane : m.Sane readLevel) :
    ∃ plain, of readLevel (some m) {} = .ok plain := by
  obtain ⟨level, named⟩ := levelOf_levelText lawful sane
  exact ⟨⟨m.enabledTypes, m.maxDepth, level⟩, of_eq_ok_iff.mpr ⟨rfl, named, rfl⟩⟩

theorem enabledTypes_optional (sane : m.Sane readLevel) {names : List String}
    (chosen : m.enabledTypes = some names) : ∀ name ∈ names, name ∈ Manifest.optionalNames := by
  unfold Manifest.enabledTypes at chosen
  split at chosen <;> cases chosen
  exact sane.types

/-- Only a type that a flag asks for can spoil a setup. -/
theorem start_error_iff (sane : m.Sane readLevel) {flags : Flags} {setup : Setup}
    (merged : of readLevel (some m) flags = .ok setup) :
    (∃ reason, Session.start setup.options = .error reason) ↔
      ∃ list, flags.coreTypes = some list ∧
        ∃ name ∈ typesOf list, name ∉ Manifest.optionalNames := by
  obtain ⟨depth, -, types⟩ := of_eq_ok_iff.mp merged
  obtain ⟨nonnegative, shallow⟩ := depthOf_range depth ⟨sane.nonnegative, sane.shallow⟩
  rw [Session.start_error_iff, options]
  simp only [Int.not_lt.mpr nonnegative, Int.not_lt.mpr shallow, false_or, ← types]
  cases flags.coreTypes with
  | none =>
    simp only [Option.map_none, Option.none_or, reduceCtorEq, false_and, exists_false, iff_false]
    rintro ⟨names, chosen, name, member, other⟩
    exact other (enabledTypes_optional sane chosen name member)
  | some list =>
    simp only [Option.map_some, Option.some_or, Option.some.injEq, exists_eq_left']
    rfl

end Setup

/-- A manifest without issues gives a session. Flags that are not refused spoil that only by a type
that is not optional. -/
theorem Manifest.valid_starts {readLevel : LogLevel.Reader} (lawful : readLevel.Lawful) {m : Manifest}
    {flags : Flags} {setup : Setup} (valid : m.issues readLevel = [])
    (merged : Setup.of readLevel (some m) flags = .ok setup) :
    (∃ plain s, Setup.of readLevel (some m) {} = .ok plain ∧ Session.start plain.options = .ok s) ∧
    ((∃ reason, Session.start setup.options = .error reason) ↔
      ∃ list, flags.coreTypes = some list ∧ ∃ part ∈ list.toList.splitOn ',', ∃ name,
        name = Text.upper (Text.trim (String.ofList part)) ∧ name ≠ "" ∧
          name ∉ ["STRING", "CHAR", "DATE"]) := by
  have sane := sane_of_issues valid
  constructor
  · obtain ⟨plain, unflagged⟩ := Setup.exists_plain lawful sane
    cases started : Session.start plain.options with
    | ok s => exact ⟨plain, s, unflagged, started⟩
    | error reason =>
      obtain ⟨list, given, -⟩ := (Setup.start_error_iff sane unflagged).mp ⟨reason, started⟩
      cases given
  · rw [Setup.start_error_iff sane merged]
    simp only [Setup.mem_typesOf]
    constructor
    · rintro ⟨list, given, name, ⟨part, member, isName, nonempty⟩, other⟩
      exact ⟨list, given, part, member, name, isName, nonempty, other⟩
    · rintro ⟨list, given, part, member, name, isName, nonempty, other⟩
      exact ⟨list, given, name, ⟨part, member, isName, nonempty⟩, other⟩

def Manifest.sample : Manifest :=
  { name := "demo", types := ["DATE"], typesGiven := true, maxDepth := 100000,
    logLevel := "DI\u017fABLED" }

theorem Manifest.valid_starts_sample :
    (∃ plain s, Setup.of LogLevel.ofText (some sample) {} = .ok plain ∧
      Session.start plain.options = .ok s) ∧
    ∃ reason, Session.start (Setup.options ⟨some ["CHAR", "REAL"], 5, ⟨7⟩⟩) = .error reason := by
  have merged : Setup.of LogLevel.ofText (some sample)
      { coreTypes := some " char,, real", maxDepth := some 5 } =
      .ok ⟨some ["CHAR", "REAL"], 5, ⟨7⟩⟩ := by
    decide +kernel
  obtain ⟨plain, fails⟩ := Manifest.valid_starts LogLevel.lawful_ofText (by decide +kernel) merged
  refine ⟨plain, fails.mpr ⟨_, rfl, " real".toList, ?_, "REAL", ?_⟩⟩ <;> decide +kernel

end Pseudocode
