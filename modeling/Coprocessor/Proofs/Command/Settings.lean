import Coprocessor.Command.Settings
import Mathlib.Data.List.Basic

namespace Coprocessor.Command

/-!
# Arguments in any order

Arguments fall into units: a file name, an option, or an option with the value
behind it. Collecting arguments accepts exactly the lists that are put together
from units, and what it has collected depends only on which file names, options
and values there are of each kind. So the settings are the same however the
units of different kinds are mixed.
-/

/--
Whether the argument behind an option is its value, whatever it looks like.
-/
def takesValue (argument : String) : Bool :=
  argument == "--dot" || argument == "--symbols"

/--
The arguments that are neither options nor values, where the first
may be a value.
-/
def positionalsFrom
    (isValue : Bool) :
    List String → List String
  | [] => []
  | argument :: rest =>
      if isValue then
        positionalsFrom false rest
      else if Arguments.isOption argument then
        positionalsFrom (takesValue argument) rest
      else
        argument :: positionalsFrom false rest

/--
The arguments that are neither options nor values of options, from
left to right.
-/
def positionals (arguments : List String) : List String :=
  positionalsFrom false arguments

/-- Arguments that belong together. -/
inductive ArgumentUnit where
  | fileName (name : String)
  | legacy
  | outline
  | graph (path : String)
  | sheet (path : String)
  deriving Repr, DecidableEq

namespace ArgumentUnit

/-- A unit as it is given. -/
def arguments : ArgumentUnit → List String
  | .fileName name => [name]
  | .legacy => ["--reference"]
  | .outline => ["--tree"]
  | .graph path => ["--dot", path]
  | .sheet path => ["--symbols", path]

/-- The file name that a unit gives. -/
def fileName? : ArgumentUnit → Option String
  | .fileName name => some name
  | _ => none

/-- The path of the graph that a unit gives. -/
def graph? : ArgumentUnit → Option String
  | .graph path => some path
  | _ => none

/-- The path of the sheet that a unit gives. -/
def sheet? : ArgumentUnit → Option String
  | .sheet path => some path
  | _ => none

/-- A file name does not look like an option; the value of an option may. -/
def IsProper : ArgumentUnit → Prop
  | .fileName name => Arguments.isOption name = false
  | .legacy | .outline | .graph _ | .sheet _ => True

end ArgumentUnit

/--
The units ask for the settings, in whatever order units of different kinds
stand: the file names are the input and the output in this order, an option is
there if and only if it is set, and the last value of an option counts.
-/
structure AskFor
    (units : List ArgumentUnit)
    (settings : Settings) :
    Prop where
  proper :
    Arguments.isOption settings.input = false ∧
      Arguments.isOption settings.output = false
  fileNames :
    units.filterMap ArgumentUnit.fileName? = [settings.input, settings.output]
  legacy :
    .legacy ∈ units ↔ settings.legacy = true
  outline :
    .outline ∈ units ↔ settings.outline = true
  graph :
    (units.filterMap ArgumentUnit.graph?).getLast? = settings.graph
  sheet :
    (units.filterMap ArgumentUnit.sheet?).getLast? = settings.sheet

namespace Arguments

/-- Collect one more unit. -/
def add
    (given : Arguments) :
    ArgumentUnit → Arguments
  | .fileName name => { given with fileNames := given.fileNames ++ [name] }
  | .legacy => { given with legacy := true }
  | .outline => { given with outline := true }
  | .graph path => { given with graph := some path }
  | .sheet path => { given with sheet := some path }

/-- A unit at the front is collected as a whole. -/
theorem collect_unit
    {unit : ArgumentUnit}
    (proper : unit.IsProper)
    (given : Arguments)
    (rest : List String) :
    given.collect (unit.arguments ++ rest) = (given.add unit).collect rest := by
  cases unit with
  | fileName name =>
      have different : ∀ option, isOption option = true → name ≠ option := by
        rintro _ known rfl
        exact Bool.false_ne_true (proper.symm.trans known)
      rw [ArgumentUnit.arguments, List.singleton_append, collect.eq_8, proper]
      · rfl
      · exact different "--reference" (by decide)
      · exact different "--tree" (by decide)
      · exact fun same => absurd same (different "--dot" (by decide))
      · exact fun _ _ same => absurd same (different "--dot" (by decide))
      · exact fun same => absurd same (different "--symbols" (by decide))
      · exact fun _ _ same => absurd same (different "--symbols" (by decide))
  | legacy | outline | graph path | sheet path =>
      rfl

/-- Units are collected one after the other. -/
theorem collect_units
    {units : List ArgumentUnit}
    (proper : ∀ unit ∈ units, unit.IsProper)
    (given : Arguments) :
    given.collect (units.flatMap ArgumentUnit.arguments) =
      .ok (units.foldl add given) := by
  induction units generalizing given with
  | nil =>
      rfl
  | cons unit rest inductionHypothesis =>
      obtain ⟨unitProper, restProper⟩ := List.forall_mem_cons.mp proper
      rw [List.flatMap_cons, collect_unit unitProper,
        inductionHypothesis restProper]
      rfl

/-- A proper unit in front of units gives units. -/
theorem exists_units_cons
    {rest : List String}
    (unit : ArgumentUnit)
    (unitProper : unit.IsProper)
    (later :
      ∃ units : List ArgumentUnit,
        rest = units.flatMap ArgumentUnit.arguments ∧
          ∀ unit ∈ units, unit.IsProper) :
    ∃ units : List ArgumentUnit,
      unit.arguments ++ rest = units.flatMap ArgumentUnit.arguments ∧
        ∀ unit ∈ units, unit.IsProper := by
  obtain ⟨units, rfl, proper⟩ := later
  exact ⟨unit :: units, rfl, List.forall_mem_cons.mpr ⟨unitProper, proper⟩⟩

/-- What is collected without a fault is put together from units. -/
theorem exists_units_of_collect
    {given collected : Arguments}
    {arguments : List String}
    (accepted : given.collect arguments = .ok collected) :
    ∃ units : List ArgumentUnit,
      arguments = units.flatMap ArgumentUnit.arguments ∧
        ∀ unit ∈ units, unit.IsProper := by
  fun_induction collect given arguments with
  | case1 given =>
      exact ⟨[], rfl, by simp⟩
  | case2 given rest inductionHypothesis =>
      exact exists_units_cons .legacy trivial (inductionHypothesis accepted)
  | case3 given rest inductionHypothesis =>
      exact exists_units_cons .outline trivial (inductionHypothesis accepted)
  | case4 given =>
      cases accepted
  | case5 given path rest inductionHypothesis =>
      exact exists_units_cons (.graph path) trivial
        (inductionHypothesis accepted)
  | case6 given =>
      cases accepted
  | case7 given path rest inductionHypothesis =>
      exact exists_units_cons (.sheet path) trivial
        (inductionHypothesis accepted)
  | case8 =>
      cases accepted
  | case9 given argument rest _ _ _ _ _ _ notOption inductionHypothesis =>
      exact exists_units_cons (.fileName argument)
        (Bool.eq_false_iff.mpr notOption) (inductionHypothesis accepted)

/--
Of each kind of units it matters only which there are, and which
value is the last.
-/
theorem foldl_add
    (units : List ArgumentUnit)
    (given : Arguments) :
    units.foldl add given =
      { fileNames := given.fileNames ++ units.filterMap ArgumentUnit.fileName?
        legacy := given.legacy || decide (.legacy ∈ units)
        graph := (units.filterMap ArgumentUnit.graph?).getLast?.or given.graph
        sheet := (units.filterMap ArgumentUnit.sheet?).getLast?.or given.sheet
        outline := given.outline || decide (.outline ∈ units) } := by
  induction units generalizing given with
  | nil =>
      simp
  | cons unit rest inductionHypothesis =>
      rw [List.foldl_cons, inductionHypothesis]
      cases unit <;>
        simp [add, ArgumentUnit.fileName?, ArgumentUnit.graph?,
          ArgumentUnit.sheet?, List.filterMap_cons, List.getLast?_cons,
          Option.getD]

end Arguments

/--
The file names of units are the arguments that are neither options
nor their values.
-/
theorem positionals_units
    {units : List ArgumentUnit}
    (proper : ∀ unit ∈ units, unit.IsProper) :
    positionals (units.flatMap ArgumentUnit.arguments) =
      units.filterMap ArgumentUnit.fileName? := by
  induction units with
  | nil =>
      rfl
  | cons unit rest inductionHypothesis =>
      obtain ⟨unitProper, restProper⟩ := List.forall_mem_cons.mp proper
      have later := inductionHypothesis restProper
      cases unit with
      | fileName name =>
          have isFileName : Arguments.isOption name = false := unitProper
          simpa [ArgumentUnit.arguments, ArgumentUnit.fileName?, positionals,
            positionalsFrom, isFileName] using later
      | legacy | outline | graph path | sheet path =>
          exact later

/-- Arguments that are read without a fault are put together from units. -/
theorem exists_units_of_read
    {arguments : List String}
    {settings : Settings}
    (accepted : Settings.read arguments = .ok settings) :
    ∃ units : List ArgumentUnit,
      arguments = units.flatMap ArgumentUnit.arguments ∧
        ∀ unit ∈ units, unit.IsProper := by
  rw [Settings.read] at accepted
  cases collects : Arguments.none.collect arguments with
  | error fault =>
      rw [collects] at accepted
      cases accepted
  | ok collected =>
      exact Arguments.exists_units_of_collect collects

/-- The settings that units with two file names ask for. -/
theorem read_units
    {units : List ArgumentUnit}
    {input output : String}
    (proper : ∀ unit ∈ units, unit.IsProper)
    (fileNames : units.filterMap ArgumentUnit.fileName? = [input, output]) :
    Settings.read (units.flatMap ArgumentUnit.arguments) =
      .ok
        { input := input
          output := output
          legacy := decide (.legacy ∈ units)
          graph := (units.filterMap ArgumentUnit.graph?).getLast?
          sheet := (units.filterMap ArgumentUnit.sheet?).getLast?
          outline := decide (.outline ∈ units) } := by
  rw [Settings.read, Arguments.collect_units proper, Arguments.foldl_add,
    fileNames]
  simp only [Arguments.none, List.nil_append, Bool.false_or, Option.or_none]
  rfl

/-- Units are proper where their file names do not look like options. -/
theorem isProper_units
    {units : List ArgumentUnit} :
    (∀ unit ∈ units, unit.IsProper) ↔
      ∀ name ∈ units.filterMap ArgumentUnit.fileName?,
        Arguments.isOption name = false := by
  constructor
  · intro proper name member
    obtain ⟨unit, unitMember, isName⟩ := List.mem_filterMap.mp member
    cases unit with
    | fileName given =>
        obtain rfl := Option.some.inj isName
        exact proper _ unitMember
    | legacy | outline | graph path | sheet path =>
        cases isName
  · intro proper unit member
    cases unit with
    | fileName name =>
        exact proper name (List.mem_filterMap.mpr ⟨_, member, rfl⟩)
    | legacy | outline | graph path | sheet path =>
        trivial

/--
Arguments with two file names are read as the given settings if and only if they
are put together from units that ask for these settings. In which order units of
different kinds stand does not matter.
-/
theorem read_eq_ok_iff_units
    (settings : Settings)
    {arguments : List String}
    (two : (positionals arguments).length = 2) :
    Settings.read arguments = .ok settings ↔
      ∃ units : List ArgumentUnit,
        arguments = units.flatMap ArgumentUnit.arguments ∧
          AskFor units settings := by
  constructor
  · intro accepted
    obtain ⟨units, rfl, proper⟩ := exists_units_of_read accepted
    rw [positionals_units proper] at two
    obtain ⟨input, output, fileNames⟩ := List.length_eq_two.mp two
    rw [read_units proper fileNames, Except.ok.injEq] at accepted
    subst accepted
    rw [isProper_units, fileNames, List.forall_mem_cons,
      List.forall_mem_singleton] at proper
    exact ⟨units, rfl, proper, fileNames, by simp, by simp, rfl, rfl⟩
  · rintro ⟨units, rfl, proper, fileNames, legacy, outline, graph, sheet⟩
    have allProper : ∀ unit ∈ units, unit.IsProper := by
      rw [isProper_units, fileNames, List.forall_mem_cons,
        List.forall_mem_singleton]
      exact proper
    rw [read_units allProper fileNames, graph, sheet]
    simp only [legacy, outline, Bool.decide_eq_true]

/--
Options in front, between and behind, one that is repeated and values that
look like options.
-/
theorem read_eq_ok_iff_units_mixed :
    let arguments :=
      ["--dot", "--tree", "in", "--reference", "--dot", "--symbols", "out",
        "--reference"]
    let settings : Settings :=
      ⟨"in", "out", true, some "--symbols", none, false⟩
    (positionals arguments).length = 2 ∧
      Settings.read arguments = .ok settings ∧
      ∃ units : List ArgumentUnit,
        arguments = units.flatMap ArgumentUnit.arguments ∧
          AskFor units settings := by
  intro arguments settings
  have two : (positionals arguments).length = 2 := by
    decide
  have accepted : Settings.read arguments = .ok settings :=
    rfl
  exact ⟨two, accepted, (read_eq_ok_iff_units settings two).mp accepted⟩

end Coprocessor.Command
