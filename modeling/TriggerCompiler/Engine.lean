import TriggerCompiler.Assembly.Group
import TriggerCompiler.Registry.Builtin

/-!
The engine: a registry with default options, which compiles triggers into linked programs and action
groups into programs to be merged. A compile with any error yields no program.
-/

namespace TriggerCompiler

/-- A linked program with what its compile has to say about it. -/
structure CompiledTrigger where
  program : Program
  warnings : List Warning
  references : List SymbolReference
  notes : List Note

namespace CompiledTrigger

/-- The references to a constant slot, by its name. -/
def referencesTo (t : CompiledTrigger) (name : String) : List SymbolReference :=
  t.references.filter (·.name = name)

end CompiledTrigger

/-- The failure of a compile that ended with an error, or had kept some. -/
def LowerState.failure (s : LowerState) (last : Option CompileError) : Failure where
  errors := s.errors.toList ++ last.toList
  warnings := s.warnings.toList

/-- Compiles a trigger. -/
def compileTrigger (env : Environment) (t : Trigger) : Except Failure CompiledTrigger :=
  match Lower.assembleTrigger env t {} with
  | .error e s => .error (s.failure (some e))
  | .ok () s =>
    if s.errors.isEmpty then
      match s.program.link env.options with
      | .error kind => .error (s.failure (some { kind }))
      | .ok program =>
        .ok
          { program, warnings := s.warnings.toList, references := s.references.toList,
            notes := s.notes.toList }
    else .error (s.failure none)

/-- Compiles an action group; the notes of its scripts come along. -/
def compileGroup (env : Environment) (g : ActionGroup) :
    Except Failure (CompiledGroup × List Note) :=
  match Lower.assembleGroup env g {} with
  | .error e s => .error (s.failure (some e))
  | .ok entries s =>
    if s.errors.isEmpty then
      let group : CompiledGroup :=
        { guid := g.guid, name := g.name, program := s.program, entries,
          warnings := s.warnings.toList }
      .ok (group, s.notes.toList)
    else .error (s.failure none)

/-- A registry with default options. -/
structure Engine where
  registry : Registry := Registry.builtin
  options : CompileOptions := {}

namespace Engine

/-- Compiles a trigger with given options. -/
def compileWith (e : Engine) (options : CompileOptions) (t : Trigger) :
    Except Report CompiledTrigger :=
  (compileTrigger ⟨e.registry, options⟩ t).mapError Failure.report

/-- Compiles a trigger with the default options. -/
def compile (e : Engine) (t : Trigger) : Except Report CompiledTrigger := e.compileWith e.options t

/-- Compiles an action group. -/
def compileActionGroup (e : Engine) (g : ActionGroup) :
    Except Report (CompiledGroup × List Note) :=
  (compileGroup ⟨e.registry, e.options⟩ g).mapError Failure.report

/-- Registers a compiled group, unless one with its GUID is registered. -/
def registerGroup (e : Engine) (g : CompiledGroup) : Except Report Engine :=
  if (e.registry.group? g.guid).isSome then
    .error (.api ("action group '" ++ g.guid ++ "' is already registered"))
  else .ok { e with registry := e.registry.addGroup g }

end Engine

end TriggerCompiler
