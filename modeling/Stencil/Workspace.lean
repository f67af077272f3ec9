import Stencil.Evaluation.Source

/-!
# Workspaces

A workspace keeps contexts and scope handles under names of their own, together with an evaluator
and a set of macros that can be bound in any context.  It gives every context and every macro an
identity that it has not given before.
-/

namespace Stencil

structure Workspace where
  contexts : Table Context
  handles : Table ScopeHandle
  evaluator : Evaluator
  macros : Registry Value
  nextContext : Nat
  nextMacro : Nat

namespace Workspace

/-- A workspace without any context. -/
def empty (evaluator : Evaluator) : Workspace where
  contexts := []
  handles := []
  evaluator := evaluator
  macros := .empty .procedure
  nextContext := 0
  nextMacro := 0

/-- Makes a context under a name, in place of the one that may be there. -/
def create (workspace : Workspace) (name : String) (bindings : Table Value) : Workspace :=
  let context := Context.ofBindings workspace.nextContext bindings
  { workspace with
    contexts := Table.insert name context workspace.contexts
    nextContext := workspace.nextContext + 1 }

def context? (workspace : Workspace) (name : String) : Option Context :=
  Table.get? name workspace.contexts

def putContext (workspace : Workspace) (name : String) (context : Context) : Workspace :=
  { workspace with contexts := Table.insert name context workspace.contexts }

def saveHandle (workspace : Workspace) (name : String) (handle : ScopeHandle) : Workspace :=
  { workspace with handles := Table.insert name handle workspace.handles }

def handle? (workspace : Workspace) (name : String) : Option ScopeHandle :=
  Table.get? name workspace.handles

/-- Runs a computation in the context of a name. -/
def run {α : Type} (workspace : Workspace) (name : String) (computation : Run α) :
    Option (α × Workspace) := do
  let context ← workspace.context? name
  let (result, context) ← computation.run context
  return (result, workspace.putContext name context)

/-- Runs a computation that makes one macro, with a new identity for it. -/
def runMaking {α : Type} (workspace : Workspace) (name : String) (computation : Nat → Run α) :
    Option (α × Workspace) := do
  let (result, workspace) ← workspace.run name (computation workspace.nextMacro)
  return (result, { workspace with nextMacro := workspace.nextMacro + 1 })

/-- Declares a macro in the context of a name. -/
def declareMacro (workspace : Workspace) (depth : Nat) (name : String)
    (definition : Macro Token) : Option (Except Failure Unit × Workspace) :=
  workspace.runMaking name fun identity =>
    Evaluation.outcome (Evaluation.declareMacro workspace.evaluator depth identity definition)

/-- The value of a macro declared in the context of a name, bound there under another name. -/
def bindMacro (workspace : Workspace) (depth : Nat) (name binding : String)
    (definition : Macro Token) : Option (Except Failure Value × Workspace) :=
  workspace.runMaking name fun identity => Evaluation.outcome do
    let value ← Evaluation.closeMacro workspace.evaluator depth identity definition
    modifyThe Context fun context => context.define binding value
    return value

/-- Binds all macros of the set in the current frame of a context. -/
def exportMacros (workspace : Workspace) (context : Context) : Context :=
  context.update workspace.macros.entries

end Workspace

end Stencil
