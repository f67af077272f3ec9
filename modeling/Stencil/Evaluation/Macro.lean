import Stencil.Evaluation.Expression

/-!
# Macros

A macro captures the frame in which it is declared, with the values that its defaults have there.
Its body runs in a fresh child of that frame, which is gone when the call ends, however it ends.
-/

namespace Stencil

namespace Evaluation

variable (evaluator : Evaluator)

/-- The value of a macro's body in a frame of its own. -/
def runBody (invoke : MacroCall → Evaluation Value) (definition : Macro Token) :
    Evaluation Value := do
  let (written, failure?) ← ofRun (execute evaluator invoke "" definition.body)
  modifyThe Context Context.pop
  match failure? with
  | none => return .safe written
  | some failure => throw (.execution definition.name failure)

/-- Calls a macro, given the way in which its body may call others. -/
def callMacro (invoke : MacroCall → Evaluation Value) (call : MacroCall) : Evaluation Value := do
  let context ← getThe Context
  match context.inheritFrom? call.scope with
  | none => throw (.staleScope call.definition.name)
  | some child =>
    match call.signature.bind call.arguments with
    | .error fault =>
      set child.pop
      throw (.signature call.definition.name fault)
    | .ok bound =>
      set (child.update bound)
      runBody evaluator invoke call.definition

/-- Calls a macro; at most `depth` further calls may be open at the same time. -/
def invoke : Nat → MacroCall → Evaluation Value
  | 0, _ => exhausted
  | depth + 1, call => callMacro evaluator (invoke depth) call

/-- The defaults of a macro, in their order.  A default whose value is a failure counts as one that
fails. -/
def evaluateDefaults (depth : Nat) (name : String) :
    List (String × Expr Token) → Evaluation (List (String × Value))
  | [] => pure []
  | (parameter, default) :: rest => do
    match ← ofRun (outcomeValue (evaluate evaluator (invoke evaluator depth) default)) with
    | .error failure => throw (.defaultValue name parameter failure)
    | value =>
      let values ← evaluateDefaults depth name rest
      return (parameter, value) :: values

/-- The value of a macro declared in the current frame.  It takes surplus arguments only if its body
looks up the name under which they are bound. -/
def closeMacro (depth identity : Nat) (definition : Macro Token) : Evaluation Value := do
  let defaulted ← evaluateDefaults evaluator depth definition.name definition.defaulted
  let signature : Signature Value :=
    { required := definition.required
      defaulted := defaulted
      acceptsPositional := definition.references surplusPositional
      acceptsNamed := definition.references surplusNamed }
  let context ← getThe Context
  return .procedure identity definition signature context.current

/-- Binds a macro to its name in the current frame. -/
def declareMacro (depth identity : Nat) (definition : Macro Token) : Evaluation Unit := do
  let value ← closeMacro evaluator depth identity definition
  modifyThe Context fun context => context.define definition.name value

end Evaluation

end Stencil
