import Stencil.Evaluation.Source
import Stencil.Expression.Canonical
import Stencil.Expression.Outline

/-!
# The command line

What the commands write and with which status they end, as a function of their arguments and of the
content of the template file.  A command either succeeds, or it writes one message to the error
stream and nothing to the output.
-/

namespace Stencil.CommandLine

inductive Command where
  /-- Show the canonical text of an expression, and its tree if that is asked for. -/
  | parse (source : String) (withTree : Bool)
  /-- Write a template file with some variables bound. -/
  | render (path : String) (bindings : List String)
  /-- Look for syntax errors in a template file. -/
  | check (path : String)
  deriving DecidableEq, Repr

structure Outcome where
  status : UInt32
  output : String
  errors : String
  deriving DecidableEq, Repr

def Outcome.success (output : String) : Outcome :=
  ⟨0, output, ""⟩

def Outcome.failure (message : String) : Outcome :=
  ⟨1, "", message ++ "\n"⟩

/-- Why a command fails. -/
inductive Fault where
  | fileNotFound (path : String)
  | notUnicode (path : String)
  | malformed (error : SyntaxError)
  | notBinding (argument : String)
  | binding (name : String) (cause : Failure)
  | rendering (cause : Failure)
  deriving DecidableEq, Repr

def Fault.message : Fault → String
  | fileNotFound path => "Error: file not found: " ++ path
  | notUnicode path => "Error reading " ++ path ++ ": stream did not contain valid UTF-8"
  | malformed error => error.message
  | notBinding argument => "Error: expected NAME=EXPR, got '" ++ argument ++ "'"
  | binding name cause => "Error in --set " ++ name ++ ": " ++ cause.message
  | rendering cause => "Render error: " ++ cause.message

/-- The text of a file; there is no content if the file does not exist. -/
def fileText (path : String) (content : Option ByteArray) : Except Fault String :=
  match content with
  | none => .error (.fileNotFound path)
  | some bytes =>
    match String.fromUTF8? bytes with
    | some text => .ok text
    | none => .error (.notUnicode path)

/-- The two sides of the first equals sign. -/
def splitBinding? (argument : String) : Option (String × String) :=
  let chars := argument.toList
  let name := chars.takeWhile (· != '=')
  match chars.drop name.length with
  | [] => none
  | _ :: source => some (String.ofList name, String.ofList source)

/-- Evaluates a binding in the context of the earlier ones. -/
def bindVariable (depth : Nat) (argument : String) : ExceptT Fault Run Unit := do
  match splitBinding? argument with
  | none => throw (.notBinding argument)
  | some (name, source) =>
    let name := Text.trimBlank name
    match ← ExceptT.lift (Evaluation.outcome (Evaluation.evaluateSource .bare depth source)) with
    | .error failure => throw (.binding name failure)
    | .ok value => modifyThe Context fun context => context.set name value

def bindVariables (depth : Nat) : List String → ExceptT Fault Run Unit
  | [] => pure ()
  | argument :: arguments => do
    bindVariable depth argument
    bindVariables depth arguments

/-- The output of a template after all variables have been bound. -/
def renderWith (depth : Nat) (source : String) (bindings : List String) :
    ExceptT Fault Run String := do
  bindVariables depth bindings
  match ← ExceptT.lift (Evaluation.outcome (Evaluation.renderSource .bare depth source)) with
  | .error failure => throw (.rendering failure)
  | .ok written => return written

def parseOutcome (source : String) (withTree : Bool) : Outcome :=
  match parseExpression .standard source with
  | .error error => .failure (Fault.malformed error).message
  | .ok expr =>
    let tree := if withTree then (Outline.ofExpr expr).text ++ "\n" else ""
    .success (expr.canonical ++ "\n" ++ tree)

def renderOutcome (depth : Nat) (path : String) (bindings : List String)
    (content : Option ByteArray) : Option Outcome :=
  match fileText path content with
  | .error fault => some (.failure fault.message)
  | .ok source =>
    (renderWith depth source bindings).run.run (.ofBindings 0 []) |>.map fun (result, _) =>
      match result with
      | .error fault => .failure fault.message
      | .ok written => .success written

/-- Success is reported on the error stream, so that the output stays empty. -/
def checkOutcome (path : String) (content : Option ByteArray) : Outcome :=
  match fileText path content with
  | .error fault => .failure fault.message
  | .ok source =>
    match parseTemplate .standard source with
    | .error error => .failure (Fault.malformed error).message
    | .ok _ => ⟨0, "", "OK: " ++ path ++ "\n"⟩

/-- What a command does, given the content of the file that it names.  There is no outcome if macro
calls nest more than `depth` deep. -/
def run (depth : Nat) (content : Option ByteArray) : Command → Option Outcome
  | .parse source withTree => some (parseOutcome source withTree)
  | .render path bindings => renderOutcome depth path bindings content
  | .check path => some (checkOutcome path content)

/-- The file that a command reads. -/
def Command.path? : Command → Option String
  | parse _ _ => none
  | render path _ | check path => some path

/-- The options and the operand of a command, as they stand on the command line. -/
structure Options where
  withTree : Bool := false
  bindings : List String := []
  operands : List String := []

/-- Reads the arguments of a command.  Everything behind two dashes is an operand. -/
def Options.read (options : Options) : List String → Option Options
  | [] => some options
  | "--" :: operands => some { options with operands := options.operands ++ operands }
  | "--ast" :: rest => { options with withTree := true }.read rest
  | "--set" :: binding :: rest =>
    { options with bindings := options.bindings ++ [binding] }.read rest
  | argument :: rest =>
    let chars := argument.toList
    let option := "--set=".toList
    if option.isPrefixOf chars then
      let binding := String.ofList (chars.drop option.length)
      { options with bindings := options.bindings ++ [binding] }.read rest
    else if chars.head? = some '-' then
      none
    else
      { options with operands := options.operands ++ [argument] }.read rest

/-- The command of a list of arguments, the first of which is its name. -/
def Command.ofArguments? : List String → Option Command
  | name :: arguments => do
    let options ← ({} : Options).read arguments
    match name, options.operands with
    | "parse", [source] =>
      if options.bindings.isEmpty then some (.parse source options.withTree) else none
    | "render", [path] => if options.withTree then none else some (.render path options.bindings)
    | "check", [path] =>
      if options.withTree || !options.bindings.isEmpty then none else some (.check path)
    | _, _ => none
  | [] => none

def usage : String :=
  "usage: stencil parse [--ast] EXPR | render [--set NAME=EXPR]... PATH | check PATH"

end Stencil.CommandLine
