import Stencil.Scope.Handle
import Stencil.Table
import Stencil.Value

/-!
# Contexts

A context is a stack of frames on a root.  Each frame binds names and knows its parent, which may be
any frame below it: the parent of a macro's frame is the frame in which the macro was declared, and
not the one that happens to lie beneath.  A name is looked up in the current frame, which is the
topmost one, and then along the parents.
-/

namespace Stencil

structure Frame where
  serial : Nat
  /-- The position of the frame in which names are looked up next. -/
  parent : Nat
  bindings : Table Value

structure Context where
  identity : Nat
  root : Table Value
  /-- The frames above the root, the topmost first. -/
  frames : List Frame
  nextSerial : Nat

namespace Context

/-- The serial number of the root, which is at position zero. -/
def rootSerial : Nat := 0

/-- A context of its own identity with nothing but a root. -/
def ofBindings (identity : Nat) (root : Table Value) : Context :=
  ⟨identity, root, [], rootSerial + 1⟩

/-- The number of live frames, the root included. -/
def depth (context : Context) : Nat :=
  context.frames.length + 1

/-- Whether the root is the current frame. -/
def isAtRoot (context : Context) : Bool :=
  context.frames.isEmpty

/-- The frame above the root at a position. -/
def frameAt? (index : Nat) : List Frame → Option Frame
  | [] => none
  | frame :: below => if index = below.length + 1 then some frame else frameAt? index below

/-- The serial number of the frame at a position. -/
def serialAt? (context : Context) (index : Nat) : Option Nat :=
  if index = 0 then some rootSerial else (frameAt? index context.frames).map Frame.serial

def currentIndex (context : Context) : Nat :=
  context.frames.length

def currentSerial (context : Context) : Nat :=
  match context.frames with
  | [] => rootSerial
  | frame :: _ => frame.serial

def current (context : Context) : ScopeHandle :=
  ⟨context.identity, context.currentIndex, context.currentSerial⟩

/-- Whether a handle was given out by this context for a frame that is still there. -/
def isLive (context : Context) (handle : ScopeHandle) : Bool :=
  handle.context == context.identity && context.serialAt? handle.index == some handle.serial

/-- The position of the frame that binds a name, searched from the position `index` along the
parents.  Frames above that one are passed over. -/
def holderFrom? (root : Table Value) (name : String) (index : Nat) : List Frame → Option Nat
  | [] => if Table.contains name root then some 0 else none
  | frame :: below =>
    if index = below.length + 1 then
      if Table.contains name frame.bindings then some index
      else holderFrom? root name frame.parent below
    else
      holderFrom? root name index below

/-- The position of the frame that binds a name as it is seen from the current frame. -/
def holder? (context : Context) (name : String) : Option Nat :=
  holderFrom? context.root name context.currentIndex context.frames

/-- The bindings of the frame at a position. -/
def bindingsAt (context : Context) (index : Nat) : Table Value :=
  match frameAt? index context.frames with
  | some frame => frame.bindings
  | none => context.root

def has (context : Context) (name : String) : Bool :=
  (context.holder? name).isSome

def get? (context : Context) (name : String) : Option Value :=
  (context.holder? name).bind fun index => Table.get? name (context.bindingsAt index)

/-- Binds a name in the frame above the root at a position. -/
def rebindAt (index : Nat) (name : String) (value : Value) : List Frame → List Frame
  | [] => []
  | frame :: below =>
    if index = below.length + 1 then
      { frame with bindings := Table.insert name value frame.bindings } :: below
    else
      frame :: rebindAt index name value below

/-- Binds a name in the frame at a position. -/
def bindAt (context : Context) (index : Nat) (name : String) (value : Value) : Context :=
  if index = 0 then
    { context with root := Table.insert name value context.root }
  else
    { context with frames := rebindAt index name value context.frames }

/-- Replaces the visible binding of a name, if there is one. -/
def overwrite? (context : Context) (name : String) (value : Value) : Option Context :=
  (context.holder? name).map fun index => context.bindAt index name value

/-- Binds a name in the current frame. -/
def define (context : Context) (name : String) (value : Value) : Context :=
  context.bindAt context.currentIndex name value

/-- Replaces the visible binding of a name, or binds it in the current frame. -/
def set (context : Context) (name : String) (value : Value) : Context :=
  (context.overwrite? name value).getD (context.define name value)

/-- Binds all the given names in the current frame. -/
def update (context : Context) (bindings : List (String × Value)) : Context :=
  bindings.foldl (fun context (name, value) => context.define name value) context

/-- The bindings of the current frame. -/
def locals (context : Context) : Table Value :=
  context.bindingsAt context.currentIndex

/-- Copies the bindings of another context's current frame into this one's. -/
def merge (context other : Context) : Context :=
  context.update other.locals

/-- Puts an empty frame on top. -/
def push (context : Context) (parent : Nat) : Context :=
  { context with
    frames := ⟨context.nextSerial, parent, []⟩ :: context.frames
    nextSerial := context.nextSerial + 1 }

/-- Opens a child of the current frame. -/
def inherit (context : Context) : Context :=
  context.push context.currentIndex

/-- Opens a child of the frame of a handle, if that frame is still there. -/
def inheritFrom? (context : Context) (handle : ScopeHandle) : Option Context :=
  if context.isLive handle then some (context.push handle.index) else none

/-- Removes the current frame, unless it is the root. -/
def pop (context : Context) : Context :=
  { context with frames := context.frames.tail }

end Context

end Stencil
