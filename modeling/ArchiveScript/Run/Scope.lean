import ArchiveScript.Run.Failure

/-! # Scopes

Names are looked up in a chain of frames, the innermost first. A frame of variables binds names.
A frame of parameters stands before the others while the body of a command is written down: its
names stand for themselves, and nothing can be bound in it.
-/

namespace ArchiveScript

/-- One link of the chain. -/
inductive Frame where
  | bindings (entries : Dict Value)
  | parameters (names : List String)

/-- The innermost frame and those around it. -/
structure Scope where
  inner : Frame
  outer : List Frame

/-- A name cannot be bound where the innermost frame is one of parameters. -/
inductive ScopeError where
  | readOnly (name : String)
  deriving DecidableEq, Repr

namespace ScopeError

def message : ScopeError → String
  | readOnly name => "cannot bind '" ++ name ++ "' in a read-only command scope"

def toFailure (error : ScopeError) : Failure := ⟨.internal error.message, none⟩

end ScopeError

namespace Frame

def get? (name : String) : Frame → Option Value
  | bindings entries => entries.get? name
  | parameters names => if names.contains name then some (.parameter name) else none

end Frame

namespace Scope

/-- A scope without bindings. -/
def root : Scope := ⟨.bindings .empty, []⟩

def frames (scope : Scope) : List Frame := scope.inner :: scope.outer

/-- A scope of variables inside another. -/
def child (scope : Scope) : Scope := ⟨.bindings .empty, scope.frames⟩

/-- A scope in which the parameters of a command stand for themselves. -/
def command (scope : Scope) (names : List String) : Scope := ⟨.parameters names, scope.frames⟩

/-- The scope around this one. -/
def outer? (scope : Scope) : Option Scope :=
  match scope.outer with
  | [] => none
  | inner :: outer => some ⟨inner, outer⟩

/-- The value of a name in the innermost frame that knows it. -/
def resolve (scope : Scope) (name : String) : Option Value :=
  scope.frames.findSome? (Frame.get? name)

def bind (scope : Scope) (name : String) (value : Value) : Except ScopeError Scope :=
  match scope.inner with
  | .bindings entries => .ok { scope with inner := .bindings (entries.insert name value) }
  | .parameters _ => .error (.readOnly name)

/-- Forgets the binding of the innermost frame; those around it stay. -/
def unbind (scope : Scope) (name : String) : Except ScopeError Scope :=
  match scope.inner with
  | .bindings entries => .ok { scope with inner := .bindings (entries.erase name) }
  | .parameters _ => .error (.readOnly name)

/-- The bindings of the innermost frame. -/
def locals (scope : Scope) : List (String × Value) :=
  match scope.inner with
  | .bindings entries => entries.entries
  | .parameters _ => []

end Scope

end ArchiveScript
