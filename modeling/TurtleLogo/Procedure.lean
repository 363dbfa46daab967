import TurtleLogo.Host
import TurtleLogo.NameTable
import TurtleLogo.Primitive.Basic

set_option autoImplicit false

/-! # Procedures

A procedure has a name, a way to run and a number of inputs. The registry finds procedures by name;
definitions may be added to it and replaced, primitives stay. -/

namespace TurtleLogo

/-- How a procedure runs. -/
inductive Body where
  /-- A primitive that takes values. -/
  | primitive (p : Primitive)
  /-- A primitive that takes unevaluated inputs. -/
  | deferred (p : Deferred)
  /-- The word `TO`, which takes the atoms that follow it. -/
  | definer
  /-- A primitive of the host. -/
  | host (act : List Atom → HostAction)
  /-- A definition in the language. -/
  | defined (d : Definition)

/-- A procedure as calls see it. -/
structure Procedure where
  /-- The name in upper case, as messages show it. -/
  name : String
  body : Body
  arity : Arity

/-- Whether the procedure is not a definition in the language. -/
def Procedure.isPrimitive (p : Procedure) : Bool :=
  match p.body with
  | .defined _ => false
  | _ => true

/-- What a host sees of a procedure. -/
def Procedure.signature (p : Procedure) : Signature where
  name := p.name
  arity := p.arity
  definition :=
    match p.body with
    | .defined d => some d
    | _ => none

/-- The procedures of an interpreter. -/
abbrev Registry := NameTable Procedure

namespace Registry

/-- Enters a primitive under a name, whatever had that name before. -/
def register (r : Registry) (name : String) (arity : Arity) (body : Body) : Registry :=
  NameTable.insert r name ⟨Text.upper name, body, arity⟩

/-- Enters a primitive under each of several names. -/
def registerAll (r : Registry) (names : List String) (arity : Arity) (body : Body) : Registry :=
  names.foldl (fun r name => r.register name arity body) r

/-- Enters a definition, unless a primitive has its name. -/
def install (r : Registry) (name : String) (d : Definition) : Except Cause Registry :=
  match r.get? name with
  | some p =>
    if p.isPrimitive then .error (.redefinition p.name)
    else .ok (NameTable.insert r name ⟨Text.upper name, .defined d, d.arity⟩)
  | none => .ok (NameTable.insert r name ⟨Text.upper name, .defined d, d.arity⟩)

/-- The registry of a new interpreter. -/
def standard : Registry :=
  let r := Primitive.catalogue.foldl
    (fun r (names, arity, p) => Registry.registerAll r names arity (.primitive p)) {}
  let r := Deferred.catalogue.foldl
    (fun r (names, arity, p) => Registry.registerAll r names arity (.deferred p)) r
  Registry.register r "to" (.fixed 0) .definer

end Registry

end TurtleLogo
