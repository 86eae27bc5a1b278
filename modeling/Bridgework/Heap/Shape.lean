import Bridgework.Json.Decode

/-!
# Shapes of objects

What an inspection tells about one object of a running program.

- `NativeKind`, `WrapperKind` : the kinds of native callables and of wrappers
- `Shape` : the shape of an object
- `Shape.toJson`, `Shape.ofJson?` : its document
-/

namespace Bridgework

abbrev ObjectId := UInt64

/-! ## Kinds -/

/-- Kinds of objects that enter native code. -/
inductive NativeKind where
  | builtinFunction
  | methodDescriptor
  | wrapperDescriptor
  | methodWrapper
  | getSetDescriptor
  | cythonFunction
  | bindingFunction
  | ufunc
  | ffiPointer
  | type
  deriving DecidableEq, Repr

namespace NativeKind

def all : List NativeKind :=
  [.builtinFunction, .methodDescriptor, .wrapperDescriptor, .methodWrapper, .getSetDescriptor,
    .cythonFunction, .bindingFunction, .ufunc, .ffiPointer, .type]

def name : NativeKind → String
  | .builtinFunction => "builtin_function"
  | .methodDescriptor => "method_descriptor"
  | .wrapperDescriptor => "wrapper_descriptor"
  | .methodWrapper => "method_wrapper"
  | .getSetDescriptor => "get_set_descriptor"
  | .cythonFunction => "cython_function"
  | .bindingFunction => "binding_function"
  | .ufunc => "ufunc"
  | .ffiPointer => "ffi_pointer"
  | .type => "type"

def ofName? (s : String) : Option NativeKind := all.find? fun k => k.name == s

def ofJson? (j : Json) : Option NativeKind := j.innerVariant.bind ofName?

end NativeKind

/-- Kinds of objects that stand for another one. -/
inductive WrapperKind where
  | boundMethod
  | partialCall
  | staticMethod
  | classMethod
  | decorated
  deriving DecidableEq, Repr

namespace WrapperKind

def all : List WrapperKind := [.boundMethod, .partialCall, .staticMethod, .classMethod, .decorated]

def name : WrapperKind → String
  | .boundMethod => "bound_method"
  | .partialCall => "partial"
  | .staticMethod => "static_method"
  | .classMethod => "class_method"
  | .decorated => "decorated"

def ofName? (s : String) : Option WrapperKind := all.find? fun k => k.name == s

def ofJson? (j : Json) : Option WrapperKind := j.innerVariant.bind ofName?

end WrapperKind

/-! ## Shapes -/

inductive Shape where
  /-- A module, with the file that it was loaded from. -/
  | module (file : Option String)
  | interpretedFunction
  | interpretedClass
  /-- An object that enters native code at some addresses. -/
  | native (kind : NativeKind) (entries : List UInt64) (declaredName : Option String)
  /-- An object that stands for another one. -/
  | wrapper (kind : WrapperKind) (inner : ObjectId)
  /-- An object that is called through its class. -/
  | callableInstance (class_ : ObjectId)
  /-- Any other object of a class. -/
  | instance (class_ : ObjectId)
  | data
  deriving DecidableEq, Repr

namespace Shape

def isModule : Shape → Bool
  | .module _ => true
  | _ => false

/-- The document of a shape: its name first, then its fields. -/
def toJson : Shape → Json
  | .module file => .object [("shape", .text "module"), ("file", .orNull Json.text file)]
  | .interpretedFunction => .object [("shape", .text "interpreted_function")]
  | .interpretedClass => .object [("shape", .text "interpreted_class")]
  | .native kind entries declaredName =>
    .object [("shape", .text "native"), ("kind", .text kind.name),
      ("entries", .list (fun a : UInt64 => .nat a.toNat) entries),
      ("declared_name", .orNull Json.text declaredName)]
  | .wrapper kind inner =>
    .object [("shape", .text "wrapper"), ("kind", .text kind.name), ("inner", .nat inner.toNat)]
  | .callableInstance c => .object [("shape", .text "callable_instance"), ("class", .nat c.toNat)]
  | .instance c => .object [("shape", .text "instance"), ("class", .nat c.toNat)]
  | .data => .object [("shape", .text "data")]

def classOfJson? (j : Json) : Option ObjectId := do
  let r ← j.record ["class"]
  r.required "class" Json.asWord

def ofJson? (j : Json) : Option Shape := do
  let (name, fields) ← j.tagged "shape"
  match name with
  | "module" =>
    let r ← fields.record ["file"]
    return .module (← r.nullable "file" Json.asString)
  | "interpreted_function" => fields.asUnitFields.map fun _ => .interpretedFunction
  | "interpreted_class" => fields.asUnitFields.map fun _ => .interpretedClass
  | "native" =>
    let r ← fields.record ["kind", "entries", "declared_name"]
    return .native (← r.required "kind" NativeKind.ofJson?)
      (← r.required "entries" (Json.asList Json.asWord))
      (← r.withDefault "declared_name" none (Json.asOption Json.asString))
  | "wrapper" =>
    let r ← fields.record ["kind", "inner"]
    return .wrapper (← r.required "kind" WrapperKind.ofJson?) (← r.required "inner" Json.asWord)
  | "callable_instance" => (classOfJson? fields).map .callableInstance
  | "instance" => (classOfJson? fields).map .instance
  | "data" => fields.asUnitFields.map fun _ => .data
  | _ => none

end Shape
end Bridgework
