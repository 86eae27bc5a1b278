import Bridgework.Heap.Shape

/-!
# The specimen extension

A native module with one member of every kind that a scan can meet. Each copy of it has the same layout
and its own place in memory.

- `Specimen.symbols`, `Specimen.offset?` : its symbols in the order of their addresses
- `Specimen.Member`, `Specimen.members` : what it holds
-/

namespace Bridgework
namespace Testbed
namespace Specimen

/-! ## Layout -/

/-- The symbols in the order of their addresses. -/
def symbols : List String :=
  ["fx_add", "fx_sub", "fx_hidden", "fx_dispatch", "fx_impl", "fx_data", "fx_impl2", "fx_counter_new",
    "fx_counter_dealloc", "fx_counter_iter", "fx_counter_step", "fx_counter_make", "fx_counter_get",
    "fx_counter_set", "fx_caller_call", "fx_caller_dealloc", "fx_static_iter", "fx_cy", "fx_fused",
    "fx_cy_dealloc", "fx_loop0", "fx_loop1", "fx_ufunc_dealloc"]

def offset? (symbol : String) : Option Nat :=
  (symbols.findIdx? (· == symbol)).map fun i => 0x1040 + 0x40 * i

def size : Nat := 0x10000

def base (copy : Nat) : Nat := 0x10000000000 + 0x100000 * copy

/-- An address in no library. -/
def outside : UInt64 := 0x1000

def address (copy : Nat) (symbol : String) : UInt64 :=
  match offset? symbol with
  | some n => UInt64.ofNat (base copy + n)
  | none => outside

/-! ## Members -/

/-- A callable: its kind and its symbols; where there are none to name, the address is outside. -/
structure Entry where
  kind : NativeKind
  symbols : List String
  isOutside : Bool

def Entry.inside (kind : NativeKind) (symbols : List String) : Entry := ⟨kind, symbols, false⟩

def Entry.addresses (copy : Nat) (e : Entry) : List UInt64 :=
  e.symbols.map (address copy) ++ if e.isOutside then [outside] else []

inductive Member where
  | callable (entry : Entry)
  /-- The object that another name stands for. -/
  | alias (name : String)
  /-- A type with some of its slots in the library and others outside, and its attributes. -/
  | type (slots : List String) (attributes : List (String × Entry))
  /-- An object of a type of the module. -/
  | object (type : String)
  /-- An object of a type that has no name. -/
  | anonymous (slots : List String)
  /-- An object of a type of the module that may be known for an array function with some loops. -/
  | arrayFunction (type : String) (loops : List String)

/-- The members by name. A type comes before its objects. -/
def members : List (String × Member) :=
  [("add", .callable (.inside .builtinFunction ["fx_add"])),
    ("plus", .alias "add"),
    ("sub", .callable (.inside .builtinFunction ["fx_sub"])),
    ("hidden", .callable (.inside .builtinFunction ["fx_hidden"])),
    ("bind", .callable (.inside .bindingFunction ["fx_impl", "fx_data"])),
    ("bind_nodata", .callable (.inside .bindingFunction ["fx_impl2"])),
    ("Counter", .type ["fx_counter_new", "fx_counter_dealloc", "fx_counter_iter"]
      [("__new__", ⟨.builtinFunction, [], true⟩),
        ("__iter__", .inside .wrapperDescriptor ["fx_counter_iter"]),
        ("step", .inside .methodDescriptor ["fx_counter_step"]),
        ("make", .inside .methodDescriptor ["fx_counter_make"]),
        ("value", .inside .getSetDescriptor ["fx_counter_get", "fx_counter_set"]),
        ("readonly", .inside .getSetDescriptor ["fx_counter_get"])]),
    ("default_counter", .object "Counter"),
    ("Caller", .type ["fx_caller_call", "fx_caller_dealloc"]
      [("__call__", .inside .wrapperDescriptor ["fx_caller_call"])]),
    ("caller", .object "Caller"),
    ("Static", .type ["fx_static_iter"] [("__iter__", .inside .wrapperDescriptor ["fx_static_iter"])]),
    ("static_obj", .object "Static"),
    ("cyfunc", .callable (.inside .cythonFunction ["fx_cy"])),
    ("cy_null", .callable (.inside .cythonFunction [])),
    ("fused", .callable (.inside .cythonFunction ["fx_fused"])),
    ("cy_small", .anonymous ["fx_cy_dealloc"]),
    ("Ufunc", .type ["fx_ufunc_dealloc"] []),
    ("a_ufunc", .arrayFunction "Ufunc" ["fx_loop0", "fx_loop1"]),
    ("neg_ufunc", .arrayFunction "Ufunc" []),
    ("null_ufunc", .arrayFunction "Ufunc" [])]

end Specimen
end Testbed
end Bridgework
