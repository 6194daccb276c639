import SpirSymbol.Revision

/-! The primitive kinds of the type language. Each has one row: its name, the spelling used in
diagnostics, the code used in symbols and the first revision that accepts it. Scalars have the
one- and two-letter codes of the Itanium ABI; the other kinds of the device language have a
vendor name preceded by its length, as a user-defined type would. -/
namespace SpirSymbol

/-- A leaf of the type language. -/
inductive Primitive where
  | bool | uchar | char | ushort | short | uint | int | ulong | long | half | float | double
  | void
  /-- The `...` that ends a variadic prototype. -/
  | varArg
  | image1d | image2d | image2dDepth | image2dMsaa | image2dMsaaDepth | image3d
  | image1dBuffer | image1dArray | image2dArray | image2dArrayDepth | image2dArrayMsaa
  | image2dArrayMsaaDepth
  | event | sampler | clkEvent | pipe | reserveId | queue | ndRange
deriving DecidableEq

namespace Primitive

structure Row where
  name : String
  readable : String
  code : String
  since : Revision

def row : Primitive → Row
  | bool => ⟨"Bool", "bool", "b", .v1_2⟩
  | uchar => ⟨"UChar", "uchar", "h", .v1_2⟩
  | char => ⟨"Char", "char", "c", .v1_2⟩
  | ushort => ⟨"UShort", "ushort", "t", .v1_2⟩
  | short => ⟨"Short", "short", "s", .v1_2⟩
  | uint => ⟨"UInt", "uint", "j", .v1_2⟩
  | int => ⟨"Int", "int", "i", .v1_2⟩
  | ulong => ⟨"ULong", "ulong", "m", .v1_2⟩
  | long => ⟨"Long", "long", "l", .v1_2⟩
  | half => ⟨"Half", "half", "Dh", .v1_2⟩
  | float => ⟨"Float", "float", "f", .v1_2⟩
  | double => ⟨"Double", "double", "d", .v1_2⟩
  | void => ⟨"Void", "void", "v", .v1_2⟩
  | varArg => ⟨"VarArg", "...", "z", .v1_2⟩
  | image1d => ⟨"Image1d", "image1d_t", "11ocl_image1d", .v1_2⟩
  | image2d => ⟨"Image2d", "image2d_t", "11ocl_image2d", .v1_2⟩
  | image2dDepth => ⟨"Image2dDepth", "image2d_depth_t", "16ocl_image2ddepth", .v1_2⟩
  | image2dMsaa => ⟨"Image2dMsaa", "image2d_msaa_t", "15ocl_image2dmsaa", .v1_2⟩
  | image2dMsaaDepth =>
    ⟨"Image2dMsaaDepth", "image2d_msaa_depth_t", "20ocl_image2dmsaadepth", .v1_2⟩
  | image3d => ⟨"Image3d", "image3d_t", "11ocl_image3d", .v1_2⟩
  | image1dBuffer => ⟨"Image1dBuffer", "image1d_buffer_t", "17ocl_image1dbuffer", .v1_2⟩
  | image1dArray => ⟨"Image1dArray", "image1d_array_t", "16ocl_image1darray", .v1_2⟩
  | image2dArray => ⟨"Image2dArray", "image2d_array_t", "16ocl_image2darray", .v1_2⟩
  | image2dArrayDepth =>
    ⟨"Image2dArrayDepth", "image2d_array_depth_t", "21ocl_image2darraydepth", .v1_2⟩
  | image2dArrayMsaa =>
    ⟨"Image2dArrayMsaa", "image2d_array_msaa_t", "20ocl_image2darraymsaa", .v1_2⟩
  | image2dArrayMsaaDepth =>
    ⟨"Image2dArrayMsaaDepth", "image2d_array_msaa_depth_t", "25ocl_image2darraymsaadepth", .v1_2⟩
  | event => ⟨"Event", "event_t", "9ocl_event", .v1_2⟩
  | sampler => ⟨"Sampler", "sampler_t", "11ocl_sampler", .v1_2⟩
  | clkEvent => ⟨"ClkEvent", "clk_event_t", "12ocl_clkevent", .v2_0⟩
  | pipe => ⟨"Pipe", "pipe_t", "8ocl_pipe", .v2_0⟩
  | reserveId => ⟨"ReserveId", "reserve_id_t", "13ocl_reserveid", .v2_0⟩
  | queue => ⟨"Queue", "queue_t", "9ocl_queue", .v2_0⟩
  | ndRange => ⟨"NdRange", "ndrange_t", "9ndrange_t", .v2_0⟩

/-- Every kind, in the order of their positions. -/
def all : List Primitive :=
  [bool, uchar, char, ushort, short, uint, int, ulong, long, half, float, double, void, varArg,
   image1d, image2d, image2dDepth, image2dMsaa, image2dMsaaDepth, image3d, image1dBuffer,
   image1dArray, image2dArray, image2dArrayDepth, image2dArrayMsaa, image2dArrayMsaaDepth,
   event, sampler, clkEvent, pipe, reserveId, queue, ndRange]

def count : Nat := 33

/-- The fixed position of the kind, counted from zero. -/
def position (kind : Primitive) : Nat := kind.ctorIdx

/-- The kind at a position. -/
def ofPosition? (position : Nat) : Option Primitive := all[position]?

instance : Named Primitive where
  all := all
  name kind := kind.row.name
  find_name item := by cases item <;> decide +kernel

instance : Dated Primitive := ⟨fun kind => kind.row.since⟩

instance : Ord Primitive := ⟨fun left right => compare left.position right.position⟩

/-- The code written in symbols. -/
def code (kind : Primitive) : String := kind.row.code

/-- The spelling used in diagnostics. -/
def readable (kind : Primitive) : String := kind.row.readable

/-- Scalars, the kinds up to `double`, can be elements of a vector. -/
def isScalar (kind : Primitive) : Bool := kind.position ≤ double.position

theorem length_all : all.length = count := rfl

theorem ofPosition?_position (kind : Primitive) : ofPosition? kind.position = some kind := by
  cases kind <;> rfl

theorem position_lt_count (kind : Primitive) : kind.position < count := by
  cases kind <;> decide

theorem position_ofPosition? {position : Nat} {kind : Primitive}
    (found : ofPosition? position = some kind) : kind.position = position := by
  have inside : position < 33 := (List.getElem?_eq_some_iff.mp found).1
  have table : ∀ place : Fin 33, (ofPosition? place).map Primitive.position = some place.val := by
    decide
  have entry := table ⟨position, inside⟩
  rw [found] at entry
  exact Option.some.inj entry

end Primitive
end SpirSymbol
