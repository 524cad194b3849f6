/-
  Whether the elements of a stream come in an order.

  A spliterator tells by a bit of its characteristics.  A static factory of streams is ordered
  unless it calls a supplier again and again.  Several possible sources have to agree.
-/
import StreamVerdict.Failure
import StreamVerdict.Source.Binding

namespace StreamVerdict

/-- Whether the source of a stream has an order. -/
inductive SourceOrder where
  | ordered
  | unordered
  | unknown
deriving DecidableEq

namespace SourceOrder

def all : List SourceOrder := [ordered, unordered, unknown]

def name : SourceOrder → String
  | ordered => "ORDERED"
  | unordered => "UNORDERED"
  | unknown => "UNKNOWN"

def isKnown (o : SourceOrder) : Bool := o ≠ unknown

end SourceOrder

/-- The characteristics of a spliterator, one bit each. -/
structure Characteristics where
  bits : UInt32
deriving DecidableEq

namespace Characteristics

def distinct : UInt32 := 0x1
def sorted : UInt32 := 0x4
def ordered : UInt32 := 0x10
def sized : UInt32 := 0x40
def nonnull : UInt32 := 0x100
def immutable : UInt32 := 0x400
def concurrent : UInt32 := 0x1000
def subsized : UInt32 := 0x4000

/-- The named bits, from the lowest to the highest. -/
def named : List UInt32 :=
  [distinct, sorted, ordered, sized, nonnull, immutable, concurrent, subsized]

/-- All bits of the mask are set. -/
def has (c : Characteristics) (mask : UInt32) : Bool := c.bits &&& mask = mask

def isOrdered (c : Characteristics) : Bool := c.has ordered

def order (c : Characteristics) : SourceOrder :=
  if c.isOrdered then .ordered else .unordered

end Characteristics

/-- Why the order of a stream cannot be determined; a property of the analysed program. -/
inductive OrderingError where
  | inconsistent (types : List String)
  | nonIterable (type : String)
  | nonInstantiable (type : String)
  | cannotExtract (type : String)
  | noTypeInformation
deriving DecidableEq

namespace OrderingError

def message : OrderingError → String
  | inconsistent types =>
    "Inconsistent orderings across possible sources: " ++ Text.commaSeparated types
  | nonIterable t => "Non-iterable possible source: " ++ t
  | nonInstantiable t => "Non-instantiable possible source: " ++ t
  | cannotExtract t => "Cannot extract spliterator from type: " ++ t
  | noTypeInformation => "No static type information for the stream source"

def label : OrderingError → String
  | inconsistent _ => "InconsistentOrdering"
  | nonIterable _ => "NonIterableSource"
  | nonInstantiable _ => "NonInstantiableSource"
  | cannotExtract _ => "CannotExtractProbe"
  | noTypeInformation => "NoStaticTypeInformation"

instance : Explained OrderingError := ⟨label, message⟩

end OrderingError

namespace SourceOrder

/-- The static factories whose streams have no order: class and method. -/
def unorderedFactories : List (String × String) :=
  [ ("java.util.stream.Stream", "generate(java.util.function.Supplier)"),
    ("java.util.stream.IntStream", "generate(java.util.function.IntSupplier)"),
    ("java.util.stream.LongStream", "generate(java.util.function.LongSupplier)"),
    ("java.util.stream.DoubleStream", "generate(java.util.function.DoubleSupplier)") ]

/-- The order of the streams of a static factory. -/
def ofFactory (m : MethodBinding) : SourceOrder :=
  if (m.declaringType.binaryName, m.identifier) ∈ unorderedFactories then unordered else ordered

/-- The order on which all types agree. -/
def reconcile : List (String × SourceOrder) → Except OrderingError SourceOrder
  | [] => .error .noTypeInformation
  | (t, first) :: rest =>
    if rest.all fun o => o.2 = first then .ok first
    else .error (.inconsistent (t :: rest.map Prod.fst))

end SourceOrder
end StreamVerdict
