import SpatialIndex.Coordinate.Basic
import SpatialIndex.Pool
import SpatialIndex.Text.Quoted

/-!
# Failures

An operation is rejected when its arguments do not fit, which its caller can act on
(`Rejection`); it is aborted when its caller broke the rules of use (`Fault`). Every cause has
its own constructor, and the wording stands in one function for each of the two.
-/
namespace SpatialIndex

open Record (Archetype)

/-- A key of a record, as messages name it. -/
def Key.recordText (key : Key) : String := "RecordKey(" ++ key.text ++ ")"

/-- A key of an index, as messages name it. -/
def Key.indexText (key : Key) : String := "IndexKey(" ++ key.text ++ ")"

/-- What a rejected operation got wrong. -/
inductive RejectionKind
  /-- A field that does not exist or holds another type. -/
  | invalidField
  /-- An inconsistent description of a record or an index. -/
  | invalidLayout
  /-- A key of no index of the storage. -/
  | invalidHandle
  /-- A fixed capacity is used up. -/
  | capacityExceeded
  /-- A setting outside its range. -/
  | invalidConfig
deriving DecidableEq, Repr

namespace RejectionKind

/-- Every kind. -/
def all : List RejectionKind :=
  [.invalidField, .invalidLayout, .invalidHandle, .capacityExceeded, .invalidConfig]

/-- The name. -/
def name : RejectionKind → String
  | invalidField => "InvalidField"
  | invalidLayout => "InvalidLayout"
  | invalidHandle => "InvalidHandle"
  | capacityExceeded => "CapacityExceeded"
  | invalidConfig => "InvalidConfig"

/-- The words before a message of this kind. -/
def heading : RejectionKind → String
  | invalidField => "Invalid field: "
  | invalidLayout => "Invalid layout: "
  | invalidHandle => "Invalid handle: "
  | capacityExceeded => "Capacity exceeded: "
  | invalidConfig => "Invalid config: "

end RejectionKind

/-- Why an operation was rejected. -/
inductive Rejection
  /-- A layout without fields. -/
  | noFields (layout : String)
  /-- Two fields of one name. -/
  | duplicateField (field layout : String)
  /-- A size that the archetype cannot have. -/
  | fieldSize (field layout : String) (archetype : Archetype) (size : Nat)
  /-- A density that is not a positive finite number. -/
  | density (value : Float)
  /-- A ray tolerance that is negative or not finite. -/
  | epsilon (value : Float)
  /-- A count of axes that no index can have. -/
  | dimensionCount (count : Nat)
  /-- A bound of another type than the first bound. -/
  | boundType (axis : Nat) (bound first : Coordinate)
  /-- A world range whose lower end is not below its upper end. -/
  | emptyRange (axis : Nat) (low high : Coordinate)
  /-- A bounding field that the layout does not have. -/
  | missingField (axis field : Nat) (layout : String)
  /-- A bounding field of another type than the bounds. -/
  | fieldType (field : String) (archetype : Archetype) (size axis : Nat) (bound : Coordinate)
  /-- More observed fields than a storage can have. -/
  | observedFields (layout : String) (most : Nat)
  /-- A key of no index. -/
  | unknownIndex (index : Key)
  /-- A record of another size than the layout's. -/
  | recordSize (bytes : Nat) (layout : String) (size : Nat)
  /-- A rejection that a caller words itself. -/
  | worded (kind : RejectionKind) (message : String)
deriving DecidableEq

namespace Rejection

/-- The kind of a rejection. -/
def kind : Rejection → RejectionKind
  | noFields _ | duplicateField _ _ | fieldSize _ _ _ _ | dimensionCount _ | boundType _ _ _
  | emptyRange _ _ _ | recordSize _ _ _ => .invalidLayout
  | missingField _ _ _ | fieldType _ _ _ _ _ => .invalidField
  | density _ | epsilon _ => .invalidConfig
  | observedFields _ _ => .capacityExceeded
  | unknownIndex _ => .invalidHandle
  | worded kind _ => kind

/-- The wording of a rejection. -/
def message : Rejection → String
  | noFields layout => "Mapping '" ++ layout ++ "' must have at least one field"
  | duplicateField field layout =>
    "Duplicate field name '" ++ field ++ "' in mapping '" ++ layout ++ "'"
  | fieldSize field layout archetype size =>
    "Field '" ++ field ++ "' of mapping '" ++ layout ++ "' cannot be a " ++ archetype.name ++
      " of " ++ toString size ++ " bytes"
  | density value => "Partition density must be a positive finite number, got " ++ plain value
  | epsilon value => "Ray epsilon must be a non-negative finite number, got " ++ plain value
  | dimensionCount count =>
    "Volumetric index needs 1 to 3 dimensions, got " ++ toString count
  | boundType axis bound first =>
    "Dimension " ++ toString axis ++ " bound " ++ bound.taggedText ++
      " does not match index unit of " ++ first.taggedText
  | emptyRange axis low high =>
    "Dimension " ++ toString axis ++ " has an empty world range [" ++ low.taggedText ++ ", " ++
      high.taggedText ++ "]"
  | missingField axis field layout =>
    "Dimension " ++ toString axis ++ " references field " ++ toString field ++
      " missing from mapping '" ++ layout ++ "'"
  | fieldType field archetype size axis bound =>
    "Field '" ++ field ++ "' is a " ++ archetype.name ++ " of " ++ toString size ++
      " bytes, dimension " ++ toString axis ++ " needs a " ++ bound.numeric.archetype.name ++
      " of " ++ toString bound.numeric.size ++ " bytes"
  | observedFields layout most =>
    "Storage '" ++ layout ++ "' cannot observe more than " ++ toString most ++ " indexed fields"
  | unknownIndex index => "Index " ++ index.indexText ++ " does not exist"
  | recordSize bytes layout size =>
    "Record of " ++ toString bytes ++ " bytes does not fit mapping '" ++ layout ++ "' of " ++
      toString size ++ " bytes"
  | worded _ message => message
where
  plain (value : Float) : String := Decimal.Notation.plain.write .double value.toBits.toNat

/-- The part of the library that rejects. -/
def source : Rejection → String
  | noFields _ | duplicateField _ _ | fieldSize _ _ _ _ => "volumetric::Mapping"
  | density _ | epsilon _ => "volumetric::VolumetricConfig"
  | _ => "volumetric::Storage"

/-- The full text. -/
def text (rejection : Rejection) : String := rejection.kind.heading ++ rejection.message

/-- The kind, and the message in quotes. -/
def quotedText (rejection : Rejection) : String :=
  rejection.kind.name ++ "(" ++ Text.quoted rejection.message ++ ")"

/-- Whether two rejections are of one kind and worded alike. -/
def sameWording (first second : Rejection) : Bool :=
  first.kind == second.kind && first.message == second.message

end Rejection

/-- A box of cells as messages show it: its lower and its upper corner. -/
structure ShownBox where
  /-- The lower corner. -/
  low : List Nat
  /-- The upper corner. -/
  high : List Nat
deriving DecidableEq, Repr

/-- The two corners by name. -/
def ShownBox.text (box : ShownBox) : String :=
  "PartitionShape \x7b min: " ++ corner box.low ++ ", max: " ++ corner box.high ++ " \x7d"
where
  corner (cells : List Nat) : String := "[" ++ ", ".intercalate (cells.map toString) ++ "]"

/-- Why an operation was aborted. -/
inductive Fault
  /-- A partition of an unsupported count of axes. -/
  | dimensions (count : Nat)
  /-- A border that is not a power of two. -/
  | borderShape (border : Nat)
  /-- A border outside the limits. -/
  | borderRange (border : Nat)
  /-- A box that is inverted or leaves the partition. -/
  | invalidBox (box : ShownBox) (border : Nat)
  /-- An item looked for below a child that does not exist. -/
  | missingChild
  /-- An item that is not in the node its box leads to. -/
  | missingItem
  /-- A child released that does not exist. -/
  | releasedTwice
  /-- A child released that still holds something. -/
  | releasedOccupied
  /-- A box walk used after its partition changed. -/
  | staleBoxWalk
  /-- A ray walk used after its partition changed. -/
  | staleRayWalk
  /-- An item removed at a walk that is over. -/
  | finishedWalk
  /-- An item removed at a position without one. -/
  | itemPosition (position : Nat)
  /-- A world range whose lower end is not below its upper end. -/
  | emptyRange (low high : Coordinate)
  /-- A bounding field of another type than its bounds. -/
  | boundField
  /-- An axis that an index does not have. -/
  | axis (axis : Nat)
  /-- A field accessed with another type than its own. -/
  | fieldType (field : Nat) (numeric : Numeric)
  /-- Bytes outside a record. -/
  | outsideRecord
  /-- A record overwritten by one of another length. -/
  | recordLength
  /-- Sizes whose sum exceeds the address space. -/
  | addressOverflow
  /-- A key that finds nothing. -/
  | staleKey
  /-- A search told to remove an item it does not have. -/
  | noCurrent
  /-- A query of another count of axes than its index. -/
  | queryDimensions (ray : Bool) (given needed : Nat)
  /-- A query of another numeric type than its index. -/
  | queryType (value : Coordinate) (needed : Numeric)
  /-- A cursor used with an index of another kind. -/
  | foreignCursor
  /-- A reader that starts while a writer is open. -/
  | readerDuringWriter
  /-- A writer that starts while readers are open. -/
  | writerDuringReader
  /-- A writer that starts while another is open. -/
  | writerDuringWriter
  /-- A record deleted while a writer is open. -/
  | deleteDuringWriter
  /-- A storage cleared while a writer is open. -/
  | clearDuringWriter
  /-- An index dropped while cursors use it. -/
  | openCursors (index : Key)
  /-- An edit cursor moved on after its end. -/
  | advancedPastEnd
  /-- A record erased after the end of an edit cursor. -/
  | erasedPastEnd
  /-- A count of readers, writers or cursors that would fall below zero. -/
  | countUnderflow
deriving DecidableEq

/-- The wording of a fault, for those that have one. -/
def Fault.message : Fault → Option String
  | dimensions count => "unsupported dimension count " ++ toString count
  | borderShape border => "border " ++ toString border ++ " is not a power of two"
  | borderRange border => "border " ++ toString border ++ " is outside [8, 262144]"
  | invalidBox box border =>
    "shape " ++ box.text ++ " is not a valid box inside [0, " ++ toString border ++ ")"
  | missingChild => "partitioning tree corrupted: erase path leads to a missing child"
  | missingItem => "partitioning tree corrupted: record is not stored where its shape leads"
  | releasedTwice => "partitioning tree corrupted: releasing a missing child"
  | staleBoxWalk => "shape enumerator used after its tree was modified"
  | staleRayWalk => "ray enumerator used after its tree was modified"
  | finishedWalk => "erase_record called on a finished enumerator"
  | itemPosition position => "record index " ++ toString position ++ " out of bounds"
  | emptyRange low high =>
    "dimension world range [" ++ low.text ++ ", " ++ high.text ++ "] is empty"
  | fieldType field numeric =>
    "field " ++ toString field ++ " does not hold a " ++ numeric.name
  | noCurrent => "erase_current called without a current record"
  | queryDimensions ray given needed =>
    (if ray then "ray" else "shape") ++ " query has " ++ toString given ++
      " dimensions, index has " ++ toString needed
  | queryType value needed =>
    "query value " ++ value.taggedText ++ " does not match index unit " ++ needed.name
  | foreignCursor => "enumerator used with a tree of another type"
  | readerDuringWriter => "reader registered while a writer is active"
  | writerDuringReader => "writer registered while readers are active"
  | writerDuringWriter => "writer registered while another writer is active"
  | deleteDuringWriter => "delete_record called while a writer is active"
  | clearDuringWriter => "clear called while a writer is active"
  | openCursors index => "index " ++ index.indexText ++ " dropped while cursors are open"
  | advancedPastEnd => "advance called on a finished edit cursor"
  | erasedPastEnd => "erase called on a finished edit cursor"
  | countUnderflow => "count underflow"
  | releasedOccupied | boundField | axis _ | outsideRecord | recordLength | addressOverflow
  | staleKey => none

/-- Why an operation did not succeed. -/
inductive Failure
  /-- Its arguments do not fit. -/
  | rejected (rejection : Rejection)
  /-- Its caller broke the rules of use. -/
  | aborted (fault : Fault)
deriving DecidableEq

end SpatialIndex
