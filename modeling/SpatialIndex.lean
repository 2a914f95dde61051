import SpatialIndex.Engine
import SpatialIndex.Journal.Console
import SpatialIndex.Proofs.Arithmetic.Double.Canonical
import SpatialIndex.Proofs.Arithmetic.Double.Conversion
import SpatialIndex.Proofs.Arithmetic.Double.Dropping
import SpatialIndex.Proofs.Arithmetic.Double.Laws
import SpatialIndex.Proofs.Arithmetic.Double.Operations
import SpatialIndex.Proofs.EditSession
import SpatialIndex.Proofs.Failures
import SpatialIndex.Proofs.Lockstep
import SpatialIndex.Proofs.Observation
import SpatialIndex.Proofs.Partition.Alike
import SpatialIndex.Proofs.Partition.Erasure
import SpatialIndex.Proofs.Partition.Preorder
import SpatialIndex.Proofs.Partition.Representation
import SpatialIndex.Proofs.Partition.Ride
import SpatialIndex.Proofs.Partition.Travel
import SpatialIndex.Proofs.Program
import SpatialIndex.Proofs.Record.Edit
import SpatialIndex.Proofs.Safety
import SpatialIndex.Proofs.ShapeQuery
import SpatialIndex.Proofs.World.Conversion
import SpatialIndex.Proofs.World.RaySearch
import SpatialIndex.Proofs.World.Sweep
import SpatialIndex.Storage.Cursor
import SpatialIndex.Storage.Indices
import SpatialIndex.Text.Quoted
