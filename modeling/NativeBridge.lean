import NativeBridge.Main
import NativeBridge.Session.Run
import NativeBridge.Proofs.Heap.Lookup
import NativeBridge.Proofs.Heap.Ownership
import NativeBridge.Proofs.Heap.Census
import NativeBridge.Proofs.Heap.Growth
import NativeBridge.Proofs.Heap.Restoration
import NativeBridge.Proofs.Custody.Basic
import NativeBridge.Proofs.Custody.Invariants
import NativeBridge.Proofs.Custody.Objects
import NativeBridge.Proofs.Custody.Buffers
import NativeBridge.Proofs.Custody.Records
import NativeBridge.Proofs.Host.EntryPoints
import NativeBridge.Proofs.Session.Tables
import NativeBridge.Proofs.Session.Frames
import NativeBridge.Proofs.Session.Steps
import NativeBridge.Proofs.Session.Runs
import NativeBridge.Proofs.Session.Ownership
import NativeBridge.Proofs.Session.Exports
import NativeBridge.Proofs.Session.Windows
import NativeBridge.Proofs.Session.Pending
import NativeBridge.Proofs.Session.Counting
import NativeBridge.Proofs.Record.Outcome
import NativeBridge.Proofs.Record.Reconstruction
import NativeBridge.Proofs.Record.RoundTrip
import NativeBridge.Proofs.Heap.Lending
import NativeBridge.Proofs.Heap.Lifetime
import NativeBridge.Proofs.Buffer.Legacy
import NativeBridge.Proofs.Session.Cycles
import NativeBridge.Proofs.Number.Exact
import NativeBridge.Proofs.Number.Rounding
import NativeBridge.Proofs.Conversion.Outcome
import NativeBridge.Proofs.Conversion.Restoration
import NativeBridge.Proofs.Layout.Reading
import NativeBridge.Proofs.Record.Fields
import NativeBridge.Proofs.Conversion.Elements
import NativeBridge.Proofs.Export.Registration
import NativeBridge.Proofs.Layout.Casting
import NativeBridge.Proofs.Check.Suite
import NativeBridge.Proofs.Check.Leftovers
import NativeBridge.Proofs.Number.Truncation
import NativeBridge.Proofs.Number.Division
import NativeBridge.Proofs.Export.Matching
import NativeBridge.Proofs.Heap.Cascade
import NativeBridge.Proofs.Session.CreationOrder
import NativeBridge.Proofs.Record.Items
