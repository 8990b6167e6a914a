import DeviceTree.Standard.Properties
import DeviceTree.Value.Element
import DeviceTree.Tree.Flatten
import DeviceTree.Tree.Edit
import DeviceTree.Platform.Simulated
import DeviceTree.Platform.MappedMemory
import DeviceTree.Bus.Reference
import DeviceTree.Bus.Access
import DeviceTree.Bus.Summary
import DeviceTree.Proofs.Blob.Placement
import DeviceTree.Tree.Unflatten
import DeviceTree.Proofs.Blob.Entries
import DeviceTree.Proofs.Tree.Layout
import DeviceTree.Proofs.Tree.RoundTrip
import DeviceTree.Proofs.Blob.Walk
import DeviceTree.Bus.Operation
import DeviceTree.Proofs.Bus.Registry
import DeviceTree.Proofs.Bus.Arena
import DeviceTree.Proofs.Bus.Discovery
import DeviceTree.Proofs.Bus.Reachable
import DeviceTree.Proofs.Bus.Resolution
import DeviceTree.Proofs.Bus.Windows
import DeviceTree.Proofs.Bus.Accesses
import DeviceTree.Proofs.Bus.Passing
import DeviceTree.Proofs.Value.Cursor
import DeviceTree.Proofs.Bus.Ranges
import DeviceTree.Proofs.Machine.Safety
import DeviceTree.Proofs.Blob.Preorder
import DeviceTree.Proofs.Machine.Preorder
import DeviceTree.Proofs.Tree.Grammar
import DeviceTree.Proofs.Tree.Reading
import DeviceTree.Proofs.Tree.Places
import DeviceTree.Proofs.Bus.Entries
import DeviceTree.Proofs.Bus.Claims
import DeviceTree.Proofs.Bus.Lineage
import DeviceTree.Proofs.Bus.Connections
import DeviceTree.Proofs.Bus.Descriptions
import DeviceTree.Proofs.Bus.Widths
import DeviceTree.Proofs.Bus.Histories
import DeviceTree.Proofs.Bus.Handles
import DeviceTree.Proofs.Tree.Paths
import DeviceTree.Proofs.Tree.Edits
import DeviceTree.Proofs.Machine.Paths
import DeviceTree.Proofs.Bus.Reservations
import DeviceTree.Proofs.Blob.Truncation
import DeviceTree.Machine.Tape
import DeviceTree.Proofs.Value.Numbers
import DeviceTree.Proofs.Machine.Tape
import DeviceTree.Proofs.Bus.Numbers
import DeviceTree.Machine.Mapping
import DeviceTree.Proofs.Bus.Mapping
import DeviceTree.Machine.Entry
import DeviceTree.Proofs.Machine.Runs
import DeviceTree.Proofs.Bus.Crossings
import DeviceTree.Proofs.Bus.Places
import DeviceTree.Proofs.Bus.Replies
import DeviceTree.Proofs.Bus.Enumeration
import DeviceTree.Machine.Strings
import DeviceTree.Proofs.Value.Strings
import DeviceTree.Proofs.Bus.Strings
import DeviceTree.Proofs.Bus.Rediscovery
import DeviceTree.Proofs.Bus.Strides
import DeviceTree.Proofs.Value.Encoders
import DeviceTree.Machine.Access
import DeviceTree.Proofs.Bus.Polling
import DeviceTree.Proofs.Bus.Copies
import DeviceTree.Proofs.Bus.Overruns
import DeviceTree.Proofs.Blob.Order
import DeviceTree.Proofs.Bus.Children
import DeviceTree.Proofs.Blob.Phandles
import DeviceTree.Proofs.Bus.References
import DeviceTree.Proofs.Platform.MappedMemory
import DeviceTree.Proofs.Messages
