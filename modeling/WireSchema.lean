import WireSchema.Catalog.Build
import WireSchema.Compatibility.Check
import WireSchema.Describe
import WireSchema.Document.Import
import WireSchema.Fingerprint
import WireSchema.Proofs.Catalog.Accepted
import WireSchema.Proofs.Catalog.CompleteExport
import WireSchema.Proofs.Catalog.Consistent
import WireSchema.Proofs.Catalog.Copy
import WireSchema.Proofs.Catalog.CopyAgain
import WireSchema.Proofs.Catalog.EqualNodes
import WireSchema.Proofs.Catalog.Equivalence
import WireSchema.Proofs.Catalog.ExportAgain
import WireSchema.Proofs.Catalog.FailedBuild
import WireSchema.Proofs.Catalog.FailedImport
import WireSchema.Proofs.Catalog.Fingerprint
import WireSchema.Proofs.Catalog.HeldIds
import WireSchema.Proofs.Catalog.ImportAgain
import WireSchema.Proofs.Catalog.MetAgain
import WireSchema.Proofs.Catalog.Permanent
import WireSchema.Proofs.Catalog.ReferenceText
import WireSchema.Proofs.Catalog.References
import WireSchema.Proofs.Catalog.Registry
import WireSchema.Proofs.Catalog.Resemblance
import WireSchema.Proofs.Catalog.RootlessExport
import WireSchema.Proofs.Catalog.RoundTrip
import WireSchema.Proofs.Catalog.SharedHandles
import WireSchema.Proofs.Catalog.StrictReading
import WireSchema.Proofs.Catalog.WellFormedImport
import WireSchema.Proofs.Compatibility.Bisimulation
import WireSchema.Proofs.Compatibility.Check
import WireSchema.Proofs.Compatibility.Looser
import WireSchema.Proofs.Compatibility.Mismatch
import WireSchema.Proofs.Compatibility.Modes
import WireSchema.Proofs.Compatibility.Strict
import WireSchema.Proofs.Document.Keyed
import WireSchema.Proofs.Markup.Grammar
import WireSchema.Proofs.Node.Recursion
import WireSchema.Proofs.Store.Frugal
import WireSchema.Proofs.Store.Growth
import WireSchema.Proofs.Store.Rendering
import WireSchema.Proofs.TypeDef.Document
import WireSchema.Proofs.Settings.Load
import WireSchema.Proofs.Catalog.CallDepth
