import SimStorage.Interaction.System
import SimStorage.Codec.Decoder
import SimStorage.Codec.Framing
import SimStorage.Kernel.Datum
import SimStorage.Journal.Error
import SimStorage.Journal.DatumCodec
import SimStorage.Journal.DatumRoundTrip
import SimStorage.Journal.DatumOrder
import SimStorage.Journal.Entry
import SimStorage.Journal.State
import SimStorage.Journal.Log
import SimStorage.Journal.NativeCodec
import SimStorage.Journal.NativeRoundTrip
import SimStorage.Journal.Host.Port
import SimStorage.Journal.Host.Backend
import SimStorage.Journal.Host.Reading
import SimStorage.Journal.Host.PrefixLog
import SimStorage.Journal.Host.Committed
import SimStorage.Journal.Host.Deployment
import SimStorage.Journal.Host.Protocol
import SimStorage.Journal.Host.History
import SimStorage.Journal.Host.Quiet
import SimStorage.Journal.Host.Publishing
import SimStorage.Journal.Host.Admitting
import SimStorage.Journal.Host.Leasing
import SimStorage.Journal.Host.Soundness
import SimStorage.Journal.Host.AppendOnly
import SimStorage.Journal.Host.Fencing
import SimStorage.Journal.Host.Readback
import SimStorage.Journal.Host.Upgrade
import SimStorage.Journal.Host.Layout
import SimStorage.Kernel.Reference
import SimStorage.Journal.Meaning
import SimStorage.Journal.HeadIdentity
import SimStorage.Journal.Memory.Backend
import SimStorage.Journal.Memory.Admission
import SimStorage.Journal.Memory.Safety
import SimStorage.Journal.Memory.Soundness
import SimStorage.Journal.Memory.AllOrNothing
import SimStorage.Journal.SingleAction
import SimStorage.Journal.Host.Objects
import SimStorage.Journal.Host.Rebuild
import SimStorage.Sealed.Generation
import SimStorage.Interaction.Rely
import SimStorage.Sealed.Rotation
import SimStorage.Sealed.HeadOrder
import SimStorage.Interaction.Alone
import SimStorage.Sealed.Recovery
import SimStorage.Sealed.Format
import SimStorage.Sealed.Table
import SimStorage.Interaction.Outcome
import SimStorage.Sealed.Sealing
import SimStorage.Sealed.Contract
import SimStorage.Sealed.Authenticity
import SimStorage.Sealed.DbDir
import SimStorage.Sealed.Directory
import SimStorage.Site.Contract
import SimStorage.Site.Effects
import SimStorage.Sealed.Backup
import SimStorage.Sealed.Destruction
import SimStorage.Sealed.Monotonic
import SimStorage.Mutual.Model
import SimStorage.Mutual.Porch
import SimStorage.Mutual.Audit
import SimStorage.Mutual.Consent
import SimStorage.Interaction.Mirror
import SimStorage.Mutual.Binding
import SimStorage.Mutual.Identity
import SimStorage.Diff.Common
import SimStorage.Diff.Script
import SimStorage.Diff.Alignment
import SimStorage.Facet.Image
import SimStorage.Facet.Lines
import SimStorage.Facet.Merge
import SimStorage.Diff.Combined
import SimStorage.Facet.Changes
import SimStorage.Facet.Combine
import SimStorage.Facet.Sound
import SimStorage.Facet.Identity
import SimStorage.Facet.Symmetry
import SimStorage.Diff.Border
import SimStorage.Db.Store
import SimStorage.Interaction.Evaluation
import SimStorage.Db.Steps
import SimStorage.Db.Tree
import SimStorage.Db.Views
import SimStorage.Relation.Dir
import SimStorage.Relation.Steps
import SimStorage.Relation.Tree
import SimStorage.Relation.Views
import SimStorage.Relation.Runs
import SimStorage.Relation.Head
import SimStorage.Override.Table
import SimStorage.Override.Visible
import SimStorage.Override.Cells
import SimStorage.Override.Runs
import SimStorage.Override.Encoding
import SimStorage.Lists.Iter
import SimStorage.Lists.Coherence
import SimStorage.Lists.Plain
import SimStorage.Lists.Runs
import SimStorage.Lists.Cons
import SimStorage.Lists.Forced
import SimStorage.Lists.Chain
import SimStorage.Lists.Backends
import SimStorage.Table.Prefixes
import SimStorage.Sealed.Sizes
import SimStorage.Interaction.Transcript
import SimStorage.Site.Rows
import SimStorage.Site.Bounds
import SimStorage.LazyTable.AtMostOnce
import SimStorage.LazyTable.Outcomes
import SimStorage.RelationCli.Command
import SimStorage.RelationCli.Grammar
import SimStorage.Lists.Mixed
import SimStorage.Lists.Unrolled
import SimStorage.Lists.Thunks
import SimStorage.Lists.Laziness
import SimStorage.Lists.Erring
import SimStorage.Facet.Region
import SimStorage.Journal.Exact
import SimStorage.Codec.Spelling
import SimStorage.Journal.NativeInverse
import SimStorage.Facet.Again
import SimStorage.Mount.MountedDir
import SimStorage.Mount.Registry
import SimStorage.Mount.Delegation
import SimStorage.Mount.Cabinet
import SimStorage.Mount.Shadow
import SimStorage.Mount.Serving
import SimStorage.Mount.Views
import SimStorage.Mount.Consistency
import SimStorage.Http.Requests
import SimStorage.Http.Serving
import SimStorage.Interaction.Completes
import SimStorage.Journal.Host.Undisturbed
import SimStorage.Journal.Host.Solo
import SimStorage.Journal.Host.Serial
import SimStorage.Journal.Memory.Serial
import SimStorage.Journal.Agreement
import SimStorage.Interaction.Unwinding
import SimStorage.Sealed.Lanes
import SimStorage.Site.Gates
import SimStorage.Codec.Failing
import SimStorage.Journal.FailClosed
