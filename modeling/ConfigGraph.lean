import ConfigGraph.Container.Describe
import ConfigGraph.Source.Layers
import ConfigGraph.Store.Read
import ConfigGraph.Proofs.Number.Decimal
import ConfigGraph.Proofs.Store.Below
import ConfigGraph.Proofs.Entries
import ConfigGraph.Proofs.Store.Leaf
import ConfigGraph.Proofs.Store.Write
import ConfigGraph.Proofs.Store.Edit
import ConfigGraph.Proofs.Store.Patch
import ConfigGraph.Proofs.Source.Layering
import ConfigGraph.Proofs.Value.Texts
import ConfigGraph.Proofs.Value.Rebuild
import ConfigGraph.Proofs.Store.Holds
import ConfigGraph.Proofs.Store.Unflatten
import ConfigGraph.Proofs.Store.Existence
import ConfigGraph.Proofs.Store.Listed
import ConfigGraph.Proofs.Reference.First
import ConfigGraph.Proofs.Reference.Loop
import ConfigGraph.Proofs.Reference.Escape
import ConfigGraph.Proofs.Reference.Faults
import ConfigGraph.Proofs.Reference.Tag
import ConfigGraph.Proofs.Reference.Expansion
import ConfigGraph.Proofs.Reference.Termination
import ConfigGraph.Proofs.Reference.Yields
import ConfigGraph.Proofs.Reference.Transparent
import ConfigGraph.Proofs.Reference.Cycle
import ConfigGraph.Proofs.Reference.Append
import ConfigGraph.Proofs.Binding.Tree
import ConfigGraph.Proofs.Binding.Reads
import ConfigGraph.Proofs.Binding.RoundTrip
import ConfigGraph.Proofs.Binding.CommaList
import ConfigGraph.Proofs.Binding.ListEntries
import ConfigGraph.Proofs.Binding.Nameless
import ConfigGraph.Proofs.Binding.Elements
import ConfigGraph.Proofs.Binding.Overwrite
import ConfigGraph.Proofs.Binding.Under
import ConfigGraph.Proofs.Binding.Moved
import ConfigGraph.Proofs.Container.Course
import ConfigGraph.Proofs.Container.History
import ConfigGraph.Proofs.Container.Advance
import ConfigGraph.Proofs.Container.Parts
import ConfigGraph.Proofs.Container.Refresh
import ConfigGraph.Proofs.Container.States
import ConfigGraph.Proofs.Container.Dependencies
import ConfigGraph.Proofs.Container.Cleanup
import ConfigGraph.Proofs.Container.Cycles
import ConfigGraph.Proofs.Container.Abreast
import ConfigGraph.Proofs.Container.Singletons
import ConfigGraph.Proofs.Container.Closing
import ConfigGraph.Proofs.Container.Enlarged
import ConfigGraph.Proofs.Container.Apart
import ConfigGraph.Proofs.Container.Registered
import ConfigGraph.Proofs.Container.Isolation
import ConfigGraph.Proofs.Container.Typed
import ConfigGraph.Proofs.Container.Collect
import ConfigGraph.Proofs.Container.Optional
import ConfigGraph.Proofs.Source.Order
import ConfigGraph.Proofs.Store.Canonical
import ConfigGraph.Proofs.Format.Integers
import ConfigGraph.Proofs.Format.Trees
import ConfigGraph.Proofs.Reference.Balance
import ConfigGraph.Proofs.Binding.Durations
import ConfigGraph.Proofs.Binding.Integers
import ConfigGraph.Proofs.Binding.DurationSums
import ConfigGraph.Proofs.Binding.Located
import ConfigGraph.Proofs.Container.Conduct
import ConfigGraph.Proofs.Container.Circular
import ConfigGraph.Proofs.Container.RootCause
import ConfigGraph.Proofs.Container.Cardinality
import ConfigGraph.Proofs.Reference.Grammar
import ConfigGraph.Proofs.Store.Bounded
