import StateCursors.Main
import StateCursors.Proofs.Additivity
import StateCursors.Proofs.Arrays
import StateCursors.Proofs.Expansion
import StateCursors.Proofs.Overwriting
import StateCursors.Proofs.Unreadable
import StateCursors.Proofs.Origins
import StateCursors.Proofs.Names
import StateCursors.Proofs.Termination
import StateCursors.Proofs.Components
import StateCursors.Proofs.RootKeys
import StateCursors.Proofs.Containment
import StateCursors.Proofs.PlainNames
import StateCursors.Proofs.Trails
import StateCursors.Proofs.LocalRuns
import StateCursors.Proofs.NestedRoutes
import StateCursors.Proofs.Cycles
import StateCursors.Proofs.Likeness
import StateCursors.Proofs.FileTrees
import StateCursors.Proofs.Memories
import StateCursors.Proofs.Disk
import StateCursors.Proofs.ModuleScope
import StateCursors.Proofs.KeyTrees
import StateCursors.Proofs.Noninterference
import StateCursors.Proofs.Ledger
import StateCursors.Proofs.Escapes
import StateCursors.Proofs.Suffixes
import StateCursors.Proofs.DryRuns
import StateCursors.Proofs.QuotedNames
import StateCursors.Proofs.ImportLines
import StateCursors.Proofs.Relocation
import StateCursors.Proofs.Delimiters
import StateCursors.Proofs.ArrayTypes
import StateCursors.Proofs.Capabilities
import StateCursors.Proofs.Comments
import StateCursors.Proofs.Discovered
import StateCursors.Proofs.SourceLists
import StateCursors.Proofs.Aliases
import StateCursors.Proofs.Manifests
import StateCursors.Proofs.Enclosure
