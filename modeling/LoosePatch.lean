import LoosePatch.Config.Environment
import LoosePatch.Dialect.Normalize
import LoosePatch.Image
import LoosePatch.Indent.Reconcile
import LoosePatch.Log.Session
import LoosePatch.Numeric.Fixed
import LoosePatch.Proofs.Locate.Anchors
import LoosePatch.Proofs.Locate.Choices
import LoosePatch.Proofs.Locate.Layout
import LoosePatch.Proofs.Locate.Narrower
import LoosePatch.Splice.Apply
import LoosePatch.Text.Break
import LoosePatch.Text.Case
import LoosePatch.Text.Loose
import LoosePatch.Text.Similarity
import LoosePatch.Text.Word
import LoosePatch.Tool.Edit
import LoosePatch.Tool.Read
import LoosePatch.Tool.Schema
import LoosePatch.Value
import LoosePatch.Proofs.Locate.Soundness
import LoosePatch.Proofs.Locate.ExactText
import LoosePatch.Proofs.Locate.Hinted
import LoosePatch.Proofs.Splice.Assembly
import LoosePatch.Proofs.Indent.Body
import LoosePatch.Proofs.Outcome
import LoosePatch.Proofs.Splice.Sharing
import LoosePatch.Proofs.Splice.Emission
import LoosePatch.Proofs.Splice.Regions
import LoosePatch.Proofs.Splice.Accepted
import LoosePatch.Proofs.Splice.Conservation
import LoosePatch.Proofs.Splice.Inert
import LoosePatch.Proofs.Indent.Verbatim
import LoosePatch.Proofs.Splice.Verbatim
import LoosePatch.Proofs.LineRef.Checked
import LoosePatch.Proofs.LineRef.Order
import LoosePatch.Proofs.LineRef.Simultaneous
import LoosePatch.Proofs.LineRef.Kept
import LoosePatch.Proofs.LineRef.Faults
import LoosePatch.Proofs.LineRef.Blocks
import LoosePatch.Proofs.LineRef.Sources
import LoosePatch.Proofs.LineRef.Spacing
import LoosePatch.Proofs.LineRef.Inserts
import LoosePatch.Proofs.LineRef.Trace
import LoosePatch.Proofs.LineRef.Surroundings
import LoosePatch.Proofs.LineRef.Emptied
import LoosePatch.Proofs.LineRef.Independent
import LoosePatch.Proofs.LineRef.Stale
import LoosePatch.Proofs.Locate.Grounded
import LoosePatch.Proofs.Locate.Numberless
import LoosePatch.Proofs.Locate.Leaders
import LoosePatch.Proofs.Locate.Ambiguous
import LoosePatch.Proofs.Locate.Contextless
import LoosePatch.Proofs.Locate.Threshold
import LoosePatch.Proofs.Splice.Symmetry
import LoosePatch.Proofs.Splice.Groups
import LoosePatch.Proofs.Splice.Sites
import LoosePatch.Proofs.Splice.Reorder
import LoosePatch.Proofs.Splice.ZeroContext
import LoosePatch.Proofs.Splice.Faultless
import LoosePatch.Proofs.Text.Bytes
import LoosePatch.Proofs.Text.Letters
import LoosePatch.Proofs.Text.Lines
import LoosePatch.Proofs.Image.Codec
import LoosePatch.Proofs.Image.Shape
import LoosePatch.Proofs.Hunk.Range
import LoosePatch.Proofs.Hunk.Written
import LoosePatch.Proofs.Hunk.Reading
import LoosePatch.Proofs.Hunk.Accounted
import LoosePatch.Proofs.Dialect.Bare
import LoosePatch.Proofs.Engine.Rewrite
import LoosePatch.Proofs.Engine.Shape
import LoosePatch.Proofs.Engine.Answers
import LoosePatch.Proofs.Text.Numeral
import LoosePatch.Proofs.Text.Trim
import LoosePatch.Proofs.Workspace.Tree
import LoosePatch.Proofs.Workspace.Calls
import LoosePatch.Proofs.Workspace.Drafts
import LoosePatch.Proofs.LineRef.Shown
import LoosePatch.Proofs.Hunk.Header
import LoosePatch.Proofs.Hunk.Printed
import LoosePatch.Proofs.Path
import LoosePatch.Proofs.Dialect.NewFile
import LoosePatch.Proofs.Dialect.Envelope
import LoosePatch.Proofs.Dialect.Content
import LoosePatch.Proofs.Dialect.OneFile
import LoosePatch.Proofs.Dialect.Printed
import LoosePatch.Proofs.Dialect.Wrapped
import LoosePatch.Proofs.Engine.Effect
import LoosePatch.Proofs.Engine.Changes
import LoosePatch.Proofs.Engine.Created
import LoosePatch.Proofs.Engine.Events
import LoosePatch.Proofs.Engine.Shown
import LoosePatch.Proofs.Engine.Wrapped
import LoosePatch.Proofs.Lookup
import LoosePatch.Proofs.Fields
import LoosePatch.Proofs.Log.Record
import LoosePatch.Proofs.Log.Names
import LoosePatch.Proofs.Log.Levels
import LoosePatch.Proofs.Log.Delivery
import LoosePatch.Proofs.Log.Reconfigured
import LoosePatch.Proofs.Tool.Plan
import LoosePatch.Proofs.Tool.Edit
import LoosePatch.Proofs.Tool.DryRun
import LoosePatch.Proofs.Tool.Read
import LoosePatch.Proofs.Locate.Chains
import LoosePatch.Proofs.Locate.Earliest
import LoosePatch.Proofs.Locate.StaleEdges
import LoosePatch.Proofs.Locate.StaleReports
import LoosePatch.Proofs.Splice.Conflicts
import LoosePatch.Proofs.Locate.AmbiguousReports
import LoosePatch.Proofs.Indent.Shifted
import LoosePatch.Proofs.Indent.Twins
import LoosePatch.Proofs.Indent.Tabs
import LoosePatch.Proofs.Locate.Leniency
import LoosePatch.Proofs.Hunk.LineNumbers
import LoosePatch.Proofs.Text.Similarity
import LoosePatch.Proofs.Locate.Pruned
import LoosePatch.Proofs.Splice.Disjoint
import LoosePatch.Proofs.Text.Loose
import LoosePatch.Proofs.Locate.Equalities
import LoosePatch.Proofs.Tool.Paths
import LoosePatch.Proofs.Log.Scopes
