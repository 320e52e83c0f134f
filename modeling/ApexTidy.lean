import ApexTidy.Comment.Session
import ApexTidy.Main
import ApexTidy.Proofs.Source.Addressing
import ApexTidy.Proofs.Text.Blanks
import ApexTidy.Proofs.Comment.Extent
import ApexTidy.Proofs.Edit.Splice
import ApexTidy.Proofs.Comment.Planning
import ApexTidy.Proofs.Comment.Replacement
import ApexTidy.Proofs.Declaration.Shape
import ApexTidy.Proofs.Calendar.Format
import ApexTidy.Proofs.Comment.Layout
import ApexTidy.Proofs.Comment.Reading
import ApexTidy.Proofs.Comment.Closing
import ApexTidy.Proofs.Comment.ReadBack
import ApexTidy.Proofs.Comment.Landing
import ApexTidy.Proofs.Comment.Refresh
import ApexTidy.Proofs.Edit.Parts
import ApexTidy.Proofs.Indent.Rows
import ApexTidy.Proofs.Indent.Layout
import ApexTidy.Proofs.Comment.Indentation
import ApexTidy.Proofs.Declaration.Edges
import ApexTidy.Proofs.Indent.Comments
import ApexTidy.Proofs.Comment.Formatted
import ApexTidy.Proofs.Comment.Declared
import ApexTidy.Proofs.Comment.Agreement
import ApexTidy.Proofs.Source.Slices
import ApexTidy.Proofs.Comment.Slicing
import ApexTidy.Proofs.Comment.Outcome
import ApexTidy.Proofs.Source.Returns
import ApexTidy.Proofs.Comment.Session
import ApexTidy.Proofs.Declaration.Slicing
import ApexTidy.Proofs.Edit.Acceptance
import ApexTidy.Proofs.Edit.Succession
import ApexTidy.Proofs.Edit.Reordering
import ApexTidy.Proofs.Indent.Counting
import ApexTidy.Proofs.Command.Checking
import ApexTidy.Proofs.Comment.Stacking
import ApexTidy.Proofs.Indent.Nesting
import ApexTidy.Proofs.Declaration.Printing
import ApexTidy.Proofs.Declaration.Matching
import ApexTidy.Proofs.Declaration.Sparing
import ApexTidy.Proofs.Declaration.Leading
import ApexTidy.Proofs.Declaration.Repeating
import ApexTidy.Proofs.Declaration.Headers
import ApexTidy.Proofs.Source.Positions
import ApexTidy.Proofs.Comment.Snippet
import ApexTidy.Proofs.Calendar.Parsing
import ApexTidy.Proofs.Command.Insertion
import ApexTidy.Proofs.Declaration.Ordering
import ApexTidy.Proofs.Source.Tiling
import ApexTidy.Proofs.Command.Documenting
import ApexTidy.Proofs.Comment.Widening
import ApexTidy.Proofs.Declaration.Closing
import ApexTidy.Proofs.Declaration.Commentary
