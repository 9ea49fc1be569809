import RecipeDesk.Assembler.Listing
import RecipeDesk.Command.Arguments
import RecipeDesk.Diagnostic.Report
import RecipeDesk.Document.Store
import RecipeDesk.Editor.Session
import RecipeDesk.Main
import RecipeDesk.Recipe.Rename
import RecipeDesk.Recipe.VocabularyFile
import RecipeDesk.Proofs.Text.Sequences
import RecipeDesk.Proofs.Text.Relocation
import RecipeDesk.Proofs.Recipe.Occurrences
import RecipeDesk.Proofs.Text.Splice
import RecipeDesk.Proofs.Text.Simultaneous
import RecipeDesk.Proofs.Text.Coordinates
import RecipeDesk.Proofs.Recipe.Rewrite
import RecipeDesk.Proofs.Recipe.Renaming
import RecipeDesk.Proofs.Assembler.Grammar
import RecipeDesk.Proofs.Assembler.Reading
import RecipeDesk.Proofs.Recipe.Columns
import RecipeDesk.Proofs.Recipe.WellFormed
import RecipeDesk.Proofs.Document.LastArrival
import RecipeDesk.Proofs.Document.Reopening
import RecipeDesk.Proofs.Editor.Publication
import RecipeDesk.Proofs.Assembler.Tiling
import RecipeDesk.Proofs.Assembler.Accounting
import RecipeDesk.Proofs.Assembler.OneToken
import RecipeDesk.Proofs.Assembler.AsciiMode
import RecipeDesk.Proofs.Assembler.GapReports
import RecipeDesk.Proofs.Assembler.Stages
import RecipeDesk.Proofs.Assembler.Expected
import RecipeDesk.Proofs.Assembler.Relocation
import RecipeDesk.Proofs.Assembler.Locality
import RecipeDesk.Proofs.Recipe.Agreement
import RecipeDesk.Proofs.Assembler.Nodes
import RecipeDesk.Proofs.Assembler.Fault
import RecipeDesk.Proofs.Assembler.Nesting
import RecipeDesk.Proofs.Recipe.Spans
import RecipeDesk.Proofs.Document.RealPositions
import RecipeDesk.Proofs.Recipe.Completion
import RecipeDesk.Proofs.Recipe.Tracks
import RecipeDesk.Proofs.Recipe.LineByLine
import RecipeDesk.Proofs.Recipe.Picture
import RecipeDesk.Proofs.Recipe.Composition
import RecipeDesk.Proofs.Recipe.Verdict
import RecipeDesk.Proofs.Document.Progress
import RecipeDesk.Proofs.Recipe.Catalogue
import RecipeDesk.Proofs.Recipe.UnderCaret
import RecipeDesk.Proofs.Document.OfferedRenaming
import RecipeDesk.Proofs.Assembler.Respacing
import RecipeDesk.Proofs.Recipe.Writable
import RecipeDesk.Proofs.Recipe.ReportedOnce
import RecipeDesk.Proofs.Recipe.LineEndings
import RecipeDesk.Proofs.Assembler.Constants
import RecipeDesk.Proofs.Assembler.Arithmetic
