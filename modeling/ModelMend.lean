import ModelMend.Text.Blank
import ModelMend.Text.Identifier
import ModelMend.Text.Lines
import ModelMend.Text.Quoted
import ModelMend.Text.Split
import ModelMend.Text.Utf8
import ModelMend.Text.Word
import ModelMend.Text.Wording
import ModelMend.Token.Lexer
import ModelMend.Grammar.Table
import ModelMend.Line.Kind
import ModelMend.Line.DeclaredType
import ModelMend.Entity.Body
import ModelMend.Source.Mend
import ModelMend.Decimal.Shortest
import ModelMend.Toml.Document
import ModelMend.Store.Change
import ModelMend.Store.Replacement
import ModelMend.Settings.Load
import ModelMend.Batch.Run
import ModelMend.CommandLine.Run
import ModelMend.Main
import ModelMend.Proofs.Entity.Restoration
import ModelMend.Proofs.Grammar.Progress
import ModelMend.Proofs.Token.Letter
import ModelMend.Proofs.Entity.Letter
import ModelMend.Proofs.Text.Lines
import ModelMend.Proofs.Text.Wording
import ModelMend.Proofs.Source.Edits
import ModelMend.Proofs.Source.Change
import ModelMend.Proofs.Source.Settled
import ModelMend.Proofs.Declaration.Syntax
import ModelMend.Proofs.Text.Identifier
import ModelMend.Proofs.Declaration.Lexing
import ModelMend.Proofs.Declaration.Parsing
import ModelMend.Proofs.Declaration.Reading
import ModelMend.Proofs.Declaration.Layout
import ModelMend.Proofs.Source.Fields
import ModelMend.Proofs.Line.Idle
import ModelMend.Proofs.Source.Repetition
import ModelMend.Proofs.Entity.WellFormed
import ModelMend.Proofs.Source.Stranded
import ModelMend.Proofs.Entity.Grouping
import ModelMend.Proofs.Source.LineEnds
import ModelMend.Proofs.Text.LineEnds
import ModelMend.Proofs.Entity.LineLaw
import ModelMend.Proofs.Store.Finding
import ModelMend.Proofs.Store.Replacement
import ModelMend.Proofs.Batch.Verdict
import ModelMend.Proofs.Batch.Accounting
import ModelMend.Proofs.Settings.Layers
import ModelMend.Proofs.Text.Bytes
import ModelMend.Proofs.Toml.DateTime
import ModelMend.Proofs.Entity.Appending
import ModelMend.Proofs.Source.SameBody
import ModelMend.Proofs.Source.Insertion
import ModelMend.Proofs.CommandLine.WorkingWords
import ModelMend.Proofs.CommandLine.Presentation
import ModelMend.Proofs.Line.Indentation
import ModelMend.Proofs.Entity.Alone
import ModelMend.Proofs.Entity.KeyFlags
import ModelMend.Proofs.Source.LineByLine
import ModelMend.Proofs.Entity.Reduction
import ModelMend.Proofs.Source.Markers
import ModelMend.Proofs.Source.Comments
import ModelMend.Proofs.Entity.AttributeText
import ModelMend.Proofs.Line.Brackets
import ModelMend.Proofs.Source.FieldLines
import ModelMend.Proofs.Line.Unquoted
import ModelMend.Proofs.Batch.Discovery
import ModelMend.Proofs.CommandLine.WorkDirectory
import ModelMend.Proofs.Entity.Wrapping
import ModelMend.Proofs.Entity.DirectiveSet
import ModelMend.Proofs.Entity.Shape
import ModelMend.Line.ByteScan
import ModelMend.Proofs.Entity.Slices
