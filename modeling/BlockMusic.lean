import BlockMusic.Block.Basic
import BlockMusic.Block.Catalogue
import BlockMusic.Block.Document
import BlockMusic.Block.Registry
import BlockMusic.CommandLine.Compile
import BlockMusic.CommandLine.Files
import BlockMusic.CommandLine.Options
import BlockMusic.Compile.Arguments
import BlockMusic.Compile.Compiler
import BlockMusic.Compile.Context
import BlockMusic.Compile.Diagnostic
import BlockMusic.Compile.Draft
import BlockMusic.Compile.Error
import BlockMusic.Compile.Program
import BlockMusic.Compile.Workbench
import BlockMusic.Compile.Writer
import BlockMusic.Decimal.Double
import BlockMusic.Decimal.Layout
import BlockMusic.Decimal.Leading
import BlockMusic.Decimal.Numeral
import BlockMusic.Decimal.Shortest
import BlockMusic.Fragment
import BlockMusic.Graph.Basic
import BlockMusic.Graph.Document
import BlockMusic.Json.Basic
import BlockMusic.Json.Reader
import BlockMusic.Json.Token
import BlockMusic.Literal
import BlockMusic.Service.App
import BlockMusic.Service.Body
import BlockMusic.Service.Launch
import BlockMusic.Service.Target
import BlockMusic.Settings
import BlockMusic.Text.Blank
import BlockMusic.Text.Digit
import BlockMusic.Text.Encoding
import BlockMusic.Text.Lines
import BlockMusic.Text.Printable
import BlockMusic.Text.Quoted
import BlockMusic.Text.Replace
import BlockMusic.Text.Split
import BlockMusic.Text.Utf8
import BlockMusic.Validation.Issue
import BlockMusic.Validation.Lenient
import BlockMusic.Validation.Schema
import BlockMusic.Main
import BlockMusic.Proofs.Run
import BlockMusic.Proofs.Session
import BlockMusic.Proofs.Accepted
import BlockMusic.Proofs.Faults
import BlockMusic.Proofs.Frame
import BlockMusic.Proofs.Reach
import BlockMusic.Proofs.Grammar
import BlockMusic.Proofs.Numerals
import BlockMusic.Proofs.Tokens
import BlockMusic.Proofs.ValueWriters
import BlockMusic.Proofs.Precedence
import BlockMusic.Proofs.History
import BlockMusic.Proofs.Success
import BlockMusic.Proofs.Uniform
import BlockMusic.Proofs.Workspace
import BlockMusic.Proofs.Hoisting
import BlockMusic.Proofs.Rewording
import BlockMusic.Proofs.Indentation
import BlockMusic.Proofs.Quotation
import BlockMusic.Proofs.NodeTexts
import BlockMusic.Proofs.Layout
import BlockMusic.Proofs.BodyLines
import BlockMusic.Proofs.Reindentation
import BlockMusic.Proofs.Agreement
import BlockMusic.Proofs.Obstacles
import BlockMusic.Proofs.Locality
import BlockMusic.Proofs.Nesting
import BlockMusic.Proofs.Testimony
import BlockMusic.Proofs.Presence
import BlockMusic.Proofs.Reordering
import BlockMusic.Proofs.Bookkeeping
import BlockMusic.Proofs.Sentences
import BlockMusic.Proofs.Intact
import BlockMusic.Proofs.Undegraded
import BlockMusic.Proofs.Drafts
import BlockMusic.Proofs.Embedding
import BlockMusic.Proofs.Origins
import BlockMusic.Proofs.FrontEnds
import BlockMusic.Proofs.Rounding
import BlockMusic.Proofs.Decoding
import BlockMusic.Proofs.Queries
import BlockMusic.Proofs.Enlargement
import BlockMusic.Proofs.Progression
import BlockMusic.Proofs.Parts
import BlockMusic.Proofs.MotifScopes
import BlockMusic.Proofs.NumberFields
import BlockMusic.Proofs.WellFormedDocuments
import BlockMusic.Proofs.Rereading
import BlockMusic.Proofs.Categories
import BlockMusic.Proofs.FloatTexts
import BlockMusic.Proofs.IndentationLaws
