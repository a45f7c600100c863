import BlitzDoc.About
import BlitzDoc.CommandIndex
import BlitzDoc.CommandLine.Run
import BlitzDoc.CommandPage
import BlitzDoc.Config
import BlitzDoc.Event
import BlitzDoc.FileTree
import BlitzDoc.HelpEntry
import BlitzDoc.Imports
import BlitzDoc.Json.Printer
import BlitzDoc.Json.Reader
import BlitzDoc.Main
import BlitzDoc.Markup.Format
import BlitzDoc.Module
import BlitzDoc.Output
import BlitzDoc.Proofs.Analysis.Append
import BlitzDoc.Proofs.Imports.Closure
import BlitzDoc.Proofs.Imports.DepthFirst
import BlitzDoc.Proofs.Imports.LinkOrder
import BlitzDoc.Proofs.Imports.Parents
import BlitzDoc.Proofs.Imports.Search
import BlitzDoc.Proofs.Path.Link
import BlitzDoc.Proofs.Path.NormalForm
import BlitzDoc.Proofs.Path.Way
import BlitzDoc.Proofs.Source.DocForest
import BlitzDoc.Proofs.Source.Links
import BlitzDoc.Proofs.Source.Parents
import BlitzDoc.Proofs.Source.Turn
import BlitzDoc.Session
import BlitzDoc.Text.Blank
import BlitzDoc.Text.LowerCase
import BlitzDoc.Text.Word
import BlitzDoc.Proofs.Signature.Params
import BlitzDoc.Proofs.Signature.Layout
import BlitzDoc.Proofs.CommandIndex.Params
import BlitzDoc.Proofs.Markup.Spans
import BlitzDoc.Proofs.Json.Prefix
import BlitzDoc.Proofs.Json.RoundTrip
import BlitzDoc.Proofs.Json.Records
import BlitzDoc.Proofs.Catalog
import BlitzDoc.Proofs.FileTree.Lookup
import BlitzDoc.Proofs.FileTree.Write
import BlitzDoc.Proofs.Imports.Frame
import BlitzDoc.Proofs.Session.Folders
import BlitzDoc.Proofs.Session.Rescan
import BlitzDoc.Proofs.Session.History
import BlitzDoc.Proofs.Json.Text
import BlitzDoc.Proofs.Source.Blocks
import BlitzDoc.Proofs.Signature.Spellings
import BlitzDoc.Proofs.Signature.Bookkeeping
import BlitzDoc.Proofs.FileTree.Growth
import BlitzDoc.Proofs.Session.Settled
import BlitzDoc.Proofs.Session.Restart
import BlitzDoc.Proofs.Markup.Rows
import BlitzDoc.Proofs.CommandIndex.Entries
import BlitzDoc.Proofs.Session.Pages
import BlitzDoc.Proofs.Signature.Segments
import BlitzDoc.Proofs.Session.Report
import BlitzDoc.Proofs.Markup.Strip
import BlitzDoc.Proofs.Markup.InlineHtml
import BlitzDoc.Proofs.FileTree.Without
import BlitzDoc.Proofs.Session.Failures
import BlitzDoc.Proofs.CommandPage.HtmlText
import BlitzDoc.Proofs.CommandPage.Tables
import BlitzDoc.Proofs.Source.Renumber
import BlitzDoc.Proofs.CommandIndex.Lines
import BlitzDoc.Proofs.Source.Blanks
import BlitzDoc.Proofs.Source.Order
import BlitzDoc.Proofs.Source.Continuation
import BlitzDoc.Proofs.Path.Destination
import BlitzDoc.Proofs.CommandIndex.Snippets
import BlitzDoc.Proofs.Session.LongDocs
import BlitzDoc.Proofs.Markup.PipeTables
import BlitzDoc.Proofs.Markup.Nesting
import BlitzDoc.Proofs.TypeName.Suffixes
import BlitzDoc.Proofs.Markup.Promotion
import BlitzDoc.Proofs.TypeName.NormalForm
import BlitzDoc.Proofs.Signature.StableTypes
import BlitzDoc.Proofs.CommandIndex.StableTypes
