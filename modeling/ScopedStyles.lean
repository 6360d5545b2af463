import ScopedStyles.Binary
import ScopedStyles.Build
import ScopedStyles.Bytes
import ScopedStyles.CommandLine.Arguments
import ScopedStyles.CommandLine.Run
import ScopedStyles.Config
import ScopedStyles.Css.Declaration
import ScopedStyles.Css.Name
import ScopedStyles.Css.Prelude
import ScopedStyles.Css.Selector
import ScopedStyles.Css.Selector.Formula
import ScopedStyles.Css.Selector.Reader
import ScopedStyles.Css.Sheet
import ScopedStyles.Css.Sheet.Reader
import ScopedStyles.Css.Token
import ScopedStyles.Css.Value
import ScopedStyles.Decimal
import ScopedStyles.Digest
import ScopedStyles.Disk
import ScopedStyles.Inlining
import ScopedStyles.Json.Error
import ScopedStyles.Json.Reader
import ScopedStyles.Json.Writer
import ScopedStyles.Main
import ScopedStyles.Message
import ScopedStyles.Naming
import ScopedStyles.Path
import ScopedStyles.Pipeline
import ScopedStyles.Plugin
import ScopedStyles.Proofs.Alternation
import ScopedStyles.Proofs.BindingPlace
import ScopedStyles.Proofs.ClassPlaces
import ScopedStyles.Proofs.ClassRenaming
import ScopedStyles.Proofs.ConfigChanges
import ScopedStyles.Proofs.ConfigTexts
import ScopedStyles.Proofs.EmptiedSelectors
import ScopedStyles.Proofs.ExportedNames
import ScopedStyles.Proofs.FailedCalls
import ScopedStyles.Proofs.FilledPatterns
import ScopedStyles.Proofs.Growing
import ScopedStyles.Proofs.Hoisting
import ScopedStyles.Proofs.HollowRules
import ScopedStyles.Proofs.InliningAgain
import ScopedStyles.Proofs.JobOrder
import ScopedStyles.Proofs.LeadingObject
import ScopedStyles.Proofs.LexicalPaths
import ScopedStyles.Proofs.LineScanning
import ScopedStyles.Proofs.ListedSources
import ScopedStyles.Proofs.Mentions
import ScopedStyles.Proofs.NormalForms
import ScopedStyles.Proofs.ObjectValues
import ScopedStyles.Proofs.OncePerBuild
import ScopedStyles.Proofs.OnePass
import ScopedStyles.Proofs.OpeningLayouts
import ScopedStyles.Proofs.Outputs
import ScopedStyles.Proofs.Overwriting
import ScopedStyles.Proofs.PathPieces
import ScopedStyles.Proofs.PlainItems
import ScopedStyles.Proofs.PlainRules
import ScopedStyles.Proofs.PlainSelectors
import ScopedStyles.Proofs.PlainTargets
import ScopedStyles.Proofs.PrintedNames
import ScopedStyles.Proofs.Processing
import ScopedStyles.Proofs.ReadingBack
import ScopedStyles.Proofs.References
import ScopedStyles.Proofs.RegisteredSources
import ScopedStyles.Proofs.Replacement
import ScopedStyles.Proofs.RuleTexts
import ScopedStyles.Proofs.ScopedNames
import ScopedStyles.Proofs.SelectorSpans
import ScopedStyles.Proofs.SheetShape
import ScopedStyles.Proofs.ShownBytes
import ScopedStyles.Proofs.ShownNodes
import ScopedStyles.Proofs.ShownPaths
import ScopedStyles.Proofs.StageOrder
import ScopedStyles.Proofs.Standing
import ScopedStyles.Proofs.Stopping
import ScopedStyles.Proofs.StylesheetSources
import ScopedStyles.Proofs.TemplateSpecifiers
import ScopedStyles.Proofs.TemplateValues
import ScopedStyles.Proofs.Transforming
import ScopedStyles.Proofs.Unwrapping
import ScopedStyles.Proofs.Walks
import ScopedStyles.Proofs.WithoutPositions
import ScopedStyles.Proofs.Wrappers
import ScopedStyles.Proofs.WrittenJson
import ScopedStyles.Proofs.WrittenMarks
import ScopedStyles.Proofs.WrittenSheets
import ScopedStyles.Script.Character
import ScopedStyles.Script.Comment
import ScopedStyles.Script.Layout
import ScopedStyles.Script.Layout.Expression
import ScopedStyles.Script.Layout.Item
import ScopedStyles.Script.Layout.Statement
import ScopedStyles.Script.Layout.Type
import ScopedStyles.Script.Node
import ScopedStyles.Script.Printer
import ScopedStyles.Script.Reader
import ScopedStyles.Script.Reader.Basic
import ScopedStyles.Script.Reader.Expression
import ScopedStyles.Script.Reader.Function
import ScopedStyles.Script.Reader.Item
import ScopedStyles.Script.Reader.Markup
import ScopedStyles.Script.Reader.Pattern
import ScopedStyles.Script.Reader.Statement
import ScopedStyles.Script.Reader.Type
import ScopedStyles.Script.Token
import ScopedStyles.Script.Writer
import ScopedStyles.SourceMap
import ScopedStyles.SourceMap.Mappings
import ScopedStyles.SourceMap.Source
import ScopedStyles.Specifier
import ScopedStyles.Stage.Discarding
import ScopedStyles.Stage.Scoping
import ScopedStyles.Text.Blank
import ScopedStyles.Text.Quoted
import ScopedStyles.Text.Ranges
import ScopedStyles.Text.Unprintable
import ScopedStyles.Transform
