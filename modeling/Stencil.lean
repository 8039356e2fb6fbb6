import Stencil.Attribute.Basic
import Stencil.Attribute.Compile
import Stencil.Attribute.Defaults
import Stencil.Attribute.Marker
import Stencil.CommandLine.Arguments
import Stencil.CommandLine.Run
import Stencil.Component.Draft
import Stencil.Component.Expression
import Stencil.Component.Index
import Stencil.Component.Markup
import Stencil.Component.Props
import Stencil.Component.Styled
import Stencil.Condition
import Stencil.Draft
import Stencil.Entries
import Stencil.FileMap
import Stencil.Format
import Stencil.Json.Fields
import Stencil.Json.Magnitude
import Stencil.Json.Reader
import Stencil.Json.Value
import Stencil.Key.FreshName
import Stencil.Key.KeyType
import Stencil.Key.Registry
import Stencil.LogicLess.Draft
import Stencil.LogicLess.Piece
import Stencil.LogicLess.Spelling
import Stencil.Main
import Stencil.Markup.Access
import Stencil.Markup.Node
import Stencil.Markup.Reader
import Stencil.Markup.Scoped
import Stencil.Notice
import Stencil.Project.Build
import Stencil.Project.Config
import Stencil.Project.Disk
import Stencil.Project.FileTree
import Stencil.Project.Path
import Stencil.Project.Preview
import Stencil.Proofs.AttributeNames
import Stencil.Proofs.AttributeOrder
import Stencil.Proofs.AuthoredValues
import Stencil.Proofs.BoundNames
import Stencil.Proofs.BuildOutputs
import Stencil.Proofs.ChoiceTables
import Stencil.Proofs.CleanReading
import Stencil.Proofs.CompiledAttributes
import Stencil.Proofs.CompiledShape
import Stencil.Proofs.ComponentAttribute
import Stencil.Proofs.ComponentKeys
import Stencil.Proofs.Conditions
import Stencil.Proofs.DeclaredKeys
import Stencil.Proofs.DeclaredTypes
import Stencil.Proofs.Entries
import Stencil.Proofs.FormatIndependence
import Stencil.Proofs.FormedMarkup
import Stencil.Proofs.GivenNames
import Stencil.Proofs.GrantedBindings
import Stencil.Proofs.GuardEnding
import Stencil.Proofs.GuardRollback
import Stencil.Proofs.GuardedElement
import Stencil.Proofs.InlineStyles
import Stencil.Proofs.InputDefaults
import Stencil.Proofs.JsonRoundTrip
import Stencil.Proofs.KeptMarkers
import Stencil.Proofs.KeylessAttributes
import Stencil.Proofs.KeysGivenOnce
import Stencil.Proofs.Lists
import Stencil.Proofs.MarkerGrammar
import Stencil.Proofs.MarkerScan
import Stencil.Proofs.MarkupStrings
import Stencil.Proofs.MatchedAccess
import Stencil.Proofs.MustachePage
import Stencil.Proofs.NarrowedRules
import Stencil.Proofs.NestedRules
import Stencil.Proofs.Outcomes
import Stencil.Proofs.OutputPaths
import Stencil.Proofs.Page
import Stencil.Proofs.ParsedElements
import Stencil.Proofs.ParsingExpressions
import Stencil.Proofs.PlainSheets
import Stencil.Proofs.PossibleClasses
import Stencil.Proofs.PreviewSkeleton
import Stencil.Proofs.PreviewedElement
import Stencil.Proofs.PreviewedMarkup
import Stencil.Proofs.PreviewedTree
import Stencil.Proofs.PrintedMarkup
import Stencil.Proofs.PropertyTests
import Stencil.Proofs.QuotedLiterals
import Stencil.Proofs.ReadConditions
import Stencil.Proofs.ReadValues
import Stencil.Proofs.RecordedKeys
import Stencil.Proofs.RegistryGrants
import Stencil.Proofs.RegistryGrowth
import Stencil.Proofs.RegistryNaming
import Stencil.Proofs.RemoteElement
import Stencil.Proofs.RenderedAttribute
import Stencil.Proofs.Script
import Stencil.Proofs.ScriptReading
import Stencil.Proofs.SelectorGrammar
import Stencil.Proofs.SelectorSubject
import Stencil.Proofs.SelectorTokens
import Stencil.Proofs.SerializedAttributes
import Stencil.Proofs.ServerEmbedPage
import Stencil.Proofs.SessionsApart
import Stencil.Proofs.SettledElement
import Stencil.Proofs.Skeleton
import Stencil.Proofs.StyleAligned
import Stencil.Proofs.StyleAlike
import Stencil.Proofs.StyleCalm
import Stencil.Proofs.StyleFronts
import Stencil.Proofs.StyleGroups
import Stencil.Proofs.StyleInk
import Stencil.Proofs.StyleLayout
import Stencil.Proofs.StyleReading
import Stencil.Proofs.StyleReflow
import Stencil.Proofs.StyleTokens
import Stencil.Proofs.StyledBodies
import Stencil.Proofs.StyledConditions
import Stencil.Proofs.TemplateLiterals
import Stencil.Proofs.WalkNesting
import Stencil.Proofs.WalkSteps
import Stencil.Proofs.WireFormat
import Stencil.Proofs.Words
import Stencil.Proofs.WrittenConditions
import Stencil.Proofs.WrittenNames
import Stencil.Remote.Message
import Stencil.Remote.Session
import Stencil.Style.ComponentValue
import Stencil.Style.Matching
import Stencil.Style.Reader
import Stencil.Style.Rule
import Stencil.Style.Selector
import Stencil.Style.Token
import Stencil.Template.Basic
import Stencil.Template.Compile
import Stencil.Template.Preview
import Stencil.Template.Walk
import Stencil.Text.Blank
import Stencil.Text.CaseMapping
import Stencil.Text.Cased
import Stencil.Text.Decimal
import Stencil.Text.Grapheme
import Stencil.Text.GraphemeBreak
import Stencil.Text.GraphemeExtend
import Stencil.Text.Quoted
import Stencil.Text.Range
import Stencil.Text.Search
import Stencil.Text.Unprintable
import Stencil.Text.WordCase
import Stencil.Toml.Document
import Stencil.Toml.Scalar
import Stencil.Toml.Table
import Stencil.Toml.Text
import Stencil.Toml.Token
