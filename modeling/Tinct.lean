import Tinct.Category
import Tinct.CommandLine
import Tinct.CommandLine.Arguments
import Tinct.Entries
import Tinct.Failure
import Tinct.Grammar
import Tinct.Json
import Tinct.Json.Number
import Tinct.Json.Printer
import Tinct.Json.Reader
import Tinct.Json.Record
import Tinct.Json.Token
import Tinct.Lexer
import Tinct.Lexer.Glob
import Tinct.Lexer.JsonText
import Tinct.Lexer.PlainText
import Tinct.Lexer.Python
import Tinct.Lexer.Score
import Tinct.Lexers
import Tinct.Lexers.Builtin
import Tinct.Listing
import Tinct.Listing.Written
import Tinct.Main
import Tinct.Number.Digits
import Tinct.Number.Double
import Tinct.Number.Rounding
import Tinct.Path
import Tinct.Pattern
import Tinct.Preparation
import Tinct.Proofs.ByteScanner
import Tinct.Proofs.CategoryHierarchy
import Tinct.Proofs.CategoryKeys
import Tinct.Proofs.CategoryOrder
import Tinct.Proofs.DescriptionLaws
import Tinct.Proofs.Events
import Tinct.Proofs.FileStates
import Tinct.Proofs.FragmentCuts
import Tinct.Proofs.GlobLanguage
import Tinct.Proofs.GlobPatterns
import Tinct.Proofs.JsonDocuments
import Tinct.Proofs.JsonFragments
import Tinct.Proofs.JsonGrammar
import Tinct.Proofs.JsonLexemes
import Tinct.Proofs.JsonReading
import Tinct.Proofs.JsonRecords
import Tinct.Proofs.JsonRoundTrip
import Tinct.Proofs.KeyCollisions
import Tinct.Proofs.LayeredSettings
import Tinct.Proofs.LexerGuesses
import Tinct.Proofs.LexerRequests
import Tinct.Proofs.LineEndings
import Tinct.Proofs.LineRestart
import Tinct.Proofs.ListingLaws
import Tinct.Proofs.ListingText
import Tinct.Proofs.LongestMatch
import Tinct.Proofs.LosslessLexers
import Tinct.Proofs.MarkRestart
import Tinct.Proofs.PaletteFiles
import Tinct.Proofs.PathParts
import Tinct.Proofs.PatternMatching
import Tinct.Proofs.Pieces
import Tinct.Proofs.PreparedForms
import Tinct.Proofs.PreparedTexts
import Tinct.Proofs.PythonKinds
import Tinct.Proofs.PythonLexemes
import Tinct.Proofs.Reconstruction
import Tinct.Proofs.Redescription
import Tinct.Proofs.Registrations
import Tinct.Proofs.RuleOrder
import Tinct.Proofs.SettingTrees
import Tinct.Proofs.SortedMaps
import Tinct.Proofs.StringExtents
import Tinct.Proofs.StyleChanges
import Tinct.Proofs.StyleDescriptions
import Tinct.Proofs.StyleInheritance
import Tinct.Proofs.TextKinds
import Tinct.Proofs.TextOrder
import Tinct.Proofs.ThemeLoading
import Tinct.Proofs.TokenFiles
import Tinct.Proofs.TokenizeCommand
import Tinct.Proofs.Windows
import Tinct.Proofs.WordCategories
import Tinct.Session
import Tinct.Settings
import Tinct.Settings.Section
import Tinct.Settings.Setting
import Tinct.Settings.SettingPath
import Tinct.Settings.SettingsError
import Tinct.Settings.Sources
import Tinct.SortedMap
import Tinct.Text.Blank
import Tinct.Text.CodeRanges
import Tinct.Text.LineEnding
import Tinct.Text.Lowercase
import Tinct.Text.Quoted
import Tinct.Text.Window
import Tinct.Text.Word
import Tinct.Theme
import Tinct.Theme.Builtin
import Tinct.Theme.Directive
import Tinct.Theme.File
import Tinct.Theme.Palette
import Tinct.Theme.Written
import Tinct.ThemeLibrary
import Tinct.Toml
import Tinct.Toml.Document
import Tinct.Toml.Numeral
import Tinct.Toml.Statement
import Tinct.Toml.Text
import Tinct.Toml.TimeTable
import Tinct.Workspace
import Tinct.Workspace.Filtered
import Tinct.Workspace.Memory
import Tinct.Yaml.Node
import Tinct.Yaml.Place
import Tinct.Yaml.Scalar
import Tinct.Yaml.Token
