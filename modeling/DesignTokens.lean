import DesignTokens.Baseline
import DesignTokens.Build
import DesignTokens.Changes
import DesignTokens.ClassSpec
import DesignTokens.CommandLine.Arguments
import DesignTokens.CommandLine.Run
import DesignTokens.Config
import DesignTokens.Config.Reader
import DesignTokens.Decimal.Binary64
import DesignTokens.Decimal.Fixed
import DesignTokens.Decimal.Reading
import DesignTokens.Decimal.Rounding
import DesignTokens.Decimal.Shortest
import DesignTokens.Digest.Sha256
import DesignTokens.Document
import DesignTokens.Error
import DesignTokens.Event
import DesignTokens.Files.Access
import DesignTokens.Files.Path
import DesignTokens.Files.Tree
import DesignTokens.Format
import DesignTokens.Json.Number
import DesignTokens.Json.Quoted
import DesignTokens.Json.Reader
import DesignTokens.Json.Writer
import DesignTokens.Length
import DesignTokens.Main
import DesignTokens.Naming.Fragment
import DesignTokens.Naming.Namer
import DesignTokens.Naming.Slug
import DesignTokens.Page
import DesignTokens.Page.Html
import DesignTokens.Policy
import DesignTokens.Proofs.Baseline
import DesignTokens.Proofs.BuildEffects
import DesignTokens.Proofs.BuildRun
import DesignTokens.Proofs.Changes
import DesignTokens.Proofs.Changes.Composition
import DesignTokens.Proofs.Changes.Edits
import DesignTokens.Proofs.Changes.Keys
import DesignTokens.Proofs.Changes.Leaves
import DesignTokens.Proofs.CommandLine.RoundTrip
import DesignTokens.Proofs.CommandLine.SharedFlags
import DesignTokens.Proofs.CommandLine.Taking
import DesignTokens.Proofs.Css.Identifiers
import DesignTokens.Proofs.Documents
import DesignTokens.Proofs.FailedBuild
import DesignTokens.Proofs.Files.Contents
import DesignTokens.Proofs.Files.Growth
import DesignTokens.Proofs.Files.Parents
import DesignTokens.Proofs.Files.Saving
import DesignTokens.Proofs.Html.Tags
import DesignTokens.Proofs.InternedTable
import DesignTokens.Proofs.Interning
import DesignTokens.Proofs.Json.RoundTrip
import DesignTokens.Proofs.LengthConversion
import DesignTokens.Proofs.Maps
import DesignTokens.Proofs.Naming.CustomProperties
import DesignTokens.Proofs.Naming.FontFamilies
import DesignTokens.Proofs.Naming.Labels
import DesignTokens.Proofs.Naming.Properties
import DesignTokens.Proofs.Naming.SlugOwners
import DesignTokens.Proofs.Naming.Slugs
import DesignTokens.Proofs.Naming.Spellings
import DesignTokens.Proofs.NumericGrammar
import DesignTokens.Proofs.NumericText
import DesignTokens.Proofs.PageMarks
import DesignTokens.Proofs.PageMarkup
import DesignTokens.Proofs.PageText
import DesignTokens.Proofs.Records
import DesignTokens.Proofs.Resolution
import DesignTokens.Proofs.Respelling
import DesignTokens.Proofs.Snapshot.RoundTrip
import DesignTokens.Proofs.Snapshot.Storing
import DesignTokens.Proofs.Stylesheet.ClassSelectors
import DesignTokens.Proofs.Stylesheet.Layouts
import DesignTokens.Proofs.Stylesheet.TextMeaning
import DesignTokens.Proofs.Stylesheet.UtilityClasses
import DesignTokens.Proofs.Stylesheet.Written
import DesignTokens.Proofs.StylesheetMeaning
import DesignTokens.Proofs.Tracking
import DesignTokens.Proofs.UnchangedOutput
import DesignTokens.Proofs.UnknownKeys
import DesignTokens.Proofs.Validation
import DesignTokens.Proofs.Watch.ContentChanges
import DesignTokens.Proofs.Watch.Scheduling
import DesignTokens.Property
import DesignTokens.Record
import DesignTokens.Rule
import DesignTokens.Slot
import DesignTokens.Snapshot
import DesignTokens.Snapshot.Codec
import DesignTokens.SortedMap
import DesignTokens.Stylesheet
import DesignTokens.Stylesheet.Printer
import DesignTokens.Text.Blank
import DesignTokens.Text.Digits
import DesignTokens.Toml.Moment
import DesignTokens.Toml.Quoted
import DesignTokens.Toml.Reader
import DesignTokens.Toml.Scalar
import DesignTokens.Toml.Tree
import DesignTokens.Variables
import DesignTokens.Watch.ContentGate
import DesignTokens.Watch.Scheduler
