import SwiftDialect.Analysis
import SwiftDialect.Arguments
import SwiftDialect.Binary64
import SwiftDialect.Binary64.Shortest
import SwiftDialect.Command
import SwiftDialect.Diagnostic
import SwiftDialect.Diagnostic.Json
import SwiftDialect.Diagnostic.Problem
import SwiftDialect.Diagnostic.Template
import SwiftDialect.Diagnostic.Text
import SwiftDialect.FileTree
import SwiftDialect.Journal
import SwiftDialect.Json
import SwiftDialect.Lexer
import SwiftDialect.Location
import SwiftDialect.Main
import SwiftDialect.Parser
import SwiftDialect.Parser.Expression
import SwiftDialect.Parser.Statement
import SwiftDialect.Proofs.Acceptance
import SwiftDialect.Proofs.Agreement
import SwiftDialect.Proofs.Bounds
import SwiftDialect.Proofs.CallDepth
import SwiftDialect.Proofs.Characters
import SwiftDialect.Proofs.Composition
import SwiftDialect.Proofs.Consumption
import SwiftDialect.Proofs.ControlFree
import SwiftDialect.Proofs.Cursor
import SwiftDialect.Proofs.Decoding
import SwiftDialect.Proofs.ExitStatus
import SwiftDialect.Proofs.Explanation
import SwiftDialect.Proofs.Expression
import SwiftDialect.Proofs.Extension
import SwiftDialect.Proofs.Failure
import SwiftDialect.Proofs.Frames
import SwiftDialect.Proofs.Grammar
import SwiftDialect.Proofs.Handles
import SwiftDialect.Proofs.Hearing
import SwiftDialect.Proofs.Height
import SwiftDialect.Proofs.Layout
import SwiftDialect.Proofs.Lexemes
import SwiftDialect.Proofs.Lookahead
import SwiftDialect.Proofs.Messages
import SwiftDialect.Proofs.Moves
import SwiftDialect.Proofs.NestedScopes
import SwiftDialect.Proofs.OpenEnded
import SwiftDialect.Proofs.Order
import SwiftDialect.Proofs.Passing
import SwiftDialect.Proofs.Places
import SwiftDialect.Proofs.Positions
import SwiftDialect.Proofs.Precedence
import SwiftDialect.Proofs.Printing
import SwiftDialect.Proofs.Procedures
import SwiftDialect.Proofs.Program
import SwiftDialect.Proofs.Reachable
import SwiftDialect.Proofs.Reading
import SwiftDialect.Proofs.Relexing
import SwiftDialect.Proofs.Resolution
import SwiftDialect.Proofs.Restoration
import SwiftDialect.Proofs.RoundTrip
import SwiftDialect.Proofs.Safety
import SwiftDialect.Proofs.Scanning
import SwiftDialect.Proofs.Segments
import SwiftDialect.Proofs.Snippets
import SwiftDialect.Proofs.Sources
import SwiftDialect.Proofs.Spelling
import SwiftDialect.Proofs.Splitting
import SwiftDialect.Proofs.Statement
import SwiftDialect.Proofs.Stream
import SwiftDialect.Proofs.Stuck
import SwiftDialect.Proofs.Templates
import SwiftDialect.Proofs.TextLines
import SwiftDialect.Proofs.TokenStream
import SwiftDialect.Proofs.Tracking
import SwiftDialect.Proofs.Unplaced
import SwiftDialect.Proofs.Utf8
import SwiftDialect.Proofs.Viability
import SwiftDialect.Proofs.Yield
import SwiftDialect.Scanner
import SwiftDialect.Scope
import SwiftDialect.Settings
import SwiftDialect.Source
import SwiftDialect.Stream
import SwiftDialect.Syntax
import SwiftDialect.Syntax.Json
import SwiftDialect.Syntax.Outline
import SwiftDialect.Text.Lines
import SwiftDialect.Text.Quoted
import SwiftDialect.Text.Unshown
import SwiftDialect.Text.Utf8
import SwiftDialect.Token
import SwiftDialect.Toml
import SwiftDialect.Toml.Document
import SwiftDialect.Toml.Scalar
import SwiftDialect.Toml.Table
