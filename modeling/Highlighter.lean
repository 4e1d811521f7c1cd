import Highlighter.Main
import Highlighter.Proofs.Lexer.Rules
import Highlighter.Proofs.Outcome
import Highlighter.Proofs.TokenTree
import Highlighter.Proofs.Regex.Span
import Highlighter.Proofs.Scan.Flush
import Highlighter.Proofs.Scan.Step
import Highlighter.Proofs.Lexer.Build
import Highlighter.Proofs.Scan.Delivery
import Highlighter.Proofs.Scan.Preservation
import Highlighter.Proofs.Registry.Rank
import Highlighter.Proofs.Registry
import Highlighter.Proofs.Scan.Extent
import Highlighter.Proofs.Regex.Shift
import Highlighter.Proofs.Regex.Plan
import Highlighter.Proofs.Pattern.Source
import Highlighter.Proofs.Regex.Escape
import Highlighter.Proofs.Regex.Skip
import Highlighter.Proofs.Regex.Quantifier
import Highlighter.Proofs.Regex.Construct
import Highlighter.Proofs.Regex.Parenthesis
import Highlighter.Proofs.Regex.Reader
import Highlighter.Proofs.Regex.Wrapped
import Highlighter.Proofs.Regex.Joined
import Highlighter.Proofs.Lexer.Joined
import Highlighter.Proofs.Lexer.Search
import Highlighter.Proofs.Scan.Veto
import Highlighter.Proofs.Regex.Choice
import Highlighter.Proofs.Agreement
import Highlighter.Proofs.Scan.Alike
import Highlighter.Proofs.Scan.Agreement
import Highlighter.Proofs.Scan.Lockstep
import Highlighter.Proofs.Registry.Agreement
import Highlighter.Proofs.Registry.Strict
import Highlighter.Proofs.Outline.Bare
import Highlighter.Proofs.Outline.Shared
import Highlighter.Proofs.Lexer.Survey
import Highlighter.Proofs.Lexer.Construction
import Highlighter.Proofs.Lexer.Renumbering
import Highlighter.Proofs.Registry.Sharing
import Highlighter.Proofs.Scan.Thinning
import Highlighter.Proofs.Lexer.Pruning
import Highlighter.Proofs.Scan.Pruning
import Highlighter.Proofs.Lexer.Numbers
import Highlighter.Proofs.Scan.Moves
import Highlighter.Proofs.Scan.Discipline
import Highlighter.Proofs.Registry.History
import Highlighter.Proofs.Scan.Recovery
import Highlighter.Proofs.Registry.Safety
import Highlighter.Proofs.Registry.Detection
import Highlighter.Proofs.Registry.Changes
import Highlighter.Proofs.Lexer.Terminators
import Highlighter.Proofs.Scan.Ending
import Highlighter.Proofs.Scan.Ledger
import Highlighter.Proofs.Scan.Segments
import Highlighter.Proofs.Registry.Continuation
import Highlighter.Proofs.Scan.Fence
import Highlighter.Proofs.Scan.Headway
import Highlighter.Proofs.Registry.Relevance
import Highlighter.Proofs.Rendering
import Highlighter.Proofs.Pattern.Pieces
import Highlighter.Proofs.Pattern.Numbering
import Highlighter.Proofs.Lexer.Offsets
import Highlighter.Proofs.Regex.Groups
import Highlighter.Proofs.Regex.Reading
import Highlighter.Proofs.Regex.Followed
import Highlighter.Proofs.Regex.Continued
import Highlighter.Proofs.Regex.Alternatives
import Highlighter.Proofs.Pattern.Choices
import Highlighter.Proofs.Pattern.Literal
import Highlighter.Proofs.Regex.Alike
import Highlighter.Proofs.Regex.Ends
import Highlighter.Proofs.Regex.Settled
import Highlighter.Proofs.Regex.Sizes
import Highlighter.Proofs.Regex.Spared
import Highlighter.Proofs.Regex.Suffix
import Highlighter.Proofs.Registry.Failure
import Highlighter.Proofs.Lexer.Suffixes
import Highlighter.Proofs.Regex.Context
import Highlighter.Proofs.Regex.Narrow
import Highlighter.Proofs.Regex.Lookahead
import Highlighter.Proofs.Regex.Tiles
import Highlighter.Proofs.Regex.Concat
import Highlighter.Proofs.Scan.Tiling
import Highlighter.Proofs.Lexer.Before
import Highlighter.Proofs.Scan.Before
import Highlighter.Proofs.Scan.Skipping
import Highlighter.Proofs.TokenTree.Events
import Highlighter.Proofs.Keyword.Table
import Highlighter.Proofs.Text.Window
import Highlighter.Proofs.Scan.Diagnostics
import Highlighter.Proofs.Registry.Diagnostics
import Highlighter.Proofs.Scan.Names
import Highlighter.Proofs.Registry.Spelling
import Highlighter.Proofs.Keyword.Filing
import Highlighter.Proofs.CommandLine
import Highlighter.Proofs.Lexer.Origins
import Highlighter.Proofs.Settings
