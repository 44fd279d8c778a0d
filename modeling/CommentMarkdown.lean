import CommentMarkdown.Comment.Basic
import CommentMarkdown.Main
import CommentMarkdown.Proofs.Directive.Grammar
import CommentMarkdown.Proofs.Directive.Scanning
import CommentMarkdown.Proofs.Directive.Parsing
import CommentMarkdown.Proofs.Directive.Resolution
import CommentMarkdown.Proofs.Directive.Segments
import CommentMarkdown.Proofs.Log.FastPath
import CommentMarkdown.Proofs.Markup.Conversion
import CommentMarkdown.Proofs.CommandLine.Separation
import CommentMarkdown.Proofs.Directive.Replacement
import CommentMarkdown.Proofs.Markup.Shielding
import CommentMarkdown.Proofs.Log.Attending
import CommentMarkdown.Proofs.Log.Listening
import CommentMarkdown.Proofs.Markdown.Cleanup
import CommentMarkdown.Proofs.Comment.Sections
import CommentMarkdown.Proofs.CommandLine.Independence
import CommentMarkdown.Proofs.Markup.Outline
import CommentMarkdown.Proofs.Markup.Copying
import CommentMarkdown.Proofs.Markup.Refusal
import CommentMarkdown.Proofs.Markup.Faithfulness
import CommentMarkdown.Proofs.Markup.Decoding
import CommentMarkdown.Proofs.Comment.Verbatim
import CommentMarkdown.Proofs.Log.Delivery
import CommentMarkdown.Proofs.Log.Untouched
import CommentMarkdown.Proofs.Log.Description
import CommentMarkdown.Proofs.Comment.TagLines
import CommentMarkdown.Proofs.Directive.Counting
import CommentMarkdown.Proofs.Markup.PlainScan
import CommentMarkdown.Proofs.Markup.TagPairs
import CommentMarkdown.Proofs.Comment.Truncation
import CommentMarkdown.Proofs.Comment.OpenElements
import CommentMarkdown.Proofs.Markdown.Steps
import CommentMarkdown.Proofs.Directive.Continuation
import CommentMarkdown.Proofs.Directive.Repetition
import CommentMarkdown.Proofs.Directive.Remarks
import CommentMarkdown.Proofs.Markup.Outermost
import CommentMarkdown.Proofs.Markup.Content
import CommentMarkdown.Proofs.Log.Tokens
import CommentMarkdown.Proofs.Json.Grammar
import CommentMarkdown.Proofs.Log.Conformance
import CommentMarkdown.Proofs.Log.Stream
import CommentMarkdown.Proofs.CommandLine.Precedence
import CommentMarkdown.Proofs.CommandLine.Acceptance
import CommentMarkdown.Proofs.Text.Collapsing
import CommentMarkdown.Proofs.Markup.References
