import LayeredTemplate.Base64
import LayeredTemplate.Bytes
import LayeredTemplate.CharacterData
import LayeredTemplate.Decimal.Binary64
import LayeredTemplate.Decimal.Nearest
import LayeredTemplate.Decimal.Shortest
import LayeredTemplate.Decimal.Style
import LayeredTemplate.Directive
import LayeredTemplate.Escape
import LayeredTemplate.Evaluation
import LayeredTemplate.Expander
import LayeredTemplate.Failure
import LayeredTemplate.Gallery
import LayeredTemplate.Handler
import LayeredTemplate.IoError
import LayeredTemplate.Journal
import LayeredTemplate.Json.Datum
import LayeredTemplate.Json.Describe
import LayeredTemplate.Json.Document
import LayeredTemplate.Json.Format
import LayeredTemplate.Json.Reader
import LayeredTemplate.Json.Text
import LayeredTemplate.Layer
import LayeredTemplate.Scan
import LayeredTemplate.Setup
import LayeredTemplate.Sink
import LayeredTemplate.Source
import LayeredTemplate.Stack
import LayeredTemplate.Substitution
import LayeredTemplate.Template
import LayeredTemplate.Text.Hidden
import LayeredTemplate.Text.Quoted
import LayeredTemplate.Utf8
import LayeredTemplate.Value
import LayeredTemplate.Value.Describe
import LayeredTemplate.Vocabulary
import LayeredTemplate.Writing
import LayeredTemplate.Proofs.Composition
import LayeredTemplate.Proofs.Escaping
import LayeredTemplate.Proofs.Reading
import LayeredTemplate.Proofs.Stepping
import LayeredTemplate.Proofs.Streaming
import LayeredTemplate.Proofs.Chains
import LayeredTemplate.Proofs.Characters
import LayeredTemplate.Proofs.Rendering
import LayeredTemplate.Proofs.Concatenation
import LayeredTemplate.Proofs.Walking
import LayeredTemplate.Proofs.Refusals
import LayeredTemplate.Proofs.Limited
import LayeredTemplate.Proofs.Truncation
import LayeredTemplate.Proofs.Layering
import LayeredTemplate.Proofs.Neutrality
import LayeredTemplate.Proofs.Conduct
import LayeredTemplate.Proofs.Protection
import LayeredTemplate.Proofs.Accounting
import LayeredTemplate.Proofs.Boundaries
import LayeredTemplate.Proofs.Failures
import LayeredTemplate.Proofs.Moments
import LayeredTemplate.Proofs.Textual
import LayeredTemplate.Proofs.ByteOrder
import LayeredTemplate.Proofs.Registration
import LayeredTemplate.Proofs.Extension
import LayeredTemplate.Proofs.Decoding
import LayeredTemplate.Proofs.Requests
import LayeredTemplate.Proofs.Parity
import LayeredTemplate.Proofs.Sessions
import LayeredTemplate.Proofs.Resumption
import LayeredTemplate.Proofs.Joining
import LayeredTemplate.Proofs.Readers
import LayeredTemplate.Proofs.Retention
import LayeredTemplate.Proofs.Finalization
import LayeredTemplate.Proofs.Documents
