import SimplePki.Octets
import SimplePki.Octets.BigEndian
import SimplePki.Octets.Hex
import SimplePki.Octets.Base64
import SimplePki.Octets.Utf8
import SimplePki.SExpr.Basic
import SimplePki.SExpr.Canonical
import SimplePki.SExpr.Advanced
import SimplePki.SExpr.Cursor
import SimplePki.SExpr.Reader
import SimplePki.Text.Hidden
import SimplePki.Text.Escape
import SimplePki.SExpr.Message
import SimplePki.Digest.Sha2
import SimplePki.Digest.Algorithm
import SimplePki.Text.Break
import SimplePki.Text.Fields
import SimplePki.Uri.Percent
import SimplePki.Uri.Fault
import SimplePki.Uri.Host
import SimplePki.Uri.Path
import SimplePki.Uri
import SimplePki.Digest.Registry
import SimplePki.Curve
import SimplePki.Curve.Point
import SimplePki.Curve.Nonce
import SimplePki.Curve.Ecdsa
import SimplePki.Calendar
import SimplePki.Instant
import SimplePki.Instant.Layout
import SimplePki.HashValue
import SimplePki.Error
import SimplePki.HashValue.Codec
import SimplePki.SExpr.Term
import SimplePki.Key.Hashes
import SimplePki.Key.Ecdsa
import SimplePki.Key.Public
import SimplePki.Key.Private
import SimplePki.Key
import SimplePki.Name
import SimplePki.Validity
import SimplePki.Subject
import SimplePki.Certificate
import SimplePki.Signature
import SimplePki.Sequence
import SimplePki.KeyRing
import SimplePki.Gateway
import SimplePki.Party
import SimplePki.KnownAnswer
import SimplePki.Summary
import SimplePki.Proofs.Outcome
import SimplePki.Proofs.Octets.Decimal
import SimplePki.Proofs.Octets.Utf8
import SimplePki.Proofs.Octets.BigEndian
import SimplePki.Proofs.Octets.Base64
import SimplePki.Proofs.SExpr.Structure
import SimplePki.Proofs.SExpr.PrefixFree
import SimplePki.Proofs.SExpr.Reads
import SimplePki.Proofs.SExpr.Stream
import SimplePki.Proofs.SExpr.Advanced
import SimplePki.Proofs.SExpr.ReadsAdvanced
import SimplePki.Proofs.SExpr.Nesting
import SimplePki.Proofs.SExpr.Canonicalization
import SimplePki.Proofs.Key.Codec
import SimplePki.Proofs.Key.Spelling
import SimplePki.Proofs.Key.Answers
import SimplePki.Proofs.Key.TrueHash
import SimplePki.Proofs.Key.Truthful
import SimplePki.Proofs.Key.Identity
import SimplePki.Proofs.Key.History
import SimplePki.Proofs.Key.Call
import SimplePki.Proofs.Key.Family
import SimplePki.Proofs.Key.Symmetry
import SimplePki.Proofs.Calendar
import SimplePki.Proofs.Timestamp
import SimplePki.Proofs.Digested
import SimplePki.Proofs.HashValue
import SimplePki.Proofs.Name
import SimplePki.Proofs.Validity
import SimplePki.Proofs.Validity.Intersection
import SimplePki.Proofs.Certificate
import SimplePki.Proofs.Certificate.Issue
import SimplePki.Proofs.KeyRing
import SimplePki.Proofs.KeyRing.Points
import SimplePki.Proofs.Signature
import SimplePki.Proofs.Signature.Codec
import SimplePki.Proofs.Sequence
import SimplePki.Proofs.Sequence.Reading
import SimplePki.Proofs.Sequence.Scope
import SimplePki.Proofs.Sequence.Reread
import SimplePki.Proofs.Gateway.Action
import SimplePki.Proofs.Gateway.Ring
import SimplePki.Proofs.Gateway.Check
import SimplePki.Proofs.Gateway.Accept
import SimplePki.Proofs.Gateway.Relay
import SimplePki.Proofs.Gateway.Issue
import SimplePki.Proofs.Gateway.Trust
import SimplePki.Proofs.Signature.Transport
import SimplePki.Proofs.NormalForm
import SimplePki.Proofs.Gateway.Front
import SimplePki.Proofs.Gateway.Persistence
import SimplePki.Proofs.Calendar.Days
import SimplePki.Proofs.Validity.Transport
import SimplePki.Proofs.Process
import SimplePki.Proofs.Certificate.Secrecy
import SimplePki.Proofs.KeyRing.Contains
import SimplePki.Proofs.SExpr.Layers
import SimplePki.Proofs.Key.Transport
import SimplePki.Proofs.Name.Transport
import SimplePki.Proofs.HashValue.Transport
import SimplePki.Proofs.Octets.Spelling
import SimplePki.Proofs.SExpr.Blame
import SimplePki.Proofs.SExpr.Words
import SimplePki.Proofs.Timestamp.Layout
import SimplePki.Proofs.Validity.Layout
import SimplePki.Proofs.Curve.Width
import SimplePki.Proofs.Party
import SimplePki.Proofs.SExpr.Head
import SimplePki.Proofs.SExpr.Progress
