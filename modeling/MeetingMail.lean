import MeetingMail.Text.Lines
import MeetingMail.Text.Blank
import MeetingMail.Text.Decimal
import MeetingMail.Text.Hexadecimal
import MeetingMail.Toml.Digit
import MeetingMail.Toml.Value
import MeetingMail.Toml.Layout
import MeetingMail.Toml.Quoted
import MeetingMail.Toml.Number
import MeetingMail.Toml.Moment
import MeetingMail.Toml.Word
import MeetingMail.Toml.Key
import MeetingMail.Toml.Table
import MeetingMail.Toml.Expression
import MeetingMail.Toml.Document
import MeetingMail.Settings.Basic
import MeetingMail.Settings.Toml
import MeetingMail.Markup.Entity
import MeetingMail.Markup.Token
import MeetingMail.Markup.Plain
import MeetingMail.Summary.Line
import MeetingMail.Summary.Block
import MeetingMail.Email.Content
import MeetingMail.Email.Page
import MeetingMail.Json.Printer
import MeetingMail.Email.Message
import MeetingMail.Text.Utf8
import MeetingMail.Command.Options
import MeetingMail.Command.Arguments
import MeetingMail.Command.Failure
import MeetingMail.Command.Files
import MeetingMail.Command.Run
import MeetingMail.Command.Sandbox
import MeetingMail.Main
import MeetingMail.Proofs.Markup.Escaping
import MeetingMail.Proofs.Markup.Passes
import MeetingMail.Proofs.Markup.Scan
import MeetingMail.Proofs.Summary.Sections
import MeetingMail.Proofs.Email.Tags
import MeetingMail.Proofs.Markup.Tree
import MeetingMail.Proofs.Email.Nesting
import MeetingMail.Proofs.Markup.Plain
import MeetingMail.Proofs.Markup.Cutting
import MeetingMail.Proofs.Markup.Locality
import MeetingMail.Proofs.Email.PlainPart
import MeetingMail.Proofs.Text.Layout
import MeetingMail.Proofs.Summary.NormalForm
import MeetingMail.Proofs.Command.Failures
import MeetingMail.Proofs.Email.Recovery
import MeetingMail.Proofs.Email.Fragments
import MeetingMail.Proofs.Json.Reader
import MeetingMail.Proofs.Command.Effects
import MeetingMail.Proofs.Command.Log
import MeetingMail.Proofs.Command.Formats
import MeetingMail.Proofs.Command.Spelling
import MeetingMail.Proofs.Email.Payload
import MeetingMail.Proofs.Email.Sizes
import MeetingMail.Proofs.Summary.Seams
import MeetingMail.Proofs.Summary.Drafts
import MeetingMail.Proofs.Summary.Padding
import MeetingMail.Proofs.Summary.Conservation
import MeetingMail.Proofs.Summary.Runs
import MeetingMail.Proofs.Toml.Decimal
import MeetingMail.Proofs.Toml.Statements
import MeetingMail.Proofs.Toml.BasicString
import MeetingMail.Proofs.Toml.Row
import MeetingMail.Proofs.Toml.Array
import MeetingMail.Proofs.Toml.Listing
import MeetingMail.Proofs.Toml.Edits
import MeetingMail.Proofs.Settings.Fields
import MeetingMail.Proofs.Settings.Overrides
import MeetingMail.Proofs.Settings.Edits
import MeetingMail.Proofs.Settings.Sizes
import MeetingMail.Proofs.Settings.Positions
