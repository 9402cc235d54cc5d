import TagMarkup.Config.Basic
import TagMarkup.Config.Environment
import TagMarkup.Config.Host
import TagMarkup.Config.JsonFiles
import TagMarkup.Config.Store
import TagMarkup.Document
import TagMarkup.Element.Basic
import TagMarkup.Element.Derivation
import TagMarkup.Element.OnePass
import TagMarkup.Element.Parser
import TagMarkup.Element.Printer
import TagMarkup.Json.Basic
import TagMarkup.Json.Reader
import TagMarkup.Number.Basic
import TagMarkup.Parser.Basic
import TagMarkup.Parser.Equations
import TagMarkup.Parser.Fault
import TagMarkup.Parser.Rejection
import TagMarkup.Parser.RuleCache
import TagMarkup.Parser.Run
import TagMarkup.Proofs.Config.Environment
import TagMarkup.Proofs.Config.Layers
import TagMarkup.Proofs.Config.Store
import TagMarkup.Proofs.Document
import TagMarkup.Proofs.Document.Diagnostics
import TagMarkup.Proofs.Document.EntryPoints
import TagMarkup.Proofs.Document.Exhaustion
import TagMarkup.Proofs.Document.Fragments
import TagMarkup.Proofs.Document.Message
import TagMarkup.Proofs.Document.Need
import TagMarkup.Proofs.Document.Rejections
import TagMarkup.Proofs.Document.Report
import TagMarkup.Proofs.Document.Spacing
import TagMarkup.Proofs.Document.Verdict
import TagMarkup.Proofs.Element.Acceptance
import TagMarkup.Proofs.Element.Activations
import TagMarkup.Proofs.Element.Depth
import TagMarkup.Proofs.Element.FailureOffset
import TagMarkup.Proofs.Element.Markup
import TagMarkup.Proofs.Element.Misclosed
import TagMarkup.Proofs.Element.OnePass
import TagMarkup.Proofs.Element.Pieces
import TagMarkup.Proofs.Element.Refusal
import TagMarkup.Proofs.Element.RoundTrip
import TagMarkup.Proofs.Element.Spacing
import TagMarkup.Proofs.Element.Tags
import TagMarkup.Proofs.Parser.Activations
import TagMarkup.Proofs.Parser.Attempts
import TagMarkup.Proofs.Parser.Faults
import TagMarkup.Proofs.Parser.Name
import TagMarkup.Proofs.Parser.Offsets
import TagMarkup.Proofs.Parser.Position
import TagMarkup.Proofs.Parser.Repetition
import TagMarkup.Proofs.Parser.Scan
import TagMarkup.Proofs.Parser.Sharing
import TagMarkup.Proofs.Parser.Simulation
import TagMarkup.Proofs.Parser.Skip
import TagMarkup.Proofs.Parser.Words
import TagMarkup.Proofs.Session.ConfigFile
import TagMarkup.Proofs.Session.History
import TagMarkup.Proofs.Session.Log
import TagMarkup.Proofs.Session.Needs
import TagMarkup.Proofs.Session.Recovery
import TagMarkup.Proofs.Session.Steps
import TagMarkup.Proofs.Text.Numeral
import TagMarkup.Proofs.Text.Quoted
import TagMarkup.Proofs.Text.Stretch
import TagMarkup.Session
import TagMarkup.Text.Basic
import TagMarkup.Text.Character
import TagMarkup.Text.Quoted
