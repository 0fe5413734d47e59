import BargeIn.Classifier.Basic
import BargeIn.CommandLine.Run
import BargeIn.Config
import BargeIn.Files.Tree
import BargeIn.Json.Printer
import BargeIn.Json.Reader
import BargeIn.Lexicon.Document
import BargeIn.Log.Host
import BargeIn.Main
import BargeIn.Proofs.Classifier.Content
import BargeIn.Proofs.Classifier.Epochs
import BargeIn.Proofs.Classifier.Noise
import BargeIn.Proofs.Classifier.Scan
import BargeIn.Proofs.Classifier.Windows
import BargeIn.Proofs.CommandLine.SessionLog
import BargeIn.Proofs.Config.RoundTrip
import BargeIn.Proofs.Lexicon.Canonical
import BargeIn.Proofs.Lexicon.Layering
import BargeIn.Proofs.Lexicon.Tokens
import BargeIn.Proofs.Session.Epochs
import BargeIn.Recorder.Lifecycle
import BargeIn.Scenario
import BargeIn.Session.Room
import BargeIn.Proofs.Recorder.Account
import BargeIn.Proofs.Session.Company
import BargeIn.Proofs.Files.Rooted
import BargeIn.Proofs.Recorder.Whereabouts
import BargeIn.Proofs.Json.Scalars
import BargeIn.Proofs.Text.Utf8
import BargeIn.Proofs.Json.ReadBack
import BargeIn.Proofs.Recorder.LogContents
import BargeIn.Proofs.Session.Conservation
import BargeIn.Proofs.CommandLine.Framing
import BargeIn.Proofs.CommandLine.Stopping
import BargeIn.Proofs.Config.Isolation
import BargeIn.Proofs.Config.Reload
import BargeIn.Proofs.Lexicon.Lookup
import BargeIn.Proofs.Lexicon.Invariant
import BargeIn.Proofs.Classifier.Monotone
import BargeIn.Proofs.Lexicon.Acceptance
import BargeIn.Proofs.Session.ZeroWindow
import BargeIn.Proofs.Recorder.Refusal
import BargeIn.Proofs.Recorder.FreeName
import BargeIn.Proofs.Recorder.Crew
import BargeIn.Proofs.Session.Redundancy
import BargeIn.Proofs.Log.Periods
import BargeIn.Proofs.Classifier.Scenarios
import BargeIn.Proofs.Text.Runs
import BargeIn.Proofs.Text.Cutting
import BargeIn.Proofs.Classifier.Bytes
