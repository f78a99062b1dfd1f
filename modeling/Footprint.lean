import Footprint.Exchange
import Footprint.Main
import Footprint.Proofs.Notebook.Pass
import Footprint.Proofs.Notebook.Spelling
import Footprint.Proofs.Report.RoundTrip
import Footprint.Proofs.Scan.Isolation
import Footprint.Proofs.Scan.Placement
import Footprint.Proofs.Syntax.Fuel
import Footprint.Proofs.Syntax.Reads
import Footprint.Proofs.Syntax.Validation
import Footprint.Proofs.StringLiteral.Spelling
import Footprint.Proofs.StringLiteral.Lengths
import Footprint.Proofs.Calls.Arguments
import Footprint.Proofs.Calls.Extraction
import Footprint.Proofs.Calls.LineEnds
import Footprint.Proofs.Calls.LineJoins
import Footprint.Proofs.Calls.Statements
import Footprint.Proofs.Imports.Statements
import Footprint.Proofs.CommandLine.Output
import Footprint.Proofs.Exchange.Agreement
import Footprint.Proofs.FileTree.Writing
import Footprint.Proofs.CommandLine.Effects
import Footprint.Proofs.Yaml.Faithful
import Footprint.Proofs.Toml.Meaning
import Footprint.Proofs.Toml.Numbers
import Footprint.Proofs.Toml.Tables
import Footprint.Proofs.Toml.Values
import Footprint.Proofs.Toml.Documents
import Footprint.Proofs.Settings.Configuration
import Footprint.Proofs.Settings.Matching
import Footprint.Proofs.Findings.Exactness
import Footprint.Proofs.Syntax.Concatenation
import Footprint.Proofs.Search.Hidden
import Footprint.Proofs.Ignore.Lines
import Footprint.Proofs.Ignore.Astray
import Footprint.Proofs.Report.Summary
