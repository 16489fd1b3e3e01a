import Birdcall.Act
import Birdcall.Cache
import Birdcall.Command
import Birdcall.Command.Flag
import Birdcall.Command.Report
import Birdcall.Command.Run
import Birdcall.Command.Worker
import Birdcall.Config
import Birdcall.Config.Error
import Birdcall.Config.Reading
import Birdcall.Config.Rendering
import Birdcall.Engine
import Birdcall.Engine.Options
import Birdcall.Error
import Birdcall.Event
import Birdcall.Files
import Birdcall.Location
import Birdcall.Log
import Birdcall.Main
import Birdcall.Meter
import Birdcall.Output
import Birdcall.Output.Device
import Birdcall.Program
import Birdcall.Program.Artifact
import Birdcall.Program.Digest
import Birdcall.Program.Interpret
import Birdcall.Program.Listing
import Birdcall.Program.Spelling
import Birdcall.Proofs.Grammar
import Birdcall.Proofs.Walk
import Birdcall.Source
import Birdcall.Source.Input
import Birdcall.Source.Stream
import Birdcall.Symbol
import Birdcall.Text
import Birdcall.Text.Base64
import Birdcall.Text.Classes
import Birdcall.Text.CleanLine
import Birdcall.Text.Number
import Birdcall.Text.Printable
import Birdcall.Text.Quoted
import Birdcall.Text.Template
import Birdcall.Text.Utf8
import Birdcall.Token
import Birdcall.Yaml.Cursor
import Birdcall.Yaml.Decode
import Birdcall.Yaml.Double
import Birdcall.Yaml.Node
import Birdcall.Yaml.Supply
import Birdcall.Yaml.Timestamp
import Birdcall.Yaml.Token
import Birdcall.Yaml.Token.Name
import Birdcall.Yaml.Token.Scalar
import Birdcall.Yaml.Token.Scan
import Birdcall.Yaml.Value
import Birdcall.Yaml.Written
import Birdcall.Proofs.Evaluation
import Birdcall.Proofs.Compilation
import Birdcall.Proofs.Outside
import Birdcall.Proofs.Cache
import Birdcall.Proofs.Tiering
import Birdcall.Proofs.Filing
import Birdcall.Proofs.Promotion
import Birdcall.Proofs.Scan
import Birdcall.Proofs.Devices
import Birdcall.Proofs.Loading
import Birdcall.Proofs.Solo
import Birdcall.Proofs.Turns
import Birdcall.Proofs.Crew
import Birdcall.Proofs.Schedule
import Birdcall.Proofs.Canonical
import Birdcall.Proofs.Utf8
import Birdcall.Proofs.Words
import Birdcall.Proofs.Delivery
import Birdcall.Proofs.Respelling
import Birdcall.Proofs.Yaml.Supply
import Birdcall.Proofs.Yaml.Cursor
import Birdcall.Proofs.Yaml.Gap
import Birdcall.Proofs.Yaml.Block
import Birdcall.Proofs.Yaml.Plain
import Birdcall.Proofs.Yaml.Quoted
import Birdcall.Proofs.Yaml.Scan
import Birdcall.Proofs.Yaml.Values
import Birdcall.Proofs.Yaml.Queue
import Birdcall.Proofs.Base64
import Birdcall.Proofs.Yaml.Word
import Birdcall.Proofs.Yaml.Lines
import Birdcall.Proofs.Yaml.Node
import Birdcall.Proofs.Number
import Birdcall.Proofs.Yaml.Decode
import Birdcall.Proofs.Yaml.Bounds
import Birdcall.Proofs.Overlay
import Birdcall.Proofs.Reading
import Birdcall.Proofs.Yaml.Clean
import Birdcall.Proofs.Roundtrip
import Birdcall.Proofs.Lexing
import Birdcall.Proofs.Ensures
import Birdcall.Proofs.Metering
import Birdcall.Proofs.Renaming
import Birdcall.Proofs.Switches
import Birdcall.Proofs.Pipes
import Birdcall.Proofs.Printing
import Birdcall.Proofs.Wiring
import Birdcall.Proofs.Combining
import Birdcall.Proofs.Fanout
import Birdcall.Proofs.Outputs
import Birdcall.Proofs.Blame
import Birdcall.Proofs.Nesting
import Birdcall.Proofs.Consumption
import Birdcall.Proofs.Verbatim
import Birdcall.Proofs.Queueing
import Birdcall.Proofs.Assembly
import Birdcall.Proofs.Lifetime
import Birdcall.Proofs.OneLine
import Birdcall.Proofs.LineLogs
import Birdcall.Proofs.Listings
import Birdcall.Proofs.Tracing
import Birdcall.Proofs.Sharing
import Birdcall.Proofs.Indentation
import Birdcall.Proofs.Symbols
import Birdcall.Proofs.Headings
