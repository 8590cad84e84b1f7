import Scratchpad.Base64Url
import Scratchpad.Catalog
import Scratchpad.Catalog.Builtin
import Scratchpad.Console
import Scratchpad.Decimal.Binary64
import Scratchpad.Decimal.Shortest
import Scratchpad.Document
import Scratchpad.Engine
import Scratchpad.Engine.Scripted
import Scratchpad.Error
import Scratchpad.Event
import Scratchpad.Json.Cursor
import Scratchpad.Json.Fault
import Scratchpad.Json.Number
import Scratchpad.Json.Skip
import Scratchpad.Json.Text
import Scratchpad.Json.Value
import Scratchpad.Page
import Scratchpad.Page.Request
import Scratchpad.Proofs.Base64Url.Canonical
import Scratchpad.Proofs.Base64Url.Reading
import Scratchpad.Proofs.Runner.Freshness
import Scratchpad.Proofs.Session.Coherence
import Scratchpad.Proofs.Session.Restoring
import Scratchpad.Proofs.Session.Runs
import Scratchpad.Proofs.Session.Starts
import Scratchpad.Proofs.Share.Publishing
import Scratchpad.Proofs.Share.RoundTrip
import Scratchpad.Proofs.Share.Verdict
import Scratchpad.Proofs.Zlib.BitStream
import Scratchpad.Proofs.Zlib.Blocks
import Scratchpad.Proofs.Zlib.Codewords
import Scratchpad.Proofs.Zlib.Descriptions
import Scratchpad.Proofs.Zlib.Expansion
import Scratchpad.Proofs.Zlib.Streams
import Scratchpad.Provenance
import Scratchpad.Report
import Scratchpad.Runner
import Scratchpad.Session
import Scratchpad.Settings
import Scratchpad.Settings.Reader
import Scratchpad.Share.Codec
import Scratchpad.Share.Publisher
import Scratchpad.Share.TokenError
import Scratchpad.Slot
import Scratchpad.Stage
import Scratchpad.Text.Invisible
import Scratchpad.Text.Lossy
import Scratchpad.Text.Quoted
import Scratchpad.Traced
import Scratchpad.Zlib.Adler32
import Scratchpad.Zlib.BitReader
import Scratchpad.Zlib.BitWriter
import Scratchpad.Zlib.Bits
import Scratchpad.Zlib.Block
import Scratchpad.Zlib.BlockCodes
import Scratchpad.Zlib.CodewordLengths
import Scratchpad.Zlib.Deflate
import Scratchpad.Zlib.Description
import Scratchpad.Zlib.HashChain
import Scratchpad.Zlib.Inflater
import Scratchpad.Zlib.PrefixCode
import Scratchpad.Zlib.Rung
import Scratchpad.Zlib.Segment
import Scratchpad.Zlib.Strategy
import Scratchpad.Proofs.Session.Refusals
import Scratchpad.Proofs.Session.Admission
import Scratchpad.Proofs.Session.Fragments
import Scratchpad.Proofs.Runner.Calls
import Scratchpad.Proofs.Session.Indifference
import Scratchpad.Proofs.Share.PrefixFree
import Scratchpad.Proofs.Runner.Discipline
import Scratchpad.Proofs.Document.History
import Scratchpad.Proofs.Page.Refinement
import Scratchpad.Proofs.Runner.Reuse
import Scratchpad.Proofs.Runner.Logging
import Scratchpad.Proofs.Session.Log
import Scratchpad.Proofs.Json.Numbers
import Scratchpad.Proofs.Json.Rendering
import Scratchpad.Proofs.Settings.Members
import Scratchpad.Proofs.Settings.RoundTrip
import Scratchpad.Proofs.Json.Grammar
import Scratchpad.Proofs.Json.Reader
import Scratchpad.Proofs.Session.Snapshots
import Scratchpad.Proofs.Share.Addresses
import Scratchpad.Proofs.Catalog.Building
import Scratchpad.Proofs.Text.Lossy
import Scratchpad.Proofs.Console.Lines
import Scratchpad.Proofs.Json.Trees
import Scratchpad.Proofs.Json.Skipping
import Scratchpad.Proofs.Json.Acceptance
import Scratchpad.Proofs.Settings.Values
import Scratchpad.Proofs.Settings.Objects
import Scratchpad.Proofs.Settings.Acceptance
import Scratchpad.Proofs.Text.Quoted
import Scratchpad.Proofs.Runner.Scripted
import Scratchpad.Proofs.Zlib.Suffixes
import Scratchpad.Proofs.Share.Filling
import Scratchpad.Proofs.Zlib.Matches
import Scratchpad.Proofs.Zlib.Kraft
import Scratchpad.Proofs.Zlib.CodeTrees
import Scratchpad.Proofs.Zlib.Runs
import Scratchpad.Proofs.Zlib.Compression
