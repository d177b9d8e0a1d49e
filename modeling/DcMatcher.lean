import DcMatcher.Lib.Enumeration
import DcMatcher.Lib.FirstBroken
import DcMatcher.Lib.KeyOrder
import DcMatcher.Lib.Levels
import DcMatcher.Lib.Lists
import DcMatcher.Lib.Traces
import DcMatcher.Lib.Ledgers
import DcMatcher.Lib.Trees
import DcMatcher.Lib.Brackets
import DcMatcher.Lib.Cursors
import DcMatcher.Lib.Readers
import DcMatcher.Lib.Leb128
import DcMatcher.Lib.Bump
import DcMatcher.Lib.Records
import DcMatcher.Lib.Rfc4648
import DcMatcher.Lib.Rfc8949
import DcMatcher.Lib.Gregorian
import DcMatcher.Lib.Calendar
import DcMatcher.Text
import DcMatcher.Json
import DcMatcher.Base64url
import DcMatcher.CborReader
import DcMatcher.CborItems
import DcMatcher.CborExact
import DcMatcher.CborDefects
import DcMatcher.CborKeys
import DcMatcher.ZkpReq
import DcMatcher.ProofTime
import DcMatcher.CivilDays
import DcMatcher.FullDate
import DcMatcher.Clock
import DcMatcher.Planning
import DcMatcher.Rulebook
import DcMatcher.Response
import DcMatcher.ResponseRules
import DcMatcher.ResponseVectors
import DcMatcher.ResponseOrder
import DcMatcher.Dcql.Query
import DcMatcher.Dcql.Eval
import DcMatcher.Dcql.Path
import DcMatcher.Dcql.Reference
import DcMatcher.Dcql.Dropped
import DcMatcher.Dcql.WellFormed
import DcMatcher.Dcql.Selection
import DcMatcher.Profile
import DcMatcher.Db
import DcMatcher.DatabaseLayout
import DcMatcher.DatabaseWriter
import DcMatcher.Request
import DcMatcher.CircuitCapabilities
import DcMatcher.CircuitRule
import DcMatcher.Evaluator
import DcMatcher.Display
import DcMatcher.Matching
import DcMatcher.Builder
import DcMatcher.Picker
import DcMatcher.Negotiation
import DcMatcher.BareQueries
import DcMatcher.Disclosure
import DcMatcher.Agreement
import DcMatcher.Consent
import DcMatcher.SignedRequests
import DcMatcher.CompactJws
import DcMatcher.ReportedCapabilities
import DcMatcher.ZkpReqGate
import DcMatcher.Answerable
import DcMatcher.Credman.Host
import DcMatcher.Credman.Sets
import DcMatcher.Credman.Reader
import DcMatcher.Credman.CallingApp
import DcMatcher.Credman.TestHost
import DcMatcher.Credman.Kinds
import DcMatcher.HostDiscipline
import DcMatcher.Noninterference
import DcMatcher.StoredDocuments
import DcMatcher.Registrations
import DcMatcher.TestRuns
import DcMatcher.Reasons
import DcMatcher.Allocator
import DcMatcher.Wasm.Binary
import DcMatcher.Wasm.Leb128
import DcMatcher.Wasm.Codec
import DcMatcher.Wasm.StripEnviron
import DcMatcher.Wasm.Module
import DcMatcher.Wasm.Rewritten
import DcMatcher.Wasm.Stripped
import DcMatcher.Wasm.Says
import DcMatcher.Wasm.Preserved
import DcMatcher.Wasm.MatcherAbi
import DcMatcher.Panics.Tokens
import DcMatcher.Panics.Lexer
import DcMatcher.Panics.CfgGate
import DcMatcher.Panics.Sites
import DcMatcher.Panics.Scanner
import DcMatcher.Panics.Lexemes
import DcMatcher.TextClaims
