import Inventory.Double.Text
import Inventory.TextMap
import Inventory.Text.Quoted
import Inventory.Json.Printer
import Inventory.Json.Reader
import Inventory.Double.Reader
import Inventory.Value.Multi
import Inventory.QueryText.Parser
import Inventory.Record.Change
import Inventory.Endpoint
import Inventory.Creation
import Inventory.Http
import Inventory.Workspace.Step
import Inventory.Proofs.MemberReading
import Inventory.Proofs.QueryReply
import Inventory.Proofs.CommitReply
import Inventory.Proofs.CommitOutcome
import Inventory.Proofs.FiniteValue
import Inventory.Proofs.RecordHistory
import Inventory.Proofs.JsonItems
import Inventory.Proofs.SliceDiff
import Inventory.Proofs.CommitRequest
import Inventory.Proofs.CommitPartition
import Inventory.Proofs.Delta
import Inventory.Proofs.QueryText.Marking
import Inventory.Proofs.QueryText.Reference
import Inventory.Proofs.QueryText.Rescan
import Inventory.Proofs.QueryText.Parts
import Inventory.Proofs.QueryText.OuterScan
import Inventory.Proofs.QueryText.Calls
import Inventory.Proofs.QueryText.Expressions
import Inventory.Proofs.QueryText.Agreement
import Inventory.Proofs.CommitIdentity
import Inventory.Proofs.ValueWire
import Inventory.Proofs.CommitPayload
import Inventory.Proofs.CommitAtomicity
import Inventory.Proofs.DecimalText
import Inventory.Proofs.QueryText.Written
import Inventory.Proofs.QueryText.Words
import Inventory.Proofs.QueryText.WrittenMarks
import Inventory.Proofs.QueryText.ReadBack
import Inventory.Proofs.QueryText.JoinedTerms
import Inventory.Proofs.QueryLoading
import Inventory.Proofs.DoubleRank
import Inventory.Proofs.JsonText.Grammar
import Inventory.Proofs.JsonText.NumberLiteral
import Inventory.Proofs.JsonText.TokenTree
import Inventory.Proofs.JsonText.Lexemes
import Inventory.Proofs.JsonText.Scanning
import Inventory.Proofs.JsonText.WireNumeral
import Inventory.Proofs.JsonText.Rendered
import Inventory.Proofs.DoubleRange
import Inventory.Proofs.JsonText.Denoted
import Inventory.Proofs.ValueRoundTrip
import Inventory.Proofs.CanonicalText
import Inventory.Proofs.DoubleExact
import Inventory.Proofs.ExactValue
import Inventory.Proofs.QueryText.NumberWords
import Inventory.Proofs.QueryText.ParseTree
import Inventory.Proofs.QueryText.SentNumbers
import Inventory.Proofs.CommitSettlement
import Inventory.Proofs.ObjectCreation
import Inventory.Proofs.ReportedFailure
import Inventory.Proofs.FiniteReply
import Inventory.Proofs.FiniteRecord
import Inventory.Proofs.PayloadReading
import Inventory.Proofs.CanonicalKey
import Inventory.Proofs.GivenAttributes
import Inventory.Proofs.CreationReadBack
import Inventory.Proofs.QueryText.FaultPositions
import Inventory.Proofs.QueryText.ErrorPositions
import Inventory.Proofs.Dialogue
import Inventory.Proofs.ProgramDialogue
import Inventory.Proofs.ByteText
import Inventory.Proofs.HttpReply
import Inventory.Proofs.ScriptedService
import Inventory.Proofs.SetDifference
import Inventory.Proofs.MemberEdits
import Inventory.Proofs.QueryText.MovedMarks
import Inventory.Proofs.QueryText.Concatenation
import Inventory.Proofs.OperandForm
import Inventory.Proofs.FilterWire
import Inventory.Proofs.ConfigCache
import Inventory.Proofs.FetchedRecords
import Inventory.Proofs.QueryRun
import Inventory.Proofs.NetEdit
import Inventory.Proofs.QueryText.QuotedRuns
import Inventory.Proofs.RequestSignature
import Inventory.Proofs.BaseUrl
import Inventory.Proofs.QueryText.WellFormed
import Inventory.Proofs.QueryText.CallDepth
