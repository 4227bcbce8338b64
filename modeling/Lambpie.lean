import Lambpie.Foundations.Outcome
import Lambpie.Foundations.Transition
import Lambpie.Foundations.BumpPool
import Lambpie.Foundations.Occurrence
import Lambpie.Foundations.Decimal
import Lambpie.Runtime.Arena
import Lambpie.Runtime.ArenaHistory
import Lambpie.Runtime.ArenaExhaustion
import Lambpie.Runtime.Json
import Lambpie.Runtime.JsonWriter
import Lambpie.Runtime.JsonReader
import Lambpie.Runtime.JsonRoundTrip
import Lambpie.Runtime.JsonMembers
import Lambpie.Runtime.JsonSerialise
import Lambpie.Runtime.Http
import Lambpie.Runtime.HttpBuffer
import Lambpie.Runtime.HttpHeaders
import Lambpie.Runtime.HeaderFields
import Lambpie.Runtime.HttpParse
import Lambpie.Runtime.HttpComplete
import Lambpie.Runtime.HeaderBlock
import Lambpie.Runtime.InvocationLoop
import Lambpie.Runtime.ReplyCorrelation
import Lambpie.Runtime.CompletionLog
import Lambpie.Foundations.StateExcept
import Lambpie.Compiler.Syntax
import Lambpie.Compiler.LLVM
import Lambpie.Compiler.Builder
import Lambpie.Compiler.Visitor
import Lambpie.Compiler.Emits
import Lambpie.Compiler.VisitInvariant
import Lambpie.Compiler.Entry
import Lambpie.Compiler.Forms
import Lambpie.Compiler.VisitRecursion
import Lambpie.Compiler.Definitions
import Lambpie.Compiler.Ready
import Lambpie.Compiler.Dropped
import Lambpie.Compiler.ArenaTags
import Lambpie.Compiler.RequestCode
import Lambpie.Compiler.BlockGraph
import Lambpie.Compiler.Constructs
import Lambpie.Compiler.FallThrough
import Lambpie.Compiler.NoUnreachable
import Lambpie.Foundations.Lockstep
import Lambpie.Compiler.Survey
import Lambpie.Compiler.SurveyProgram
import Lambpie.Compiler.ControlFlow
import Lambpie.Compiler.SurveyAgrees
import Lambpie.Compiler.SurveySteps
import Lambpie.Compiler.SurveyVisits
import Lambpie.Compiler.SurveyDefinitions
import Lambpie.Compiler.SurveyRecursion
import Lambpie.Compiler.Rejection
import Lambpie.Foundations.BlockMemory
import Lambpie.Foundations.LittleEndian
import Lambpie.Machine.Value
import Lambpie.Machine.Step
import Lambpie.Machine.EventLoop
import Lambpie.Machine.StepCases
import Lambpie.Machine.ArenaDiscipline
import Lambpie.Machine.EndOfBody
import Lambpie.Foundations.Rfc8259
import Lambpie.Foundations.FlatJson
import Lambpie.Runtime.JsonResponse
import Lambpie.Runtime.FlatMembers
import Lambpie.Runtime.FlatNumbers
import Lambpie.Runtime.DecimalCodec
import Lambpie.Foundations.GraphWalk
import Lambpie.Scripts.ParseModels
import Lambpie.Scripts.Reachability
import Lambpie.Scripts.Parsing
import Lambpie.Scripts.SkipUnsupported
import Lambpie.Scripts.ClosedModel
import Lambpie.Scripts.ClassOrder
import Lambpie.Foundations.SortedFilter
import Lambpie.Scripts.GeneratePie
import Lambpie.Scripts.Restriction
import Lambpie.Foundations.PythonSource
import Lambpie.Scripts.PieSyntax
import Lambpie.Scripts.PieText
import Lambpie.Scripts.ValidSource
import Lambpie.Integers.Programs
import Lambpie.Machine.ForwardPointers
import Lambpie.Machine.SlotOnce
import Lambpie.Compiler.EntryOperands
