import LevelPgServer.Common.NotInRewrite
import LevelPgServer.Common.NumberLiteral
import LevelPgServer.Common.NumberScan
import LevelPgServer.Common.SignedLiteral
import LevelPgServer.Common.SignedRuns
import LevelPgServer.Execution.DBDataTypeHandler
import LevelPgServer.Lib.ExceptRules
import LevelPgServer.Execution.DataRow
import LevelPgServer.Lib.ThreeWay
import LevelPgServer.Execution.FilterPlan
import LevelPgServer.PlanBuilder.ScanPlan
import LevelPgServer.Execution.FilterCorrect
import LevelPgServer.Execution.RangeFailure
import LevelPgServer.Execution.RowMeaning
import LevelPgServer.Lib.SortedFilter
import LevelPgServer.Server.Interleaving
import LevelPgServer.Server.Cancellation
import LevelPgServer.Server.ParamNumbers
import LevelPgServer.Server.ErrorRecovery
import LevelPgServer.Server.Replies
import LevelPgServer.Server.OneContinuation
import LevelPgServer.Server.ResultLoop
import LevelPgServer.Execution.InsertUpserts
import LevelPgServer.Server.Atomicity
import LevelPgServer.Execution.ConstPlan
import LevelPgServer.Execution.ReadFilePlan
import LevelPgServer.Execution.ExecutionBuffer
import LevelPgServer.Execution.LimitPlan
import LevelPgServer.Execution.RowCount
import LevelPgServer.Execution.SortPlan
import LevelPgServer.Execution.ProjectionPlan
import LevelPgServer.Execution.Plan
import LevelPgServer.PlanBuilder.SelectPlanBuilder
import LevelPgServer.Server.BinaryParams
import LevelPgServer.Server.SessionManager
import LevelPgServer.Server.ErrorMessage
import LevelPgServer.Server.RowFrame
import LevelPgServer.Execution.ReverseCorrect
import LevelPgServer.Execution.KeyComparator
import LevelPgServer.Execution.GroupByCorrect
import LevelPgServer.Server.PayloadReads
import LevelPgServer.Lib.Regex
import LevelPgServer.Lib.Lalr
import LevelPgServer.Common.SqlTables
import LevelPgServer.Common.SqlLexer
import LevelPgServer.Common.SqlParser
import LevelPgServer.Common.ParserStops
import LevelPgServer.Common.ReportedErrors
import LevelPgServer.Execution.QuotedFields
import LevelPgServer.Execution.LineBuffer
import LevelPgServer.Lib.Wildcard
import LevelPgServer.Execution.LikePattern
import LevelPgServer.Common.StringLiteral
import LevelPgServer.Server.MemBlocks
import LevelPgServer.Execution.MirroredComparison
import LevelPgServer.Common.ParseTime
import LevelPgServer.Server.DateLiteral
import LevelPgServer.Lib.Captures
import LevelPgServer.Common.MetaConfig
import LevelPgServer.Common.TrailingText
import LevelPgServer.Execution.SortCorrect
import LevelPgServer.Lib.TwoRuns
import LevelPgServer.Common.EditedLines
import LevelPgServer.Lib.LalrPaths
import LevelPgServer.Common.ColumnPartition
import LevelPgServer.Lib.Regions
import LevelPgServer.Execution.BufferBlocks
import LevelPgServer.Execution.ProjectionIndexes
import LevelPgServer.PlanBuilder.ConstantOperands
import LevelPgServer.PlanBuilder.EmptySelect
import LevelPgServer.PlanBuilder.ImplicitGroupBy
import LevelPgServer.Common.Statements
import LevelPgServer.Server.DroppedStatements
import LevelPgServer.Lib.LalrTrees
import LevelPgServer.Common.SqlGrammar
import LevelPgServer.Common.ParsedTrees
import LevelPgServer.Common.Precedence
import LevelPgServer.Common.SyntaxErrors
import LevelPgServer.Execution.DistinctGroups
import LevelPgServer.Execution.ScanOrder
import LevelPgServer.PlanBuilder.KeyGroups
