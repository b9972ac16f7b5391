import TokensThatSuffice.AcceptedCompactions
import TokensThatSuffice.AgentLoop
import TokensThatSuffice.AgentRuns
import TokensThatSuffice.AuditTrail
import TokensThatSuffice.BranchPoints
import TokensThatSuffice.BranchScanners
import TokensThatSuffice.BugContext
import TokensThatSuffice.CliffCompaction
import TokensThatSuffice.CollectedTurns
import TokensThatSuffice.CollectionRuns
import TokensThatSuffice.CompactedLog
import TokensThatSuffice.CompactionDecay
import TokensThatSuffice.CompactionTurn
import TokensThatSuffice.CompletionOrder
import TokensThatSuffice.CompletionScoring
import TokensThatSuffice.CompressionStats
import TokensThatSuffice.ContextBound
import TokensThatSuffice.CopyPenalty
import TokensThatSuffice.CoverageReward
import TokensThatSuffice.DatasetFormat
import TokensThatSuffice.DecoratedAnswers
import TokensThatSuffice.EvalDirectory
import TokensThatSuffice.FidelityBounds
import TokensThatSuffice.GitDiffs
import TokensThatSuffice.Grading
import TokensThatSuffice.GroupAdvantages
import TokensThatSuffice.HarborJobs
import TokensThatSuffice.InstanceRuns
import TokensThatSuffice.JsonTexts
import TokensThatSuffice.KeyedLog
import TokensThatSuffice.LearningRates
import TokensThatSuffice.LinePatches
import TokensThatSuffice.LoraReload
import TokensThatSuffice.MadeCompactors
import TokensThatSuffice.MaskAudit
import TokensThatSuffice.MaskTruth
import TokensThatSuffice.MaskWindow
import TokensThatSuffice.MultiTurnReward
import TokensThatSuffice.NumberedBlocks
import TokensThatSuffice.PenaltyBounds
import TokensThatSuffice.PendingTable
import TokensThatSuffice.PrefixSums
import TokensThatSuffice.RebuiltContexts
import TokensThatSuffice.Relay
import TokensThatSuffice.RelayOnce
import TokensThatSuffice.RelaySafety
import TokensThatSuffice.ResumablePool
import TokensThatSuffice.ReversedDiffs
import TokensThatSuffice.RewardSweep
import TokensThatSuffice.Router
import TokensThatSuffice.RouterAffinity
import TokensThatSuffice.RouterCounts
import TokensThatSuffice.Runs
import TokensThatSuffice.SampledSplits
import TokensThatSuffice.ScoredBatches
import TokensThatSuffice.SelfDistortion
import TokensThatSuffice.ShardedSweep
import TokensThatSuffice.SharedConfig
import TokensThatSuffice.SharedSkeleton
import TokensThatSuffice.SortedKeys
import TokensThatSuffice.Spans
import TokensThatSuffice.SplitBounds
import TokensThatSuffice.SplitEnumeration
import TokensThatSuffice.SplitFrames
import TokensThatSuffice.StickyRouting
import TokensThatSuffice.SubtaskCompaction
import TokensThatSuffice.SubtaskContract
import TokensThatSuffice.SubtaskCoverage
import TokensThatSuffice.SubtaskLosses
import TokensThatSuffice.SubtaskOrder
import TokensThatSuffice.SubtaskPlans
import TokensThatSuffice.SubtaskRuns
import TokensThatSuffice.SubtaskWindow
import TokensThatSuffice.SweHistories
import TokensThatSuffice.SweepResume
import TokensThatSuffice.SweepSpecs
import TokensThatSuffice.TeacherForcing
import TokensThatSuffice.TemplateArguments
import TokensThatSuffice.TextCuts
import TokensThatSuffice.ThemeAnswers
import TokensThatSuffice.ThinkBlocks
import TokensThatSuffice.TokenTrigger
import TokensThatSuffice.ToolPairing
import TokensThatSuffice.TopSummaries
import TokensThatSuffice.TrainingData
import TokensThatSuffice.TrainingDatums
import TokensThatSuffice.TrainingLoops
import TokensThatSuffice.TrainingPrompt
import TokensThatSuffice.TranscriptSpans
import TokensThatSuffice.TreeDiffs
import TokensThatSuffice.TurnSplits
