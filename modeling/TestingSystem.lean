import TestingSystem.Lib.GoMap
import TestingSystem.Lib.Machine
import TestingSystem.Lib.Closure
import TestingSystem.Lib.Outcome
import TestingSystem.Lib.Ledger
import TestingSystem.Lib.Feed
import TestingSystem.Lib.Snapshots
import TestingSystem.Lib.History
import TestingSystem.Master.JobGenerators.SubmissionSnapshots
import TestingSystem.Master.JobGenerators.ResultLists
import TestingSystem.Master.JobGenerators.ICPCGrade
import TestingSystem.Master.JobGenerators.IOIGrade
import TestingSystem.Master.JobGenerators.IOISafety
import TestingSystem.Master.JobGenerators.StoppedJobs
import TestingSystem.Master.JobGenerators.Published
import TestingSystem.Master.Queue.Rescheduling
import TestingSystem.Master.Dependents
import TestingSystem.Master.LostJobs
import TestingSystem.Master.Sections
import TestingSystem.Master.SharedJobs
import TestingSystem.Master.RegistryBookkeeping
import TestingSystem.Master.Registry.Capacity
import TestingSystem.Master.Registry.JobCounts
import TestingSystem.Clients.Problem
import TestingSystem.Clients.MasterStatus
import TestingSystem.Cache.Pinning
import TestingSystem.Cache.Accounting
import TestingSystem.Invoker.CacheReset
import TestingSystem.Invoker.ActiveJobs
import TestingSystem.Invoker.DownloadFolders
import TestingSystem.Storage.Paths
import TestingSystem.Cache.Remove
import TestingSystem.Cache.EvictionOrder
import TestingSystem.Master.JobGenerators.IOIAcceptance
import TestingSystem.Master.JobGenerators.IOIVerdict
import TestingSystem.Master.JobGenerators.MissingPoints
import TestingSystem.Master.JobGenerators.Discipline
import TestingSystem.Invoker.IsolateVerdict
import TestingSystem.Invoker.ThreadsRuns
import TestingSystem.Invoker.GracefulStop
import TestingSystem.Master.Queue.Fairness
import TestingSystem.Invoker.JobLocks
import TestingSystem.Tools.ImportedProblems
import TestingSystem.Tools.ImportFolder
import TestingSystem.Storage.RemoveFile
import TestingSystem.Common.SizeTexts
import TestingSystem.Master.JobGenerators.RoundValue
import TestingSystem.Master.JobGenerators.IOITermination
import TestingSystem.Storage.FileReplies
import TestingSystem.Invoker.JobVerdicts
import TestingSystem.Master.JobGenerators.IOIMonotone
import TestingSystem.Master.RefusedSubmissions
import TestingSystem.Master.Dispatch
import TestingSystem.Clients.SubmissionView
