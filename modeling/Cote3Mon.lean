import Cote3Mon.AuditStore.Failures
import Cote3Mon.AuditStore.Receipts
import Cote3Mon.AuditStore.Restarts
import Cote3Mon.AuditTa.Sessions
import Cote3Mon.AuditTa.Shared
import Cote3Mon.Collection.Jsonl
import Cote3Mon.Collection.Resume
import Cote3Mon.Features.Csv
import Cote3Mon.Features.Invariance
import Cote3Mon.Features.Ranges
import Cote3Mon.Forest.PathLength
import Cote3Mon.Forest.SinglePrecision
import Cote3Mon.Gateway.Client
import Cote3Mon.Gateway.Counts
import Cote3Mon.Gateway.Fingerprints
import Cote3Mon.Gateway.Interchange
import Cote3Mon.Gateway.Summary
import Cote3Mon.Monitor.HostileInput
import Cote3Mon.Monitor.LostAlerts
import Cote3Mon.Monitor.Performance
import Cote3Mon.Protocol.Acceptance
import Cote3Mon.Protocol.Agreement
import Cote3Mon.Training.Evaluation
import Cote3Mon.Training.Split
import Cote3Mon.Training.Threshold
import Cote3Mon.Workload.C
import Cote3Mon.Workload.Experiment
import Cote3Mon.Workload.Python
import Cote3Mon.Workload.Rows
