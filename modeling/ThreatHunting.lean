import ThreatHunting.Lib.Procedure
import ThreatHunting.Lib.Fence
import ThreatHunting.Services.Execution
import ThreatHunting.Services.Leases
import ThreatHunting.Services.Transitions
import ThreatHunting.Services.Fencing
import ThreatHunting.Services.Versions
import ThreatHunting.Services.Recovery
import ThreatHunting.Services.Retrieval
import ThreatHunting.Services.Accounting
import ThreatHunting.Services.ModelOutput
import ThreatHunting.Spl.Scope
import ThreatHunting.Spl.Provenance
import ThreatHunting.Spl.TimeWindow
import ThreatHunting.Mcp.Revocation
import ThreatHunting.Mcp.Reservation
import ThreatHunting.Services.Reports
import ThreatHunting.Services.Audit
import ThreatHunting.Services.ReportFiles
import ThreatHunting.Services.Erasure
import ThreatHunting.Services.Citations
import ThreatHunting.Domain.Machine
import ThreatHunting.Lib.Ownership
import ThreatHunting.Services.Uploads
import ThreatHunting.Services.EvidenceLookup
import ThreatHunting.Services.Findings
import ThreatHunting.Mcp.Statuses
import ThreatHunting.Services.Usage
import ThreatHunting.Services.Preflight
import ThreatHunting.Services.Timeline
import ThreatHunting.Services.LeadActivity
import ThreatHunting.Services.Sampling
import ThreatHunting.Services.PolicyRejections
import ThreatHunting.Services.Runtime
import ThreatHunting.Auth.LoginLimits
import ThreatHunting.Mcp.Capabilities
import ThreatHunting.Services.HtmlReport
import ThreatHunting.Services.HtmlRendering
import ThreatHunting.Spl.Quotes
import ThreatHunting.Services.Evidence
import ThreatHunting.Lib.JsonText
import ThreatHunting.Spl.Aliases
import ThreatHunting.Spl.Discovery
import ThreatHunting.Lib.Unfolding
import ThreatHunting.Lib.JsonStrings
import ThreatHunting.Services.Grounding
import ThreatHunting.Lib.Publication
import ThreatHunting.Services.TemporaryResults
import ThreatHunting.Services.TemporaryRuns
import ThreatHunting.Lib.Distinct
import ThreatHunting.Domain.QueryStrategy
import ThreatHunting.Domain.QueryRanking
import ThreatHunting.Domain.QueryStrategyInputs
import ThreatHunting.Spl.Verdicts
import ThreatHunting.Lib.Rewriting
import ThreatHunting.Services.ThreatIntel
import ThreatHunting.Services.LeadSessions
import ThreatHunting.Services.FollowUps
import ThreatHunting.Services.FollowUpPlanning
import ThreatHunting.Services.FollowUpReview
