import CollectivePhaseControl.Fallible
import CollectivePhaseControl.Checked
import CollectivePhaseControl.Rationals
import CollectivePhaseControl.Dicts
import CollectivePhaseControl.Clock
import CollectivePhaseControl.GrowthModels
import CollectivePhaseControl.Documents
import CollectivePhaseControl.GrowthLedger
import CollectivePhaseControl.GrowthFrontier
import CollectivePhaseControl.GrowthStep
import CollectivePhaseControl.GrowthContracts
import CollectivePhaseControl.Runs
import CollectivePhaseControl.GrowthRuns
import CollectivePhaseControl.GrowthConservation
import CollectivePhaseControl.GrowthCharges
import CollectivePhaseControl.BudgetedSearch
import CollectivePhaseControl.MaxMin
import CollectivePhaseControl.GrowthSearch
import CollectivePhaseControl.GrowthBudget
import CollectivePhaseControl.GrowthTree
import CollectivePhaseControl.GrowthPlay
import CollectivePhaseControl.GrowthScalar
import CollectivePhaseControl.GrowthRestricted
import CollectivePhaseControl.GrowthComparisons
import CollectivePhaseControl.GrowthTimeline
import CollectivePhaseControl.GrowthLineage
import CollectivePhaseControl.GrowthRefinement
import CollectivePhaseControl.EpistemicDomain
import CollectivePhaseControl.EpistemicReference
import CollectivePhaseControl.EpistemicFilter
import CollectivePhaseControl.EpistemicSearch
import CollectivePhaseControl.EpistemicPolicies
import CollectivePhaseControl.EpistemicComparisons
import CollectivePhaseControl.EpistemicAgreement
import CollectivePhaseControl.EpistemicPlanning
import CollectivePhaseControl.EpistemicPlays
import CollectivePhaseControl.EpistemicSimulation
import CollectivePhaseControl.RunnerModels
import CollectivePhaseControl.RunnerReceipts
import CollectivePhaseControl.RunnerGateway
import CollectivePhaseControl.RunnerLeases
import CollectivePhaseControl.Unwinding
import CollectivePhaseControl.RunnerTenants
import CollectivePhaseControl.ControlPlane
import CollectivePhaseControl.ControlPlaneRetries
import CollectivePhaseControl.AuthorityTrust
import CollectivePhaseControl.AuthorityProjections
import CollectivePhaseControl.AuthorityLoader
import CollectivePhaseControl.AuthorityPasses
import CollectivePhaseControl.AuthorityStatements
import CollectivePhaseControl.AuthorityLoads
import CollectivePhaseControl.AuthorityClosure
import CollectivePhaseControl.AnalysisBudget
import CollectivePhaseControl.Polyline
import CollectivePhaseControl.ServiceCurves
import CollectivePhaseControl.Coordination
import CollectivePhaseControl.CoordinationTraces
import CollectivePhaseControl.Chains
import CollectivePhaseControl.GenerationChains
import CollectivePhaseControl.UploadQuarantine
import CollectivePhaseControl.HornClosure
import CollectivePhaseControl.StructuralAnalysis
import CollectivePhaseControl.Science
import CollectivePhaseControl.ScienceAudits
import CollectivePhaseControl.Perturbations
import CollectivePhaseControl.AuditedDimensions
import CollectivePhaseControl.Stoichiometry
import CollectivePhaseControl.MinimalSets
import CollectivePhaseControl.NetworkEnumerations
import CollectivePhaseControl.ReachabilityAgreement
import CollectivePhaseControl.OccurrencePrefix
import CollectivePhaseControl.PrefixCompleteness
import CollectivePhaseControl.PrefixCausality
import CollectivePhaseControl.FluxCoupling
import CollectivePhaseControl.NullSpaces
import CollectivePhaseControl.Joining
import CollectivePhaseControl.FluxClasses
import CollectivePhaseControl.Histories
import CollectivePhaseControl.PrefixHistories
import CollectivePhaseControl.PrefixIdentity
import CollectivePhaseControl.PrefixDependencies
import CollectivePhaseControl.Planner
import CollectivePhaseControl.PlannerDominance
import CollectivePhaseControl.PlannerEvidence
import CollectivePhaseControl.PersistenceTrajectories
import CollectivePhaseControl.RunnerClaims
import CollectivePhaseControl.CoordinationDeadlines
import CollectivePhaseControl.RunnerArtifacts
import CollectivePhaseControl.FormationLayers
import CollectivePhaseControl.SiphonDiagnostics
import CollectivePhaseControl.OrderedForests
import CollectivePhaseControl.IndependentDomains
import CollectivePhaseControl.CatalysisAgreement
import CollectivePhaseControl.Trials
import CollectivePhaseControl.TrialAssessments
import CollectivePhaseControl.QuorumRoles
import CollectivePhaseControl.CompatibleProfiles
import CollectivePhaseControl.RemovedIdentifiers
import CollectivePhaseControl.HornLayers
import CollectivePhaseControl.LegacyCuts
import CollectivePhaseControl.TrialStatuses
import CollectivePhaseControl.FiringSystems
import CollectivePhaseControl.LegacyClosures
import CollectivePhaseControl.LegacyRenamings
import CollectivePhaseControl.PointerLocations
import CollectivePhaseControl.PointerSpellings
import CollectivePhaseControl.EnablingClosures
import CollectivePhaseControl.OrganizationFlows
import CollectivePhaseControl.OrganizationReplays
import CollectivePhaseControl.LedgerSpellings
import CollectivePhaseControl.LegacyOccurrences
import CollectivePhaseControl.CoordinationChains
import CollectivePhaseControl.CodePoints
import CollectivePhaseControl.JsonReader
import CollectivePhaseControl.JsonReading
import CollectivePhaseControl.JsonOrders
import CollectivePhaseControl.CanonicalJson
import CollectivePhaseControl.JsonSpellings
import CollectivePhaseControl.CanonicalScans
import CollectivePhaseControl.CanonicalRoundTrips
import CollectivePhaseControl.AuthorityScopes
import CollectivePhaseControl.AuthorityDependencies
import CollectivePhaseControl.AuthorityAnchors
import CollectivePhaseControl.AuthorityOrders
import CollectivePhaseControl.AuthorityHistories
import CollectivePhaseControl.KernelBudgets
import CollectivePhaseControl.BudgetHonesty
import CollectivePhaseControl.GrowthAcceptance
import CollectivePhaseControl.GrowthCompleteness
import CollectivePhaseControl.GrowthDiagnostics
import CollectivePhaseControl.GrowthPlanner
import CollectivePhaseControl.GrowthPlans
import CollectivePhaseControl.GrowthWitnesses
import CollectivePhaseControl.EpistemicChecking
import CollectivePhaseControl.EpistemicChecks
import CollectivePhaseControl.EpistemicLimits
import CollectivePhaseControl.EpistemicPlans
import CollectivePhaseControl.AffordableAnalyses
