import CryptoGateway.Engine.Adequacy
import CryptoGateway.Storage.Provisioning
import CryptoGateway.Verification

/-!
The running gateway: any number of requests and workers over one database, each
interleaved with the others statement by statement.
-/
namespace CryptoGateway
open Engine

structure Config where
  honorPolicy : HonorApprovalPolicy := {}
  maxOpenLeasesPerCollector : Option Nat := none
deriving DecidableEq, Repr

/-- What starts a process. `commitVerdict` stands for a verifier that decides by other
    rules; `replaceCatalog` and `registerCollector` stand for the writers outside the
    payment path: price and policy feeds, and address registration. -/
inductive Request where
  | createIntent (merchantId : Id) (key : Text) (input : CreatePaymentIntent)
  | cancelIntent (merchantId : Id) (key : Text) (intentId : Id) (reason : Option Text)
  | issueQuote (merchantId : Id) (key : Text) (input : IssueQuote)
  | expireDue (limit : Nat)
  | settlePending (lease : ComponentLease) (limit : Nat) (order : RowOrder Id := fun _ _ => true)
  | resolveManual (credential : OperatorCredential) (key : Text) (resolution : ManualResolution)
  | proposeHonor (credential : OperatorCredential) (key : Text) (resolution : ManualResolution)
  | approveHonor (credential : OperatorCredential) (proposalId : Id) (key reason : Text)
  | rejectHonor (credential : OperatorCredential) (proposalId : Id) (key reason : Text)
  | openRailStop (credential : OperatorCredential) (assetId : Id) (reasonCode : Text)
  | clearRailStop (credential : OperatorCredential) (assetId : Id) (reason : Text)
  | submitRisk (credential : OperatorCredential) (submission : RiskRow)
  | intake (source : ChainSource) (principal : Text) (lease : ComponentLease)
      (kind : ObservationKind) (collectors : List CollectorWatch)
      (transfers : List ObservedTransfer) (cursor : Option (Id × CursorPosition) := none)
  | verifyPending (verifier : Verifier) (lease : ComponentLease) (limit : Nat)
      (order : RowOrder ChainEventKey := fun _ _ => true)
  | commitVerdict (lease : ComponentLease) (event : ChainEventKey) (verdict : Verdict)
      (about : verdict.About event)
  | purgeObservations (olderThan : Int) (limit : Nat) (disputed : Id → Bool)
  | acquireLease (component holder : Text) (ttlSeconds : Int)
  | replaceCatalog (catalog : Catalog)
  | registerCollector (row : CollectorRow)
  | stopQuoting (collectorId : Id)
  | retireCollector (collectorId : Id) (compromised : Bool)

inductive Failure where
  | service (error : ServiceError)
  | quote (error : QuoteServiceError)
  | settlement (error : SettlementServiceError)
  | operations (error : OperationsError)
  | verification (error : VerificationServiceError)
  | provisioning (error : ProvisioningError)
  | repository (error : RepositoryError)
deriving DecidableEq, Repr

inductive Response where
  | intent (result : IdempotentCreate)
  | quote (result : IdempotentQuote)
  | expiry (result : ExpiryResult)
  | settlement (report : SettlementReport)
  | resolution (result : ManualResolutionResult)
  | proposal (id : Id) (row : ProposalRow)
  | railStop (id : Id) (row : RailStopRow)
  | intake (report : IntakeReport)
  | verification (report : VerificationReport)
  | verdict (outcome : VerdictOutcome)
  | lease (row : Option ComponentLeaseRow)
  | risk (id : Id)
  | purged (deleted : Nat)
  | done
deriving DecidableEq, Repr

/-- A job as a process: its errors and its result in the common types. -/
def answer {ε α : Type} (wrap : ε → Failure) (respond : α → Response) (job : Job ε α) :
    Job Failure Response := do
  let a ← job.mapError wrap
  pure (respond a)

def registerCollector (row : CollectorRow) : Job RepositoryError Unit := do
  let id ← uuid
  Proc.transaction do
    orViolation fun _ newest _ =>
      if (newest.collectors.row id).isSome then Reply.value (some .unavailable)
      else Reply.wrote [.insertCollector id row] none
    commit

/-- One write by an administrator, committed on its own. -/
def administer (write : Write) : Job RepositoryError Unit := do
  execute fun _ _ _ => Reply.wrote [write] ()
  commit

def program (config : Config) : Request → Job Failure Response
  | .createIntent merchant key input => answer .service .intent (createIntent merchant key input)
  | .cancelIntent merchant key intent reason =>
      answer .service .intent (cancelIntent merchant key intent reason)
  | .issueQuote merchant key input =>
      answer .quote .quote (issueQuote config.maxOpenLeasesPerCollector merchant key input)
  | .expireDue limit => answer .quote .expiry (expireDue limit)
  | .settlePending lease limit order =>
      answer .settlement .settlement (settlePending order lease limit)
  | .resolveManual credential key resolution =>
      answer .operations .resolution (resolveManual config.honorPolicy credential key resolution)
  | .proposeHonor credential key resolution =>
      answer .operations (fun p => .proposal p.1 p.2)
        (proposeHonor config.honorPolicy credential key resolution)
  | .approveHonor credential proposal key reason =>
      answer .operations .resolution (approveHonor credential proposal key reason)
  | .rejectHonor credential proposal key reason =>
      answer .operations (.proposal proposal) (rejectHonor credential proposal key reason)
  | .openRailStop credential asset reason =>
      answer .operations (fun p => .railStop p.1 p.2) (openRail credential asset reason)
  | .clearRailStop credential asset reason =>
      answer .operations (fun _ => .done) (clearRail credential asset reason)
  | .submitRisk credential submission =>
      answer .operations .risk (submitRiskEvaluation credential submission)
  | .intake source principal lease kind collectors transfers cursor =>
      answer .repository .intake
        (intake source principal lease kind collectors transfers cursor)
  | .verifyPending verifier lease limit order =>
      answer .verification .verification (verifyPending order verifier lease limit)
  | .commitVerdict lease event verdict _ => answer .repository .verdict do
      let at_ ← Proc.clock (some (.dictated event)) .done
      commitVerdict lease event verdict at_
  | .purgeObservations olderThan limit disputed =>
      answer .repository .purged (purgeObservations olderThan limit disputed)
  | .acquireLease component holder ttl => answer .repository .lease do
      let at_ ← now
      acquireComponentLease component holder ttl at_
  | .replaceCatalog catalog =>
      answer .repository (fun _ => .done) (administer (.setCatalog catalog))
  | .registerCollector row => answer .repository (fun _ => .done) (registerCollector row)
  | .stopQuoting collector =>
      answer .provisioning (fun _ => .done) (stopQuotingCollector collector)
  | .retireCollector collector compromised =>
      answer .provisioning (fun _ => .done) (retireCollector collector compromised)

abbrev Gateway := System Db Write Row Watch Failure Response

def Gateway.initial : Gateway := { db := {}, now := 0, nextId := 0, sessions := [] }

/-- The gateway states that allowed runs reach. -/
abbrev Reached (config : Config) (allow : Gateway → Event Request → Prop) (s : Gateway) : Prop :=
  System.Reach (program config) allow Gateway.initial s

end CryptoGateway
