import CryptoGateway.Storage.Statements

/-!
`gateway-storage/src/provisioning.rs`: collector addresses are registered, stop
being quoted and are retired.
-/
namespace CryptoGateway
open Engine

inductive ProvisioningError where
  | collectorNotFound
  | collectorStillReserved (reserved : Nat)
  | storage
deriving DecidableEq, Repr

def stopQuotingCollector (collectorId : Id) : Job ProvisioningError Unit :=
  Proc.transaction do
    let stopped ← execute (updateOne (.collector collectorId)
      (fun db => (db.collectors.row collectorId).filter (·.state = .active))
      fun _ => [.setCollectorState collectorId .receivingOnly])
    if stopped ≠ 1 then .fail .collectorNotFound
    else commit

def Db.reservations (db : Db) (collectorId : Id) : Nat :=
  (db.leases.entries.filter (·.2.collectorAddressId = collectorId)).length

/-- Only a compromised key justifies retiring an address with live reservations. -/
def retireCollector (collectorId : Id) (compromised : Bool) : Job ProvisioningError Unit :=
  Proc.transaction do
    let found ← execute (forUpdate (.collector collectorId)
      fun db => (db.collectors.row collectorId).filter (·.state ≠ .retired))
    let _ ← orFail .collectorNotFound found
    let reserved ← watch (.reserved collectorId) (·.reservations collectorId)
    if 0 < reserved ∧ compromised = false then .fail (.collectorStillReserved reserved)
    else do
      let _ ← execute (updateOne (.collector collectorId) (·.collectors.row collectorId)
        fun _ => [.setCollectorState collectorId .retired])
      commit

end CryptoGateway
