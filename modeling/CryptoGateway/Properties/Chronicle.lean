import CryptoGateway.Invariant.Books
import CryptoGateway.Properties.DualControl

/-!
The database seen from outside its sessions: it moves by whole transactions, none of
which alters or removes a payment's history, and its records lead back to their origin.
-/
namespace CryptoGateway
open Engine

abbrev Moves (config : Config) : Db → Db → Prop := Relation.ReflTransGen (contract config).Moves

def Retained {κ τ : Type} (old new : κ → Option τ) : Prop := ∀ k v, old k = some v → new k = some v

structure Db.Continues (db db' : Db) : Prop where
  intents : Retained (db.intentTerms ·) (db'.intentTerms ·)
  attempts : Retained (db.attemptTerms ·) (db'.attemptTerms ·)
  proposals : Retained (db.proposalTerms ·) (db'.proposalTerms ·)
  collectors : Retained (db.collectorAsset ·) (db'.collectorAsset ·)
  quotes : Retained db.quotes.row db'.quotes.row
  transfers : Retained db.transfers.row db'.transfers.row
  leaseHistory : Retained db.leaseHistory.row db'.leaseHistory.row
  claims : Retained db.claims.row db'.claims.row
  allocations : Retained db.allocations.row db'.allocations.row
  fulfillments : Retained db.fulfillments.row db'.fulfillments.row
  events : Retained db.events.row db'.events.row
  riskEvaluations : Retained db.riskEvaluations.row db'.riskEvaluations.row
  attestations : Retained db.attestations.row db'.attestations.row
  resolutions : Retained db.resolutions.row db'.resolutions.row
  idempotency : Retained db.idempotency.row db'.idempotency.row

section
variable {config : Config} {db db' : Db}

theorem Moves.retains {κ τ : Type} (path : Moves config db db') {view : κ → Db → Option τ}
    (persists : ∀ k, Persists (view k)) : Retained (view · db) (view · db') :=
  fun k _ => (persists k).moves path

theorem Moves.allocations (path : Moves config db db') :
    Retained db.allocations.row db'.allocations.row := by
  induction path with
  | refl => exact fun _ _ => id
  | tail _ move ih =>
    obtain ⟨_, _, ws, eff, rfl⟩ := move
    exact fun k v stored => eff.allocation_stays (ih k v stored)

theorem Moves.continues (path : Moves config db db') : db.Continues db' where
  intents := path.retains intentTerms_persists
  attempts := path.retains attemptTerms_persists
  proposals := path.retains proposalTerms_persists
  collectors := path.retains collectorAsset_persists
  quotes := path.retains quotes_inserts.persists
  transfers := path.retains transfers_inserts.persists
  leaseHistory := path.retains leaseHistory_inserts.persists
  claims := path.retains claims_inserts.persists
  allocations := path.allocations
  fulfillments := path.retains fulfillments_inserts.persists
  events := path.retains events_inserts.persists
  riskEvaluations := path.retains riskEvaluations_inserts.persists
  attestations := path.retains attestations_inserts.persists
  resolutions := path.retains resolutions_inserts.persists
  idempotency := path.retains idempotency_inserts.persists

end

theorem run_moves {config : Config} {allow : Gateway → Event Request → Prop} {s s' : Gateway}
    (reached : Reached config allow s) (later : System.Reach (program config) allow s s') :
    Moves config s.db s'.db ∧ s.db.Continues s'.db := by
  have path : Moves config s.db s'.db := (gatewayService config).moves reached later
  exact ⟨path, path.continues⟩

theorem run_moves_settled : ∃ db db' : Db, (Moves Sample.config db db' ∧ db.Continues db') ∧
    db'.claims.keys = [6] :=
  ⟨_, _, run_moves (Gateway.after_reached Sample.config anyStep Sample.opening)
    (Gateway.after_later _ _ _ Sample.paying), by decide +kernel⟩

section Origins
variable {config : Config} {allow : Gateway → Event Request → Prop} {s : Gateway}

/-- A lease, held or archived, has the terms of its attempt, which agree with quote and intent. -/
theorem leases_backed (reached : Reached config allow s) {window : Window}
    (leased : (∃ id row, s.db.leases.row id = some row ∧ row.window = window) ∨
      ∃ id row, s.db.leaseHistory.row id = some row ∧ row.window = window) :
    ∃ terms, s.db.attemptTerms window.attemptId = some terms ∧ terms.Linked s.db ∧
      window = ⟨terms.collectorAddressId, terms.expectedAmountRaw, window.attemptId,
        terms.createdAt, terms.latePaymentUntil⟩ := by
  have links := reached.sane.links
  obtain ⟨terms, found, place, amount, start, stop⟩ : window.Linked s.db := by
    rcases leased with ⟨id, row, stored, rfl⟩ | ⟨id, row, stored, rfl⟩
    · exact links.lease stored
    · exact links.history stored
  exact ⟨terms, found, links.attempt found, by rw [place, amount, start, stop]⟩

/-- An approved proposal, and no other, names one request: the approver's, for what it proposed. -/
theorem approvals_resolved (reached : Reached config allow s) {id : Id} {proposal : ProposalRow}
    (stored : s.db.proposals.row id = some proposal) :
    (proposal.status = .approved ↔ proposal.resolutionId.isSome) ∧
    ∀ r, proposal.resolutionId = some r → ∃ k row, s.db.resolutions.row k = some row ∧
      row.id = r ∧ row.requestHash = proposal.requestHash ∧
      proposal.decidedByKeyId = some k.1 ∧ proposal.decisionIdempotencyKey = some k.2 ∧
      ∀ l other, s.db.resolutions.row l = some other → other.id = r → l = k := by
  have resolved := reached.sane.resolved
  by_cases approved : proposal.status = .approved
  · obtain ⟨operator, key, row, spends, found, hash⟩ := resolved.approved stored approved
    refine ⟨by simp [approved, spends.resolutionId], fun r named => ?_⟩
    cases spends.resolutionId.symm.trans named
    exact ⟨(operator, key), row, found, rfl, hash, spends.decidedByKeyId,
      spends.decisionIdempotencyKey, fun _ _ kept same => resolved.uniqueId kept found same⟩
  · simp [approved, resolved.unresolved stored approved]

end Origins

namespace Sample

theorem leases_backed_opening : ∃ (db : Db) (row : LeaseRow) (terms : AttemptTerms),
    db.leases.row 4 = some row ∧ db.attemptTerms row.attemptId = some terms ∧ terms.Linked db := by
  obtain ⟨row, stored⟩ := Option.isSome_iff_exists.mp (by decide +kernel :
    ((Gateway.after config anyStep opening).db.leases.row 4).isSome)
  obtain ⟨terms, found, linked, _⟩ :=
    leases_backed (Gateway.after_reached config anyStep opening) (.inl ⟨4, row, stored, rfl⟩)
  exact ⟨_, row, terms, stored, found, linked⟩

theorem approvals_resolved_honored : ∃ (db : Db) (proposal : ProposalRow) (k : _)
    (row : ResolutionRow), db.proposals.row 7 = some proposal ∧
      db.resolutions.row k = some row ∧ proposal.resolutionId = some row.id := by
  obtain ⟨proposal, stored, status⟩ := Option.map_eq_some_iff.mp (by decide +kernel :
    ((Gateway.after config anyStep honored).db.proposals.row 7).map (·.status) = some .approved)
  have facts := approvals_resolved (Gateway.after_reached config anyStep honored) stored
  obtain ⟨r, named⟩ := Option.isSome_iff_exists.mp (facts.1.mp status)
  obtain ⟨k, row, found, rfl, _⟩ := facts.2 r named
  exact ⟨_, proposal, k, row, stored, found, named⟩

end Sample
end CryptoGateway
