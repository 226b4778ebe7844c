import CryptoGateway.Webhooks.Queues

/-!
The transition period of a rotated secret. The replaced version signs until the promised time
where no rotation comes too early for the one before it, or for a delivery that is under way.
-/
namespace CryptoGateway.Webhooks
open Engine

inductive EndpointStep (config : Config) (db : Db) (ws : List Write) (id : Id) :
    Option EndpointRow → Option EndpointRow → Prop where
  | same {row : Option EndpointRow} : EndpointStep config db ws id row row
  | registered {row : EndpointRow} (previous : row.previous = none)
      (issued : row.secretFingerprint =
        config.keys.fingerprint (config.keys.derive row.secretVersion row.merchantId id)) :
      EndpointStep config db ws id none (some row)
  | rotated {row : EndpointRow} {rotation : Rotation} (rotates : .rotate id rotation ∈ ws)
      (from_ : db.Rotates config id rotation row) :
      EndpointStep config db ws id (some row) (some (row.rotate rotation))
  | disabled {row : EndpointRow} :
      EndpointStep config db ws id (some row) (some { row with active := false })

theorem claim_onEndpoint (batch : List OutboxEvent) (call : ClaimCall) (id : Id)
    (row : Option EndpointRow) :
    (batch.map (Write.claim · call)).foldl (fun old w => w.onEndpoint id old) row = row := by
  induction batch with
  | nil => rfl
  | cons event rest ih => exact ih

theorem Effect.endpoint {config : Config} {db : Db} {ws : List Write} (effect : Effect config db ws)
    (id : Id) :
    EndpointStep config db ws id (db.endpoints.row id) ((applyAll ws db).endpoints.row id) := by
  rw [endpoints_applyAll]
  cases effect with
  | claim =>
    rw [claim_onEndpoint]
    exact .same
  | @register key row absent version previous issued =>
    by_cases own : key = id
    · cases own
      simpa [Write.onEndpoint, absent] using EndpointStep.registered previous (version ▸ issued)
    · simpa [Write.onEndpoint, own] using EndpointStep.same
  | @rotate key row rotation rotates =>
    by_cases own : key = id
    · cases own
      simpa [Write.onEndpoint, rotates.stored] using EndpointStep.rotated List.mem_cons_self rotates
    · simpa [Write.onEndpoint, own] using EndpointStep.same
  | @disable key =>
    by_cases own : key = id
    · cases own
      cases stored : db.endpoints.row id with
      | none => simpa [Write.onEndpoint] using EndpointStep.same
      | some row => simpa [Write.onEndpoint] using EndpointStep.disabled
    · simpa [Write.onEndpoint, own] using EndpointStep.same
  | _ => exact .same

structure EndpointRow.Issued (config : Config) (id : Id) (row : EndpointRow) : Prop where
  current : row.secretFingerprint =
    config.keys.fingerprint (config.keys.derive row.secretVersion row.merchantId id)
  previous : ∀ p, row.previous = some p →
    p.fingerprint = config.keys.fingerprint (config.keys.derive p.version row.merchantId id)

structure EndpointRow.Precedes (old new : EndpointRow) : Prop where
  version : old.secretVersion ≤ new.secretVersion
  previous : old.secretVersion = new.secretVersion → new.previous = old.previous

theorem EndpointRow.Precedes.trans {a b c : EndpointRow} (first : a.Precedes b)
    (second : b.Precedes c) : a.Precedes c := by
  have := first.version
  have := second.version
  refine ⟨by omega, fun same => ?_⟩
  rw [second.previous (by omega), first.previous (by omega)]

def Db.IssuedAt (config : Config) (id : Id) (db : Db) : Prop :=
  ∀ row, db.endpoints.row id = some row → row.Issued config id

def Db.PrecedesAt (id : Id) (a b : Db) : Prop :=
  ∀ row, a.endpoints.row id = some row → ∃ row', b.endpoints.row id = some row' ∧ row.Precedes row'

section Steps
variable {config : Config} {db : Db} {ws : List Write} {id : Id}

theorem Db.PrecedesAt.refl (db : Db) : db.PrecedesAt id db :=
  fun row stored => ⟨row, stored, Nat.le_refl _, fun _ => rfl⟩

theorem Effect.issuedAt (effect : Effect config db ws) (issued : db.IssuedAt config id) :
    (applyAll ws db).IssuedAt config id := by
  intro row' stored'
  have step := effect.endpoint id
  rw [stored'] at step
  generalize before : db.endpoints.row id = old at step
  cases step with
  | same => exact issued row' before
  | registered previous fingerprint => exact ⟨fingerprint, by simp [previous]⟩
  | disabled => exact ⟨(issued _ before).current, (issued _ before).previous⟩
  | rotated rotates from_ =>
    refine ⟨from_.issued, ?_⟩
    rintro _ ⟨⟩
    simp only [EndpointRow.rotate]
    rw [← from_.fingerprint, ← from_.version]
    exact (issued _ before).current

theorem Effect.precedesAt (effect : Effect config db ws) {past : Db}
    (before : past.PrecedesAt id db) :
    past.PrecedesAt id (applyAll ws db) := by
  intro row stored
  obtain ⟨row', stored', precedes⟩ := before row stored
  have step := effect.endpoint id
  rw [stored'] at step
  generalize (applyAll ws db).endpoints.row id = new at step
  cases step with
  | same => exact ⟨row', rfl, precedes⟩
  | disabled => exact ⟨_, rfl, precedes.version, precedes.previous⟩
  | @rotated _ rotation rotates from_ =>
    refine ⟨_, rfl, precedes.trans ⟨?_, fun same => ?_⟩⟩
    · have := from_.version
      have := from_.next
      simp only [EndpointRow.rotate]
      omega
    · have := from_.version
      have := from_.next
      simp only [EndpointRow.rotate] at same
      omega

end Steps

section Runs
variable {config : Config} {allow : Outbox → Event Request → Prop} {s s' : Outbox} {id : Id}

structure Db.EndpointPast (config : Config) (id : Id) (past db : Db) : Prop where
  issued : past.IssuedAt config id
  precedes : past.PrecedesAt id db

theorem outbox_endpoints (reached : (outbox config).Reached allow s) (id : Id) :
    s.Remembers fun m => Db.EndpointPast config id m.db s.db := by
  have start : ({} : Db).IssuedAt config id := by
    intro row stored
    cases stored
  have kept : s.db.IssuedAt config id ∧ (s.Remembers fun m => Db.EndpointPast config id m.db s.db) ∧
      s.Ordered (Db.EndpointPast config id) := by
    refine (outbox config).keeps_ordered reached start (fun db issued => ⟨issued, .refl db⟩) ?_
    intro s e log ws before allowed commits _ effect issued _ _
    exact ⟨Effect.issuedAt effect issued, fun d past =>
      ⟨past.issued, Effect.precedesAt effect past.precedes⟩⟩
  exact kept.2.1

end Runs

def Watch.loads : Watch → Bool
  | .endpoints _ _ => true
  | _ => false

def Write.rotation : Write → Option (Id × Rotation)
  | .rotate id rotation => some (id, rotation)
  | _ => none

structure OrderlyRotation (s : Outbox) (id : Id) (rotation : Rotation) : Prop where
  ended : ∀ row ∈ s.db.endpoints.row id, ∀ previous ∈ row.previous, previous.validUntil ≤ s.now
  loaded : ∀ c ∈ s.sessions, c.running = true → ∀ x ∈ c.log, x.1.loads = true →
    ∀ row ∈ x.2.db.endpoints.row id, row.secretVersion = rotation.fromVersion
  waiting : ∀ c ∈ s.sessions, c.running = true → ∀ m ∈ c.snapshot,
    ∀ row ∈ m.db.endpoints.row id, row.secretVersion = rotation.fromVersion

def OrderlyRotations (s : Outbox) (e : Event Request) : Prop :=
  ∀ c ∈ s.committing e, ∀ r ∈ c.2.filterMap Write.rotation, OrderlyRotation s r.1 r.2

instance (s : Outbox) (id : Id) (rotation : Rotation) : Decidable (OrderlyRotation s id rotation) :=
  decidable_of_iff
    ((∀ row ∈ s.db.endpoints.row id, ∀ previous ∈ row.previous, previous.validUntil ≤ s.now) ∧
      (∀ c ∈ s.sessions, c.running = true → ∀ x ∈ c.log, x.1.loads = true →
        ∀ row ∈ x.2.db.endpoints.row id, row.secretVersion = rotation.fromVersion) ∧
      ∀ c ∈ s.sessions, c.running = true → ∀ m ∈ c.snapshot,
        ∀ row ∈ m.db.endpoints.row id, row.secretVersion = rotation.fromVersion)
    ⟨fun all => ⟨all.1, all.2.1, all.2.2⟩, fun all => ⟨all.ended, all.loaded, all.waiting⟩⟩

instance (s : Outbox) (e : Event Request) : Decidable (OrderlyRotations s e) :=
  inferInstanceAs (Decidable (∀ c ∈ s.committing e, ∀ r ∈ c.2.filterMap Write.rotation,
    OrderlyRotation s r.1 r.2))

/-- The version of the endpoint's secret is at least `version`. -/
def Db.VersionAtLeast (id : Id) (version : Nat) (db : Db) : Prop :=
  ∀ row, db.endpoints.row id = some row → version ≤ row.secretVersion

/-- The session has loaded the endpoints under no version below `version`, and waits since
    no time before it. -/
structure LoadedSince (id : Id) (version : Nat) (c : Worker) : Prop where
  log : ∀ x ∈ c.log, x.1.loads = true → x.2.db.VersionAtLeast id version
  snapshot : ∀ m, c.snapshot = some m → m.db.VersionAtLeast id version

theorem LoadedSince.record {id : Id} {version : Nat} {c : Worker}
    (loaded : LoadedSince id version c)
    {tag : Option Watch} {m : Moment Db} (new : m.db.VersionAtLeast id version) :
    ∀ x ∈ record tag m c.log, x.1.loads = true → x.2.db.VersionAtLeast id version := by
  cases tag with
  | none => exact loaded.log
  | some t =>
    intro x mem loads
    rcases List.mem_cons.mp mem with rfl | old
    · exact new
    · exact loaded.log x old loads

theorem LoadedSince.proceeds {id : Id} {version : Nat} {c c' : Worker}
    (loaded : LoadedSince id version c) (proceeds : c.Proceeds (Db.VersionAtLeast id version) c') :
    LoadedSince id version c' := by
  cases proceeds with
  | read code m holds => exact ⟨loaded.record holds, loaded.snapshot⟩
  | waits m holds =>
    refine ⟨loaded.log, ?_⟩
    rintro _ ⟨⟩
    exact holds
  | granted code waiting db holds grant =>
    exact ⟨loaded.record (loaded.snapshot _ waiting), by simp⟩
  | tick code m holds => exact ⟨loaded.record holds, loaded.snapshot⟩
  | abort => exact ⟨loaded.log, by simp⟩
  | _ => exact ⟨loaded.log, loaded.snapshot⟩

/-- The states after a rotation from `s₀` to `s₁`. -/
structure Rotated (s₀ s₁ : Outbox) (id : Id) (rotation : Rotation) (s : Outbox) : Prop where
  grown : s₁.db.PrecedesAt id s.db
  late : ∀ row, s.db.endpoints.row id = some row → rotation.newVersion < row.secretVersion →
    rotation.validUntil ≤ s.now
  remembered : s.Remembers fun m => m.db.PrecedesAt id s₀.db ∨ s₁.db.PrecedesAt id m.db ∧
    ∀ row, m.db.endpoints.row id = some row → rotation.newVersion < row.secretVersion →
      rotation.validUntil ≤ m.now
  loaded : ∀ (i : Nat) (c : Worker), s.sessions[i]? = some c →
    (∃ c₁, s₁.sessions[i]? = some c₁ ∧ c.Ended ∧ c.log = c₁.log) ∨
      LoadedSince id rotation.fromVersion c

section After
variable {config : Config} {allow : Outbox → Event Request → Prop} {s₀ s₁ s s' : Outbox}
  {e : Event Request} {log : Log Db Watch} {ws : List Write} {id : Id} {rotation : Rotation}

theorem rotation_stored (reached : (outbox config).Reached allow s₀)
    (commits : s₀.committing e = some (log, ws)) (rotates : .rotate id rotation ∈ ws)
    (taken : s₀.step (program config) e = some s₁) : ∃ row, s₀.db.Rotates config id rotation row ∧
      s₁.db.endpoints.row id = some (row.rotate rotation) := by
  have effect := (outbox_commits reached commits).2
  rcases System.step_db taken with ⟨none, _⟩ | ⟨_, _, commits', moved⟩
  · cases none.symm.trans commits
  cases commits'.symm.trans commits
  cases effect with
  | @rotate key row rotation' from_ =>
    obtain ⟨rfl, rfl⟩ := Write.rotate.inj (List.mem_singleton.mp rotates)
    refine ⟨row, from_, ?_⟩
    rw [moved, endpoints_applyAll]
    simp [Write.onEndpoint, from_.stored]
  | claim => simp at rotates
  | _ => simp at rotates

theorem Rotated.start (reached : (outbox config).Reached allow s₀)
    (commits : s₀.committing e = some (log, ws)) (rotates : .rotate id rotation ∈ ws)
    (orderly : OrderlyRotation s₀ id rotation) (taken : s₀.step (program config) e = some s₁) :
    Rotated s₀ s₁ id rotation s₁ := by
  obtain ⟨row, from_, stored⟩ := rotation_stored reached commits rotates taken
  refine ⟨.refl _, ?_, ?_, ?_⟩
  · intro row' stored' newer
    cases stored.symm.trans stored'
    exact absurd newer (Nat.lt_irrefl _)
  · have past := (outbox_endpoints reached id).mono fun m past => past.precedes
    exact System.Remembers.step (past.mono fun m => .inl) taken (.inl (.refl _)) (.inl (.refl _))
  · intro i c found
    by_cases ended : c.Ended
    · exact .inl ⟨c, found, ended, rfl⟩
    have least : s₀.db.VersionAtLeast id rotation.fromVersion := by
      intro row' stored'
      cases from_.stored.symm.trans stored'
      exact from_.version.ge
    rcases System.step_session least taken found with ⟨q, rfl⟩ | ⟨d, there, proceeds⟩
    · exact .inr ⟨by simp, by simp⟩
    have alive : ¬d.Ended := by
      intro over_
      rcases proceeds with rfl | proceeds
      · exact ended over_
      · exact ended (over_.proceeds proceeds).1
    have mem := List.mem_of_getElem? there
    have loaded : LoadedSince id rotation.fromVersion d := by
      refine ⟨fun x listed loads row stored => ?_, fun m waiting row stored => ?_⟩
      · exact (orderly.loaded d mem (Session.running_iff.mpr alive) x listed loads row stored).ge
      · exact (orderly.waiting d mem (Session.running_iff.mpr alive) m waiting row stored).ge
    rcases proceeds with rfl | proceeds
    · exact .inr loaded
    · exact .inr (loaded.proceeds proceeds)

theorem Rotated.late_commit (rotated : Rotated s₀ s₁ id rotation s) {row₁ : EndpointRow}
    (stored₁ : s₁.db.endpoints.row id = some (row₁.rotate rotation))
    (effect : Effect config s.db ws) (orderly : ∀ r ∈ ws.filterMap Write.rotation,
      OrderlyRotation s r.1 r.2) {row : EndpointRow}
    (after : (applyAll ws s.db).endpoints.row id = some row)
    (newer : rotation.newVersion < row.secretVersion) : rotation.validUntil ≤ s.now := by
  obtain ⟨row', stored', precedes⟩ := rotated.grown _ stored₁
  have step := effect.endpoint id
  rw [stored', after] at step
  cases step with
  | same => exact rotated.late _ stored' newer
  | disabled => exact rotated.late _ stored' newer
  | @rotated _ again rotates from_ =>
    by_cases more : rotation.newVersion < row'.secretVersion
    · exact rotated.late _ stored' more
    · -- it replaces the version that the rotation set, and finds its transition period
      have version : rotation.newVersion ≤ row'.secretVersion := precedes.version
      have previous := precedes.previous (by simp only [EndpointRow.rotate]; omega)
      have listed : (id, again) ∈ ws.filterMap Write.rotation :=
        List.mem_filterMap.mpr ⟨_, rotates, rfl⟩
      exact (orderly _ listed).ended row' stored' _ previous

theorem Rotated.step (rotated : Rotated s₀ s₁ id rotation s)
    (reached : (outbox config).Reached allow s) {row₁ : EndpointRow}
    (stored₁ : s₁.db.endpoints.row id = some (row₁.rotate rotation))
    (next : rotation.newVersion = rotation.fromVersion + 1) (forward : s.Forward e)
    (orderly : OrderlyRotations s e) (taken : s.step (program config) e = some s') :
    Rotated s₀ s₁ id rotation s' := by
  have le := forward.le taken
  have here := And.intro rotated.grown rotated.late
  have there : s₁.db.PrecedesAt id s.db ∧ ∀ row, s.db.endpoints.row id = some row →
      rotation.newVersion < row.secretVersion → rotation.validUntil ≤ s'.now :=
    ⟨rotated.grown, fun row stored newer => Int.le_trans (rotated.late row stored newer) le⟩
  have least : s.db.VersionAtLeast id rotation.fromVersion := by
    intro row stored
    obtain ⟨row', stored', precedes⟩ := rotated.grown _ stored₁
    cases stored.symm.trans stored'
    have version : rotation.newVersion ≤ row.secretVersion := precedes.version
    omega
  have store : s₁.db.PrecedesAt id s'.db ∧ ∀ row, s'.db.endpoints.row id = some row →
      rotation.newVersion < row.secretVersion → rotation.validUntil ≤ s'.now := by
    rcases System.step_db taken with ⟨_, same⟩ | ⟨log, ws, commits, moved⟩
    · rw [same]
      exact there
    · have effect := (outbox_commits reached commits).2
      rw [moved]
      refine ⟨effect.precedesAt rotated.grown, fun row after newer => Int.le_trans ?_ le⟩
      exact rotated.late_commit stored₁ effect (orderly _ commits) after newer
  refine ⟨store.1, store.2, ?_, ?_⟩
  · exact rotated.remembered.step taken (.inr here) (.inr there)
  · intro i c found
    rcases System.step_session least taken found with ⟨q, rfl⟩ | ⟨d, stored, proceeds⟩
    · exact .inr ⟨by simp, by simp⟩
    rcases rotated.loaded i d stored with ⟨c₁, there₁, ended, same⟩ | loaded
    · rcases proceeds with rfl | proceeds
      · exact .inl ⟨c₁, there₁, ended, same⟩
      · obtain ⟨over_, log⟩ := ended.proceeds proceeds
        exact .inl ⟨c₁, there₁, over_, log.trans same⟩
    · rcases proceeds with rfl | proceeds
      · exact .inr loaded
      · exact .inr (loaded.proceeds proceeds)

theorem mem_activeEndpoints {db : Db} {order : RowOrder Id} {at_ : Int} {merchantId : Id}
    {endpoint : WebhookEndpoint} (mem : endpoint ∈ db.activeEndpoints order at_ merchantId) :
    ∃ row, db.endpoints.row endpoint.id = some row ∧ endpoint.merchantId = row.merchantId ∧
      endpoint.secretVersion = row.secretVersion ∧
      endpoint.previousSecret = (row.previous.filter fun p => decide (at_ < p.validUntil)).map
        fun p => ⟨p.version, p.fingerprint⟩ := by
  obtain ⟨⟨key, row⟩, listed, rfl⟩ := List.mem_map.mp mem
  rw [List.mem_insertionSort, List.mem_insertionSort, List.mem_filter, Table.mem_entries] at listed
  exact ⟨row, listed.1, rfl, rfl, rfl⟩

theorem mem_signing_current (endpoint : WebhookEndpoint) :
    endpoint.secret config endpoint.secretVersion ∈ endpoint.signing config := List.mem_cons_self

theorem mem_signing_previous {endpoint : WebhookEndpoint} {previous : PreviousSecret}
    (loaded : endpoint.previousSecret = some previous) (issued : previous.fingerprint =
      config.keys.fingerprint (endpoint.secret config previous.version)) :
    endpoint.secret config previous.version ∈ endpoint.signing config := by
  simp [WebhookEndpoint.signing, loaded, issued]

theorem call_loaded {c : Worker} {call : Call} (conducted : c.Conducted (Move config))
    (timed : c.Chronicle fun a b => a.now ≤ b.now) (made : call ∈ calls c.log) :
    ∃ (merchantId : Id) (order : RowOrder Id) (asOf loading : Moment Db),
      (Watch.endpoints merchantId asOf.now, loading) ∈ c.log ∧
      call.endpoint ∈ loading.db.activeEndpoints order asOf.now merchantId ∧
      asOf.now ≤ call.signedAt ∧ loading.now ≤ call.signedAt ∧
      call.signature = signEventWithAll config.keys (call.endpoint.signing config)
        (unixTimestamp call.signedAt) (envelope call.event) := by
  obtain ⟨⟨tag, m⟩, listed, eq⟩ := List.mem_filterMap.mp made
  cases tag <;> cases eq
  obtain ⟨newer, older, split⟩ := List.append_of_mem listed
  have calls := conducted_call conducted split
  obtain ⟨merchantId, order, asOf, loading, signing, _, sub, member, signed⟩ := calls.signed
  have part : older.Sublist c.log := by
    rw [split]
    exact (List.sublist_cons_self _ _).trans (List.sublist_append_right _ _)
  have whole := (sub.trans List.filter_sublist).trans part
  have times := timed.log.sublist whole
  simp only [List.pairwise_cons, List.mem_cons, List.not_mem_nil, or_false, forall_eq_or_imp,
    forall_eq] at times
  rw [signed]
  exact ⟨merchantId, order, asOf, loading, whole.subset (by simp), member, times.1.2, times.1.1,
    signed ▸ calls.signature⟩

theorem Rotated.signs (rotated : Rotated s₀ s₁ id rotation s)
    (reached : (outbox config).Reached allow s) (forward : ∀ s e, allow s e → s.Forward e)
    {row : EndpointRow} (from_ : s₀.db.Rotates config id rotation row)
    (stored₁ : s₁.db.endpoints.row id = some (row.rotate rotation)) {i : Nat} {c : Worker}
    {call : Call} (found : s.sessions[i]? = some c) (made : call ∈ calls c.log)
    (since : ∀ c₁, s₁.sessions[i]? = some c₁ → call ∉ calls c₁.log)
    (own : call.endpoint.id = id) (early : call.signedAt < rotation.validUntil) :
    config.keys.mac (call.endpoint.secret config rotation.fromVersion)
      (unixTimestamp call.signedAt) (envelope call.event) ∈ call.signature.v1 := by
  have mem := List.mem_of_getElem? found
  obtain ⟨merchantId, order, asOf, loading, listed, member, asOf_le, loading_le, signature⟩ :=
    call_loaded (reached.conducted (program_acts config) rfl found)
      ((reached.timed forward rfl).2 c mem) made
  rw [signature]
  refine List.mem_map.mpr ⟨_, ?_, rfl⟩
  have loaded : LoadedSince id rotation.fromVersion c := by
    rcases rotated.loaded i c found with ⟨c₁, there, _, same⟩ | loaded
    · exact absurd (same ▸ made) (since c₁ there)
    · exact loaded
  obtain ⟨current, stored, merchant, version, previous⟩ := mem_activeEndpoints member
  rw [own] at stored
  have least := loaded.log _ listed rfl current stored
  rcases (rotated.remembered c mem).log _ listed with before | ⟨after, late⟩
  · -- loaded before the rotation: the replaced version was the current one
    obtain ⟨row', stored', precedes⟩ := before current stored
    cases stored'.symm.trans from_.stored
    have eq : call.endpoint.secretVersion = rotation.fromVersion := by
      have := precedes.version
      have := from_.version
      omega
    exact eq ▸ mem_signing_current call.endpoint
  · -- loaded after it: the replaced version is the previous one
    obtain ⟨row', stored', precedes⟩ := after _ stored₁
    cases stored'.symm.trans stored
    have same : (row.rotate rotation).secretVersion = current.secretVersion := by
      have once : ¬rotation.newVersion < current.secretVersion := by
        intro newer
        have : rotation.validUntil ≤ loading.now := late current stored newer
        omega
      have : rotation.newVersion ≤ current.secretVersion := precedes.version
      simp only [EndpointRow.rotate]
      omega
    have old := precedes.previous same
    have issued := ((outbox_endpoints reached id c mem).log _ listed).issued current stored
    have signs : asOf.now < rotation.validUntil := by omega
    have carried : call.endpoint.previousSecret =
        some ⟨rotation.fromVersion, rotation.previousFingerprint⟩ := by
      rw [previous, old]
      simp [EndpointRow.rotate, signs]
    refine mem_signing_previous carried ?_
    simp only [WebhookEndpoint.secret, merchant, own]
    exact issued.previous _ old

end After

/-- A version is replaced once. Where rotations are orderly, the replaced version signs
    every delivery until the time that the rotation promised. -/
theorem transition_kept (config : Config) {allow : Outbox → Event Request → Prop}
    {s₀ s₁ s : Outbox} {e : Event Request} {log : Log Db Watch} {ws : List Write} {id : Id}
    {rotation : Rotation} (reached : (outbox config).Reached allow s₀)
    (commits : s₀.committing e = some (log, ws)) (rotates : .rotate id rotation ∈ ws)
    (allowed : allow s₀ e) (taken : s₀.step (program config) e = some s₁)
    (later : System.Reach (program config) allow s₁ s) :
    ((∀ s e, allow s e → s.Forward e) → (∀ s e, allow s e → OrderlyRotations s e) →
      ∀ (i : Nat) (c : Worker) (call : Call), s.sessions[i]? = some c → call ∈ calls c.log →
      (∀ c₁, s₁.sessions[i]? = some c₁ → call ∉ calls c₁.log) → call.endpoint.id = id →
      call.signedAt < rotation.validUntil →
      config.keys.mac (call.endpoint.secret config rotation.fromVersion)
        (unixTimestamp call.signedAt) (envelope call.event) ∈ call.signature.v1) ∧
    ∀ e log ws again, s.committing (Q := Request) e = some (log, ws) → .rotate id again ∈ ws →
      again.fromVersion ≠ rotation.fromVersion := by
  obtain ⟨row, from_, stored₁⟩ := rotation_stored reached commits rotates taken
  have started : (outbox config).Reached allow s₁ := .step reached taken allowed
  have there := started.trans later
  constructor
  · intro forward orderly i c call found made since own early
    have rotated : Rotated s₀ s₁ id rotation s := by
      have first := orderly _ _ allowed _ commits (id, rotation)
        (List.mem_filterMap.mpr ⟨_, rotates, rfl⟩)
      clear found made there
      induction later with
      | refl => exact .start reached commits rotates first taken
      | step before taken' allowed' ih =>
        exact ih.step (started.trans before) stored₁ from_.next (forward _ _ allowed')
          (orderly _ _ allowed') taken'
    exact rotated.signs there forward from_ stored₁ found made since own early
  · intro e' log' ws' again commits' rotates' same
    have grown : s₁.db.PrecedesAt id s.db := (outbox config).keeps_later
      (P := fun db => s₁.db.PrecedesAt id db) started (.refl _)
      (fun _ _ _ _ _ _ _ effect here => effect.precedesAt here) later
    obtain ⟨row', stored', precedes⟩ := grown _ stored₁
    have effect := (outbox_commits there commits').2
    cases effect with
    | @rotate key current rotation' now_ =>
      obtain ⟨rfl, rfl⟩ := Write.rotate.inj (List.mem_singleton.mp rotates')
      cases stored'.symm.trans now_.stored
      have := now_.version
      have := from_.next
      have : rotation.newVersion ≤ row'.secretVersion := precedes.version
      omega
    | claim => simp at rotates'
    | _ => simp at rotates'

namespace Sample

def forwardStep (s : Outbox) (e : Event Request) : Prop := s.Forward e

instance (s : Outbox) (e : Event Request) : Decidable (forwardStep s e) :=
  inferInstanceAs (Decidable (s.Forward e))

def orderlyStep (s : Outbox) (e : Event Request) : Prop := s.Forward e ∧ OrderlyRotations s e

instance (s : Outbox) (e : Event Request) : Decidable (orderlyStep s e) :=
  inferInstanceAs (Decidable (s.Forward e ∧ OrderlyRotations s e))

def hour : Int := seconds 3600

def rotating : List (Slice Request) :=
  prepared ++ [.start (.rotate ['a'] 1 hour ['r']), .work 2 (seconds 10) 4]

def rotatedOnce : List (Slice Request) := rotating ++ [.work 2 (seconds 10) 1]

def firstRotation : Rotation := ⟨1, ['s'], 2, ['s', 's'], seconds 3610⟩

def thenRotated : List (Slice Request) :=
  whole 3 (seconds 20) (.rotate ['a'] 1 hour ['r']) ++ whole 4 (seconds 30) (.deliverDue 1)

def thenDelivered : List (Slice Request) := whole 3 (seconds 30) (.deliverDue 1)

/-- The second rotation comes ten seconds after the first one, and the delivery after it is
    not signed with the version that was to sign for an hour. -/
theorem transition_broken : ∃ (s₀ s₁ s : Outbox) (e : Event Request) (log : Log Db Watch)
    (ws : List Write) (c : Worker) (call : Call), (outbox config).Reached forwardStep s₀ ∧
    s₀.committing e = some (log, ws) ∧ .rotate 1 firstRotation ∈ ws ∧
    s₀.step (program config) e = some s₁ ∧ System.Reach (program config) forwardStep s₁ s ∧
    s.sessions[4]? = some c ∧ call ∈ calls c.log ∧ s₁.sessions[4]? = none ∧
    call.endpoint.id = 1 ∧ call.signedAt < firstRotation.validUntil ∧
    config.keys.mac (call.endpoint.secret config firstRotation.fromVersion)
      (unixTimestamp call.signedAt) (envelope call.event) ∉ call.signature.v1 := by
  obtain ⟨log, ws, commits, rotates⟩ := System.committing_any
    (s := (outbox config).after forwardStep rotating) (e := Event.run (Q := Request) 2)
    (p := fun c => decide (.rotate 1 firstRotation ∈ c.2)) (by decide +kernel)
  have sent : ((outbox config).after forwardStep (rotatedOnce ++ thenRotated)).sessions[4]?.any
      (fun c => (calls c.log).any fun call => decide (call.endpoint.id = 1 ∧
        call.signedAt < firstRotation.validUntil ∧
        config.keys.mac (call.endpoint.secret config firstRotation.fromVersion)
          (unixTimestamp call.signedAt) (envelope call.event) ∉ call.signature.v1)) = true := by
    decide +kernel
  obtain ⟨c, found, some_⟩ := any_some sent
  obtain ⟨call, made, facts⟩ := List.any_eq_true.mp some_
  have alone : ((outbox config).after forwardStep rotatedOnce).sessions.length = 3 := by
    decide +kernel
  have nobody : ((outbox config).after forwardStep rotatedOnce).sessions[4]? = none :=
    List.getElem?_eq_none (by rw [alone]; decide)
  exact ⟨_, _, _, .run 2, log, ws, c, call, (outbox config).after_reached forwardStep rotating,
    commits, of_decide_eq_true rotates,
    (outbox config).after_run forwardStep rotating (seconds 10) (by decide +kernel)
      (by decide +kernel),
    (outbox config).after_later forwardStep rotatedOnce thenRotated, found, made,
    nobody, of_decide_eq_true facts⟩

theorem transition_kept_once : ∃ (c : Worker) (call : Call),
    ((outbox config).after orderlyStep (rotatedOnce ++ thenDelivered)).sessions[3]? = some c ∧
    call ∈ calls c.log ∧ config.keys.mac (call.endpoint.secret config firstRotation.fromVersion)
      (unixTimestamp call.signedAt) (envelope call.event) ∈ call.signature.v1 := by
  obtain ⟨log, ws, commits, rotates⟩ := System.committing_any
    (s := (outbox config).after orderlyStep rotating) (e := Event.run (Q := Request) 2)
    (p := fun c => decide (.rotate 1 firstRotation ∈ c.2)) (by decide +kernel)
  have sent : ((outbox config).after orderlyStep (rotatedOnce ++ thenDelivered)).sessions[3]?.any
      (fun c => (calls c.log).any fun call => decide (call.endpoint.id = 1 ∧
        call.signedAt < firstRotation.validUntil)) = true := by decide +kernel
  obtain ⟨c, found, some_⟩ := any_some sent
  obtain ⟨call, made, facts⟩ := List.any_eq_true.mp some_
  obtain ⟨own, early⟩ := of_decide_eq_true facts
  have alone : ((outbox config).after orderlyStep rotatedOnce).sessions.length = 3 := by
    decide +kernel
  have nobody : ((outbox config).after orderlyStep rotatedOnce).sessions[3]? = none :=
    List.getElem?_eq_none (by rw [alone])
  refine ⟨c, call, found, made, (transition_kept config
    ((outbox config).after_reached orderlyStep rotating) commits
    (of_decide_eq_true rotates) (by decide +kernel)
    ((outbox config).after_run orderlyStep rotating (seconds 10) (by decide +kernel)
      (by decide +kernel)) ((outbox config).after_later orderlyStep rotatedOnce thenDelivered)).1
    (fun _ _ both => both.1) (fun _ _ both => both.2) 3 c call found made ?_ own early⟩
  intro c₁ there
  cases nobody.symm.trans there

end Sample
end CryptoGateway.Webhooks
