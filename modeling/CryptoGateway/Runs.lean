import CryptoGateway.Engine.Service
import CryptoGateway.Refinement.Gateway

/-!
Every run of the gateway keeps the contract, and what the permitted effects keep
holds in every database a run reaches.
-/
namespace CryptoGateway
open Engine

section
variable {config : Config} {allow : Gateway → Event Request → Prop} {s : Gateway}

theorem program_safe (config : Config) (request : Request) (db : Db)
    (sane : (contract config).inv db) :
    wp (contract config) (program config request) (fun _ _ => True) (fun _ _ => True)
      ⟨[], [], [], db⟩ :=
  wp_mono (program_refines request [] db sane) (fun _ _ _ => trivial) fun _ _ _ => trivial

theorem initial_sane (config : Config) : (contract config).inv Gateway.initial.db :=
  Sane.empty config

def gatewayService (config : Config) : Service Db Write Row Watch Failure Response Request where
  spec := contract config
  program := program config
  init := Gateway.initial
  safe := program_safe config
  sane := initial_sane config
  idle := rfl

variable {request : Request} {i : Nat} {P : Db → Prop} {log : Log Db Watch}
  {C : Log Db Watch → List Write → Prop}

theorem Reached.keeps (reached : Reached config allow s) (start : P {})
    (keep : ∀ s e log ws, Reached config allow s → allow s e → s.committing e = some (log, ws) →
      Sane config s.db → Effect config log s.db ws → P s.db → P (applyAll ws s.db)) : P s.db :=
  (gatewayService config).keeps reached start keep

theorem Reached.sound (reached : Reached config allow s) : Sound (contract config) s :=
  (gatewayService config).sound reached

theorem Reached.sane (reached : Reached config allow s) : Sane config s.db := reached.sound.inv

theorem Reached.effect (reached : Reached config allow s) {e : Event Request} {ws : List Write}
    (commits : s.committing e = some (log, ws)) :
    Effect config log s.db ws := reached.sound.effect commits

theorem Reached.keeps_onCommit {ok : Log Db Watch → Db → List Write → Prop}
    (reached : Reached config (OnCommit ok) s) (start : P {})
    (keep : ∀ log db ws, Sane config db → Effect config log db ws → ok log db ws → P db →
      P (applyAll ws db)) : P s.db :=
  reached.keeps start fun s _ log ws _ allowed commits sane eff holds =>
    keep log s.db ws sane eff (allowed log ws commits) holds

theorem Reached.keeps_ordered {Rel : Db → Db → Prop}
    (reached : Reached config allow s) (start : P {}) (refl : ∀ db, P db → Rel db db)
    (keep : ∀ s e log ws, Reached config allow s → allow s e → s.committing e = some (log, ws) →
      Sane config s.db → Effect config log s.db ws → P s.db → (∀ x ∈ log, Rel x.2.db s.db) →
      (log.Pairwise fun newer older => Rel older.2.db newer.2.db) →
      P (applyAll ws s.db) ∧ ∀ d, Rel d s.db → Rel d (applyAll ws s.db)) :
    P s.db ∧ (s.Remembers fun m => Rel m.db s.db) ∧ s.Ordered Rel :=
  (gatewayService config).keeps_ordered reached start refl keep

theorem Reached.later (reached : Reached config allow s) {s' : Gateway}
    (later : System.Reach (program config) allow s s') : Reached config allow s' :=
  reached.trans later

theorem Reached.keeps_later (reached : Reached config allow s) (now : P s.db)
    (keep : ∀ s e log ws, Reached config allow s → allow s e → s.committing e = some (log, ws) →
      Effect config log s.db ws → P s.db → P (applyAll ws s.db)) {s' : Gateway}
    (later : System.Reach (program config) allow s s') : P s'.db :=
  (gatewayService config).keeps_later reached now keep later

/-- Session `i` was started for the request, earlier in the run. -/
def Serves (config : Config) (allow : Gateway → Event Request → Prop) (request : Request)
    (s : Gateway) (i : Nat) : Prop :=
  ∃ before after, Reached config allow before ∧ allow before (.spawn request) ∧
    before.step (program config) (.spawn request) = some after ∧ i = before.sessions.length ∧
    System.Reach (program config) allow after s

def ServesSince (config : Config) (allow : Gateway → Event Request → Prop) (request : Request)
    (start s : Gateway) (i : Nat) : Prop :=
  Reached config allow start ∧ i = start.sessions.length ∧ allow start (.spawn request) ∧
    System.Reach (program config) allow { start with
      sessions := start.sessions ++ [{ code := some (program config request) }] } s

theorem Serves.served (serves : Serves config allow request s i) :
    (gatewayService config).Serves allow request s i := serves

theorem Serves.reached (serves : Serves config allow request s i) : Reached config allow s :=
  serves.served.reached

theorem Serves.later {s' : Gateway} (serves : Serves config allow request s i)
    (later : System.Reach (program config) allow s s') : Serves config allow request s' i :=
  serves.served.later later

theorem ServesSince.reached {start : Gateway}
    (serves : ServesSince config allow request start s i) : Reached config allow s := by
  obtain ⟨reached, _, allowed, later⟩ := serves
  exact Reached.later (.step reached rfl allowed) later

theorem Serves.shows_ (serves : Serves config allow request s i)
    {J : Session Db Write Row Watch Failure Response → Prop}
    (start : J { code := some (program config request) })
    (closed : ∀ c c', J c → c.Follows c' → J c') : s.Shows J i := serves.served.shows_ start closed

theorem Serves.assured (serves : Serves config allow request s i)
    {post : Response → Log Db Watch → Db → Prop} {fault : Failure → Log Db Watch → Db → Prop}
    (lasting : Lasting (contract config) post fault)
    (ready : ∀ db, Sane config db → wp (contract config) (program config request)
      (fun a c => post a c.log c.db) (fun e c => fault e c.log c.db) ⟨[], [], [], db⟩) :
    s.Shows (Assured (contract config) post fault s.db) i := serves.served.assured lasting ready

theorem does_answer {ε α : Type} {wrap : ε → Failure} {respond : α → Response} {job : Job ε α}
    {Q : α → Log Db Watch → List Write → Prop} {E : ε → Log Db Watch → List Write → Prop}
    {Q' : Response → Log Db Watch → List Write → Prop}
    {E' : Failure → Log Db Watch → List Write → Prop} {ws : List Write}
    (does : job.Does P C Q E log ws) (good : ∀ a log ws, Q a log ws → Q' (respond a) log ws)
    (bad : ∀ e log ws, E e log ws → E' (wrap e) log ws) :
    (answer wrap respond job).Does P C Q' E' log ws :=
  Proc.Does.bind (Proc.Does.mapError does bad) good

theorem Serves.doing (serves : Serves config allow request s i) {Q : Response → Log Db Watch →
    List Write → Prop}
    {E : Failure → Log Db Watch → List Write → Prop}
    (does : (program config request).Does (fun _ => True) C Q E [] []) :
    s.Shows (·.Doing (fun _ => True) C Q E) i := serves.served.doing does

theorem Serves.commits (serves : Serves config allow request s i) {ws : List Write}
    (does : (program config request).Does (fun _ => True) C (fun _ _ _ => True)
      (fun _ _ _ => True) [] [])
    (commits : s.committing (Event.run (Q := Request) i) = some (log, ws)) : C log ws :=
  (serves.doing does).doing_committing commits

end

abbrev anyStep : Gateway → Event Request → Prop := fun _ _ => True

def Gateway.after (config : Config) (allow : Gateway → Event Request → Prop)
    [∀ s e, Decidable (allow s e)] (slices : List (Slice Request)) : Gateway :=
  Gateway.initial.perform (program config) allow slices

theorem Gateway.after_reached (config : Config) (allow : Gateway → Event Request → Prop)
    [∀ s e, Decidable (allow s e)] (slices : List (Slice Request)) :
    Reached config allow (Gateway.after config allow slices) := .perform slices .refl

theorem Gateway.after_serves (config : Config) (allow : Gateway → Event Request → Prop)
    [∀ s e, Decidable (allow s e)] (slices rest : List (Slice Request)) (request : Request)
    (allowed : allow (Gateway.after config allow slices) (.spawn request)) :
    Serves config allow request (Gateway.after config allow (slices ++ .start request :: rest))
      (Gateway.after config allow slices).sessions.length :=
  (gatewayService config).after_serves allow slices rest request allowed

variable {i : Nat} {s : Gateway}

theorem Gateway.after_serves_at (config : Config) (allow : Gateway → Event Request → Prop)
    [∀ s e, Decidable (allow s e)] (slices rest : List (Slice Request)) (request : Request)
    (index : (Gateway.after config allow slices).sessions.length = i)
    (allowed : allow (Gateway.after config allow slices) (.spawn request)) :
    Serves config allow request (Gateway.after config allow (slices ++ .start request :: rest)) i :=
  index ▸ Gateway.after_serves config allow slices rest request allowed

theorem Gateway.after_later (config : Config) (allow : Gateway → Event Request → Prop)
    [∀ s e, Decidable (allow s e)] (slices rest : List (Slice Request)) :
    System.Reach (program config) allow (Gateway.after config allow slices)
      (Gateway.after config allow (slices ++ rest)) :=
  (gatewayService config).after_later allow slices rest

theorem Gateway.after_run (config : Config) (allow : Gateway → Event Request → Prop)
    [∀ s e, Decidable (allow s e)] (slices : List (Slice Request)) (t : Int)
    (allowed : allow (Gateway.after config allow slices) (.run i))
    (runs : ((Gateway.after config allow slices).step (program config) (.run i)).isSome = true) :
    (Gateway.after config allow slices).step (program config) (.run i) =
      some (Gateway.after config allow (slices ++ [.work i t 1])) :=
  (gatewayService config).after_run allow slices t allowed runs

/-- What process `i` has answered. -/
def Gateway.response (s : Gateway) (i : Nat) : Option Response :=
  match s.sessions[i]? with
  | some { code := some (.done response), .. } => some response
  | _ => none

theorem Gateway.response_eq_some {response : Response} (answered : s.response i = some response) :
    ∃ c, s.sessions[i]? = some c ∧ c.code = some (.done response) := by
  unfold Gateway.response at answered
  split at answered
  · rename_i found
    cases answered
    exact ⟨_, found, rfl⟩
  · cases answered

/-- What process `i` answers when it commits next. -/
def Gateway.offer (s : Gateway) (i : Nat) : Option Response :=
  match s.sessions[i]? with
  | some { code := some (.commit (.done response)), .. } => some response
  | _ => none

theorem Gateway.offer_eq_some {response : Response}
    (offers : s.offer i = some response) :
    s.Shows (·.code = some (.commit (.done response))) i := by
  unfold Gateway.offer at offers
  split at offers
  · rename_i found
    cases offers
    exact ⟨_, found, rfl⟩
  · cases offers

/-- What process `i` was refused with. -/
def Gateway.failure (s : Gateway) (i : Nat) : Option Failure :=
  match s.sessions[i]? with
  | some { code := some (.fail failure), .. } => some failure
  | _ => none

theorem Gateway.failure_eq_some {failure : Failure} (refused : s.failure i = some failure) :
    ∃ c, s.sessions[i]? = some c ∧ c.code = some (.fail failure) := by
  unfold Gateway.failure at refused
  split at refused
  · rename_i found
    cases refused
    exact ⟨_, found, rfl⟩
  · cases refused

theorem Gateway.not_ended
    (there : (s.sessions[i]?.bind (·.code)).isSome = true) (unanswered : s.response i = none)
    (unrefused : s.failure i = none) : ¬s.Shows Session.Ended i := by
  rintro ⟨⟨code, _⟩, found, ended⟩
  rw [found] at there
  obtain ⟨p, rfl⟩ := Option.isSome_iff_exists.mp there
  rcases ended p rfl with ⟨response, rfl⟩ | ⟨failure, rfl⟩
  · simp [Gateway.response, found] at unanswered
  · simp [Gateway.failure, found] at unrefused

/-! A small gateway: one merchant, one asset at par, two amounts on one address. -/
namespace Sample

def price : PriceSnapshot := ⟨1, 1, 1, [some ['a'], some ['b']], 0⟩

def quotePolicy : QuotePolicySnapshot := ⟨2, ['v'], 50, 50, 2, 1000, 1000, 1000, 0⟩

/-- Two nodes of different operators; both write as `w`. -/
def node (id : Id) : ChainSource :=
  ⟨⟨['c'], ['n'], ['e'], [if id = 1 then 'a' else 'b'], .ownNode, ['w']⟩, id⟩

def catalog : Catalog where
  merchants _ := some .shared
  assets _ := some ⟨true, ['c'], ['n'], ['e'], [2]⟩
  prices := [(1, ['U', 'S', 'D'], price)]
  quotePolicies := [(1, ['U', 'S', 'D'], true, quotePolicy)]
  railHealth := [(1, ⟨3, .healthy, 0⟩)]
  settlementPolicies := [(['U', 'S', 'D'], true, 4, ['p'])]
  tiers _ := [⟨1000, 1, false, false, true⟩]
  riskProviders _ _ := true
  sources id := some (node id).toSourceRow

def key (c : Char) : Text := List.replicate 16 c

def operator (id : Id) : OperatorCredential := ⟨id, ['o'], [.admin]⟩

def screener : OperatorCredential := ⟨3, ['s'], [.riskIngest]⟩

def lease : ComponentLease := ⟨['s'], ['h'], 1⟩

def config : Config where
  honorPolicy := ⟨60⟩

def seconds (n : Int) : Int := n * 1000000

def order (reference : Char) : CreatePaymentIntent :=
  ⟨['1', '0', '0'], ['U', 'S', 'D'], [reference], none, ['\x7b', '\x7d']⟩

def fact (n amount : Nat) (blockTime : Int) : VerifiedTransfer where
  transfer := ⟨⟨['c'], ['n'], ['e'], ['x'], n⟩, 1, 0, 1, ['h'], blockTime, [2], [3],
    ['f'], [1], ['t'],
    amount, 6, none⟩
  attestations := []
  independentGroups := 1
  hadOwnNode := true
  state := .finalized
  confirmations := 1
  policyVersion := ['f']
  discarded := []

def transfer (n amount : Nat) (blockTime : Int) : Request :=
  .commitVerdict lease (fact n amount blockTime).transfer.event
    (.verified (fact n amount blockTime)) rfl

/-- An operator takes `amount` of the transfer for the first attempt. -/
def honor (transferId amount : Nat) : ManualResolution :=
  ⟨.honor, transferId, some 1, some 3, some amount, none, none, none, ['y']⟩

/-- Process `i` starts and runs to its end at time `t`. -/
def whole (i : Nat) (t : Int) (request : Request) : List (Slice Request) :=
  [.start request, .work i t 99]

/-- Intent 1 over 100 is quoted at time 0: attempt 3 with lease 4 expects 100, its
    quote expires at 50 s and its window ends at 100 s. -/
def opening : List (Slice Request) :=
  whole 0 0 (.replaceCatalog catalog) ++
    whole 1 0 (.registerCollector ⟨1, [1], ['a'], 0, none, .active⟩) ++
    whole 2 0 (.acquireLease ['s'] ['h'] 1000) ++
    whole 3 0 (.createIntent 7 (key 'a') (order 'r')) ++
    whole 4 0 (.issueQuote 7 (key 'b') ⟨1, 1⟩)

def chainCatalog : Catalog :=
  { catalog with
    finalityPolicies := [⟨['c'], ['n'], ['e'], true, ⟨['f'], 2, .confirmed, 2, 3600⟩⟩] }

/-- What a node says of a transfer in block 1 when its head is `head`. -/
def reading (n amount : Nat) (head : Int) : ObservedTransfer :=
  ⟨⟨['c'], ['n'], ['e'], ['x'], n⟩, some 1, some ['h'], some 1, [2], [3], ['f'], [1],
    ['t'], amount, 6, none, .success,
    .confirmed, some head⟩

def verifier : Verifier :=
  ⟨node 1, ['w'], fun _ event => .ok (some (reading event.eventIndex 100 9))⟩

def intake (reading : ObservedTransfer) : Request :=
  .intake (node 2) ['w'] lease .cursorScan [⟨0, [1], 1, [2], .active⟩] [reading]

def report (n amount : Nat) (head : Int) : Request := intake (reading n amount head)

def sighting (n amount : Nat) (blockTime : Int) : Request :=
  intake { reading n amount 9 with blockTime := some blockTime }

/-- The transfer of a sighting that is stored as an observation. -/
def sighted (observation n amount : Nat) (blockTime : Int) : Request :=
  .commitVerdict lease (fact n amount blockTime).transfer.event
    (.verified { fact n amount blockTime with attestations := [(observation, .detection)] }) rfl

/-- Transfer 6 pays attempt 3. -/
def paying : List (Slice Request) :=
  whole 5 0 (sighting 0 100 1) ++ whole 6 0 (sighted 5 0 100 1) ++
    whole 7 0 (.settlePending lease 10)

def settled : List (Slice Request) := opening ++ paying

/-- Transfer 3 is verified on observation 1 of the second node and observation 2, which
    the verifier makes itself. -/
def verified : List (Slice Request) :=
  whole 0 0 (.replaceCatalog chainCatalog) ++
    whole 1 0 (.registerCollector ⟨1, [1], ['a'], 0, none, .active⟩) ++
    whole 2 0 (.acquireLease ['s'] ['h'] 1000) ++ whole 3 0 (report 0 100 9) ++
    whole 4 0 (.verifyPending verifier lease 10)

/-- At 60 s the quote has expired and intent 1 is quoted again: attempt 6 expects 101
    until 160 s. -/
def requoted : List (Slice Request) :=
  opening ++ whole 5 (seconds 60) (.expireDue 10) ++
    whole 6 (seconds 60) (.issueQuote 7 (key 'c') ⟨1, 1⟩)

end Sample
end CryptoGateway
