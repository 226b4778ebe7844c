import CryptoGateway.Engine.Logic

/-!
From the logic to whole runs: when every program satisfies `wp`, every commit of every
interleaving is a permitted effect on a sane store.
-/
namespace Engine

section Adequacy
variable {DB W R T ε α Q : Type} [DecidableEq R] [Store DB W R]
variable {spec : Spec DB W R T} {program : Q → Proc DB W R T ε α}
  {allow : System DB W R T ε α → Event Q → Prop} {init s s' : System DB W R T ε α} {e : Event Q}

def System.committing (s : System DB W R T ε α) : Event Q → Option (Log DB T × List W)
  | .run i =>
      match s.sessions[i]? with
      | some { code := some (.commit _), log := log, writes := ws, .. } => some (log, ws)
      | _ => none
  | _ => none

def OnCommit (ok : Log DB T → DB → List W → Prop) (s : System DB W R T ε α) (e : Event Q) : Prop :=
  ∀ log ws, s.committing e = some (log, ws) → ok log s.db ws

section
omit [DecidableEq R] [Store DB W R]
variable {i : Nat} {c : Session DB W R T ε α} {p : Proc DB W R T ε α}

theorem System.committing_none (found : s.sessions[i]? = some c) (code : c.code = some p)
    (other : ∀ next, p ≠ .commit next) : s.committing (Event.run (Q := Q) i) = none := by
  obtain ⟨_, held, writes, log, snapshot⟩ := c
  cases code
  cases p with
  | commit next => exact absurd rfl (other next)
  | _ => simp [System.committing, found]

theorem System.committing_commit (found : s.sessions[i]? = some c)
    (code : c.code = some (.commit p)) :
    s.committing (Event.run (Q := Q) i) = some (c.log, c.writes) := by
  obtain ⟨_, held, writes, log, snapshot⟩ := c
  cases code
  simp [System.committing, found]

end

theorem System.step_db (taken : s.step program e = some s') :
    (s.committing e = none ∧ s'.db = s.db) ∨
    ∃ log ws, s.committing e = some (log, ws) ∧ s'.db = applyAll ws s.db := by
  cases System.step_inv taken with
  | spawn q => exact .inl ⟨rfl, rfl⟩
  | abort found => exact .inl ⟨rfl, rfl⟩
  | tick found code => exact .inl ⟨rfl, rfl⟩
  | read found code => exact .inl ⟨System.committing_none found code (by simp), rfl⟩
  | waits found code started => exact .inl ⟨System.committing_none found code (by simp), rfl⟩
  | granted found code => exact .inl ⟨System.committing_none found code (by simp), rfl⟩
  | rollback found code => exact .inl ⟨System.committing_none found code (by simp), rfl⟩
  | fresh found code => exact .inl ⟨System.committing_none found code (by simp), rfl⟩
  | commit found code => exact .inr ⟨_, _, System.committing_commit found code, rfl⟩

section Safety
variable (spec)

section
variable (post : α → Log DB T → DB → Prop) (fault : ε → Log DB T → DB → Prop)

def Waits (m : Moment DB) (held : List (Lock R)) (ws : List W) (log : Log DB T) (db : DB) :
    Proc DB W R T ε α → Prop
  | .stmt tag exec next => ∀ db', Later spec held db db' → spec.inv db' →
      ∀ grant : Lock R → Bool,
        let reply := exec (applyAll ws m.db) (applyAll ws db') grant
        wp spec (next reply.value) (fun a c => post a c.log c.db) (fun e c => fault e c.log c.db)
          ⟨required DB reply ++ held, ws ++ reply.writes, record tag m log, db'⟩
  | _ => False

def Assured (db : DB) (c : Session DB W R T ε α) : Prop :=
  ∀ p, c.code = some p →
    match c.snapshot with
    | none => wp spec p (fun a c => post a c.log c.db) (fun e c => fault e c.log c.db)
        ⟨c.held, c.writes, c.log, db⟩
    | some m => Waits spec post fault m c.held c.writes c.log db p

structure Lasting : Prop where
  post : ∀ a log, Stable spec [] (post a log)
  fault : ∀ e log, Stable spec [] (fault e log)

end

abbrev Safe (post : α → Prop) (fault : ε → Prop) (db : DB) (c : Session DB W R T ε α) : Prop :=
  Assured spec (fun a _ _ => post a) (fun e _ _ => fault e) db c

theorem Lasting.const (post : α → Prop) (fault : ε → Prop) :
    Lasting spec (fun a (_ : Log DB T) (_ : DB) => post a) fun e _ _ => fault e :=
  ⟨fun a _ => Stable.const (post a), fun e _ => Stable.const (fault e)⟩

end Safety

section
variable {post : α → Log DB T → DB → Prop} {fault : ε → Log DB T → DB → Prop}
  {c : Session DB W R T ε α}

variable {db : DB}

theorem wp_later {held : List (Lock R)} {ws : List W} {log : Log DB T} {db' : DB}
    {p : Proc DB W R T ε α} (lasting : Lasting spec post fault)
    (safe : wp spec p (fun a c => post a c.log c.db) (fun e c => fault e c.log c.db)
      ⟨held, ws, log, db⟩) (moved : Later spec held db db') :
    wp spec p (fun a c => post a c.log c.db) (fun e c => fault e c.log c.db)
      ⟨held, ws, log, db'⟩ := by
  cases p with
  | done a => exact ((lasting.post a log).mono (List.nil_subset held)).later moved safe
  | fail e => exact ((lasting.fault e log).mono (List.nil_subset held)).later moved safe
  | read tag query next => exact fun m after => safe m (moved.trans after)
  | stmt tag exec next => exact fun m after => safe m (moved.trans after)
  | commit next => exact fun db'' after => safe db'' (moved.trans after)
  | rollback next => exact fun db'' after => safe db'' (moved.trans after)
  | clock tag next => exact fun m after => safe m (moved.trans after)
  | fresh next => exact fun n db'' after => safe n db'' (moved.trans after)

theorem Assured.later {db' : DB} (lasting : Lasting spec post fault)
    (safe : Assured spec post fault db c) (moved : Later spec c.held db db') :
    Assured spec post fault db' c := by
  intro p code
  have before := safe p code
  revert before
  cases c.snapshot with
  | none => exact fun before => wp_later lasting before moved
  | some m =>
    cases p with
    | stmt tag exec next => exact fun before db'' after => before db'' (moved.trans after)
    | _ => exact id

theorem Assured.idle {p : Proc DB W R T ε α} (safe : Assured spec post fault db c)
    (code : c.code = some p) (still : ∀ m, ¬Waits spec post fault m c.held c.writes c.log db p) :
    c.snapshot = none ∧ wp spec p (fun a c => post a c.log c.db) (fun e c => fault e c.log c.db)
      ⟨c.held, c.writes, c.log, db⟩ := by
  have safe := safe p code
  cases wait : c.snapshot with
  | none => rw [wait] at safe; exact ⟨rfl, safe⟩
  | some m => rw [wait] at safe; exact absurd safe (still m)

theorem Assured.done {a : α} (safe : Assured spec post fault db c)
    (code : c.code = some (.done a)) : post a c.log db := (safe.idle code fun _ => id).2

theorem Assured.fail {e : ε} (safe : Assured spec post fault db c)
    (code : c.code = some (.fail e)) : fault e c.log db := (safe.idle code fun _ => id).2

end

variable {cs : List (Session DB W R T ε α)} {c d : Session DB W R T ε α}

omit [Store DB W R] in
theorem free_apart {i : Nat} {l : Lock R} (granted : free (s.sessions.eraseIdx i) l = true)
    {j : Nat} (ne : j ≠ i) (found : s.sessions[j]? = some d) : ∀ b ∈ d.held, clash l b = false := by
  intro b mem
  have member : d ∈ s.sessions.eraseIdx i := List.mem_eraseIdx_iff_getElem?.mpr ⟨j, ne, found⟩
  simp only [free, List.all_eq_true, Bool.not_eq_true'] at granted
  exact granted d member b mem

omit [DecidableEq R] [Store DB W R] in
theorem set_cases {i j : Nat} {c' : Session DB W R T ε α}
    (found : (cs.set i c')[j]? = some d) : (j = i ∧ d = c') ∨ (j ≠ i ∧ cs[j]? = some d) := by
  rw [List.getElem?_set] at found
  by_cases same : i = j
  · simp only [same, ↓reduceIte] at found
    split at found
    · cases found; exact .inl ⟨same.symm, rfl⟩
    · cases found
  · rw [if_neg same] at found
    exact .inr ⟨fun eq => same eq.symm, found⟩

omit [DecidableEq R] [Store DB W R] in
theorem append_cases {j : Nat}
    (found : (cs ++ [c])[j]? = some d) : cs[j]? = some d ∨ (cs[j]? = none ∧ d = c) := by
  rw [List.getElem?_append] at found
  split at found
  · exact .inl found
  · rename_i past
    rw [List.getElem?_singleton] at found
    split at found
    · cases found; exact .inr ⟨by simpa using past, rfl⟩
    · cases found

structure Exclusive (cs : List (Session DB W R T ε α)) : Prop where
  apart : ∀ (i j : Nat) (c d : Session DB W R T ε α), i ≠ j → cs[i]? = some c →
    cs[j]? = some d → ∀ a ∈ c.held, ∀ b ∈ d.held, clash a b = false
  covered : ∀ (i : Nat) (c : Session DB W R T ε α), cs[i]? = some c →
    ∀ w ∈ c.writes, ∀ l ∈ Store.needs DB w, l ∈ c.held

theorem Exclusive.set {i : Nat} {c' : Session DB W R T ε α} (exclusive : Exclusive cs)
    (apart : ∀ (j : Nat) (d : Session DB W R T ε α), j ≠ i → cs[j]? = some d →
      ∀ a ∈ c'.held, ∀ b ∈ d.held, clash a b = false)
    (covered : ∀ w ∈ c'.writes, ∀ l ∈ Store.needs DB w, l ∈ c'.held) : Exclusive (cs.set i c') := by
  constructor
  · intro j k d f ne foundD foundF a inD b inF
    rcases set_cases foundD with ⟨rfl, rfl⟩ | ⟨neD, oldD⟩
    · rcases set_cases foundF with ⟨rfl, rfl⟩ | ⟨neF, oldF⟩
      · exact absurd rfl ne
      · exact apart k f neF oldF a inD b inF
    · rcases set_cases foundF with ⟨rfl, rfl⟩ | ⟨neF, oldF⟩
      · rw [clash_comm]; exact apart j d neD oldD b inF a inD
      · exact exclusive.apart j k d f ne oldD oldF a inD b inF
  · intro j d found
    rcases set_cases found with ⟨rfl, rfl⟩ | ⟨ne, old⟩
    · exact covered
    · exact exclusive.covered j d old

theorem Exclusive.spawn {p : Proc DB W R T ε α}
    (exclusive : Exclusive cs) : Exclusive (cs ++ [{ code := some p }]) := by
  constructor
  · intro i j c d ne foundC foundD a inC b inD
    rcases append_cases foundC with oldC | ⟨_, rfl⟩
    · rcases append_cases foundD with oldD | ⟨_, rfl⟩
      · exact exclusive.apart i j c d ne oldC oldD a inC b inD
      · cases inD
    · cases inC
  · intro i c found w mem
    rcases append_cases found with old | ⟨_, rfl⟩
    · exact exclusive.covered i c old w mem
    · cases mem

theorem Exclusive.step (exclusive : Exclusive s.sessions) (taken : s.step program e = some s') :
    Exclusive s'.sessions := by
  have same : ∀ {i : Nat} {c c' : Session DB W R T ε α}, s.sessions[i]? = some c →
      c'.held = c.held → c'.writes = c.writes → Exclusive (s.sessions.set i c') := by
    intro i c c' found held writes
    refine exclusive.set (fun j d ne old => ?_) ?_
    · rw [held]; exact exclusive.apart i j c d (Ne.symm ne) found old
    · rw [held, writes]; exact exclusive.covered i c found
  have none : ∀ {i : Nat} {c' : Session DB W R T ε α}, c'.held = [] → c'.writes = [] →
      Exclusive (s.sessions.set i c') := by
    intro i c' held writes
    exact exclusive.set (by simp [held]) (by simp [writes])
  cases System.step_inv taken with
  | spawn q => exact exclusive.spawn
  | read found code => exact same found rfl rfl
  | waits found code started => exact same found rfl rfl
  | fresh found code => exact same found rfl rfl
  | tick found code => exact same found rfl rfl
  | commit found code => exact none rfl rfl
  | rollback found code => exact none rfl rfl
  | abort found => exact none rfl rfl
  | @granted i c β tag exec next m reply found code waiting executed open_ =>
    refine exclusive.set (fun j d ne old a mem => ?_) fun w mem l need => ?_
    · rcases List.mem_append.mp mem with new | kept
      · exact free_apart (open_ a new) ne old
      · exact exclusive.apart i j c d (Ne.symm ne) found old a kept
    · rcases List.mem_append.mp mem with kept | new
      · exact List.mem_append_right _ (exclusive.covered i c found w kept l need)
      · refine List.mem_append_left _ (List.mem_append_right _ ?_)
        exact List.mem_flatMap.mpr ⟨w, new, need⟩

structure Sound (spec : Spec DB W R T) (s : System DB W R T ε α) : Prop where
  inv : spec.inv s.db
  exclusive : Exclusive s.sessions
  safe : ∀ (i : Nat) (c : Session DB W R T ε α), s.sessions[i]? = some c →
    Safe spec (fun _ => True) (fun _ => True) s.db c

theorem Sound.effect (sound : Sound spec s) {log : Log DB T} {ws : List W}
    (commits : s.committing e = some (log, ws)) : spec.eff log s.db ws := by
  cases e with
  | run i =>
    simp only [System.committing] at commits
    split at commits
    · rename_i next _ _ _ _ found
      cases commits
      have safe := sound.safe i _ found _ rfl
      revert safe
      simp only
      split
      · exact fun safe => (safe s.db .refl sound.inv).1
      · exact False.elim
    · cases commits
  | _ => cases commits

theorem Sound.step_assured {post : α → Log DB T → DB → Prop} {fault : ε → Log DB T → DB → Prop}
    {i : Nat} (sound : Sound spec s) (lasting : Lasting spec post fault)
    (taken : s.step program e = some s') (found : s.sessions[i]? = some c)
    (safe : Assured spec post fault s.db c) :
    ∃ c', s'.sessions[i]? = some c' ∧ Assured spec post fault s'.db c' := by
  have inv := sound.inv
  have here : ∀ (d : Session DB W R T ε α), (s.sessions.set i d)[i]? = some d :=
    fun d => List.getElem?_set_self (List.getElem?_eq_some_iff.mp found).1
  have there : ∀ {j : Nat} (d : Session DB W R T ε α), j ≠ i →
      (s.sessions.set j d)[i]? = some c :=
    fun d ne => (List.getElem?_set_ne ne).trans found
  -- a step of another session leaves this one as it was
  have split : ∀ {j : Nat} {d d' : Session DB W R T ε α} {db' : DB}, s.sessions[j]? = some d →
      (d = c → Assured spec post fault db' d') → (j ≠ i → Assured spec post fault db' c) →
      ∃ c', (s.sessions.set j d')[i]? = some c' ∧ Assured spec post fault db' c' := by
    intro j d d' db' old own other
    by_cases same : j = i
    · subst same
      cases old.symm.trans found
      exact ⟨d', here d', own rfl⟩
    · exact ⟨c, there d' same, other same⟩
  cases System.step_inv taken with
  | spawn q =>
    refine ⟨c, ?_, safe⟩
    rw [List.getElem?_append_left (List.getElem?_eq_some_iff.mp found).1]
    exact found
  | abort old =>
    refine split old (fun _ => ?_) fun _ => safe
    rintro _ ⟨⟩
  | @tick j t d tag next old code =>
    refine split old ?_ fun _ => safe
    rintro rfl _ ⟨⟩
    obtain ⟨idle, ready⟩ := safe.idle code fun _ => id
    simp only [idle]
    exact ready ⟨s.db, t⟩ .refl inv
  | @read j d β tag query next old code =>
    refine split old ?_ fun _ => safe
    rintro rfl _ ⟨⟩
    obtain ⟨idle, ready⟩ := safe.idle code fun _ => id
    simp only [idle]
    exact ready ⟨s.db, s.now⟩ .refl inv
  | rollback old code =>
    refine split old ?_ fun _ => safe
    rintro rfl _ ⟨⟩
    obtain ⟨idle, ready⟩ := safe.idle code fun _ => id
    simp only [idle]
    exact ready s.db .refl inv
  | @fresh j d next old code =>
    refine split old ?_ fun _ => safe
    rintro rfl _ ⟨⟩
    obtain ⟨idle, ready⟩ := safe.idle code fun _ => id
    simp only [idle]
    exact ready s.nextId s.db .refl inv
  | @commit j d next old code =>
    refine split old ?_ fun ne => ?_
    · rintro rfl _ ⟨⟩
      obtain ⟨idle, ready⟩ := safe.idle code fun _ => id
      simp only [idle]
      exact (ready s.db .refl inv).2
    · obtain ⟨_, ready⟩ := (sound.safe j d old).idle code fun _ => id
      refine safe.later lasting (.single ⟨inv, d.log, d.writes, ?_, (ready s.db .refl inv).1, rfl⟩)
      exact fun w mem l need h inHeld => sound.exclusive.apart j i d c ne old found l
        (sound.exclusive.covered j d old w mem l need) h inHeld
  | @waits j d β tag exec next old code started =>
    refine split old ?_ fun _ => safe
    intro same p code'
    subst same
    cases code.symm.trans code'
    have ready := safe _ code
    rw [started] at ready
    exact ready ⟨s.db, s.now⟩ .refl inv
  | @granted j d β tag exec next m reply old code waiting executed open_ =>
    refine split old ?_ fun _ => safe
    rintro rfl _ ⟨⟩
    have ready := safe _ code
    rw [waiting] at ready
    rw [executed]
    exact ready s.db .refl inv _

theorem Sound.step_safe {post : α → Prop} {fault : ε → Prop} {i : Nat} (sound : Sound spec s)
    (taken : s.step program e = some s')
    (found : s.sessions[i]? = some c) (safe : Safe spec post fault s.db c) :
    ∃ c', s'.sessions[i]? = some c' ∧ Safe spec post fault s'.db c' :=
  sound.step_assured (Lasting.const spec post fault) taken found safe

theorem Sound.step (programs : ∀ q db, spec.inv db →
      wp spec (program q) (fun _ _ => True) (fun _ _ => True) ⟨[], [], [], db⟩)
    (sound : Sound spec s) (taken : s.step program e = some s') : Sound spec s' := by
  refine ⟨?_, sound.exclusive.step taken, fun i c' found' => ?_⟩
  · rcases System.step_db taken with ⟨_, same⟩ | ⟨log, ws, commits, moved⟩
    · rw [same]; exact sound.inv
    · rw [moved]; exact spec.keeps sound.inv (sound.effect commits)
  · cases old : s.sessions[i]? with
    | some c =>
      obtain ⟨c'', same, safe⟩ := sound.step_safe taken old (sound.safe i c old)
      cases found'.symm.trans same
      exact safe
    | none =>
      -- only a spawn adds a session
      have length : ∀ (j : Nat) (d : Session DB W R T ε α), (s.sessions.set j d)[i]? = none := by
        intro j d
        rw [List.getElem?_eq_none_iff, List.length_set]
        exact List.getElem?_eq_none_iff.mp old
      cases System.step_inv taken with
      | spawn q =>
        rcases append_cases found' with before | ⟨_, rfl⟩
        · cases old.symm.trans before
        · rintro _ ⟨⟩
          exact programs q s.db sound.inv
      | _ => exact absurd ((length _ _).symm.trans found') (by simp)

theorem Reach.store_invariant (programs : ∀ q db, spec.inv db →
      wp spec (program q) (fun _ _ => True) (fun _ _ => True) ⟨[], [], [], db⟩)
    {P : DB → Prop} (initInv : spec.inv init.db) (idle : init.sessions = []) (start : P init.db)
    (keep : ∀ s e log ws, System.Reach program allow init s → allow s e →
      s.committing e = some (log, ws) → spec.inv s.db → spec.eff log s.db ws →
      P s.db → P (applyAll ws s.db))
    (reached : System.Reach program allow init s) : P s.db ∧ Sound spec s := by
  induction reached with
  | refl =>
    exact ⟨start, initInv, ⟨by simp [idle], by simp [idle]⟩, by simp [idle]⟩
  | step before taken allowed ih =>
    refine ⟨?_, ih.2.step programs taken⟩
    rcases System.step_db taken with ⟨_, same⟩ | ⟨log, ws, commits, moved⟩
    · rw [same]; exact ih.1
    · rw [moved]
      exact keep _ _ log ws before allowed commits ih.2.inv (ih.2.effect commits) ih.1

theorem Assured.reach {post : α → Log DB T → DB → Prop} {fault : ε → Log DB T → DB → Prop} {i : Nat}
    (lasting : Lasting spec post fault)
    (sound : ∀ s', System.Reach program allow s s' → Sound spec s')
    (found : s.sessions[i]? = some c) (safe : Assured spec post fault s.db c)
    (reached : System.Reach program allow s s') :
    ∃ c', s'.sessions[i]? = some c' ∧ Assured spec post fault s'.db c' := by
  induction reached with
  | refl => exact ⟨c, found, safe⟩
  | step before taken allowed ih =>
    obtain ⟨c', found', safe'⟩ := ih
    exact (sound _ before).step_assured lasting taken found' safe'

end Adequacy
end Engine
