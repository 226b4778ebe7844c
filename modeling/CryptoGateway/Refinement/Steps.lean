import CryptoGateway.Engine.Sessions
import CryptoGateway.Storage.Frames

/-!
What a session does with each kind of statement, whatever the stores hold.
-/
namespace CryptoGateway
open Engine

variable {ε δ α β : Type} {P : Db → Prop} {C : Log Db Watch → List Write → Prop}
  {Q : β → Log Db Watch → List Write → Prop} {E : ε → Log Db Watch → List Write → Prop}
  {log : Log Db Watch} {ws : List Write} {f : α → Job ε β}

theorem does_select {query : Db → α}
    (next : ∀ db, P db → (f (query (applyAll ws db))).Does P C Q E log ws) :
    (select query >>= f).Does P C Q E log ws := fun m holds => next m.db holds

theorem does_watch {tag : Watch} {query : Db → α} (next : ∀ m : Moment Db, P m.db →
      (f (query (applyAll ws m.db))).Does P C Q E ((tag, m) :: log) ws) :
    (watch tag query >>= f).Does P C Q E log ws := next

theorem does_execute {exec : Exec α} (next : ∀ seen newest grant, P seen → P newest →
      (f (exec (applyAll ws seen) (applyAll ws newest) grant).value).Does P C Q E log
        (ws ++ (exec (applyAll ws seen) (applyAll ws newest) grant).writes)) :
    (execute exec >>= f).Does P C Q E log ws := fun m db grant old new => next m.db db grant old new

theorem does_orFail {error : ε} {found : Option α} (missing : found = none → E error log ws)
    (next : ∀ a, found = some a → (f a).Does P C Q E log ws) :
    (orFail error found >>= f).Does P C Q E log ws := by
  cases found with
  | none => exact missing rfl
  | some a => exact next a rfl

theorem does_orViolation {exec : Exec (Option RepositoryError)} {f : Unit → Job RepositoryError β}
    {E : RepositoryError → Log Db Watch → List Write → Prop}
    (violated : ∀ seen newest grant error, P seen → P newest →
      (exec (applyAll ws seen) (applyAll ws newest) grant).value = some error →
      E error log (ws ++ (exec (applyAll ws seen) (applyAll ws newest) grant).writes))
    (next : ∀ seen newest grant, P seen → P newest →
      (exec (applyAll ws seen) (applyAll ws newest) grant).value = none → (f ()).Does P C Q E log
        (ws ++ (exec (applyAll ws seen) (applyAll ws newest) grant).writes)) :
    (orViolation exec >>= f).Does P C Q E log ws := by
  intro m db grant old new
  generalize same : exec (applyAll ws m.db) (applyAll ws db) grant = reply
  have bad := violated m.db db grant
  have good := next m.db db grant
  rw [same] at bad good
  cases value : reply.value with
  | none => exact good old new value
  | some error => exact bad error old new value

end CryptoGateway
