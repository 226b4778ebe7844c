import CryptoGateway.Invariant.Resolutions

/-!
The contract of the gateway's transactions: every committed database is sane, and
every commit is one of the effects.
-/
namespace CryptoGateway
open Engine

structure Sane (config : Config) (db : Db) : Prop where
  links : Links db
  ledger : Ledger db
  lifecycle : Lifecycle db
  control : Control config db
  resolved : Resolved db

theorem Sane.empty (config : Config) : Sane config {} :=
  ⟨Links.empty, Ledger.empty, Lifecycle.empty, Control.empty config, Resolved.empty⟩

theorem Sane.keep {config : Config} {log : Log Db Watch} {db : Db} {ws : List Write}
    (sane : Sane config db) (eff : Effect config log db ws) : Sane config (applyAll ws db) :=
  ⟨sane.links.keep eff, sane.ledger.keep eff, sane.lifecycle.keep sane.links eff,
    sane.control.keep eff, sane.resolved.keep eff⟩

def contract (config : Config) : Spec Db Write Row Watch where
  inv := Sane config
  eff := Effect config
  keeps := Sane.keep

/-- What a session may rely on while it holds `held`. -/
abbrev Steady (config : Config) (held : List (Lock Row)) (K : Db → Prop) : Prop :=
  Stable (contract config) held K

abbrev Assertion : Type := Ctx Db Write Row Watch → Prop

end CryptoGateway
