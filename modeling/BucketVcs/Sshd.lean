import BucketVcs.Auth.Database

/-! The SSH transport: a key is verified when the connection is made, and every exec channel
on it is authorised with what the connection carries from then. -/

namespace BucketVcs.Sshd

open Auth

inductive LfsOp where
  | download
  | upload
  deriving DecidableEq, Repr

inductive Op where
  | upload
  | receive
  | lfsAuthenticate (op : LfsOp)
  deriving DecidableEq, Repr

/-- `Op.RequiredAction`; for `git-lfs-authenticate` its handler asks by the LFS operation. -/
def Op.requiredAction : Op → Action
  | .upload => .read
  | .receive => .write
  | .lfsAuthenticate .download => .read
  | .lfsAuthenticate .upload => .write

structure ExecCommand where
  tenant : Tenant
  repo : RepoName
  op : Op
  deriving DecidableEq, Repr

/-- What `publicKeyCallback` leaves in the extensions of a connection. -/
structure Connection where
  actor : Actor
  scope : Option Scope
  keyID : KeyID
  deriving DecidableEq, Repr

def connect (db : Database) (fingerprint : Fingerprint) : Except Error Connection :=
  match db.verifySSHKey fingerprint with
  | .ok (actor, keyID, scope) => .ok ⟨actor, scope, keyID⟩
  | .error problem => .error problem

theorem connect_scope {db : Database} {fingerprint : Fingerprint} {connection : Connection}
    {scope : Scope} (made : connect db fingerprint = .ok connection)
    (narrowed : connection.scope = some scope) :
    ∃ key ∈ db.sshKeys, key.fingerprint = fingerprint ∧ key.owner = .deploy scope := by
  unfold connect at made
  split at made
  · rename_i actor keyID found verified
    cases made
    unfold Database.verifySSHKey at verified
    split at verified
    · cases verified
    rename_i key present
    have same : key.fingerprint = fingerprint := by simpa using List.find?_some present
    split at verified
    · cases verified
    split at verified
    · split at verified
      · cases verified
        cases narrowed
      · split at verified
        · cases verified
        · cases verified
          cases narrowed
    · rename_i own owner
      cases verified
      cases narrowed
      exact ⟨key, List.mem_of_find?_eq_some present, same, owner⟩
  · cases made

/-- The line on stderr and the exit status of a refused command. -/
structure Refusal where
  line : String
  exitStatus : ℕ
  deriving DecidableEq, Repr

section Session

variable (store : Store)

/-- The repository of a command; an alias is followed before the scope is looked at. -/
def findRepo (cmd : ExecCommand) : Except Error (RepoFlags × ExecCommand) :=
  match store.getRepoFlags cmd.tenant cmd.repo with
  | .ok flags => .ok (flags, cmd)
  | .error .noSuchRepo =>
    match store.resolveAlias with
    | none => .error .noSuchRepo
    | some resolve =>
      match resolve cmd.tenant cmd.repo with
      | .ok (some target) =>
        match store.getRepoFlags cmd.tenant target with
        | .ok flags => .ok (flags, { cmd with repo := target })
        | .error _ => .error .noSuchRepo
      | .ok none | .error _ => .error .noSuchRepo
  | .error problem => .error problem

/-- The permission of a connection: that of its scope, on the one repository it names, or
that of its user. -/
def permOf (connection : Connection) (cmd : ExecCommand) : Except Refusal Perm :=
  match connection.scope with
  | some scope =>
    if scope.tenant ≠ cmd.tenant ∨ scope.repo ≠ cmd.repo then
      .error ⟨"bucketvcs: key not authorized for this repository", 128⟩
    else .ok scope.perm
  | none =>
    match store.lookupRepoPerm (some connection.actor) cmd.tenant cmd.repo with
    | .ok perm => .ok perm
    | .error _ => .error ⟨"bucketvcs: internal error", 1⟩

/-- `Server.handleSession` up to the engine: the command that is served. -/
def handleSession (connection : Connection) (cmd : ExecCommand) : Except Refusal ExecCommand :=
  match findRepo store cmd with
  | .error .noSuchRepo => .error ⟨"bucketvcs: repository not found", 128⟩
  | .error _ => .error ⟨"bucketvcs: internal error", 1⟩
  | .ok (flags, cmd) =>
    match permOf store connection cmd with
    | .error refusal => .error refusal
    | .ok perm =>
      if (Auth.decide (some connection.actor) perm cmd.op.requiredAction flags).1 then .ok cmd
      else .error ⟨"bucketvcs: insufficient permissions", 128⟩

variable {store}

theorem findRepo_ok {cmd found : ExecCommand} {flags : RepoFlags}
    (ok : findRepo store cmd = .ok (flags, found)) :
    found.tenant = cmd.tenant ∧ found.op = cmd.op ∧
      store.getRepoFlags found.tenant found.repo = .ok flags := by
  unfold findRepo at ok
  split at ok
  · rename_i own registered
    obtain ⟨rfl, rfl⟩ := Prod.mk.inj (Except.ok.inj ok)
    exact ⟨rfl, rfl, registered⟩
  · split at ok
    · cases ok
    · split at ok
      · split at ok
        · rename_i live
          obtain ⟨rfl, rfl⟩ := Prod.mk.inj (Except.ok.inj ok)
          exact ⟨rfl, rfl, live⟩
        · cases ok
      · cases ok
      · cases ok
  · cases ok

variable {connection : Connection}

theorem handleSession_ok {cmd served : ExecCommand}
    (ok : handleSession store connection cmd = .ok served) :
    ∃ flags perm, store.getRepoFlags served.tenant served.repo = .ok flags ∧
      permOf store connection served = .ok perm ∧
      (Auth.decide (some connection.actor) perm served.op.requiredAction flags).1 = true := by
  unfold handleSession at ok
  split at ok
  · cases ok
  · cases ok
  · rename_i flags found resolved
    split at ok
    · cases ok
    · rename_i perm granted
      split at ok
      · rename_i allowed
        cases ok
        exact ⟨flags, perm, (findRepo_ok resolved).2.2, granted, allowed⟩
      · cases ok

theorem permOf_scope {cmd : ExecCommand} {perm : Perm} {scope : Scope}
    (narrowed : connection.scope = some scope) (ok : permOf store connection cmd = .ok perm) :
    scope.tenant = cmd.tenant ∧ scope.repo = cmd.repo ∧ perm = scope.perm := by
  unfold permOf at ok
  rw [narrowed] at ok
  simp only at ok
  split at ok
  · cases ok
  · rename_i same
    rw [not_or, not_not, not_not] at same
    exact ⟨same.1, same.2, (Except.ok.inj ok).symm⟩

end Session

end BucketVcs.Sshd
