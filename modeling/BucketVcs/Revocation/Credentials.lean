import BucketVcs.Gateway.Routes
import BucketVcs.Web

/-! When a credential stands, and which changes of the tables leave it so. -/

namespace BucketVcs.Revocation

open Auth Auth.Database Web List Option

inductive Credential where
  | token (id : TokenID)
  | key (id : KeyID)
  | session (idHash : String)
  deriving DecidableEq, Repr

def keyUser (key : SshKeyRow) : Option UserID :=
  match key.owner with
  | .user id => some id
  | .deploy _ => none

/-- The users behind the rows that make a credential good, whatever their accounts are. -/
def holders (db : Database) (now : Seconds) : Credential → List (Option UserID)
  | .token id =>
    (db.tokens.filter fun row => row.id = id && tokenUsable row now).map fun row => some row.userID
  | .key id => (db.sshKeys.filter fun key => key.id = id && key.revokedAt.isNone).map keyUser
  | .session idHash =>
    (db.sessions.filter fun row => row.idHash = idHash).map fun row => some row.userID

/-- The credential has not ended, and neither has the account behind it. -/
def Stands (db : Database) (now : Seconds) (credential : Credential) : Prop :=
  ∃ owner ∈ holders db now credential, ∀ id, owner = some id → db.Enabled id

section Holders

variable {db : Database} {now : Seconds} {owner : Option UserID}

theorem mem_holders_token {id : TokenID} :
    owner ∈ holders db now (.token id) ↔
      ∃ row ∈ db.tokens, row.id = id ∧ tokenUsable row now = true ∧ owner = some row.userID := by
  simp only [holders, List.mem_map, mem_filter, Bool.and_eq_true, decide_eq_true_eq, and_assoc,
    eq_comm (a := owner)]

theorem mem_holders_key {id : KeyID} :
    owner ∈ holders db now (.key id) ↔
      ∃ key ∈ db.sshKeys, key.id = id ∧ key.revokedAt = none ∧ owner = keyUser key := by
  simp only [holders, List.mem_map, mem_filter, Bool.and_eq_true, decide_eq_true_eq,
    isNone_iff_eq_none, and_assoc, eq_comm (a := owner)]

theorem mem_holders_session {idHash : String} :
    owner ∈ holders db now (.session idHash) ↔
      ∃ row ∈ db.sessions, row.idHash = idHash ∧ owner = some row.userID := by
  simp only [holders, List.mem_map, mem_filter, decide_eq_true_eq, and_assoc,
    eq_comm (a := owner)]

end Holders

/-- The foreign keys on `users`. -/
structure Owned (db : Database) : Prop where
  tokens : ∀ row ∈ db.tokens, (db.user row.userID).isSome
  keys : ∀ key ∈ db.sshKeys, ∀ id, keyUser key = some id → (db.user id).isSome
  sessions : ∀ row ∈ db.sessions, (db.user row.userID).isSome

section Databases

variable {db : Database} {now : Seconds} {credential : Credential}

theorem Owned.of_holder (owned : Owned db) {id : UserID}
    (holds : some id ∈ holders db now credential) : (db.user id).isSome := by
  cases credential with
  | token token =>
    obtain ⟨row, member, _, _, same⟩ := mem_holders_token.mp holds
    cases same
    exact owned.tokens row member
  | key key =>
    obtain ⟨row, member, _, _, same⟩ := mem_holders_key.mp holds
    exact owned.keys row member id same.symm
  | session idHash =>
    obtain ⟨row, member, _, same⟩ := mem_holders_session.mp holds
    cases same
    exact owned.sessions row member

theorem Stands.of_changed {db' : Database} {now' : Seconds} (stands : Stands db' now' credential)
    (fewer : ∀ owner ∈ holders db' now' credential, owner ∈ holders db now credential)
    (users : ∀ id, some id ∈ holders db now credential → some id ∈ holders db' now' credential →
      db'.Enabled id → db.Enabled id) : Stands db now credential := by
  obtain ⟨owner, holds, enabled⟩ := stands
  refine ⟨owner, fewer owner holds, ?_⟩
  rintro id rfl
  exact users id (fewer _ holds) holds (enabled id rfl)

variable {owner : Option UserID} {stamp later : Seconds} {policy : SessionPolicy}
  {cookie : Option String}

theorem holders_revokeToken {id : TokenID}
    (holds : owner ∈ holders (db.revokeToken id stamp) now credential) :
    owner ∈ holders db now credential ∧ credential ≠ .token id := by
  cases credential with
  | token token =>
    obtain ⟨row', member, same, usable, rfl⟩ := mem_holders_token.mp holds
    obtain ⟨row, present, rfl⟩ := List.mem_map.mp member
    split at usable
    · simp [tokenUsable] at usable
    · rename_i other
      rw [if_neg other] at same ⊢
      refine ⟨mem_holders_token.mpr ⟨row, present, same, usable, rfl⟩, fun revoked => other ?_⟩
      have live : row.revokedAt.isNone = true := (Bool.and_eq_true_iff.mp usable).1
      rw [same, Credential.token.inj revoked, live]
      simp
  | key key | session idHash => exact ⟨holds, by simp⟩

theorem holders_revokeSSHKey {keyIDOrPrefix : String}
    (holds : owner ∈ holders (db.revokeSSHKey keyIDOrPrefix stamp) now credential) :
    owner ∈ holders db now credential ∧
      ∀ id, db.matchedKey keyIDOrPrefix = some id → credential ≠ .key id := by
  unfold revokeSSHKey at holds
  split at holds
  · rename_i unmatched
    exact ⟨holds, fun id matched => by rw [unmatched] at matched; cases matched⟩
  rename_i id matched
  cases credential with
  | token token | session idHash => exact ⟨holds, by simp⟩
  | key key =>
    obtain ⟨row', member, same, usable, rfl⟩ := mem_holders_key.mp holds
    obtain ⟨row, present, rfl⟩ := List.mem_map.mp member
    split at usable
    · cases usable
    · rename_i other
      rw [if_neg other] at same ⊢
      refine ⟨mem_holders_key.mpr ⟨row, present, same, usable, rfl⟩, ?_⟩
      rintro id' matched' ⟨⟩
      rw [matched] at matched'
      cases matched'
      exact other same

theorem holders_touchSession {hash : String → String} {rawID : String} {ttl : Seconds} :
    holders (db.touchSession hash stamp rawID ttl) now credential = holders db now credential := by
  cases credential with
  | token token => rfl
  | key key => rfl
  | session idHash =>
    unfold holders touchSession
    dsimp only
    rw [List.filter_map, List.map_map]
    congr 1
    · funext row
      dsimp only [Function.comp_apply]
      split <;> rfl
    · congr 1
      funext row
      dsimp only [Function.comp_apply]
      split <;> rfl

theorem holders_deleteSessionByHash {idHash : String}
    (holds : owner ∈ holders (db.deleteSessionByHash idHash) now credential) :
    owner ∈ holders db now credential ∧ credential ≠ .session idHash := by
  cases credential with
  | token token | key key => exact ⟨holds, by simp⟩
  | session other =>
    obtain ⟨row, member, same, rfl⟩ := mem_holders_session.mp holds
    obtain ⟨present, differs⟩ := mem_filter.mp member
    refine ⟨mem_holders_session.mpr ⟨row, present, same, rfl⟩, ?_⟩
    rintro ⟨⟩
    simp [same] at differs

theorem holders_deleteUserRows {name : Username}
    (holds : owner ∈ holders (db.deleteUserRows name) now credential) :
    owner ∈ holders db now credential ∧ ∀ id, owner = some id → db.isNamed name id = false := by
  cases credential with
  | token token =>
    obtain ⟨row, member, same, usable, rfl⟩ := mem_holders_token.mp holds
    obtain ⟨present, differs⟩ := mem_filter.mp member
    refine ⟨mem_holders_token.mpr ⟨row, present, same, usable, rfl⟩, ?_⟩
    simpa using differs
  | key key =>
    obtain ⟨row, member, same, usable, rfl⟩ := mem_holders_key.mp holds
    obtain ⟨present, differs⟩ := mem_filter.mp member
    refine ⟨mem_holders_key.mpr ⟨row, present, same, usable, rfl⟩, ?_⟩
    intro id owns
    cases owner : row.owner with
    | user user =>
      simp only [keyUser, owner, some.injEq] at owns
      subst owns
      simpa [ownsKey, owner] using differs
    | deploy scope => simp [keyUser, owner] at owns
  | session idHash =>
    obtain ⟨row, member, same, rfl⟩ := mem_holders_session.mp holds
    obtain ⟨present, differs⟩ := mem_filter.mp member
    refine ⟨mem_holders_session.mpr ⟨row, present, same, rfl⟩, ?_⟩
    simpa using differs

theorem tokenUsable_earlier {row : TokenRow} (order : now ≤ later)
    (usable : tokenUsable row later = true) : tokenUsable row now = true := by
  unfold tokenUsable at usable ⊢
  rw [Bool.and_eq_true] at usable ⊢
  refine ⟨usable.1, ?_⟩
  cases expires : row.expiresAt with
  | none => rfl
  | some limit =>
    have later : later < limit := by simpa [expires] using usable.2
    simpa using lt_of_le_of_lt order later

theorem holders_earlier (order : now ≤ later) (holds : owner ∈ holders db later credential) :
    owner ∈ holders db now credential := by
  cases credential with
  | token token =>
    obtain ⟨row, member, same, usable, rfl⟩ := mem_holders_token.mp holds
    exact mem_holders_token.mpr ⟨row, member, same, tokenUsable_earlier order usable, rfl⟩
  | key key => exact holds
  | session idHash => exact holds

theorem holders_sessionMiddleware
    (holds : owner ∈ holders (sessionMiddleware policy db stamp cookie).2 now credential) :
    owner ∈ holders db now credential := by
  rcases sessionMiddleware_cases policy db stamp cookie with same | ⟨rawID, same⟩ |
    ⟨rawID, session, after, _, _, same, rfl | ⟨ttl, rfl⟩⟩
  · rwa [same] at holds
  · rw [same] at holds
    exact (holders_deleteSessionByHash holds).1
  · rwa [same] at holds
  · rwa [same, holders_touchSession] at holds

theorem sessionMiddleware_users :
    (sessionMiddleware policy db stamp cookie).2.users = db.users := by
  rcases sessionMiddleware_cases policy db stamp cookie with same | ⟨rawID, same⟩ |
    ⟨rawID, session, after, _, _, same, rfl | ⟨ttl, rfl⟩⟩ <;> rw [same] <;> rfl

end Databases

section Tables

variable {db : Database}

theorem Owned.of_rows {db' : Database} (owned : Owned db)
    (users : ∀ id, (db.user id).isSome → (db'.user id).isSome)
    (tokens : ∀ row ∈ db'.tokens, ∃ old ∈ db.tokens, old.userID = row.userID)
    (keys : ∀ key ∈ db'.sshKeys, ∃ old ∈ db.sshKeys, keyUser old = keyUser key)
    (sessions : ∀ row ∈ db'.sessions, ∃ old ∈ db.sessions, old.userID = row.userID) : Owned db' where
  tokens row member := by
    obtain ⟨old, present, same⟩ := tokens row member
    exact users _ (same ▸ owned.tokens old present)
  keys key member id owns := by
    obtain ⟨old, present, same⟩ := keys key member
    exact users _ (owned.keys old present id (same.trans owns))
  sessions row member := by
    obtain ⟨old, present, same⟩ := sessions row member
    exact users _ (same ▸ owned.sessions old present)

theorem user_isSome_setDisabledAt {name : Username} {disabledAt : Option Seconds} (id : UserID)
    (present : (db.user id).isSome) : ((db.setDisabledAt name disabledAt).user id).isSome := by
  rw [user_setDisabledAt, isSome_map]
  exact present

theorem owned_setDisabledAt (owned : Owned db) (name : Username) (disabledAt : Option Seconds) :
    Owned (db.setDisabledAt name disabledAt) :=
  owned.of_rows user_isSome_setDisabledAt (fun row member => ⟨row, member, rfl⟩)
    (fun key member => ⟨key, member, rfl⟩) fun row member => ⟨row, member, rfl⟩

theorem owned_createUser (owned : Owned db) (name : Username) (id : UserID) (isAdmin : Bool) :
    Owned ((db.createUser name id isAdmin).getD db) := by
  have users (other : UserID) (present : (db.user other).isSome) :
      (((db.createUser name id isAdmin).getD db).user other).isSome := by
    obtain ⟨row, found⟩ := isSome_iff_exists.mp present
    rw [user_createUser found]
    rfl
  unfold Database.createUser at users ⊢
  by_cases taken : (db.users.any fun row => decide (row.name = name) || decide (row.id = id)) = true
  · rw [if_pos taken]
    exact owned
  · rw [if_neg taken] at users ⊢
    exact owned.of_rows users (fun row member => ⟨row, member, rfl⟩)
      (fun key member => ⟨key, member, rfl⟩) fun row member => ⟨row, member, rfl⟩

theorem owned_deleteUserRows (owned : Owned db) (name : Username) : Owned (db.deleteUserRows name) := by
  have kept (id : UserID) (present : (db.user id).isSome) (other : db.isNamed name id = false) :
      ((db.deleteUserRows name).user id).isSome := by
    obtain ⟨user, found⟩ := isSome_iff_exists.mp present
    rw [user_deleteUserRows found]
    · rfl
    · intro same
      rw [isNamed_iff.mpr ⟨user, found, same⟩] at other
      cases other
  refine ⟨fun row member => ?_, fun key member id owns => ?_, fun row member => ?_⟩
  · obtain ⟨present, other⟩ := mem_filter.mp member
    exact kept _ (owned.tokens row present) (by simpa using other)
  · obtain ⟨present, other⟩ := mem_filter.mp member
    refine kept _ (owned.keys key present id owns) ?_
    cases owner : key.owner with
    | user user =>
      simp only [keyUser, owner, some.injEq] at owns
      subst owns
      simpa [ownsKey, owner] using other
    | deploy scope => simp [keyUser, owner] at owns
  · obtain ⟨present, other⟩ := mem_filter.mp member
    exact kept _ (owned.sessions row present) (by simpa using other)

theorem isSome_of_accepted {taken : Bool} {found : Option UserRow}
    (accepted : ¬(taken || found.isNone) = true) : found.isSome = true := by
  cases found with
  | none => simp at accepted
  | some user => rfl

section

variable (owned : Owned db)

include owned

theorem owned_createToken (row : TokenRow) : Owned ((db.createToken row).getD db) := by
  unfold Database.createToken
  split
  · exact owned
  · rename_i accepted
    refine ⟨fun found member => ?_, owned.keys, owned.sessions⟩
    rcases mem_append.mp member with old | new
    · exact owned.tokens found old
    · obtain rfl := mem_singleton.mp new
      exact isSome_of_accepted accepted

theorem owned_addKey {key : SshKeyRow} (present : ∀ id, keyUser key = some id → (db.user id).isSome) :
    Owned { db with sshKeys := db.sshKeys ++ [key] } := by
  refine ⟨owned.tokens, fun found member id owns => ?_, owned.sessions⟩
  rcases mem_append.mp member with old | new
  · exact owned.keys found old id owns
  · obtain rfl := mem_singleton.mp new
    exact present id owns

theorem owned_addUserKey (id : KeyID) (fingerprint : Fingerprint) (label : String) (userID : UserID)
    : Owned ((db.addUserKey id fingerprint label userID).getD db) := by
  unfold Database.addUserKey
  split
  · exact owned
  · rename_i accepted
    refine owned_addKey owned fun owner owns => ?_
    cases owns
    exact isSome_of_accepted accepted

theorem owned_addDeployKey (id : KeyID) (fingerprint : Fingerprint) (label : String) (scope : Scope) :
    Owned ((db.addDeployKey id fingerprint label scope).getD db) := by
  unfold Database.addDeployKey
  split
  · exact owned
  split
  · exact owned
  · exact owned_addKey owned fun owner owns => (nomatch owns)

theorem owned_createSession (hash : String → String) (now : Seconds) (rawID : String)
    (userID : UserID) (ttl : Seconds) :
    Owned ((db.createSession hash now rawID userID ttl).getD db) := by
  unfold Database.createSession
  split
  · exact owned
  · rename_i accepted
    refine ⟨owned.tokens, owned.keys, fun found member => ?_⟩
    rcases mem_append.mp member with old | new
    · exact owned.sessions found old
    · obtain rfl := mem_singleton.mp new
      exact isSome_of_accepted accepted

theorem owned_revokeToken (id : TokenID) (now : Seconds) : Owned (db.revokeToken id now) := by
  refine ⟨fun row member => ?_, owned.keys, owned.sessions⟩
  obtain ⟨old, present, rfl⟩ := List.mem_map.mp member
  split <;> exact owned.tokens old present

theorem owned_revokeSSHKey (keyIDOrPrefix : String) (now : Seconds) :
    Owned (db.revokeSSHKey keyIDOrPrefix now) := by
  unfold Database.revokeSSHKey
  split
  · exact owned
  · refine ⟨owned.tokens, fun key member id owns => ?_, owned.sessions⟩
    obtain ⟨old, present, rfl⟩ := List.mem_map.mp member
    refine owned.keys old present id ?_
    split at owns <;> exact owns

theorem owned_deleteSessionByHash (idHash : String) : Owned (db.deleteSessionByHash idHash) :=
  ⟨owned.tokens, owned.keys, fun row member => owned.sessions row (mem_of_mem_filter member)⟩

theorem owned_touchSession (hash : String → String) (now : Seconds) (rawID : String) (ttl : Seconds)
    : Owned (db.touchSession hash now rawID ttl) := by
  refine ⟨owned.tokens, owned.keys, fun row member => ?_⟩
  obtain ⟨old, present, rfl⟩ := List.mem_map.mp member
  split <;> exact owned.sessions old present

end

end Tables

/-! Changes of credentials and accounts among HTTP requests, web requests and exec channels on
open SSH connections. What has ended stays ended. -/

open Gateway Transition

/-- An SSH connection that is open. The marks say what happened since its handshake: its key
was revoked or its user deleted, or its user is disabled. No code of the source keeps them. -/
structure Held where
  connection : Sshd.Connection
  ended : Bool
  suspended : Bool
  deriving DecidableEq

def Held.ofUser (db : Database) (name : Username) (held : Held) : Bool :=
  held.connection.scope.isNone && db.isNamed name held.connection.actor.userID

structure World where
  db : Database
  now : Seconds
  connections : List Held

inductive Act where
  | createUser (id : UserID) (name : Username) (isAdmin : Bool)
  | setUserDisabled (name : Username)
  | setUserEnabled (name : Username)
  | deleteUser (name : Username)
  | createToken (row : TokenRow)
  | revokeToken (id : TokenID)
  | addUserKey (id : KeyID) (fingerprint : Fingerprint) (label : String) (userID : UserID)
  | addDeployKey (id : KeyID) (fingerprint : Fingerprint) (label : String) (scope : Scope)
  | revokeSSHKey (keyIDOrPrefix : String)
  | createSession (rawID : String) (userID : UserID) (ttl : Seconds)
  | touchSession (rawID : String) (ttl : Seconds)
  | deleteSession (rawID : String)
  | deleteSessionByHash (idHash : String)
  /-- Any change that leaves the users and the credentials as they are. -/
  | elsewhere (db : Database)
  | wait (seconds : ℕ)
  | http (throttle : Throttle) (moment : Moment) (request : Request) (rr : RoutedRequest)
  | web (cookie : Option String)
  | connect (fingerprint : Fingerprint)
  | close (held : Held)
  | exec (held : Held) (cmd : Sshd.ExecCommand)

namespace World

variable (policy : SessionPolicy) (w : World)

def nextDb : Act → Database
  | .createUser id name isAdmin => (w.db.createUser name id isAdmin).getD w.db
  | .setUserDisabled name => (w.db.setUserDisabled name w.now).toOption.getD w.db
  | .setUserEnabled name => (w.db.setUserEnabled name).toOption.getD w.db
  | .deleteUser name => (w.db.deleteUser name).toOption.getD w.db
  | .createToken row => (w.db.createToken row).getD w.db
  | .revokeToken id => w.db.revokeToken id w.now
  | .addUserKey id fingerprint label userID => (w.db.addUserKey id fingerprint label userID).getD w.db
  | .addDeployKey id fingerprint label scope => (w.db.addDeployKey id fingerprint label scope).getD w.db
  | .revokeSSHKey keyIDOrPrefix => w.db.revokeSSHKey keyIDOrPrefix w.now
  | .createSession rawID userID ttl =>
    (w.db.createSession policy.hashSessionID w.now rawID userID ttl).getD w.db
  | .touchSession rawID ttl => w.db.touchSession policy.hashSessionID w.now rawID ttl
  | .deleteSession rawID => w.db.deleteSession policy.hashSessionID rawID
  | .deleteSessionByHash idHash => w.db.deleteSessionByHash idHash
  | .elsewhere db => db
  | .web cookie => (sessionMiddleware policy w.db w.now cookie).2
  | .wait _ | .http .. | .connect _ | .close _ | .exec .. => w.db

def nextNow : Act → Seconds
  | .wait seconds => w.now + seconds
  | _ => w.now

def nextConnections : Act → List Held
  | .setUserDisabled name =>
    match w.db.checkRemoval name with
    | .ok _ => w.connections.map fun held =>
      if held.ofUser w.db name then { held with suspended := true } else held
    | .error _ => w.connections
  | .setUserEnabled name =>
    match w.db.setUserEnabled name with
    | .ok _ => w.connections.map fun held =>
      if held.ofUser w.db name then { held with suspended := false } else held
    | .error _ => w.connections
  | .deleteUser name =>
    match w.db.checkRemoval name with
    | .ok _ => w.connections.map fun held =>
      if held.ofUser w.db name then { held with ended := true } else held
    | .error _ => w.connections
  | .revokeSSHKey keyIDOrPrefix => w.connections.map fun held =>
    if w.db.matchedKey keyIDOrPrefix = some held.connection.keyID then { held with ended := true }
    else held
  | .connect fingerprint =>
    match Sshd.connect w.db fingerprint with
    | .ok connection => ⟨connection, false, false⟩ :: w.connections
    | .error _ => w.connections
  | .close held => w.connections.erase held
  | _ => w.connections

def apply (act : Act) : World := ⟨w.nextDb policy act, w.nextNow act, w.nextConnections act⟩

def Possible : Act → Prop
  | .elsewhere db =>
    db.users = w.db.users ∧ db.tokens = w.db.tokens ∧ db.sshKeys = w.db.sshKeys ∧
      db.sessions = w.db.sessions
  | .close held | .exec held _ => held ∈ w.connections
  | _ => True

end World

def Step (policy : SessionPolicy) (w : World) (act : Act) (w' : World) : Prop :=
  w.Possible act ∧ w' = w.apply policy act

/-- The change commits and ends the credential or the account behind it. -/
def Ends (policy : SessionPolicy) (w : World) : Act → Credential → Prop
  | .revokeToken id, .token token => id = token
  | .wait seconds, .token token =>
    ∀ row ∈ w.db.tokens, row.id = token → ∃ limit, row.expiresAt = some limit ∧ limit ≤ w.now + seconds
  | .revokeSSHKey keyIDOrPrefix, .key key => w.db.matchedKey keyIDOrPrefix = some key
  | .setUserDisabled name, credential | .deleteUser name, credential =>
    w.db.checkRemoval name = .ok () ∧
      ∀ owner ∈ holders w.db w.now credential, ∃ id, owner = some id ∧ w.db.isNamed name id = true
  | .deleteSession rawID, .session idHash => policy.hashSessionID rawID = idHash
  | .deleteSessionByHash deleted, .session idHash => deleted = idHash
  | _, _ => False

/-- The change enables the account again or makes another credential of the same id. -/
def Restores (policy : SessionPolicy) (w : World) : Act → Credential → Prop
  | .setUserEnabled name, credential =>
    ∃ id, some id ∈ holders w.db w.now credential ∧ w.db.isNamed name id = true
  | .createToken row, .token token => row.id = token
  | .addUserKey id _ _ _, .key key | .addDeployKey id _ _ _, .key key => id = key
  | .createSession rawID _ _, .session idHash => policy.hashSessionID rawID = idHash
  | _, _ => False

section Steps

variable {policy : SessionPolicy} {w : World} {credential : Credential}

variable {act : Act} {db : Database} {name : Username}

attribute [local simp] World.nextDb

theorem not_stands_of_ends (ends : Ends policy w act credential) :
    ¬Stands (w.nextDb policy act) (w.nextNow act) credential := by
  rintro ⟨owner, holds, enabled⟩
  cases act with
  | revokeToken id =>
    cases credential with
    | token token =>
      obtain rfl : id = token := ends
      exact (holders_revokeToken holds).2 rfl
    | _ => exact ends
  | wait seconds =>
    cases credential with
    | token token =>
      obtain ⟨row, member, same, usable, _⟩ := mem_holders_token.mp holds
      obtain ⟨limit, expires, passed⟩ := ends row member same
      simp only [tokenUsable, expires, Bool.and_eq_true, all_some, decide_eq_true_eq] at usable
      exact absurd usable.2 (not_lt.mpr passed)
    | _ => exact ends
  | revokeSSHKey keyIDOrPrefix =>
    cases credential with
    | key key => exact (holders_revokeSSHKey holds).2 key ends rfl
    | _ => exact ends
  | setUserDisabled name =>
    obtain ⟨committed, owns⟩ := ends
    have after : w.nextDb policy (.setUserDisabled name) = w.db.setDisabledAt name (some w.now) := by
      simp [Database.setUserDisabled, committed, Except.toOption]
    rw [after] at holds enabled
    have held : owner ∈ holders w.db w.now credential := by
      cases credential <;> exact holds
    obtain ⟨id, rfl, named⟩ := owns owner held
    exact not_enabled_of_disabled w.now named (enabled id rfl)
  | deleteUser name =>
    obtain ⟨committed, owns⟩ := ends
    have after : w.nextDb policy (.deleteUser name) = w.db.deleteUserRows name := by
      simp [Database.deleteUser, committed, Except.toOption]
    rw [after] at holds
    obtain ⟨held, others⟩ := holders_deleteUserRows holds
    obtain ⟨id, rfl, named⟩ := owns owner held
    rw [others id rfl] at named
    cases named
  | deleteSession rawID =>
    cases credential with
    | session idHash =>
      obtain rfl : policy.hashSessionID rawID = idHash := ends
      exact (holders_deleteSessionByHash holds).2 rfl
    | _ => exact ends
  | deleteSessionByHash deleted =>
    cases credential with
    | session idHash =>
      obtain rfl : deleted = idHash := ends
      exact (holders_deleteSessionByHash holds).2 rfl
    | _ => exact ends
  | _ => cases credential <;> exact ends

theorem stands_of_holders (stands : Stands db w.now credential) (users : db.users = w.db.users)
    (fewer : ∀ owner ∈ holders db w.now credential, owner ∈ holders w.db w.now credential) :
    Stands w.db w.now credential :=
  stands.of_changed fewer fun _ _ _ enabled => enabled.of_users users

theorem stands_createUser {id : UserID} {isAdmin : Bool} (owned : Owned w.db)
    (stands : Stands ((w.db.createUser name id isAdmin).getD w.db) w.now credential) :
    Stands w.db w.now credential := by
  refine stands.of_changed (fun owner holds => ?_) ?_
  · unfold Database.createUser at holds
    split at holds
    · exact holds
    · cases credential <;> exact holds
  · rintro holder before _ ⟨user, found, enabled⟩
    obtain ⟨row, present⟩ := isSome_iff_exists.mp (owned.of_holder before)
    rw [user_createUser present] at found
    cases found
    exact ⟨_, present, enabled⟩

theorem stands_createToken {row : TokenRow} (other : credential ≠ .token row.id)
    (stands : Stands ((w.db.createToken row).getD w.db) w.now credential) :
    Stands w.db w.now credential := by
  unfold Database.createToken at stands
  split at stands
  · exact stands
  · refine stands_of_holders stands rfl ?_
    intro owner holds
    cases credential with
    | token token =>
      obtain ⟨found, member, same, usable, rfl⟩ := mem_holders_token.mp holds
      rcases mem_append.mp member with old | new
      · exact mem_holders_token.mpr ⟨found, old, same, usable, rfl⟩
      · obtain rfl := mem_singleton.mp new
        exact absurd (congrArg Credential.token same.symm) other
    | key key => exact holds
    | session idHash => exact holds

theorem stands_addKey {key : SshKeyRow} (other : credential ≠ .key key.id)
    (added : db = { w.db with sshKeys := w.db.sshKeys ++ [key] })
    (stands : Stands db w.now credential) : Stands w.db w.now credential := by
  subst added
  refine stands_of_holders stands rfl ?_
  intro owner holds
  cases credential with
  | key id =>
    obtain ⟨found, member, same, usable, rfl⟩ := mem_holders_key.mp holds
    rcases mem_append.mp member with old | new
    · exact mem_holders_key.mpr ⟨found, old, same, usable, rfl⟩
    · obtain rfl := mem_singleton.mp new
      exact absurd (congrArg Credential.key same.symm) other
  | token token => exact holds
  | session idHash => exact holds

theorem stands_createSession {rawID : String} {userID : UserID} {ttl : Seconds}
    (other : credential ≠ .session (policy.hashSessionID rawID))
    (stands : Stands ((w.db.createSession policy.hashSessionID w.now rawID userID ttl).getD w.db)
      w.now credential) : Stands w.db w.now credential := by
  unfold Database.createSession at stands
  split at stands
  · exact stands
  · refine stands_of_holders stands rfl ?_
    intro owner holds
    cases credential with
    | session idHash =>
      obtain ⟨found, member, same, rfl⟩ := mem_holders_session.mp holds
      rcases mem_append.mp member with old | new
      · exact mem_holders_session.mpr ⟨found, old, same, rfl⟩
      · obtain rfl := mem_singleton.mp new
        exact absurd (congrArg Credential.session same.symm) other
    | token token => exact holds
    | key key => exact holds

theorem holders_setDisabledAt {now : Seconds} {disabledAt : Option Seconds} :
    holders (db.setDisabledAt name disabledAt) now credential = holders db now credential := by
  cases credential <;> rfl

theorem stands_setUserEnabled
    (others : ∀ id, some id ∈ holders w.db w.now credential → w.db.isNamed name id = false)
    (stands : Stands ((w.db.setUserEnabled name).toOption.getD w.db) w.now credential) :
    Stands w.db w.now credential := by
  unfold Database.setUserEnabled at stands
  split at stands
  · exact stands
  split at stands
  · refine stands.of_changed (fun owner holds => holders_setDisabledAt ▸ holds) ?_
    intro id before _ enabled
    exact (enabled_setDisabledAt_of_not_named (others id before)).mp enabled
  · exact stands

theorem stands_setUserDisabled
    (stands : Stands ((w.db.setUserDisabled name w.now).toOption.getD w.db) w.now credential) :
    Stands w.db w.now credential := by
  unfold Database.setUserDisabled at stands
  split at stands
  · exact stands.of_changed (fun owner holds => holders_setDisabledAt ▸ holds)
      fun id _ _ enabled => enabled.of_disabled
  · exact stands

theorem stands_deleteUser (owned : Owned w.db)
    (stands : Stands ((w.db.deleteUser name).toOption.getD w.db) w.now credential) :
    Stands w.db w.now credential := by
  unfold Database.deleteUser at stands
  split at stands
  · refine stands.of_changed (fun owner holds => (holders_deleteUserRows holds).1) ?_
    rintro id before after ⟨user, found, enabled⟩
    obtain ⟨row, present⟩ := isSome_iff_exists.mp (owned.of_holder before)
    have other : row.name ≠ name := by
      intro same
      have named := (holders_deleteUserRows after).2 id rfl
      rw [isNamed_iff.mpr ⟨row, present, same⟩] at named
      cases named
    obtain rfl := some.inj ((user_deleteUserRows present other).symm.trans found)
    exact ⟨row, present, enabled⟩
  · exact stands

/-- What has ended stays ended, until the account is enabled again or another credential is
made under the same id. -/
theorem stands_back (owned : Owned w.db) (possible : w.Possible act)
    (kept : ¬Restores policy w act credential)
    (stands : Stands (w.nextDb policy act) (w.nextNow act) credential) :
    Stands w.db w.now credential := by
  cases act with
  | createUser id name isAdmin => exact stands_createUser owned stands
  | setUserDisabled name => exact stands_setUserDisabled stands
  | setUserEnabled name =>
    refine stands_setUserEnabled (fun id holds => ?_) stands
    by_contra named
    exact kept (by cases credential <;> exact ⟨id, holds, by simpa using named⟩)
  | deleteUser name => exact stands_deleteUser owned stands
  | createToken row =>
    refine stands_createToken ?_ stands
    rintro rfl
    exact kept rfl
  | revokeToken id => exact stands_of_holders stands rfl fun _ holds => (holders_revokeToken holds).1
  | addUserKey id fingerprint label userID =>
    simp only [World.nextDb, Database.addUserKey] at stands
    split at stands
    · exact stands
    · refine stands_addKey ?_ rfl stands
      rintro rfl
      exact kept rfl
  | addDeployKey id fingerprint label scope =>
    simp only [World.nextDb, Database.addDeployKey] at stands
    split at stands
    · exact stands
    · split at stands
      · exact stands
      · refine stands_addKey ?_ rfl stands
        rintro rfl
        exact kept rfl
  | revokeSSHKey keyIDOrPrefix =>
    refine stands_of_holders stands ?_ fun _ holds => (holders_revokeSSHKey holds).1
    unfold World.nextDb Database.revokeSSHKey
    dsimp only
    split <;> rfl
  | createSession rawID userID ttl =>
    refine stands_createSession ?_ stands
    rintro rfl
    exact kept rfl
  | touchSession rawID ttl =>
    exact stands_of_holders stands rfl fun _ holds => holders_touchSession ▸ holds
  | deleteSession rawID | deleteSessionByHash idHash =>
    exact stands_of_holders stands rfl fun _ holds => (holders_deleteSessionByHash holds).1
  | elsewhere db =>
    obtain ⟨users, tokens, keys, sessions⟩ := possible
    refine stands_of_holders stands users fun owner holds => ?_
    cases credential with
    | token token => simpa [holders, tokens] using holds
    | key key => simpa [holders, keys] using holds
    | session idHash => simpa [holders, sessions] using holds
  | wait seconds =>
    refine stands.of_changed (fun _ holds => holders_earlier ?_ holds) fun _ _ _ enabled => enabled
    exact le_add_of_nonneg_right (Int.natCast_nonneg seconds)
  | web cookie =>
    exact stands_of_holders stands sessionMiddleware_users
      fun _ holds => holders_sessionMiddleware holds
  | http throttle moment request rr => exact stands
  | connect fingerprint => exact stands
  | close held => exact stands
  | exec held cmd => exact stands

end Steps

end BucketVcs.Revocation
