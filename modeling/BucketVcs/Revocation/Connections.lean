import BucketVcs.Revocation.Credentials

/-! What an open SSH connection may rely on, and what an ended credential no longer allows. -/

namespace BucketVcs.Revocation

open Auth Auth.Database Gateway Web Transition List World

/-- What an open connection without marks may rely on. -/
structure HeldSound (db : Database) (held : Held) : Prop where
  key : held.ended = false → ∃ key ∈ db.sshKeys, key.id = held.connection.keyID ∧
    key.revokedAt = none ∧
    keyUser key = if held.connection.scope.isNone then some held.connection.actor.userID else none
  user : held.ended = false → held.suspended = false → held.connection.scope = none →
    db.Enabled held.connection.actor.userID

structure Sound (w : World) : Prop where
  owned : Owned w.db
  held : ∀ held ∈ w.connections, HeldSound w.db held

section Connections

variable {db db' : Database} {held : Held}

theorem HeldSound.stands (sound : HeldSound db held) (now : Seconds) (live : held.ended = false)
    (active : held.suspended = false) : Stands db now (.key held.connection.keyID) := by
  obtain ⟨key, member, same, usable, owner⟩ := sound.key live
  refine ⟨keyUser key, mem_holders_key.mpr ⟨key, member, same, usable, rfl⟩, ?_⟩
  intro id owns
  rw [owns] at owner
  cases scope : held.connection.scope with
  | none =>
    rw [scope] at owner
    cases owner
    exact sound.user live active scope
  | some bound =>
    rw [scope] at owner
    cases owner

theorem HeldSound.mono (sound : HeldSound db held) (keys : ∀ key ∈ db.sshKeys, key ∈ db'.sshKeys)
    (users : ∀ id, db.Enabled id → db'.Enabled id) : HeldSound db' held where
  key live := by
    obtain ⟨key, member, rest⟩ := sound.key live
    exact ⟨key, keys key member, rest⟩
  user live active own := users _ (sound.user live active own)

theorem HeldSound.of_tables (sound : HeldSound db held) (keys : db'.sshKeys = db.sshKeys)
    (users : db'.users = db.users) : HeldSound db' held :=
  sound.mono (fun _ member => keys ▸ member) fun _ enabled => enabled.of_users users.symm

theorem heldSound_connect (owned : Owned db) {fingerprint : Fingerprint}
    {connection : Sshd.Connection} (made : Sshd.connect db fingerprint = .ok connection) :
    HeldSound db ⟨connection, false, false⟩ := by
  unfold Sshd.connect at made
  split at made
  · rename_i actor keyID scope verified
    cases made
    unfold verifySSHKey at verified
    split at verified
    · cases verified
    rename_i key found
    have member := List.mem_of_find?_eq_some found
    split at verified
    · cases verified
    rename_i live
    have usable : key.revokedAt = none := by simpa using live
    split at verified
    · rename_i id owner
      have owns : keyUser key = some id := by simp [keyUser, owner]
      split at verified
      · rename_i missing
        have present := owned.keys key member id owns
        rw [missing] at present
        cases present
      · rename_i user present
        have same : user.id = id := by simpa using List.find?_some present
        split at verified
        · cases verified
        · rename_i enabled
          cases verified
          refine ⟨fun _ => ⟨key, member, rfl, usable, by simp [owns, same]⟩, fun _ _ _ => ?_⟩
          exact ⟨user, same ▸ present, by simpa using enabled⟩
    · rename_i scope owner
      cases verified
      refine ⟨fun _ => ⟨key, member, rfl, usable, by simp [keyUser, owner]⟩, fun _ _ own => ?_⟩
      cases own
  · cases made

section

variable (sound : HeldSound db held)
include sound

theorem heldSound_revokeSSHKey (keyIDOrPrefix : String) (now : Seconds) :
    HeldSound (db.revokeSSHKey keyIDOrPrefix now)
      (if db.matchedKey keyIDOrPrefix = some held.connection.keyID then { held with ended := true }
        else held) := by
  unfold revokeSSHKey
  split
  · rename_i unmatched
    rw [if_neg (by simp [unmatched])]
    exact sound
  rename_i id matched
  rw [matched]
  split
  · exact ⟨nofun, nofun⟩
  · rename_i other
    refine ⟨fun live => ?_, sound.user⟩
    obtain ⟨key, member, same, rest⟩ := sound.key live
    refine ⟨key, mem_map.mpr ⟨key, member, if_neg ?_⟩, same, rest⟩
    rintro rfl
    exact other (by rw [same])

theorem heldSound_other {name : Username} (other : ¬held.ofUser db name = true)
    (disabledAt : Option Seconds) : HeldSound (db.setDisabledAt name disabledAt) held := by
  refine ⟨sound.key, fun live active own => ?_⟩
  have differs : db.isNamed name held.connection.actor.userID = false := by
    simpa [Held.ofUser, own] using other
  exact (enabled_setDisabledAt_of_not_named differs).mpr (sound.user live active own)

theorem heldSound_disabled (name : Username) (now : Seconds) :
    HeldSound (db.setDisabledAt name (some now))
      (if held.ofUser db name then { held with suspended := true } else held) := by
  split
  · exact ⟨sound.key, nofun⟩
  · rename_i other
    exact heldSound_other sound other _

theorem heldSound_enabled (name : Username) :
    HeldSound (db.setDisabledAt name none)
      (if held.ofUser db name then { held with suspended := false } else held) := by
  split
  · rename_i named
    refine ⟨sound.key, fun _ _ _ => ?_⟩
    exact enabled_of_setUserEnabled (Bool.and_eq_true _ _ ▸ named).2
  · rename_i other
    exact heldSound_other sound other _

theorem heldSound_deleted (name : Username) :
    HeldSound (db.deleteUserRows name)
      (if held.ofUser db name then { held with ended := true } else held) := by
  split
  · exact ⟨nofun, nofun⟩
  · rename_i other
    have differs (own : held.connection.scope = none) :
        db.isNamed name held.connection.actor.userID = false := by
      simpa [Held.ofUser, own] using other
    refine ⟨fun live => ?_, fun live active own => ?_⟩
    · obtain ⟨key, member, same, usable, owner⟩ := sound.key live
      refine ⟨key, mem_filter.mpr ⟨member, ?_⟩, same, usable, owner⟩
      cases owned : key.owner with
      | deploy scope => simp [ownsKey, owned]
      | user id =>
        cases scope : held.connection.scope with
        | some bound => simp [keyUser, owned, scope] at owner
        | none =>
          have sameUser : id = held.connection.actor.userID := by
            simpa [keyUser, owned, scope] using owner
          simpa [ownsKey, owned, sameUser] using differs scope
    · obtain ⟨user, found, enabled⟩ := sound.user live active own
      refine ⟨user, user_deleteUserRows found ?_, enabled⟩
      intro same
      have named := differs own
      rw [isNamed_iff.mpr ⟨user, found, same⟩] at named
      cases named

end

end Connections

section Runs

variable {codec : TokenCodec} {policy : SessionPolicy} {w : World} {act : Act}

theorem owned_nextDb (owned : Owned w.db) (possible : w.Possible act) :
    Owned (w.nextDb policy act) := by
  cases act with
  | createUser id name isAdmin => exact owned_createUser owned name id isAdmin
  | setUserDisabled name =>
    simp only [nextDb, Database.setUserDisabled]
    split
    · exact owned_setDisabledAt owned name _
    · exact owned
  | setUserEnabled name =>
    simp only [nextDb, Database.setUserEnabled]
    split
    · exact owned
    split
    · exact owned_setDisabledAt owned name none
    · exact owned
  | deleteUser name =>
    simp only [nextDb, Database.deleteUser]
    split
    · exact owned_deleteUserRows owned name
    · exact owned
  | createToken row => exact owned_createToken owned row
  | revokeToken id => exact owned_revokeToken owned id w.now
  | addUserKey id fingerprint label userID => exact owned_addUserKey owned id fingerprint label userID
  | addDeployKey id fingerprint label scope =>
    exact owned_addDeployKey owned id fingerprint label scope
  | revokeSSHKey keyIDOrPrefix => exact owned_revokeSSHKey owned keyIDOrPrefix w.now
  | createSession rawID userID ttl => exact owned_createSession owned _ _ rawID userID ttl
  | touchSession rawID ttl => exact owned_touchSession owned _ _ rawID ttl
  | deleteSession rawID => exact owned_deleteSessionByHash owned _
  | deleteSessionByHash idHash => exact owned_deleteSessionByHash owned idHash
  | elsewhere db =>
    obtain ⟨users, tokens, keys, sessions⟩ := possible
    refine owned.of_rows (fun id present => ?_) (fun row member => ⟨row, tokens ▸ member, rfl⟩)
      (fun key member => ⟨key, keys ▸ member, rfl⟩) fun row member => ⟨row, sessions ▸ member, rfl⟩
    unfold Database.user at present ⊢
    rw [nextDb, users]
    exact present
  | web cookie =>
    rcases sessionMiddleware_cases policy w.db w.now cookie with same | ⟨rawID, same⟩ |
      ⟨rawID, session, after, _, _, same, rfl | ⟨ttl, rfl⟩⟩ <;> simp only [nextDb, same]
    · exact owned
    · exact owned_deleteSessionByHash owned _
    · exact owned
    · exact owned_touchSession owned _ _ rawID ttl
  | wait seconds => exact owned
  | http throttle moment request rr => exact owned
  | connect fingerprint => exact owned
  | close held => exact owned
  | exec held cmd => exact owned

theorem sshKeys_sessionMiddleware {db : Database} {now : Seconds} {cookie : Option String} :
    (sessionMiddleware policy db now cookie).2.sshKeys = db.sshKeys := by
  rcases sessionMiddleware_cases policy db now cookie with same | ⟨rawID, same⟩ |
    ⟨rawID, session, after, _, _, same, rfl | ⟨ttl, rfl⟩⟩ <;> rw [same] <;> rfl

theorem held_nextConnections (sound : Sound w) (possible : w.Possible act) :
    ∀ held ∈ w.nextConnections act, HeldSound (w.nextDb policy act) held := by
  cases act with
  | createUser id name isAdmin =>
    intro held member
    refine (sound.held held member).mono (fun key present => ?_) ?_
    · simp only [nextDb, Database.createUser]
      split <;> exact present
    · rintro id ⟨user, found, enabled⟩
      exact ⟨user, user_createUser found, enabled⟩
  | setUserDisabled name =>
    intro held member
    cases checked : w.db.checkRemoval name with
    | ok allowed =>
      simp only [nextConnections, nextDb, Database.setUserDisabled, checked] at member ⊢
      obtain ⟨before, present, rfl⟩ := mem_map.mp member
      exact heldSound_disabled (sound.held before present) name w.now
    | error problem =>
      simp only [nextConnections, nextDb, Database.setUserDisabled, checked] at member ⊢
      exact sound.held held member
  | setUserEnabled name =>
    intro held member
    rcases setUserEnabled_cases w.db name with enabled | ⟨problem, refused⟩
    · simp only [nextConnections, nextDb, enabled] at member ⊢
      obtain ⟨before, present, rfl⟩ := mem_map.mp member
      exact heldSound_enabled (sound.held before present) name
    · simp only [nextConnections, nextDb, refused] at member ⊢
      exact sound.held held member
  | deleteUser name =>
    intro held member
    cases checked : w.db.checkRemoval name with
    | ok allowed =>
      simp only [nextConnections, nextDb, Database.deleteUser, checked] at member ⊢
      obtain ⟨before, present, rfl⟩ := mem_map.mp member
      exact heldSound_deleted (sound.held before present) name
    | error problem =>
      simp only [nextConnections, nextDb, Database.deleteUser, checked] at member ⊢
      exact sound.held held member
  | createToken row =>
    intro held member
    refine (sound.held held member).of_tables ?_ ?_ <;>
      (simp only [nextDb, Database.createToken]; split <;> rfl)
  | revokeToken id | touchSession rawID ttl | deleteSession rawID | deleteSessionByHash idHash =>
    exact fun held member => (sound.held held member).of_tables rfl rfl
  | addUserKey id fingerprint label userID =>
    intro held member
    refine (sound.held held member).mono (fun key present => ?_) fun _ enabled => enabled.of_users ?_
    · simp only [nextDb, Database.addUserKey]
      split
      · exact present
      · exact mem_append_left _ present
    · simp only [nextDb, Database.addUserKey]
      split <;> rfl
  | addDeployKey id fingerprint label scope =>
    intro held member
    refine (sound.held held member).mono (fun key present => ?_) fun _ enabled => enabled.of_users ?_
    · simp only [nextDb, Database.addDeployKey]
      split
      · exact present
      split
      · exact present
      · exact mem_append_left _ present
    · simp only [nextDb, Database.addDeployKey]
      split
      · rfl
      split <;> rfl
  | revokeSSHKey keyIDOrPrefix =>
    intro held member
    obtain ⟨before, present, rfl⟩ := mem_map.mp member
    exact heldSound_revokeSSHKey (sound.held before present) keyIDOrPrefix w.now
  | createSession rawID userID ttl =>
    intro held member
    refine (sound.held held member).of_tables ?_ ?_ <;>
      (simp only [nextDb, Database.createSession]; split <;> rfl)
  | elsewhere db =>
    exact fun held member => (sound.held held member).of_tables possible.2.2.1 possible.1
  | web cookie =>
    exact fun held member => (sound.held held member).of_tables sshKeys_sessionMiddleware
      sessionMiddleware_users
  | connect fingerprint =>
    intro held member
    simp only [nextConnections] at member
    split at member
    · rename_i connection made
      rcases mem_cons.mp member with rfl | old
      · exact heldSound_connect sound.owned made
      · exact sound.held held old
    · exact sound.held held member
  | close held' => exact fun held member => sound.held held (mem_of_mem_erase member)
  | wait seconds | http throttle moment request rr | exec held' cmd => exact sound.held

/-- The operation is let through on the strength of the credential. -/
def Authorised (codec : TokenCodec) (policy : SessionPolicy) (w : World) : Act → Credential → Prop
  | .http throttle moment request rr, .token id =>
    ∃ passed after basic secret,
      runAuth (w.db.store codec w.now) throttle moment request rr = (.ok passed, after) ∧
      request.basicAuth = some basic ∧ codec.parseToken basic.password = some (id, secret)
  | .web cookie, .session idHash =>
    ∃ rawID session, cookie = some rawID ∧ policy.hashSessionID rawID = idHash ∧
      (sessionMiddleware policy w.db w.now cookie).1 = some session
  | .exec held cmd, .key id =>
    held.connection.keyID = id ∧
      ∃ served, Sshd.handleSession (w.db.store codec w.now) held.connection cmd = .ok served
  | _, _ => False

/-- An exec channel is opened while neither the key of its connection nor its user has ended
since the handshake. -/
def OnCurrentConnection : Act → Prop
  | .exec held _ => held.ended = false ∧ held.suspended = false
  | _ => True

theorem lookupSession_some {db : Database} {now : Seconds} {rawID : String} {session : Session}
    (found : db.lookupSession policy.hashSessionID now rawID = some session) :
    Stands db now (.session (policy.hashSessionID rawID)) := by
  unfold Database.lookupSession at found
  split at found
  · cases found
  rename_i row present
  have same : row.idHash = policy.hashSessionID rawID := by
    have matched := List.find?_some present
    simp only [Bool.and_eq_true, decide_eq_true_eq] at matched
    exact matched.1
  split at found
  · cases found
  rename_i user owner
  split at found
  · cases found
  rename_i enabled
  refine ⟨some row.userID, mem_holders_session.mpr
    ⟨row, List.mem_of_find?_eq_some present, same, rfl⟩, ?_⟩
  rintro id ⟨⟩
  exact ⟨user, owner, by simpa using enabled⟩

theorem stands_of_authorised {credential : Credential} (sound : Sound w)
    (possible : w.Possible act) (current : OnCurrentConnection act)
    (authorised : Authorised codec policy w act credential) : Stands w.db w.now credential := by
  cases act with
  | http throttle moment request rr =>
    cases credential with
    | token id =>
      obtain ⟨passed, after, basic, secret, ok, given, parsed⟩ := authorised
      rcases runAuth_ok ok with ⟨anonymous, _⟩ | ⟨credential, verified, presented, good, _⟩
      · rw [given] at anonymous
        cases anonymous
      · rw [given] at presented
        cases presented
        obtain ⟨row, member, user, secret', parsed', usable, owner, enabled, _⟩ :=
          verifyBasicPassword_ok good
        rw [parsed] at parsed'
        cases parsed'
        refine ⟨some row.userID, mem_holders_token.mpr ⟨row, member, rfl, usable, rfl⟩, ?_⟩
        rintro id ⟨⟩
        exact ⟨user, owner, enabled⟩
    | _ => exact authorised.elim
  | web cookie =>
    cases credential with
    | session idHash =>
      obtain ⟨rawID, session, rfl, rfl, attached⟩ := authorised
      rcases sessionMiddleware_cases policy w.db w.now (some rawID) with same | ⟨_, same⟩ |
        ⟨rawID', session', after, cookie, found, _⟩
      · rw [same] at attached
        cases attached
      · rw [same] at attached
        cases attached
      · cases cookie
        exact lookupSession_some found
    | _ => exact authorised.elim
  | exec held cmd =>
    cases credential with
    | key id =>
      obtain ⟨rfl, _⟩ := authorised
      exact (sound.held held possible).stands w.now current.1 current.2
    | _ => exact authorised.elim
  | _ => cases credential <;> exact authorised.elim

theorem Step.sound {w' : World} (sound : Sound w) (step : Step policy w act w') : Sound w' := by
  obtain ⟨possible, rfl⟩ := step
  exact ⟨owned_nextDb sound.owned possible, held_nextConnections sound possible⟩

/-- In every run whose exec channels are opened on current connections, no operation after a
change that ended a credential or its account is let through on its strength, until the
account is enabled again or another credential is made under the same id. -/
theorem ended_credential_authorises_nothing {start before after : World}
    {events later : List (Event World Act)} {change : Act} {credential : Credential}
    (sound : Sound start) (run : Run (Step policy) start events before)
    (committed : Step policy before change w) (ends : Ends policy before change credential)
    (rest : Run (Step policy) w later after) (current : ∀ e ∈ later, OnCurrentConnection e.label)
    (kept : ∀ e ∈ later, ¬Restores policy e.pre e.label credential) :
    ∀ e ∈ later, ¬Authorised codec policy e.pre e.label credential := by
  have reached : Sound before := by
    have keep (w : World) (act : Act) (w' : World) (sound : Sound w) (_ : True)
        (step : Step policy w act w') : Sound w' := step.sound sound
    exact run.invariant sound keep fun _ _ => trivial
  have ended : ¬Stands w.db w.now credential := by
    obtain ⟨_, rfl⟩ := committed
    exact not_stands_of_ends ends
  have keep (w : World) (act : Act) (w' : World) (gone : Sound w ∧ ¬Stands w.db w.now credential)
      (allowed : OnCurrentConnection act ∧ ¬Restores policy w act credential)
      (step : Step policy w act w') : Sound w' ∧ ¬Stands w'.db w'.now credential := by
    refine ⟨step.sound gone.1, fun stands => gone.2 ?_⟩
    obtain ⟨possible, rfl⟩ := step
    exact stands_back gone.1.owned possible allowed.2 stands
  have refused (w : World) (act : Act) (w' : World)
      (gone : Sound w ∧ ¬Stands w.db w.now credential)
      (allowed : OnCurrentConnection act ∧ ¬Restores policy w act credential)
      (step : Step policy w act w') : ¬Authorised codec policy w act credential :=
    fun authorised => gone.2 (stands_of_authorised gone.1 step.1 allowed.1 authorised)
  have admitted : ∀ e ∈ later, OnCurrentConnection e.label ∧ ¬Restores policy e.pre e.label credential :=
    fun e member => ⟨current e member, kept e member⟩
  refine rest.every_event (I := fun w => Sound w ∧ ¬Stands w.db w.now credential)
    ⟨committed.sound reached, ended⟩ ?_ ?_ admitted
  · exact keep
  · exact refused

def plainTokens : TokenCodec :=
  ⟨fun password => some (password, password), fun secret hash => secret = hash⟩

def plainSessions : SessionPolicy := ⟨id, 3600, 0⟩

def office : World where
  db :=
    { Database.empty with
      users := [⟨"1", "alice", true, none⟩, ⟨"2", "root", true, none⟩]
      tokens := [⟨"T", "1", "T", "", none, none, "", "", "", none⟩]
      repos := [⟨"acme", "app", false, 0⟩]
      sshKeys := [⟨"K", "F", "", .user "1", none, none⟩] }
  now := 0
  connections := []

def fetch : Act :=
  .http none 0 ⟨"POST", "/acme/app.git/git-upload-pack", [], "10.0.0.1", some ⟨"alice", "T"⟩⟩
    ⟨"acme", "app", .uploadPack, .read⟩

theorem sound_office : Sound office := by
  refine ⟨⟨?_, ?_, ?_⟩, ?_⟩ <;> simp [office, Database.empty, Database.user, keyUser]

/-- A token stops working once it is revoked. -/
theorem revoked_token_refused :
    Authorised plainTokens plainSessions office fetch (.token "T") ∧
      ¬Authorised plainTokens plainSessions (office.apply plainSessions (.revokeToken "T")) fetch
        (.token "T") := by
  constructor
  · exact ⟨⟨some ⟨"1", "alice", true⟩, none, ⟨"acme", "app", .uploadPack, .read⟩⟩, none,
      ⟨"alice", "T"⟩, "T", rfl, rfl, rfl⟩
  · have rest : Run (Step plainSessions) (office.apply plainSessions (.revokeToken "T")) _ _ :=
      Run.nil.next (l := fetch) ⟨trivial, rfl⟩
    have committed : Step plainSessions office (.revokeToken "T") _ := ⟨trivial, rfl⟩
    have ends : Ends plainSessions office (.revokeToken "T") (.token "T") := rfl
    refine ended_credential_authorises_nothing sound_office .nil committed ends rest ?_ ?_ _
      mem_cons_self
    · simp [fetch, OnCurrentConnection]
    · simp [fetch, Restores]

def aliceConnected : Held := ⟨⟨⟨"1", "alice", true⟩, none, "K"⟩, false, false⟩

def push : Sshd.ExecCommand := ⟨"acme", "app", .receive⟩

/-- A connection made before its key is revoked, or before its user is disabled, goes on to
serve pushes as an administrator. -/
theorem open_connection_still_serves :
    ∃ connected, Step plainSessions office (.connect "F") connected ∧
      (Ends plainSessions connected (.revokeSSHKey "K") (.key "K") ∧
        ∃ held ∈ (connected.apply plainSessions (.revokeSSHKey "K")).connections,
          Authorised plainTokens plainSessions (connected.apply plainSessions (.revokeSSHKey "K"))
            (.exec held push) (.key "K")) ∧
      (Ends plainSessions connected (.setUserDisabled "alice") (.key "K") ∧
        ∃ held ∈ (connected.apply plainSessions (.setUserDisabled "alice")).connections,
          Authorised plainTokens plainSessions
            (connected.apply plainSessions (.setUserDisabled "alice")) (.exec held push) (.key "K")) := by
  refine ⟨office.apply plainSessions (.connect "F"), ⟨trivial, rfl⟩, ⟨?_, ?_⟩, ⟨?_, ?_⟩, ?_⟩
  · rfl
  · exact ⟨{ aliceConnected with ended := true }, mem_cons_self, rfl, push, rfl⟩
  · rfl
  · intro owner holds
    obtain rfl : owner = some "1" := mem_singleton.mp holds
    exact ⟨"1", rfl, rfl⟩
  · exact ⟨{ aliceConnected with suspended := true }, mem_cons_self, rfl, push, rfl⟩

end Runs

end BucketVcs.Revocation
