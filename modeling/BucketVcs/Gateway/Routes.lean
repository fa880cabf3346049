import BucketVcs.Auth.Names
import BucketVcs.Sshd

/-! What a URL means: the parser of the gateway and the one of the LFS handler, which reads
the same URL a second time. -/

namespace BucketVcs.Gateway

open Auth Engines List Option

section Paths

def hasPrefix (s start : String) : Bool := start.toList.isPrefixOf s.toList

def hasSuffix (s tail : String) : Bool := tail.toList.isSuffixOf s.toList

def trimPrefix (s start : String) : String :=
  if hasPrefix s start then String.ofList (s.toList.drop start.toList.length) else s

def trimSuffix (s tail : String) : String :=
  if hasSuffix s tail then String.ofList (s.toList.take (s.toList.length - tail.toList.length)) else s

def splitN (separator : Char) : ℕ → List Char → List String
  | 0, _ => []
  | 1, s => [String.ofList s]
  | n + 2, s =>
    match s.dropWhile (· ≠ separator) with
    | [] => [String.ofList s]
    | _ :: rest => String.ofList (s.takeWhile (· ≠ separator)) :: splitN separator (n + 1) rest

def cleanElement (rooted : Bool) (kept : List (List Char)) (element : List Char) :
    List (List Char) :=
  if element = [] ∨ element = ['.'] then kept
  else if element = ['.', '.'] then
    match kept with
    | [] => if rooted then [] else [element]
    | last :: rest => if last = ['.', '.'] then element :: kept else rest
  else element :: kept

def pathClean (path : String) : String :=
  let rooted := hasPrefix path "/"
  let kept := ((path.toList.splitOn '/').foldl (cleanElement rooted) []).reverse
  let joined := List.intercalate ['/'] kept
  if rooted then String.ofList ('/' :: joined)
  else if kept = [] then "." else String.ofList joined

end Paths

/-- The parsed query of a URL, in order. -/
abbrev Query := List (String × String)

def Query.get (query : Query) (key : String) : String := (query.lookup key).getD ""

inductive Op where
  | infoRefsUpload
  | infoRefsReceive
  | uploadPack
  | receivePack
  | lfsBatch
  | lfsLocksCreate
  | lfsLocksList
  | lfsLocksVerify
  | lfsLocksUnlock
  deriving DecidableEq, Repr

structure RoutedRequest where
  tenant : Tenant
  repo : RepoName
  op : Op
  requiredAction : Action
  deriving DecidableEq, Repr

/-- The identifier between `info/lfs/locks/` and `/unlock`. -/
def lockSegment (rest : String) : String :=
  trimSuffix (trimPrefix rest "info/lfs/locks/") "/unlock"

def routeOp (method rest : String) (query : Query) : Option (Op × Action) :=
  if method = "GET" ∧ rest = "info/refs" then
    if query.get "service" = "git-upload-pack" then some (.infoRefsUpload, .read)
    else if query.get "service" = "git-receive-pack" then some (.infoRefsReceive, .write)
    else none
  else if method = "POST" ∧ rest = "git-upload-pack" then some (.uploadPack, .read)
  else if method = "POST" ∧ rest = "git-receive-pack" then some (.receivePack, .write)
  -- the LFS handler makes a second check for an upload
  else if method = "POST" ∧ rest = "info/lfs/objects/batch" then some (.lfsBatch, .read)
  else if method = "POST" ∧ rest = "info/lfs/locks" then some (.lfsLocksCreate, .write)
  else if method = "GET" ∧ rest = "info/lfs/locks" then some (.lfsLocksList, .read)
  else if method = "POST" ∧ rest = "info/lfs/locks/verify" then some (.lfsLocksVerify, .read)
  else if method = "POST" ∧ hasPrefix rest "info/lfs/locks/" ∧ hasSuffix rest "/unlock" then
    if lockSegment rest = "" ∨ '/' ∈ (lockSegment rest).toList then none
    else some (.lfsLocksUnlock, .write)
  else none

def parseRoute (method urlPath : String) (query : Query) : Option RoutedRequest :=
  if urlPath ≠ pathClean urlPath then none
  else
    match splitN '/' 3 (trimPrefix urlPath "/").toList with
    | [tenant, repoSeg, rest] =>
      if !hasSuffix repoSeg ".git" || repoSeg = ".git" then none
      else
        let repoID := trimSuffix repoSeg ".git"
        if !validID tenant || !validID repoID then none
        else (routeOp method rest query).map fun op => ⟨tenant, repoID, op.1, op.2⟩
    | _ => none

inductive LfsRoute where
  | batch
  | locksCreate
  | locksList
  | locksVerify
  | locksUnlock
  deriving DecidableEq, Repr

def LfsRoute.op : LfsRoute → Op
  | .batch => .lfsBatch
  | .locksCreate => .lfsLocksCreate
  | .locksList => .lfsLocksList
  | .locksVerify => .lfsLocksVerify
  | .locksUnlock => .lfsLocksUnlock

def Op.isLfs : Op → Bool
  | .lfsBatch | .lfsLocksCreate | .lfsLocksList | .lfsLocksVerify | .lfsLocksUnlock => true
  | .infoRefsUpload | .infoRefsReceive | .uploadPack | .receivePack => false

structure LfsPath where
  tenant : Tenant
  repo : RepoName
  route : LfsRoute
  lockID : String
  deriving DecidableEq, Repr

def lfsRoute (method rest : String) : Option (LfsRoute × String) :=
  if method = "POST" ∧ rest = "info/lfs/objects/batch" then some (.batch, "")
  else if method = "POST" ∧ rest = "info/lfs/locks" then some (.locksCreate, "")
  else if method = "GET" ∧ rest = "info/lfs/locks" then some (.locksList, "")
  else if method = "POST" ∧ rest = "info/lfs/locks/verify" then some (.locksVerify, "")
  else if method = "POST" ∧ hasPrefix rest "info/lfs/locks/" ∧ hasSuffix rest "/unlock" then
    if lockSegment rest = "" ∨ '/' ∈ (lockSegment rest).toList then none
    else some (.locksUnlock, lockSegment rest)
  else none

def parseLFSPath (method path : String) : Option LfsPath :=
  if path ≠ pathClean path then none
  else
    match splitN '/' 3 (trimPrefix path "/").toList with
    | [tenant, repoSeg, rest] =>
      if !hasSuffix repoSeg ".git" || repoSeg = ".git" then none
      else
        let repo := trimSuffix repoSeg ".git"
        if tenant = "" ∨ repo = "" then none
        else if !validID tenant || !validID repo then none
        else (lfsRoute method rest).map fun found => ⟨tenant, repo, found.1, found.2⟩
    | _ => none

section Agreement

theorem lfsRoute_of_git {method rest : String}
    (git : rest = "info/refs" ∨ rest = "git-upload-pack" ∨ rest = "git-receive-pack") :
    lfsRoute method rest = none := by
  have strange : rest ≠ "info/lfs/objects/batch" ∧ rest ≠ "info/lfs/locks" ∧
      rest ≠ "info/lfs/locks/verify" ∧ hasPrefix rest "info/lfs/locks/" = false := by
    rcases git with rfl | rfl | rfl <;> decide
  obtain ⟨batch, locks, verify, unlock⟩ := strange
  simp [lfsRoute, batch, locks, verify, unlock]

theorem routeOp_lfs (method rest : String) (query : Query) :
    ((routeOp method rest query).map Prod.fst).filter Op.isLfs =
      (lfsRoute method rest).map fun found => found.1.op := by
  by_cases refs : method = "GET" ∧ rest = "info/refs"
  · rw [lfsRoute_of_git (.inl refs.2), routeOp, if_pos refs]
    split_ifs <;> rfl
  by_cases upload : method = "POST" ∧ rest = "git-upload-pack"
  · rw [lfsRoute_of_git (.inr (.inl upload.2)), routeOp, if_neg refs, if_pos upload]
    rfl
  by_cases receive : method = "POST" ∧ rest = "git-receive-pack"
  · rw [lfsRoute_of_git (.inr (.inr receive.2)), routeOp, if_neg refs, if_neg upload,
      if_pos receive]
    rfl
  rw [routeOp, if_neg refs, lfsRoute]
  split_ifs <;> rfl

theorem ne_empty_of_validID {id : String} (valid : validID id = true) : id ≠ "" := by
  rintro rfl
  exact absurd valid (by decide)

theorem routed_lfs (tenant : Tenant) (repo : RepoName) (found : Option (Op × Action)) :
    ((found.map fun op => RoutedRequest.mk tenant repo op.1 op.2).filter fun rr => rr.op.isLfs).map
        (fun rr => (rr.tenant, rr.repo, rr.op)) =
      ((found.map Prod.fst).filter Op.isLfs).map fun op => (tenant, repo, op) := by
  cases found with
  | none => rfl
  | some op => cases lfs : op.1.isLfs <;> simp [Option.filter]

/-- The two parsers agree: the LFS requests that the gateway accepts are those that the
handler accepts, with the same tenant, repository and operation. -/
theorem parseRoute_lfs (method path : String) (query : Query) :
    ((parseRoute method path query).filter fun rr => rr.op.isLfs).map
        (fun rr => (rr.tenant, rr.repo, rr.op)) =
      (parseLFSPath method path).map fun parsed => (parsed.tenant, parsed.repo, parsed.route.op) := by
  unfold parseRoute parseLFSPath
  by_cases clean : path ≠ pathClean path
  · rw [if_pos clean, if_pos clean]
    rfl
  rw [if_neg clean, if_neg clean]
  split
  · rename_i tenant repoSeg rest parts
    by_cases suffixed : (!hasSuffix repoSeg ".git" || repoSeg = ".git") = true
    · rw [if_pos suffixed, if_pos suffixed]
      rfl
    rw [if_neg suffixed, if_neg suffixed]
    by_cases invalid : (!validID tenant || !validID (trimSuffix repoSeg ".git")) = true
    · simp [invalid]
    · have named : validID tenant = true ∧ validID (trimSuffix repoSeg ".git") = true := by
        simpa using invalid
      have occupied : ¬(tenant = "" ∨ trimSuffix repoSeg ".git" = "") :=
        not_or.mpr ⟨ne_empty_of_validID named.1, ne_empty_of_validID named.2⟩
      simp only [if_neg invalid, if_neg occupied]
      rw [routed_lfs, routeOp_lfs, Option.map_map, Option.map_map]
      rfl
  · rfl

end Agreement

/-! One request of the gateway: the throttle, the credential, the repository behind the name
and the handler that serves it. -/

structure Reply where
  status : ℕ
  body : String
  /-- Whether a `WWW-Authenticate` header goes with it. -/
  challenge : Bool
  retryAfter : Option ℤ
  deriving DecidableEq, Repr

def httpError (body : String) (status : ℕ) : Reply := ⟨status, body, false, none⟩

def challenge (body : String) : Reply := ⟨401, body, true, none⟩

def notFound : Reply := httpError "404 page not found" 404

def rateLimited (verdict : Verdict) : Reply :=
  let retrySec := if verdict.retryAfter < 1 then 1 else verdict.retryAfter
  ⟨429, "rate limited; retry after " ++ toString retrySec ++ "s", false, some retrySec⟩

structure Request where
  method : String
  path : String
  query : Query
  ip : IP
  basicAuth : Option BasicPassword
  deriving DecidableEq, Repr

def Request.basicUser (request : Request) : Username :=
  (request.basicAuth.map BasicPassword.username).getD ""

/-- What `RunAuth` leaves to the handlers: the context of the request and the route, with its
repository rewritten if an alias was followed. -/
structure Passed where
  actor : Option Actor
  scope : Option Scope
  route : RoutedRequest
  deriving DecidableEq, Repr

section Repositories

variable (store : Store)

/-- `gateway.resolveAlias`. A dangling alias counts as none. -/
def resolveAlias (rr : RoutedRequest) : Option (RepoFlags × RoutedRequest) :=
  match store.resolveAlias with
  | none => none
  | some resolve =>
    match resolve rr.tenant rr.repo with
    | .ok (some target) =>
      match store.getRepoFlags rr.tenant target with
      | .ok flags => some (flags, { rr with repo := target })
      | .error _ => none
    | .ok none => none
    | .error _ => none

def findRepo (rr : RoutedRequest) : Except Error (RepoFlags × RoutedRequest) :=
  match store.getRepoFlags rr.tenant rr.repo with
  | .ok flags => .ok (flags, rr)
  | .error .noSuchRepo =>
    match resolveAlias store rr with
    | some found => .ok found
    | none => .error .noSuchRepo
  | .error problem => .error problem

def permOf (actor : Option Actor) (scope : Option Scope) (rr : RoutedRequest) : Except Error Perm :=
  match scope with
  | some scope => .ok scope.perm
  | none => store.lookupRepoPerm actor rr.tenant rr.repo

def authorize (actor : Option Actor) (scope : Option Scope) (rr : RoutedRequest) :
    Except Reply Passed :=
  match findRepo store rr with
  | .error .noSuchRepo =>
    -- a missing repository looks like a private one to an anonymous caller
    if actor.isNone then .error (challenge "authentication required")
    else .error (httpError "not found" 404)
  | .error _ => .error (httpError "internal error" 500)
  | .ok (flags, rr) =>
    match permOf store actor scope rr with
    | .error _ => .error (httpError "internal error" 500)
    | .ok perm =>
      if (Auth.decide actor perm rr.requiredAction flags).1 then .ok ⟨actor, scope, rr⟩
      else if actor.isNone then .error (challenge "authentication required")
      else .error (httpError "insufficient permissions" 403)

def scopeMismatch (scope : Option Scope) (rr : RoutedRequest) : Bool :=
  scope.any fun scope => scope.tenant ≠ rr.tenant || scope.repo ≠ rr.repo

def runCredential (throttle : Throttle) (now : Moment) (request : Request) (rr : RoutedRequest) :
    Except Reply Passed × Throttle :=
  match request.basicAuth with
  | none => (authorize store none none rr, throttle)
  | some credential =>
    match store.verifyCredential credential with
    | .error problem =>
      if isCredentialError problem then
        (.error (challenge "invalid credentials"),
          throttle.markFailure now request.ip credential.username)
      else (.error (httpError "internal error" 500), throttle)
    | .ok verified =>
      if scopeMismatch verified.scope rr then (.error (httpError "scope mismatch" 403), throttle)
      else
        (authorize store (some verified.actor) verified.scope rr,
          throttle.markSuccess now request.ip credential.username)

def runAuth (throttle : Throttle) (now : Moment) (request : Request) (rr : RoutedRequest) :
    Except Reply Passed × Throttle :=
  let checked := throttle.checkDetailed now request.ip request.basicUser
  if checked.1.allowed then runCredential store checked.2 now request rr
  else (.error (rateLimited checked.1), checked.2)

variable {store}

variable {rr found : RoutedRequest} {flags : RepoFlags} {passed : Passed}
  {throttle after : Throttle} {now : Moment} {request : Request}

theorem findRepo_ok (ok : findRepo store rr = .ok (flags, found)) :
    (found = rr ∧ store.getRepoFlags rr.tenant rr.repo = .ok flags) ∨
      (store.getRepoFlags rr.tenant rr.repo = .error .noSuchRepo ∧
        resolveAlias store rr = some (flags, found)) := by
  unfold findRepo at ok
  split at ok
  · rename_i own registered
    obtain ⟨rfl, rfl⟩ := Prod.mk.inj (Except.ok.inj ok)
    exact .inl ⟨rfl, registered⟩
  · rename_i missing
    split at ok
    · rename_i target followed
      cases ok
      exact .inr ⟨missing, followed⟩
    · cases ok
  · cases ok

theorem resolveAlias_some (followed : resolveAlias store rr = some (flags, found)) :
    ∃ resolve target, store.resolveAlias = some resolve ∧
      resolve rr.tenant rr.repo = .ok (some target) ∧
      store.getRepoFlags rr.tenant target = .ok flags ∧ found = { rr with repo := target } := by
  unfold resolveAlias at followed
  split at followed
  · cases followed
  · rename_i resolve resolves
    split at followed
    · rename_i target here
      split at followed
      · rename_i own registered
        obtain ⟨rfl, rfl⟩ := Prod.mk.inj (some.inj followed)
        exact ⟨resolve, target, resolves, here, registered, rfl⟩
      · cases followed
    · cases followed
    · cases followed

theorem authorize_ok {actor : Option Actor} {scope : Option Scope}
    (ok : authorize store actor scope rr = .ok passed) :
    passed.actor = actor ∧ passed.scope = scope ∧
      ∃ flags, findRepo store rr = .ok (flags, passed.route) := by
  unfold authorize at ok
  split at ok
  · split at ok <;> cases ok
  · cases ok
  · rename_i flags found resolved
    split at ok
    · cases ok
    · split at ok
      · cases ok
        exact ⟨rfl, rfl, flags, resolved⟩
      · split at ok <;> cases ok

/-- A request passes as an anonymous one, or with a credential that is not bound to another
repository. -/
theorem runAuth_ok (ok : runAuth store throttle now request rr = (.ok passed, after)) :
    (request.basicAuth = none ∧ authorize store none none rr = .ok passed) ∨
      ∃ credential verified, request.basicAuth = some credential ∧
        store.verifyCredential credential = .ok verified ∧
        scopeMismatch verified.scope rr = false ∧
        authorize store (some verified.actor) verified.scope rr = .ok passed := by
  simp only [runAuth] at ok
  split at ok
  · unfold runCredential at ok
    split at ok
    · rename_i anonymous
      exact .inl ⟨anonymous, congrArg Prod.fst ok⟩
    · rename_i credential presented
      split at ok
      · split at ok <;> cases ok
      · rename_i verified good
        split at ok
        · cases ok
        · rename_i bound
          exact .inr ⟨credential, verified, presented, good, by simpa using bound,
            congrArg Prod.fst ok⟩
  · cases ok

theorem runAuth_route (ok : runAuth store throttle now request rr = (.ok passed, after)) :
    ∃ flags, findRepo store rr = .ok (flags, passed.route) := by
  rcases runAuth_ok ok with ⟨_, allowed⟩ | ⟨_, _, _, _, _, allowed⟩
  · exact (authorize_ok allowed).2.2
  · exact (authorize_ok allowed).2.2

end Repositories

inductive Handler where
  | infoRefs
  | uploadPack
  | receivePack
  | lfs (route : LfsRoute) (lockID : String)
  deriving DecidableEq, Repr

/-- A request in the hands of a handler: it reads and writes the objects, the locks and the
permissions of this repository. -/
structure Served where
  handler : Handler
  tenant : Tenant
  repo : RepoName
  actor : Option Actor
  scope : Option Scope
  deriving DecidableEq, Repr

inductive Outcome where
  | replied (reply : Reply)
  | served (served : Served)
  deriving DecidableEq, Repr

def refusalMessage (writeRegionURL : String) : String :=
  if writeRegionURL = "" then "this gateway is a read-only replica"
  else "this gateway is a read-only replica; push to " ++ writeRegionURL

/-- The LFS handler of a server; on a replica with the address of the write region. -/
structure LfsHandler where
  replicaOf : Option String

/-- `lfs.NewHTTPHandler`: the URL is parsed once more, and the route of the gateway is not
looked at. -/
def LfsHandler.serveHTTP (handler : LfsHandler) (request : Request) (passed : Passed) : Outcome :=
  match parseLFSPath request.method request.path with
  | none => .replied notFound
  | some parsed =>
    match handler.replicaOf, parsed.route with
    | none, route | some _, route@.batch =>
      .served ⟨.lfs route parsed.lockID, parsed.tenant, parsed.repo, passed.actor, passed.scope⟩
    | some writeRegionURL, _ => .replied (httpError (refusalMessage writeRegionURL) 403)

/-- A gateway server: the store of its credentials, and its LFS handler if it has one. -/
structure Server where
  store : Store
  lfsHandler : Option LfsHandler

def Server.dispatch (server : Server) (request : Request) (passed : Passed) : Outcome :=
  let serve (handler : Handler) : Outcome :=
    .served ⟨handler, passed.route.tenant, passed.route.repo, passed.actor, passed.scope⟩
  match passed.route.op with
  | .infoRefsUpload | .infoRefsReceive => serve .infoRefs
  | .uploadPack => serve .uploadPack
  | .receivePack => serve .receivePack
  | .lfsBatch | .lfsLocksCreate | .lfsLocksList | .lfsLocksVerify | .lfsLocksUnlock =>
    match server.lfsHandler with
    | none => .replied notFound
    | some handler => handler.serveHTTP request passed

def Server.routeRepo (server : Server) (throttle : Throttle) (now : Moment) (request : Request) :
    Outcome × Throttle :=
  match parseRoute request.method request.path request.query with
  | none => (.replied notFound, throttle)
  | some rr =>
    match runAuth server.store throttle now request rr with
    | (.error reply, throttle) => (.replied reply, throttle)
    | (.ok passed, throttle) => (server.dispatch request passed, throttle)

section Agreement

variable {request : Request} {passed : Passed} {served : Served} {rr : RoutedRequest}

theorem serveHTTP_served {handler : LfsHandler}
    (ok : handler.serveHTTP request passed = .served served) :
    ∃ parsed, parseLFSPath request.method request.path = some parsed ∧
      served.tenant = parsed.tenant ∧ served.repo = parsed.repo := by
  unfold LfsHandler.serveHTTP at ok
  split at ok
  · cases ok
  · rename_i parsed accepted
    split at ok <;> cases ok <;> exact ⟨parsed, accepted, rfl, rfl⟩

theorem dispatch_served {server : Server} (ok : server.dispatch request passed = .served served) :
    if passed.route.op.isLfs then
      ∃ parsed, parseLFSPath request.method request.path = some parsed ∧
        served.tenant = parsed.tenant ∧ served.repo = parsed.repo
    else served.tenant = passed.route.tenant ∧ served.repo = passed.route.repo := by
  have lfs (toHandler : (match server.lfsHandler with
      | none => Outcome.replied notFound
      | some handler => handler.serveHTTP request passed) = .served served) :
      ∃ parsed, parseLFSPath request.method request.path = some parsed ∧
        served.tenant = parsed.tenant ∧ served.repo = parsed.repo := by
    split at toHandler
    · cases toHandler
    · exact serveHTTP_served toHandler
  unfold Server.dispatch at ok
  cases op : passed.route.op <;> simp only [op] at ok
  case infoRefsUpload | infoRefsReceive | uploadPack | receivePack => cases ok; exact ⟨rfl, rfl⟩
  all_goals exact lfs ok

theorem parsed_of_route {method path : String} {query : Query} {parsed : LfsPath}
    (routed : parseRoute method path query = some rr) (lfs : rr.op.isLfs = true)
    (accepted : parseLFSPath method path = some parsed) :
    parsed.tenant = rr.tenant ∧ parsed.repo = rr.repo := by
  have agree := parseRoute_lfs method path query
  rw [routed, accepted] at agree
  simp only [Option.filter, lfs, if_true, map_some, some.injEq, Prod.mk.injEq] at agree
  exact ⟨agree.1.symm, agree.2.1.symm⟩

theorem findRepo_route {store : Store} {found : RoutedRequest} {flags : RepoFlags}
    (ok : findRepo store rr = .ok (flags, found)) :
    found.tenant = rr.tenant ∧ found.op = rr.op ∧
      (found.repo = rr.repo ↔ store.getRepoFlags rr.tenant rr.repo ≠ .error .noSuchRepo) := by
  rcases findRepo_ok ok with ⟨rfl, registered⟩ | ⟨missing, followed⟩
  · exact ⟨rfl, rfl, by simp [registered]⟩
  · obtain ⟨_, target, _, _, live, rfl⟩ := resolveAlias_some followed
    refine ⟨rfl, rfl, ?_⟩
    constructor
    · intro same
      have twice : store.getRepoFlags rr.tenant rr.repo = .ok flags := same ▸ live
      rw [missing] at twice
      cases twice
    · intro registered
      exact absurd missing registered

/-- The repository that is served is the one that was authorised, except when an LFS request
came in under an alias. -/
theorem authorised_is_served_iff (server : Server) (throttle : Throttle) (now : Moment)
    (request : Request) :
    (((parseRoute request.method request.path request.query).filter fun rr => rr.op.isLfs).map
        (fun rr => (rr.tenant, rr.repo, rr.op)) =
      (parseLFSPath request.method request.path).map
        fun parsed => (parsed.tenant, parsed.repo, parsed.route.op)) ∧
    ∀ rr passed after served,
      parseRoute request.method request.path request.query = some rr →
      runAuth server.store throttle now request rr = (.ok passed, after) →
      (server.routeRepo throttle now request).1 = .served served →
      ((served.tenant, served.repo) = (passed.route.tenant, passed.route.repo) ↔
        (rr.op.isLfs = true →
          server.store.getRepoFlags rr.tenant rr.repo ≠ .error .noSuchRepo)) := by
  refine ⟨parseRoute_lfs _ _ _, ?_⟩
  intro rr passed after served routed allowed dispatched
  simp only [Server.routeRepo, routed, allowed] at dispatched
  obtain ⟨flags, found⟩ := runAuth_route allowed
  obtain ⟨tenant, op, repo⟩ := findRepo_route found
  have handled := dispatch_served dispatched
  rw [op] at handled
  rw [Prod.mk.injEq]
  cases lfs : rr.op.isLfs with
  | false =>
    rw [lfs] at handled
    exact ⟨fun _ impossible => (nomatch impossible), fun _ => handled⟩
  | true =>
    rw [lfs] at handled
    obtain ⟨parsed, accepted, sameTenant, sameRepo⟩ := handled
    obtain ⟨urlTenant, urlRepo⟩ := parsed_of_route routed lfs accepted
    rw [sameTenant, sameRepo, urlTenant, urlRepo, tenant, ← repo]
    exact ⟨fun same _ => same.2.symm, fun same => ⟨rfl, (same rfl).symm⟩⟩

def renamedStore : Store where
  verifyCredential := fun _ => .error .invalidCredential
  getRepoFlags := fun tenant repo =>
    if tenant = "acme" ∧ repo = "app" then .ok ⟨true⟩ else .error .noSuchRepo
  lookupRepoPerm := fun _ _ _ => .ok .none
  resolveAlias := some fun tenant repo =>
    .ok (if tenant = "acme" ∧ repo = "old" then some "app" else none)

def renamedServer : Server := ⟨renamedStore, some ⟨none⟩⟩

def fetchOld : Request :=
  ⟨"GET", "/acme/old.git/info/refs", [("service", "git-upload-pack")], "10.0.0.1", none⟩

def batchOld : Request := ⟨"POST", "/acme/old.git/info/lfs/objects/batch", [], "10.0.0.1", none⟩

set_option maxRecDepth 4000 in
/-- A fetch under the old name is authorised for the new one and served from it. -/
theorem fetch_under_alias_is_served :
    ∃ passed served,
      runAuth renamedServer.store none 0 fetchOld ⟨"acme", "old", .infoRefsUpload, .read⟩ =
        (.ok passed, none) ∧
      (renamedServer.routeRepo none 0 fetchOld).1 = .served served ∧
      (served.tenant, served.repo) = (passed.route.tenant, passed.route.repo) :=
  ⟨⟨none, none, ⟨"acme", "app", .infoRefsUpload, .read⟩⟩, ⟨.infoRefs, "acme", "app", none, none⟩,
    rfl, rfl,
    ((authorised_is_served_iff renamedServer none 0 fetchOld).2
      ⟨"acme", "old", .infoRefsUpload, .read⟩ _ none _ (by decide) rfl rfl).mpr (by decide)⟩

set_option maxRecDepth 4000 in
/-- A batch request under the old name is authorised for the new one, and the handler works
on the old one. -/
theorem batch_under_alias_serves_old_name :
    parseRoute batchOld.method batchOld.path batchOld.query =
        some ⟨"acme", "old", .lfsBatch, .read⟩ ∧
      runAuth renamedServer.store none 0 batchOld ⟨"acme", "old", .lfsBatch, .read⟩ =
        (.ok ⟨none, none, ⟨"acme", "app", .lfsBatch, .read⟩⟩, none) ∧
      (renamedServer.routeRepo none 0 batchOld).1 =
        .served ⟨.lfs .batch "", "acme", "old", none, none⟩ := by
  refine ⟨by decide, rfl, ?_⟩
  decide

end Agreement

/-! Credentials that are bound to a repository, over any sequence of registrations, renames
and deletions. The binding is a name, and a name can come to stand for another repository. -/

open Auth.Database Transition

structure World where
  db : Database
  now : Seconds
  nextIdentity : Identity

inductive Change where
  | register (tenant : Tenant) (name : RepoName)
  | rename (tenant : Tenant) (oldName newName : RepoName)
  | delete (backend : Backend) (tenant : Tenant) (repo : RepoName)
  | removeAlias (tenant : Tenant) (oldName : RepoName)
  | mint (row : TokenRow)
  | addDeployKey (id : KeyID) (fingerprint : Fingerprint) (label : String) (scope : Scope)
  | wait (seconds : ℕ)

/-! A failed operation leaves the database as it is. -/

def World.register (w : World) (tenant : Tenant) (name : RepoName) : World :=
  match w.db.registerRepo tenant name w.nextIdentity with
  | .ok (_, db) => { w with db, nextIdentity := w.nextIdentity + 1 }
  | .error _ => w

def World.rename (w : World) (tenant : Tenant) (oldName newName : RepoName) : World :=
  match w.db.renameRepo tenant oldName newName with
  | .ok db => { w with db }
  | .error _ => w

def World.mint (w : World) (row : TokenRow) : World :=
  match w.db.createToken row with
  | some db => { w with db }
  | none => w

def World.addDeployKey (w : World) (id : KeyID) (fingerprint : Fingerprint) (label : String)
    (scope : Scope) : World :=
  match w.db.addDeployKey id fingerprint label scope with
  | some db => { w with db }
  | none => w

def World.apply (w : World) : Change → World
  | .register tenant name => w.register tenant name
  | .rename tenant oldName newName => w.rename tenant oldName newName
  | .delete backend tenant repo => { w with db := deleteRepoCascade backend w.db tenant repo }
  | .removeAlias tenant oldName => { w with db := w.db.removeAlias tenant oldName }
  | .mint row => w.mint row
  | .addDeployKey id fingerprint label scope => w.addDeployKey id fingerprint label scope
  | .wait seconds => { w with now := w.now + seconds }

def Step (w : World) (change : Change) (w' : World) : Prop := w' = w.apply change

/-- The usable tokens that are bound to the name were made for this repository. -/
def BoundOnlyFor (w : World) (tenant : Tenant) (name : RepoName) (identity : Identity) : Prop :=
  ∀ token ∈ w.db.tokens, tokenUsable token w.now = true → boundTo tenant name token = true →
    token.mintedFor = some identity

/-- A repository takes a name only if no usable token of another one is bound to it. -/
def TakesFreeName (w : World) : Change → Prop
  | .register tenant name =>
    w.db.repo tenant name = none → BoundOnlyFor w tenant name w.nextIdentity
  | .rename tenant oldName newName =>
    ∀ row, w.db.repo tenant oldName = some row → BoundOnlyFor w tenant newName row.identity
  | _ => True

section Invariant

/-- A usable token that is bound to a name was made for whatever the name leads to. -/
def TokensFollow (w : World) : Prop :=
  ∀ token ∈ w.db.tokens, tokenUsable token w.now = true →
    ∀ tenant name, boundTo tenant name token = true →
      ∀ row, Behind w.db tenant name row → token.mintedFor = some row.identity

structure Sound (w : World) : Prop where
  kept : Kept w.db
  tokens : TokensFollow w

variable {token : TokenRow} {scope : Scope}

theorem boundScope_names (bound : boundScope token = some scope) :
    scope.tenant = token.scopeTenant ∧ scope.repo = token.scopeRepo := by
  unfold boundScope at bound
  split at bound
  · cases bound
    exact ⟨rfl, rfl⟩
  · cases bound

theorem boundTo_of_scope (bound : boundScope token = some scope) :
    boundTo scope.tenant scope.repo token = true := by
  simp [boundTo, bound]

theorem boundTo_names {tenant : Tenant} {name : RepoName} (bound : boundTo tenant name token = true) :
    token.scopeTenant = tenant ∧ token.scopeRepo = name := by
  cases scope : boundScope token with
  | none => simp [boundTo, scope] at bound
  | some found =>
    obtain ⟨tenants, names⟩ := boundScope_names scope
    rw [← tenants, ← names]
    simpa [boundTo, scope] using bound

theorem tokenUsable_of_later {row : TokenRow} {now later : Seconds} (order : now ≤ later)
    (usable : tokenUsable row later = true) : tokenUsable row now = true := by
  simp only [tokenUsable, Bool.and_eq_true] at usable ⊢
  refine ⟨usable.1, ?_⟩
  cases expires : row.expiresAt with
  | none => rfl
  | some limit =>
    have late := usable.2
    simp only [expires, all_some, decide_eq_true_eq] at late ⊢
    exact lt_of_le_of_lt order late

/-- A change that makes no token keeps the bindings if every name leads to a repository that
it led to before, or to one that the tokens bound to it were made for. -/
theorem TokensFollow.step {w w' : World} (follow : TokensFollow w)
    (same : w'.db.tokens = w.db.tokens) (order : w.now ≤ w'.now)
    (led : ∀ tenant name row, Behind w'.db tenant name row →
      (∃ before, Behind w.db tenant name before ∧ before.identity = row.identity) ∨
        BoundOnlyFor w tenant name row.identity) :
    TokensFollow w' := by
  intro token member usable tenant name bound row behind
  rw [same] at member
  have usable := tokenUsable_of_later order usable
  rcases led tenant name row behind with ⟨before, earlier, identity⟩ | own
  · rw [← identity]
    exact follow token member usable tenant name bound before earlier
  · exact own token member usable bound

end Invariant

section Changes

variable {tenant : Tenant} {w : World}

section

variable (sound : Sound w)
include sound

theorem sound_register {name : RepoName}
    (free : TakesFreeName w (.register tenant name)) : Sound (w.register tenant name) := by
  unfold World.register
  split
  · rename_i inserted after ok
    have shape := registerRepo_ok ok
    cases registered : (w.db.repo tenant name).isNone with
    | false =>
      rw [registered] at shape
      subst shape
      refine ⟨kept_removeAlias sound.kept tenant name, ?_⟩
      refine sound.tokens.step rfl le_rfl fun tenant' name' row behind => .inl ?_
      exact ⟨row, behind_removeAlias behind, rfl⟩
    | true =>
      rw [registered] at shape
      subst shape
      have absent := isNone_iff_eq_none.mp registered
      refine ⟨kept_removeAlias (kept_addRepo sound.kept absent) tenant name, ?_⟩
      refine sound.tokens.step rfl le_rfl fun tenant' name' row behind => ?_
      rcases behind_addRepo sound.kept absent (behind_removeAlias behind) with
        earlier | ⟨rfl, rfl, identity⟩
      · exact .inl ⟨row, earlier, rfl⟩
      · rw [identity]
        exact .inr (free absent)
  · exact sound

theorem sound_rename {oldName newName : RepoName}
    (free : TakesFreeName w (.rename tenant oldName newName)) :
    Sound (w.rename tenant oldName newName) := by
  unfold World.rename
  split
  · rename_i after ok
    have renamed := renameRepo_ok ok
    refine ⟨kept_rename renamed sound.kept, ?_⟩
    refine sound.tokens.step renamed.tokens le_rfl fun tenant' name row behind => ?_
    rcases behind_rename renamed sound.kept behind with
      earlier | ⟨rfl, rfl, before, registered, identity⟩
    · exact .inl earlier
    · rw [← identity]
      exact .inr (free before registered)
  · exact sound


theorem sound_mint (row : TokenRow) : Sound (w.mint row) := by
  unfold World.mint
  split
  · rename_i after ok
    unfold Database.createToken at ok
    split at ok
    · cases ok
    · cases ok
      refine ⟨⟨sound.kept.repoKeys, sound.kept.aliasKeys, sound.kept.aliasesLive, sound.kept.keys⟩, ?_⟩
      intro token member usable tenant name bound repo behind
      have behind : Behind w.db tenant name repo := ⟨behind.live, behind.named⟩
      rcases mem_append.mp member with old | new
      · exact sound.tokens token old usable tenant name bound repo behind
      · obtain rfl := mem_singleton.mp new
        obtain ⟨sameTenant, sameName⟩ := boundTo_names bound
        rw [sameTenant, sameName, sound.kept.resolve_of_behind behind, map_some]
  · exact sound

theorem sound_addDeployKey (id : KeyID) (fingerprint : Fingerprint)
    (label : String) (scope : Scope) : Sound (w.addDeployKey id fingerprint label scope) := by
  unfold World.addDeployKey
  split
  · rename_i after ok
    unfold Database.addDeployKey at ok
    split at ok
    · cases ok
    · split at ok
      · cases ok
      · rename_i row registered
        cases ok
        refine ⟨⟨sound.kept.repoKeys, sound.kept.aliasKeys, sound.kept.aliasesLive, ?_⟩, ?_⟩
        · intro key member scope' owner
          rcases mem_append.mp member with old | new
          · exact sound.kept.keys key old scope' owner
          · obtain rfl := mem_singleton.mp new
            cases owner
            exact ⟨row, (mem_of_repo registered).1, (mem_of_repo registered).2, rfl⟩
        · refine sound.tokens.step rfl le_rfl fun tenant name repo behind => .inl ?_
          exact ⟨repo, ⟨behind.live, behind.named⟩, rfl⟩
  · exact sound

/-- Every change keeps the bindings, if it gives a repository a free name only. -/
theorem sound_apply (change : Change) (free : TakesFreeName w change) : Sound (w.apply change) := by
  cases change with
  | register tenant name => exact sound_register sound free
  | rename tenant oldName newName => exact sound_rename sound free
  | delete backend tenant repo =>
    refine ⟨kept_delete sound.kept backend tenant repo, ?_⟩
    refine sound.tokens.step (deleteRepoCascade_tokens backend w.db tenant repo) le_rfl
      fun tenant' name row behind => .inl ?_
    exact ⟨row, behind_delete behind, rfl⟩
  | removeAlias tenant oldName =>
    refine ⟨kept_removeAlias sound.kept tenant oldName, ?_⟩
    refine sound.tokens.step rfl le_rfl fun tenant' name row behind => .inl ?_
    exact ⟨row, behind_removeAlias behind, rfl⟩
  | mint row => exact sound_mint sound row
  | addDeployKey id fingerprint label scope => exact sound_addDeployKey sound id fingerprint label scope
  | wait seconds =>
    refine ⟨sound.kept, ?_⟩
    exact sound.tokens.step rfl (le_add_of_nonneg_right (Int.natCast_nonneg seconds))
      fun tenant name row behind => .inl ⟨row, behind, rfl⟩

end

end Changes

section Requests

variable {codec : TokenCodec} {rr : RoutedRequest} {scope : Scope} {w : World}

theorem behind_of_findRepo {db : Database} {now : Seconds} {found : RoutedRequest}
    {flags : RepoFlags} (ok : findRepo (Database.store codec db now) rr = .ok (flags, found)) :
    ∃ row, db.repo found.tenant found.repo = some row ∧ Behind db rr.tenant rr.repo row := by
  rcases findRepo_ok ok with ⟨rfl, registered⟩ | ⟨missing, followed⟩
  · obtain ⟨row, here⟩ := repo_of_flags registered
    exact ⟨row, here, behind_of_repo here⟩
  · obtain ⟨resolve, target, resolves, linked, live, rfl⟩ := resolveAlias_some followed
    obtain ⟨row, here⟩ := repo_of_flags live
    refine ⟨row, here, behind_of_alias (repo_of_noSuchRepo missing) ?_ here⟩
    cases resolves
    exact Except.ok.inj linked

theorem matches_of_scopeMismatch (bound : scopeMismatch (some scope) rr = false) :
    scope.tenant = rr.tenant ∧ scope.repo = rr.repo := by
  simpa [scopeMismatch] using bound

theorem Sound.runAuth (sound : Sound w) {throttle after : Throttle} {moment : Moment}
    {request : Request} {passed : Passed}
    (ok : runAuth (Database.store codec w.db w.now) throttle moment request rr = (.ok passed, after))
    (narrowed : passed.scope = some scope) :
    ∃ token ∈ w.db.tokens, ∃ credential secret row, request.basicAuth = some credential ∧
      codec.parseToken credential.password = some (token.id, secret) ∧
      w.db.repo passed.route.tenant passed.route.repo = some row ∧
      token.mintedFor = some row.identity := by
  rcases runAuth_ok ok with ⟨_, allowed⟩ | ⟨credential, verified, presented, good, bound, allowed⟩
  · rw [(authorize_ok allowed).2.1] at narrowed
    cases narrowed
  · obtain ⟨_, sameScope, flags, found⟩ := authorize_ok allowed
    obtain ⟨token, member, user, secret, parsed, usable, _, _, _, _, scoped', _⟩ :=
      verifyBasicPassword_ok good
    obtain ⟨row, here, behind⟩ := behind_of_findRepo found
    have narrowed' : verified.scope = some scope := sameScope.symm.trans narrowed
    rw [narrowed'] at bound scoped'
    obtain ⟨sameTenant, sameRepo⟩ := matches_of_scopeMismatch bound
    refine ⟨token, member, credential, secret, row, presented, parsed, here, ?_⟩
    refine sound.tokens token member usable rr.tenant rr.repo ?_ row behind
    rw [← sameTenant, ← sameRepo]
    exact boundTo_of_scope scoped'.symm

theorem Sound.handleSession (sound : Sound w) {fingerprint : Fingerprint}
    {connection : Sshd.Connection} {cmd served : Sshd.ExecCommand}
    (made : Sshd.connect w.db fingerprint = .ok connection)
    (narrowed : connection.scope = some scope)
    (ok : Sshd.handleSession (Database.store codec w.db w.now) connection cmd = .ok served) :
    ∃ key ∈ w.db.sshKeys, key.fingerprint = fingerprint ∧
      ∃ row, w.db.repo served.tenant served.repo = some row ∧ key.mintedFor = some row.identity := by
  obtain ⟨key, member, same, owner⟩ := Sshd.connect_scope made narrowed
  obtain ⟨flags, perm, registered, granted, _⟩ := Sshd.handleSession_ok ok
  obtain ⟨sameTenant, sameRepo, _⟩ := Sshd.permOf_scope narrowed granted
  obtain ⟨row, live, named, minted⟩ := sound.kept.keys key member scope owner
  rw [sameTenant, sameRepo] at named
  exact ⟨key, member, same, row, sound.kept.repo_of_mem live named, minted⟩

/-- In every run in which no repository takes a name that a usable token of another one is
bound to, a bound credential is let through only to the repository it was made for. -/
theorem bound_credentials_follow {start w : World} {events : List (Event World Change)}
    (sound : Sound start) (run : Run Step start events w)
    (free : ∀ e ∈ events, TakesFreeName e.pre e.label) (codec : TokenCodec) :
    (∀ throttle after moment request rr passed scope,
      runAuth (Database.store codec w.db w.now) throttle moment request rr = (.ok passed, after) →
      passed.scope = some scope →
      ∃ token ∈ w.db.tokens, ∃ credential secret row, request.basicAuth = some credential ∧
        codec.parseToken credential.password = some (token.id, secret) ∧
        w.db.repo passed.route.tenant passed.route.repo = some row ∧
        token.mintedFor = some row.identity) ∧
    ∀ fingerprint connection cmd served scope,
      Sshd.connect w.db fingerprint = .ok connection → connection.scope = some scope →
      Sshd.handleSession (Database.store codec w.db w.now) connection cmd = .ok served →
      ∃ key ∈ w.db.sshKeys, key.fingerprint = fingerprint ∧
        ∃ row, w.db.repo served.tenant served.repo = some row ∧
          key.mintedFor = some row.identity := by
  have keep (w : World) (change : Change) (w' : World) (sound : Sound w)
      (free : TakesFreeName w change) (stepped : Step w change w') : Sound w' := by
    subst stepped
    exact sound_apply sound change free
  have reached : Sound w := run.invariant sound keep free
  constructor
  · intro throttle after moment request rr passed scope ok narrowed
    exact reached.runAuth ok narrowed
  · intro fingerprint connection cmd served scope made narrowed ok
    exact reached.handleSession made narrowed ok

def plainCodec : TokenCodec :=
  ⟨fun password => some (password, password), fun secret hash => secret = hash⟩

def freshWorld : World :=
  ⟨{ Database.empty with users := [⟨"_build", "_build", false, none⟩] }, 0, 0⟩

theorem sound_fresh : Sound freshWorld := by
  constructor
  · constructor <;> simp [freshWorld, Database.empty]
  · intro token member
    cases member

def buildToken : TokenRow :=
  ⟨"T", "_build", "T", "build:acme/app:ci", some 900, none, "acme", "app", "read", none⟩

def builtWorld : World := (freshWorld.apply (.register "acme" "app")).apply (.mint buildToken)

def fetchApp : Request :=
  ⟨"POST", "/acme/app.git/git-upload-pack", [], "10.0.0.1", some ⟨"x-access-token", "T"⟩⟩

def routeApp : RoutedRequest := ⟨"acme", "app", .uploadPack, .read⟩

def movedWorld : World := builtWorld.apply (.rename "acme" "app" "lib")

def reusedWorld : World := movedWorld.apply (.register "acme" "app")

/-- After a rename the token leads to the repository under its new name. -/
theorem bound_token_follows_rename :
    ∃ passed, runAuth (Database.store plainCodec movedWorld.db movedWorld.now) none 0 fetchApp
        routeApp = (.ok passed, none) ∧ passed.route.repo = "lib" ∧
      ∃ token ∈ movedWorld.db.tokens, ∃ credential secret row,
        fetchApp.basicAuth = some credential ∧
        plainCodec.parseToken credential.password = some (token.id, secret) ∧
        movedWorld.db.repo passed.route.tenant passed.route.repo = some row ∧
        token.mintedFor = some row.identity := by
  have run : Run Step freshWorld _ movedWorld :=
    ((Run.nil.next (l := .register "acme" "app") rfl).next (l := .mint buildToken) rfl).next
      (l := Change.rename "acme" "app" "lib") rfl
  refine ⟨⟨some ⟨"_build", "build:acme/app:ci", false⟩, some ⟨"acme", "app", .read⟩,
    ⟨"acme", "lib", .uploadPack, .read⟩⟩, rfl, rfl, ?_⟩
  refine (bound_credentials_follow sound_fresh run ?_ plainCodec).1 none none 0 fetchApp routeApp _
    _ rfl rfl
  simp only [forall_mem_cons, not_mem_nil, IsEmpty.forall_iff, implies_true, and_true]
  refine ⟨?_, trivial, ?_⟩
  · intro row _ token member _ bound
    obtain rfl := mem_singleton.mp member
    exact absurd bound (by decide)
  · intro _ token member
    cases member

/-- A token that was made for one repository lets a request through to another one that was
registered under the old name. -/
theorem bound_token_reaches_other_repo :
    ∃ passed, runAuth (Database.store plainCodec reusedWorld.db reusedWorld.now) none 0 fetchApp
        routeApp = (.ok passed, none) ∧ passed.scope = some ⟨"acme", "app", .read⟩ ∧
      (reusedWorld.db.repo passed.route.tenant passed.route.repo).map RepoRow.identity = some 1 ∧
      reusedWorld.db.tokens.map TokenRow.mintedFor = [some 0] := by
  refine ⟨⟨some ⟨"_build", "build:acme/app:ci", false⟩, some ⟨"acme", "app", .read⟩, routeApp⟩,
    rfl, rfl, ?_, ?_⟩
  · decide
  · decide

end Requests

end BucketVcs.Gateway
