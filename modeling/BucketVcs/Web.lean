import BucketVcs.Auth.LastAdmin

/-! The session that the web server attaches to a request. -/

namespace BucketVcs.Web

open Auth

def zeroTime : Seconds := -62135596800

structure SessionPolicy where
  hashSessionID : String → String
  ttl : Seconds
  maxAge : Seconds

/-- `sessionMiddleware`: the session that is attached to the request, and the database after
the session was slid on or, past its absolute age, deleted. -/
def sessionMiddleware (policy : SessionPolicy) (db : Database) (now : Seconds)
    (cookie : Option String) : Option Session × Database :=
  match cookie with
  | none => (none, db)
  | some rawID =>
    if rawID = "" then (none, db)
    else
      match db.lookupSession policy.hashSessionID now rawID with
      | none => (none, db)
      | some session =>
        let capped := session.createdAt ≠ zeroTime && 0 < policy.maxAge
        if capped && policy.maxAge < now - session.createdAt then
          (none, db.deleteSession policy.hashSessionID rawID)
        else
          let remaining := session.createdAt + policy.maxAge - now
          let slide := if capped && remaining < policy.ttl then remaining else policy.ttl
          (some session,
            if 0 < slide then db.touchSession policy.hashSessionID now rawID slide else db)

theorem sessionMiddleware_cases (policy : SessionPolicy) (db : Database) (now : Seconds)
    (cookie : Option String) :
    sessionMiddleware policy db now cookie = (none, db) ∨
      (∃ rawID, sessionMiddleware policy db now cookie =
        (none, db.deleteSession policy.hashSessionID rawID)) ∨
      ∃ rawID session after, cookie = some rawID ∧
        db.lookupSession policy.hashSessionID now rawID = some session ∧
        sessionMiddleware policy db now cookie = (some session, after) ∧
        (after = db ∨ ∃ ttl, after = db.touchSession policy.hashSessionID now rawID ttl) := by
  cases cookie with
  | none => exact .inl rfl
  | some rawID =>
    by_cases empty : rawID = ""
    · exact .inl (if_pos empty)
    · cases found : db.lookupSession policy.hashSessionID now rawID with
      | none => exact .inl (by simp only [sessionMiddleware, if_neg empty, found])
      | some session =>
        simp only [sessionMiddleware, if_neg empty, found]
        split
        · exact .inr (.inl ⟨rawID, rfl⟩)
        · refine .inr (.inr ⟨rawID, session, _, rfl, found, rfl, ?_⟩)
          -- the session is touched only if time is left to slide it
          by_cases open_ended : 0 < (if (session.createdAt ≠ zeroTime && 0 < policy.maxAge) &&
              session.createdAt + policy.maxAge - now < policy.ttl then
              session.createdAt + policy.maxAge - now else policy.ttl)
          · exact .inr ⟨_, if_pos open_ended⟩
          · exact .inl (if_neg open_ended)

end BucketVcs.Web
