import AlgoTrading.JsonValues
/-!
# Sessions — who an act is let through for

`auth.py`, `stepup.py`, `routers/auth.py`, and `get_current_session` and `require_write_scope` of `deps.py` in `apps/api`.  A
session is a signed token in a cookie and the server keeps none: what a call may do is read off the cookie, the instant and, for
the acts that cannot be taken back, a password.  The signature and the password hash are parameters.  Instants are microseconds.
-/
namespace Atp
namespace Sessions

open JsonValues (Value Key)

inductive Scope where
  | read
  | full
deriving DecidableEq, Repr

def Scope.value : Scope → String
  | read => "read"
  | full => "full"

structure Session where
  user : String
  scope : Scope
deriving DecidableEq, Repr

def Session.mayAct (s : Session) : Bool := s.scope = .full

structure Settings where
  apiUser : String
  apiPasswordHash : String
  signingKey : String
  apiSessionHours : ℕ

/-- The payload of a token. -/
abbrev Claims := Dict String Value

/-- `jwt.encode` and `jwt.decode` with HS256, by key, over the texts a cookie may have, `blank` telling the empty one; and
`bcrypt.checkpw`, where it does not raise. -/
structure Crypto (Token : Type) where
  encode : String → Claims → Token
  decode : String → Token → Option Claims
  blank : Token → Bool
  checkpw : String → String → Option Bool

def MAX_PASSWORD_BYTES : ℕ := 72

def hour : ℤ := 3600000000

/-- `int(at.timestamp())`. -/
def timestamp (at_ : ℤ) : ℤ := at_.tdiv 1000000

section Server

variable {Token : Type} (crypto : Crypto Token) (settings : Settings)

/-- **`verify_password`**. -/
def verifyPassword (password hashed : String) : Bool :=
  if hashed = "" then false
  else if MAX_PASSWORD_BYTES < password.utf8ByteSize then false
  else (crypto.checkpw password hashed).getD false

/-- A text `compare_digest` takes. -/
def isAscii (s : String) : Bool := s.toList.all fun c => c.toNat < 128

/-- **`authenticate`**; `compare_digest` raises on a text that is not ASCII. -/
def authenticate (username password : String) : Except Unit (Option String) :=
  if isAscii username && isAscii settings.apiUser then
    .ok (if username = settings.apiUser ∧ verifyPassword crypto password settings.apiPasswordHash = true then
      some settings.apiUser else none)
  else .error ()

def claimsOf (subject : String) (scope : Scope) (now : ℤ) : Claims :=
  (((Dict.empty.set "sub" (.str subject)).set "scp" (.str scope.value)).set "iat" (.int (timestamp now))).set "exp"
    (.int (timestamp (now + settings.apiSessionHours * hour)))

/-- **`create_session_token`**. -/
def createSessionToken (subject : String) (now : ℤ) (scope : Scope) : Token :=
  crypto.encode settings.signingKey (claimsOf settings subject scope now)

/-- The claim an `isinstance(_, int)` takes: a `bool` is one. -/
def asInt : Value → Option ℤ
  | .int n => some n
  | .bool b => some (if b then 1 else 0)
  | _ => none

/-- `Scope(claims.get("scp", ""))`, and READ for what it does not know. -/
def scopeOf : Option Value → Scope
  | some (.str "full") => .full
  | _ => .read

/-- **`read_session_token`**. -/
def readSessionToken (token : Token) (now : ℤ) : Option Session := do
  guard (!crypto.blank token)
  let claims ← crypto.decode settings.signingKey token
  let expiresAt ← (claims.get? "exp").bind asInt
  guard (now < 1000000 * expiresAt)
  match claims.get? "sub" with
  | some (.str subject) => if subject = "" then none else some ⟨subject, scopeOf (claims.get? "scp")⟩
  | _ => none

/-! ## Requests -/

structure LoginRequest where
  username : String
  password : String
  readOnly : Bool := false
deriving DecidableEq, Repr

/-- `Field(min_length=1, max_length=…)` on both. -/
def LoginRequest.valid (p : LoginRequest) : Bool :=
  1 ≤ p.username.length && p.username.length ≤ 200 && 1 ≤ p.password.length && p.password.length ≤ 1024

/-- What the limiter said: allowed, or the seconds to wait. -/
inductive Verdict where
  | allowed
  | refused (retryAfter : ℤ)
deriving DecidableEq, Repr

/-- A request of a route that needs a session; `arming` is a save of the configuration that lifts the live-orders lock. -/
structure Call (Token : Type) where
  method : String
  path : String
  cookie : Token
  now : ℤ
  password : String := ""
  arming : Bool := false
deriving DecidableEq, Repr

inductive Event (Token : Type) where
  | login (payload : LoginRequest) (address : String) (verdict : Verdict) (now : ℤ)
  | logout (cookie : Token) (now : ℤ)
  | call (c : Call Token)
deriving DecidableEq, Repr

/-- `AuditEntry`, its detail as the pairs in it. -/
structure AuditEntry where
  moment : ℤ
  actor : String
  action : String
  target : Option String
  detail : List (String × String)
deriving DecidableEq, Repr

inductive Response (Token : Type) where
  | unprocessable
  | tooMany (retryAfter : ℤ)
  | unauthorized (detail : String)
  | forbidden (detail : String)
  | signedIn (user : String) (scope : Scope) (cookie : Token)
  | signedOut
  /-- The handler goes on, for this user. -/
  | handled (user : String)
  | crashed
deriving DecidableEq, Repr

/-- The cookie a response sets. -/
def Response.cookie : Response Token → Option Token
  | signedIn _ _ cookie => some cookie
  | _ => none

def ANONYMOUS : String := "anonymous"

def SAFE_METHODS : List String := ["GET", "HEAD", "OPTIONS"]

def READ_ONLY_MAY_CALL : List String := ["/api/v1/risk/halt"]

/-- The scope a sign-in asks for. -/
def LoginRequest.scope (p : LoginRequest) : Scope := if p.readOnly then .read else .full

/-- **`login`**: the answer, and what is handed to the audit sink. -/
def login (payload : LoginRequest) (address : String) (verdict : Verdict) (now : ℤ) : Response Token × List AuditEntry :=
  if payload.valid then
    match verdict with
    | .refused retryAfter =>
      (.tooMany retryAfter, [⟨now, ANONYMOUS, "rate_limited", some address,
        [("username", payload.username), ("retry_after", toString retryAfter)]⟩])
    | .allowed =>
      match authenticate crypto settings payload.username payload.password with
      | .error () => (.crashed, [])
      | .ok none =>
        (.unauthorized "invalid username or password",
          [⟨now, ANONYMOUS, "login_failed", some address, [("username", payload.username)]⟩])
      | .ok (some subject) =>
        (.signedIn subject payload.scope (createSessionToken crypto settings subject now payload.scope),
          [⟨now, subject, "login", some address, [("scope", payload.scope.value)]⟩])
  else (.unprocessable, [])

/-- **`logout`**: nothing is revoked. -/
def logout (cookie : Token) (now : ℤ) : Response Token × List AuditEntry :=
  match readSessionToken crypto settings cookie now with
  | some session => (.signedOut, [⟨now, session.user, "logout", none, []⟩])
  | none => (.signedOut, [])

/-- The acts that ask for the password again. -/
def Call.asksAgain (c : Call Token) : Bool :=
  (c.method = "POST" && (c.path = "/api/v1/risk/resume" || c.path = "/api/v1/risk/flatten-all")) ||
    (c.method = "PUT" && c.path = "/api/v1/worker/config" && c.arming)

/-- A request that needs no scope. -/
def Call.harmless (c : Call Token) : Bool := SAFE_METHODS.contains c.method || READ_ONLY_MAY_CALL.contains c.path

/-- **`get_current_session`, `require_write_scope`, and `require_step_up`** where the handler asks again. -/
def guarded (c : Call Token) : Response Token × List AuditEntry :=
  match readSessionToken crypto settings c.cookie c.now with
  | none => (.unauthorized "not authenticated", [])
  | some session =>
    if c.harmless || session.mayAct then
      if c.asksAgain then
        match authenticate crypto settings session.user c.password with
        | .error () => (.crashed, [])
        | .ok (some _) => (.handled session.user, [])
        | .ok none =>
          (.forbidden "password required for this action",
            [⟨c.now, session.user, "forbidden", some c.path, [("reason", "step_up_failed")]⟩])
      else (.handled session.user, [])
    else
      (.forbidden "this session is read-only",
        [⟨c.now, session.user, "forbidden", some c.path, [("method", c.method), ("scope", session.scope.value)]⟩])

def respond : Event Token → Response Token × List AuditEntry
  | .login payload address verdict now => login crypto settings payload address verdict now
  | .logout cookie now => logout crypto settings cookie now
  | .call c => guarded crypto settings c

/-! ## Tokens -/

/-- A payload of texts and integers. -/
def Flat (claims : Claims) : Prop := ∀ k v, claims.get? k = some v → (∃ text, v = .str text) ∨ ∃ n, v = .int n

/-- What a signed token reads back as, under the key it was signed with. -/
structure Signed : Prop where
  not_blank : ∀ key claims, crypto.blank (crypto.encode key claims) = false
  decode_encode : ∀ key claims, Flat claims → crypto.decode key (crypto.encode key claims) = some claims

variable {crypto settings}

variable (settings) in
theorem claimsOf_get? (subject : String) (scope : Scope) (now : ℤ) (k : String) :
    (claimsOf settings subject scope now).get? k =
      if k = "exp" then some (.int (timestamp (now + settings.apiSessionHours * hour)))
      else if k = "iat" then some (.int (timestamp now))
      else if k = "scp" then some (.str scope.value)
      else if k = "sub" then some (.str subject) else none := by
  unfold claimsOf
  rw [Dict.get?_set, Dict.get?_set, Dict.get?_set, Dict.get?_set, Dict.get?_empty]

variable (settings) in
theorem claimsOf_flat (subject : String) (scope : Scope) (now : ℤ) : Flat (claimsOf settings subject scope now) := by
  intro k v hv
  rw [claimsOf_get?] at hv
  split_ifs at hv <;> cases hv
  · exact .inr ⟨_, rfl⟩
  · exact .inr ⟨_, rfl⟩
  · exact .inl ⟨_, rfl⟩
  · exact .inl ⟨_, rfl⟩

theorem scopeOf_value (scope : Scope) : scopeOf (some (.str scope.value)) = scope := by
  cases scope <;> rfl

/-- **A token reads back as the session it was minted for**, until it expires. -/
theorem readSessionToken_minted (h : Signed crypto) {subject : String} (hsubject : subject ≠ "") (scope : Scope)
    (minted now : ℤ) :
    readSessionToken crypto settings (createSessionToken crypto settings subject minted scope) now =
      if now < 1000000 * timestamp (minted + settings.apiSessionHours * hour) then some ⟨subject, scope⟩ else none := by
  have hread := h.decode_encode settings.signingKey _ (claimsOf_flat settings subject scope minted)
  have hexp := claimsOf_get? settings subject scope minted "exp"
  have hsub := claimsOf_get? settings subject scope minted "sub"
  have hscp := claimsOf_get? settings subject scope minted "scp"
  rw [if_pos rfl] at hexp
  rw [if_neg (by decide), if_neg (by decide), if_pos rfl] at hscp
  rw [if_neg (by decide), if_neg (by decide), if_neg (by decide), if_pos rfl] at hsub
  unfold readSessionToken createSessionToken
  by_cases hlive : now < 1000000 * timestamp (minted + settings.apiSessionHours * hour)
  · simp [guard, h.not_blank, hread, hexp, hsub, hscp, asInt, hlive, hsubject, scopeOf_value]
  · simp [guard, h.not_blank, hread, hexp, asInt, hlive]

/-! ## Sign-ins -/

variable (crypto settings) in
/-- The token a request is answered with. -/
def mintedBy (e : Event Token) : Option Token := (respond crypto settings e).1.cookie

variable (crypto settings) in
/-- A sign-in that succeeds. -/
structure SignsIn (payload : LoginRequest) (verdict : Verdict) : Prop where
  valid : payload.valid = true
  allowed : verdict = .allowed
  ascii : isAscii settings.apiUser = true
  username : payload.username = settings.apiUser
  password : verifyPassword crypto payload.password settings.apiPasswordHash = true

/-- Nobody has no name. -/
theorem SignsIn.apiUser_ne {payload : LoginRequest} {verdict : Verdict} (h : SignsIn crypto settings payload verdict) :
    settings.apiUser ≠ "" := by
  intro hempty
  have hvalid := h.valid
  unfold LoginRequest.valid at hvalid
  rw [h.username, hempty] at hvalid
  simp at hvalid

theorem authenticate_ok {username password : String} {subject : String} :
    authenticate crypto settings username password = .ok (some subject) ↔
      subject = settings.apiUser ∧ username = settings.apiUser ∧ isAscii settings.apiUser = true ∧
        verifyPassword crypto password settings.apiPasswordHash = true := by
  unfold authenticate
  constructor
  · intro h
    split_ifs at h with hascii hboth
    · cases h
      rw [Bool.and_eq_true] at hascii
      exact ⟨rfl, hboth.1, hascii.2, hboth.2⟩
    · cases h
  · rintro ⟨rfl, rfl, hascii, hpassword⟩
    rw [if_pos (by rw [hascii]; rfl), if_pos ⟨rfl, hpassword⟩]

/-- No call is answered with a token. -/
theorem guarded_cookie (c : Call Token) : (guarded crypto settings c).1.cookie = none := by
  unfold guarded
  split
  · rfl
  · split_ifs
    · split <;> rfl
    · rfl
    · rfl

/-- **A token is minted by a sign-in of the operator, and no other way.** -/
theorem mintedBy_iff {e : Event Token} {cookie : Token} : mintedBy crypto settings e = some cookie ↔
    ∃ payload address verdict now, e = .login payload address verdict now ∧ SignsIn crypto settings payload verdict ∧
      cookie = createSessionToken crypto settings settings.apiUser now payload.scope := by
  constructor
  · intro h
    cases e with
    | login payload address verdict now =>
      change (login crypto settings payload address verdict now).1.cookie = some cookie at h
      unfold login at h
      cases hvalid : payload.valid with
      | false =>
        rw [if_neg (by rw [hvalid]; decide)] at h
        cases h
      | true =>
        rw [if_pos hvalid] at h
        cases verdict with
        | refused retryAfter => cases h
        | allowed =>
          dsimp only at h
          cases hauth : authenticate crypto settings payload.username payload.password with
          | error e =>
            rw [hauth] at h
            cases h
          | ok subject =>
            rw [hauth] at h
            cases subject with
            | none => cases h
            | some subject =>
              cases h
              obtain ⟨rfl, hname, hascii, hpassword⟩ := authenticate_ok.1 hauth
              exact ⟨payload, address, .allowed, now, rfl, ⟨hvalid, rfl, hascii, hname, hpassword⟩, rfl⟩
    | logout cookie now =>
      change (logout crypto settings cookie now).1.cookie = some _ at h
      unfold logout at h
      split at h <;> cases h
    | call c =>
      change (guarded crypto settings c).1.cookie = some cookie at h
      rw [guarded_cookie] at h
      cases h
  · rintro ⟨payload, address, verdict, now, rfl, hsign, rfl⟩
    obtain ⟨hvalid, rfl, hascii, hname, hpassword⟩ := hsign
    change (login crypto settings payload address .allowed now).1.cookie = some _
    unfold login
    rw [if_pos hvalid]
    dsimp only
    rw [authenticate_ok.2 ⟨rfl, hname, hascii, hpassword⟩]
    rfl

/-! ## What a call may do -/

section Calls

variable (crypto settings) (history : List (Event Token)) (c : Call Token)

/-- A sign-in of the history that asked for this scope and whose token, not yet expired, the call presents. -/
def Live (scope : Scope) : Prop :=
  ∃ payload address verdict now, Event.login payload address verdict now ∈ history ∧
    SignsIn crypto settings payload verdict ∧ payload.scope = scope ∧
    c.cookie = createSessionToken crypto settings settings.apiUser now scope ∧
    c.now < 1000000 * timestamp (now + settings.apiSessionHours * hour)

/-- The call presents a token of the history, or a text the key does not verify. -/
def Held : Prop := c.cookie ∈ history.filterMap (mintedBy crypto settings) ∨ crypto.decode settings.signingKey c.cookie = none

/-- What lets an act through: a live sign-in, of full scope unless the act is harmless, and the password where it is asked. -/
def Entitled : Prop :=
  ∃ scope, Live crypto settings history c scope ∧ (c.harmless = true ∨ scope = .full) ∧
    (c.asksAgain = true → verifyPassword crypto c.password settings.apiPasswordHash = true)

end Calls

variable {history : List (Event Token)} {c : Call Token}

/-- **A cookie is a session exactly when a live sign-in stands behind it.** -/
theorem readSessionToken_iff (h : Signed crypto) (hheld : Held crypto settings history c) (session : Session) :
    readSessionToken crypto settings c.cookie c.now = some session ↔
      session.user = settings.apiUser ∧ Live crypto settings history c session.scope := by
  constructor
  · intro hread
    rcases hheld with hmem | hnone
    · obtain ⟨e, he, hmint⟩ := List.mem_filterMap.1 hmem
      obtain ⟨payload, address, verdict, now, rfl, hsign, hcookie⟩ := mintedBy_iff.1 hmint
      rw [hcookie, readSessionToken_minted h hsign.apiUser_ne] at hread
      split_ifs at hread with hlive
      cases hread
      exact ⟨rfl, payload, address, verdict, now, he, hsign, rfl, hcookie, hlive⟩
    · unfold readSessionToken at hread
      rw [hnone] at hread
      cases hblank : crypto.blank c.cookie <;> simp [guard, hblank] at hread
  · rintro ⟨huser, payload, address, verdict, now, -, hsign, hscope, hcookie, hlive⟩
    rw [hcookie, readSessionToken_minted h hsign.apiUser_ne, if_pos hlive, ← huser]

theorem Live.ascii {scope : Scope} (h : Live crypto settings history c scope) : isAscii settings.apiUser = true := by
  obtain ⟨payload, address, verdict, now, -, hsign, -⟩ := h
  exact hsign.ascii

/-- What a call that got past its session is asked, and answered. -/
theorem guarded_session {session : Session} (hread : readSessionToken crypto settings c.cookie c.now = some session)
    (huser : session.user = settings.apiUser) (hascii : isAscii settings.apiUser = true) :
    guarded crypto settings c =
      if c.harmless = true ∨ session.scope = .full then
        if c.asksAgain = true → verifyPassword crypto c.password settings.apiPasswordHash = true then
          (.handled settings.apiUser, [])
        else (.forbidden "password required for this action",
          [⟨c.now, settings.apiUser, "forbidden", some c.path, [("reason", "step_up_failed")]⟩])
      else (.forbidden "this session is read-only",
        [⟨c.now, settings.apiUser, "forbidden", some c.path, [("method", c.method), ("scope", session.scope.value)]⟩]) := by
  have hauth : authenticate crypto settings settings.apiUser c.password =
      .ok (if verifyPassword crypto c.password settings.apiPasswordHash = true then some settings.apiUser else none) := by
    unfold authenticate
    rw [if_pos (by rw [hascii]; rfl)]
    simp
  unfold guarded
  rw [hread]
  dsimp only
  rw [huser, hauth]
  have hmay : (c.harmless || session.mayAct) = true ↔ c.harmless = true ∨ session.scope = .full := by
    unfold Session.mayAct
    rw [Bool.or_eq_true, decide_eq_true_eq]
  by_cases hpass : c.harmless = true ∨ session.scope = .full
  · rw [if_pos hpass, if_pos (hmay.2 hpass)]
    cases hasks : c.asksAgain with
    | false => simp
    | true => cases hverify : verifyPassword crypto c.password settings.apiPasswordHash <;> simp
  · rw [if_neg hpass, if_neg (mt hmay.1 hpass)]

variable (crypto settings history c) in
/-- What is known of a call from the sign-ins before it: it is let through for the operator exactly when it is entitled, it is sent
to sign in exactly when no sign-in stands behind it, and a live session that is refused leaves one row. -/
structure Authorised : Prop where
  handled : ∀ user, (guarded crypto settings c).1 = .handled user ↔
    user = settings.apiUser ∧ Entitled crypto settings history c
  unauthenticated : (guarded crypto settings c).1 = .unauthorized "not authenticated" ↔
    ∀ scope, ¬ Live crypto settings history c scope
  refused : (∃ scope, Live crypto settings history c scope) → ¬ Entitled crypto settings history c →
    ∃ detail, (guarded crypto settings c).2 = [⟨c.now, settings.apiUser, "forbidden", some c.path, detail⟩]
  quiet : Entitled crypto settings history c ∨ (∀ scope, ¬ Live crypto settings history c scope) →
    (guarded crypto settings c).2 = []

/-- A live session that is refused. -/
theorem Authorised.of_refused {scope : Scope} {reason : String} {detail : List (String × String)}
    (hlive : Live crypto settings history c scope) (hno : ¬ Entitled crypto settings history c)
    (hguarded : guarded crypto settings c =
      (.forbidden reason, [⟨c.now, settings.apiUser, "forbidden", some c.path, detail⟩])) :
    Authorised crypto settings history c where
  handled user := by
    rw [hguarded]
    refine ⟨fun heq => ?_, fun hyes => absurd hyes.2 hno⟩
    cases heq
  unauthenticated := by
    rw [hguarded]
    refine ⟨fun heq => ?_, fun hdead => absurd hlive (hdead scope)⟩
    cases heq
  refused _ _ := ⟨detail, by rw [hguarded]⟩
  quiet hquiet := by
    rcases hquiet with hyes | hdead
    · exact absurd hyes hno
    · exact absurd hlive (hdead scope)

/-- **Every act goes back to a sign-in**: a call is let through exactly when the operator signed in no longer ago than a session
lasts, with the scope the act needs, and gives the password again where the act cannot be taken back.  Signing out takes nothing
away. -/
theorem acts_authorised (h : Signed crypto) (hheld : Held crypto settings history c) :
    Authorised crypto settings history c := by
  cases hread : readSessionToken crypto settings c.cookie c.now with
  | none =>
    have hdead : ∀ scope, ¬ Live crypto settings history c scope := fun scope hlive => by
      have hsome := (readSessionToken_iff h hheld ⟨settings.apiUser, scope⟩).2 ⟨rfl, hlive⟩
      rw [hread] at hsome
      cases hsome
    have hguarded : guarded crypto settings c = (.unauthorized "not authenticated", []) := by
      unfold guarded
      rw [hread]
    constructor
    · intro user
      rw [hguarded]
      constructor
      · intro heq
        cases heq
      · rintro ⟨-, scope, hlive, -⟩
        exact absurd hlive (hdead scope)
    · rw [hguarded]
      exact iff_of_true rfl hdead
    · rintro ⟨scope, hlive⟩
      exact absurd hlive (hdead scope)
    · intro _
      rw [hguarded]
  | some session =>
    obtain ⟨huser, hlive⟩ := (readSessionToken_iff h hheld _).1 hread
    -- the session's scope is that of every sign-in that stands behind the cookie
    have hscope : ∀ scope, Live crypto settings history c scope → scope = session.scope := fun scope hother => by
      have hsome := (readSessionToken_iff h hheld ⟨settings.apiUser, scope⟩).2 ⟨rfl, hother⟩
      rw [hread] at hsome
      cases hsome
      rfl
    have hentitled : Entitled crypto settings history c ↔ (c.harmless = true ∨ session.scope = .full) ∧
        (c.asksAgain = true → verifyPassword crypto c.password settings.apiPasswordHash = true) := by
      constructor
      · rintro ⟨scope, hother, hmay⟩
        rwa [hscope scope hother] at hmay
      · exact fun hmay => ⟨session.scope, hlive, hmay⟩
    have hguarded := guarded_session hread huser hlive.ascii
    by_cases hmay : c.harmless = true ∨ session.scope = .full
    · by_cases hpass : c.asksAgain = true → verifyPassword crypto c.password settings.apiPasswordHash = true
      · have hyes : Entitled crypto settings history c := hentitled.2 ⟨hmay, hpass⟩
        rw [if_pos hmay, if_pos hpass] at hguarded
        constructor
        · intro user
          rw [hguarded]
          constructor
          · intro heq
            cases heq
            exact ⟨rfl, hyes⟩
          · rintro ⟨rfl, -⟩
            rfl
        · rw [hguarded]
          refine ⟨fun heq => ?_, fun hdead => absurd hlive (hdead session.scope)⟩
          cases heq
        · exact fun _ hno => absurd hyes hno
        · intro _
          rw [hguarded]
      · rw [if_pos hmay, if_neg hpass] at hguarded
        exact .of_refused hlive (fun hyes => hpass (hentitled.1 hyes).2) hguarded
    · rw [if_neg hmay] at hguarded
      exact .of_refused hlive (fun hyes => hmay (hentitled.1 hyes).1) hguarded

end Server

/-- Tokens nobody can make without the key: what was signed, and with which key. -/
def sealed : Crypto (Option (String × Claims)) where
  encode key claims := some (key, claims)
  decode key token := token.bind fun (by_, claims) => if by_ = key then some claims else none
  blank token := token.isNone
  checkpw password hashed := some (password = hashed)

def deployed : Settings := ⟨"operator", "correct horse", "k", 12⟩

/-- The operator signs in to look, and that session asks to flatten the book an hour later. -/
theorem acts_authorised_read :
    let looked : Event (Option (String × Claims)) := .login ⟨"operator", "correct horse", true⟩ "10.0.0.2" .allowed 0
    let flatten : Call (Option (String × Claims)) :=
      ⟨"POST", "/api/v1/risk/flatten-all", createSessionToken sealed deployed "operator" 0 .read, hour, "correct horse", false⟩
    Authorised sealed deployed [looked] flatten := by
  intro looked flatten
  have hsigned : Signed sealed := ⟨fun _ _ => rfl, fun key claims _ => if_pos rfl⟩
  have hsign : SignsIn sealed deployed ⟨"operator", "correct horse", true⟩ .allowed := ⟨by decide, rfl, by decide, rfl, by decide⟩
  have hmint : mintedBy sealed deployed looked = some flatten.cookie := mintedBy_iff.2 ⟨_, _, _, _, rfl, hsign, rfl⟩
  exact acts_authorised hsigned (.inl (List.mem_filterMap.2 ⟨looked, List.mem_cons_self, hmint⟩))

end Sessions
end Atp
