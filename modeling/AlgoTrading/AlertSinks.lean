import AlgoTrading.Alerts
import AlgoTrading.HaltStorage
import AlgoTrading.Redaction
import AlgoTrading.Runs
/-!
# AlertSinks — what a transport answers, and what is made of it

`alerts/sinks.py`.  A credential is in the URL each transport posts to, and whatever the transport says of a failure is scrubbed
of it before it is logged.  A send counts once, as sent or failed, but for one answer: a Telegram reply of a 2xx whose JSON is no
object, which `send` raises on, and whose exception the fan-out logs as it is.
-/
namespace Atp
namespace Sinks

open Redaction

/-! ## Scrubbing -/

/-- **`_scrub`.** -/
def scrubText (text : String) (secrets : List String) : String :=
  String.ofList (scrub "***".toList text.toList (secrets.map String.toList))

/-- The characters of one text in a row in another. -/
def Within (word text : String) : Prop := word.toList <:+: text.toList

/-- A secret the mask cannot spell. -/
def Maskable (secret : String) : Prop := secret ≠ "" ∧ '*' ∉ secret.toList

/-- **No secret is in a scrubbed text**, as long as it has no asterisk of its own. -/
theorem scrubText_clean {text secret : String} {secrets : List String} (hmem : secret ∈ secrets) (h : Maskable secret) :
    ¬Within secret (scrubText text secrets) := by
  unfold Within scrubText
  rw [String.toList_ofList]
  have hmark : ∀ a ∈ "***".toList, (fun c : Char => decide (c = '*')) a = true := by simp
  have hfree : Free (fun c : Char => decide (c = '*')) secret.toList := fun a ha => by
    rw [decide_eq_false_iff_not]
    rintro rfl
    exact h.2 ha
  refine not_infix_scrub hmark (by decide) (List.mem_map_of_mem hmem) hfree fun hnil => h.1 ?_
  rw [← String.ofList_toList (s := secret), hnil]

/-! ## The sinks -/

/-- What a POST comes to: an exception with its text, or a response, with what `json()` makes of its body. -/
inductive Answer
  | raised (text : String)
  | response (status : ℕ) (reason : String) (json : Except String Json)

inductive Sink
  | logging
  | ntfy (url topic token : String)
  | telegram (url token chatId : String)
deriving DecidableEq

/-- What is posted. -/
structure Request where
  url : String
  headers : List (String × String) := []
  content : List (String × String)
deriving DecidableEq

inductive Metric
  | sent (transport : String) (severity : Severity)
  | failed (transport : String)
deriving DecidableEq

/-- A line of the log: its level, its event, and what it is given by name. -/
structure Entry where
  level : String
  event : String
  fields : List (String × String)
deriving DecidableEq

/-- What the line calls the error. -/
def Entry.error (e : Entry) : Option String := e.fields.lookup "error"

/-- What one send did; `raised` is the text of an exception that left it. -/
structure Outcome where
  request : Option Request := none
  metrics : List Metric := []
  log : List Entry := []
  raised : Option String := none
deriving DecidableEq

/-- What is the interpreter's and the logger's to say: whether a value counts as true, its `str`, the names that the logger's own
call takes, and what the `TypeError` of a name given twice says. -/
structure Runtime where
  truthy : Json → Bool
  str : Json → String
  own : List String
  twice : String → String

def logLevel : Severity → String
  | .info => "info"
  | .warning => "warning"
  | .critical => "critical"

def ntfyPriority : Severity → String
  | .info => "3"
  | .warning => "4"
  | .critical => "5"

def ntfyTags : Severity → String
  | .info => "information_source"
  | .warning => "warning"
  | .critical => "rotating_light"

def telegramSilent : Severity → Bool
  | .info => true
  | .warning => false
  | .critical => false

def telegramPrefix : Severity → String
  | .info => "\u2139\ufe0f"
  | .warning => "\u26a0\ufe0f"
  | .critical => String.ofList [Char.ofNat 0x1f6a8]

/-- `s.rstrip('/')`. -/
def withoutSlashes (s : String) : String := String.ofList (s.toList.reverse.dropWhile (· = '/')).reverse

/-- `s.strip()` of a status line, which holds no blank but spaces and tabs. -/
def strip (s : String) : String :=
  String.ofList ((s.toList.dropWhile Char.isWhitespace).reverse.dropWhile Char.isWhitespace).reverse

/-- `NtfyAlertSink`'s constructor; `none` where it raises. -/
def ntfySink (baseUrl topic token : String) : Option Sink :=
  if topic = "" then none else some (.ntfy (withoutSlashes baseUrl ++ "/" ++ topic) topic token)

/-- `TelegramAlertSink`'s. -/
def telegramSink (baseUrl token chatId : String) : Option Sink :=
  if token = "" ∨ chatId = "" then none
  else some (.telegram (withoutSlashes baseUrl ++ "/bot" ++ token ++ "/sendMessage") token chatId)

def Sink.name : Sink → String
  | logging => "logging"
  | ntfy .. => "ntfy"
  | telegram .. => "telegram"

/-- What a sink holds that must not be logged. -/
def Sink.secrets : Sink → List String
  | logging => []
  | ntfy _ topic token => [topic, token]
  | telegram _ token chatId => [token, chatId]

/-- `response.is_success`. -/
def success (status : ℕ) : Bool := decide (200 ≤ status ∧ status < 300)

/-- **`_describe`**, of what `raise_for_status` raises on a response that is no success. -/
def describeStatus (status : ℕ) (reason : String) (secrets : List String) : String :=
  scrubText (strip ("HTTP " ++ toString status ++ " " ++ reason)) secrets

def didNotGoOut : String := "THE ALERT DID NOT GO OUT — the event it describes still did"

/-- The lines of the second transport say whose they are. -/
def Sink.transport : Sink → List (String × String)
  | telegram .. => [("transport", "telegram")]
  | _ => []

/-- A failure: counted, and logged in words that were scrubbed. -/
def failure (sink : Sink) (alert : Alert) (request : Request) (error : String) : Outcome where
  request := some request
  metrics := [.failed sink.name]
  log := [⟨"error", "alert.send_failed", sink.transport ++
    [("key", alert.key), ("severity", alert.severity.value), ("error", error), ("msg", didNotGoOut)]⟩]

def delivered (sink : Sink) (alert : Alert) (request : Request) : Outcome where
  request := some request
  metrics := [.sent sink.name alert.severity]
  log := [⟨"info", "alert.sent", sink.transport ++ [("key", alert.key), ("severity", alert.severity.value)]⟩]

/-- `type(body).__name__`. -/
def typeName : Json → String
  | .null => "NoneType"
  | .bool _ => "bool"
  | .num literal => if literal.toList.all (fun c => c.isDigit || c == '-') then "int" else "float"
  | .str _ => "str"
  | .list _ => "list"
  | .obj _ => "dict"

/-- What the `AttributeError` of `body.get` says. -/
def noGet (body : Json) : String := "'" ++ typeName body ++ "' object has no attribute 'get'"

/-- What `alert.logged` is given by name, before the alert's context. -/
def loggedFields (alert : Alert) : List (String × String) :=
  [("key", alert.key), ("title", alert.title), ("body", alert.body), ("delivered", "False"),
    ("msg", "no alert transport configured — set ALERT_NTFY_TOPIC, or ALERT_TELEGRAM_TOKEN and ALERT_TELEGRAM_CHAT_ID, to reach a phone")]

variable (py : Runtime)

/-- The name that `alert.logged` is given twice: one of its own that the context has too, or one of the logger's. -/
def clash (alert : Alert) : Option String :=
  ((alert.context.map Prod.fst).find? (· ∈ (loggedFields alert).map Prod.fst)).or
    ((alert.context.map Prod.fst).find? (· ∈ py.own))

/-- What Telegram's own answer comes to: nothing, or what it says of the failure; or what `body.get` raises. -/
def telegramBody (body : Json) : Except String (Option String) :=
  match body with
  | .obj fields =>
    .ok (if (Json.lookup "ok" fields).any py.truthy then none
      else some (((Json.lookup "description" fields).map py.str).getD "telegram reported ok=false"))
  | other => .error (noGet other)

/-- **`send`**, given what the transport answers. -/
def Sink.send (sink : Sink) (alert : Alert) (answer : Answer) : Outcome :=
  match sink with
  | .logging =>
    match clash py alert with
    | some name => { metrics := [.failed "logging"], raised := some (py.twice name) }
    | none =>
      { metrics := [.failed "logging"]
        log := [⟨logLevel alert.severity, "alert.logged", loggedFields alert ++ alert.context⟩] }
  | .ntfy url topic token =>
    let request : Request :=
      { url
        headers := [("Title", alert.title), ("Priority", ntfyPriority alert.severity), ("Tags", ntfyTags alert.severity)] ++
          (if token = "" then [] else [("Authorization", "Bearer " ++ token)])
        content := [("content", alert.body)] }
    match answer with
    | .raised text => failure (.ntfy url topic token) alert request (scrubText text [topic, token])
    | .response status reason _ =>
      if success status then delivered (.ntfy url topic token) alert request
      else failure (.ntfy url topic token) alert request (describeStatus status reason [topic, token])
  | .telegram url token chatId =>
    let request : Request :=
      { url
        content := [("chat_id", chatId), ("text", telegramPrefix alert.severity ++ " " ++ alert.title ++ "\n\n" ++ alert.body),
          ("disable_notification", toString (telegramSilent alert.severity))] }
    let failed (error : String) : Outcome := failure (.telegram url token chatId) alert request error
    match answer with
    | .raised text => failed (scrubText text [token, chatId])
    | .response status reason json =>
      if success status then
        match json with
        | .error text => failed (scrubText text [token, chatId])
        | .ok body =>
          match telegramBody py body with
          | .error text => { request := some request, raised := some text }
          | .ok none => delivered (.telegram url token chatId) alert request
          | .ok (some description) => failed (scrubText description [token, chatId])
      else failed (describeStatus status reason [token, chatId])

/-! ## What this deployment's configuration asks for -/

structure Settings where
  ntfyBaseUrl : String := "https://ntfy.sh"
  ntfyTopic : String := ""
  ntfyToken : String := ""
  telegramBaseUrl : String := "https://api.telegram.org"
  telegramToken : String := ""
  telegramChatId : String := ""
deriving DecidableEq

/-- The transports configured. -/
def configured (s : Settings) : List Sink :=
  (ntfySink s.ntfyBaseUrl s.ntfyTopic s.ntfyToken).toList ++ (telegramSink s.telegramBaseUrl s.telegramToken s.telegramChatId).toList

/-- What `build_alert_sink` returns: one sink, or a fan-out over several. -/
inductive Built
  | one (sink : Sink)
  | fanOut (sinks : List Sink)
deriving DecidableEq

/-- **`build_alert_sink`.** -/
def buildAlertSink (s : Settings) : Built :=
  match configured s with
  | [] => .one .logging
  | [sink] => .one sink
  | sinks => .fanOut sinks

def Built.sinks : Built → List Sink
  | one sink => [sink]
  | fanOut sinks => sinks

/-- `type(sink).__name__`. -/
def Sink.className : Sink → String
  | logging => "LoggingAlertSink"
  | ntfy .. => "NtfyAlertSink"
  | telegram .. => "TelegramAlertSink"

/-- The fan-out's line for a sink that raised: the exception's text is as it came. -/
def sinkRaised (sink : Sink) (alert : Alert) (text : String) : Entry where
  level := "error"
  event := "alert.sink_raised"
  fields := [("sink", sink.className), ("key", alert.key), ("error", text), ("msg", "continuing to the other transports")]

/-- One sink's turn in **`FanOutAlertSink.send`**: what it raises is caught. -/
def Outcome.caught (o : Outcome) (sink : Sink) (alert : Alert) : Outcome :=
  match o.raised with
  | some text => { o with log := o.log ++ [sinkRaised sink alert text], raised := none }
  | none => o

/-- **`send`** on what was built, with each sink's answer. -/
def Built.send (b : Built) (alert : Alert) (answers : List Answer) : List Outcome :=
  match b with
  | .one sink => List.zipWith (fun sink answer => sink.send py alert answer) [sink] answers
  | .fanOut sinks => List.zipWith (fun sink answer => (sink.send py alert answer).caught sink alert) sinks answers

/-! ## What comes of a send -/

/-- The alert reached a phone, as far as the transport says. -/
def Reaches : Sink → Answer → Prop
  | .logging, _ => False
  | _, .raised _ => False
  | .ntfy .., .response status _ _ => success status = true
  | .telegram .., .response status _ json =>
    success status = true ∧ ∃ fields, json.toOption = some (.obj fields) ∧ ∃ ok ∈ Json.lookup "ok" fields, py.truthy ok = true

/-- The one answer a transport is not ready for, a 2xx of Telegram in JSON that is no object, and what is then raised. -/
def slip : Sink → Answer → Option String
  | .telegram .., .response status _ (.ok body) =>
    match body with
    | .obj _ => none
    | other => if success status then some (noGet other) else none
  | _, _ => none

/-- What a sink raises: on the answer it is not ready for; or, without a transport, on a name given twice. -/
def escape (sink : Sink) (alert : Alert) (answer : Answer) : Option String :=
  match sink with
  | .logging => (clash py alert).map py.twice
  | _ => slip sink answer

/-- No secret of the sink's is in the text, of those that the mask cannot spell. -/
def Scrubbed (sink : Sink) (text : String) : Prop := ∀ secret ∈ sink.secrets, Maskable secret → ¬Within secret text

variable {py} {sink : Sink} {alert : Alert} {answer : Answer}

/-- **One send**: a transport is posted to; it counts as sent exactly when the alert reached a phone, as failed exactly when it did
not, and once, but for the one answer it is not ready for; and every error it logs is scrubbed, but for what that answer raises. -/
structure Accounted (py : Runtime) (sink : Sink) (alert : Alert) (answer : Answer) (o : Outcome) : Prop where
  tried : o.request.isSome = true ↔ sink ≠ .logging
  sent : o.metrics = [.sent sink.name alert.severity] ↔ Reaches py sink answer
  failed : o.metrics = [.failed sink.name] ↔ ¬Reaches py sink answer ∧ slip sink answer = none
  uncounted : o.metrics = [] ↔ slip sink answer ≠ none
  errors : ∀ e ∈ o.log, ∀ error ∈ e.error, Scrubbed sink error ∨ slip sink answer = some error

/-- A failure logs one error, and counts as one. -/
theorem failure_accounted {request : Request} {text : String} (htransport : sink ≠ .logging) (hreach : ¬Reaches py sink answer)
    (hslip : slip sink answer = none) : Accounted py sink alert answer (failure sink alert request (scrubText text sink.secrets)) where
  tried := by simp [failure, htransport]
  sent := by simp [failure, hreach]
  failed := by simp [failure, hreach, hslip]
  uncounted := by simp [failure, hslip]
  errors e he error herror := by
    obtain rfl := List.mem_singleton.1 he
    have hsame : some (scrubText text sink.secrets) = some error := by
      rw [← herror]
      cases sink <;> rfl
    rw [← Option.some.inj hsame]
    exact .inl fun secret hsecret hmask => scrubText_clean hsecret hmask

theorem delivered_accounted {request : Request} (htransport : sink ≠ .logging) (hreach : Reaches py sink answer)
    (hslip : slip sink answer = none) : Accounted py sink alert answer (delivered sink alert request) where
  tried := by simp [delivered, htransport]
  sent := by simp [delivered, hreach]
  failed := by simp [delivered, hreach]
  uncounted := by simp [delivered, hslip]
  errors e he error herror := by
    obtain rfl := List.mem_singleton.1 he
    have hnone : none = some error := by
      rw [← herror]
      cases sink <;> rfl
    cases hnone

/-- A slip is not counted, and raises. -/
theorem slip_accounted {request : Request} {text : String} (htransport : sink ≠ .logging) (hreach : ¬Reaches py sink answer)
    (hslip : slip sink answer = some text) : Accounted py sink alert answer { request := some request, raised := some text } where
  tried := by simp [htransport]
  sent := by simp [hreach]
  failed := by simp [hslip]
  uncounted := by simp [hslip]
  errors e he := by cases he

theorem telegramBody_ok {body : Json} {verdict : Option String} (h : telegramBody py body = .ok verdict) :
    ∃ fields, body = .obj fields ∧ verdict = if (Json.lookup "ok" fields).any py.truthy then none
      else some (((Json.lookup "description" fields).map py.str).getD "telegram reported ok=false") := by
  cases body with
  | obj fields => exact ⟨fields, rfl, (Except.ok.inj h).symm⟩
  | _ => cases h

theorem telegramBody_error {body : Json} {text : String} (h : telegramBody py body = .error text) :
    (∀ fields, body ≠ .obj fields) ∧ text = noGet body := by
  cases body with
  | obj fields => cases h
  | _ => exact ⟨nofun, (Except.error.inj h).symm⟩

variable (py) in
/-- **Every send is accounted for**, and it raises exactly what escapes it. -/
theorem send_accounted (sink : Sink) (alert : Alert) (answer : Answer) :
    Accounted py sink alert answer (sink.send py alert answer) ∧ (sink.send py alert answer).raised = escape py sink alert answer := by
  cases sink with
  | logging =>
    unfold Sink.send escape
    cases clash py alert with
    | none =>
      refine ⟨⟨by simp, by simp [Reaches], by simp [Reaches, slip, Sink.name], by simp [slip], fun e _ error _ => .inl ?_⟩, rfl⟩
      exact fun secret hsecret => by cases hsecret
    | some name => exact ⟨⟨by simp, by simp [Reaches], by simp [Reaches, slip, Sink.name], by simp [slip], nofun⟩, rfl⟩
  | ntfy url topic token =>
    cases answer with
    | raised text => exact ⟨failure_accounted nofun id rfl, rfl⟩
    | response status reason json =>
      by_cases hsuccess : success status = true <;> simp only [Sink.send, hsuccess, if_true, if_false, Bool.false_eq_true]
      · exact ⟨delivered_accounted nofun hsuccess rfl, rfl⟩
      · exact ⟨failure_accounted nofun hsuccess rfl, rfl⟩
  | telegram url token chatId =>
    cases answer with
    | raised text => exact ⟨failure_accounted nofun id rfl, rfl⟩
    | response status reason json =>
      by_cases hsuccess : success status = true <;> simp only [Sink.send, hsuccess, if_true, if_false, Bool.false_eq_true]
      · cases json with
        | error text => exact ⟨failure_accounted nofun (by simp [Reaches, Except.toOption]) rfl, rfl⟩
        | ok body =>
          dsimp only
          cases hbody : telegramBody py body with
          | error text =>
            obtain ⟨hnot, rfl⟩ := telegramBody_error hbody
            have hslip : slip (.telegram url token chatId) (.response status reason (.ok body)) = some (noGet body) := by
              cases body with
              | obj fields => exact absurd rfl (hnot fields)
              | _ => exact if_pos hsuccess
            have hreach : ¬Reaches py (.telegram url token chatId) (.response status reason (.ok body)) := by
              rintro ⟨-, fields, hfields, -⟩
              exact hnot fields (Option.some.inj hfields)
            exact ⟨slip_accounted nofun hreach hslip, hslip.symm⟩
          | ok verdict =>
            obtain ⟨fields, rfl, rfl⟩ := telegramBody_ok hbody
            by_cases hok : (Json.lookup "ok" fields).any py.truthy = true
            · rw [if_pos hok]
              obtain ⟨ok, hmem, htrue⟩ := (Option.any_eq_true ..).1 hok
              exact ⟨delivered_accounted nofun ⟨hsuccess, fields, rfl, ok, hmem, htrue⟩ rfl, rfl⟩
            · rw [if_neg hok]
              refine ⟨failure_accounted nofun ?_ rfl, rfl⟩
              rintro ⟨-, fields', hfields, ok, hmem, htrue⟩
              obtain rfl : fields = fields' := Json.obj.inj (Option.some.inj hfields)
              exact hok ((Option.any_eq_true ..).2 ⟨ok, hmem, htrue⟩)
      · have hslip : slip (.telegram url token chatId) (.response status reason json) = none := by
          cases json with
          | error text => rfl
          | ok body =>
            cases body with
            | obj fields => rfl
            | _ => exact if_neg hsuccess
        exact ⟨failure_accounted nofun (fun h => hsuccess h.1) hslip, hslip.symm⟩

/-- What the fan-out catches of a transport, it logs: the slip's own words. -/
theorem caught_accounted {o : Outcome} (h : Accounted py sink alert answer o) (hraised : o.raised = slip sink answer) :
    Accounted py sink alert answer (o.caught sink alert) ∧ (o.caught sink alert).raised = none := by
  unfold Outcome.caught
  cases hr : o.raised with
  | none => exact ⟨h, hr⟩
  | some text =>
    refine ⟨⟨h.tried, h.sent, h.failed, h.uncounted, fun e he error herror => ?_⟩, rfl⟩
    rcases List.mem_append.1 he with he | he
    · exact h.errors e he error herror
    · obtain rfl := List.mem_singleton.1 he
      obtain rfl : text = error := Option.some.inj herror
      exact .inr (hraised.symm.trans hr)

theorem built_sinks (s : Settings) : (buildAlertSink s).sinks = if configured s = [] then [.logging] else configured s := by
  unfold buildAlertSink
  split
  · rename_i h
    rw [if_pos h]
    rfl
  · rename_i sink h
    rw [h, if_neg (by simp)]
    rfl
  · rename_i hnone _
    rw [if_neg hnone]
    rfl

/-- A fan-out is over transports, two or more. -/
theorem fanOut_transports {s : Settings} {sinks : List Sink} (h : buildAlertSink s = .fanOut sinks) :
    sinks.length ≠ 1 ∧ ∀ sink ∈ sinks, sink ≠ .logging := by
  unfold buildAlertSink at h
  split at h
  · cases h
  · cases h
  · rename_i hone
    obtain rfl := Built.fanOut.inj h
    refine ⟨fun hlength => ?_, fun sink hsink => ?_⟩
    · obtain ⟨x, hx⟩ := List.length_eq_one_iff.1 hlength
      exact hone x hx
    · rintro rfl
      unfold configured ntfySink telegramSink at hsink
      split_ifs at hsink <;> simp at hsink

/-- **Whatever is configured and whatever the transports answer**: every transport configured is tried with every alert, and each
send is accounted for; what a sink raises leaves it where it is the only one, and a fan-out raises nothing. -/
theorem every_send_accounted (s : Settings) (alert : Alert) (answers : List Answer) :
    (buildAlertSink s).sinks = (if configured s = [] then [.logging] else configured s) ∧
      ∀ (i : ℕ) sink answer, (buildAlertSink s).sinks[i]? = some sink → answers[i]? = some answer →
        ∃ o, ((buildAlertSink s).send py alert answers)[i]? = some o ∧ Accounted py sink alert answer o ∧
          o.raised = if (buildAlertSink s).sinks.length = 1 then escape py sink alert answer else none := by
  refine ⟨built_sinks s, fun i sink answer hsink hanswer => ?_⟩
  obtain ⟨haccounted, hraised⟩ := send_accounted py sink alert answer
  cases hbuilt : buildAlertSink s with
  | one only =>
    rw [hbuilt] at hsink
    refine ⟨_, ?_, haccounted, hraised⟩
    simp only [Built.send, List.getElem?_zipWith, hanswer]
    rw [show [only][i]? = some sink from hsink]
  | fanOut sinks =>
    rw [hbuilt] at hsink
    obtain ⟨hmany, htransports⟩ := fanOut_transports hbuilt
    have hslip : escape py sink alert answer = slip sink answer := by
      have htransport := htransports sink (List.mem_of_getElem? hsink)
      cases sink with
      | logging => exact absurd rfl htransport
      | ntfy => rfl
      | telegram => rfl
    obtain ⟨hcaught, hquiet⟩ := caught_accounted haccounted (hraised.trans hslip)
    refine ⟨_, ?_, hcaught, ?_⟩
    · simp only [Built.send, List.getElem?_zipWith, hanswer]
      rw [show sinks[i]? = some sink from hsink]
    · exact hquiet.trans (if_neg hmany).symm

/-- A Telegram answer that is a list: the other transport is tried all the same, and what `body.get` raises is logged as it is. -/
example (py : Runtime) (alert : Alert) (url topic token url' botToken chatId : String) :
    (Built.send py (.fanOut [.telegram url' botToken chatId, .ntfy url topic token]) alert
        [.response 200 "OK" (.ok (.list [])), .response 200 "OK" (.ok .null)]).map
      (fun o => (o.metrics, o.log.map Entry.error, o.raised)) =
    [([], [some "'list' object has no attribute 'get'"], none), ([.sent "ntfy" alert.severity], [none], none)] := rfl

end Sinks
end Atp
