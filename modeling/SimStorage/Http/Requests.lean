import SimStorage.Http.Dir
import SimStorage.Table.Entries
import SimStorage.Table.Reference

namespace SimStorage.Http

/-!
# What a directory asks of the network

Whatever is called, a directory leaves the network alone or sends it one
request: with the capability, for a legal name, to the segment below its base
URL that the name is written as, and within the limits of its options.
-/

open Codec Interaction Table

variable {Url Method Header World Value Expr : Type}
variable {network : Network Url Method Header World}
variable {services : Services Value Expr}
variable {isLegal : String → Bool}
variable {cx : Cx} {dir : HttpDir}

/-- The calls of the table and directory traits. -/
inductive Call (Value : Type) where
  | get (key : Symbol)
  | set (key : Symbol) (value : Value)
  | has (key : Symbol)
  | del (key : Symbol)
  | keys
  | entries
  | len
  | clear
  | mkdir (name : Symbol)
  | opendir (name : Symbol)
  | rmdir (name : Symbol)
  | isDir (name : Symbol)

/-- What a call returns; calls that are always refused return nothing. -/
inductive Answer (Value : Type) where
  | value (value : Value)
  | present (present : Bool)
  | done

/-- Make a call. -/
def HttpDir.perform (network : Network Url Method Header World)
    (services : Services Value Expr) (isLegal : String → Bool) (cx : Cx)
    (dir : HttpDir) : Call Value → EStateM Error World (Answer Value)
  | .get key => Answer.value <$> dir.get network services isLegal cx key
  | .set key value =>
      (fun _ => .done) <$> dir.set network services isLegal cx key value
  | .has key => Answer.present <$> dir.has network isLegal cx key
  | .del key => Answer.value <$> dir.del network services isLegal cx key
  | .keys => (fun _ => .done) <$> HttpDir.keys
  | .entries =>
      (fun _ => .done) <$> (HttpDir.entries :
        EStateM Error World (List (Symbol × Value)))
  | .len => (fun _ => .done) <$> HttpDir.len
  | .clear => (fun _ => .done) <$> HttpDir.clear
  | .mkdir name =>
      (fun _ => .done) <$> (dir.mkdir isLegal cx name :
        EStateM Error World Value)
  | .opendir name =>
      (fun _ => .done) <$> (dir.opendir isLegal cx name :
        EStateM Error World (Option Value))
  | .rmdir name =>
      (fun _ => .done) <$> (dir.rmdir isLegal cx name :
        EStateM Error World Value)
  | .isDir name => (fun _ => .done) <$> dir.isDir isLegal cx name

/-- The method and the key of the request that a call makes, if it makes one. -/
def Call.asks (dir : HttpDir) : Call Value → Option (String × Symbol)
  | .get key => some ("GET", key)
  | .set key _ => some (dir.options.writeMethod.asStr, key)
  | .has key => some ("HEAD", key)
  | .del key => some ("DELETE", key)
  | _ => none

/-- The body of the request that a call makes. -/
def Call.body (services : Services Value Expr) (dir : HttpDir) :
    Call Value → Except Error Bytes
  | .set _ value => dir.encodeValue services value
  | _ => .ok []

/-- What a call returns for a response. -/
def Call.conclude (services : Services Value Expr) (dir : HttpDir)
    (response : HttpResponse) : Call Value → Except Error (Answer Value)
  | .get _ => do
      ensureSuccess response.status response.reason response.body
      return .value (← dir.decodeBody services response.body)
  | .has _ =>
      if isSuccess response.status then
        .ok (.present true)
      else if response.status = 404 then
        .ok (.present false)
      else
        .error (statusError response.status response.reason response.body)
  | .del _ =>
      if isSuccess response.status || response.status = 404 then
        services.nil.map .value
      else
        .error (statusError response.status response.reason response.body)
  | _ =>
      (ensureSuccess response.status response.reason response.body).map
        fun _ => .done

/-- The child of a key, as the network sees it. -/
def HttpDir.Locates (network : Network Url Method Header World)
    (isLegal : String → Bool) (dir : HttpDir) (key : Symbol) (url : Url) :
    Prop :=
  ∃ text, dir.urlForKey isLegal key = .ok text ∧
    network.parseUrl text = .ok url

/-- One request of the directory, with the client's outcome. -/
def HttpDir.Sends (network : Network Url Method Header World)
    (isLegal : String → Bool) (dir : HttpDir) (method : String)
    (key : Symbol) (body : Bytes) (world : World)
    (found : Except NetError Response) (after : World) : Prop :=
  ∃ wire url, network.newMethod method = .ok wire ∧
    dir.Locates network isLegal key url ∧
    Yields
      (network.execute (Network.policy (dir.request method "" body))
        { method := wire, url, headers := [], body := Network.bodyOf body })
      world found after

/-- The response as the directory takes it. -/
def Response.taken (response : Response) : HttpResponse where
  status := response.status
  reason := some response.reason
  body := response.body

/-- What the directory makes of the client's outcome. -/
def Network.taken (network : Network Url Method Header World)
    (found : Except NetError Response) : Except Error HttpResponse :=
  (network.mapped found).map Response.taken

theorem mapped_ok
    {α : Type} {found : Except NetError α} {value : α}
    (passes : network.mapped found = .ok value) :
    found = .ok value := by
  cases found with
  | ok other =>
      cases passes
      rfl
  | error error => cases passes

theorem executed_inv
    {policy : Policy} {request : Request Url Method Header}
    {world after : World} {outcome : Except Error Response}
    (yields : Yields (network.executed policy request) world outcome after) :
    ∃ found, Yields (network.execute policy request) world found after ∧
      outcome = network.mapped found := by
  obtain ⟨found, later, ran⟩ := Yields.total (network.execute policy request)
    world
  have whole : Yields (network.executed policy request) world
      (network.mapped found) later := by
    rw [Yields] at ran ⊢
    rw [Network.executed, ran]
    cases found <;> rfl
  obtain ⟨rfl, rfl⟩ := whole.unique yields
  exact ⟨found, ran, rfl⟩

/-- Sending is refused at once, or is one execution of the request. -/
theorem send_inv
    {request : HttpRequest}
    (bare : request.headers = [])
    {world after : World} {outcome : Except Error HttpResponse}
    (yields : Yields (network.send request) world outcome after) :
    (after = world ∧ ∃ error, outcome = .error error) ∨
      ∃ wire url found, network.newMethod request.method = .ok wire ∧
        network.parseUrl request.url = .ok url ∧
        Yields (network.execute (Network.policy request)
          { method := wire, url, headers := [],
            body := Network.bodyOf request.body }) world found after ∧
        outcome = network.taken found := by
  rcases yields.bind_inv with ⟨wire, second, made, parsing⟩ | ⟨error, failed, rfl⟩
  · obtain ⟨isMethod, rfl⟩ := made.ofExcept_inv
    rcases parsing.bind_inv with ⟨url, third, made, sending⟩ | ⟨error, failed, rfl⟩
    · obtain ⟨isUrl, rfl⟩ := made.ofExcept_inv
      have noHeaders : (request.headers.mapM fun header =>
          network.mapped (network.newHeader header.1 header.2)) = .ok [] := by
        rw [bare]
        rfl
      have executing := (Yields.of_ok noHeaders _).rest sending
      rcases executing.bind_inv with ⟨response, later, ran, last⟩ | ⟨error, ran, rfl⟩
      · obtain ⟨found, executed, same⟩ := executed_inv ran
        obtain ⟨rfl, rfl⟩ := (Yields.pure _ _).unique last
        exact .inr ⟨wire, url, found, mapped_ok isMethod.symm,
          mapped_ok isUrl.symm, executed, by rw [Network.taken, ← same]; rfl⟩
      · obtain ⟨found, executed, same⟩ := executed_inv ran
        exact .inr ⟨wire, url, found, mapped_ok isMethod.symm,
          mapped_ok isUrl.symm, executed, by rw [Network.taken, ← same]; rfl⟩
    · obtain ⟨_, rfl⟩ := failed.ofExcept_inv
      exact .inl ⟨rfl, error, rfl⟩
  · obtain ⟨_, rfl⟩ := failed.ofExcept_inv
    exact .inl ⟨rfl, error, rfl⟩

/-- Sending for a key is refused at once, or is one request for its child. -/
theorem sendFor_inv
    {method : String} {key : Symbol} {body : Bytes}
    {world after : World} {outcome : Except Error HttpResponse}
    (yields : Yields (dir.sendFor network isLegal method key body) world
      outcome after) :
    (after = world ∧ ∃ error, outcome = .error error) ∨
      ∃ found, dir.Sends network isLegal method key body world found after ∧
        outcome = network.taken found := by
  rcases yields.bind_inv with ⟨text, middle, named, sending⟩ | ⟨error, failed, rfl⟩
  · obtain ⟨isText, rfl⟩ := named.ofExcept_inv
    rcases send_inv rfl sending with refused | ⟨wire, url, found, isMethod,
      isUrl, executed, same⟩
    · exact .inl refused
    · exact .inr ⟨found, ⟨wire, url, isMethod, ⟨text, isText.symm, isUrl⟩,
        executed⟩, same⟩
  · obtain ⟨_, rfl⟩ := failed.ofExcept_inv
    exact .inl ⟨rfl, error, rfl⟩

/-- The call is refused, or one request for it is concluded. -/
def Call.Settles (network : Network Url Method Header World)
    (services : Services Value Expr) (isLegal : String → Bool) (cx : Cx)
    (dir : HttpDir) (call : Call Value) (world : World)
    (outcome : Except Error (Answer Value)) (after : World) : Prop :=
  (after = world ∧ ∃ error, outcome = .error error) ∨
    ∃ method key body found, call.asks dir = some (method, key) ∧
      call.body services dir = .ok body ∧ requireTableHttp cx = .ok () ∧
      dir.Sends network isLegal method key body world found after ∧
      outcome = (network.taken found).bind fun response =>
        call.conclude services dir response

/-- What is sent for a call is concluded by what follows. -/
theorem settles_of_sent
    {α : Type} {call : Call Value} {method : String} {key : Symbol}
    {body : Bytes} {next : HttpResponse → EStateM Error World α}
    {answer : α → Answer Value}
    {world after : World} {outcome : Except Error α}
    (asks : call.asks dir = some (method, key))
    (bodied : call.body services dir = .ok body)
    (granted : requireTableHttp cx = .ok ())
    (concludes : ∀ response world, ∃ found,
      Yields (next response) world found world ∧
        found.map answer = call.conclude services dir response)
    (yields : Yields (dir.sendFor network isLegal method key body >>= next)
      world outcome after) :
    call.Settles network services isLegal cx dir world (outcome.map answer)
      after := by
  obtain ⟨sent, middle, sending⟩ := Yields.total
    (dir.sendFor network isLegal method key body) world
  rcases sendFor_inv sending with ⟨rfl, error, rfl⟩ | ⟨found, sends, rfl⟩
  · obtain ⟨rfl, rfl⟩ := (Yields.bindError sending).unique yields
    exact .inl ⟨rfl, error, rfl⟩
  · refine .inr ⟨method, key, body, found, asks, bodied, granted, ?_⟩
    cases taken : network.taken found with
    | error error =>
        rw [taken] at sending
        obtain ⟨rfl, rfl⟩ := (Yields.bindError sending).unique yields
        exact ⟨sends, rfl⟩
    | ok response =>
        rw [taken] at sending
        obtain ⟨last, ends, same⟩ := concludes response middle
        obtain ⟨rfl, rfl⟩ := (sending.bind ends).unique yields
        exact ⟨sends, same⟩

/-- What a mapped computation yields comes from what it maps. -/
theorem map_inv
    {α β : Type} {change : α → β} {computation : EStateM Error World α}
    {world after : World} {outcome : Except Error β}
    (yields : Yields (change <$> computation) world outcome after) :
    ∃ found, Yields computation world found after ∧
      outcome = found.map change := by
  obtain ⟨found, later, ran⟩ := Yields.total computation world
  cases found with
  | ok value =>
      obtain ⟨rfl, rfl⟩ := (ran.map change).unique yields
      exact ⟨_, ran, rfl⟩
  | error error =>
      obtain ⟨rfl, rfl⟩ := (ran.mapError change).unique yields
      exact ⟨_, ran, rfl⟩

/-- What needs an index is refused. -/
theorem refused_inv
    {α : Type} {operation : String} {name : Symbol}
    {world after : World} {outcome : Except Error α}
    (yields : Yields (dir.refused isLegal cx operation name) world outcome
      after) :
    after = world ∧ ∃ error, outcome = .error error := by
  rcases yields.bind_inv with ⟨_, first, asked, naming⟩ | ⟨error, failed, rfl⟩
  · obtain ⟨_, rfl⟩ := asked.ofExcept_inv
    rcases naming.bind_inv with ⟨_, second, named, last⟩ | ⟨error, failed, rfl⟩
    · obtain ⟨_, rfl⟩ := named.ofExcept_inv
      obtain ⟨rfl, rfl⟩ := (Yields.throw _ _).unique last
      exact ⟨rfl, _, rfl⟩
    · obtain ⟨_, rfl⟩ := failed.ofExcept_inv
      exact ⟨rfl, error, rfl⟩
  · obtain ⟨_, rfl⟩ := failed.ofExcept_inv
    exact ⟨rfl, error, rfl⟩

/-- A call that is always refused settles so. -/
theorem settles_of_refused
    {α : Type} {call : Call Value} {answer : α → Answer Value}
    {world after : World} {found : Except Error α}
    (refused : after = world ∧ ∃ error, found = .error error) :
    call.Settles network services isLegal cx dir world (found.map answer)
      after := by
  obtain ⟨rfl, error, rfl⟩ := refused
  exact .inl ⟨rfl, error, rfl⟩

section Asking

variable {α : Type} {call : Call Value} {answer : α → Answer Value}
variable {method : String} {key : Symbol} {body : Bytes}
variable {next : HttpResponse → EStateM Error World α}
variable {world after : World} {outcome : Except Error α}

/-- A call that sends once it is permitted. -/
theorem settles_of_permitted
    (asks : call.asks dir = some (method, key))
    (bodied : call.body services dir = .ok body)
    (concludes : ∀ response world, ∃ found,
      Yields (next response) world found world ∧
        found.map answer = call.conclude services dir response)
    (yields : Yields
      (MonadExcept.ofExcept (requireTableHttp cx) >>= fun _ =>
        dir.sendFor network isLegal method key body >>= next)
      world outcome after) :
    call.Settles network services isLegal cx dir world (outcome.map answer)
      after := by
  rcases yields.bind_inv with ⟨⟨⟩, first, asked, sending⟩ | ⟨error, failed, rfl⟩
  · obtain ⟨granted, rfl⟩ := asked.ofExcept_inv
    exact settles_of_sent asks bodied granted.symm concludes sending
  · obtain ⟨_, rfl⟩ := failed.ofExcept_inv
    exact .inl ⟨rfl, error, rfl⟩

end Asking

section Conclusions

variable (services dir)

/-- A `get` concludes with the decoded body of a success. -/
theorem get_concludes
    (key : Symbol) (response : HttpResponse) (world : World) :
    ∃ found, Yields
      (do MonadExcept.ofExcept
            (ensureSuccess response.status response.reason response.body)
          MonadExcept.ofExcept (dir.decodeBody services response.body) :
        EStateM Error World Value) world found world ∧
      found.map Answer.value =
        (Call.get key).conclude services dir response := by
  cases ensured :
      ensureSuccess response.status response.reason response.body with
  | error error =>
      refine ⟨.error error, (Yields.ofExcept _ world).bindError, ?_⟩
      rw [Call.conclude, ensured]
      rfl
  | ok passed =>
      refine ⟨_, (Yields.ofExcept _ world).bind (Yields.ofExcept _ _), ?_⟩
      rw [Call.conclude, ensured]
      rfl

/-- A `has` concludes with the status. -/
theorem has_concludes
    (key : Symbol) (response : HttpResponse) (world : World) :
    ∃ found, Yields
      (if isSuccess response.status then
        return true
      else if response.status = 404 then
        return false
      else
        throw (statusError response.status response.reason response.body) :
        EStateM Error World Bool) world found world ∧
      found.map Answer.present =
        (Call.has key).conclude services dir response := by
  by_cases success : isSuccess response.status = true
  · exact ⟨.ok true, by rw [if_pos success]; exact .pure _ _,
      (if_pos success).symm⟩
  · by_cases missing : response.status = 404
    · refine ⟨.ok false, ?_, ?_⟩
      · rw [if_neg success, if_pos missing]
        exact .pure _ _
      · exact ((if_neg success).trans (if_pos missing)).symm
    · refine ⟨.error (statusError response.status response.reason
        response.body), ?_, ?_⟩
      · rw [if_neg success, if_neg missing]
        exact .throw _ _
      · exact ((if_neg success).trans (if_neg missing)).symm

/-- A `del` concludes with nil, also when nothing was there. -/
theorem del_concludes
    (key : Symbol) (response : HttpResponse) (world : World) :
    ∃ found, Yields
      (if isSuccess response.status || response.status = 404 then
        MonadExcept.ofExcept services.nil
      else
        throw (statusError response.status response.reason response.body) :
        EStateM Error World Value) world found world ∧
      found.map Answer.value =
        (Call.del key).conclude services dir response := by
  by_cases removed : (isSuccess response.status || response.status = 404) = true
  · refine ⟨services.nil, ?_, (if_pos removed).symm⟩
    rw [if_pos removed]
    exact .ofExcept _ _
  · refine ⟨.error (statusError response.status response.reason response.body),
      ?_, (if_neg removed).symm⟩
    rw [if_neg removed]
    exact .throw _ _

end Conclusions

/-- Every call is refused, or is one request and its conclusion. -/
theorem perform_settles
    {call : Call Value} {world after : World}
    {outcome : Except Error (Answer Value)}
    (yields : Yields (dir.perform network services isLegal cx call) world
      outcome after) :
    call.Settles network services isLegal cx dir world outcome after := by
  cases call with
  | get key =>
      obtain ⟨found, ran, rfl⟩ := map_inv yields
      exact settles_of_permitted rfl rfl (get_concludes services dir key) ran
  | set key value =>
      obtain ⟨found, ran, rfl⟩ := map_inv yields
      rcases ran.bind_inv with ⟨⟨⟩, first, asked, encoding⟩ | ⟨error, failed, rfl⟩
      · obtain ⟨granted, rfl⟩ := asked.ofExcept_inv
        rcases encoding.bind_inv with ⟨body, second, encoded, sending⟩ |
          ⟨error, failed, rfl⟩
        · obtain ⟨bodied, rfl⟩ := encoded.ofExcept_inv
          exact settles_of_sent rfl bodied.symm granted.symm
            (fun response world => ⟨_, Yields.ofExcept _ world, rfl⟩) sending
        · obtain ⟨_, rfl⟩ := failed.ofExcept_inv
          exact .inl ⟨rfl, error, rfl⟩
      · obtain ⟨_, rfl⟩ := failed.ofExcept_inv
        exact .inl ⟨rfl, error, rfl⟩
  | has key =>
      obtain ⟨found, ran, rfl⟩ := map_inv yields
      exact settles_of_permitted rfl rfl (has_concludes services dir key) ran
  | del key =>
      obtain ⟨found, ran, rfl⟩ := map_inv yields
      exact settles_of_permitted rfl rfl (del_concludes services dir key) ran
  | keys =>
      obtain ⟨found, ran, rfl⟩ := map_inv yields
      obtain ⟨rfl, rfl⟩ := (Yields.throw _ _).unique ran
      exact settles_of_refused ⟨rfl, _, rfl⟩
  | entries =>
      obtain ⟨found, ran, rfl⟩ := map_inv yields
      obtain ⟨rfl, rfl⟩ := (Yields.throw _ _).unique ran
      exact settles_of_refused ⟨rfl, _, rfl⟩
  | len =>
      obtain ⟨found, ran, rfl⟩ := map_inv yields
      obtain ⟨rfl, rfl⟩ := (Yields.throw _ _).unique ran
      exact settles_of_refused ⟨rfl, _, rfl⟩
  | clear =>
      obtain ⟨found, ran, rfl⟩ := map_inv yields
      obtain ⟨rfl, rfl⟩ := (Yields.throw _ _).unique ran
      exact settles_of_refused ⟨rfl, _, rfl⟩
  | mkdir name =>
      obtain ⟨found, ran, rfl⟩ := map_inv yields
      exact settles_of_refused (refused_inv ran)
  | opendir name =>
      obtain ⟨found, ran, rfl⟩ := map_inv yields
      exact settles_of_refused (refused_inv ran)
  | rmdir name =>
      obtain ⟨found, ran, rfl⟩ := map_inv yields
      exact settles_of_refused (refused_inv ran)
  | isDir name =>
      obtain ⟨found, ran, rfl⟩ := map_inv yields
      exact settles_of_refused (refused_inv ran)

/-- The text of a child's URL: the base and one segment that spells the name. -/
structure Spells (base : String) (name : String) (text : String) : Prop where
  below : ∃ segment : List Char,
    text.toList.splitOn '/' = base.toList.splitOn '/' ++ [segment] ∧
      readSegment segment = some (utf8 name) ∧
      (∀ character ∈ segment, character = '%' ∨ isUnreserved character = true) ∧
      segment ≠ [] ∧ segment ≠ ['.'] ∧ segment ≠ ['.', '.']

/--
A directory's requests stay below its base URL and within its limits, and every
call makes one at most.
-/
structure HttpDir.Confined (network : Network Url Method Header World)
    (services : Services Value Expr) (isLegal : String → Bool)
    (dir : HttpDir) : Prop where
  base : ∀ front, dir.options.baseUrl.toList ≠ front ++ ['/']
  spells : ∀ key text, dir.urlForKey isLegal key = .ok text →
    Spells dir.options.baseUrl key.name text
  apart : ∀ key other text, dir.urlForKey isLegal key = .ok text →
    dir.urlForKey isLegal other = .ok text → key.name = other.name
  limits : ∀ method url body,
    let policy := Network.policy (dir.request method url body)
    0 < policy.totalTimeout ∧ policy.totalTimeout = dir.options.timeoutMs ∧
      policy.connectTimeout = policy.totalTimeout ∧
      policy.readTimeout = policy.totalTimeout ∧
      policy.writeTimeout = policy.totalTimeout ∧
      policy.maxResponseBytes = dir.options.maxBodyBytes ∧
      policy.maxDecompressedBytes = dir.options.maxBodyBytes ∧
      0 < policy.maxRequestBytes ∧ body.length ≤ policy.maxRequestBytes
  calls : ∀ cx call world outcome after,
    Yields (dir.perform network services isLegal cx call) world outcome after →
    call.Settles network services isLegal cx dir world outcome after

theorem urlForKey_ok
    {key : Symbol} {text : String} :
    dir.urlForKey isLegal key = .ok text ↔
      isLegal key.name = true ∧
        text = dir.options.baseUrl ++ "/" ++ encodePathSegment key.name := by
  unfold HttpDir.urlForKey
  by_cases legal : isLegal key.name = true
  · rw [if_pos legal, Except.ok.injEq]
    exact ⟨fun same => ⟨legal, same.symm⟩, fun both => both.2.symm⟩
  · rw [if_neg legal]
    exact ⟨fun refused => (by cases refused), fun both => absurd both.1 legal⟩

theorem spells_of_named
    (special : ∀ name, isLegal name = true →
      name ≠ "" ∧ name ≠ "." ∧ name ≠ "..")
    {key : Symbol} {text : String}
    (named : dir.urlForKey isLegal key = .ok text) :
    Spells dir.options.baseUrl key.name text := by
  obtain ⟨legal, rfl⟩ := urlForKey_ok.mp named
  obtain ⟨notEmpty, notDot, notDots⟩ := special key.name legal
  obtain ⟨empty, dot, dots⟩ := encodePathSegment_special
  have shape : (dir.options.baseUrl ++ "/" ++
      encodePathSegment key.name).toList = dir.options.baseUrl.toList ++
        '/' :: (encodePathSegment key.name).toList := by
    rw [String.toList_append, String.toList_append, List.append_assoc]
    rfl
  have alone : (encodePathSegment key.name).toList.splitOn '/' =
      [(encodePathSegment key.name).toList] :=
    List.splitOn_eq_singleton (slash_not_mem key.name)
  refine ⟨_, ?_, readSegment_encodePathSegment key.name,
    fun character member => mem_encodePathSegment member, ?_, ?_, ?_⟩
  · rw [shape, List.splitOn_append_cons_self, alone]
  · exact fun same => encodePathSegment_ne empty notEmpty
      (String.toList_injective same)
  · exact fun same => encodePathSegment_ne dot notDot
      (String.toList_injective same)
  · exact fun same => encodePathSegment_ne dots notDots
      (String.toList_injective same)

theorem name_of_urlForKey
    {key other : Symbol} {text : String}
    (named : dir.urlForKey isLegal key = .ok text)
    (too : dir.urlForKey isLegal other = .ok text) :
    key.name = other.name := by
  obtain ⟨_, first⟩ := urlForKey_ok.mp named
  obtain ⟨_, second⟩ := urlForKey_ok.mp too
  have same : encodePathSegment key.name = encodePathSegment other.name := by
    have characters := congrArg String.toList (first.symm.trans second)
    simp only [String.toList_append, List.append_cancel_left_eq] at characters
    exact String.toList_injective characters
  exact encodePathSegment_injective same

/-- What `new` makes of accepted options. -/
theorem new_inv
    {options : HttpDirOptions}
    (made : HttpDir.new network options = .ok dir) :
    options.timeoutMs ≠ 0 ∧ dir.options = options.normalize := by
  cases valid : options.validate network with
  | error error => simp [HttpDir.new, valid, bind, Except.bind] at made
  | ok passed =>
      simp only [HttpDir.new, valid, bind, Except.bind, pure, Except.pure,
        Except.ok.injEq] at made
      refine ⟨fun isZero => ?_, by rw [← made]⟩
      simp [HttpDirOptions.validate, isZero, throw, throwThe,
        MonadExceptOf.throw, bind, Except.bind] at valid

/--
A directory that `new` makes is confined: its requests carry its limits, every
one is below the base URL in a segment that spells the name, and a call that
is not permitted, not legal or needs an index sends nothing.
-/
theorem requests_confined
    {options : HttpDirOptions}
    (made : HttpDir.new network options = .ok dir)
    (special : ∀ name, isLegal name = true →
      name ≠ "" ∧ name ≠ "." ∧ name ≠ "..") :
    dir.Confined network services isLegal where
  base front := by
    intro ends
    rw [(new_inv made).2] at ends
    have kept : (options.normalize.baseUrl.toList).rdropWhile
        (fun found => found = '/') = options.normalize.baseUrl.toList := by
      rw [HttpDirOptions.normalize, trimEndMatches, String.toList_ofList]
      exact List.rdropWhile_idempotent _ _
    rw [ends, List.rdropWhile_concat_pos _ _ _ (by simp)] at kept
    have shorter := (List.rdropWhile_prefix
      (fun found => decide (found = '/')) front).length_le
    rw [kept] at shorter
    simp at shorter
  spells key text named := spells_of_named special named
  apart key other text named too := name_of_urlForKey named too
  limits method url body := by
    obtain ⟨notZero, same⟩ := new_inv made
    have positive : 0 < dir.options.timeoutMs := by
      rw [same, HttpDirOptions.normalize]
      exact Nat.pos_of_ne_zero notZero
    have bounds : 0 < max body.length 1 ∧ body.length ≤ max body.length 1 := by
      omega
    simp only [Network.policy, HttpDir.request]
    exact ⟨positive, trivial, trivial, trivial, trivial, trivial, trivial,
      bounds⟩
  calls cx call world outcome after yields := perform_settles yields

section Samples

/-- A server of resources that never fails, in a client that keeps its limits. -/
def sampleNetwork : Network String String Unit (List (String × Bytes)) where
  parseUrl text :=
    if Path.startsWith text "http://" then .ok text else .error .invalidUrl
  newMethod name := .ok name
  newHeader _ _ := .ok ()
  display _ := "refused"
  execute policy request world :=
    let content := request.body.content
    let found := Entries.find world request.url
    if request.method = "GET" then
      match found with
      | some body =>
          if policy.maxResponseBytes < body.length then
            .error (.responseTooLarge policy.maxResponseBytes) world
          else
            .ok ⟨200, "OK", body⟩ world
      | none => .ok ⟨404, "Not Found", []⟩ world
    else if request.method = "HEAD" then
      match found with
      | some _ => .ok ⟨200, "OK", []⟩ world
      | none => .ok ⟨404, "Not Found", []⟩ world
    else if request.method = "PUT" then
      if policy.maxRequestBytes < content.length then
        .error (.requestTooLarge "") world
      else
        .ok ⟨204, "No Content", []⟩ (Entries.insert world request.url content)
    else if request.method = "DELETE" then
      .ok ⟨204, "No Content", []⟩ (Entries.remove world request.url)
    else
      .ok ⟨405, "Method Not Allowed", []⟩ world

/-- Texts as values, expressions and bodies. -/
def sampleServices : Services String String where
  nil := .ok ""
  expr text := .ok text
  asExpr text := .ok text
  decodeWithCodec _ body :=
    match fromUtf8 body with
    | some text => .ok text
    | none => .error (.table (.eval "not a text"))
  encodeWithCodec _ text := .ok (.text text)

/-- A directory below a base with a slash too many. -/
def sampleDir : HttpDir where
  options := { HttpDirOptions.new "" with baseUrl := "http://host/items" }

/-- The directory is made of its options, and is confined. -/
theorem sample_confined :
    HttpDir.new sampleNetwork (.new " http://host/items/ ") = .ok sampleDir ∧
      sampleDir.Confined sampleNetwork sampleServices referenceLegal := by
  have made : HttpDir.new sampleNetwork (.new " http://host/items/ ") =
      .ok sampleDir := by
    rfl
  refine ⟨made, requests_confined made fun name legal => ?_⟩
  simp only [referenceLegal, Bool.and_eq_true, decide_eq_true_eq] at legal
  exact ⟨legal.1.1.1.1, legal.1.1.1.2, legal.1.1.2⟩

end Samples

end SimStorage.Http
