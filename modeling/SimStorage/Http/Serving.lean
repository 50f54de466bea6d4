import SimStorage.Http.Requests

namespace SimStorage.Http

/-!
# A table over a server of resources

A server keeps resources and answers reads by them; it may fail at any time,
and a write that failed may have been done.  Over such a server, directories
are a table: what a call returns is what was last stored, as far as that is
known from what the calls returned.
-/

open Codec Interaction Table

variable {Url Method Header World Value Expr : Type}

/-- One resource has the content now, and the others are as before. -/
def Becomes (before after : Url → Option Bytes) (url : Url)
    (content : Option Bytes) : Prop :=
  after url = content ∧ ∀ other, other ≠ url → after other = before other

/-- The change was made; unless it was certain, it may not have been. -/
def MayBecome (certain : Prop) (before after : Url → Option Bytes) (url : Url)
    (content : Option Bytes) : Prop :=
  Becomes before after url content ∨ (¬ certain ∧ after = before)

/-- The server answered with a status of success. -/
def Acknowledged (found : Except NetError Response) : Prop :=
  ∃ response, found = .ok response ∧ isSuccess response.status = true

/-- The server answered that the resource is missing. -/
def Missing (found : Except NetError Response) : Prop :=
  ∃ response, found = .ok response ∧ response.status = 404

/--
The servers keep resources: reads leave them and tell what they are, and an
acknowledged change was made.  Anything may fail, after the change or before.
-/
structure Serves (network : Network Url Method Header World)
    (writes : HttpWriteMethod → Prop)
    (resources : World → Url → Option Bytes) : Prop where
  get : ∀ policy (request : Request Url Method Header) world found after,
    network.newMethod "GET" = .ok request.method →
    Yields (network.execute policy request) world found after →
    resources after = resources world ∧ ∀ response, found = .ok response →
      isSuccess response.status = true →
        resources world request.url = some response.body
  head : ∀ policy (request : Request Url Method Header) world found after,
    network.newMethod "HEAD" = .ok request.method →
    Yields (network.execute policy request) world found after →
    resources after = resources world ∧
      (Acknowledged found → (resources world request.url).isSome = true) ∧
      (Missing found → resources world request.url = none)
  write : ∀ method policy (request : Request Url Method Header) world found
      after, writes method →
    network.newMethod method.asStr = .ok request.method →
    Yields (network.execute policy request) world found after →
    MayBecome (Acknowledged found) (resources world) (resources after)
      request.url (some request.body.content)
  delete : ∀ policy (request : Request Url Method Header) world found after,
    network.newMethod "DELETE" = .ok request.method →
    Yields (network.execute policy request) world found after →
    MayBecome (Acknowledged found ∨ Missing found) (resources world)
      (resources after) request.url none

/-- What a call stores under a key, if it changes anything. -/
def Call.stores (services : Services Value Expr) (dir : HttpDir) :
    Call Value → Option (Symbol × Option Bytes)
  | .set key value => ((dir.encodeValue services value).toOption).map
      fun body => (key, some body)
  | .del key => some (key, none)
  | _ => none

/-- The call may change the resource. -/
def Call.Touches (network : Network Url Method Header World)
    (services : Services Value Expr) (isLegal : String → Bool) (cx : Cx)
    (dir : HttpDir) (call : Call Value) (url : Url) (content : Option Bytes) :
    Prop :=
  ∃ key, call.stores services dir = some (key, content) ∧
    requireTableHttp cx = .ok () ∧ dir.Locates network isLegal key url

/--
What the resources may hold after a call, from what they may have held: one
that the call touched holds the new content, or as before if the call failed.
-/
def Call.leaves (network : Network Url Method Header World)
    (services : Services Value Expr) (isLegal : String → Bool) (cx : Cx)
    (dir : HttpDir) (call : Call Value) (outcome : Except Error (Answer Value))
    (may : Url → Option Bytes → Prop) (url : Url) (found : Option Bytes) :
    Prop :=
  call.Touches network services isLegal cx dir url found ∨
    (may url found ∧ ¬ (outcome.isOk = true ∧ ∃ content,
      call.Touches network services isLegal cx dir url content))

/-- A world that calls reach, and what its resources may hold. -/
inductive Reached (network : Network Url Method Header World)
    (services : Services Value Expr) (isLegal : String → Bool)
    (writes : HttpWriteMethod → Prop) (resources : World → Url → Option Bytes) :
    World → (Url → Option Bytes → Prop) → Prop where
  | start (world : World) :
      Reached network services isLegal writes resources world
        fun url found => found = resources world url
  | called
      {world after : World} {may : Url → Option Bytes → Prop}
      {outcome : Except Error (Answer Value)}
      (cx : Cx) (dir : HttpDir) (call : Call Value) :
      writes dir.options.writeMethod →
      Reached network services isLegal writes resources world may →
      Yields (dir.perform network services isLegal cx call) world outcome
        after →
      Reached network services isLegal writes resources after
        (call.leaves network services isLegal cx dir outcome may)

/-- A later world, with no call between that may change the resource. -/
inductive Undisturbed (network : Network Url Method Header World)
    (services : Services Value Expr) (isLegal : String → Bool)
    (writes : HttpWriteMethod → Prop) (url : Url) : World → World → Prop where
  | refl (world : World) :
      Undisturbed network services isLegal writes url world world
  | called
      {start world after : World} {outcome : Except Error (Answer Value)}
      (cx : Cx) (dir : HttpDir) (call : Call Value) :
      writes dir.options.writeMethod →
      Undisturbed network services isLegal writes url start world →
      Yields (dir.perform network services isLegal cx call) world outcome
        after →
      (¬ ∃ content, call.Touches network services isLegal cx dir url content) →
      Undisturbed network services isLegal writes url start after

/-- A codec and a factory that lose nothing. -/
structure Services.Lawful (services : Services Value Expr) : Prop where
  decode : ∀ codec expr output,
    services.encodeWithCodec codec expr = .ok output →
      services.decodeWithCodec codec output.toBytes = .ok expr
  expr : ∀ expr value, services.expr expr = .ok value →
    services.asExpr value = .ok expr

section Steps

variable {network : Network Url Method Header World}
variable {services : Services Value Expr} {isLegal : String → Bool}
variable {writes : HttpWriteMethod → Prop}
variable {resources : World → Url → Option Bytes}
variable {cx : Cx} {dir : HttpDir} {key : Symbol} {call : Call Value}
variable {world after : World} {found : Except NetError Response}
variable {outcome : Except Error (Answer Value)}

/-- A key has one place. -/
theorem HttpDir.Locates.unique
    {first second : Url}
    (located : dir.Locates network isLegal key first)
    (again : dir.Locates network isLegal key second) :
    first = second := by
  obtain ⟨text, named, parsed⟩ := located
  obtain ⟨other, renamed, reparsed⟩ := again
  rw [named] at renamed
  cases renamed
  rw [parsed] at reparsed
  cases reparsed
  rfl

theorem content_bodyOf
    (body : Bytes) :
    (Network.bodyOf body).content = body := by
  cases body <;> rfl

/-- A response is taken when the client returned it. -/
theorem taken_ok
    {response : HttpResponse}
    (taken : network.taken found = .ok response) :
    ∃ original, found = .ok original ∧ response = original.taken := by
  cases found with
  | ok original =>
      cases taken
      exact ⟨original, rfl, rfl⟩
  | error error => cases taken

theorem ensureSuccess_ok
    {status : Nat} {reason : Option String} {body : Bytes} {passed : Unit}
    (ensured : ensureSuccess status reason body = .ok passed) :
    isSuccess status = true := by
  unfold ensureSuccess at ensured
  by_contra notSuccess
  rw [if_neg notSuccess] at ensured
  cases ensured

/-- What a call returned was concluded from a response. -/
theorem concluded
    {answer : Answer Value}
    (ended : .ok answer = (network.taken found).bind fun response =>
      call.conclude services dir response) :
    ∃ original, found = .ok original ∧
      call.conclude services dir original.taken = .ok answer := by
  cases taken : network.taken found with
  | error error =>
      rw [taken] at ended
      cases ended
  | ok response =>
      obtain ⟨original, isFound, rfl⟩ := taken_ok taken
      rw [taken] at ended
      exact ⟨original, isFound, ended.symm⟩

/-- A `set` that returned was acknowledged. -/
theorem set_acknowledged
    {value : Value} {answer : Answer Value} {original : Response}
    (ended : (Call.set key value).conclude services dir original.taken =
      .ok answer) :
    isSuccess original.status = true := by
  have passes : (ensureSuccess original.taken.status original.taken.reason
      original.taken.body).map (fun _ => Answer.done) = .ok answer := ended
  cases ensured : ensureSuccess original.taken.status original.taken.reason
      original.taken.body with
  | error error =>
      rw [ensured] at passes
      cases passes
  | ok passed => exact ensureSuccess_ok ensured

/-- A `del` that returned was acknowledged, or nothing was there. -/
theorem del_acknowledged
    {answer : Answer Value} {original : Response}
    (ended : (Call.del key).conclude services dir original.taken =
      .ok answer) :
    isSuccess original.status = true ∨ original.status = 404 := by
  by_cases removed : (isSuccess original.taken.status ||
      original.taken.status = 404) = true
  · exact ((Bool.or_eq_true _ _).mp removed).imp_right of_decide_eq_true
  · rw [Call.conclude, if_neg removed] at ended
    cases ended

/--
What a call does to the resources: nothing, and then it has nothing to store or
failed; or one resource holds what the call stores.
-/
theorem resources_step
    (serves : Serves network writes resources)
    (stored : writes dir.options.writeMethod)
    (settles : call.Settles network services isLegal cx dir world outcome
      after) :
    (resources after = resources world ∧
        ∀ answer, outcome = .ok answer → call.stores services dir = none) ∨
      ∃ url content,
        call.Touches network services isLegal cx dir url content ∧
        Becomes (resources world) (resources after) url content := by
  rcases settles with ⟨rfl, error, rfl⟩ |
    ⟨method, key, body, found, asks, bodied, granted,
      ⟨wire, url, made, located, ran⟩, ended⟩
  · exact .inl ⟨rfl, fun answer impossible => by cases impossible⟩
  · cases call with
    | get other =>
        cases asks
        exact .inl ⟨(serves.get _ _ _ _ _ made ran).1, fun _ _ => rfl⟩
    | has other =>
        cases asks
        exact .inl ⟨(serves.head _ _ _ _ _ made ran).1, fun _ _ => rfl⟩
    | set other value =>
        cases asks
        have content : (Call.set key value).stores services dir =
            some (key, some body) := by
          have encoded : dir.encodeValue services value = .ok body := bodied
          rw [Call.stores, encoded]
          rfl
        rcases serves.write _ _ _ _ _ _ stored made ran with becomes |
          ⟨uncertain, same⟩
        · rw [content_bodyOf] at becomes
          exact .inr ⟨url, _, ⟨key, content, granted, located⟩, becomes⟩
        · refine .inl ⟨same, fun answer returned => ?_⟩
          obtain ⟨original, isFound, concluded⟩ :=
            concluded (returned.symm.trans ended)
          exact absurd ⟨original, isFound, set_acknowledged concluded⟩ uncertain
    | del other =>
        cases asks
        rcases serves.delete _ _ _ _ _ made ran with becomes |
          ⟨uncertain, same⟩
        · exact .inr ⟨url, _, ⟨key, rfl, granted, located⟩, becomes⟩
        · refine .inl ⟨same, fun answer returned => ?_⟩
          obtain ⟨original, isFound, concluded⟩ :=
            concluded (returned.symm.trans ended)
          refine absurd ?_ uncertain
          exact (del_acknowledged concluded).imp
            (fun success => ⟨original, isFound, success⟩)
            (fun missing => ⟨original, isFound, missing⟩)
    | keys => cases asks
    | entries => cases asks
    | len => cases asks
    | clear => cases asks
    | mkdir name => cases asks
    | opendir name => cases asks
    | rmdir name => cases asks
    | isDir name => cases asks

/-- The resources hold what they may hold, after a call as before it. -/
theorem leaves_step
    (serves : Serves network writes resources)
    (stored : writes dir.options.writeMethod)
    {may : Url → Option Bytes → Prop}
    (holds : ∀ url, may url (resources world url))
    (settles : call.Settles network services isLegal cx dir world outcome
      after)
    (url : Url) :
    call.leaves network services isLegal cx dir outcome may url
      (resources after url) := by
  rcases resources_step serves stored settles with ⟨same, nothing⟩ |
    ⟨touched, content, touches, becomes, others⟩
  · rw [same]
    refine .inr ⟨holds url, fun ⟨isOk, content, key, stores, _⟩ => ?_⟩
    cases outcome with
    | error error => cases isOk
    | ok answer =>
        rw [nothing answer rfl] at stores
        cases stores
  · by_cases isTouched : url = touched
    · subst isTouched
      rw [becomes]
      exact .inl touches
    · rw [others url isTouched]
      refine .inr ⟨holds url, fun ⟨_, other, key, stores, _, located⟩ => ?_⟩
      obtain ⟨found, content_stores, _, here⟩ := touches
      rw [stores] at content_stores
      cases content_stores
      exact isTouched (located.unique here)

/-- In every world that calls reach, the resources hold what they may hold. -/
theorem Reached.holds
    (serves : Serves network writes resources)
    {may : Url → Option Bytes → Prop}
    (reached : Reached network services isLegal writes resources world may) :
    ∀ url, may url (resources world url) := by
  induction reached with
  | start world => exact fun _ => rfl
  | called cx dir call stored earlier ran inductionHypothesis =>
      exact leaves_step serves stored inductionHypothesis (perform_settles ran)

/-- A resource that no call touched is as it was. -/
theorem Undisturbed.same
    (serves : Serves network writes resources)
    {url : Url} {start : World}
    (undisturbed : Undisturbed network services isLegal writes url start
      world) :
    resources world url = resources start url := by
  induction undisturbed with
  | refl => rfl
  | called cx dir call stored earlier ran quiet inductionHypothesis =>
      rcases resources_step serves stored (perform_settles ran) with
        ⟨same, _⟩ | ⟨touched, content, touches, _, others⟩
      · rw [same, inductionHypothesis]
      · have apart : url ≠ touched := by
          rintro rfl
          exact quiet ⟨content, touches⟩
        rw [others url apart, inductionHypothesis]

/-- A `get` that returned had a success, and its body decoded. -/
theorem get_concluded
    {value : Value} {response : HttpResponse}
    (ended : (Call.get key).conclude services dir response =
      .ok (.value value)) :
    isSuccess response.status = true ∧
      dir.decodeBody services response.body = .ok value := by
  cases ensured :
      ensureSuccess response.status response.reason response.body with
  | error error =>
      rw [Call.conclude, ensured] at ended
      cases ended
  | ok passed =>
      rw [Call.conclude, ensured] at ended
      cases decoded : dir.decodeBody services response.body with
      | error error =>
          rw [decoded] at ended
          cases ended
      | ok found =>
          rw [decoded] at ended
          cases ended
          exact ⟨ensureSuccess_ok ensured, rfl⟩

/-- A `has` that returned had a success for true, and a 404 for false. -/
theorem has_concluded
    {present : Bool} {response : HttpResponse}
    (ended : (Call.has key).conclude services dir response =
      .ok (.present present)) :
    (present = true ∧ isSuccess response.status = true) ∨
      (present = false ∧ response.status = 404) := by
  by_cases success : isSuccess response.status = true
  · rw [Call.conclude, if_pos success] at ended
    cases ended
    exact .inl ⟨rfl, success⟩
  · by_cases missing : response.status = 404
    · rw [Call.conclude, if_neg success, if_pos missing] at ended
      cases ended
      exact .inr ⟨rfl, missing⟩
    · rw [Call.conclude, if_neg success, if_neg missing] at ended
      cases ended

/-- A `get` returns what the resource holds. -/
theorem get_holds
    (serves : Serves network writes resources)
    {value : Value}
    (ran : Yields (dir.get network services isLegal cx key) world (.ok value)
      after) :
    resources after = resources world ∧
      ∃ url body, dir.Locates network isLegal key url ∧
        resources world url = some body ∧
        dir.decodeBody services body = .ok value := by
  have performed : Yields
      (dir.perform network services isLegal cx (.get key)) world
      (.ok (.value value)) after := ran.map Answer.value
  rcases perform_settles performed with ⟨_, error, impossible⟩ |
    ⟨method, _, body, found, asks, bodied, granted,
      ⟨wire, url, made, located, executed⟩, ended⟩
  · cases impossible
  · cases asks
    obtain ⟨original, isFound, ended⟩ := concluded ended
    obtain ⟨success, decoded⟩ := get_concluded ended
    obtain ⟨same, holds⟩ := serves.get _ _ _ _ _ made executed
    exact ⟨same, url, _, located, holds original isFound success, decoded⟩

/-- A `has` tells whether the resource is there. -/
theorem has_holds
    (serves : Serves network writes resources)
    (services : Services Value Expr)
    {present : Bool}
    (ran : Yields (dir.has network isLegal cx key) world (.ok present)
      after) :
    resources after = resources world ∧
      ∃ url, dir.Locates network isLegal key url ∧
        (present = true ↔ (resources world url).isSome = true) := by
  have performed : Yields
      (dir.perform network services isLegal cx (.has key)) world
      (.ok (.present present)) after := ran.map Answer.present
  rcases perform_settles performed with ⟨_, error, impossible⟩ |
    ⟨method, _, body, found, asks, bodied, granted,
      ⟨wire, url, made, located, executed⟩, ended⟩
  · cases impossible
  · cases asks
    obtain ⟨original, isFound, ended⟩ := concluded ended
    obtain ⟨same, there, missing⟩ := serves.head _ _ _ _ _ made executed
    refine ⟨same, url, located, ?_⟩
    rcases has_concluded ended with ⟨rfl, success⟩ | ⟨rfl, notFound⟩
    · exact iff_of_true rfl (there ⟨original, isFound, success⟩)
    · rw [missing ⟨original, isFound, notFound⟩]
      exact iff_of_false Bool.false_ne_true Bool.false_ne_true

/-- What was stored has its place, and a call that stored it was permitted. -/
theorem settled_change
    (serves : Serves network writes resources)
    (stored : writes dir.options.writeMethod)
    {answer : Answer Value} {content : Option Bytes}
    (stores : call.stores services dir = some (key, content))
    (settles : call.Settles network services isLegal cx dir world
      (.ok answer) after) :
    ∃ url, dir.Locates network isLegal key url ∧
      Becomes (resources world) (resources after) url content := by
  rcases resources_step serves stored settles with ⟨_, nothing⟩ |
    ⟨url, other, ⟨found, again, _, located⟩, becomes⟩
  · rw [nothing answer rfl] at stores
    cases stores
  · rw [stores] at again
    cases again
    exact ⟨url, located, becomes⟩

/-- After a `set` that returned, the resource holds the encoded value. -/
theorem set_holds
    (serves : Serves network writes resources)
    (stored : writes dir.options.writeMethod)
    {value : Value}
    (ran : Yields (dir.set network services isLegal cx key value) world
      (.ok ()) after) :
    ∃ url body, dir.Locates network isLegal key url ∧
      dir.encodeValue services value = .ok body ∧
      Becomes (resources world) (resources after) url (some body) := by
  have performed : Yields
      (dir.perform network services isLegal cx (.set key value)) world
      (.ok .done) after := ran.map _
  have settles := perform_settles performed
  rcases perform_settles performed with ⟨_, error, impossible⟩ |
    ⟨method, _, body, found, asks, bodied, _⟩
  · cases impossible
  · have encoded : dir.encodeValue services value = .ok body := bodied
    have stores : (Call.set key value).stores services dir =
        some (key, some body) := by
      rw [Call.stores, encoded]
      rfl
    obtain ⟨url, located, becomes⟩ :=
      settled_change serves stored stores settles
    exact ⟨url, body, located, encoded, becomes⟩

/-- After a `del` that returned, the resource is gone. -/
theorem del_holds
    (serves : Serves network writes resources)
    (stored : writes dir.options.writeMethod)
    {value : Value}
    (ran : Yields (dir.del network services isLegal cx key) world (.ok value)
      after) :
    ∃ url, dir.Locates network isLegal key url ∧
      Becomes (resources world) (resources after) url none := by
  have performed : Yields
      (dir.perform network services isLegal cx (.del key)) world
      (.ok (.value value)) after := ran.map Answer.value
  exact settled_change serves stored rfl (perform_settles performed)

/-- An encoded value decodes to one with the same expression. -/
theorem decode_encode
    (lawful : services.Lawful)
    {reader : HttpDir}
    (codec : reader.options.codec = dir.options.codec)
    {value found : Value} {body : Bytes}
    (encoded : dir.encodeValue services value = .ok body)
    (decoded : reader.decodeBody services body = .ok found) :
    ∃ expr, services.asExpr value = .ok expr ∧
      services.asExpr found = .ok expr := by
  cases shown : services.asExpr value with
  | error error =>
      simp [HttpDir.encodeValue, shown, bind, Except.bind] at encoded
  | ok expr =>
      refine ⟨expr, rfl, ?_⟩
      cases written :
          services.encodeWithCodec dir.options.codec expr with
      | error error =>
          simp [HttpDir.encodeValue, shown, written, bind, Except.bind]
            at encoded
      | ok output =>
          simp only [HttpDir.encodeValue, shown, written, bind, Except.bind,
            pure, Except.pure, Except.ok.injEq] at encoded
          subst encoded
          have read := lawful.decode _ _ _ written
          rw [← codec] at read
          simp only [HttpDir.decodeBody, read, bind, Except.bind] at decoded
          exact lawful.expr _ _ decoded

end Steps

/--
A reached world serves: its resources hold what they may hold, reads tell what
they hold, and what was stored or deleted is found so until a call that may
change it.
-/
structure Served (network : Network Url Method Header World)
    (services : Services Value Expr) (isLegal : String → Bool)
    (writes : HttpWriteMethod → Prop) (resources : World → Url → Option Bytes)
    (world : World) (may : Url → Option Bytes → Prop) : Prop where
  holds : ∀ url, may url (resources world url)
  got : ∀ dir cx key value after,
    Yields (HttpDir.get network services isLegal cx dir key) world (.ok value)
      after →
    resources after = resources world ∧
      ∃ url body, dir.Locates network isLegal key url ∧
        resources world url = some body ∧ may url (some body) ∧
        dir.decodeBody services body = .ok value
  had : ∀ dir cx key present after,
    Yields (HttpDir.has network isLegal cx dir key) world (.ok present) after →
    resources after = resources world ∧
      ∃ url, dir.Locates network isLegal key url ∧
        (present = true ↔ (resources world url).isSome = true)
  stored : ∀ dir cx key value after, writes dir.options.writeMethod →
    Yields (HttpDir.set network services isLegal cx dir key value) world
      (.ok ()) after →
    ∃ url, dir.Locates network isLegal key url ∧ ∀ later,
      Undisturbed network services isLegal writes url after later →
      ∀ reader cx other, HttpDir.Locates network isLegal reader other url →
        reader.options.codec = dir.options.codec →
        (∀ present last,
          Yields (reader.has network isLegal cx other) later (.ok present)
            last → present = true) ∧
        ∀ found last,
          Yields (reader.get network services isLegal cx other) later
            (.ok found) last →
          ∃ expr, services.asExpr value = .ok expr ∧
            services.asExpr found = .ok expr
  deleted : ∀ dir cx key value after, writes dir.options.writeMethod →
    Yields (HttpDir.del network services isLegal cx dir key) world (.ok value)
      after →
    ∃ url, dir.Locates network isLegal key url ∧ ∀ later,
      Undisturbed network services isLegal writes url after later →
      ∀ reader cx other, HttpDir.Locates network isLegal reader other url →
        (∀ present last,
          Yields (reader.has network isLegal cx other) later (.ok present)
            last → present = false) ∧
        ∀ found last,
          ¬ Yields (reader.get network services isLegal cx other) later
            (.ok found) last

/--
Over servers of resources that may fail at any time, any directories with any
contexts are one table of the resources: in every run of calls, what is read is
what was last stored, or what a failed call may have stored since.
-/
theorem http_table_serves
    {network : Network Url Method Header World}
    {services : Services Value Expr} {isLegal : String → Bool}
    {writes : HttpWriteMethod → Prop}
    {resources : World → Url → Option Bytes}
    (serves : Serves network writes resources)
    (lawful : services.Lawful)
    {world : World} {may : Url → Option Bytes → Prop}
    (reached : Reached network services isLegal writes resources world may) :
    Served network services isLegal writes resources world may where
  holds := reached.holds serves
  got dir cx key value after ran := by
    obtain ⟨same, url, body, located, holds, decoded⟩ := get_holds serves ran
    have may := reached.holds serves url
    rw [holds] at may
    exact ⟨same, url, body, located, holds, may, decoded⟩
  had dir cx key present after ran := has_holds serves services ran
  stored dir cx key value after allowed ran := by
    obtain ⟨url, body, located, encoded, becomes, _⟩ :=
      set_holds serves allowed ran
    refine ⟨url, located, fun later undisturbed reader cx other here codec => ?_⟩
    have kept := (undisturbed.same serves).trans becomes
    constructor
    · intro present last asked
      obtain ⟨_, found, isThere, told⟩ := has_holds serves services asked
      rw [isThere.unique here, kept] at told
      exact told.mpr rfl
    · intro value last got
      obtain ⟨_, found, content, isThere, holds, decoded⟩ :=
        get_holds serves got
      rw [isThere.unique here, kept] at holds
      cases holds
      exact decode_encode lawful codec encoded decoded
  deleted dir cx key value after allowed ran := by
    obtain ⟨url, located, becomes, _⟩ := del_holds serves allowed ran
    refine ⟨url, located, fun later undisturbed reader cx other here => ?_⟩
    have kept := (undisturbed.same serves).trans becomes
    constructor
    · intro present last asked
      obtain ⟨_, found, isThere, told⟩ := has_holds serves services asked
      rw [isThere.unique here, kept] at told
      exact Bool.eq_false_iff.mpr fun isPresent =>
        Bool.false_ne_true (told.mp isPresent)
    · intro value last got
      obtain ⟨_, found, content, isThere, holds, _⟩ := get_holds serves got
      rw [isThere.unique here, kept] at holds
      cases holds

section Samples

/-- The resources of the sample server. -/
def sampleResources (world : List (String × Bytes)) (url : String) :
    Option Bytes :=
  Entries.find world url

theorem sampleServices_lawful :
    sampleServices.Lawful where
  decode codec expr output encoded := by
    cases encoded
    simp [sampleServices, Output.toBytes]
  expr expr value made := by
    cases made
    rfl

/-- Only `PUT` stores. -/
def onlyPut (method : HttpWriteMethod) : Prop :=
  method = .put

section Sample

variable {policy : Policy} {request : Request String String Unit}
variable {world after : List (String × Bytes)}
variable {found : Except NetError Response}

theorem sample_get
    (isGet : request.method = "GET")
    (ran : Yields (sampleNetwork.execute policy request) world found after) :
    after = world ∧ ∀ response, found = .ok response →
      isSuccess response.status = true →
        Entries.find world request.url = some response.body := by
  simp only [Yields, sampleNetwork, isGet, ↓reduceIte] at ran
  cases there : Entries.find world request.url with
  | none =>
      rw [there] at ran
      cases found with
      | error error => cases ran
      | ok response =>
          cases ran
          refine ⟨rfl, fun other same success => ?_⟩
          cases same
          cases success
  | some body =>
      rw [there] at ran
      by_cases tooLarge : policy.maxResponseBytes < body.length
      · simp only [tooLarge, ↓reduceIte] at ran
        cases found with
        | ok response => cases ran
        | error error =>
            cases ran
            exact ⟨rfl, fun _ impossible => by cases impossible⟩
      · simp only [tooLarge, ↓reduceIte] at ran
        cases found with
        | error error => cases ran
        | ok response =>
            cases ran
            refine ⟨rfl, fun other same _ => ?_⟩
            cases same
            rfl

theorem sample_head
    (isHead : request.method = "HEAD")
    (ran : Yields (sampleNetwork.execute policy request) world found after) :
    after = world ∧
      (Acknowledged found →
        (Entries.find world request.url).isSome = true) ∧
      (Missing found → Entries.find world request.url = none) := by
  have notGet : ("HEAD" : String) ≠ "GET" := by decide
  simp only [Yields, sampleNetwork, isHead, notGet, ↓reduceIte] at ran
  cases there : Entries.find world request.url with
  | none =>
      rw [there] at ran
      cases found with
      | error error => cases ran
      | ok response =>
          cases ran
          refine ⟨rfl, ?_, fun _ => rfl⟩
          rintro ⟨other, same, success⟩
          cases same
          cases success
  | some body =>
      rw [there] at ran
      cases found with
      | error error => cases ran
      | ok response =>
          cases ran
          refine ⟨rfl, fun _ => rfl, ?_⟩
          rintro ⟨other, same, missing⟩
          cases same
          cases missing

theorem sample_put
    (isPut : request.method = "PUT")
    (ran : Yields (sampleNetwork.execute policy request) world found after) :
    MayBecome (Acknowledged found) (sampleResources world)
      (sampleResources after) request.url (some request.body.content) := by
  have notGet : ("PUT" : String) ≠ "GET" := by decide
  have notHead : ("PUT" : String) ≠ "HEAD" := by decide
  simp only [Yields, sampleNetwork, isPut, notGet, notHead, ↓reduceIte] at ran
  by_cases tooLarge : policy.maxRequestBytes < request.body.content.length
  · simp only [tooLarge, ↓reduceIte] at ran
    cases found with
    | ok response => cases ran
    | error error =>
        cases ran
        refine .inr ⟨?_, rfl⟩
        rintro ⟨_, impossible, _⟩
        cases impossible
  · simp only [tooLarge, ↓reduceIte] at ran
    cases found with
    | error error => cases ran
    | ok response =>
        cases ran
        refine .inl ⟨?_, fun other differs => ?_⟩
        · simp [sampleResources, Entries.find_insert]
        · simp [sampleResources, Entries.find_insert, differs]

theorem sample_delete
    (isDelete : request.method = "DELETE")
    (ran : Yields (sampleNetwork.execute policy request) world found after) :
    MayBecome (Acknowledged found ∨ Missing found) (sampleResources world)
      (sampleResources after) request.url none := by
  have notGet : ("DELETE" : String) ≠ "GET" := by decide
  have notHead : ("DELETE" : String) ≠ "HEAD" := by decide
  have notPut : ("DELETE" : String) ≠ "PUT" := by decide
  simp only [Yields, sampleNetwork, isDelete, notGet, notHead, notPut,
    ↓reduceIte] at ran
  cases found with
  | error error => cases ran
  | ok response =>
      cases ran
      refine .inl ⟨?_, fun other differs => ?_⟩
      · simp [sampleResources, Entries.find_remove]
      · simp [sampleResources, Entries.find_remove, differs]

end Sample

/-- The sample server keeps resources, written with `PUT`. -/
theorem sampleNetwork_serves :
    Serves sampleNetwork onlyPut sampleResources where
  get policy request world found after made ran := by
    obtain ⟨rfl, holds⟩ := sample_get (Except.ok.inj made).symm ran
    exact ⟨rfl, holds⟩
  head policy request world found after made ran := by
    obtain ⟨rfl, there⟩ := sample_head (Except.ok.inj made).symm ran
    exact ⟨rfl, there⟩
  write method policy request world found after isPut made ran := by
    cases isPut
    exact sample_put (Except.ok.inj made).symm ran
  delete policy request world found after made ran :=
    sample_delete (Except.ok.inj made).symm ran

/-- A server with one resource. -/
def sampleStored : List (String × Bytes) :=
  [("http://host/items/a%20b", utf8 "hello")]

/-- What a `set` stored is served. -/
theorem sample_served :
    ∃ may, Reached sampleNetwork sampleServices referenceLegal onlyPut
        sampleResources sampleStored may ∧
      Served sampleNetwork sampleServices referenceLegal onlyPut
        sampleResources sampleStored may := by
  have start : Reached sampleNetwork sampleServices referenceLegal onlyPut
      sampleResources [] _ := .start []
  have ran : Yields (sampleDir.perform sampleNetwork sampleServices
      referenceLegal fullCx (.set (.new "a b") "hello")) []
      (.ok .done) sampleStored := by
    rfl
  have put : onlyPut sampleDir.options.writeMethod := rfl
  have reached := Reached.called fullCx sampleDir _ put start ran
  exact ⟨_, reached, http_table_serves sampleNetwork_serves
    sampleServices_lawful reached⟩

end Samples

end SimStorage.Http
