import RustMcp.Str

/-! The stdio adapter: what it POSTs upstream for the messages of its client, one after the
other, on the legacy protocol with its sessions or on the stateless one. -/
namespace RustMcp.StdioProxy
open Str

/-! Messages. -/

inductive Json where
  | null
  | bool (value : Bool)
  | number (text : Text)
  | text (value : Text)
  | array (entries : List Json)
  | object (fields : List (Text × Json))

abbrev Fields := List (Text × Json)

def Fields.get (fields : Fields) (key : Text) : Option Json := (fields.find? fun field => field.1 = key).map Prod.snd

def Fields.insert (fields : Fields) (key : Text) (value : Json) : Fields :=
  if fields.any fun field => field.1 = key then fields.map fun field => if field.1 = key then (key,value) else field
  else fields ++ [(key,value)]

def Fields.orInsert (fields : Fields) (key : Text) (value : Json) : Fields :=
  if fields.any fun field => field.1 = key then fields else fields ++ [(key,value)]

def Json.get (key : Text) : Json → Option Json
  | .object fields => Fields.get fields key
  | _ => none

def Json.asStr : Json → Option Text
  | .text value => some value
  | _ => none

def method (payload : Json) : Option Text := (payload.get "method".toList).bind Json.asStr

def isInitialize (payload : Json) : Bool := method payload = some "initialize".toList

def jsonrpcError (id : Json) (code : Text) (message : Text) : Json :=
  .object [("jsonrpc".toList,.text "2.0".toList),("id".toList,id),
    ("error".toList,.object [("code".toList,.number code),("message".toList,.text message)])]

def jsonrpcErrorForPayload (payload : Json) (code : Text) (message : Text) : Json :=
  jsonrpcError ((payload.get "id".toList).getD .null) code message

def initializedNotification : Json :=
  .object [("jsonrpc".toList,.text "2.0".toList),("method".toList,.text "notifications/initialized".toList),
    ("params".toList,.object [])]

/-! The stateless protocol. -/

def latestMcpProtocolVersion : Text := "2026-07-28".toList
def metaKey : Text := "_meta".toList
def metaProtocolVersion : Text := "io.modelcontextprotocol/protocolVersion".toList
def metaClientInfo : Text := "io.modelcontextprotocol/clientInfo".toList
def metaClientCapabilities : Text := "io.modelcontextprotocol/clientCapabilities".toList
def adapterClientName : Text := "rust-mcp-stdio".toList

def requestMetaProtocolVersion (message : Json) : Option Text := do
  let params ← message.get "params".toList
  let carried ← params.get metaKey
  let version ← carried.get metaProtocolVersion
  version.asStr

def insertMeta (clientName clientVersion : Text) (fields : Fields) : Fields :=
  Fields.orInsert
    (Fields.orInsert (Fields.insert fields metaProtocolVersion (.text latestMcpProtocolVersion)) metaClientCapabilities (.object []))
    metaClientInfo (.object [("name".toList,.text clientName),("version".toList,.text clientVersion)])

/-- `params` and its `_meta` are added where they are missing; where one is there and no object, nothing changes. -/
def insertStatelessRequestMeta (message : Json) (clientName clientVersion : Text) : Json :=
  match message with
  | .object fields =>
      match (Fields.get fields "params".toList).getD (.object []) with
      | .object params =>
          match (Fields.get params metaKey).getD (.object []) with
          | .object carried =>
              .object (Fields.insert fields "params".toList
                (.object (Fields.insert params metaKey (.object (insertMeta clientName clientVersion carried)))))
          | _ => message
      | _ => message
  | _ => message

/-- The base64 encoder, what decodes JSON, how a status is shown, and the version of the adapter. -/
structure Wire where
  encodeBase64 : Text → Text
  fromStr : Text → Option Json
  statusText : Nat → Text
  packageVersion : Text

section
variable (wire : Wire)

def requiresBase64 (value : Text) : Bool :=
  !value.isEmpty &&
  ([' ','\t'].any (fun c => value.head? = some c) || [' ','\t'].any (fun c => value.getLast? = some c) ||
    value.any (fun c => !(' ' ≤ c && c ≤ '~')) ||
    (startsWith "=?base64?".toList value && "?=".toList.isSuffixOf value))

def encodeHeaderValue (value : Text) : Text :=
  if requiresBase64 value then "=?base64?".toList ++ wire.encodeBase64 value ++ "?=".toList else value

def nameKey (name : Text) : Option Text :=
  if ["tools/call".toList,"prompts/get".toList].contains name then some "name".toList
  else if ["resources/read".toList].contains name then some "uri".toList
  else none

def statelessRequestHeaders (message : Json) (protocolVersion : Text) : List (Text × Text) :=
  ("MCP-Protocol-Version".toList,protocolVersion) ::
    match method message with
    | none => []
    | some name =>
        let routed := (nameKey name).bind fun key => ((message.get "params".toList).bind (Json.get key)).bind Json.asStr
        ("Mcp-Method".toList,name) :: (routed.map fun value => ("Mcp-Name".toList,encodeHeaderValue wire value)).toList

def prepareUpstream (payload : Json) (legacy : Bool) : Json × Option Text :=
  if legacy || [some "initialize".toList,some "notifications/initialized".toList].contains (method payload) then (payload,none)
  else
    let isRequest := (method payload).isSome && (payload.get "id".toList).isSome
    let payload :=
      if isRequest && (requestMetaProtocolVersion payload).isNone then
        insertStatelessRequestMeta payload adapterClientName wire.packageVersion
      else payload
    (payload,some ((requestMetaProtocolVersion payload).getD latestMcpProtocolVersion))

end

/-! Replies. -/

structure Reply where
  /-- the session header, where it is there and readable -/
  sessionId : Option Text
  status : Nat
  contentType : Text
  /-- `none` where reading it fails -/
  body : Option Text

structure UpstreamReply where
  status : Nat
  contentType : Text
  body : Text

def isSuccess (status : Nat) : Bool := 200 ≤ status && status < 300

def dataOf (line : Text) : Option Text := (stripPrefix "data:".toList line).map trimStart

def sseEvent (wire : Wire) (event : Text) : Option Json :=
  let joined := join "\n".toList ((lines event).filterMap dataOf)
  if (trim joined).isEmpty then none else wire.fromStr joined

def parseSseJsonEvents (wire : Wire) (body : Text) : List Json := (split "\n\n".toList body).filterMap (sseEvent wire)

def UpstreamReply.intoMessages (wire : Wire) (reply : UpstreamReply) : Except Text (List Json) :=
  if !isSuccess reply.status then
    match wire.fromStr reply.body with
    | some json => .ok [json]
    | none => .error ("upstream MCP request returned HTTP ".toList ++ wire.statusText reply.status ++ " with body: ".toList ++ reply.body)
  else if (trim reply.body).isEmpty then .ok []
  else if contains "text/event-stream".toList reply.contentType then .ok (parseSseJsonEvents wire reply.body)
  else
    match wire.fromStr reply.body with
    | some parsed => .ok [parsed]
    | none => .error ("upstream returned invalid JSON: ".toList ++ reply.body)

/-! The connection. -/

/-- What a POST carries: the message that is forwarded, the saved `initialize` that is replayed, by its
number, or the notification that follows it. -/
inductive Cause where
  | forwarded
  | replayed (message : Nat)
  | initialized
  deriving DecidableEq

structure Post where
  /-- the number of the message that is being forwarded -/
  turn : Nat
  cause : Cause
  payload : Json
  statelessVersion : Option Text
  /-- the session header -/
  session : Option Text
  /-- `none` where the transport fails -/
  answer : Option Reply

def Post.headers (wire : Wire) (post : Post) : List (Text × Text) :=
  [("content-type".toList,"application/json".toList),("accept".toList,"application/json, text/event-stream".toList)] ++
    match post.statelessVersion with
    | some version => statelessRequestHeaders wire post.payload version
    | none => (post.session.map fun session => ("Mcp-Session-Id".toList,session)).toList

/-- The session that the reply to a POST names. -/
def Post.names (post : Post) : Option Text := post.answer.bind Reply.sessionId

structure Upstream where
  sessionId : Option Text
  /-- with its number -/
  savedInitialize : Option (Nat × Json)
  posts : List Post

def Upstream.new : Upstream := ⟨none,none,[]⟩

section
-- `answers` are the answers to the POSTs, in order.
variable (wire : Wire) (answers : Nat → Option Reply)

def Upstream.post (u : Upstream) (turn : Nat) (cause : Cause) (payload : Json) (statelessVersion : Option Text) : Post :=
  ⟨turn,cause,payload,statelessVersion,if statelessVersion.isSome then none else u.sessionId,answers u.posts.length⟩

def Upstream.posted (u : Upstream) (post : Post) : Upstream :=
  {u with sessionId := post.names.or u.sessionId, posts := u.posts ++ [post]}

def received : Option Reply → Except Text UpstreamReply
  | none => .error "failed to send upstream MCP HTTP request".toList
  | some reply =>
      match reply.body with
      | none => .error "failed to read upstream MCP response body".toList
      | some body => .ok ⟨reply.status,reply.contentType,body⟩

def Upstream.send (u : Upstream) (turn : Nat) (cause : Cause) (payload : Json) (statelessVersion : Option Text) :
    Upstream × Except Text UpstreamReply :=
  let post := u.post answers turn cause payload statelessVersion
  (u.posted post,received post.answer)

def expired (status : Nat) : Text :=
  "upstream MCP session expired and could not be re-established (HTTP ".toList ++ wire.statusText status ++
    "); retry the request".toList

def Upstream.reestablishSession (u : Upstream) (turn : Nat) : Upstream × Except Text Unit :=
  let u := {u with sessionId := none}
  match u.savedInitialize with
  | none => (u,.error "no legacy `initialize` handshake to replay".toList)
  | some (message,saved) =>
      match u.send answers turn (.replayed message) saved none with
      | (u,.error e) => (u,.error e)
      | (u,.ok reply) =>
          if !isSuccess reply.status || u.sessionId.isNone then (u,.error (expired wire reply.status))
          else
            match u.send answers turn .initialized initializedNotification none with
            | (u,.error e) => (u,.error e)
            | (u,.ok _) => (u,.ok ())

def Upstream.seen (u : Upstream) (turn : Nat) (payload : Json) : Upstream :=
  if isInitialize payload then {u with sessionId := none, savedInitialize := some (turn,payload)} else u

/-- The message itself, on the connection as it is, and once more where its session is gone. -/
def Upstream.deliver (u : Upstream) (turn : Nat) (payload : Json) : Upstream × Except Text (List Json) :=
  let prepared := prepareUpstream wire payload u.savedInitialize.isSome
  match u.send answers turn .forwarded prepared.1 prepared.2 with
  | (v,.error e) => (v,.error e)
  | (v,.ok reply) =>
      if u.sessionId.isSome && reply.status = 404 then
        match v.reestablishSession wire answers turn with
        | (v,.error e) => (v,.error e)
        | (v,.ok ()) =>
            match v.send answers turn .forwarded payload none with
            | (v,.error e) => (v,.error e)
            | (v,.ok reply) => (v,reply.intoMessages wire)
      else (v,reply.intoMessages wire)

def Upstream.forward (u : Upstream) (turn : Nat) (payload : Json) : Upstream × Except Text (List Json) :=
  let u := u.seen turn payload
  if u.savedInitialize.isSome && !isInitialize payload && u.sessionId.isNone then
    match u.reestablishSession wire answers turn with
    | (u,.error e) => (u,.error e)
    | (u,.ok ()) => u.deliver wire answers turn payload
  else u.deliver wire answers turn payload

/-- What is written back for a message. -/
def relay (payload : Json) (forwarded : Except Text (List Json)) : List Json :=
  let isRequest := (payload.get "id".toList).isSome
  let upstreamMessages := match forwarded with
    | .ok messages => messages
    | .error e => [jsonrpcErrorForPayload payload "-32000".toList ("stdio proxy upstream call failed: ".toList ++ e)]
  let upstreamMessages :=
    if upstreamMessages.isEmpty && isRequest then
      [jsonrpcErrorForPayload payload "-32000".toList "stdio proxy upstream returned no JSON-RPC payload".toList]
    else upstreamMessages
  upstreamMessages.filter fun message => (message.get "id".toList).isSome || isRequest

structure Adapter where
  upstream : Upstream
  /-- what was written back, message by message -/
  written : List (List Json)

def Adapter.new : Adapter := ⟨Upstream.new,[]⟩

def Adapter.take (a : Adapter) (payload : Json) : Adapter :=
  let (upstream,forwarded) := a.upstream.forward wire answers a.written.length payload
  ⟨upstream,a.written ++ [relay payload forwarded]⟩

def run (messages : List Json) : Adapter := messages.foldl (Adapter.take wire answers) Adapter.new

end

/-! What holds of the POSTs. -/

/-- An `initialize` is among the messages up to this one. -/
def Seen (messages : List Json) (turn : Nat) : Prop := ∃ m ≤ turn, ∃ payload, messages[m]? = some payload ∧ isInitialize payload = true

/-- The session was named by the reply to the last `initialize` or a later POST. -/
def Fresh (posts : List Post) (session : Text) : Prop :=
  ∃ before first rest, posts = before ++ first::rest ∧ isInitialize first.payload = true ∧
    (∀ post ∈ rest, isInitialize post.payload = false) ∧ ∃ post ∈ first::rest, post.names = some session

/-- A POST behind `earlier` ones once an `initialize` has been seen. -/
structure Legacy (earlier : List Post) (post : Post) : Prop where
  stateful : post.statelessVersion = none
  session : isInitialize post.payload = false → ∃ session, post.session = some session ∧ Fresh earlier session

/-- One attempt at most, or a second one after HTTP 404 on a session. -/
inductive Attempts : List Post → Prop where
  | none : Attempts []
  | once (post : Post) : Attempts [post]
  | twice (first second : Post) (session : Text) (reply : Reply) (stateful : first.statelessVersion = Option.none)
      (had : first.session = some session) (answered : first.answer = some reply) (gone : reply.status = 404) :
      Attempts [first,second]

/-- The attempts at a message. -/
def attempts (posts : List Post) (turn : Nat) : List Post := posts.filter fun post => post.turn = turn && post.cause = .forwarded

/-- What a POST carries is what its cause says. -/
def Carries (wire : Wire) (messages : List Json) (post : Post) : Prop :=
  match post.cause with
  | .forwarded => ∃ payload legacy, messages[post.turn]? = some payload ∧ post.payload = (prepareUpstream wire payload legacy).1
  | .replayed message => messages[message]? = some post.payload ∧ isInitialize post.payload = true
  | .initialized => post.payload = initializedNotification

/-! Sessions. -/

theorem freshInitialize {posts : List Post} {post : Post} {session : Text} (first : isInitialize post.payload = true)
    (names : post.names = some session) : Fresh (posts ++ [post]) session :=
  ⟨posts,post,[],rfl,first,by simp,post,List.mem_cons_self,names⟩

theorem freshMore {posts : List Post} {post : Post} {session : Text} (fresh : Fresh posts session)
    (other : isInitialize post.payload = false) : Fresh (posts ++ [post]) session := by
  obtain ⟨before,first,rest,rfl,initial,plain,named,mem,names⟩ := fresh
  refine ⟨before,first,rest ++ [post],by simp,initial,fun later there => ?_,named,?_,names⟩
  · rcases List.mem_append.mp there with old | new
    · exact plain later old
    · cases List.mem_singleton.mp new
      exact other
  · exact List.mem_cons.mpr ((List.mem_cons.mp mem).imp_right (List.mem_append_left _))

theorem freshNamed {posts : List Post} {post : Post} {session other_ : Text} (fresh : Fresh posts session)
    (other : isInitialize post.payload = false) (names : post.names = some other_) : Fresh (posts ++ [post]) other_ := by
  obtain ⟨before,first,rest,rfl,initial,plain,_,_,_⟩ := fresh
  refine ⟨before,first,rest ++ [post],by simp,initial,fun later there => ?_,post,by simp,names⟩
  rcases List.mem_append.mp there with old | new
  · exact plain later old
  · cases List.mem_singleton.mp new
    exact other

/-! One POST. -/

section
variable {wire : Wire} {answers : Nat → Option Reply} {messages : List Json}

structure Inv (wire : Wire) (messages : List Json) (u : Upstream) : Prop where
  legacy : ∀ earlier post later, u.posts = earlier ++ post::later → Seen messages post.turn → Legacy earlier post
  fresh : u.savedInitialize.isSome = true → ∀ session, u.sessionId = some session → Fresh u.posts session
  saved : ∀ message payload, u.savedInitialize = some (message,payload) → messages[message]? = some payload ∧ isInitialize payload = true
  carries : ∀ post ∈ u.posts, Carries wire messages post

theorem appendedLegacy {posts : List Post} {new : Post}
    (old : ∀ earlier post later, posts = earlier ++ post::later → Seen messages post.turn → Legacy earlier post)
    (last : Seen messages new.turn → Legacy posts new) {earlier later : List Post} {post : Post}
    (shape : posts ++ [new] = earlier ++ post::later) (seen : Seen messages post.turn) : Legacy earlier post := by
  rcases List.eq_nil_or_concat later with rfl | ⟨more,final,rfl⟩
  · obtain ⟨rfl,single⟩ := List.append_inj' shape rfl
    cases List.singleton_inj.mp single
    exact last seen
  · rw [List.concat_eq_append,← List.cons_append,← List.append_assoc] at shape
    obtain ⟨same,_⟩ := List.append_inj' shape rfl
    exact old earlier post more same seen

/-- On the legacy protocol an `initialize` is sent without a session and everything else with one. -/
def Upstream.Ready (u : Upstream) (payload : Json) : Prop :=
  u.savedInitialize.isSome = true →
    (isInitialize payload = true ∧ u.sessionId = none) ∨ (isInitialize payload = false ∧ u.sessionId.isSome = true)

theorem postedInv {u : Upstream} {post : Post} (inv : Inv wire messages u) (carries : Carries wire messages post)
    (legacy : Seen messages post.turn → Legacy u.posts post) (ready : u.Ready post.payload) :
    Inv wire messages (u.posted post) where
  legacy _ _ _ shape seen := appendedLegacy inv.legacy legacy shape seen
  fresh known session now := by
    rcases ready known with ⟨first,none_⟩ | ⟨other,some_⟩
    · have names : post.names = some session := by
        simpa [Upstream.posted,none_] using now
      exact freshInitialize first names
    · obtain ⟨old,had⟩ := Option.isSome_iff_exists.mp some_
      have fresh := inv.fresh known old had
      cases named : post.names with
      | none =>
        have same : session = old := by simpa [Upstream.posted,named,had] using now.symm
        exact same ▸ freshMore fresh other
      | some new =>
        have same : session = new := by simpa [Upstream.posted,named] using now.symm
        exact freshNamed fresh other (same ▸ named)
  saved := inv.saved
  carries other mem := by
    rcases List.mem_append.mp mem with old | new
    · exact inv.carries other old
    · cases List.mem_singleton.mp new
      exact carries

theorem clearedInv {u : Upstream} (inv : Inv wire messages u) : Inv wire messages {u with sessionId := none} where
  legacy := inv.legacy
  fresh _ session now := by cases now
  saved := inv.saved
  carries := inv.carries

theorem attemptsPosted (u : Upstream) (post : Post) (turn : Nat) :
    attempts (u.posted post).posts turn =
      attempts u.posts turn ++ if post.turn = turn ∧ post.cause = .forwarded then [post] else [] := by
  by_cases here : post.turn = turn ∧ post.cause = .forwarded
  · simp [attempts,Upstream.posted,here]
  · rw [if_neg here,List.append_nil]
    simp only [attempts,Upstream.posted,List.filter_append,List.append_right_eq_self]
    simpa using here

/-! Recovery. -/

/-- What a recovery, or a part of it, leaves behind. -/
structure Recovers (wire : Wire) (messages : List Json) (u v : Upstream) : Prop where
  inv : Inv wire messages v
  saved : v.savedInitialize = u.savedInitialize
  attempts : ∀ turn, attempts v.posts turn = attempts u.posts turn

theorem Recovers.trans {u v w : Upstream} (first : Recovers wire messages u v) (second : Recovers wire messages v w) :
    Recovers wire messages u w :=
  ⟨second.inv,second.saved.trans first.saved,fun turn => (second.attempts turn).trans (first.attempts turn)⟩

theorem postRecovers {u : Upstream} (post : Post) (inv : Inv wire messages u) (carries : Carries wire messages post)
    (aside : post.cause ≠ .forwarded) (legacy : Seen messages post.turn → Legacy u.posts post) (ready : u.Ready post.payload) :
    Recovers wire messages u (u.posted post) where
  inv := postedInv inv carries legacy ready
  saved := rfl
  attempts turn := by rw [attemptsPosted,if_neg fun here => aside here.2,List.append_nil]

/-- With a session, everything but an `initialize` may be sent. -/
theorem sessionReady {u : Upstream} {payload : Json} (other : isInitialize payload = false) (some_ : u.sessionId.isSome = true) :
    u.Ready payload := fun _ => Or.inr ⟨other,some_⟩

theorem sessionLegacy {u : Upstream} (inv : Inv wire messages u) (known : u.savedInitialize.isSome = true)
    (some_ : u.sessionId.isSome = true) (turn : Nat) (cause : Cause) (payload : Json) :
    Legacy u.posts (u.post answers turn cause payload none) where
  stateful := rfl
  session _ := by
    obtain ⟨session,had⟩ := Option.isSome_iff_exists.mp some_
    exact ⟨session,had,inv.fresh known session had⟩

theorem recovers {u v : Upstream} {result : Except Text Unit} (inv : Inv wire messages u) {turn : Nat}
    (ran : u.reestablishSession wire answers turn = (v,result)) :
    Recovers wire messages u v ∧ (result = .ok () → u.savedInitialize.isSome = true ∧ v.sessionId.isSome = true) := by
  have cleared : Recovers wire messages u {u with sessionId := none} := ⟨clearedInv inv,rfl,fun _ => rfl⟩
  rw [Upstream.reestablishSession] at ran
  dsimp only at ran
  split at ran
  · cases ran
    exact ⟨cleared,fun same => by cases same⟩
  · rename_i message payload saved
    have known : u.savedInitialize.isSome = true := by simp [saved]
    obtain ⟨named,initial⟩ := inv.saved message payload saved
    have first := cleared.trans (postRecovers
      (Upstream.post answers {u with sessionId := none} turn (.replayed message) payload none) cleared.inv ⟨named,initial⟩
      (by simp [Upstream.post]) (fun _ => ⟨rfl,fun other => absurd (initial.symm.trans other) (by simp)⟩)
      fun _ => Or.inl ⟨initial,rfl⟩)
    split at ran
    · rename_i w e sent
      obtain ⟨rfl,_⟩ := Prod.mk.inj sent
      cases ran
      exact ⟨first,fun same => by cases same⟩
    · rename_i w reply sent
      obtain ⟨rfl,_⟩ := Prod.mk.inj sent
      split at ran
      · cases ran
        exact ⟨first,fun same => by cases same⟩
      · rename_i answered
        simp only [Bool.or_eq_true,not_or,Bool.not_eq_true,Option.isNone_eq_false_iff] at answered
        generalize Upstream.posted {u with sessionId := none} _ = w at first answered ran
        have known' : w.savedInitialize.isSome = true := first.saved ▸ known
        have second := first.trans (postRecovers (w.post answers turn .initialized initializedNotification none) first.inv rfl
          (by simp [Upstream.post]) (fun _ => sessionLegacy first.inv known' answered.2 turn .initialized initializedNotification)
          (sessionReady rfl answered.2))
        have some_ (post : Post) : (w.posted post).sessionId.isSome = true := by
          simp [Upstream.posted,answered.2]
        split at ran
        · rename_i x e sent
          obtain ⟨rfl,_⟩ := Prod.mk.inj sent
          cases ran
          exact ⟨second,fun same => by cases same⟩
        · rename_i x reply' sent
          obtain ⟨rfl,_⟩ := Prod.mk.inj sent
          cases ran
          exact ⟨second,fun _ => ⟨known,some_ _⟩⟩

/-! One message. -/

theorem prepareLegacy (payload : Json) : prepareUpstream wire payload true = (payload,none) := rfl

theorem receivedReply {answer : Option Reply} {reply : UpstreamReply} (got : received answer = .ok reply) :
    ∃ r, answer = some r ∧ r.status = reply.status := by
  cases answer with
  | none => cases got
  | some r =>
    rw [received] at got
    split at got
    · cases got
    · cases got
      exact ⟨r,rfl,rfl⟩

variable (answers) in
theorem attemptsHere (u : Upstream) (turn : Nat) (payload : Json) (version : Option Text) :
    attempts (u.posted (u.post answers turn .forwarded payload version)).posts turn =
      attempts u.posts turn ++ [u.post answers turn .forwarded payload version] := by
  rw [attemptsPosted,if_pos ⟨rfl,rfl⟩]

theorem attemptsElsewhere (u : Upstream) {turn other : Nat} (apart : other ≠ turn) (payload : Json) (version : Option Text) :
    attempts (u.posted (u.post answers turn .forwarded payload version)).posts other = attempts u.posts other := by
  rw [attemptsPosted,if_neg fun here => apart here.1.symm,List.append_nil]

/-- What delivering a message leaves behind. -/
structure Delivers (wire : Wire) (messages : List Json) (u v : Upstream) (turn : Nat) : Prop where
  inv : Inv wire messages v
  saved : v.savedInitialize = u.savedInitialize
  tried : attempts v.posts turn ≠ []
  attempts : Attempts (attempts v.posts turn)
  others : ∀ other, other ≠ turn → RustMcp.StdioProxy.attempts v.posts other = RustMcp.StdioProxy.attempts u.posts other

theorem preparedPlain {u : Upstream} {payload body : Json} {version : Option Text}
    (prepared : prepareUpstream wire payload u.savedInitialize.isSome = (body,version)) (known : u.savedInitialize.isSome = true) :
    body = payload ∧ version = none := by
  rw [known,prepareLegacy] at prepared
  exact ⟨(Prod.mk.inj prepared).1.symm,(Prod.mk.inj prepared).2.symm⟩

/-- One attempt, and no more. -/
theorem deliversOnce {u : Upstream} {turn : Nat} {payload body : Json} {version : Option Text} (inv : Inv wire messages u)
    (here : messages[turn]? = some payload) (seen : Seen messages turn → u.savedInitialize.isSome = true) (ready : u.Ready payload)
    (untried : attempts u.posts turn = [])
    (prepared : prepareUpstream wire payload u.savedInitialize.isSome = (body,version)) :
    Delivers wire messages u (u.posted (u.post answers turn .forwarded body version)) turn := by
  have firstInv : Inv wire messages (u.posted (u.post answers turn .forwarded body version)) := by
    refine postedInv inv ⟨payload,_,here,by rw [prepared]; rfl⟩ (fun told => ?_) fun known => ?_
    · have known := seen told
      obtain ⟨rfl,rfl⟩ := preparedPlain prepared known
      refine ⟨rfl,fun other => ?_⟩
      rcases ready known with ⟨initial,_⟩ | ⟨_,some_⟩
      · exact absurd (initial.symm.trans other) (by simp)
      · exact (sessionLegacy inv known some_ turn .forwarded body).session other
    · obtain ⟨rfl,rfl⟩ := preparedPlain prepared known
      exact ready known
  have one := attemptsHere answers u turn body version
  rw [untried,List.nil_append] at one
  exact ⟨firstInv,rfl,by rw [one]; simp,one ▸ .once _,fun other apart => attemptsElsewhere u apart body version⟩

/-- After an attempt whose session was gone, the recovered state makes the second one. -/
theorem deliversTwice {u w x : Upstream} {turn : Nat} {payload : Json} {post : Post} {session : Text} {r : Reply}
    (first : Delivers wire messages u w turn) (one : attempts w.posts turn = [post]) (recovered : Recovers wire messages w x)
    (here : messages[turn]? = some payload) (known : x.savedInitialize.isSome = true) (some_ : x.sessionId.isSome = true)
    (other : isInitialize payload = false) (stateful : post.statelessVersion = none) (had : post.session = some session)
    (answered : post.answer = some r) (gone : r.status = 404) :
    Delivers wire messages u (x.posted (x.post answers turn .forwarded payload none)) turn := by
  have two := attemptsHere answers x turn payload none
  rw [recovered.attempts,one,List.singleton_append] at two
  refine ⟨?_,recovered.saved.trans first.saved,by rw [two]; simp,?_,fun elsewhere apart => ?_⟩
  · exact postedInv recovered.inv ⟨payload,true,here,rfl⟩
      (fun _ => sessionLegacy recovered.inv known some_ turn .forwarded payload) (sessionReady other some_)
  · rw [two]
    exact .twice _ _ session r stateful had answered gone
  · rw [attemptsElsewhere x apart,recovered.attempts]
    exact first.others elsewhere apart

theorem delivers {u v : Upstream} {turn : Nat} {payload : Json} {result : Except Text (List Json)} (inv : Inv wire messages u)
    (here : messages[turn]? = some payload) (seen : Seen messages turn → u.savedInitialize.isSome = true) (ready : u.Ready payload)
    (untried : attempts u.posts turn = []) (ran : u.deliver wire answers turn payload = (v,result)) :
    Delivers wire messages u v turn := by
  rw [Upstream.deliver] at ran
  generalize prepared : prepareUpstream wire payload u.savedInitialize.isSome = sent at ran
  obtain ⟨body,version⟩ := sent
  have first : Delivers wire messages u (u.posted (u.post answers turn .forwarded body version)) turn :=
    deliversOnce inv here seen ready untried prepared
  have one := attemptsHere answers u turn body version
  rw [untried,List.nil_append] at one
  split at ran
  · rename_i w e sent
    obtain ⟨rfl,_⟩ := Prod.mk.inj sent
    cases ran
    exact first
  · rename_i w reply sent
    obtain ⟨rfl,got⟩ := Prod.mk.inj sent
    split at ran
    · rename_i gone
      simp only [Bool.and_eq_true,decide_eq_true_eq] at gone
      obtain ⟨r,answered,status⟩ := receivedReply got
      split at ran
      · rename_i x e recovery
        cases ran
        have recovered := (recovers first.inv recovery).1
        exact ⟨recovered.inv,recovered.saved,by rw [recovered.attempts,one]; simp,by rw [recovered.attempts,one]; exact .once _,
          fun other apart => (recovered.attempts other).trans (first.others other apart)⟩
      · rename_i x recovery
        obtain ⟨recovered,ok⟩ := recovers first.inv recovery
        obtain ⟨known,some_⟩ := ok rfl
        obtain ⟨rfl,rfl⟩ := preparedPlain prepared known
        have other : isInitialize body = false := by
          rcases ready known with ⟨_,none_⟩ | ⟨other,_⟩
          · simp [none_] at gone
          · exact other
        obtain ⟨session,had⟩ := Option.isSome_iff_exists.mp gone.1
        have last : Delivers wire messages u (x.posted (x.post answers turn .forwarded body none)) turn :=
          deliversTwice first one recovered here (recovered.saved ▸ known) some_ other rfl had answered (status.trans gone.2)
        split at ran
        · rename_i y e sent
          obtain ⟨rfl,_⟩ := Prod.mk.inj sent
          cases ran
          exact last
        · rename_i y reply' sent
          obtain ⟨rfl,_⟩ := Prod.mk.inj sent
          cases ran
          exact last
    · cases ran
      exact first

theorem seenInv {u : Upstream} {turn : Nat} {payload : Json} (inv : Inv wire messages u) (here : messages[turn]? = some payload) :
    Inv wire messages (u.seen turn payload) := by
  rw [Upstream.seen]
  split
  · rename_i initial
    refine ⟨inv.legacy,fun _ session now => absurd now (Option.some_ne_none session).symm,fun message saved same => ?_,inv.carries⟩
    cases same
    exact ⟨here,initial⟩
  · exact inv

theorem seenAttempts (u : Upstream) (turn : Nat) (payload : Json) : (u.seen turn payload).posts = u.posts := by
  rw [Upstream.seen]
  split <;> rfl

/-- An `initialize` among the messages before this one. -/
def Told (messages : List Json) (turn : Nat) : Prop := ∃ m < turn, ∃ payload, messages[m]? = some payload ∧ isInitialize payload = true

theorem seenTold {u : Upstream} {turn : Nat} {payload : Json} (here : messages[turn]? = some payload)
    (told : u.savedInitialize.isSome = true ↔ Told messages turn) :
    (u.seen turn payload).savedInitialize.isSome = true ↔ Seen messages turn := by
  rw [Upstream.seen]
  split
  · rename_i initial
    exact ⟨fun _ => ⟨turn,le_rfl,payload,here,initial⟩,fun _ => rfl⟩
  · rename_i other
    rw [told]
    constructor
    · rintro ⟨m,less,rest⟩
      exact ⟨m,less.le,rest⟩
    · rintro ⟨m,le,p,there,initial⟩
      refine ⟨m,lt_of_le_of_ne le fun same => ?_,p,there,initial⟩
      subst same
      cases here.symm.trans there
      exact other initial

theorem seenInitialize {u : Upstream} {turn : Nat} {payload : Json} (initial : isInitialize payload = true) :
    (u.seen turn payload).sessionId = none := by
  rw [Upstream.seen,if_pos initial]

/-- What forwarding a message leaves behind. -/
structure Forwards (wire : Wire) (messages : List Json) (u v : Upstream) (turn : Nat) (result : Except Text (List Json)) : Prop where
  inv : Inv wire messages v
  told : v.savedInitialize.isSome = true ↔ Seen messages turn
  answered : attempts v.posts turn = [] → ∃ e, result = .error e
  attempts : Attempts (attempts v.posts turn)
  others : ∀ other, other ≠ turn → RustMcp.StdioProxy.attempts v.posts other = RustMcp.StdioProxy.attempts u.posts other

theorem forwards {u v : Upstream} {turn : Nat} {payload : Json} {result : Except Text (List Json)} (inv : Inv wire messages u)
    (here : messages[turn]? = some payload) (told : u.savedInitialize.isSome = true ↔ Told messages turn)
    (untried : attempts u.posts turn = []) (ran : u.forward wire answers turn payload = (v,result)) :
    Forwards wire messages u v turn result := by
  rw [Upstream.forward] at ran
  have seen := seenTold here told
  have started := seenInv inv here
  have same := seenAttempts u turn payload
  have initialized : isInitialize payload = true → (u.seen turn payload).sessionId = none := seenInitialize
  generalize u.seen turn payload = w at ran seen started same initialized
  rw [← same] at untried
  split at ran
  · rename_i expired_
    simp only [Bool.and_eq_true,Bool.not_eq_true'] at expired_
    split at ran
    · rename_i x e recovery
      cases ran
      have recovered := (recovers started recovery).1
      have none_ := (recovered.attempts turn).trans untried
      exact ⟨recovered.inv,recovered.saved ▸ seen,fun _ => ⟨e,rfl⟩,none_ ▸ .none,fun other _ => same ▸ recovered.attempts other⟩
    · rename_i x recovery
      obtain ⟨recovered,ok⟩ := recovers started recovery
      obtain ⟨_,some_⟩ := ok rfl
      have delivered := delivers recovered.inv here (fun told => recovered.saved ▸ seen.mpr told)
        (sessionReady expired_.1.2 some_) ((recovered.attempts turn).trans untried) ran
      exact ⟨delivered.inv,delivered.saved.trans recovered.saved ▸ seen,fun none_ => absurd none_ delivered.tried,delivered.attempts,
        fun other apart => (delivered.others other apart).trans (same ▸ recovered.attempts other)⟩
  · rename_i live
    have ready : w.Ready payload := fun known => by
      cases initial : isInitialize payload with
      | true => exact Or.inl ⟨rfl,initialized initial⟩
      | false => exact Or.inr ⟨rfl,by simpa [known,initial,← Option.isSome_iff_ne_none] using live⟩
    have delivered := delivers started here seen.mpr ready untried ran
    exact ⟨delivered.inv,delivered.saved ▸ seen,fun none_ => absurd none_ delivered.tried,delivered.attempts,
      fun other apart => same ▸ delivered.others other apart⟩

/-! Runs. -/

/-- After `n` messages. -/
structure RunInv (wire : Wire) (messages : List Json) (n : Nat) (a : Adapter) : Prop where
  inv : Inv wire messages a.upstream
  told : a.upstream.savedInitialize.isSome = true ↔ Told messages n
  length : a.written.length = n
  attempted : ∀ turn, Attempts (attempts a.upstream.posts turn)
  later : ∀ turn, n ≤ turn → attempts a.upstream.posts turn = []
  answered : ∀ turn < n, ∀ payload, messages[turn]? = some payload → attempts a.upstream.posts turn = [] →
    ∃ e, a.written[turn]? = some [jsonrpcErrorForPayload payload "-32000".toList e]

theorem newInv (wire : Wire) (messages : List Json) : RunInv wire messages 0 Adapter.new where
  inv := by
    refine ⟨fun earlier post later shape => ?_,fun known => absurd known (by decide),fun message payload same => ?_,fun post mem => ?_⟩
    · simp [Adapter.new,Upstream.new] at shape
    · cases same
    · cases mem
  told := by
    constructor
    · intro known
      cases known
    · rintro ⟨m,less,_⟩
      omega
  length := rfl
  attempted _ := .none
  later _ _ := rfl
  answered turn less := by omega

theorem relayError (payload : Json) (e : Text) :
    relay payload (.error e) =
      [jsonrpcErrorForPayload payload "-32000".toList ("stdio proxy upstream call failed: ".toList ++ e)] := rfl

theorem takeInv {n : Nat} {a : Adapter} {payload : Json} (inv : RunInv wire messages n a) (here : messages[n]? = some payload) :
    RunInv wire messages (n + 1) (a.take wire answers payload) := by
  rcases ran : a.upstream.forward wire answers a.written.length payload with ⟨v,result⟩
  have taken : a.take wire answers payload = ⟨v,a.written ++ [relay payload result]⟩ := by rw [Adapter.take,ran]
  rw [inv.length] at ran
  have forwarded := forwards inv.inv here inv.told (inv.later n le_rfl) ran
  have told : Seen messages n ↔ Told messages (n + 1) := by simp [Seen,Told,Order.lt_add_one_iff]
  rw [taken]
  refine ⟨forwarded.inv,forwarded.told.trans told,by simp [inv.length],fun turn => ?_,fun turn after => ?_,?_⟩
  · by_cases now : turn = n
    · exact now ▸ forwarded.attempts
    · rw [forwarded.others turn now]
      exact inv.attempted turn
  · rw [forwarded.others turn (by omega)]
    exact inv.later turn (by omega)
  · intro turn less other there untried
    by_cases now : turn = n
    · subst now
      cases here.symm.trans there
      obtain ⟨e,rfl⟩ := forwarded.answered untried
      have last : (a.written ++ [relay payload (.error e)])[turn]? = some (relay payload (.error e)) := by
        rw [← inv.length,List.getElem?_concat_length]
      exact ⟨_,last.trans (congrArg some (relayError payload e))⟩
    · rw [forwarded.others turn now] at untried
      have before : turn < n := by omega
      obtain ⟨e,written⟩ := inv.answered turn before other there untried
      exact ⟨e,by rw [List.getElem?_append_left (inv.length ▸ before)]; exact written⟩

theorem runInv (wire : Wire) (answers : Nat → Option Reply) (messages : List Json) :
    RunInv wire messages messages.length (run wire answers messages) := by
  have each (done : List Json) : ∀ rest, messages = done ++ rest → RunInv wire messages done.length (run wire answers done) := by
    induction done using List.reverseRecOn with
    | nil => exact fun _ _ => newInv wire messages
    | append_singleton done payload ih =>
      intro rest shape
      have here : messages[done.length]? = some payload := by simp [shape]
      have before := ih (payload::rest) (by rw [shape,List.append_assoc]; rfl)
      rw [run,List.foldl_append,List.length_append]
      exact takeInv before here
  exact each messages [] (List.append_nil messages).symm

/-- What holds once an `initialize` has been seen, and how often a message is POSTed. -/
structure Kept (wire : Wire) (messages : List Json) (a : Adapter) : Prop where
  carries : ∀ post ∈ a.upstream.posts, Carries wire messages post
  legacy : ∀ earlier post later, a.upstream.posts = earlier ++ post::later → Seen messages post.turn → Legacy earlier post
  attempted : ∀ turn, Attempts (attempts a.upstream.posts turn)
  answered : ∀ turn payload, messages[turn]? = some payload → attempts a.upstream.posts turn = [] →
    ∃ e, a.written[turn]? = some [jsonrpcErrorForPayload payload "-32000".toList e]

theorem sessionsKept (wire : Wire) (answers : Nat → Option Reply) (messages : List Json) :
    Kept wire messages (run wire answers messages) := by
  have inv := runInv wire answers messages
  refine ⟨inv.inv.carries,inv.inv.legacy,inv.attempted,fun turn payload here untried => inv.answered turn ?_ payload here untried⟩
  exact (List.getElem?_eq_some_iff.mp here).1

end

/-! A session that expires before the first call, so that the handshake is replayed. -/

/-- The POSTs that carry a message, as itself or as the saved handshake. -/
def copies (posts : List Post) (message : Nat) : List Post :=
  posts.filter fun post => (post.turn = message && post.cause = .forwarded) || post.cause = .replayed message

def demoWire : Wire where
  encodeBase64 text := text
  fromStr _ := none
  statusText status := Nat.toDigits 10 status
  packageVersion := "0.1.0".toList

def demoMessages : List Json :=
  [.object [("id".toList,.number "1".toList),("method".toList,.text "initialize".toList)],
    .object [("id".toList,.number "2".toList),("method".toList,.text "tools/list".toList)]]

def demoReplies : List Reply :=
  [⟨some "first".toList,200,"application/json".toList,some []⟩,⟨none,404,"text/plain".toList,some []⟩,
    ⟨some "second".toList,200,"application/json".toList,some []⟩,⟨none,202,[],some []⟩,⟨none,200,"application/json".toList,some []⟩]

def demoRun : Adapter := run demoWire (fun n => demoReplies[n]?) demoMessages

example : demoRun.upstream.posts.map (fun post => (post.turn,post.cause,post.session)) =
    [(0,.forwarded,none),(1,.forwarded,some "first".toList),(1,.replayed 0,none),(1,.initialized,some "second".toList),
      (1,.forwarded,some "second".toList)] := by decide

theorem demoCopies : (copies demoRun.upstream.posts 0).map Post.session = [none,none] := by decide

/-- The reply to its first POST was no HTTP 404, and that POST had no session. -/
theorem replayedAgain : ¬ Attempts (copies demoRun.upstream.posts 0) := by
  have sessions := demoCopies
  generalize copies demoRun.upstream.posts 0 = posts at sessions
  intro attempts
  cases attempts with
  | none => contradiction
  | once post => simp at sessions
  | twice first second session reply stateful had =>
    simp [had] at sessions

end RustMcp.StdioProxy
