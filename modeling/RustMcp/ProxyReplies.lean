import RustMcp.StdioProxy

/-! What the stdio adapter writes back for each line of its client, and for which messages the
main loop and the forwarding agree on what a request is. -/
namespace RustMcp.ProxyReplies
open Str StdioProxy

section
-- `parseError` is the decoder's own text for a line it does not read.
variable (wire : Wire) (parseError : Text → Text) (answers : Nat → Option Reply)

def takeLine (a : Adapter) (line : Text) : Adapter :=
  if (trim line).isEmpty then a
  else
    match wire.fromStr (trim line) with
    | some payload => a.take wire answers payload
    | none => {a with written := a.written ++
        [[jsonrpcError .null "-32700".toList ("parse error: ".toList ++ parseError (trim line))]]}

def runLines (lines : List Text) : Adapter := lines.foldl (takeLine wire parseError answers) Adapter.new

end

/-- What the main loop takes for a request. -/
def isRequest (payload : Json) : Bool := (payload.get "id".toList).isSome

/-- What is prepared as a request. -/
def preparedAsRequest (payload : Json) : Bool := (method payload).isSome && (payload.get "id".toList).isSome

theorem relayRequest (payload : Json) (forwarded : Except Text (List Json)) :
    relay payload forwarded =
      let upstreamMessages := match forwarded with
        | .ok messages => messages
        | .error e => [jsonrpcErrorForPayload payload "-32000".toList ("stdio proxy upstream call failed: ".toList ++ e)]
      (if upstreamMessages.isEmpty && isRequest payload then
        [jsonrpcErrorForPayload payload "-32000".toList "stdio proxy upstream returned no JSON-RPC payload".toList]
      else upstreamMessages).filter fun message => (message.get "id".toList).isSome || isRequest payload := rfl

/-- Only what is prepared as a request is changed on its way. -/
theorem preparedOther {wire : Wire} {payload : Json} (other : preparedAsRequest payload = false) (legacy : Bool) :
    (prepareUpstream wire payload legacy).1 = payload := by
  unfold prepareUpstream
  split
  · rfl
  · simp only [show ((method payload).isSome && (payload.get "id".toList).isSome) = false from other,Bool.false_and]
    rfl

/-- The message itself was POSTed last, and taken with an empty body. -/
def Accepted (posts : List Post) : Prop :=
  ∃ post reply body, posts.getLast? = some post ∧ post.cause = .forwarded ∧ post.answer = some reply ∧
    isSuccess reply.status = true ∧ reply.body = some body ∧ (trim body).isEmpty = true

/-- What is due for a message that takes the adapter from one state to the next. -/
structure Answered (before after : Adapter) (payload : Json) : Prop where
  request : (payload.get "method".toList).isSome = true → (payload.get "id".toList).isSome = true →
    ∃ message more, after.written = before.written ++ [message::more]
  response : payload.get "method".toList = none → (payload.get "id".toList).isSome = true →
    Accepted (after.upstream.posts.drop before.upstream.posts.length) → after.written = before.written ++ [[]]
  same : isRequest payload = preparedAsRequest payload

section
variable {wire : Wire} {answers : Nat → Option Reply}

theorem acceptedLast {posts : List Post} {post : Post} (accepted : Accepted (posts ++ [post])) : Accepted [post] := by
  obtain ⟨last,rest⟩ := accepted
  rw [List.getLast?_concat] at rest
  exact ⟨last,rest⟩

theorem acceptedPost {post : Post} (accepted : Accepted [post]) : ∃ reply body, post.answer = some reply ∧
    isSuccess reply.status = true ∧ reply.body = some body ∧ (trim body).isEmpty = true := by
  obtain ⟨last,reply,body,same,-,answered,success,read,blank⟩ := accepted
  have here : last = post := by simpa using same.symm
  exact ⟨reply,body,here ▸ answered,success,read,blank⟩

theorem acceptedForwarded {posts : List Post} (aside : ∀ post ∈ posts, post.cause ≠ .forwarded) : ¬ Accepted posts := by
  rintro ⟨post,_,_,last,cause,_⟩
  exact aside post (List.mem_of_getLast? last) cause

variable (wire) in
/-- The outcome of an accepted POST, whatever its content type. -/
theorem acceptedMessages {post : Post} {reply : UpstreamReply} (accepted : Accepted [post]) (got : received post.answer = .ok reply) :
    reply.intoMessages wire = .ok [] ∧ isSuccess reply.status = true := by
  obtain ⟨answer,body,answered,success,read,blank⟩ := acceptedPost accepted
  simp only [answered,received,read] at got
  cases got
  refine ⟨?_,success⟩
  simp only [UpstreamReply.intoMessages,success,blank]
  rfl

theorem acceptedReceived {post : Post} {e : Text} (failed : received post.answer = .error e) : ¬ Accepted [post] := by
  intro accepted
  obtain ⟨answer,body,answered,-,read,-⟩ := acceptedPost accepted
  simp [answered,received,read] at failed

variable (wire answers) in
theorem reestablishPosts (u : Upstream) (turn : Nat) :
    ∃ new, (u.reestablishSession wire answers turn).1.posts = u.posts ++ new ∧ ∀ post ∈ new, post.cause ≠ .forwarded := by
  unfold Upstream.reestablishSession
  dsimp only
  cases u.savedInitialize with
  | none => exact ⟨[],by simp,by simp⟩
  | some saved =>
    obtain ⟨message,payload⟩ := saved
    dsimp only [Upstream.send]
    split
    · rename_i v e sent
      obtain ⟨rfl,-⟩ := Prod.mk.inj sent
      exact ⟨[_],rfl,by simp [Upstream.post]⟩
    · rename_i v reply sent
      obtain ⟨rfl,-⟩ := Prod.mk.inj sent
      split
      · exact ⟨[_],rfl,by simp [Upstream.post]⟩
      · split <;>
        · rename_i w _ sent
          obtain ⟨rfl,-⟩ := Prod.mk.inj sent
          exact ⟨[_] ++ [_],List.append_assoc u.posts [_] [_],by simp [Upstream.post]⟩

/-- What a message adds to the POSTs, and its outcome where the last of them is accepted. -/
def Adds (u : Upstream) (after : Upstream × Except Text (List Json)) : Prop :=
  ∃ new, after.1.posts = u.posts ++ new ∧ (Accepted new → after.2 = .ok [])

theorem Adds.behind {u v : Upstream} {new : List Post} {after : Upstream × Except Text (List Json)}
    (started : v.posts = u.posts ++ new) (aside : ∀ post ∈ new, post.cause ≠ .forwarded) (adds : Adds v after) : Adds u after := by
  obtain ⟨more,posts,outcome⟩ := adds
  refine ⟨new ++ more,by rw [posts,started,List.append_assoc],fun accepted => outcome ?_⟩
  rcases List.eq_nil_or_concat more with rfl | ⟨before,last,rfl⟩
  · exact absurd (by simpa using accepted) (acceptedForwarded aside)
  · rw [List.concat_eq_append,← List.append_assoc] at accepted
    obtain ⟨post,rest⟩ := acceptedLast accepted
    exact ⟨post,by simpa using rest⟩

variable (wire answers) in
theorem deliverPosts (u : Upstream) (turn : Nat) (payload : Json) : Adds u (u.deliver wire answers turn payload) := by
  unfold Upstream.deliver
  generalize prepareUpstream wire payload u.savedInitialize.isSome = prepared
  dsimp only [Upstream.send]
  split
  · rename_i v e sent
    obtain ⟨rfl,failed⟩ := Prod.mk.inj sent
    exact ⟨[_],rfl,fun accepted => absurd accepted (acceptedReceived failed)⟩
  · rename_i v reply sent
    obtain ⟨rfl,got⟩ := Prod.mk.inj sent
    split
    · rename_i gone
      simp only [Bool.and_eq_true,decide_eq_true_eq] at gone
      obtain ⟨new,posts,aside⟩ := reestablishPosts wire answers
        (u.posted (u.post answers turn .forwarded prepared.1 prepared.2)) turn
      have unaccepted : ¬ Accepted [u.post answers turn .forwarded prepared.1 prepared.2] := fun accepted =>
        absurd (acceptedMessages wire accepted got).2 (by rw [gone.2]; decide)
      split
      · rename_i w e recovery
        rw [recovery] at posts
        refine ⟨[_] ++ new,posts.trans (List.append_assoc u.posts [_] new),fun accepted => ?_⟩
        rcases List.eq_nil_or_concat new with rfl | ⟨before,last,rfl⟩
        · exact absurd accepted unaccepted
        · rw [List.concat_eq_append,← List.append_assoc] at accepted
          exact absurd (acceptedLast accepted) (acceptedForwarded (by simpa using aside last (by simp)))
      · rename_i w recovery
        rw [recovery] at posts
        replace posts : w.posts = u.posts ++ ([_] ++ new) := posts.trans (List.append_assoc u.posts [_] new)
        have whole (post : Post) : (w.posted post).posts =
            u.posts ++ ([u.post answers turn .forwarded prepared.1 prepared.2] ++ new ++ [post]) := by
          rw [Upstream.posted,posts,List.append_assoc]
        split
        · rename_i x e sent
          obtain ⟨rfl,failed⟩ := Prod.mk.inj sent
          exact ⟨_,whole _,fun accepted => absurd (acceptedLast accepted) (acceptedReceived failed)⟩
        · rename_i x reply' sent
          obtain ⟨rfl,got'⟩ := Prod.mk.inj sent
          exact ⟨_,whole _,fun accepted => (acceptedMessages wire (acceptedLast accepted) got').1⟩
    · exact ⟨[_],rfl,fun accepted => (acceptedMessages wire accepted got).1⟩

variable (wire answers) in
theorem forwardPosts (u : Upstream) (turn : Nat) (payload : Json) : Adds u (u.forward wire answers turn payload) := by
  unfold Upstream.forward
  have same := seenAttempts u turn payload
  generalize u.seen turn payload = v at same
  dsimp only
  split
  · obtain ⟨new,posts,aside⟩ := reestablishPosts wire answers v turn
    rw [same] at posts
    split
    · rename_i w e recovery
      rw [recovery] at posts
      exact ⟨new,posts,fun accepted => absurd accepted (acceptedForwarded aside)⟩
    · rename_i w recovery
      rw [recovery] at posts
      exact (deliverPosts wire answers w turn payload).behind posts aside
  · obtain ⟨new,posts,outcome⟩ := deliverPosts wire answers v turn payload
    exact ⟨new,posts.trans (by rw [same]),outcome⟩

def noPayload (payload : Json) : Json :=
  jsonrpcErrorForPayload payload "-32000".toList "stdio proxy upstream returned no JSON-RPC payload".toList

variable (wire answers) in
theorem takeWrites (a : Adapter) (payload : Json) :
    ∃ result, (a.take wire answers payload).written = a.written ++ [relay payload result] ∧
      (Accepted ((a.take wire answers payload).upstream.posts.drop a.upstream.posts.length) → result = .ok []) := by
  obtain ⟨new,posts,outcome⟩ := forwardPosts wire answers a.upstream a.written.length payload
  refine ⟨(a.upstream.forward wire answers a.written.length payload).2,rfl,fun accepted => outcome ?_⟩
  rw [show (a.take wire answers payload).upstream.posts = a.upstream.posts ++ new from posts,List.drop_left] at accepted
  exact accepted

theorem relaySome {payload : Json} (request : isRequest payload = true) (result : Except Text (List Json)) :
    ∃ message more, relay payload result = message::more := by
  rw [relayRequest,request]
  simp only [Bool.or_true,Bool.and_true,List.filter_true]
  cases result with
  | error e => exact ⟨_,_,rfl⟩
  | ok messages => cases messages <;> exact ⟨_,_,rfl⟩

theorem relayAccepted {payload : Json} (request : isRequest payload = true) : relay payload (.ok []) = [noPayload payload] := by
  rw [relayRequest,request]
  rfl

end

/-- In every run, whatever upstream answers: what is due is done for the messages with no id or
with a method by name, and a client's response that is accepted is always answered with an error. -/
theorem answeredIff (wire : Wire) (parseError : Text → Text) (answers : Nat → Option Reply) (lines : List Text) (payload : Json) :
    let before := runLines wire parseError answers lines
    let after := before.take wire answers payload
    (Answered before after payload ↔ ((payload.get "id".toList).isSome = true → (method payload).isSome = true)) ∧
    ((payload.get "id".toList).isSome = true → ∃ message more, after.written = before.written ++ [message::more]) ∧
    ((payload.get "id".toList).isSome = true → Accepted (after.upstream.posts.drop before.upstream.posts.length) →
      after.written = before.written ++ [[noPayload payload]]) := by
  intro before after
  obtain ⟨result,written,accepted⟩ := takeWrites wire answers before payload
  have some_ (request : isRequest payload = true) : ∃ message more, after.written = before.written ++ [message::more] := by
    obtain ⟨message,more,relayed⟩ := relaySome request result
    exact ⟨message,more,by rw [written,relayed]⟩
  refine ⟨⟨fun answered id => ?_,fun named => ⟨fun _ => some_,fun noMethod id => ?_,?_⟩⟩,some_,fun id last => ?_⟩
  · have same := answered.same
    rw [isRequest,preparedAsRequest,id,Bool.and_true] at same
    exact same.symm
  · have none_ : method payload = none := by rw [method,noMethod]; rfl
    exact absurd (named id) (by simp [none_])
  · rw [isRequest,preparedAsRequest]
    cases id : (payload.get "id".toList).isSome with
    | false => simp
    | true => simp [named id]
  · rw [written,accepted last,relayAccepted id]

/-- A client's response, taken with HTTP 202 and no body. -/
theorem responseAnswered :
    let payload : Json := .object [("jsonrpc".toList,.text "2.0".toList),("id".toList,.number "7".toList),("result".toList,.object [])]
    let wire : Wire := ⟨id,fun _ => none,fun _ => [],"0.1.0".toList⟩
    let after := Adapter.new.take wire (fun _ => some ⟨none,202,[],some []⟩) payload
    payload.get "method".toList = none ∧ (payload.get "id".toList).isSome = true ∧
    Accepted (after.upstream.posts.drop Adapter.new.upstream.posts.length) ∧
    after.written = [[noPayload payload]] ∧ ¬ Answered Adapter.new after payload := by
  intro payload wire after
  have accepted : Accepted (after.upstream.posts.drop Adapter.new.upstream.posts.length) :=
    ⟨_,_,_,rfl,rfl,rfl,rfl,rfl,rfl⟩
  refine ⟨rfl,rfl,accepted,rfl,fun answered => ?_⟩
  have silent := answered.response rfl rfl accepted
  cases silent

end RustMcp.ProxyReplies
