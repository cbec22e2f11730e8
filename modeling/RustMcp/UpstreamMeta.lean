import RustMcp.JsonFields
import RustMcp.ProxyReplies

/-! What the adapter does to a request on the stateless protocol: the version in its body is
the one in its header, the client's own `_meta` stays, and nothing else is touched. -/
namespace RustMcp.UpstreamMeta
open Str (Text)
open StdioProxy ProxyReplies JsonFields

def fieldsOf : Option Json → Fields
  | some (.object fields) => fields
  | _ => []

def paramsOf (payload : Json) : Fields := fieldsOf (payload.get "params".toList)

def metaOf (payload : Json) : Fields := fieldsOf (Fields.get (paramsOf payload) metaKey)

def AbsentOrObject (value : Option Json) : Prop := ∀ held, value = some held → ∃ fields, held = .object fields

structure StatelessRequest (payload : Json) : Prop where
  request : preparedAsRequest payload = true
  stateless : [some "initialize".toList,some "notifications/initialized".toList].contains (method payload) = false
  params : AbsentOrObject (payload.get "params".toList)
  carried : AbsentOrObject (Fields.get (paramsOf payload) metaKey)

/-- All of a message but `params._meta`. -/
def outsideMeta : Json → Option (Fields × Fields)
  | .object fields => some (without "params".toList fields,without metaKey (fieldsOf (Fields.get fields "params".toList)))
  | _ => none

/-! The entries of `_meta`. -/

theorem versionKey : metaProtocolVersion ≠ metaClientInfo ∧ metaProtocolVersion ≠ metaClientCapabilities := by
  unfold metaProtocolVersion metaClientInfo metaClientCapabilities
  rw [String.toList_ofList,String.toList_ofList,String.toList_ofList]
  decide

theorem insertMetaVersion (name version : Text) (fields : Fields) :
    Fields.get (insertMeta name version fields) metaProtocolVersion = some (.text latestMcpProtocolVersion) := by
  rw [insertMeta,getOrInsertOther versionKey.1,getOrInsertOther versionKey.2,getInsertSame]

theorem insertMetaHeld {name version key : Text} {fields : Fields} {value : Json} (other : key ≠ metaProtocolVersion)
    (held : Fields.get fields key = some value) : Fields.get (insertMeta name version fields) key = some value := by
  have first : Fields.get (Fields.insert fields metaProtocolVersion (.text latestMcpProtocolVersion)) key = some value := by
    rw [getInsertOther other,held]
  have kept {given : Fields} {added : Text} {entry : Json} (here : Fields.get given key = some value) :
      Fields.get (Fields.orInsert given added entry) key = some value := by
    by_cases same : key = added
    · subst same
      rw [getOrInsertSame,here]
      rfl
    · rw [getOrInsertOther same,here]
  exact kept (kept first)

theorem insertMetaOther {name version key : Text} (fields : Fields)
    (other : key ∉ [metaProtocolVersion,metaClientCapabilities,metaClientInfo]) :
    Fields.get (insertMeta name version fields) key = Fields.get fields key := by
  simp only [List.mem_cons,List.not_mem_nil,or_false,not_or] at other
  rw [insertMeta,getOrInsertOther other.2.2,getOrInsertOther other.2.1,getInsertOther other.1]

/-! The message. -/

theorem fieldsOfObject {value : Option Json} (shape : AbsentOrObject value) : value.getD (.object []) = .object (fieldsOf value) := by
  cases value with
  | none => rfl
  | some held =>
    obtain ⟨fields,rfl⟩ := shape held rfl
    rfl

section
variable {payload : Json} {fields : Fields}

theorem insertedMeta (shape : payload = .object fields) (params : AbsentOrObject (payload.get "params".toList))
    (carried : AbsentOrObject (Fields.get (paramsOf payload) metaKey)) (name version : Text) :
    insertStatelessRequestMeta payload name version =
      .object (Fields.insert fields "params".toList
        (.object (Fields.insert (paramsOf payload) metaKey (.object (insertMeta name version (metaOf payload)))))) := by
  subst shape
  have outer : (Fields.get fields "params".toList).getD (.object []) = .object (paramsOf (.object fields)) := fieldsOfObject params
  have inner := fieldsOfObject carried
  unfold insertStatelessRequestMeta
  simp only [outer,inner]
  rfl

theorem versionOfMeta (payload : Json) :
    requestMetaProtocolVersion payload = (Fields.get (metaOf payload) metaProtocolVersion).bind Json.asStr := by
  have step (value : Option Json) (key : Text) : value.bind (Json.get key) = Fields.get (fieldsOf value) key := by
    rcases value with _ | held
    · rfl
    · cases held <;> rfl
  have expanded : requestMetaProtocolVersion payload =
      (((payload.get "params".toList).bind (Json.get metaKey)).bind (Json.get metaProtocolVersion)).bind Json.asStr := by
    unfold requestMetaProtocolVersion
    simp only [bind,Option.bind_assoc]
  rw [expanded,step,step]
  rfl

theorem requestObject (request : preparedAsRequest payload = true) : ∃ fields, payload = .object fields := by
  simp only [preparedAsRequest,Bool.and_eq_true] at request
  cases payload with
  | object fields => exact ⟨fields,rfl⟩
  | _ => exact absurd request.2 (by simp [Json.get])

/-- The message with `_meta` put in place, by its parts. -/
def withMeta (fields carried : Fields) : Json :=
  .object (Fields.insert fields "params".toList
    (.object (Fields.insert (fieldsOf (Fields.get fields "params".toList)) metaKey (.object carried))))

variable {carried : Fields}

theorem withMetaOther {key : Text} (other : key ≠ "params".toList) : (withMeta fields carried).get key = Fields.get fields key :=
  getInsertOther other

theorem paramsWithMeta : paramsOf (withMeta fields carried) =
    Fields.insert (fieldsOf (Fields.get fields "params".toList)) metaKey (.object carried) := by
  have set : (withMeta fields carried).get "params".toList = _ := getInsertSame
  rw [paramsOf,set]
  rfl

theorem metaWithMeta : metaOf (withMeta fields carried) = carried := by
  rw [metaOf,paramsWithMeta,getInsertSame]
  rfl

theorem methodWithMeta : method (withMeta fields carried) = method (.object fields) := by
  rw [method,withMetaOther (by decide)]
  rfl

theorem outsideWithMeta : outsideMeta (withMeta fields carried) = outsideMeta (.object fields) := by
  simp only [withMeta,outsideMeta,getInsertSame,withoutInsert,fieldsOf]

/-- What carries a version is sent as it is. -/
theorem preparedVersioned {wire : Wire} {version : Text}
    (stateless : [some "initialize".toList,some "notifications/initialized".toList].contains (method payload) = false)
    (carries : requestMetaProtocolVersion payload = some version) : prepareUpstream wire payload false = (payload,some version) := by
  simp only [prepareUpstream,stateless,carries,Bool.or_false,Bool.false_eq_true,if_false,Option.isNone_some,Bool.and_false,
    Option.getD_some]

theorem preparedBare {wire : Wire} (sent : StatelessRequest payload) (shape : payload = .object fields)
    (bare : requestMetaProtocolVersion payload = none) :
    prepareUpstream wire payload false =
      (withMeta fields (insertMeta adapterClientName wire.packageVersion (metaOf payload)),some latestMcpProtocolVersion) := by
  have request : ((method payload).isSome && (payload.get "id".toList).isSome) = true := sent.request
  have inserted := insertedMeta shape sent.params sent.carried adapterClientName wire.packageVersion
  have version : requestMetaProtocolVersion (insertStatelessRequestMeta payload adapterClientName wire.packageVersion) =
      some latestMcpProtocolVersion := by
    subst shape
    rw [versionOfMeta,inserted]
    change (Fields.get (metaOf (withMeta fields _)) _).bind _ = _
    rw [metaWithMeta,insertMetaVersion]
    rfl
  simp only [prepareUpstream,sent.stateless,request,bare,Bool.or_false,Bool.false_eq_true,if_false,Option.isNone_none,Bool.and_self,
    if_true,version,Option.getD_some]
  subst shape
  rw [inserted]
  rfl

end

/-- Header and body name one version, the client's entries of `_meta` stay, nothing outside of it
changes, and what is prepared once is not changed by preparing it again. An entry under the version's
key that is no text carries no version. -/
theorem preparedOnce (wire : Wire) (payload : Json) (sent : StatelessRequest payload) :
    ∃ out version, prepareUpstream wire payload false = (out,some version) ∧
      requestMetaProtocolVersion out = some version ∧
      (statelessRequestHeaders wire out version).head? = some ("MCP-Protocol-Version".toList,version) ∧
      (∀ given, requestMetaProtocolVersion payload = some given → version = given) ∧
      (∀ key value, key ≠ metaProtocolVersion → Fields.get (metaOf payload) key = some value →
        Fields.get (metaOf out) key = some value) ∧
      (∀ key, key ∉ [metaProtocolVersion,metaClientCapabilities,metaClientInfo] →
        Fields.get (metaOf out) key = Fields.get (metaOf payload) key) ∧
      outsideMeta out = outsideMeta payload ∧
      prepareUpstream wire out false = (out,some version) := by
  cases given : requestMetaProtocolVersion payload with
  | some version =>
    have same : prepareUpstream wire payload false = (payload,some version) := preparedVersioned sent.stateless given
    exact ⟨payload,version,same,given,rfl,fun _ other => Option.some.inj other,fun _ _ _ held => held,fun _ _ => rfl,rfl,same⟩
  | none =>
    obtain ⟨fields,shape⟩ := requestObject sent.request
    have prepared : prepareUpstream wire payload false =
        (withMeta fields (insertMeta adapterClientName wire.packageVersion (metaOf payload)),some latestMcpProtocolVersion) :=
      preparedBare sent shape given
    subst shape
    have carries : requestMetaProtocolVersion
        (withMeta fields (insertMeta adapterClientName wire.packageVersion (metaOf (.object fields)))) =
        some latestMcpProtocolVersion := by
      rw [versionOfMeta,metaWithMeta,insertMetaVersion]
      rfl
    refine ⟨_,_,prepared,carries,rfl,fun _ other => by contradiction,?_,?_,outsideWithMeta,preparedVersioned ?_ carries⟩
    · intro key value other held
      rw [metaWithMeta]
      exact insertMetaHeld other held
    · intro key other
      rw [metaWithMeta]
      exact insertMetaOther _ other
    · rw [methodWithMeta]
      exact sent.stateless

def pingRequest : Json :=
  .object [("id".toList,.number "1".toList),("method".toList,.text "tools/call".toList),
    ("params".toList,.object [("name".toList,.text "ping".toList),
      ("_meta".toList,.object [("progressToken".toList,.text "p1".toList)])])]

def pingWire : Wire := ⟨id,fun _ => none,fun _ => [],"0.1.0".toList⟩

theorem preparedOncePing :
    ∃ out version, prepareUpstream pingWire pingRequest false = (out,some version) ∧
      Fields.get (metaOf out) "progressToken".toList = some (.text "p1".toList) ∧
      prepareUpstream pingWire out false = (out,some version) := by
  obtain ⟨out,version,prepared,-,-,-,kept,-,-,again⟩ := preparedOnce pingWire pingRequest
    ⟨by decide,by decide,fun _ held => ⟨_,(Option.some.inj held).symm⟩,fun _ held => ⟨_,(Option.some.inj held).symm⟩⟩
  exact ⟨out,version,prepared,kept _ _ (by decide) rfl,again⟩

end RustMcp.UpstreamMeta
