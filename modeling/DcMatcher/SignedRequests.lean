import DcMatcher.Request

/-!
# What a signed request is read from

`extractContext` on two runs. Under the label of a signed request everything comes from the
payload: not from the headers, the signatures, or any other member of the data. Under any
other label nothing comes from `data.request`.

Results:
1. `compactPayload_of_isCompactJws`: of a compact JWS only the payload segment is decoded.
2. `extractContext_multisigned`: the context of a JWS JSON object is that of its payload.
3. `extractContext_payload_only`: the two-run statement, for every label.
-/

namespace DcMatcher

open Lists

/-! ## Where a payload is carried -/

/-- A compact JWS with this payload segment. -/
def IsCompactJws (jws payload : String) : Prop :=
  ∃ header signature : List Char, header ≠ [] ∧ payload ≠ "" ∧ '.' ∉ header ∧
    '.' ∉ payload.toList ∧ '.' ∉ signature ∧
    jws.toList = header ++ '.' :: (payload.toList ++ '.' :: signature)

/-- The payload string of a JWS JSON object, in `data.request` or in the data itself. -/
inductive CarriesPayload (data : Value) (payload : String) : Prop
  | nested {m : Map} (hrequest : data.get "request" = some (.object m))
      (hpayload : m.get "payload" = some (.string payload))
  | direct (hrequest : data.get "request" = none)
      (hpayload : data.get "payload" = some (.string payload))

theorem CarriesPayload.unique {data : Value} {p q : String} (hp : CarriesPayload data p)
    (hq : CarriesPayload data q) : p = q := by
  cases hp with
  | nested hrequest hpayload =>
    cases hq with
    | nested hrequest' hpayload' =>
      cases hrequest.symm.trans hrequest'
      cases hpayload.symm.trans hpayload'
      rfl
    | direct hrequest' _ => cases hrequest.symm.trans hrequest'
  | direct hrequest hpayload =>
    cases hq with
    | nested hrequest' _ => cases hrequest.symm.trans hrequest'
    | direct _ hpayload' =>
      cases hpayload.symm.trans hpayload'
      rfl

/-- The data values differ in `request` only. -/
def SameBesidesRequest (data data' : Value) : Prop :=
  ∀ key, key ≠ "request" → data.get key = data'.get key

/-! ## Reading a payload -/

section Reading

variable (sj : SerdeJson)

/-- The context of a request object. -/
def objectContext (protocol : String) (object : Value) (signed : Bool) :
    Except NoQuery RequestContext :=
  match object.get "dcql_query" with
  | none => .error .payloadHasNoDcqlQuery
  | some raw =>
    (parseDcqlOrZkpReq sj raw).map fun dcqlQuery =>
      { protocol
        signed
        clientId := (object.get "client_id").bind Value.asStr
        expectedOrigins :=
          ((object.get "expected_origins").bind Value.asArray).bind (collect Value.asStr)
        clientMetadata := object.get "client_metadata"
        dcqlQueryRaw := raw
        dcqlQuery }

/-- The context of a payload string. -/
def payloadContext (protocol payload : String) : Except NoQuery RequestContext :=
  match Base64url.decode payload with
  | none => .error .payloadNotBase64url
  | some bytes =>
    match payloadObject sj bytes with
    | .error e => .error e
    | .ok (object, signed) => objectContext sj protocol object signed

end Reading

variable {sj : SerdeJson} {protocol : String} {data : Value}

theorem extractContext_eq (parser : Parser) :
    extractContext sj parser protocol data =
      match requestObject sj parser protocol data with
      | .error e => .error e
      | .ok (object, signed) => objectContext sj protocol object signed := rfl

/-! ## 1. Compact JWS -/

theorem isEmpty_ofList {text : List Char} : (String.ofList text).isEmpty = true ↔ text = [] := by
  rw [String.isEmpty_iff, ← String.toList_eq_nil_iff, String.toList_ofList]

/-- Of a compact JWS only the payload segment is decoded. -/
theorem compactPayload_of_isCompactJws {jws payload : String} (h : IsCompactJws jws payload) :
    compactPayload jws =
      match Base64url.decode payload with
      | none => .error .payloadNotBase64url
      | some bytes => .ok bytes := by
  obtain ⟨header, signature, hheader, hpayload, hdots, hdots', hdots'', hjws⟩ := h
  have hpieces : splitn '.' 4 jws.toList =
      [String.ofList header, payload, String.ofList signature] := by
    rw [hjws, splitn_append_cons hdots, splitn_append_cons hdots', splitn_of_not_mem hdots'',
      String.ofList_toList]
  have hfirst : (String.ofList header).isEmpty = false :=
    Bool.eq_false_iff.mpr fun h => hheader (isEmpty_ofList.mp h)
  have hsecond : payload.isEmpty = false :=
    Bool.eq_false_iff.mpr fun h => hpayload (String.isEmpty_iff.mp h)
  have hboth : ¬ ((String.ofList header).isEmpty || payload.isEmpty) = true := by
    rw [hfirst, hsecond]
    exact Bool.false_ne_true
  unfold compactPayload
  rw [hpieces]
  exact if_neg hboth

/-- The context of a signed request is that of its payload segment. -/
theorem extractContext_signed {jws payload : String}
    (hrequest : data.get "request" = some (.string jws)) (hjws : IsCompactJws jws payload) :
    extractContext sj .openid4vpV1 "openid4vp-v1-signed" data =
      payloadContext sj "openid4vp-v1-signed" payload := by
  have hobject : requestObject sj .openid4vpV1 "openid4vp-v1-signed" data =
      compactPayload jws >>= payloadObject sj := by
    have hshape : Shape.of "openid4vp-v1-signed" = .compactJws := rfl
    unfold requestObject
    simp only [hshape, hrequest]
  rw [extractContext_eq, hobject, compactPayload_of_isCompactJws hjws, payloadContext]
  cases Base64url.decode payload with
  | none => rfl
  | some bytes => rfl

/-! ## 2. JWS JSON objects -/

theorem jsonSerializationPayload_ok {v : Value} {missing : NoQuery} {bytes : List UInt8}
    (h : jsonSerializationPayload v missing = .ok bytes) :
    ∃ payload, v.get "payload" = some (.string payload) ∧
      Base64url.decode payload = some bytes := by
  unfold jsonSerializationPayload at h
  split at h
  · next payload hpayload =>
    split at h
    · cases h
    · next hdecode =>
      cases h
      exact ⟨payload, hpayload, hdecode⟩
  · cases h

theorem jsonPayload_ok {bytes : List UInt8} (h : jsonPayload data = .ok bytes) :
    ∃ payload, CarriesPayload data payload ∧ Base64url.decode payload = some bytes := by
  unfold jsonPayload at h
  split at h
  · next m hrequest =>
    obtain ⟨payload, hpayload, hdecode⟩ := jsonSerializationPayload_ok h
    exact ⟨payload, .nested hrequest hpayload, hdecode⟩
  · cases h
  · cases h
  · next hrequest =>
    split at h
    · cases h
    · obtain ⟨payload, hpayload, hdecode⟩ := jsonSerializationPayload_ok h
      exact ⟨payload, .direct hrequest hpayload, hdecode⟩

/-- The context of a multisigned request is that of the payload string it carries. -/
theorem extractContext_multisigned {context : RequestContext}
    (h : extractContext sj .openid4vpV1 "openid4vp-v1-multisigned" data = .ok context) :
    ∃ payload, CarriesPayload data payload ∧
      payloadContext sj "openid4vp-v1-multisigned" payload = .ok context := by
  have hobject : requestObject sj .openid4vpV1 "openid4vp-v1-multisigned" data =
      jsonPayload data >>= payloadObject sj := rfl
  rw [extractContext_eq, hobject] at h
  cases hpayload : jsonPayload data with
  | error e =>
    rw [hpayload] at h
    cases h
  | ok bytes =>
    rw [hpayload] at h
    obtain ⟨payload, hcarries, hdecode⟩ := jsonPayload_ok hpayload
    refine ⟨payload, hcarries, ?_⟩
    rw [payloadContext, hdecode]
    exact h

/-! ## 3. Labels -/

theorem shape_compactJws_iff :
    Shape.of protocol = .compactJws ↔ protocol = "openid4vp-v1-signed" := by
  unfold Shape.of
  split <;> simp_all

theorem shape_jwsJson_iff :
    Shape.of protocol = .jwsJson ↔ protocol = "openid4vp-v1-multisigned" := by
  unfold Shape.of
  split <;> simp_all

/-- A payload that is read makes a signed request. -/
theorem payloadObject_signed {payload : Except NoQuery (List UInt8)} {object : Value}
    {signed : Bool} (h : payload >>= payloadObject sj = .ok (object, signed)) : signed = true := by
  obtain ⟨bytes, _, h⟩ := bind_eq_ok.mp h
  unfold payloadObject at h
  split at h
  · cases h
  · split at h
    · cases h
    · cases h
      rfl

theorem requestObject_signed {object : Value} {signed : Bool}
    (h : requestObject sj .openid4vpV1 protocol data = .ok (object, signed)) :
    signed = true ↔ Shape.of protocol ≠ .inline := by
  unfold requestObject at h
  simp only at h
  split at h
  · next hshape =>
    split at h
    · cases h
      simp [hshape]
    · split at h <;> cases h
  · next hshape =>
    split at h
    · simp [payloadObject_signed h, hshape]
    · split at h <;> cases h
    · cases h
  · next hshape => simp [payloadObject_signed h, hshape]

theorem objectContext_signed {object : Value} {signed : Bool} {context : RequestContext}
    (h : objectContext sj protocol object signed = .ok context) : context.signed = signed := by
  unfold objectContext at h
  split at h
  · cases h
  · obtain ⟨_, _, rfl⟩ := map_eq_ok.mp h
    rfl

/-- A context is one of a signed request exactly under the labels of signed requests. -/
theorem extractContext_signed_iff {context : RequestContext}
    (h : extractContext sj .openid4vpV1 protocol data = .ok context) :
    context.signed = true ↔
      protocol = "openid4vp-v1-signed" ∨ protocol = "openid4vp-v1-multisigned" := by
  rw [extractContext_eq] at h
  split at h
  · cases h
  · next object signed hobject =>
    rw [objectContext_signed h, requestObject_signed hobject, ← shape_compactJws_iff,
      ← shape_jwsJson_iff]
    cases Shape.of protocol <;> simp

/-- Under the label of an unsigned request, the context is that of the data itself. -/
theorem extractContext_inline (hshape : Shape.of protocol = .inline) {context : RequestContext} :
    extractContext sj .openid4vpV1 protocol data = .ok context ↔
      objectContext sj protocol data false = .ok context := by
  rw [extractContext_eq]
  unfold requestObject
  simp only [hshape]
  cases hquery : data.get "dcql_query" with
  | some raw => rfl
  | none =>
    have hnone : objectContext sj protocol data false = .error .payloadHasNoDcqlQuery := by
      rw [objectContext, hquery]
    rw [hnone]
    cases (data.get "request").isSome <;> simp

/-- Of the data, the context of an unsigned request has everything but `request`. -/
theorem objectContext_congr {data' : Value} (h : SameBesidesRequest data data') (signed : Bool) :
    objectContext sj protocol data signed = objectContext sj protocol data' signed := by
  unfold objectContext
  rw [h "dcql_query" (by decide), h "client_id" (by decide), h "expected_origins" (by decide),
    h "client_metadata" (by decide)]

/-- Signed requests depend on the signed payload only. The signed flag says which label the
entry has. Under `openid4vp-v1-signed`, two values with the same payload segment give the same
result; under `openid4vp-v1-multisigned`, the context is a function of the payload string, in
either place; under any other label, values that differ in `request` only give the same
contexts. -/
theorem extractContext_payload_only (sj : SerdeJson) :
    (∀ protocol data context, extractContext sj .openid4vpV1 protocol data = .ok context →
      (context.signed = true ↔
        protocol = "openid4vp-v1-signed" ∨ protocol = "openid4vp-v1-multisigned")) ∧
    (∀ data data' jws jws' payload, data.get "request" = some (.string jws) →
      data'.get "request" = some (.string jws') → IsCompactJws jws payload →
      IsCompactJws jws' payload →
      extractContext sj .openid4vpV1 "openid4vp-v1-signed" data =
        extractContext sj .openid4vpV1 "openid4vp-v1-signed" data') ∧
    (∀ data context,
      extractContext sj .openid4vpV1 "openid4vp-v1-multisigned" data = .ok context →
      ∃ payload, CarriesPayload data payload ∧
        ∀ data' context', CarriesPayload data' payload →
          extractContext sj .openid4vpV1 "openid4vp-v1-multisigned" data' = .ok context' →
          context' = context) ∧
    ∀ protocol data data', protocol ≠ "openid4vp-v1-signed" →
      protocol ≠ "openid4vp-v1-multisigned" → SameBesidesRequest data data' →
      ∀ context, extractContext sj .openid4vpV1 protocol data = .ok context ↔
        extractContext sj .openid4vpV1 protocol data' = .ok context := by
  refine ⟨fun _ _ _ => extractContext_signed_iff, ?_, ?_, ?_⟩
  · intro data data' jws jws' payload hrequest hrequest' hjws hjws'
    rw [extractContext_signed hrequest hjws, extractContext_signed hrequest' hjws']
  · intro data context h
    obtain ⟨payload, hcarries, hcontext⟩ := extractContext_multisigned h
    refine ⟨payload, hcarries, fun data' context' hcarries' h' => ?_⟩
    obtain ⟨payload', hother, hcontext'⟩ := extractContext_multisigned h'
    rw [hother.unique hcarries', hcontext] at hcontext'
    exact (Except.ok.inj hcontext').symm
  · intro protocol data data' hsigned hmultisigned hsame context
    have hshape : Shape.of protocol = .inline := by
      cases hof : Shape.of protocol with
      | inline => rfl
      | compactJws => exact absurd (shape_compactJws_iff.mp hof) hsigned
      | jwsJson => exact absurd (shape_jwsJson_iff.mp hof) hmultisigned
    rw [extractContext_inline hshape, extractContext_inline hshape, objectContext_congr hsame]

/-- What a verifier signed. -/
def signedPayload : Value :=
  .ofMembers
    [("client_id", .string "verifier"),
     ("dcql_query", .ofMembers [("credentials", .array [.ofMembers
       [("id", .string "mdl"), ("format", .string "mso_mdoc")]])])]

/-- A compact JWS with this payload. -/
def signedJws (header signature : String) : String :=
  header ++ "." ++ Base64url.encode (utf8 signedPayload.compact) ++ "." ++ signature

theorem isCompactJws_signedJws {header signature : String} (hheader : header.toList ≠ [])
    (hdots : '.' ∉ header.toList) (hdots' : '.' ∉ signature.toList) :
    IsCompactJws (signedJws header signature) (Base64url.encode (utf8 signedPayload.compact)) := by
  have hpayload : '.' ∉ (Base64url.encode (utf8 signedPayload.compact)).toList ∧
      Base64url.encode (utf8 signedPayload.compact) ≠ "" := by decide +kernel
  refine ⟨header.toList, signature.toList, hheader, hpayload.2, hdots, hpayload.1, hdots', ?_⟩
  simp [signedJws]

/-- Another header, another signature, another client and an inline query make no difference. -/
theorem extractContext_payload_only_headers :
    ∃ context, context.signed = true ∧ context.clientId = some "verifier" ∧
      extractContext (.ofValues [signedPayload]) .openid4vpV1 "openid4vp-v1-signed"
        (.ofMembers [("request", .string (signedJws "e30" "AA"))]) = .ok context ∧
      extractContext (.ofValues [signedPayload]) .openid4vpV1 "openid4vp-v1-signed"
        (.ofMembers [("client_id", .string "other"), ("dcql_query", .null),
          ("request", .string (signedJws "e31" ""))]) = .ok context := by
  have hread : (extractContext (.ofValues [signedPayload]) .openid4vpV1 "openid4vp-v1-signed"
      (.ofMembers [("request", .string (signedJws "e30" "AA"))])).toOption.map
        (fun context => (context.signed, context.clientId)) = some (true, some "verifier") := by
    decide +kernel
  have hsame := (extractContext_payload_only (.ofValues [signedPayload])).2.1
    (.ofMembers [("request", .string (signedJws "e30" "AA"))])
    (.ofMembers [("client_id", .string "other"), ("dcql_query", .null),
      ("request", .string (signedJws "e31" ""))])
    (signedJws "e30" "AA") (signedJws "e31" "")
    (Base64url.encode (utf8 signedPayload.compact)) rfl rfl
    (isCompactJws_signedJws (by decide) (by decide) (by decide))
    (isCompactJws_signedJws (by decide) (by decide) (by decide))
  obtain ⟨context, hcontext, hread⟩ := exists_ok_of_toOption hread
  obtain ⟨hsigned, hclient⟩ := Prod.mk.inj hread
  exact ⟨context, hsigned, hclient, hcontext, hsame.symm.trans hcontext⟩

end DcMatcher
