import SweGateway.Core.Http.Rest
import SweGateway.Lib.FoldedKeys

/-!
# The headers that `RestClient.send` sends

Header names are texts to the hash maps that hold them, and the same name to HTTP whatever the case
of their letters.  `completeHeaders_respects_iff` says when merging by text respects this: when the
request, the default headers and the authentication spell every name that they share the same way.
-/

namespace SweGateway

open FoldedKeys

/-- The name that a header key stands for. -/
def headerName (key : String) : List Char := key.toList.map Char.toLower

/-- The key under which the authentication sets a header, if it sets one. -/
def HttpAuth.headerKey : HttpAuth → Option String
  | .none => Option.none
  | .bearer _ | .basic _ _ => some "Authorization"
  | .apiKey header _ => some header

namespace RestClient

variable (it : IterOrder String String) (encode : String → String)

/-- The authentication's own headers. -/
def authHeaders (auth : HttpAuth) : HashMap String String := applyAuth encode auth ∅

/-- What `completeHeaders` merges, first what takes precedence. -/
def headerLayers (client : RestClient) (request : HttpRequest) : List (HashMap String String) :=
  [authHeaders encode client.auth, request.headers, client.config.defaultHeaders]

/-- The key is one of the request, the default headers or the authentication. -/
def SetsHeader (client : RestClient) (request : HttpRequest) (key : String) : Prop :=
  client.auth.headerKey = some key ∨ key ∈ request.headers ∨ key ∈ client.config.defaultHeaders

theorem getElem?_applyAuth (auth : HttpAuth) (headers : HashMap String String) (key : String) :
    (applyAuth encode auth headers)[key]? = (authHeaders encode auth)[key]?.or headers[key]? := by
  have hinsert : ∀ header value : String, (headers.insert header value)[key]? =
      ((∅ : HashMap String String).insert header value)[key]?.or headers[key]? := by
    intro header value
    rw [HashMap.getElem?_insert_ite, HashMap.getElem?_insert_ite]
    split
    · rfl
    · rw [Std.ExtTreeMap.getElem?_empty, Option.none_or]
  cases auth with
  | none => exact (Option.none_or).symm
  | bearer token => exact hinsert _ _
  | basic username password => exact hinsert _ _
  | apiKey header value => exact hinsert _ _

/-- The authentication sets the header of its key and no other. -/
theorem isSome_authHeaders_iff (auth : HttpAuth) (key : String) :
    (authHeaders encode auth)[key]?.isSome ↔ auth.headerKey = some key := by
  have hinsert : ∀ header value : String,
      ((∅ : HashMap String String).insert header value)[key]?.isSome ↔
        some header = some key := by
    intro header value
    rw [HashMap.getElem?_insert_ite, Option.some.injEq]
    by_cases h : header = key <;> simp [h]
  cases auth with
  | none => simp [authHeaders, applyAuth, HttpAuth.headerKey]
  | bearer token => exact hinsert _ _
  | basic username password => exact hinsert _ _
  | apiKey header value => exact hinsert _ _

/-- `completeHeaders` takes every key from the first of the layers that has it. -/
theorem getElem?_completeHeaders (client : RestClient) (request : HttpRequest) (key : String) :
    (client.completeHeaders it encode request.headers)[key]? =
      lookup (client.headerLayers encode request) key := by
  rw [completeHeaders, getElem?_applyAuth, getElem?_defaults, headerLayers, lookup_cons,
    lookup_cons, lookup_cons, lookup_nil, Option.or_none]

theorem isSome_lookup_headerLayers_iff (client : RestClient) (request : HttpRequest)
    (key : String) :
    (lookup (client.headerLayers encode request) key).isSome ↔ client.SetsHeader request key := by
  rw [headerLayers, lookup_cons, lookup_cons, lookup_cons, lookup_nil, Option.or_none,
    Option.isSome_or, Option.isSome_or, Bool.or_eq_true, Bool.or_eq_true,
    isSome_authHeaders_iff, SetsHeader, Std.ExtTreeMap.isSome_getElem?_iff_mem,
    Std.ExtTreeMap.isSome_getElem?_iff_mem]

/-- **The header merge respects header names** exactly if any two keys of the request, the default
headers and the authentication that stand for one name are the same text. -/
theorem completeHeaders_respects_iff (client : RestClient) (request : HttpRequest) :
    Respects headerName (client.headerLayers encode request)
        (client.completeHeaders it encode request.headers) ↔
      ∀ a b, client.SetsHeader request a → client.SetsHeader request b →
        headerName a = headerName b → a = b := by
  rw [respects_iff_spelledAlike headerName (getElem?_completeHeaders it encode client request),
    SpelledAlike]
  simp only [isSome_lookup_headerLayers_iff]

/-- A bearer token next to an `authorization` header of the request. -/
def lowercaseAuthorization : RestClient × HttpRequest :=
  ((withBaseUrl "https://api.example.com").withAuth (.bearer "t"),
    (HttpRequest.get "/users").withHeader "authorization" "Basic YTpi")

/-- The request is sent with both headers. -/
theorem not_respects_lowercaseAuthorization :
    DistinctNames headerName lowercaseAuthorization.2.headers ∧
      DistinctNames headerName lowercaseAuthorization.1.config.defaultHeaders ∧
      ¬Respects headerName (lowercaseAuthorization.1.headerLayers id lowercaseAuthorization.2)
        (lowercaseAuthorization.1.completeHeaders IterOrder.sorted id
          lowercaseAuthorization.2.headers) := by
  have hkey : ∀ key, lowercaseAuthorization.2.headers[key]?.isSome → key = "authorization" := by
    intro key hmem
    rw [Std.ExtTreeMap.isSome_getElem?_iff_mem] at hmem
    rcases Std.ExtTreeMap.mem_insert.mp hmem with hcmp | hnil
    · exact (Std.LawfulEqOrd.compare_eq_iff_eq.mp hcmp).symm
    · exact absurd hnil Std.ExtTreeMap.not_mem_empty
  refine ⟨fun a b ha hb _ => (hkey a ha).trans (hkey b hb).symm, ?_, ?_⟩
  · intro a b ha
    simp [lowercaseAuthorization, withAuth, withBaseUrl, new, HttpConfig.withBaseUrl] at ha
  · rw [respects_iff_spelledAlike headerName (getElem?_completeHeaders _ _ _ _)]
    intro h
    have heq := h "Authorization" "authorization"
      ((isSome_lookup_headerLayers_iff id _ _ _).mpr (.inl rfl))
      ((isSome_lookup_headerLayers_iff id _ _ _).mpr (.inr (.inl ?_))) (by decide)
    · exact absurd heq (by decide)
    · simp [lowercaseAuthorization, HttpRequest.withHeader]

end RestClient

end SweGateway
