import SweGateway.Api.Json
import SweGateway.Lib.Serde.Back

/-!
# HTTP types (`api/http.rs`)
-/

namespace SweGateway

open Serde

/-- HTTP client configuration. -/
structure HttpConfig where
  /-- Base URL for requests. -/
  baseUrl : Option String := none
  /-- Request timeout in seconds. -/
  timeoutSecs : UInt64 := 30
  /-- Connection timeout in seconds. -/
  connectTimeoutSecs : UInt64 := 10
  maxRetries : UInt32 := 3
  /-- Default headers to include in all requests. -/
  defaultHeaders : HashMap String String := ∅
  followRedirects : Bool := true
  maxRedirects : UInt32 := 10
  userAgent : Option String := some "swe-gateway/0.1.0"

namespace HttpConfig

instance : Inhabited HttpConfig := ⟨{}⟩

/-- A configuration with a base URL. -/
def withBaseUrl (baseUrl : String) : HttpConfig := { baseUrl := some baseUrl }

/-- Adds a default header. -/
def withHeader (c : HttpConfig) (name value : String) : HttpConfig :=
  { c with defaultHeaders := c.defaultHeaders.insert name value }

/-- How the configuration is serialized; missing fields have their defaults. -/
def struct : Struct HttpConfig :=
  let d : HttpConfig := default
  Struct.iso
    (.and "base_url" (Codec.string.optional (.ok d.baseUrl)) <|
      .and "timeout_secs" (Codec.u64.field (.ok d.timeoutSecs)) <|
      .and "connect_timeout_secs" (Codec.u64.field (.ok d.connectTimeoutSecs)) <|
      .and "max_retries" (Codec.u32.field (.ok d.maxRetries)) <|
      .and "default_headers" (Codec.map.field (.ok ∅)) <|
      .and "follow_redirects" (Codec.boolean.field (.ok d.followRedirects)) <|
      .and "max_redirects" (Codec.u32.field (.ok d.maxRedirects)) <|
      .field "user_agent" (Codec.string.optional (.ok d.userAgent)))
    { toFun := fun (baseUrl, timeoutSecs, connectTimeoutSecs, maxRetries, defaultHeaders,
          followRedirects, maxRedirects, userAgent) =>
        { baseUrl, timeoutSecs, connectTimeoutSecs, maxRetries, defaultHeaders, followRedirects,
          maxRedirects, userAgent }
      invFun := fun c => (c.baseUrl, c.timeoutSecs, c.connectTimeoutSecs, c.maxRetries,
        c.defaultHeaders, c.followRedirects, c.maxRedirects, c.userAgent)
      left_inv := fun _ => rfl
      right_inv := fun _ => rfl }

end HttpConfig

/-! ### Requests and responses -/

/-- HTTP method. -/
inductive HttpMethod where
  | get
  | post
  | put
  | patch
  | delete
  | head
  | options
  deriving DecidableEq, Repr

def HttpMethod.toString : HttpMethod → String
  | .get => "GET"
  | .post => "POST"
  | .put => "PUT"
  | .patch => "PATCH"
  | .delete => "DELETE"
  | .head => "HEAD"
  | .options => "OPTIONS"

/-- A part of a multipart form. -/
structure FormPart where
  name : String
  /-- Part filename (for file uploads). -/
  filename : Option String
  contentType : Option String
  data : List UInt8

/-- HTTP request body types. -/
inductive HttpBody where
  | json (value : Value)
  | raw (bytes : List UInt8)
  | form (fields : HashMap String String)
  | multipart (parts : List FormPart)

/-- An HTTP request. -/
structure HttpRequest where
  method : HttpMethod
  /-- Request URL (relative to the base URL if one is configured). -/
  url : String
  headers : HashMap String String := ∅
  /-- Query parameters. -/
  query : HashMap String String := ∅
  body : Option HttpBody := none

namespace HttpRequest

/-- A request without headers and body; `get`, `post`, `put` and `delete` are requests of this
form. -/
def ofMethod (method : HttpMethod) (url : String) : HttpRequest := { method := method, url := url }

def get (url : String) : HttpRequest := ofMethod .get url

def post (url : String) : HttpRequest := ofMethod .post url

def put (url : String) : HttpRequest := ofMethod .put url

def delete (url : String) : HttpRequest := ofMethod .delete url

/-- Adds a header. -/
def withHeader (request : HttpRequest) (name value : String) : HttpRequest :=
  { request with headers := request.headers.insert name value }

/-- Sets a JSON body.  A JSON value always serializes. -/
def withJson (request : HttpRequest) (body : Value) : HttpRequest :=
  { request with
    body := some (.json body)
    headers := request.headers.insert "Content-Type" "application/json" }

end HttpRequest

/-- An HTTP response. -/
structure HttpResponse where
  /-- HTTP status code. -/
  status : UInt16
  headers : HashMap String String := ∅
  body : List UInt8

namespace HttpResponse

/-- Whether the status indicates success (2xx). -/
def isSuccess (response : HttpResponse) : Bool := 200 ≤ response.status && response.status < 300

/-- Gets a header value, under the name as it is given or in lower case. -/
def header (toLowercase : String → String) (response : HttpResponse) (name : String) :
    Option String :=
  response.headers[name]?.or response.headers[toLowercase name]?

end HttpResponse

/-- Authentication method for HTTP requests. -/
inductive HttpAuth where
  | none
  | bearer (token : String)
  | basic (username password : String)
  | apiKey (header key : String)
  deriving DecidableEq, Repr

end SweGateway
