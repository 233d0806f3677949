import Mathlib.Data.List.DropRight
import SweGateway.Api.Http
import SweGateway.Api.Types

/-!
# The REST client (`core/http/rest.rs`)

`RestClient.send` completes the headers of a request, with the default headers of the configuration
and those of the authentication, and answers it with a mock response.  `completeHeaders` is the part
that works on the headers; it is a function of the order `it` in which the default headers are
visited.

What comes from other packages is a parameter: `encode` is the standard base64 encoding, and
`formatF64` prints the doubles of a JSON value.
-/

namespace SweGateway

/-- REST client implementation. -/
structure RestClient where
  config : HttpConfig
  auth : HttpAuth

namespace RestClient

/-! ### Construction -/

/-- A client with the given configuration. -/
def new (config : HttpConfig) : RestClient := { config := config, auth := .none }

/-- A client with a base URL. -/
def withBaseUrl (baseUrl : String) : RestClient := new (HttpConfig.withBaseUrl baseUrl)

/-- Sets the authentication method. -/
def withAuth (client : RestClient) (auth : HttpAuth) : RestClient := { client with auth := auth }

/-! ### Sending -/

variable (it : IterOrder String String) (encode : String → String) (formatF64 : F64 → String)

/-- Resolves a URL relative to the base URL. -/
def resolveUrl (client : RestClient) (url : String) : String :=
  match client.config.baseUrl with
  | some base =>
    if "http://".toList.isPrefixOf url.toList || "https://".toList.isPrefixOf url.toList then url
    else
      let base := String.ofList (base.toList.rdropWhile (· = '/'))
      let path := String.ofList (url.toList.dropWhile (· = '/'))
      base ++ "/" ++ path
  | none => url

/-- Applies authentication to headers. -/
def applyAuth (auth : HttpAuth) (headers : HashMap String String) :
    HashMap String String :=
  match auth with
  | .none => headers
  | .bearer token => headers.insert "Authorization" ("Bearer " ++ token)
  | .basic username password =>
    let credentials := username ++ ":" ++ password
    headers.insert "Authorization" ("Basic " ++ encode credentials)
  | .apiKey header key => headers.insert header key

/-- The headers of a request after the default headers and the authentication are applied. -/
def completeHeaders (client : RestClient) (headers : HashMap String String) :
    HashMap String String :=
  let headers := (HashMap.iter it client.config.defaultHeaders).foldl
    (fun headers e => headers.insertIfNew e.1 e.2) headers
  applyAuth encode client.auth headers

/-- Builds a mock response. -/
def mockResponse (client : RestClient) (request : HttpRequest) : HttpResponse :=
  let body : Value := .object [
    ("message", .string ("This is a mock response. Enable the 'reqwest' feature for real " ++
      "HTTP requests.")),
    ("method", .string request.method.toString),
    ("mock", .bool true),
    ("url", .string (client.resolveUrl request.url))]
  { status := 200
    headers := (∅ : HashMap String String).insert "content-type" "application/json"
    body := (body.toJson formatF64).toUTF8.data.toList }

def send (client : RestClient) (request : HttpRequest) : GatewayResult HttpResponse :=
  let request := { request with headers := client.completeHeaders it encode request.headers }
  .ok (client.mockResponse formatF64 request)

def get (client : RestClient) (url : String) : GatewayResult HttpResponse :=
  client.send it encode formatF64 (.get url)

def postJson (client : RestClient) (url : String) (body : Value) : GatewayResult HttpResponse :=
  client.send it encode formatF64 ((HttpRequest.post url).withJson body)

def putJson (client : RestClient) (url : String) (body : Value) : GatewayResult HttpResponse :=
  client.send it encode formatF64 ((HttpRequest.put url).withJson body)

def delete (client : RestClient) (url : String) : GatewayResult HttpResponse :=
  client.send it encode formatF64 (.delete url)

end RestClient

end SweGateway
