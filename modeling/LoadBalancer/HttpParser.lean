import LoadBalancer.Dict
import LoadBalancer.PyText
import LoadBalancer.WhileLoop

/-! The HTTP/1.x parser on raw byte buffers: requests, their re-serialisation, and the framing of
responses by `Content-Length` or chunked `Transfer-Encoding`. -/

namespace LoadBalancer

open PyText ListSearch

def headerDelim : Bytes := [13, 10, 13, 10]

def lineDelim : Bytes := [13, 10]

theorem length_headerDelim : headerDelim.length = 4 := rfl

theorem length_lineDelim : lineDelim.length = 2 := rfl

/-- `get_response_content_length` of a complete header block without a `Content-Length`. -/
def contentLengthAbsent : Int := -2

/-! ### Requests -/

structure HttpRequest where
  method : Bytes
  path : Bytes
  version : Bytes
  headers : Dict Bytes Bytes
  body : Bytes
  rawHeaderBytes : Bytes
  headerLength : Nat

deriving instance DecidableEq for Dict, HttpRequest

/-- A header line cut at its first colon and stripped; lines without a colon are skipped. -/
def splitHeaderLine (line : Bytes) : Option (Bytes × Bytes) :=
  (find [58] line).map fun colon => (strip (line.take colon), strip (line.drop (colon + 1)))

/-- One turn of the header loop of `try_parse_request`. -/
def addHeaderLine (headers : Dict Bytes Bytes) (line : Bytes) : Dict Bytes Bytes :=
  match splitHeaderLine line with
  | none => headers
  | some (name, value) => headers.set name value

def getContentLength (headers : Dict Bytes Bytes) : Int :=
  match headers.items.find? fun item => lower item.1 = ascii "content-length" with
  | none => 0
  | some (_, value) => (int 10 value).getD 0

def tryParseRequest (buf : Bytes) : Option HttpRequest :=
  match find headerDelim buf with
  | none => none
  | some hdrEnd =>
      let headerLength := hdrEnd + headerDelim.length
      match split lineDelim (buf.take hdrEnd) with
      | [] => none
      | requestLine :: lines =>
          match splitMax 32 2 requestLine with
          | [method, path, version] =>
              let headers := lines.foldl addHeaderLine Dict.empty
              let totalNeeded : Int := headerLength + getContentLength headers
              if (buf.length : Int) < totalNeeded then none
              else
                some
                  { method := method
                    path := path
                    version := version
                    headers := headers
                    body := slice buf headerLength totalNeeded
                    rawHeaderBytes := buf.take headerLength
                    headerLength := headerLength }
          | _ => none

def injectForwardedFor (req : HttpRequest) (clientIp : Bytes) : HttpRequest :=
  match req.headers.items.find? fun item => lower item.1 = ascii "x-forwarded-for" with
  | some (existing, value) =>
      { req with headers := req.headers.set existing (value ++ ascii ", " ++ clientIp) }
  | none => { req with headers := req.headers.set (ascii "X-Forwarded-For") clientIp }

def serialiseRequest (req : HttpRequest) : Bytes :=
  let lines := (req.method ++ ascii " " ++ req.path ++ ascii " " ++ req.version) ::
    req.headers.items.map fun item => item.1 ++ ascii ": " ++ item.2
  lineDelim.intercalate lines ++ headerDelim ++ req.body

/-! ### Responses -/

/-- The status code and the reason, `none` where Python gives `(None, None)`. -/
def parseResponseStatus (buf : Bytes) : Option (Int × Bytes) :=
  match find lineDelim buf with
  | none => none
  | some stop =>
      match splitMax 32 2 (buf.take stop) with
      | _ :: code :: rest => (int 10 code).map fun code => (code, rest.headD [])
      | _ => none

/-- The header fields of a header block, its first line left out. -/
def headerFields (headerSection : Bytes) : List (Bytes × Bytes) :=
  (split lineDelim headerSection).tail.filterMap splitHeaderLine

def getResponseContentLength (buf : Bytes) : Int :=
  match find headerDelim buf with
  | none => -1
  | some hdrEnd =>
      match (headerFields (buf.take hdrEnd)).find? fun field =>
        lower field.1 = ascii "content-length" with
      | none => contentLengthAbsent
      | some (_, value) => (int 10 value).getD 0

/-- `"chunked" in [p.strip() for p in value.split(",")]` of a lowered value. -/
def listsChunked (value : Bytes) : Bool :=
  ((lower value).splitOn 44).any fun part => strip part = ascii "chunked"

def isChunkedResponse (buf : Bytes) : Option Bool :=
  match find headerDelim buf with
  | none => none
  | some hdrEnd =>
      match (headerFields (buf.take hdrEnd)).find? fun field =>
        lower field.1 = ascii "transfer-encoding" with
      | none => some false
      | some (_, value) => some (listsChunked value)

/-! ### The chunk scanner -/

/-- One turn of the loop of `try_consume_chunked_body` at `pos`: the next `pos`, or the value it
returns. The size is any integer that `int(token, 16)` reads, so `pos` can move backwards and become
negative, where Python's slices count from the end. -/
def consumeChunk (body : Bytes) (pos : Int) : Int ⊕ Option Nat :=
  match findFrom lineDelim body pos with
  | none => .inr none
  | some lineEnd =>
      let sizeLine := slice body pos lineEnd
      match int 16 (strip (sizeLine.takeWhile (· ≠ 59))) with
      | none => .inr none
      | some chunkSize =>
          let pos := lineEnd + lineDelim.length
          if chunkSize = 0 then
            match findFrom headerDelim body pos with
            | none =>
                if slice body pos (pos + lineDelim.length : Nat) = lineDelim then
                  .inr (some (pos + lineDelim.length))
                else .inr none
            | some trailerEnd => .inr (some (trailerEnd + headerDelim.length))
          else if (body.length : Int) < pos + (chunkSize + lineDelim.length) then .inr none
          else
            let pos : Int := pos + chunkSize
            if slice body pos (pos + lineDelim.length) ≠ lineDelim then .inr none
            else .inl (pos + lineDelim.length)

/-- `try_consume_chunked_body`; the outer `none` is a scan that never returns. Between turns `pos` is
between `-len(body)` and `len(body)`, so the bound on the turns cuts no scan that returns. -/
def tryConsumeChunkedBody (body : Bytes) : Option (Option Nat) :=
  WhileLoop.iterate (consumeChunk body) (2 * body.length + 1) 0

end LoadBalancer
