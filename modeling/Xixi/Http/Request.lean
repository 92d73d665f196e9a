import Xixi.Http.Text
import Xixi.Operation

/-!
# Requests (`Peer_Http`)

The bytes of a request are turned into an operation and its parameters, in the fields of the
connection. The parser only ever sets some of the fields, so what it computes depends on what
they hold before. Memory for copies (`request_buf_.prepare`) is always granted, so nothing is
answered with `XIXI_REASON_OUT_OF_MEMORY` here.

1. `Params`: the fields, and what `reset_for_new_cmd` makes of them.
2. `processRequestHeader`: the request line and the header fields.
3. `processRequestArg`, `processCommand`: the uri.
4. `processPost`: the body. The parser for `multipart/form-data` may leave the body; from there
   on nothing is defined, and there is no result.
-/

namespace Xixi.Http
open Lib

/-- What the server is configured with, and what the peer takes from elsewhere. -/
structure Settings where
  itemSizeMax : Nat
  managerBaseUrl : Bytes
  homeDir : Bytes
  welcomeFileList : List Bytes
  defaultCacheExpiration : Nat
  minGzipSize : Nat
  maxGzipSize : Nat
  mimeType : Bytes → Option Bytes
  isGzipMimeType : Bytes → Bool
  defaultMimeType : Bytes
  defaultMimeType_le : defaultMimeType.length ≤ 128
  /-- The elements of a `boost::filesystem::path`. -/
  pathElements : Bytes → List Bytes
  /-- What `deflate` makes of the data; `none` if `deflateInit2` fails. -/
  deflate : Bytes → Option Bytes
  crc32 : Bytes → Nat
  /-- The bytes that stand behind the literal `"watch"` and its terminator. -/
  behindWatch : Bytes

inductive Method
  | get
  | post
  | head
deriving DecidableEq, Repr

/-- `Http_Request`. -/
structure HttpRequest where
  http11 : Bool := false
  keepalive : Bool := false
  acceptGzip : Bool := false
  method : Option Method := none
  uri : Bytes := []
  contentType : Bytes := []
  entityTag : Bytes := []
  boundary : Bytes := []
deriving DecidableEq, Repr

/-- The fields of `Peer_Http` that the parser fills. -/
structure Params where
  http : HttpRequest := {}
  groupId : Nat := 0
  watchId : Nat := 0
  cacheId : Nat := 0
  key : Text := .null
  value : Text := .null
  valueContentType : Bytes := []
  contentLength : Nat := 0
  flags : Nat := 0
  expiration : Nat := 0
  touchFlag : Bool := false
  delta : Int := 1
  ackSequence : Nat := 0
  interval : Nat := 120
  timeout : Nat := 30
  subOp : Nat := 0
deriving DecidableEq, Repr

/-- `reset_for_new_cmd`. -/
def Params.new : Params := {}

/-- `xixi_reason`, as far as `Peer_Http` uses it. -/
inductive Reason
  | cache (reason : Xixi.Reason)
  | authError
  | invalidParameter
  | unknownCommand
  | movedPermanently
deriving DecidableEq, Repr

/-- What a request asks for. -/
inductive Operation
  | error (reason : Reason)
  | get
  | getBase
  | update (verb : Verb)
  | delete
  | delta (incr : Bool)
  | flush
  | touch
  | updateFlags
  | stats
  | watch
  | createWatch
deriving DecidableEq, Repr

/-! ## The header -/

namespace HttpRequest

/-- The `content-type` field. -/
def setContentType (h : HttpRequest) (value : Bytes) : HttpRequest :=
  if 33 < value.length ∧ strcasecmp (value.take 33) (ascii "application/x-www-form-urlencoded") then
    { h with contentType := value.take 33 }
  else if 30 < value.length ∧ strcasecmp (value.take 19) (ascii "multipart/form-data") then
    match cut (ascii "boundary=") (cString (value.drop 19)) with
    | some (before, _) =>
      { h with contentType := value.take 19, boundary := value.drop (19 + before.length + 9) }
    | none => { h with contentType := value.take 19 }
  else { h with contentType := value }

end HttpRequest

namespace Params

variable (p : Params)

/-- `handle_request_header_field`; a terminator has been written behind the value. -/
def handleRequestHeaderField (name value : Bytes) : Bool × Params :=
  if name.length = 10 then
    if strcasecmp name (ascii "Connection") ∧
        10 ≤ value.length ∧ strcasecmp (value.take 10) (ascii "Keep-Alive") then
      (true, { p with http := { p.http with keepalive := true } })
    else (true, p)
  else if name.length = 12 then
    if strcasecmp name (ascii "content-type") ∧ 0 < value.length then
      (true, { p with http := p.http.setContentType value })
    else (true, p)
  else if name.length = 13 then
    if strcasecmp name (ascii "if-none-match") then
      (true, { p with http := { p.http with entityTag := value } })
    else (true, p)
  else if name.length = 14 then
    if strcasecmp name (ascii "content-length") then
      match safeToui 32 (.copy value) with
      | some n => (true, { p with contentLength := n })
      | none => (false, p)
    else (true, p)
  else if name.length = 15 then
    if strcasecmp name (ascii "Accept-Encoding") then
      (true, { p with http :=
        { p.http with acceptGzip := (memfind value (ascii "gzip")).isSome } })
    else (true, p)
  else (true, p)

/-- The loop of `process_request_header_fields`: a name goes up to the next colon, a value to the
end of its line. Every iteration takes a byte at least. -/
def processRequestHeaderFields (p : Params) : Nat → Bytes → Bool × Params
  | 0, _ => (true, p)
  | fuel + 1, data =>
    match memchr data 58 with
    | none => (true, p)
    | some (name, rest) =>
      let value := rest.dropWhile (· = 32)
      match memchr value 10 with
      | some (v, rest) =>
        let v := if v.getLast? = some 13 then v.dropLast else v
        match p.handleRequestHeaderField name v with
        | (true, p) => processRequestHeaderFields p fuel rest
        | (false, p) => (false, p)
      | none => p.handleRequestHeaderField name value

end Params

/-- `IS_METHOD`, and where the uri starts. -/
def Method.ofLine (line : Bytes) : Option (Method × Nat) :=
  if line.take 4 = ascii "GET " then some (.get, 4)
  else if line.take 4 = ascii "POST" then some (.post, 5)
  else if line.take 4 = ascii "HEAD" then some (.head, 5)
  else none

/-- How `process_request_header` ends: with `write_error`, waiting for the body, or with
`process_command`. -/
inductive Outcome
  | error (reason : Reason)
  | readBody
  | command
deriving DecidableEq, Repr

/-- The header without the empty line that ends it. -/
def processRequestHeader (s : Settings) (p : Params) (header : Bytes) : Outcome × Params :=
  let (line, fields) := (memfind header crlf).getD (header, [])
  if 6 ≤ line.length then
    let p := if line.drop (line.length - 3) = ascii "1.1" then
        { p with http := { p.http with http11 := true, keepalive := true } }
      else p
    match Method.ofLine line with
    | none => (.error .invalidParameter, p)
    | some (method, offset) =>
      let target := line.drop offset
      let uri := ((memchr target 32).map Prod.fst).getD target
      let p := { p with http := { p.http with method := some method, uri := uri } }
      match p.processRequestHeaderFields (fields.length + 1) fields with
      | (false, p) => (.error .invalidParameter, p)
      | (true, p) =>
        if method = .post ∧ 0 < p.contentLength then
          if s.itemSizeMax * 3 % 2 ^ 32 < p.contentLength then (.error (.cache .tooLarge), p)
          else (.readBody, p)
        else (.command, p)
  else (.error .invalidParameter, p)

/-! ## The arguments and the command -/

namespace Params

variable (p : Params)

/-- A number that is stored if there is one. -/
def number {ν : Type} (r : Option ν) (set : ν → Params) : Bool × Params :=
  match r with
  | some n => (true, set n)
  | none => (false, p)

/-- The argument called `letter`. `decode` makes a text of the value. -/
def store (letter : UInt8) (value : Text) (decode : Text → Text) : Bool × Params :=
  if letter = 'g'.toUInt8 then p.number (safeToui 32 value) fun n => { p with groupId := n }
  else if letter = 'w'.toUInt8 then p.number (safeToui 32 value) fun n => { p with watchId := n }
  else if letter = 'k'.toUInt8 then (true, { p with key := decode value })
  else if letter = 'v'.toUInt8 then (true, { p with value := decode value })
  else if letter = 'f'.toUInt8 then p.number (safeToui 32 value) fun n => { p with flags := n }
  else if letter = 'c'.toUInt8 then p.number (safeToui 64 value) fun n => { p with cacheId := n }
  else if letter = 'd'.toUInt8 then
    p.number (safeToi64 (memOf value.mem) value.length) fun n => { p with delta := n }
  else if letter = 'e'.toUInt8 then
    let p := { p with touchFlag := true }
    p.number (safeToui 32 value) fun n => { p with expiration := n }
  else if letter = 'a'.toUInt8 then
    p.number (safeToui 32 value) fun n => { p with ackSequence := n }
  else if letter = 'i'.toUInt8 then p.number (safeToui 32 value) fun n => { p with interval := n }
  else if letter = 't'.toUInt8 then p.number (safeToui 32 value) fun n => { p with timeout := n }
  else if letter = 's'.toUInt8 then p.number (safeToui 32 value) fun n => { p with subOp := n }
  else (true, p)

/-- One argument, `x=value`. -/
def processArg : Bytes → Bool × Params
  | letter :: 61 :: value => p.store letter (.copy value) fun t => .copy (decodeUri t.bytes)
  | _ => (true, p)

def processArgs (p : Params) : List Bytes → Bool × Params
  | [] => (true, p)
  | arg :: args =>
    match p.processArg arg with
    | (true, p) => processArgs p args
    | (false, p) => (false, p)

/-- `process_request_arg`; `get_arg` ends an argument at the next `&`. -/
def processRequestArg (args : Bytes) : Bool × Params := p.processArgs (args.splitOn 38)

end Params

/-- The table of `process_command`. `memcmp` looks at ten bytes for `watch`, a literal of five. -/
def commandOf (behindWatch : Bytes) (cmdLength : Nat) (cmd : Bytes) : Operation :=
  if cmdLength = 3 then
    if cmd.take 3 = ascii "get" then .get
    else if cmd.take 3 = ascii "set" then .update .set
    else if cmd.take 3 = ascii "add" then .update .add
    else if cmd.take 3 = ascii "del" then .delete
    else .error .invalidParameter
  else if cmdLength = 4 then
    if cmd.take 4 = ascii "incr" then .delta true
    else if cmd.take 4 = ascii "decr" then .delta false
    else .error .invalidParameter
  else if cmdLength = 5 then
    if cmd.take 5 = ascii "flush" then .flush
    else if cmd.take 5 = ascii "touch" then .touch
    else if cmd.take 5 = ascii "flags" then .updateFlags
    else if cmd.take 5 = ascii "stats" then .stats
    else .error .invalidParameter
  else if cmdLength = 6 then
    if cmd.take 6 = ascii "append" then .update .append else .error .invalidParameter
  else if cmdLength = 7 then
    if cmd.take 7 = ascii "replace" then .update .replace
    else if cmd.take 7 = ascii "prepend" then .update .prepend
    else if cmd.take 7 = ascii "getbase" then .getBase
    else .error .invalidParameter
  else if cmdLength = 10 then
    if cmd.take 10 = ascii "watch" ++ 0 :: behindWatch.take 4 then .watch
    else .error .invalidParameter
  else if cmdLength = 11 then
    if cmd.take 11 = ascii "createwatch" then .createWatch else .error .invalidParameter
  else .error .invalidParameter

def processCommand (s : Settings) (p : Params) : Operation × Params :=
  let uri := p.http.uri
  let size := s.managerBaseUrl.length
  if p.http.method ≠ some .head ∧ s.managerBaseUrl <+: uri then
    match strrchr (cString uri) 63 with
    | some (before, args) =>
      match p.processRequestArg args with
      | (true, p) =>
        (commandOf s.behindWatch ((before.length + (2 ^ 32 - size)) % 2 ^ 32) (uri.drop size), p)
      | (false, p) => (.error .invalidParameter, p)
    | none => (commandOf s.behindWatch (uri.length - size) (uri.drop size), p)
  else (.get, { p with key := .copy uri })

/-! ## The body -/

namespace Params

variable (p : Params)

/-- The `Content-Type` of a part with a value; `name` is the memory behind the part's name. -/
def partContentType (name : Bytes) : Option Params := do
  match ← strstr name (ascii "\r\nContent-Type:") with
  | none => some p
  | some contentType =>
    let contentType := (contentType.drop 15).dropWhile (· = 32)
    match ← strstr contentType crlf with
    | none => some p
    | some rest =>
      let length := contentType.length - rest.length
      if length < 128 then some { p with valueContentType := contentType.take length } else some p

/-- The loop of `process_post` over the parts; `buf` is the memory from a boundary on. Every
iteration goes beyond a boundary. -/
def processParts (boundary : Bytes) (p : Params) : Nat → Bytes → Option (Bool × Params)
  | 0, _ => some (true, p)
  | fuel + 1, buf => do
    match ← strstr (buf.drop (boundary.length + 2)) (ascii " name=\"") with
    | none => some (true, p)
    | some part =>
      let name := part.drop 7
      let nameLength := ((← strstr name (ascii "\"")).map fun r => name.length - r.length).getD 0
      let p ← if nameLength = 1 ∧ name.head? = some 'v'.toUInt8 then p.partContentType (name.drop 2)
        else some p
      match ← strstr (name.drop 2) (crlf ++ crlf) with
      -- `value` is NULL, and `memfind` follows it
      | none => none
      | some value =>
        let value := value.drop 4
        match memfind value.dropLast boundary with
        | none => some (true, p)
        | some (v, _) =>
          let text : Text := ⟨value, (v.length + (2 ^ 32 - 4)) % 2 ^ 32⟩
          match if nameLength = 1 then p.store (name.headD 0) text id else (true, p) with
          | (true, p) => processParts boundary p fuel (value.drop v.length)
          | (false, p) => some (false, p)

end Params

/-- `process_post`, with a terminator behind the body. -/
def processPost (s : Settings) (p : Params) (body : Bytes) : Option (Operation × Params) :=
  if strcasecmp p.http.contentType (ascii "application/x-www-form-urlencoded") then
    match p.processRequestArg (cString body) with
    | (true, p) => some (processCommand s p)
    | (false, p) => some (.error .invalidParameter, p)
  else if strcasecmp p.http.contentType (ascii "multipart/form-data") ∧ p.http.boundary ≠ [] then
    match memfind body p.http.boundary with
    | none => some (processCommand s p)
    | some (before, _) =>
      match p.processParts p.http.boundary body.length ((body ++ [0]).drop before.length) with
      | some (true, p) => some (processCommand s p)
      | some (false, p) => some (.error .invalidParameter, p)
      | none => none
  else some (.error .invalidParameter, p)

end Xixi.Http
