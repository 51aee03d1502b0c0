import WombatKV.Daemon.Envelope
import WombatKV.Daemon.Wire
import WombatKV.Foundation.Search

/-! The HTTP server: how it cuts a stream into requests and serves them. -/

namespace WombatKV

open List

section

open Call

def rpcPath : Text := "/wmbt/v1/rpc".toList

def pingPath : Text := "/wmbt/v1/ping".toList

def contentType : Text := "application/x-wombatkv-rkyv".toList

def maxBodyBytes : Nat := 256 * 1024 * 1024

/-- How much is buffered without finding the end of a head. -/
def maxHeadBytes : Nat := 16 * 1024

def readChunkBytes : Nat := 4096

inductive HeaderError
  | malformedHeader (line : Text)
  | badContentLength (value : Text)
  deriving DecidableEq, Repr

/-- Why the server gives a connection up. -/
inductive HttpServerError
  | unexpectedEof (message : String)
  | headTooLarge
  | headNotUtf8
  | missingRequestLine
  | malformedRequestLine (line : Text)
  | header (error : HeaderError)
  | envelope (error : EnvelopeError)
  | wireRequest
  | dispatchAsync (error : String)
  | responseTooLarge
  deriving DecidableEq, Repr

/-- What the server makes of a head. -/
structure RequestHead where
  method : Text
  path : Text
  contentLength : Option Nat
  keepAlive : Bool
  deriving DecidableEq, Repr

def doubleCrlf : Bytes := ascii "\r\n\r\n"

def findDoubleCrlf (buf : Bytes) : Option Nat := (splitAtFirst doubleCrlf buf).map (·.1.length)

/-- The two headers that are looked at, of which the last one counts. -/
structure FoundHeaders where
  contentLength : Option Nat
  connection : Option Text
  deriving DecidableEq, Repr

/-- One line behind the first one; server and client read it the same way. -/
def parseHeaderLine (found : FoundHeaders) (line : Text) : Except HeaderError FoundHeaders :=
  if line = [] then .ok found
  else
    match splitOnce ':' line with
    | none => .error (.malformedHeader line)
    | some (before, behind) =>
      let name := toAsciiLowercase (trim before)
      let value := trim behind
      if name = "content-length".toList then
        match parseUsize value with
        | some length => .ok { found with contentLength := some length }
        | none => .error (.badContentLength value)
      else if name = "connection".toList then
        .ok { found with connection := some (toAsciiLowercase value) }
      else .ok found

/-- Whether the connection stays open behind a request. -/
def keepsAlive (httpVersion : Text) (connection : Option Text) : Bool :=
  if connection = some "close".toList then false
  else if connection = some "keep-alive".toList then true
  else toAsciiLowercase httpVersion = toAsciiLowercase "HTTP/1.1".toList

/-- What a head says, from the bytes before its end. -/
def parseHttpHeadFromBuf (headBytes : Bytes) : Except HttpServerError RequestHead :=
  match fromUtf8 headBytes with
  | none => .error .headNotUtf8
  | some headStr =>
    match splitCrlf headStr with
    | [] => .error .missingRequestLine
    | requestLine :: lines =>
      match splitWhitespace requestLine with
      | method :: path :: httpVersion :: _ => do
        let found ← (lines.foldlM parseHeaderLine ⟨none, none⟩).mapError .header
        return ⟨method, path, found.contentLength, keepsAlive httpVersion found.connection⟩
      | _ => .error (.malformedRequestLine requestLine)

inductive HttpEvent
  | parsed (head : Bytes)
  | dispatched (request : WireRequest)
  | responded (bytes : Bytes)
  deriving DecidableEq, Repr

/-- A connection: the socket, what was read ahead, the daemon behind it, and what was done. -/
structure HttpConnection (σ : Type) where
  socket : Socket
  buf : Bytes
  daemon : σ
  events : List HttpEvent

/-- Whether the connection is used for another request. -/
inductive RouteOutcome
  | continueKeepAlive
  | closeConnection
  deriving DecidableEq, Repr

section Connection

variable {σ : Type}

def note (event : HttpEvent) : Call HttpServerError (HttpConnection σ) Unit :=
  modify fun line => { line with events := line.events ++ [event] }

def drain (count : Nat) : Call HttpServerError (HttpConnection σ) Unit :=
  modify fun line => { line with buf := line.buf.drop count }

/-- Read at most so much into the buffer, and say whether there was anything. -/
def readIntoBuf (room : Nat) : Call HttpServerError (HttpConnection σ) Bool := do
  let line ← get
  let (chunk, socket) := line.socket.read room
  set { line with socket := socket, buf := line.buf ++ chunk }
  return chunk ≠ []

/-- Read on until a head ends; every turn but the last one brings at least a byte. -/
def headTurns : Nat → Call HttpServerError (HttpConnection σ) Nat
  | 0 => throw (.unexpectedEof "peer closed before head terminator")
  | turns + 1 => do
    let line ← get
    if maxHeadBytes < line.buf.length then throw .headTooLarge
    else if ← readIntoBuf readChunkBytes then
      let line ← get
      match findDoubleCrlf line.buf with
      | some pos => return pos + 4
      | none => headTurns turns
    else throw (.unexpectedEof "peer closed before head terminator")

/-- Where the body of the next request starts in the buffer. -/
def readUntilDoubleCrlf : Call HttpServerError (HttpConnection σ) Nat := do
  let line ← get
  match findDoubleCrlf line.buf with
  | some pos => return pos + 4
  | none => headTurns (line.socket.incoming.length + 1)

/-- Read on until the buffer holds a whole body. -/
def bodyTurns (len : Nat) : Nat → Call HttpServerError (HttpConnection σ) Unit
  | 0 => throw (.unexpectedEof "peer closed mid-body")
  | turns + 1 => do
    let line ← get
    if len ≤ line.buf.length then return ()
    else if ← readIntoBuf (min (len - line.buf.length) readChunkBytes) then bodyTurns len turns
    else throw (.unexpectedEof "peer closed mid-body")

def responseHead (status : UInt16) (reason contentType : Text) (length : Nat) (keepAlive : Bool) :
    Text :=
  "HTTP/1.1 ".toList ++ natText status.toNat ++ ' ' :: reason ++ "\r\n".toList ++
    "Content-Type: ".toList ++ contentType ++ "\r\n".toList ++
    "Content-Length: ".toList ++ natText length ++ "\r\n".toList ++
    "Connection: ".toList ++ (if keepAlive then "keep-alive".toList else "close".toList) ++
    "\r\n\r\n".toList

def writeResponse (status : UInt16) (reason contentType : Text) (body : Bytes) (keepAlive : Bool) :
    Call HttpServerError (HttpConnection σ) Unit :=
  note (.responded (utf8 (responseHead status reason contentType body.length keepAlive) ++ body))

def afterResponse (keepAlive : Bool) : RouteOutcome :=
  if keepAlive then .continueKeepAlive else .closeConnection

variable (crc32c : Bytes → UInt32) (requests : Archive WireRequest)
  (responses : Archive WireResponse) (dispatch : WireRequest → Call String σ WireResponse)

def dispatchAsync (request : WireRequest) : Call HttpServerError (HttpConnection σ) WireResponse :=
  mapError .dispatchAsync (on (·.daemon) (fun daemon line => { line with daemon := daemon })
    (dispatch request))

/-- Answer a request whose body has the given length and is not yet read. -/
def processRpc (len : Nat) (keepAlive : Bool) :
    Call HttpServerError (HttpConnection σ) RouteOutcome := do
  let line ← get
  bodyTurns len (line.socket.incoming.length + 1)
  let line ← get
  match decodeEnvelope crc32c (line.buf.take len) with
  | .error error => throw (.envelope error)
  | .ok reqBytes =>
    match requests.fromBytes reqBytes with
    | none => throw .wireRequest
    | some req =>
      drain len
      note (.dispatched req)
      let response ← dispatchAsync dispatch req
      match encodeEnvelope crc32c (responses.toBytes response) with
      | none => throw .responseTooLarge
      | some wire =>
        writeResponse 200 "OK".toList contentType wire keepAlive
        return afterResponse keepAlive

/-- Answer a request whose head was parsed. -/
def processHttpRoute (head : RequestHead) (bodyStart : Nat) :
    Call HttpServerError (HttpConnection σ) RouteOutcome :=
  if head.method = "GET".toList ∧ head.path = pingPath then do
    drain bodyStart
    writeResponse 200 "OK".toList "text/plain".toList [] head.keepAlive
    return afterResponse head.keepAlive
  else if ¬ (head.method = "POST".toList ∧ head.path = rpcPath) then do
    drain bodyStart
    writeResponse 404 "Not Found".toList "text/plain".toList (ascii "unknown route") head.keepAlive
    return afterResponse head.keepAlive
  else
    match head.contentLength with
    | none => do
      writeResponse 411 "Length Required".toList "text/plain".toList
        (ascii "missing Content-Length") false
      return .closeConnection
    | some len =>
      if maxBodyBytes < len then do
        writeResponse 413 "Payload Too Large".toList "text/plain".toList
          (utf8 ("body ".toList ++ natText len ++ " > MAX_BODY_BYTES ".toList ++
            natText maxBodyBytes)) false
        return .closeConnection
      else do
        drain bodyStart
        processRpc crc32c requests responses dispatch len head.keepAlive

/-- Where the next body starts, or nothing if the peer has closed. -/
def nextBodyStart : Call HttpServerError (HttpConnection σ) (Option Nat) :=
  tryCatch (do return some (← readUntilDoubleCrlf)) fun error =>
    match error with
    | .unexpectedEof _ => return none
    | error => throw error

/-- One turn of the connection loop: wait for a head, parse it and route the request. -/
def httpTurn : Call HttpServerError (HttpConnection σ) RouteOutcome := do
  match ← nextBodyStart with
  | none => return .closeConnection
  | some bodyStart =>
    let line ← get
    let headBytes := line.buf.take (bodyStart - 4)
    note (.parsed headBytes)
    let head ← lift (parseHttpHeadFromBuf headBytes)
    processHttpRoute crc32c requests responses dispatch head bodyStart

def httpTurns : Nat → Call HttpServerError (HttpConnection σ) Unit
  | 0 => pure ()
  | turns + 1 => do
    match ← httpTurn crc32c requests responses dispatch with
    | .continueKeepAlive => httpTurns turns
    | .closeConnection => return ()

/-- A connection until its end; each turn takes at least the end of a head off what is unread. -/
def handleHttpConnection : Call HttpServerError (HttpConnection σ) Unit := do
  let line ← get
  httpTurns crc32c requests responses dispatch (line.buf.length + line.socket.incoming.length)

end Connection

end

def isVisible (char : Char) : Bool := 33 ≤ char.toNat && char.toNat ≤ 126

structure HttpField where
  name : Text
  value : Text
  deriving DecidableEq, Repr

namespace HttpField

def named (field : HttpField) (name : String) : Bool := toAsciiLowercase field.name = name.toList

def line (field : HttpField) : Text := field.name ++ ':' :: field.value

structure WellFormed (field : HttpField) : Prop where
  name_ne_nil : field.name ≠ []
  name_visible : ∀ char ∈ field.name, isVisible char = true ∧ char ≠ ':'
  value_oneLine : ∀ char ∈ field.value, char ≠ '\r' ∧ char ≠ '\n'

theorem named_eq (spelled value : Text) (name : String) :
    HttpField.named ⟨spelled, value⟩ name = decide (toAsciiLowercase spelled = name.toList) := rfl

theorem WellFormed.of_parts {name value : Text} (nonempty : name ≠ [])
    (visible : ∀ char ∈ name, isVisible char = true ∧ char ≠ ':')
    (oneLine : ∀ char ∈ value, char ≠ '\r' ∧ char ≠ '\n') : WellFormed ⟨name, value⟩ :=
  ⟨nonempty, visible, oneLine⟩

theorem WellFormed.of_all {name value : Text} (nonempty : name ≠ [])
    (visible : name.all fun char => isVisible char = true ∧ char ≠ ':')
    (oneLine : value.all fun char => char ≠ '\r' ∧ char ≠ '\n') : WellFormed ⟨name, value⟩ :=
  .of_parts nonempty (all_iff_forall_prop.mp visible) (all_iff_forall_prop.mp oneLine)

end HttpField

/-- A well-formed request that leaves the connection open and states its length truly. -/
structure HttpRequest where
  method : Text
  target : Text
  fields : List HttpField
  body : Bytes
  method_ne_nil : method ≠ []
  method_visible : ∀ char ∈ method, isVisible char = true
  target_ne_nil : target ≠ []
  target_visible : ∀ char ∈ target, isVisible char = true
  fields_wellFormed : ∀ field ∈ fields, field.WellFormed
  lengths : ∀ field ∈ fields, field.named "content-length" = true →
    trim field.value ≠ [] ∧ digitsValue 0 (trim field.value) = some body.length
  framed : body ≠ [] → ∃ field ∈ fields, field.named "content-length" = true
  stays_open : ∀ field ∈ fields, field.named "connection" = true →
    toAsciiLowercase (trim field.value) ≠ "close".toList

namespace HttpRequest

def requestLine (request : HttpRequest) : Text :=
  request.method ++ ' ' :: (request.target ++ ' ' :: "HTTP/1.1".toList)

def fieldLines (fields : List HttpField) : Text :=
  fields.flatMap fun field => '\r' :: '\n' :: field.line

def headBytes (request : HttpRequest) : Bytes :=
  utf8 (request.requestLine ++ fieldLines request.fields)

def bytes (request : HttpRequest) : Bytes := request.headBytes ++ (doubleCrlf ++ request.body)

def contentLength (request : HttpRequest) : Option Nat :=
  if request.fields.any (·.named "content-length") then some request.body.length else none

def isRpc (request : HttpRequest) : Bool :=
  request.method = "POST".toList ∧ request.target = rpcPath

def lengthField (length : Nat) : HttpField := ⟨"Content-Length".toList, ' ' :: natText length⟩

theorem lengthField_eq (length : Nat) :
    lengthField length = ⟨"Content-Length".toList, ' ' :: natText length⟩ := rfl

theorem lengthField_wellFormed (length : Nat) : (lengthField length).WellFormed := by
  refine .of_parts (by decide) (all_iff_forall_prop.mp (by decide))
    (forall_mem_cons.mpr ⟨by decide, ?_⟩)
  intro char member
  refine ⟨?_, ?_⟩
  · rintro rfl
    exact not_mem_natText (by decide) _ member
  · rintro rfl
    exact not_mem_natText (by decide) _ member

theorem lengthField_says (length : Nat) : trim (lengthField length).value ≠ [] ∧
    digitsValue 0 (trim (lengthField length).value) = some length := by
  have trimmed : trim (lengthField length).value = natText length := by
    show trim (' ' :: natText length) = natText length
    rw [trim_cons_of_whitespace (by decide), trim_of_not_whitespace]
    exact fun char member => isWhitespace_of_isDigit (natText_isDigit _ char member)
  rw [trimmed]
  exact ⟨Nat.toDigits_ne_nil, digitsValue_natText _⟩

theorem lengthField_named (length : Nat) : (lengthField length).named "content-length" = true :=
  (HttpField.named_eq _ _ _).trans (by decide)

theorem lengthField_not_named (length : Nat) :
    ¬ (lengthField length).named "connection" = true := by
  rw [Bool.not_eq_true]
  exact (HttpField.named_eq _ _ _).trans (by decide)

def clientFields (host : Text) (length : Nat) : List HttpField :=
  [⟨"Host".toList, ' ' :: host⟩, ⟨"Content-Type".toList, ' ' :: contentType⟩, lengthField length,
    ⟨"Connection".toList, " keep-alive".toList⟩]

def posted (host : Text) (oneLine : ∀ char ∈ host, char ≠ '\r' ∧ char ≠ '\n') (body : Bytes) :
    HttpRequest where
  method := "POST".toList
  target := rpcPath
  fields := clientFields host body.length
  body := body
  method_ne_nil := by decide
  method_visible := all_iff_forall_prop.mp (by decide)
  target_ne_nil := by decide
  target_visible := all_iff_forall_prop.mp (by decide)
  fields_wellFormed := by
    simp only [clientFields, forall_mem_cons]
    exact ⟨.of_parts (by decide) (all_iff_forall_prop.mp (by decide))
        (forall_mem_cons.mpr ⟨by decide, oneLine⟩),
      .of_all (by decide) (by decide) (by decide), lengthField_wellFormed _,
      .of_all (by decide) (by decide) (by decide), by simp⟩
  lengths := by
    simp only [clientFields, forall_mem_cons, HttpField.named_eq]
    exact ⟨fun named => absurd named (by decide), fun named => absurd named (by decide),
      fun _ => lengthField_says _, fun named => absurd named (by decide), by simp⟩
  framed _ := ⟨lengthField body.length, by simp [clientFields], lengthField_named _⟩
  stays_open := by
    simp only [clientFields, forall_mem_cons, HttpField.named_eq]
    exact ⟨fun named => absurd named (by decide), fun named => absurd named (by decide),
      fun named => absurd named (lengthField_not_named _), fun _ => by decide, by simp⟩

def pinged (body : Bytes) : HttpRequest where
  method := "GET".toList
  target := pingPath
  fields := [lengthField body.length]
  body := body
  method_ne_nil := by decide
  method_visible := all_iff_forall_prop.mp (by decide)
  target_ne_nil := by decide
  target_visible := all_iff_forall_prop.mp (by decide)
  fields_wellFormed := by simpa using lengthField_wellFormed _
  lengths := by simpa using fun _ => lengthField_says _
  framed _ := ⟨lengthField body.length, mem_singleton_self _, lengthField_named _⟩
  stays_open := by
    simp only [forall_mem_cons]
    exact ⟨fun named => absurd named (lengthField_not_named _), by simp⟩

section Served

variable (crc32c : Bytes → UInt32) (requests : Archive WireRequest)

def wireRequest (request : HttpRequest) : Option WireRequest :=
  (decodeEnvelope crc32c request.body).toOption.bind requests.fromBytes

/-- What the server asks of a request: a length, an envelope, or no body at all. -/
structure Serviceable (request : HttpRequest) : Prop where
  head_fits : request.headBytes.length + 4 ≤ maxHeadBytes + 1
  bodiless : request.isRpc = false → request.body = []
  measured : request.isRpc = true → request.contentLength = some request.body.length
  body_fits : request.isRpc = true → request.body.length ≤ maxBodyBytes
  decodes : request.isRpc = true → (request.wireRequest crc32c requests).isSome = true

end Served

end HttpRequest

def HttpEvent.head? : HttpEvent → Option Bytes
  | .parsed head => some head
  | _ => none

def HttpEvent.request? : HttpEvent → Option WireRequest
  | .dispatched request => some request
  | _ => none

end WombatKV
