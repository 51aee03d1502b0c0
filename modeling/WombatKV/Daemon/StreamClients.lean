import WombatKV.Daemon.HttpServer
import WombatKV.Foundation.Runs

/-! The clients over TCP and HTTP, with one stream for all calls. -/

namespace WombatKV

open Call

structure Link (σ : Type) where
  socket : Socket
  server : σ
  served : List (WireRequest × WireResponse)

variable {σ : Type} (crc32c : Bytes → UInt32) (requests : Archive WireRequest)
  (responses : Archive WireResponse) (serve : WireRequest → σ → WireResponse × σ)

def Link.post (frame : WireResponse → Bytes) (request : WireRequest) (link : Link σ) : Link σ :=
  let (response, server) := serve request link.server
  ⟨⟨link.socket.incoming ++ frame response, link.socket.arriving⟩, server,
    link.served ++ [(request, response)]⟩

inductive TcpClientError
  | requestTooLarge
  | connectionLost
  | unexpectedEof
  | envelope (error : EnvelopeError)
  | frameTooLarge (frameLen : Nat)
  | wireResponse
  | status (code : UInt8) (message : Text)
  deriving DecidableEq, Repr

def readStream (count : Nat) : Call TcpClientError (Link σ) Bytes := do
  let link ← get
  match readExact count link.socket.incoming with
  | some (front, rest) =>
    set { link with socket := { link.socket with incoming := rest } }
    return front
  | none =>
    set { link with socket := { link.socket with incoming := [] } }
    throw .unexpectedEof

def readTcpResponse : Call TcpClientError (Link σ) WireResponse := do
  let envBuf ← readStream wireEnvelopeBytes
  match decodeEnvelopeHeader envBuf with
  | .error error => throw (.envelope error)
  | .ok header =>
    let n := header.len.toNat
    if maxFrameBytes < n then throw (.frameTooLarge n)
    else
      let body ← readStream n
      match verifyEnvelopeCrc crc32c header body with
      | .error error => throw (.envelope error)
      | .ok _ =>
        match responses.fromBytes body with
        | none => throw .wireResponse
        | some response => return response

def tcpFrame (response : WireResponse) : Bytes := envelopeOf crc32c (responses.toBytes response)

def tcpRoundtrip (request : WireRequest) : Call TcpClientError (Link σ) WireResponse := do
  match encodeEnvelope crc32c (requests.toBytes request) with
  | none => throw .requestTooLarge
  | some _ =>
    modify (Link.post serve (tcpFrame crc32c responses) request)
    readTcpResponse crc32c responses

inductive HttpClientError
  | requestTooLarge
  | connectionLost
  | unexpectedEof (message : String)
  | notUtf8
  | malformedStatusLine (line : Text)
  | badStatusCode (code : Text)
  | headTooLarge
  | header (error : HeaderError)
  | missingContentLength
  | bodyTooLarge (len : Nat)
  | http (status : Nat) (body : Bytes)
  | envelope (error : EnvelopeError)
  | wireResponse
  | status (code : UInt8) (message : Text)
  deriving DecidableEq, Repr

structure BufReader where
  buffer : Bytes
  socket : Socket

def bufReaderBytes : Nat := 8192

namespace BufReader

def fillBuf (reader : BufReader) : BufReader :=
  if reader.buffer = [] then
    let (chunk, socket) := reader.socket.read bufReaderBytes
    ⟨chunk, socket⟩
  else reader

def unread (reader : BufReader) : Bytes := reader.buffer ++ reader.socket.incoming

def lineTurns : Nat → Bytes → Call HttpClientError BufReader Bytes
  | 0, line => return line
  | turns + 1, line => do
    modify fillBuf
    let reader ← get
    if reader.buffer = [] then return line
    else
      match splitAtFirst [10] reader.buffer with
      | some (before, behind) =>
        set { reader with buffer := behind }
        return line ++ before ++ [10]
      | none =>
        set { reader with buffer := [] }
        lineTurns turns (line ++ reader.buffer)

def readLine : Call HttpClientError BufReader (Text × Nat) := do
  let reader ← get
  let bytes ← lineTurns (reader.unread.length + 1) []
  match fromUtf8 bytes with
  | none => throw .notUtf8
  | some line => return (line, bytes.length)

def readSome (wanted : Nat) (reader : BufReader) : Bytes × BufReader :=
  if reader.buffer = [] ∧ bufReaderBytes ≤ wanted then
    let (chunk, socket) := reader.socket.read wanted
    (chunk, ⟨[], socket⟩)
  else
    let filled := reader.fillBuf
    (filled.buffer.take wanted, { filled with buffer := filled.buffer.drop wanted })

def exactTurns (count : Nat) : Nat → Bytes → Call HttpClientError BufReader Bytes
  | 0, _ => throw (.unexpectedEof "failed to fill whole buffer")
  | turns + 1, bytes => do
    if count ≤ bytes.length then return bytes
    else
      let reader ← get
      let (chunk, after) := reader.readSome (count - bytes.length)
      set after
      if chunk = [] then throw (.unexpectedEof "failed to fill whole buffer")
      else exactTurns count turns (bytes ++ chunk)

def readExactly (count : Nat) : Call HttpClientError BufReader Bytes := do
  let reader ← get
  exactTurns count (reader.unread.length + 1) []

end BufReader

def trimLineEnd (line : Text) : Text :=
  (line.reverse.dropWhile fun char => char = '\r' || char = '\n').reverse

def headerTurns : Nat → Nat → FoundHeaders → Call HttpClientError BufReader FoundHeaders
  | 0, _, _ => throw (.unexpectedEof "peer closed mid-response-headers")
  | turns + 1, headBytes, found => do
    let (line, n) ← BufReader.readLine
    if n = 0 then throw (.unexpectedEof "peer closed mid-response-headers")
    else if maxHeadBytes < headBytes + n then throw .headTooLarge
    else
      let trimmed := trimLineEnd line
      if trimmed = [] then return found
      else
        let found ← lift ((parseHeaderLine found trimmed).mapError .header)
        headerTurns turns (headBytes + n) found

def readResponseHead : Call HttpClientError BufReader (Nat × Nat × Bool) := do
  let (statusLine, n) ← BufReader.readLine
  if n = 0 then throw (.unexpectedEof "peer closed before response")
  else
    match splitOnce ' ' statusLine with
    | none => throw (.malformedStatusLine (trim statusLine))
    | some (httpVersion, rest) =>
      let code := ((splitOnce ' ' rest).map Prod.fst).getD rest
      match parseUnsigned (2 ^ 16) code with
      | none => throw (.badStatusCode code)
      | some status =>
        let reader ← get
        let found ← headerTurns (reader.unread.length + 1) n ⟨none, none⟩
        match found.contentLength with
        | none => throw .missingContentLength
        | some len =>
          if maxBodyBytes < len then throw (.bodyTooLarge len)
          else return (status, len, keepsAlive httpVersion found.connection)

def readHttpResponse : Call HttpClientError BufReader (Nat × Bytes) := do
  let (status, contentLength, _) ← readResponseHead
  let respBody ← BufReader.readExactly contentLength
  return (status, respBody)

def httpFrame (response : WireResponse) : Bytes :=
  let wire := envelopeOf crc32c (responses.toBytes response)
  utf8 (responseHead 200 "OK".toList contentType wire.length true) ++ wire

def httpRoundtrip (request : WireRequest) : Call HttpClientError (Link σ) WireResponse := do
  match encodeEnvelope crc32c (requests.toBytes request) with
  | none => throw .requestTooLarge
  | some _ =>
    modify (Link.post serve (httpFrame crc32c responses) request)
    let (status, respBody) ← on (fun link => ⟨[], link.socket⟩)
      (fun reader link => { link with socket := reader.socket }) readHttpResponse
    if status ≠ 200 then throw (.http status respBody)
    else
      match decodeEnvelope crc32c respBody with
      | .error error => throw (.envelope error)
      | .ok respBytes =>
        match responses.fromBytes respBytes with
        | none => throw .wireResponse
        | some response => return response

structure Exchange (ε : Type) where
  request : WireRequest
  produced : List WireResponse
  answer : Except ε WireResponse

structure ClientRun (ε σ : Type) where
  link : Link σ
  history : List (Exchange ε)

def clientSystem {ε : Type} (roundtrip : WireRequest → Call ε (Link σ) WireResponse)
    (link : Link σ) : System (ClientRun ε σ) WireRequest where
  start := ⟨link, []⟩
  step run request :=
    let result := roundtrip request run.link
    let produced := (result.2.served.drop run.link.served.length).map Prod.snd
    some ⟨result.2, run.history ++ [⟨request, produced, result.1⟩]⟩

def ResponseFits {ε : Type} (limit : Nat) (run : ClientRun ε σ) (request : WireRequest) : Prop :=
  (responses.toBytes (serve request run.link.server).1).length ≤ limit

end WombatKV
