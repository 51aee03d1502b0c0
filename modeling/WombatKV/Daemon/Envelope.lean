import WombatKV.Foundation.Effects

/-! The wire envelope, and the loop that reads a stream of them. -/

namespace WombatKV

open Call

def wireEnvelopeMagic : Bytes := ascii "WMBT"

def wireEnvelopeVersion : UInt32 := 1

def wireEnvelopeBytes : Nat := 16

inductive EnvelopeError
  | tooShort (got need : Nat)
  | badMagic (got : Bytes)
  | badVersion (got want : UInt32)
  | badLength (headerLen : UInt32) (actualBodyBytes : Nat)
  | badCrc (headerCrc computedCrc : UInt32)
  deriving DecidableEq, Repr

structure EnvelopeHeader where
  crc : UInt32
  len : UInt32
  deriving DecidableEq, Repr

def EnvelopeHeader.bytes (header : EnvelopeHeader) : Bytes :=
  wireEnvelopeMagic ++ (u32Le wireEnvelopeVersion ++ (u32Le header.crc ++ u32Le header.len))

section Checksum

variable (crc32c : Bytes → UInt32)

def headerFor (body : Bytes) : EnvelopeHeader := ⟨crc32c body, UInt32.ofNat body.length⟩

def envelopeOf (body : Bytes) : Bytes := (headerFor crc32c body).bytes ++ body

def encodeEnvelope (body : Bytes) : Option Bytes :=
  if body.length < 2 ^ 32 then some (envelopeOf crc32c body) else none

def decodeEnvelopeHeader (bytes : Bytes) : Except EnvelopeError EnvelopeHeader :=
  let magic := slice bytes 0 4
  if magic ≠ wireEnvelopeMagic then .error (.badMagic magic)
  else
    let version := fromU32Le (slice bytes 4 8)
    if version ≠ wireEnvelopeVersion then .error (.badVersion version wireEnvelopeVersion)
    else .ok ⟨fromU32Le (slice bytes 8 12), fromU32Le (slice bytes 12 16)⟩

def verifyEnvelopeCrc (header : EnvelopeHeader) (body : Bytes) : Except EnvelopeError Unit :=
  if body.length ≠ header.len.toNat then .error (.badLength header.len body.length)
  else if crc32c body ≠ header.crc then .error (.badCrc header.crc (crc32c body))
  else .ok ()

def decodeEnvelope (bytes : Bytes) : Except EnvelopeError Bytes :=
  if bytes.length < wireEnvelopeBytes then .error (.tooShort bytes.length wireEnvelopeBytes)
  else do
    let header ← decodeEnvelopeHeader (bytes.take wireEnvelopeBytes)
    let bodyEnd := wireEnvelopeBytes + header.len.toNat
    if bytes.length ≠ bodyEnd then
      throw (.badLength header.len (bytes.length - wireEnvelopeBytes))
    else
      let body := slice bytes wireEnvelopeBytes bodyEnd
      verifyEnvelopeCrc crc32c header body
      return body

def maxFrameBytes : Nat := 256 * 1024 * 1024

inductive TcpServerError
  | envelope (error : EnvelopeError)
  | frameTooLarge (frameLen : Nat)
  | wireRequest
  | responseTooLarge
  deriving DecidableEq, Repr

inductive FrameRead
  | closed
  | failed (error : TcpServerError)
  | frame (body rest : Bytes)
  deriving DecidableEq, Repr

def readFrame (stream : Bytes) : FrameRead :=
  match readExact wireEnvelopeBytes stream with
  | none => .closed
  | some (headerBytes, stream) =>
    match decodeEnvelopeHeader headerBytes with
    | .error error => .failed (.envelope error)
    | .ok header =>
      let frameLen := header.len.toNat
      if maxFrameBytes < frameLen then .failed (.frameTooLarge frameLen)
      else
        match readExact frameLen stream with
        | none => .closed
        | some (body, rest) =>
          match verifyEnvelopeCrc crc32c header body with
          | .error error => .failed (.envelope error)
          | .ok _ => .frame body rest

variable {σ : Type} (serve : Bytes → Call TcpServerError σ Unit)

def connectionTurns : Nat → Bytes → Call TcpServerError σ Unit
  | 0, _ => pure ()
  | turns + 1, stream =>
    match readFrame crc32c stream with
    | .closed => pure ()
    | .failed error => throw error
    | .frame body rest => do
      serve body
      connectionTurns turns rest

def handleConnection (stream : Bytes) : Call TcpServerError σ Unit :=
  connectionTurns crc32c serve stream.length stream

def readFrames (stream : Bytes) : Except TcpServerError Unit × List Bytes :=
  handleConnection crc32c (fun body => modify (· ++ [body])) stream []

end Checksum

end WombatKV
