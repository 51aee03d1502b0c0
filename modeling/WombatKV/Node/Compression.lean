import WombatKV.Foundation.Bytes

/-! Compression of stored blobs: the `WBZ1` envelope. -/

namespace WombatKV

def compressMagic : Bytes := [0x57, 0x42, 0x5a, 0x31]

def compressHeaderSize : Nat := 10

def rawLenLimit : Nat := 2 ^ 32

inductive CompressAlgo
  | none
  | zstd
  | lz4
  deriving DecidableEq, Repr

namespace CompressAlgo

def toU8 : CompressAlgo → UInt8
  | .none => 0
  | .zstd => 1
  | .lz4 => 2

def fromU8 (raw : UInt8) : Option CompressAlgo :=
  if raw = 0 then some .none
  else if raw = 1 then some .zstd
  else if raw = 2 then some .lz4
  else Option.none

end CompressAlgo

structure BlockCompressionConfig where
  algo : CompressAlgo
  level : Int
  deriving DecidableEq, Repr

def BlockCompressionConfig.isEnabled (cfg : BlockCompressionConfig) : Bool := cfg.algo ≠ .none

structure Zstd where
  compress : Bytes → Int → Except String Bytes
  decompress : Bytes → Nat → Except String Bytes

inductive CompressionError
  | payloadTooLarge (length : Nat)
  | encode (message : String)
  deriving DecidableEq, Repr

def CompressionError.display : CompressionError → String
  | .payloadTooLarge length => "payload too large for u32 raw_len: " ++ toString length
  | .encode message => "compression encode failed: " ++ message

def headerLevel (level : Int) : UInt8 := UInt8.ofNat (min (max level 0) 255).toNat

def encodeWithHeader (zstd : Zstd) (payload : Bytes) (cfg : BlockCompressionConfig) :
    Except CompressionError Bytes :=
  match cfg.algo with
  | .none => .ok payload
  | .zstd =>
    if payload.length < rawLenLimit then
      match zstd.compress payload cfg.level with
      | .ok compressed => .ok (compressMagic ++ [CompressAlgo.zstd.toU8, headerLevel cfg.level] ++
          leBytes 4 payload.length ++ compressed)
      | .error error => .error (.encode ("zstd: " ++ error))
    else .error (.payloadTooLarge payload.length)
  | .lz4 => .error (.encode "lz4 not yet wired into block compression path")

def decodeIfCompressed (zstd : Zstd) (bytes : Bytes) : Bytes :=
  if bytes.length < compressHeaderSize || bytes.take 4 ≠ compressMagic then bytes
  else
    let rawLen := fromLe (slice bytes 6 compressHeaderSize)
    let payload := bytes.drop compressHeaderSize
    match CompressAlgo.fromU8 (bytes.getD 4 0) with
    | some .none => payload
    | some .zstd =>
      match zstd.decompress payload rawLen with
      | .ok decoded => if decoded.length = rawLen then decoded else bytes
      | .error _ => bytes
    | some .lz4 => bytes
    | Option.none => bytes

end WombatKV
