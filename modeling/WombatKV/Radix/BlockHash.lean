import WombatKV.Foundation.Effects
import WombatKV.Foundation.Text

/-! Block hashes, their hexadecimal texts, and keys made from them. -/

namespace WombatKV

abbrev BlockHash := Vector UInt8 32

instance transOrdBlockHash : Std.TransOrd BlockHash := Vector.instTransOrd

instance lawfulBEqBlockHash : LawfulBEq BlockHash := Vector.instLawfulBEq

def hexPair (byte : UInt8) : Text :=
  [Nat.digitChar (byte >>> 4).toNat, Nat.digitChar (byte &&& 0xf).toNat]

def hexLower (bytes : Bytes) : Text := bytes.flatMap hexPair

def decodeHexNibble (byte : UInt8) : Option UInt8 :=
  if 0x30 ≤ byte ∧ byte ≤ 0x39 then some (byte - 0x30)
  else if 0x61 ≤ byte ∧ byte ≤ 0x66 then some (byte - 0x61 + 10)
  else if 0x41 ≤ byte ∧ byte ≤ 0x46 then some (byte - 0x41 + 10)
  else none

def hexVal (byte : UInt8) : Option UInt8 :=
  if 0x30 ≤ byte ∧ byte ≤ 0x39 then some (byte - 0x30)
  else if 0x61 ≤ byte ∧ byte ≤ 0x66 then some (10 + byte - 0x61)
  else none

def decodePairs (nibble : UInt8 → Option UInt8) : Nat → Bytes → Except Nat Bytes
  | position, high :: low :: rest => do
    let high ← ((nibble high).elim (.error position) .ok : Except Nat UInt8)
    let low ← ((nibble low).elim (.error (position + 1)) .ok : Except Nat UInt8)
    let others ← decodePairs nibble (position + 2) rest
    return ((high <<< 4) ||| low) :: others
  | _, [] | _, [_] => .ok []

theorem decodePairs_length {nibble : UInt8 → Option UInt8} {position : Nat} {bytes out : Bytes}
    (decoded : decodePairs nibble position bytes = .ok out) : out.length = bytes.length / 2 := by
  fun_induction decodePairs nibble position bytes generalizing out with
  | case1 position high low rest ih =>
    obtain ⟨_, _, decoded⟩ := except_bind_eq_ok.mp decoded
    obtain ⟨_, _, decoded⟩ := except_bind_eq_ok.mp decoded
    obtain ⟨others, read, decoded⟩ := except_bind_eq_ok.mp decoded
    cases decoded
    simp only [List.length_cons, ih read]
    omega
  | case2 | case3 =>
    cases decoded
    simp

def decodeHash (nibble : UInt8 → Option UInt8) (digits : Bytes) (exact : digits.length = 64) :
    Except Nat BlockHash :=
  match decoded : decodePairs nibble 0 digits with
  | .ok out => .ok ⟨out.toArray, by simp [decodePairs_length decoded, exact]⟩
  | .error position => .error position

def decodeHex32 (digits : Bytes) : Option BlockHash :=
  if exact : digits.length = 64 then (decodeHash hexVal digits exact).toOption else none

inductive BlockHashError
  | length (got : Nat) (hex : Text)
  | badChar (position : Nat) (hex : Text)
  deriving DecidableEq, Repr

def parseBlockHashHex (hex : Text) : Except BlockHashError BlockHash :=
  if exact : (utf8 hex).length = 64 then
    (decodeHash decodeHexNibble (utf8 hex) exact).mapError (.badChar · hex)
  else .error (.length (utf8 hex).length hex)

def parseBlockHashListFrom : Nat → List Text → Except (Nat × BlockHashError) (List BlockHash)
  | _, [] => .ok []
  | index, hex :: rest => do
    let hash ← (parseBlockHashHex hex).mapError (index, ·)
    let hashes ← parseBlockHashListFrom (index + 1) rest
    return hash :: hashes

def parseBlockHashList (hexes : List Text) : Except (Nat × BlockHashError) (List BlockHash) :=
  parseBlockHashListFrom 0 hexes

def blockKeyPrefix : Text := "wombatkv/v1/block/b3=".toList

def blockKeyFromHex (hex : Text) : Text := blockKeyPrefix ++ hex

def blockKeyForHash (hash : BlockHash) : Text := blockKeyPrefix ++ hexLower hash.toList

end WombatKV
