import Mathlib.Data.List.Forall2
import WombatKV.Radix.BlockHash

/-! What the readers of hexadecimal texts accept. -/

namespace WombatKV

theorem forall_byte {read : UInt8 → Option UInt8} {p : UInt8 → UInt8 → Prop}
    [∀ byte value, Decidable (p byte value)]
    (every : ∀ number < 256, (read (UInt8.ofNat number)).all (p (UInt8.ofNat number) ·) = true)
    (byte : UInt8) : ∀ value ∈ read byte, p byte value := by
  have all := every byte.toNat byte.toNat_lt
  intro value found
  rw [UInt8.ofNat_toNat, Option.mem_def.mp found] at all
  exact of_decide_eq_true all

theorem decodeHexNibble_value : ∀ byte : UInt8, ∀ value ∈ decodeHexNibble byte,
    value.toNat < 16 ∧ ((Char.ofNat byte.toNat).isUpper = false →
        Nat.digitChar value.toNat = Char.ofNat byte.toNat) ∧
      byte.toNat < 128 ∧ isAsciiAlphanumeric (Char.ofNat byte.toNat) = true :=
  forall_byte (by decide +kernel)

theorem decodeHexNibble_char (byte : UInt8) (digit : (decodeHexNibble byte).isSome = true) :
    byte.toNat < 128 ∧ isAsciiAlphanumeric (Char.ofNat byte.toNat) = true := by
  obtain ⟨value, found⟩ := Option.isSome_iff_exists.mp digit
  exact (decodeHexNibble_value byte value found).2.2

def digitByte (half : Nat) : UInt8 := UInt8.ofNat (Nat.digitChar half).toNat

theorem hexVal_digitByte : ∀ half < 16,
    String.utf8EncodeChar (Nat.digitChar half) = [digitByte half] ∧
      hexVal (digitByte half) = some (UInt8.ofNat half) := by
  decide +kernel

theorem digitByte_hexVal : ∀ byte : UInt8, ∀ value ∈ hexVal byte,
    value.toNat < 16 ∧ digitByte value.toNat = byte :=
  forall_byte (by decide +kernel)

theorem toNat_halves (byte : UInt8) :
    (byte >>> 4).toNat = byte.toNat / 16 ∧ (byte &&& 0xf).toNat = byte.toNat % 16 := by
  refine ⟨?_, ?_⟩
  · rw [UInt8.toNat_shiftRight]
    exact Nat.shiftRight_eq_div_pow byte.toNat 4
  · rw [UInt8.toNat_and]
    exact Nat.and_two_pow_sub_one_eq_mod byte.toNat 4

theorem toNat_joined {high low : UInt8} (highSmall : high.toNat < 16) (lowSmall : low.toNat < 16) :
    ((high <<< 4) ||| low).toNat = 16 * high.toNat + low.toNat := by
  have fits : high.toNat <<< 4 < 2 ^ 8 := by
    rw [Nat.shiftLeft_eq]
    omega
  have shifted : (high <<< 4).toNat = high.toNat <<< 4 := by
    rw [UInt8.toNat_shiftLeft]
    exact Nat.mod_eq_of_lt fits
  rw [UInt8.toNat_or, shifted, ← Nat.shiftLeft_add_eq_or_of_lt lowSmall, Nat.shiftLeft_eq]
  omega

theorem halves_of_byte {high low : UInt8} (highSmall : high.toNat < 16) (lowSmall : low.toNat < 16) :
    ((high <<< 4) ||| low) >>> 4 = high ∧ ((high <<< 4) ||| low) &&& 0xf = low := by
  have joined := toNat_joined highSmall lowSmall
  obtain ⟨front, back⟩ := toNat_halves ((high <<< 4) ||| low)
  exact ⟨UInt8.toNat_inj.mp (by omega), UInt8.toNat_inj.mp (by omega)⟩

theorem byte_halves (byte : UInt8) : (byte >>> 4).toNat < 16 ∧ (byte &&& 0xf).toNat < 16 ∧
    ((byte >>> 4) <<< 4) ||| (byte &&& 0xf) = byte := by
  obtain ⟨front, back⟩ := toNat_halves byte
  have small := byte.toNat_lt
  have high : (byte >>> 4).toNat < 16 := by omega
  have low : (byte &&& 0xf).toNat < 16 := by omega
  exact ⟨high, low, UInt8.toNat_inj.mp (by rw [toNat_joined high low]; omega)⟩

theorem compare_hexPair {low high : UInt8} (less : low < high) :
    compare (hexPair low) (hexPair high) = .lt := by
  obtain ⟨lowFront, lowBack⟩ := toNat_halves low
  obtain ⟨highFront, highBack⟩ := toNat_halves high
  have smaller : low.toNat < high.toNat := less
  have bounded := high.toNat_lt
  rw [hexPair, hexPair, lowFront, lowBack, highFront, highBack, List.compare_cons_cons]
  rcases Nat.lt_or_ge (low.toNat / 16) (high.toNat / 16) with front | behind
  · -- The first digits decide.
    rw [compare_digitChar front (by omega), Ordering.lt_then]
  · -- They agree, so the second digits decide.
    have same : low.toNat / 16 = high.toNat / 16 := by omega
    have last := compare_digitChar (show low.toNat % 16 < high.toNat % 16 by omega)
      (show high.toNat % 16 < 16 by omega)
    rw [same, Std.compare_self, Ordering.eq_then, List.compare_cons_cons, last, Ordering.lt_then]

theorem compare_hexLower (left right : Bytes) :
    compare (hexLower left) (hexLower right) = compare left right := by
  have ordered : OrderedCode hexPair :=
    .of_width (show 0 < 2 by decide) (fun _ => rfl) fun low high less =>
      compare_hexPair (Std.compare_eq_lt.mp less)
  exact ordered.compare_flatMap left right

theorem utf8_hexLower_cons (byte : UInt8) (rest : Bytes) :
    utf8 (hexLower (byte :: rest)) =
      digitByte (byte >>> 4).toNat :: digitByte (byte &&& 0xf).toNat :: utf8 (hexLower rest) := by
  obtain ⟨high, low, _⟩ := byte_halves byte
  have front : utf8 (hexLower (byte :: rest)) =
      String.utf8EncodeChar (Nat.digitChar (byte >>> 4).toNat) ++
        (String.utf8EncodeChar (Nat.digitChar (byte &&& 0xf).toNat) ++ utf8 (hexLower rest)) := by
    simp only [utf8, hexLower, hexPair, List.flatMap_cons, List.cons_append, List.nil_append]
  rw [front, (hexVal_digitByte _ high).1, (hexVal_digitByte _ low).1]
  rfl

section Pairs

variable {nibble : UInt8 → Option UInt8} {position : Nat} {bytes out : Bytes}

theorem decodePairs_cons {high low : UInt8} {rest : Bytes} :
    decodePairs nibble position (high :: low :: rest) = .ok out ↔
      ∃ first second others, nibble high = some first ∧ nibble low = some second ∧
        decodePairs nibble (position + 2) rest = .ok others ∧
        out = ((first <<< 4) ||| second) :: others := by
  have digit {value : UInt8} (found : Option UInt8) (place : Nat) :
      (found.elim (.error place) .ok : Except Nat UInt8) = .ok value ↔ found = some value := by
    cases found <;> simp
  rw [decodePairs]
  constructor
  · intro decoded
    obtain ⟨first, isFirst, decoded⟩ := except_bind_eq_ok.mp decoded
    obtain ⟨second, isSecond, decoded⟩ := except_bind_eq_ok.mp decoded
    obtain ⟨others, read, decoded⟩ := except_bind_eq_ok.mp decoded
    cases decoded
    exact ⟨first, second, others, (digit _ _).mp isFirst, (digit _ _).mp isSecond, read, rfl⟩
  · rintro ⟨first, second, others, isFirst, isSecond, read, rfl⟩
    rw [isFirst, isSecond, read]
    rfl

theorem decodePairs_digits (decoded : decodePairs nibble position bytes = .ok out)
    (even : bytes.length % 2 = 0) : ∀ byte ∈ bytes, (nibble byte).isSome = true := by
  fun_induction decodePairs nibble position bytes generalizing out with
  | case1 position high low rest ih =>
    obtain ⟨first, second, others, isFirst, isSecond, read, _⟩ := decodePairs_cons.mp decoded
    have shorter : rest.length % 2 = 0 := by
      simp only [List.length_cons] at even
      omega
    intro byte member
    simp only [List.mem_cons] at member
    rcases member with rfl | rfl | member
    · simp [isFirst]
    · simp [isSecond]
    · exact ih read shorter byte member
  | case2 => simp
  | case3 => simp at even

theorem decodePairs_hexLower
    (reads : ∀ half < 16, nibble (digitByte half) = some (UInt8.ofNat half)) (position : Nat)
    (bytes : Bytes) : decodePairs nibble position (utf8 (hexLower bytes)) = .ok bytes := by
  induction bytes generalizing position with
  | nil => rfl
  | cons byte rest ih =>
    obtain ⟨high, low, whole⟩ := byte_halves byte
    rw [utf8_hexLower_cons, decodePairs_cons]
    refine ⟨_, _, rest, reads _ high, reads _ low, ih _, ?_⟩
    rw [UInt8.ofNat_toNat, UInt8.ofNat_toNat, whole]

theorem utf8_hexLower_of_decodePairs (decoded : decodePairs hexVal position bytes = .ok out)
    (even : bytes.length % 2 = 0) : utf8 (hexLower out) = bytes := by
  fun_induction decodePairs hexVal position bytes generalizing out with
  | case1 position high low rest ih =>
    obtain ⟨first, second, others, isFirst, isSecond, read, rfl⟩ := decodePairs_cons.mp decoded
    have shorter : rest.length % 2 = 0 := by
      simp only [List.length_cons] at even
      omega
    obtain ⟨firstSmall, firstWritten⟩ := digitByte_hexVal high first isFirst
    obtain ⟨secondSmall, secondWritten⟩ := digitByte_hexVal low second isSecond
    obtain ⟨front, back⟩ := halves_of_byte firstSmall secondSmall
    rw [utf8_hexLower_cons, front, back, firstWritten, secondWritten, ih read shorter]
  | case2 =>
    cases decoded
    rfl
  | case3 => simp at even

theorem hexLower_decodePairs (decoded : decodePairs decodeHexNibble position bytes = .ok out)
    (even : bytes.length % 2 = 0)
    (lower : ∀ byte ∈ bytes, (Char.ofNat byte.toNat).isUpper = false) :
    hexLower out = bytes.map fun byte => Char.ofNat byte.toNat := by
  fun_induction decodePairs decodeHexNibble position bytes generalizing out with
  | case1 position high low rest ih =>
    obtain ⟨first, second, others, isFirst, isSecond, read, rfl⟩ := decodePairs_cons.mp decoded
    have shorter : rest.length % 2 = 0 := by
      simp only [List.length_cons] at even
      omega
    have behind := ih read shorter fun byte member => lower byte (by simp [member])
    obtain ⟨firstSmall, firstWritten, _⟩ := decodeHexNibble_value high first isFirst
    obtain ⟨secondSmall, secondWritten, _⟩ := decodeHexNibble_value low second isSecond
    obtain ⟨front, back⟩ := halves_of_byte firstSmall secondSmall
    have unfolded : hexLower (((first <<< 4) ||| second) :: others) =
        hexPair ((first <<< 4) ||| second) ++ hexLower others := rfl
    rw [unfolded, behind, hexPair, front, back, firstWritten (lower high (by simp)),
      secondWritten (lower low (by simp))]
    rfl
  | case2 =>
    cases decoded
    rfl
  | case3 => simp at even

end Pairs

variable {hex : Text} {hash : BlockHash} {hashes : List BlockHash} {hexes : List Text}

theorem decodeHash_eq_ok {nibble : UInt8 → Option UInt8} {digits : Bytes}
    {exact : digits.length = 64} :
    decodeHash nibble digits exact = .ok hash ↔ decodePairs nibble 0 digits = .ok hash.toList := by
  unfold decodeHash
  split
  · rename_i out decoded
    have same := congrArg (· = Except.ok hash.toList) decoded
    simp only [Except.ok.injEq] at same
    rw [same, Except.ok.injEq, ← Vector.toList_inj]
    rfl
  · rename_i position failed
    simp [failed]

theorem utf8_hexLower_length (bytes : Bytes) : (utf8 (hexLower bytes)).length = 2 * bytes.length := by
  induction bytes with
  | nil => rfl
  | cons byte rest ih =>
    simp only [utf8_hexLower_cons, List.length_cons, ih]
    omega

theorem decodeHex32_hexLower (hash : BlockHash) :
    decodeHex32 (utf8 (hexLower hash.toList)) = some hash := by
  have exact : (utf8 (hexLower hash.toList)).length = 64 := by
    rw [utf8_hexLower_length, Vector.length_toList]
  have read := decodePairs_hexLower (fun half small => (hexVal_digitByte half small).2) 0 hash.toList
  rw [decodeHex32, dif_pos exact, decodeHash_eq_ok.mpr read]
  rfl

theorem utf8_hexLower_of_decodeHex32 {digits : Bytes} (decoded : decodeHex32 digits = some hash) :
    utf8 (hexLower hash.toList) = digits := by
  unfold decodeHex32 at decoded
  split at decoded
  · rename_i exact
    cases read : decodeHash hexVal digits exact with
    | ok found =>
      rw [read] at decoded
      cases decoded
      exact utf8_hexLower_of_decodePairs (decodeHash_eq_ok.mp read) (by rw [exact])
    | error position =>
      rw [read] at decoded
      cases decoded
  · cases decoded

theorem utf8EncodeChar_ascii {char : Char}
    (ascii : ∀ byte ∈ String.utf8EncodeChar char, byte.toNat < 128) :
    (String.utf8EncodeChar char).map (fun byte => Char.ofNat byte.toNat) = [char] := by
  by_cases short : char.val.toNat ≤ 127
  · have kept : (UInt8.ofNat char.val.toNat).toNat = char.toNat := by
      rw [UInt8.toNat_ofNat', Nat.mod_eq_of_lt (by omega)]
      rfl
    simp only [String.utf8EncodeChar, short, if_true, List.map_cons, List.map_nil, kept,
      Char.ofNat_toNat]
  · -- The first byte of a longer encoding has its high bit set.
    exfalso
    unfold String.utf8EncodeChar at ascii
    simp only [short, if_false] at ascii
    split at ascii
    · have lead := ascii _ (List.mem_cons_self ..)
      simp only [UInt8.toNat_ofNat'] at lead
      omega
    · split at ascii
      · have lead := ascii _ (List.mem_cons_self ..)
        simp only [UInt8.toNat_ofNat'] at lead
        omega
      · have lead := ascii _ (List.mem_cons_self ..)
        simp only [UInt8.toNat_ofNat'] at lead
        omega

theorem text_of_ascii {text : Text} (ascii : ∀ byte ∈ utf8 text, byte.toNat < 128) :
    (utf8 text).map (fun byte => Char.ofNat byte.toNat) = text := by
  induction text with
  | nil => rfl
  | cons char rest ih =>
    have unfolded : utf8 (char :: rest) = String.utf8EncodeChar char ++ utf8 rest := rfl
    rw [unfolded] at ascii ⊢
    have front := utf8EncodeChar_ascii fun byte member =>
      ascii byte (List.mem_append_left _ member)
    have behind := ih fun byte member => ascii byte (List.mem_append_right _ member)
    rw [List.map_append, front, behind]
    rfl

theorem parseBlockHashHex_eq_ok :
    parseBlockHashHex hex = .ok hash ↔ (utf8 hex).length = 64 ∧
      decodePairs decodeHexNibble 0 (utf8 hex) = .ok hash.toList := by
  unfold parseBlockHashHex
  split
  · rename_i exact
    cases decoded : decodeHash decodeHexNibble (utf8 hex) exact with
    | ok found =>
      rw [decodeHash_eq_ok.mp decoded]
      simp [Except.mapError, exact, Vector.toList_inj]
    | error position =>
      have unread : decodePairs decodeHexNibble 0 (utf8 hex) ≠ .ok hash.toList := by
        intro read
        rw [decodeHash_eq_ok.mpr read] at decoded
        cases decoded
      simp [Except.mapError, unread]
  · rename_i other
    simp [other]

theorem parseBlockHashHex_hexLower (hash : BlockHash) :
    parseBlockHashHex (hexLower hash.toList) = .ok hash := by
  refine parseBlockHashHex_eq_ok.mpr ⟨?_, decodePairs_hexLower (by decide +kernel) 0 hash.toList⟩
  rw [utf8_hexLower_length, Vector.length_toList]

theorem parseBlockHashHex_toOption :
    (parseBlockHashHex hex).toOption = some hash ↔ parseBlockHashHex hex = .ok hash := by
  cases parseBlockHashHex hex <;> simp [Except.toOption]

theorem parseBlockHashHex_digits (parsed : parseBlockHashHex hex = .ok hash) :
    (utf8 hex).map (fun byte => Char.ofNat byte.toNat) = hex ∧
      ∀ byte ∈ utf8 hex, (decodeHexNibble byte).isSome = true := by
  obtain ⟨exact, decoded⟩ := parseBlockHashHex_eq_ok.mp parsed
  have digits := decodePairs_digits decoded (by rw [exact])
  exact ⟨text_of_ascii fun byte member => (decodeHexNibble_char byte (digits byte member)).1,
    digits⟩

theorem parseBlockHashHex_alphanumeric (parsed : parseBlockHashHex hex = .ok hash) :
    ∀ char ∈ hex, isAsciiAlphanumeric char = true := by
  obtain ⟨spelled, digits⟩ := parseBlockHashHex_digits parsed
  rw [← spelled]
  intro char member
  obtain ⟨byte, inside, rfl⟩ := List.mem_map.mp member
  exact (decodeHexNibble_char byte (digits byte inside)).2

theorem hexLower_of_parse (parsed : parseBlockHashHex hex = .ok hash)
    (lower : ∀ char ∈ hex, char.isUpper = false) : hexLower hash.toList = hex := by
  obtain ⟨spelled, _⟩ := parseBlockHashHex_digits parsed
  obtain ⟨exact, decoded⟩ := parseBlockHashHex_eq_ok.mp parsed
  have written := hexLower_decodePairs decoded (by rw [exact]) fun byte member =>
    lower _ (spelled ▸ List.mem_map_of_mem member)
  exact written.trans spelled

theorem parseBlockHashListFrom_eq_ok {index : Nat} :
    parseBlockHashListFrom index hexes = .ok hashes ↔
      List.Forall₂ (fun hex hash => parseBlockHashHex hex = .ok hash) hexes hashes := by
  induction hexes generalizing index hashes with
  | nil =>
    rw [parseBlockHashListFrom, Except.ok.injEq, List.forall₂_nil_left_iff]
    exact eq_comm
  | cons hex rest ih =>
    rw [parseBlockHashListFrom, List.forall₂_cons_left_iff, except_bind_eq_ok]
    constructor
    · rintro ⟨hash, read, others⟩
      obtain ⟨remaining, readRest, done⟩ := except_bind_eq_ok.mp others
      cases done
      refine ⟨hash, remaining, ?_, ih.mp readRest, rfl⟩
      cases parsed : parseBlockHashHex hex with
      | ok found => simpa [parsed, Except.mapError] using read
      | error error => simp [parsed, Except.mapError] at read
    · rintro ⟨hash, remaining, read, readRest, rfl⟩
      refine ⟨hash, by rw [read]; rfl, ?_⟩
      rw [ih.mpr readRest]
      rfl

theorem parseBlockHashList_eq_ok :
    parseBlockHashList hexes = .ok hashes ↔
      List.Forall₂ (fun hex hash => parseBlockHashHex hex = .ok hash) hexes hashes :=
  parseBlockHashListFrom_eq_ok

theorem parsed_of_mem (parsed : parseBlockHashList hexes = .ok hashes) (member : hex ∈ hexes) :
    ∃ hash ∈ hashes, parseBlockHashHex hex = .ok hash := by
  have pairs := parseBlockHashList_eq_ok.mp parsed
  obtain ⟨number, inside, rfl⟩ := List.getElem_of_mem member
  have within : number < hashes.length := pairs.length_eq ▸ inside
  exact ⟨hashes[number], List.getElem_mem within, pairs.get inside within⟩

theorem mem_parseBlockHashList (parsed : parseBlockHashList hexes = .ok hashes) :
    hash ∈ hashes ↔ ∃ hex ∈ hexes, parseBlockHashHex hex = .ok hash := by
  have pairs := parseBlockHashList_eq_ok.mp parsed
  clear parsed
  induction pairs with
  | nil => simp
  | @cons hex found hexes hashes read _ ih =>
    simp only [List.mem_cons, ih, exists_eq_or_imp, read, Except.ok.injEq]
    rw [eq_comm]

end WombatKV
