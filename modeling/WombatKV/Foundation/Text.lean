import Mathlib.Data.Bool.AllAny
import Mathlib.Data.List.Infix
import WombatKV.Foundation.Bytes
import WombatKV.Foundation.Lexicographic

/-! Text: separators, decimals, lines, words, and UTF-8 bytes. -/

namespace WombatKV

/-- Text is the list of its Unicode scalar values. -/
abbrev Text := List Char

def isAsciiAlphanumeric (char : Char) : Bool := char.isAlpha || char.isDigit

/-- The text before and after the first occurrence of a separator. -/
def splitOnce (separator : Char) : Text → Option (Text × Text)
  | [] => none
  | char :: rest =>
    if char = separator then some ([], rest)
    else (splitOnce separator rest).map fun (before, after) => (char :: before, after)

def rsplitOnce (separator : Char) (text : Text) : Option (Text × Text) :=
  (splitOnce separator text.reverse).map fun (last, rest) => (rest.reverse, last.reverse)

/-- At most `count` pieces, cut from the right, the last of them being whatever is left over. -/
def rsplitn (separator : Char) : Nat → Text → List Text
  | 0, _ => []
  | 1, text => [text]
  | count + 2, text =>
    match rsplitOnce separator text with
    | none => [text]
    | some (rest, last) => last :: rsplitn separator (count + 1) rest

theorem splitOnce_append {separator : Char} {before after : Text} (absent : separator ∉ before) :
    splitOnce separator (before ++ separator :: after) = some (before, after) := by
  induction before with
  | nil => simp [splitOnce]
  | cons char before ih =>
    simp only [List.mem_cons, not_or] at absent
    simp [splitOnce, Ne.symm absent.1, ih absent.2]

theorem rsplitOnce_append {separator : Char} {before after : Text} (absent : separator ∉ after) :
    rsplitOnce separator (before ++ separator :: after) = some (before, after) := by
  have mirrored : (before ++ separator :: after).reverse =
      after.reverse ++ separator :: before.reverse := by simp
  rw [rsplitOnce, mirrored, splitOnce_append (by simpa using absent)]
  simp

theorem append_separator_inj {α : Type} {separator : α} {front front' rest rest' : List α}
    (absent : separator ∉ front) (absent' : separator ∉ front')
    (same : front ++ separator :: rest = front' ++ separator :: rest') :
    front = front' ∧ rest = rest' := by
  induction front generalizing front' with
  | nil =>
    cases front' with
    | nil => exact ⟨rfl, (List.cons.inj same).2⟩
    | cons item front' =>
      exact absurd (List.mem_cons.mpr (.inl (List.cons.inj same).1)) absent'
  | cons item front ih =>
    cases front' with
    | nil => exact absurd (List.mem_cons.mpr (.inl (List.cons.inj same).1.symm)) absent
    | cons item' front' =>
      simp only [List.cons_append, List.cons.injEq, List.mem_cons, not_or] at *
      obtain ⟨fronts, rests⟩ := ih absent.2 absent'.2 same.2
      exact ⟨⟨same.1, fronts⟩, rests⟩

@[simp] theorem dropPrefix?_append_left (front rest : Text) :
    (front ++ rest).dropPrefix? front = some rest := by
  simp [List.dropPrefix?_eq_some_iff]

@[simp] theorem dropSuffix?_append_right (rest back : Text) :
    (rest ++ back).dropSuffix? back = some rest := by
  simp [List.dropSuffix?_eq_some_iff]

theorem prefix_or_prefix_of_append {front other rest : Text} (start : other <+: front ++ rest) :
    other <+: front ∨ front <+: other :=
  List.prefix_or_prefix_of_prefix start (List.prefix_append front rest)

/-- The last `width` decimal digits of a number, zeros included. -/
def decimal : Nat → Nat → Text
  | 0, _ => []
  | width + 1, number => decimal width (number / 10) ++ [Nat.digitChar (number % 10)]

/-- The value of a run of decimal digits read after an accumulated prefix. -/
def digitsValue : Nat → Text → Option Nat
  | value, [] => some value
  | value, char :: rest =>
    if char.isDigit then digitsValue (value * 10 + (char.toNat - '0'.toNat)) rest else none

theorem digitChar_reads {digit : Nat} (small : digit < 10) :
    (Nat.digitChar digit).isDigit = true ∧ (Nat.digitChar digit).toNat - '0'.toNat = digit := by
  rcases digit with _ | _ | _ | _ | _ | _ | _ | _ | _ | _ | digit
  all_goals first | decide | omega

@[simp] theorem decimal_length (width number : Nat) : (decimal width number).length = width := by
  induction width generalizing number with
  | zero => rfl
  | succ width ih => simp [decimal, ih]

theorem decimal_isDigit (width number : Nat) :
    ∀ char ∈ decimal width number, char.isDigit = true := by
  induction width generalizing number with
  | zero => simp [decimal]
  | succ width ih =>
    intro char member
    simp only [decimal, List.mem_append, List.mem_singleton] at member
    rcases member with earlier | rfl
    · exact ih _ char earlier
    · exact (digitChar_reads (Nat.mod_lt _ (by decide))).1

theorem not_mem_decimal {char : Char} (other : char.isDigit = false) (width number : Nat) :
    char ∉ decimal width number := by
  intro member
  simp [decimal_isDigit width number char member] at other

theorem digitsValue_append (value : Nat) (front rest : Text) :
    digitsValue value (front ++ rest) = (digitsValue value front).bind (digitsValue · rest) := by
  induction front generalizing value with
  | nil => rfl
  | cons char front ih =>
    simp only [List.cons_append, digitsValue]
    split
    · exact ih _
    · rfl

theorem isDigit_of_digitsValue {value number : Nat} {text : Text}
    (reads : digitsValue value text = some number) : ∀ char ∈ text, char.isDigit = true := by
  induction text generalizing value with
  | nil => simp
  | cons char rest ih =>
    simp only [digitsValue] at reads
    split at reads
    · rename_i digit
      exact List.forall_mem_cons.mpr ⟨digit, ih reads⟩
    · cases reads

theorem digitsValue_decimal (width value number : Nat) :
    digitsValue value (decimal width number) = some (value * 10 ^ width + number % 10 ^ width) := by
  induction width generalizing number with
  | zero => simp [decimal, digitsValue, Nat.mod_one]
  | succ width ih =>
    obtain ⟨digit, reads⟩ := digitChar_reads (Nat.mod_lt number (by decide : 0 < 10))
    have split : number % 10 ^ (width + 1) = 10 * (number / 10 % 10 ^ width) + number % 10 := by
      rw [pow_succ', Nat.mod_mul]
      ring
    rw [decimal, digitsValue_append, ih]
    simp only [Option.bind_some, digitsValue, digit, if_true, reads, split]
    congr 1
    ring

theorem compare_digitChar {low high : Nat} (less : low < high) (small : high < 16) :
    compare (Nat.digitChar low) (Nat.digitChar high) = .lt := by
  have all : ∀ high < 16, ∀ low < high,
      compare (Nat.digitChar low) (Nat.digitChar high) = .lt := by decide
  exact all high small low less

theorem compare_decimal {width low high : Nat} (less : low < high) (fits : high < 10 ^ width) :
    compare (decimal width low) (decimal width high) = .lt := by
  induction width generalizing low high with
  | zero =>
    rw [pow_zero] at fits
    omega
  | succ width ih =>
    rw [pow_succ] at fits
    rw [decimal, decimal]
    rcases Nat.lt_or_ge (low / 10) (high / 10) with front | behind
    · -- The digits in front decide.
      exact compare_append_of_lt (by simp) (ih front (by omega)) _ _
    · -- They agree, so the last digit decides.
      have same : low / 10 = high / 10 := by omega
      have last := compare_digitChar (show low % 10 < high % 10 by omega)
        (show high % 10 < 16 by omega)
      rw [same, compare_append_left, List.compare_cons_cons, last]
      rfl

/-- One past the largest 64-bit word. -/
abbrev wordLimit : Nat := 2 ^ 64

def wordMax : UInt64 := 0xffffffffffffffff

@[simp] theorem wordMax_toNat : wordMax.toNat = wordLimit - 1 := rfl

/-- `usize::saturating_add`, on numbers. -/
def saturatingPlus (left right : Nat) : Nat := min (left + right) (wordLimit - 1)

def saturatingAdd (left right : UInt64) : UInt64 :=
  if left.toNat + right.toNat < wordLimit then left + right else wordMax

def saturatingMul (left right : UInt64) : UInt64 :=
  if left.toNat * right.toNat < wordLimit then left * right else wordMax

def saturatingNext (word : UInt32) : UInt32 := if word = 0xffffffff then word else word + 1

theorem saturatingNext_toNat (word : UInt32) :
    (saturatingNext word).toNat = min (word.toNat + 1) (2 ^ 32 - 1) := by
  have last : (0xffffffff : UInt32).toNat = 2 ^ 32 - 1 := rfl
  have small := word.toNat_lt
  unfold saturatingNext
  split
  · rename_i full
    rw [full, last]
    omega
  · rename_i other
    have below : word.toNat ≠ 2 ^ 32 - 1 := fun same => other (UInt32.toNat.inj (same.trans last.symm))
    rw [UInt32.toNat_add, UInt32.toNat_one]
    omega

def saturatingSub (left right : UInt64) : UInt64 :=
  if right ≤ left then left - right else 0

theorem saturatingAdd_toNat (left right : UInt64) :
    (saturatingAdd left right).toNat = min (left.toNat + right.toNat) (wordLimit - 1) := by
  unfold saturatingAdd
  split
  · rename_i fits
    rw [UInt64.toNat_add, Nat.mod_eq_of_lt fits]
    omega
  · rename_i full
    simp only [wordMax_toNat]
    omega

theorem saturatingSub_toNat (left right : UInt64) :
    (saturatingSub left right).toNat = left.toNat - right.toNat := by
  unfold saturatingSub
  split
  · rename_i enough
    exact UInt64.toNat_sub_of_le _ _ enough
  · rename_i short
    have : left.toNat < right.toNat := by simpa [UInt64.le_iff_toNat_le] using short
    simp only [UInt64.toNat_zero]
    omega

instance zeroWord : Zero UInt64 := Zero.ofOfNat0

theorem max_word (left right : UInt64) : max left right = if left ≤ right then right else left := rfl

instance lawfulOrderMaxWord : Std.LawfulOrderMax UInt64 where
  max_eq_or left right := by
    rw [max_word]
    split <;> simp
  max_le_iff left right bound := by
    rw [max_word]
    simp only [UInt64.le_iff_toNat_le]
    split <;> omega

theorem le_max?_getD {words : List UInt64} {word : UInt64} (member : word ∈ words) :
    word.toNat ≤ (words.max?.getD 0).toNat := by
  cases largest : words.max? with
  | none => simp [List.max?_eq_none_iff.mp largest] at member
  | some max => exact (List.max?_eq_some_iff.mp largest).2 word member

/-- Twenty digits hold any 64-bit word, so padding to twenty never truncates. -/
def paddedWord (word : UInt64) : Text := decimal 20 word.toNat

def withoutPlus : Text → Text
  | '+' :: rest => rest
  | other => other

/-- An unsigned number below the limit of its type, read as `str::parse` reads it. -/
def parseUnsigned (limit : Nat) (text : Text) : Option Nat :=
  if withoutPlus text = [] then none
  else (digitsValue 0 (withoutPlus text)).bind fun value =>
    if value < limit then some value else none

def parseUsize : Text → Option Nat := parseUnsigned wordLimit

def parseWord (text : Text) : Option UInt64 := (parseUsize text).map UInt64.ofNat

@[simp] theorem paddedWord_length (word : UInt64) : (paddedWord word).length = 20 :=
  decimal_length 20 word.toNat

theorem paddedWord_isDigit (word : UInt64) : ∀ char ∈ paddedWord word, char.isDigit = true :=
  decimal_isDigit 20 word.toNat

theorem parseUnsigned_of_digits {limit value : Nat} {digits : Text} (nonempty : digits ≠ [])
    (reads : digitsValue 0 digits = some value) (below : value < limit) :
    parseUnsigned limit digits = some value := by
  have kept : withoutPlus digits = digits := by
    unfold withoutPlus
    split
    · exact absurd (isDigit_of_digitsValue reads '+' List.mem_cons_self) (by decide)
    · rfl
  rw [parseUnsigned, kept, if_neg nonempty, reads, Option.bind_some, if_pos below]

theorem parseUnsigned_lt {limit number : Nat} {text : Text}
    (parsed : parseUnsigned limit text = some number) : number < limit := by
  unfold parseUnsigned at parsed
  split at parsed
  · cases parsed
  · obtain ⟨value, -, kept⟩ := Option.bind_eq_some_iff.mp parsed
    split at kept
    · cases kept
      assumption
    · cases kept

theorem parseWord_paddedWord (word : UInt64) : parseWord (paddedWord word) = some word := by
  have reads : digitsValue 0 (paddedWord word) = some word.toNat := by
    have small := word.toNat_lt
    rw [paddedWord, digitsValue_decimal, Nat.zero_mul, Nat.zero_add, Nat.mod_eq_of_lt (by omega)]
  have nonempty : paddedWord word ≠ [] := List.ne_nil_of_length_pos (by simp)
  rw [parseWord, parseUsize, parseUnsigned_of_digits nonempty reads word.toNat_lt,
    Option.map_some, UInt64.ofNat_toNat]

theorem compare_paddedWord {low high : UInt64} (less : low < high) :
    compare (paddedWord low) (paddedWord high) = .lt := by
  have fits := high.toNat_lt
  exact compare_decimal (UInt64.lt_iff_toNat_lt.mp less) (by omega)

section

def natText (number : Nat) : Text := Nat.toDigits 10 number

def paddedNat (width number : Nat) : Text :=
  List.replicate (width - (natText number).length) '0' ++ natText number

theorem natText_isDigit (number : Nat) : ∀ char ∈ natText number, char.isDigit = true :=
  fun _ member => Nat.isDigit_of_mem_toDigits (by decide) (by decide) member

theorem not_mem_natText {char : Char} (other : char.isDigit = false) (number : Nat) :
    char ∉ natText number := by
  intro member
  simp [natText_isDigit number char member] at other

theorem digitsValue_natText (number : Nat) : digitsValue 0 (natText number) = some number := by
  induction number using Nat.strong_induction_on with
  | _ number ih =>
    by_cases small : number < 10
    · obtain ⟨digit, reads⟩ := digitChar_reads small
      rw [natText, Nat.toDigits_of_lt_base small]
      simp only [digitsValue, digit, if_true, reads, Nat.zero_mul, Nat.zero_add]
    · obtain ⟨digit, reads⟩ := digitChar_reads (Nat.mod_lt number (by decide : 0 < 10))
      have split : natText number = natText (number / 10) ++ [Nat.digitChar (number % 10)] :=
        Nat.toDigits_of_base_le (by decide) (by omega)
      rw [split, digitsValue_append, ih _ (by omega)]
      simp only [Option.bind_some, digitsValue, digit, if_true, reads]
      congr 1
      omega

theorem digitsValue_paddedNat (width number : Nat) :
    digitsValue 0 (paddedNat width number) = some number := by
  have zeros : ∀ count, digitsValue 0 (List.replicate count '0') = some 0 := by
    intro count
    induction count with
    | zero => rfl
    | succ count ih => rw [List.replicate_succ]; exact ih
  rw [paddedNat, digitsValue_append, zeros, Option.bind_some, digitsValue_natText]

theorem paddedNat_injective (width : Nat) : Function.Injective (paddedNat width) := by
  intro left right same
  simpa [digitsValue_paddedNat] using congrArg (digitsValue 0) same

variable {number : Nat} {line : Text}

theorem parseUnsigned_natText {limit : Nat} (below : number < limit) :
    parseUnsigned limit (natText number) = some number :=
  parseUnsigned_of_digits Nat.toDigits_ne_nil (digitsValue_natText number) below

theorem parseUsize_natText : number < wordLimit → parseUsize (natText number) = some number :=
  parseUnsigned_natText

def splitChar (separator : Char) : Text → List Text
  | [] => [[]]
  | char :: rest =>
    if char = separator then [] :: splitChar separator rest
    else
      match splitChar separator rest with
      | [] => [[char]]
      | piece :: pieces => (char :: piece) :: pieces

theorem splitChar_of_not_mem {separator : Char} {text : Text} (absent : separator ∉ text) :
    splitChar separator text = [text] := by
  induction text with
  | nil => rfl
  | cons char text ih =>
    simp only [List.mem_cons, not_or] at absent
    simp [splitChar, Ne.symm absent.1, ih absent.2]

theorem splitChar_append {separator : Char} {front : Text} (absent : separator ∉ front)
    (rest : Text) :
    splitChar separator (front ++ separator :: rest) = front :: splitChar separator rest := by
  induction front with
  | nil => simp [splitChar]
  | cons char front ih =>
    simp only [List.mem_cons, not_or] at absent
    simp [splitChar, Ne.symm absent.1, ih absent.2]

def stripCarriageReturn (line : Text) : Text := (line.dropSuffix? ['\r']).elim line id

/-- The lines of a text behind an unfinished line; a last line need not be ended. -/
def linesFrom (line : Text) : Text → List Text
  | [] => if line = [] then [] else [line]
  | char :: rest =>
    if char = '\n' then stripCarriageReturn line :: linesFrom [] rest
    else linesFrom (line ++ [char]) rest

def lines (text : Text) : List Text := linesFrom [] text

theorem linesFrom_append (start : Text) (absent : '\n' ∉ line) (rest : Text) :
    linesFrom start (line ++ '\n' :: rest) = stripCarriageReturn (start ++ line) :: lines rest := by
  induction line generalizing start with
  | nil => simp [linesFrom, lines]
  | cons char line ih =>
    simp only [List.mem_cons, not_or] at absent
    simp [linesFrom, Ne.symm absent.1, ih _ absent.2]

theorem linesFrom_of_not_mem (start : Text) {text : Text} (absent : '\n' ∉ text) :
    linesFrom start text = if start ++ text = [] then [] else [start ++ text] := by
  induction text generalizing start with
  | nil => simp [linesFrom]
  | cons char text ih =>
    simp only [List.mem_cons, not_or] at absent
    simp [linesFrom, Ne.symm absent.1, ih _ absent.2]

theorem stripCarriageReturn_of_not_mem (absent : '\r' ∉ line) :
    stripCarriageReturn line = line := by
  unfold stripCarriageReturn
  cases stripped : line.dropSuffix? ['\r'] with
  | none => rfl
  | some front =>
    obtain ⟨back, rfl, carriage⟩ := List.dropSuffix?_eq_some_iff.mp stripped
    simp [beq_iff_eq.mp carriage] at absent

theorem lines_append (feed : '\n' ∉ line) (carriage : '\r' ∉ line) (rest : Text) :
    lines (line ++ '\n' :: rest) = line :: lines rest := by
  rw [lines, linesFrom_append [] feed, List.nil_append, stripCarriageReturn_of_not_mem carriage]

end

section

/-- The characters that Unicode counts as white space. -/
def isWhitespace (char : Char) : Bool :=
  (9 ≤ char.toNat && char.toNat ≤ 13) || char.toNat = 32 || char.toNat = 0x85 ||
    char.toNat = 0xa0 || char.toNat = 0x1680 || (0x2000 ≤ char.toNat && char.toNat ≤ 0x200a) ||
    char.toNat = 0x2028 || char.toNat = 0x2029 || char.toNat = 0x202f || char.toNat = 0x205f ||
    char.toNat = 0x3000

def trimStart (text : Text) : Text := text.dropWhile isWhitespace

def trim (text : Text) : Text := (trimStart (trimStart text).reverse).reverse

variable {char : Char} {text : Text}

theorem isWhitespace_of_isDigit (digit : char.isDigit = true) : isWhitespace char = false := by
  have range : 48 ≤ char.toNat ∧ char.toNat ≤ 57 := by
    simpa [Char.isDigit, Char.le_def, UInt32.le_iff_toNat_le] using digit
  simp only [isWhitespace, Bool.or_eq_false_iff, Bool.and_eq_false_iff, decide_eq_false_iff_not]
  omega

def toAsciiLowercase (text : Text) : Text := text.map Char.toLower

/-- The words of a text behind an unfinished word. -/
def wordsFrom (word : Text) : Text → List Text
  | [] => if word = [] then [] else [word]
  | char :: rest =>
    if isWhitespace char then
      if word = [] then wordsFrom [] rest else word :: wordsFrom [] rest
    else wordsFrom (word ++ [char]) rest

def splitWhitespace (text : Text) : List Text := wordsFrom [] text

def splitCrlf : Text → List Text
  | [] => [[]]
  | '\r' :: '\n' :: rest => [] :: splitCrlf rest
  | char :: rest =>
    match splitCrlf rest with
    | [] => [[char]]
    | piece :: pieces => (char :: piece) :: pieces

theorem trimStart_of_not_whitespace (dark : ∀ char ∈ text, isWhitespace char = false) :
    trimStart text = text := by
  cases text with
  | nil => rfl
  | cons char rest => simp [trimStart, dark char List.mem_cons_self]

theorem trim_of_not_whitespace (dark : ∀ char ∈ text, isWhitespace char = false) :
    trim text = text := by
  rw [trim, trimStart_of_not_whitespace dark, trimStart_of_not_whitespace (by simpa using dark),
    List.reverse_reverse]

theorem trim_cons_of_whitespace (blank : isWhitespace char = true) (text : Text) :
    trim (char :: text) = trim text := by
  simp [trim, trimStart, blank]

theorem wordsFrom_append {start word : Text} (dark : ∀ char ∈ word, isWhitespace char = false)
    (nonempty : start ++ word ≠ []) {blank : Char} (white : isWhitespace blank = true)
    (rest : Text) : wordsFrom start (word ++ blank :: rest) = (start ++ word) :: wordsFrom [] rest := by
  induction word generalizing start with
  | nil =>
    rw [List.append_nil] at nonempty
    simp [wordsFrom, white, nonempty]
  | cons char word ih =>
    rw [List.cons_append, wordsFrom, if_neg (by simp [dark char List.mem_cons_self]),
      ih (fun other member => dark other (List.mem_cons_of_mem _ member)) (by simp)]
    simp

theorem wordsFrom_of_not_whitespace {start word : Text}
    (dark : ∀ char ∈ word, isWhitespace char = false) (nonempty : start ++ word ≠ []) :
    wordsFrom start word = [start ++ word] := by
  induction word generalizing start with
  | nil =>
    rw [List.append_nil] at nonempty
    simp [wordsFrom, nonempty]
  | cons char word ih =>
    rw [wordsFrom, if_neg (by simp [dark char List.mem_cons_self]),
      ih (fun other member => dark other (List.mem_cons_of_mem _ member)) (by simp)]
    simp

theorem splitCrlf_cons (plain : char ≠ '\r') (rest : Text) :
    splitCrlf (char :: rest) = match splitCrlf rest with
      | [] => [[char]]
      | piece :: pieces => (char :: piece) :: pieces := by
  rw [splitCrlf]
  rintro _ rfl
  exact absurd rfl plain

theorem splitCrlf_of_not_mem (absent : '\r' ∉ text) : splitCrlf text = [text] := by
  induction text with
  | nil => rfl
  | cons char text ih =>
    rw [List.mem_cons, not_or] at absent
    rw [splitCrlf_cons (Ne.symm absent.1), ih absent.2]

theorem splitCrlf_append {line : Text} (absent : '\r' ∉ line) (rest : Text) :
    splitCrlf (line ++ '\r' :: '\n' :: rest) = line :: splitCrlf rest := by
  induction line with
  | nil => rw [List.nil_append, splitCrlf]
  | cons char line ih =>
    rw [List.mem_cons, not_or] at absent
    rw [List.cons_append, splitCrlf_cons (Ne.symm absent.1), ih absent.2]

end

def utf8 (text : Text) : Bytes := text.flatMap String.utf8EncodeChar

/-- The text that bytes are the UTF-8 of, if they are. -/
def fromUtf8 (bytes : Bytes) : Option Text := bytes.toByteArray.utf8Decode?.map Array.toList

@[simp] theorem utf8_nil : utf8 [] = [] := rfl

@[simp] theorem utf8_cons (char : Char) (rest : Text) :
    utf8 (char :: rest) = String.utf8EncodeChar char ++ utf8 rest := List.flatMap_cons

@[simp] theorem utf8_append (front rest : Text) : utf8 (front ++ rest) = utf8 front ++ utf8 rest :=
  List.flatMap_append

@[simp] theorem fromUtf8_utf8 (text : Text) : fromUtf8 (utf8 text) = some text := by
  have encoded : (utf8 text).toByteArray = text.utf8Encode := rfl
  rw [fromUtf8, encoded, List.utf8Decode?_utf8Encode]
  simp

theorem fromUtf8_eq_some {bytes : Bytes} {text : Text} :
    fromUtf8 bytes = some text ↔ bytes = utf8 text := by
  refine ⟨fun read => ?_, fun same => same ▸ fromUtf8_utf8 text⟩
  obtain ⟨chars, decoded, rfl⟩ := Option.map_eq_some_iff.mp read
  have valid : bytes.toByteArray.utf8Decode?.isSome := by simp [decoded]
  have back := @ByteArray.utf8Encode_get_utf8Decode? bytes.toByteArray valid
  simp only [decoded, Option.get_some] at back
  have same := congrArg (fun array => array.data.toList) back
  simpa [List.utf8Encode, utf8] using same.symm

theorem toNat_of_mem_utf8EncodeChar {char : Char} {byte : UInt8}
    (member : byte ∈ String.utf8EncodeChar char) (ascii : byte.toNat < 128) :
    char.toNat = byte.toNat := by
  have value : char.toNat = char.val.toNat := rfl
  unfold String.utf8EncodeChar at member
  simp only at member
  split at member
  · simp only [List.mem_singleton] at member
    subst member
    rw [UInt8.toNat_ofNat', Nat.mod_eq_of_lt (by omega), value]
  all_goals
    exfalso
    repeat' split at member
    all_goals
      simp only [List.mem_cons, List.not_mem_nil, or_false] at member
      rcases member with rfl | rfl | rfl | rfl
      all_goals
        simp only [UInt8.toNat_ofNat'] at ascii
        omega

theorem toNat_lt_of_mem_utf8 {text : Text} {byte : UInt8} (member : byte ∈ utf8 text) :
    byte.toNat < 248 := by
  obtain ⟨char, -, member⟩ := List.mem_flatMap.mp member
  unfold String.utf8EncodeChar at member
  simp only at member
  repeat' split at member
  all_goals
    simp only [List.mem_cons, List.not_mem_nil, or_false] at member
    rcases member with rfl | rfl | rfl | rfl
    all_goals
      rw [UInt8.toNat_ofNat']
      omega

theorem exists_of_mem_utf8 {text : Text} {byte : UInt8} (member : byte ∈ utf8 text)
    (ascii : byte.toNat < 128) : ∃ char ∈ text, char.toNat = byte.toNat := by
  obtain ⟨char, inside, encoded⟩ := List.mem_flatMap.mp member
  exact ⟨char, inside, toNat_of_mem_utf8EncodeChar encoded ascii⟩

theorem utf8_injective : Function.Injective utf8 := by
  intro left right same
  simpa using congrArg fromUtf8 same

theorem compare_bytes_lt {low high : Nat} (less : low < high) (fits : high < 256)
    (left right : Bytes) : compare (UInt8.ofNat low :: left) (UInt8.ofNat high :: right) = .lt := by
  have first : compare (UInt8.ofNat low) (UInt8.ofNat high) = .lt := by
    rw [Std.compare_eq_lt, UInt8.lt_iff_toNat_lt, UInt8.toNat_ofNat', UInt8.toNat_ofNat']
    omega
  rw [List.compare_cons_cons, first]
  rfl

theorem compare_bytes_of_le {low high : Nat} (atMost : low ≤ high) (fits : high < 256)
    {left right : Bytes} (rest : low = high → compare left right = .lt) :
    compare (UInt8.ofNat low :: left) (UInt8.ofNat high :: right) = .lt := by
  rcases Nat.lt_or_eq_of_le atMost with less | same
  · exact compare_bytes_lt less fits left right
  · rw [List.compare_cons_cons, same, Std.compare_self, rest same]
    rfl

theorem compare_utf8EncodeChar_lt {low high : Char} (less : low.toNat < high.toNat)
    (left right : Bytes) :
    compare (String.utf8EncodeChar low ++ left) (String.utf8EncodeChar high ++ right) = .lt := by
  have lowValue : low.val.toNat = low.toNat := rfl
  have highValue : high.val.toNat = high.toNat := rfl
  have bound : high.toNat < 0x110000 := by
    rcases high.valid with small | ⟨-, large⟩
    · exact Nat.lt_trans small (by decide)
    · exact large
  unfold String.utf8EncodeChar
  simp only [lowValue, highValue]
  generalize low.toNat = low at *
  generalize high.toNat = high at *
  split_ifs
  all_goals simp only [List.cons_append, List.nil_append]
  all_goals try exact compare_bytes_lt (by omega) (by omega) _ _
  · exact compare_bytes_of_le (by omega) (by omega) fun _ =>
      compare_bytes_lt (by omega) (by omega) _ _
  · exact compare_bytes_of_le (by omega) (by omega) fun _ =>
      compare_bytes_of_le (by omega) (by omega) fun _ =>
        compare_bytes_lt (by omega) (by omega) _ _
  · exact compare_bytes_of_le (by omega) (by omega) fun _ =>
      compare_bytes_of_le (by omega) (by omega) fun _ =>
        compare_bytes_of_le (by omega) (by omega) fun _ =>
          compare_bytes_lt (by omega) (by omega) _ _

theorem compare_char (left right : Char) : compare left right = compare left.toNat right.toNat := by
  simp only [compare, compareOfLessAndEq, Char.lt_def, UInt32.lt_iff_toNat_lt, ← Char.toNat_inj]
  rfl

theorem utf8_ordered : OrderedCode String.utf8EncodeChar where
  nonempty char := by
    apply List.ne_nil_of_length_pos
    rw [String.length_utf8EncodeChar]
    exact Char.utf8Size_pos char
  less low high smaller := by
    rw [compare_char, Nat.compare_eq_lt] at smaller
    exact compare_utf8EncodeChar_lt smaller

theorem compare_utf8 (left right : Text) : compare (utf8 left) (utf8 right) = compare left right :=
  utf8_ordered.compare_flatMap left right

end WombatKV
