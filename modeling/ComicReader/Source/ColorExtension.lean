import Mathlib.Data.List.Basic
import Mathlib.Data.Char

/-!
# `UICOlorExtension`, colours from hexadecimal text

Two functions of text: one reads digits as a number, the other cuts a colour
string into three pairs of digits. The first works on the bytes of a Swift
string; the second on an `NSString`, whose length and positions count UTF-16
units, so a pair can cut a character in two.

A Swift string is the list of its Unicode scalars here and an `NSString` the
list of its units. Sums are over `Int`: every `Double` the code forms from a
pair is an integer below `2 ^ 53`. What Unicode tabulates is the structure
`UnicodeData`; of its tables only the ASCII part is known.
-/

namespace ComicReader

/-- The Unicode tables the code depends on. -/
structure UnicodeData where
  /-- The full upper-case mapping of a scalar. -/
  uppercaseMapping : Char → List Char
  /-- The units begin with something that combines with the character before
  it. `NSString` searches by characters, so text does not occur where the
  character it ends with goes on. -/
  combines : List Nat → Bool
  uppercase_ascii : ∀ c : Char, c.toNat < 128 →
    uppercaseMapping c = [c.toUpper]
  combines_nil : combines [] = false
  combines_ascii : ∀ (u : Nat) (rest : List Nat), u < 128 →
    combines (u :: rest) = false

/-! ## Swift strings -/

/-- `uppercased()`: the mappings of the scalars, one after the other. -/
def uppercased (U : UnicodeData) (from_ : List Char) : List Char :=
  from_.flatMap U.uppercaseMapping

/-- The `utf8` view. -/
def utf8 (str : List Char) : List UInt8 := str.flatMap String.utf8EncodeChar

/-- `String(n, radix: 16)`. -/
def stringRadix16 (n : Int) : List Char :=
  if n < 0 then '-' :: Nat.toDigits 16 n.natAbs
  else Nat.toDigits 16 n.natAbs

/-! ## `NSString` -/

/-- The UTF-16 units of a scalar. -/
def utf16Char (c : Char) : List Nat :=
  if c.toNat < 0x10000 then [c.toNat]
  else
    [0xD800 + (c.toNat - 0x10000) / 0x400,
      0xDC00 + (c.toNat - 0x10000) % 0x400]

/-- The conversion `as NSString`. -/
def utf16 (str : List Char) : List Nat := str.flatMap utf16Char

def isHighSurrogate (u : Nat) : Bool := 0xD800 ≤ u && u < 0xDC00

def isLowSurrogate (u : Nat) : Bool := 0xDC00 ≤ u && u < 0xE000

/-- The conversion to a Swift string. A surrogate without its partner becomes
the replacement character. -/
def decodeUTF16 : List Nat → List Char
  | [] => []
  | [u] =>
      if isHighSurrogate u || isLowSurrogate u then ['\uFFFD']
      else [Char.ofNat u]
  | u :: v :: rest =>
      if isHighSurrogate u && isLowSurrogate v then
        Char.ofNat (0x10000 + (u - 0xD800) * 0x400 + (v - 0xDC00)) ::
          decodeUTF16 rest
      else if isHighSurrogate u || isLowSurrogate u then
        '\uFFFD' :: decodeUTF16 (v :: rest)
      else Char.ofNat u :: decodeUTF16 (v :: rest)

/-- `replacingOccurrences(of: " ", with: "")`. -/
def removeSpaces (U : UnicodeData) : List Nat → List Nat
  | [] => []
  | u :: rest =>
      if u = 0x20 ∧ U.combines rest = false then removeSpaces U rest
      else u :: removeSpaces U rest

/-- `hasPrefix`. -/
def startsWith (U : UnicodeData) (str target : List Nat) : Prop :=
  target <+: str ∧ U.combines (str.drop target.length) = false

instance {U : UnicodeData} {str target : List Nat} :
    Decidable (startsWith U str target) :=
  inferInstanceAs (Decidable (_ ∧ _))

/-- `substring(from:)`. -/
def substringFrom (str : List Nat) (location : Nat) : List Nat :=
  str.drop location

/-- `substring(with: NSRange(location:length:))`, as a Swift string. -/
def substringWith (str : List Nat) (location length : Nat) : List Char :=
  decodeUTF16 ((str.drop location).take length)

/-! ## The functions -/

/-- The body of the loop over the bytes. -/
def hexByte (sum : Int) (i : UInt8) : Int :=
  let sum := sum * 16 + i.toNat - 48
  if i ≥ 65 then sum - 7 else sum

def hexStringToDouble (U : UnicodeData) (from_ : List Char) : Int :=
  (utf8 (uppercased U from_)).foldl hexByte 0

/-- The two `hasPrefix` tests and what they take off. -/
def withoutMarks (U : UnicodeData) (colorStr : List Nat) : List Nat :=
  let colorStr :=
    if startsWith U colorStr (utf16 ['0', 'X']) then substringFrom colorStr 2
    else colorStr
  if startsWith U colorStr (utf16 ['#']) then substringFrom colorStr 1
  else colorStr

def hexStringToColorValue (U : UnicodeData) (hexString : List Char) :
    Int × Int × Int :=
  let colorStr := removeSpaces U (utf16 hexString)
  if colorStr.length < 6 then (0, 0, 0)
  else
    let colorStr := withoutMarks U colorStr
    if colorStr.length ≠ 6 then (0, 0, 0)
    else
      (hexStringToDouble U (substringWith colorStr 0 2),
        hexStringToDouble U (substringWith colorStr 2 2),
        hexStringToDouble U (substringWith colorStr 4 2))

/-- The channels of `color(decNum:)`, before the division by 255. -/
def decNumChannels (U : UnicodeData) (decNum : Int) : Int × Int × Int :=
  hexStringToColorValue U (stringRadix16 decNum)

end ComicReader
