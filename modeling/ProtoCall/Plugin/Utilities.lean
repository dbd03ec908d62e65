import Mathlib.Data.List.Basic
import Mathlib.Data.Nat.Bitwise
import Mathlib.Logic.Function.Iterate

namespace ProtoCall

-- The first occurrence of `search` in a string, as `std::string::find` looks for it.
def find (search : List Char) : List Char → Option ℕ
  | []      => if search = [] then some 0 else none
  | c :: cs => if search.isPrefixOf (c :: cs) then some 0 else (find search cs).map (· + 1)

-- `name.find(text) == 0`
def startsWith (text name : String) : Bool := text.toList.isPrefixOf name.toList

-- `name.substr(n)`
def substr (name : String) (n : ℕ) : String := .ofList (name.toList.drop n)

def isVoidType (type : String) : Bool := type == "Void"

def toExtensionName (methodName : String) : String :=
  .ofList (methodName.toList.map fun c => if c = '.' then '_' else c)

-- The loop of `replace`, with the string and the position it works on. It gives up (`none`) after
-- `fuel` rounds.
def replaceLoop (search replacement : List Char) : ℕ → List Char → ℕ → Option (List Char)
  | 0, _, _            => none
  | fuel + 1, str, pos =>
    match find search (str.drop pos) with
    | none   => some str
    | some n =>
      let pos := pos + n
      let str := str.take pos ++ replacement ++ str.drop (pos + search.length)
      replaceLoop search replacement fuel str (pos + replacement.length)

-- No string has more occurrences than characters.
def replace (str search replacement : List Char) : List Char :=
  (replaceLoop search replacement (str.length + 1) str 0).getD str

def externalTypeToClass (name : String) : String :=
  let ext := "external.".toList
  let cls := name.toList
  let cls := if (find ext cls).isSome then cls.drop ext.length else cls
  .ofList (replace cls ".".toList "::".toList)

-- The loop of `externalTypeToHeaderPath`, on what begins at `start`. Each round finds another dot.
def externalTypeToHeaderPathLoop : ℕ → String → List Char → String
  | 0, header, _           => header
  | fuel + 1, header, type =>
    match find ".".toList type with
    | none       => header
    | some «end» =>
      let name := String.ofList (type.take «end»)
      externalTypeToHeaderPathLoop fuel (header ++ name.toLower ++ "/") (type.drop («end» + 1))

-- Where there is no dot at all, `npos + 1` is zero.
def externalTypeToHeaderPath (type : String) : String :=
  let start := ((find ".".toList type.toList).map (· + 1)).getD 0
  externalTypeToHeaderPathLoop (type.toList.length + 1) "" (type.toList.drop start)

-- The standard CRC-32, one bit and one byte at a time (polynomial 0x04C11DB7, reflected).
def crcBit (crc : ℕ) : ℕ :=
  if crc % 2 = 1 then (crc / 2) ^^^ 0xEDB88320 else crc / 2

def crcByte (crc : ℕ) (byte : UInt8) : ℕ :=
  crcBit^[8] (crc ^^^ byte.toNat)

def crc32 (bytes : List UInt8) : ℕ :=
  bytes.foldl crcByte 0xFFFFFFFF ^^^ 0xFFFFFFFF

def minExtensionNumber : ℤ := 9

def maxExtensionNumber : ℤ := 536870911

def firstReservedNumber : ℤ := 19000

def lastReservedNumber : ℤ := 19999

def numberOfReservedExtensionNumbers : ℤ := lastReservedNumber - firstReservedNumber + 1

def availableExtensionNumbers : ℤ :=
  maxExtensionNumber - minExtensionNumber + 1 - numberOfReservedExtensionNumbers

def isValidExtensionNumber (number : ℤ) : Bool :=
  (minExtensionNumber < number && number < maxExtensionNumber) &&
    !(number ≥ firstReservedNumber && number ≤ lastReservedNumber)

-- The quotient and the product are of type `double` in the source. They are exact here, where
-- `roundedExtensionNumber` rounds them, and the cast truncates.
def generateExtensionNumber (methodName : String) : ℤ :=
  let hash := crc32 methodName.toUTF8.toList
  minExtensionNumber + availableExtensionNumbers * hash / 4294967295

end ProtoCall
