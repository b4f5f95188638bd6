import Mathlib.Data.Int.Notation
import Semantik.Lib.Utf8

/-!
# Pieces of the Rust standard library

Durations, futures, string trimming, integer parsing and byte slices, as far as the client uses
them. Integers are unbounded here; a range is checked where the code checks it.
-/

namespace Semantik

/-- A duration in nanoseconds. -/
abbrev Duration := ℕ

def Duration.fromSecs (secs : ℕ) : Duration := secs * 10 ^ 9

def Duration.fromMillis (ms : ℕ) : Duration := ms * 10 ^ 6

/-- A clock reading in nanoseconds since the Unix epoch. -/
abbrev SystemTime := ℤ

/-- What a future resolves to, `none` if it never does. -/
abbrev Future (α : Type) := Option α

def asBytes (s : String) : List UInt8 := s.toUTF8.data.toList

theorem asBytes_eq (s : String) : asBytes s = s.toList.flatMap String.utf8EncodeChar := by
  have hencode : asBytes (String.ofList s.toList) = s.toList.flatMap String.utf8EncodeChar :=
    List.toList_data_toByteArray
  rwa [String.ofList_toList] at hencode

theorem asBytes_append (s t : String) : asBytes (s ++ t) = asBytes s ++ asBytes t := by
  rw [asBytes_eq, asBytes_eq, asBytes_eq, String.toList_append, List.flatMap_append]

theorem lossy_asBytes (s : String) : Utf8.lossy (asBytes s) = s := by
  rw [asBytes_eq, Utf8.lossy_encode, String.ofList_toList]

theorem asBytes_inj {s t : String} : asBytes s = asBytes t ↔ s = t :=
  ⟨fun h => by rw [← lossy_asBytes s, h, lossy_asBytes], congrArg asBytes⟩

theorem asBytes_eq_nil_iff {s : String} : asBytes s = [] ↔ s = "" := asBytes_inj (t := "")

/-- `s[i..j]`, which exists only for indices in range. -/
def slice (s : List UInt8) (i j : ℕ) (_ : i ≤ j ∧ j ≤ s.length) : List UInt8 := (s.take j).drop i

/-- The Unicode property `White_Space`. -/
def isWhitespace (c : Char) : Bool :=
  let n := c.toNat
  (0x09 ≤ n && n ≤ 0x0D) || n = 0x20 || n = 0x85 || n = 0xA0 || n = 0x1680 ||
    (0x2000 ≤ n && n ≤ 0x200A) || n = 0x2028 || n = 0x2029 || n = 0x202F || n = 0x205F || n = 0x3000

def trim (s : List Char) : List Char :=
  ((s.dropWhile isWhitespace).reverse.dropWhile isWhitespace).reverse

def toAsciiLowercase (c : Char) : Char :=
  if 'A' ≤ c ∧ c ≤ 'Z' then Char.ofNat (c.toNat + 32) else c

def parseDigits (s : List Char) : Option ℕ :=
  if s ≠ [] ∧ s.all Char.isDigit then some (s.foldl (fun n c => n * 10 + (c.toNat - 48)) 0) else none

/-- `parse` to an unsigned type with the given largest value: one leading `+` is accepted. -/
def parseUnsigned (max : ℕ) : List Char → Option ℕ
  | '+' :: s => (parseDigits s).filter (· ≤ max)
  | s => (parseDigits s).filter (· ≤ max)

/-- `parse` to a signed type of range `-(max + 1) .. max`: one leading sign is accepted. -/
def parseSigned (max : ℕ) : List Char → Option ℤ
  | '-' :: s => ((parseDigits s).filter (· ≤ max + 1)).map (fun n : ℕ => -(n : ℤ))
  | '+' :: s => ((parseDigits s).filter (· ≤ max)).map (fun n : ℕ => (n : ℤ))
  | s => ((parseDigits s).filter (· ≤ max)).map (fun n : ℕ => (n : ℤ))

def parseU32 : List Char → Option ℕ := parseUnsigned (2 ^ 32 - 1)

def parseI32 : List Char → Option ℤ := parseSigned (2 ^ 31 - 1)

def parseI64 : List Char → Option ℤ := parseSigned (2 ^ 63 - 1)

def asU64 (n : ℤ) : ℕ := (n % 2 ^ 64).toNat

def debugBytes (s : List UInt8) : String :=
  "[" ++ ", ".intercalate (s.map (fun b => toString b.toNat)) ++ "]"

/-- An IEEE 754 single, by its bits. -/
structure F32 where
  bits : UInt32
deriving DecidableEq, Repr

def F32.isFinite (f : F32) : Bool := (f.bits >>> 23) &&& 0xFF != 0xFF

/-- A map with its entries in the order in which it is iterated. -/
structure HashMap where
  entries : List (String × String)
  nodup : (entries.map Prod.fst).Nodup
deriving DecidableEq, Repr

/-- How `{:?}` writes a character of a string. The predicate is the table of those characters that
are written as they are. -/
def escapeDebug (printable : Char → Bool) (c : Char) : String :=
  if c = '\x00' then "\\0"
  else if c = '\t' then "\\t"
  else if c = '\r' then "\\r"
  else if c = '\n' then "\\n"
  else if c = '\\' then "\\\\"
  else if c = '"' then "\\\""
  else if printable c then c.toString
  else "\\u\x7b" ++ String.ofList (Nat.toDigits 16 c.toNat) ++ "\x7d"

def debugStr (printable : Char → Bool) (s : String) : String :=
  "\"" ++ String.join (s.toList.map (escapeDebug printable)) ++ "\""

example : debugStr (fun _ => true) "a\n" = "\"a\\n\"" := by decide

example : parseI64 "+12".toList = some 12 ∧ parseI64 "-".toList = none ∧
    parseU32 "-1".toList = none ∧ parseU32 "4294967296".toList = none := by decide

end Semantik
