import BuildDigest.Fault
import BuildDigest.Guid.Sha1
import BuildDigest.Text.Blank
import BuildDigest.Text.Digit

/-!
# Globally unique identifiers

A project is identified by 128 bits: those it declares, or those of its path,
hashed in the URL name space (version 5). A path is a list of Unicode scalar values;
halves of surrogate pairs are none, so every path can be written as octets and
has an identifier.

Main definitions.
* `Guid.ofPath` — the identifier of a path, `Guid.ofGiven` — of one that may be any value.
* `Guid.read?` — reading a declared identifier.
* `Guid.text` — writing one.
-/

namespace BuildDigest

/-- An identifier of 128 bits. -/
structure Guid where
  bits : Nat
  deriving DecidableEq, Repr

namespace Guid

/-- The number of a list of octets, the highest first. -/
def ofOctets (octets : List UInt8) : Guid :=
  ⟨octets.foldl (fun n b => n * 256 + b.toNat) 0⟩

def urlNamespace : List UInt8 :=
  Sha1.octets 16 0x6ba7b8119dad11d180b400c04fd430c8

/-- The first sixteen octets of a digest with the version and the variant marked. -/
def mark (octets : List UInt8) : List UInt8 :=
  (octets.take 16).mapIdx fun i b =>
    if i = 6 then b &&& 0x0f ||| 0x50 else if i = 8 then b &&& 0x3f ||| 0x80 else b

def ofPath (path : String) : Guid :=
  ofOctets (mark (Sha1.digest (urlNamespace ++ path.toUTF8.toList)))

/-- The identifier of a path that may be any value. -/
def ofGiven : Value → Except Fault Guid
  | .text path => .ok (ofPath path)
  | _ => .error .notEncodable

/-- An identifier as five groups of hexadecimal digits. -/
def text (g : Guid) : String :=
  let ds := Text.hexChars 32 g.bits
  String.ofList <| ds.take 8 ++ '-' :: (ds.drop 8).take 4 ++ '-' :: (ds.drop 12).take 4 ++
    '-' :: (ds.drop 16).take 4 ++ '-' :: ds.drop 20

-- ---------------------------------------------------------------------------
-- Reading
-- ---------------------------------------------------------------------------

/-- A text without the occurrences of a word, from left to right. The number counts the
characters of an occurrence that are still to be skipped. -/
def without (word : List Char) : Nat → List Char → List Char
  | _, [] => []
  | skip + 1, _ :: rest => without word skip rest
  | 0, c :: rest =>
    if word.isPrefixOf (c :: rest) then without word (word.length - 1) rest
    else c :: without word 0 rest

def isBrace (c : Char) : Bool :=
  c == '\x7b' || c == '\x7d'

/-- The characters that are to be read as one hexadecimal number. -/
def body (cs : List Char) : List Char :=
  let cs := without "uuid:".toList 0 (without "urn:".toList 0 cs)
  let cs := ((cs.dropWhile isBrace).reverse.dropWhile isBrace).reverse
  cs.filter (· != '-')

/-- Whether a character may surround a number: the ASCII white space, and every blank
beyond ASCII. -/
def isMargin (c : Char) : Bool :=
  c.toNat == 0x20 || (0x09 ≤ c.toNat && c.toNat ≤ 0x0d) || (0x80 ≤ c.toNat && Text.isBlank c)

/-- The value of a hexadecimal digit, the decimal ones in any script. -/
def digit? (c : Char) : Option Nat :=
  match Text.hexValue? c with
  | some n => some n
  | none => Text.decimalValue? c

/-- Digits with single underscores between them, after the digits already read. -/
def digitsFrom? (acc : Nat) : List Char → Option Nat
  | [] => some acc
  | '_' :: c :: rest => (digit? c).bind fun d => digitsFrom? (acc * 16 + d) rest
  | c :: rest => (digit? c).bind fun d => digitsFrom? (acc * 16 + d) rest

/-- The digits of a number after a sign and a mark of the base, an underscore after the
mark included. -/
def unmarked (cs : List Char) : List Char :=
  match cs with
  | z :: x :: rest =>
    if digit? z = some 0 ∧ (x = 'x' ∨ x = 'X') then
      match rest with
      | '_' :: rest => rest
      | rest => rest
    else cs
  | cs => cs

/-- The hexadecimal number that a text writes: it may stand between blanks, after a plus
sign and after a mark of the base. -/
def number? (cs : List Char) : Option Nat :=
  let cs := ((cs.dropWhile isMargin).reverse.dropWhile isMargin).reverse
  let cs := match cs with
    | '+' :: rest => rest
    | cs => cs
  match unmarked cs with
  | [] => none
  | '_' :: _ => none
  | digits => digitsFrom? 0 digits

/-- The identifier that a text writes: thirty-two characters that are one hexadecimal
number, once the words `urn:` and `uuid:`, the braces and the dashes are taken away. -/
def read? (s : String) : Option Guid :=
  let cs := body s.toList
  if cs.length = 32 then (number? cs).map Guid.mk else none

end Guid

end BuildDigest
