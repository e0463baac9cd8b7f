import BuildDigest.Text.Digit

/-!
# Reading UTF-8

Decoding stops at the first octet sequence that is not well formed. A fault
names the octets at fault: a lead octet that starts nothing, a sequence whose
continuation is wrong (the octets before the wrong one), or a sequence cut off
by the end of the data.

A file is read in chunks. A sequence that the end of a chunk cuts off is held back
and put in front of the next chunk; a chunk with a fault yields no characters, and
the position of the fault counts from the octets in front of that chunk.

Main definitions.
* `decode` — the characters of octets up to the first fault.
* `decodeChunks` — the characters of a file up to the chunk with the first fault.
-/

namespace BuildDigest.Text.Utf8

/-- Why a sequence of octets is no character. -/
inductive Reason
  | start
  | continuation
  /-- The data end inside a sequence. -/
  | cutOff
  /-- The data end after two octets that can only begin a surrogate. -/
  | cutSurrogate
  deriving DecidableEq, Repr

/-- Whether a sequence is held back until more data come or there are none. -/
def Reason.isPending : Reason → Bool
  | .cutOff | .cutSurrogate => true
  | .start | .continuation => false

/-- A malformed sequence: its position, its octets and the reason. -/
structure Fault where
  position : Nat
  octets : List UInt8
  reason : Reason
  deriving DecidableEq, Repr

/-- One step of decoding. -/
inductive Step
  | char (c : Char) (width : Nat)
  | fault (width : Nat) (reason : Reason)
  deriving DecidableEq, Repr

def isContinuation (b : UInt8) : Bool :=
  0x80 ≤ b && b < 0xc0

/-- Whether an octet may stand second after a lead octet: the overlong forms, the
surrogates and the codes beyond U+10FFFF are excluded here. -/
def isSecond (lead b : UInt8) : Bool :=
  isContinuation b &&
    !((lead == 0xe0 && b < 0xa0) || (lead == 0xed && 0xa0 ≤ b) ||
      (lead == 0xf0 && b < 0x90) || (lead == 0xf4 && 0x90 ≤ b))

/-- Why the octet after a lead octet is not its second one; the flag tells whether the data end
with it. -/
def secondReason (lead b : UInt8) (atEnd : Bool) : Reason :=
  if lead == 0xed && isContinuation b && atEnd then .cutSurrogate else .continuation

/-- The low six bits of a continuation octet. -/
def payload (b : UInt8) : Nat :=
  b.toNat % 64

/-- What the first octets of the data are. -/
def step (lead : UInt8) (rest : List UInt8) : Step :=
  if lead < 0x80 then .char (Char.ofNat lead.toNat) 1
  else if lead < 0xc2 || 0xf5 ≤ lead then .fault 1 .start
  else
    match rest with
    | [] => .fault 1 .cutOff
    | b :: rest =>
      if !isSecond lead b then .fault 1 (secondReason lead b rest.isEmpty)
      else if lead < 0xe0 then .char (Char.ofNat (lead.toNat % 32 * 64 + payload b)) 2
      else
        match rest with
        | [] => .fault 2 .cutOff
        | c :: rest =>
          if !isContinuation c then .fault 2 .continuation
          else if lead < 0xf0 then
            .char (Char.ofNat ((lead.toNat % 16 * 64 + payload b) * 64 + payload c)) 3
          else
            match rest with
            | [] => .fault 3 .cutOff
            | d :: _ =>
              if !isContinuation d then .fault 3 .continuation
              else
                .char (Char.ofNat
                  (((lead.toNat % 8 * 64 + payload b) * 64 + payload c) * 64 + payload d)) 4

/-- Decoding from a position on, with the characters so far in reverse. -/
def decodeFrom (position : Nat) (before : List Char) (data : List UInt8) :
    List Char × Option Fault :=
  match data with
  | [] => (before.reverse, none)
  | lead :: rest =>
    match step lead rest with
    | .char c width => decodeFrom (position + width) (c :: before) (rest.drop (width - 1))
    | .fault width reason =>
      (before.reverse, some ⟨position, (lead :: rest).take width, reason⟩)
termination_by data.length
decreasing_by simp only [List.length_drop, List.length_cons]; omega

/-- The characters up to the first malformed sequence, and that sequence if there is one. -/
def decode (data : List UInt8) : List Char × Option Fault :=
  decodeFrom 0 [] data

/-- How many octets of a file are read at a time. -/
def chunkSize : Nat := 8192

/-- The characters of a file up to the chunk with the first fault, and that fault if there is
one. The characters of the chunks before and the octets held back from them are given. -/
def decodeChunks (before : List Char) (held octets : List UInt8) : List Char × Option Fault :=
  match octets with
  | [] => (before, (decode held).2)
  | b :: rest =>
    let data := held ++ (b :: rest).take chunkSize
    match decode data with
    | (cs, none) => decodeChunks (before ++ cs) [] ((b :: rest).drop chunkSize)
    | (cs, some fault) =>
      if fault.reason.isPending then
        decodeChunks (before ++ cs) (data.drop fault.position) ((b :: rest).drop chunkSize)
      else (before, some fault)
termination_by octets.length
decreasing_by all_goals simp only [List.length_drop, List.length_cons, chunkSize]; omega

def Reason.message : Reason → String
  | .start => "invalid start byte"
  | .continuation | .cutSurrogate => "invalid continuation byte"
  | .cutOff => "unexpected end of data"

/-- The wording of a fault. A single octet is shown, a longer sequence is named by its
positions. -/
def Fault.message (f : Fault) : String :=
  let place := match f.octets with
    | [b] => s!"byte 0x{String.ofList (hexChars 2 b.toNat)} in position {f.position}"
    | octets => s!"bytes in position {f.position}-{f.position + octets.length - 1}"
  s!"'utf-8' codec can't decode {place}: {f.reason.message}"

end BuildDigest.Text.Utf8
