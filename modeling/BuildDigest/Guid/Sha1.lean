/-!
# SHA-1

The digest of FIPS 180-4 over a list of octets: the padded message is taken in
blocks of sixteen words, each extended to eighty words and folded into a state
of five words.
-/

namespace BuildDigest.Sha1

/-- The chaining state: five words. -/
structure State where
  a : UInt32
  b : UInt32
  c : UInt32
  d : UInt32
  e : UInt32
  deriving DecidableEq, Repr

def State.initial : State :=
  ⟨0x67452301, 0xefcdab89, 0x98badcfe, 0x10325476, 0xc3d2e1f0⟩

/-- The sum of two states, word by word. -/
def State.add (s t : State) : State :=
  ⟨s.a + t.a, s.b + t.b, s.c + t.c, s.d + t.d, s.e + t.e⟩

/-- A word turned left by less than its width. -/
def rotate (w : UInt32) (n : UInt32) : UInt32 :=
  (w <<< n) ||| (w >>> (32 - n))

/-- The last `width` octets of a number, the highest first. -/
def octets : Nat → Nat → List UInt8
  | 0, _ => []
  | width + 1, n => octets width (n / 256) ++ [UInt8.ofNat (n % 256)]

/-- The message with a single one bit, zeros up to eight octets short of a whole block, and
its length in bits. -/
def padded (message : List UInt8) : List UInt8 :=
  let zeros := (119 - message.length % 64) % 64
  message ++ 0x80 :: List.replicate zeros 0 ++ octets 8 (8 * message.length)

/-- Octets taken four at a time as words. -/
def words : List UInt8 → List UInt32
  | a :: b :: c :: d :: rest =>
    (a.toUInt32 <<< 24 ||| b.toUInt32 <<< 16 ||| c.toUInt32 <<< 8 ||| d.toUInt32) :: words rest
  | _ => []

/-- The schedule in reverse, extended by a count of words. -/
def extend : Nat → List UInt32 → List UInt32
  | 0, ws => ws
  | n + 1, ws =>
    let word := rotate (ws.getD 2 0 ^^^ ws.getD 7 0 ^^^ ws.getD 13 0 ^^^ ws.getD 15 0) 1
    extend n (word :: ws)

/-- The function and the constant of a round. -/
def mix (round : Nat) (s : State) : UInt32 :=
  if round < 20 then ((s.b &&& s.c) ||| (~~~s.b &&& s.d)) + 0x5a827999
  else if round < 40 then (s.b ^^^ s.c ^^^ s.d) + 0x6ed9eba1
  else if round < 60 then ((s.b &&& s.c) ||| (s.b &&& s.d) ||| (s.c &&& s.d)) + 0x8f1bbcdc
  else (s.b ^^^ s.c ^^^ s.d) + 0xca62c1d6

def turn (round : Nat) (s : State) (word : UInt32) : State :=
  ⟨rotate s.a 5 + mix round s + s.e + word, s.a, rotate s.b 30, s.c, s.d⟩

/-- The rounds over the words of a schedule, from a round on. -/
def rounds (round : Nat) (s : State) : List UInt32 → State
  | [] => s
  | word :: rest => rounds (round + 1) (turn round s word) rest

def compress (s : State) (block : List UInt32) : State :=
  s.add (rounds 0 s (extend 64 block.reverse).reverse)

/-- The blocks of a schedule folded into the state. The first argument bounds the blocks. -/
def fold : Nat → State → List UInt32 → State
  | 0, s, _ => s
  | _, s, [] => s
  | n + 1, s, ws => fold n (compress s (ws.take 16)) (ws.drop 16)

def digest (message : List UInt8) : List UInt8 :=
  let ws := words (padded message)
  let s := fold (ws.length / 16) .initial ws
  [s.a, s.b, s.c, s.d, s.e].flatMap fun w => octets 4 w.toNat

@[simp] theorem length_octets (width n : Nat) : (octets width n).length = width := by
  induction width generalizing n with
  | zero => rfl
  | succ width ih => simp [octets, ih]

theorem length_digest (message : List UInt8) : (digest message).length = 20 := by
  simp [digest]

end BuildDigest.Sha1
