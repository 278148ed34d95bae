/-!
# SHA-256

The digest that names the content of a package: a message is padded to whole blocks of sixteen
words, each block is mixed into eight chaining words by sixty-four rounds, and the digest is the
final words in hexadecimal.
-/

namespace StreamPipeline.Digest

/-- The eight words that pass from block to block. -/
structure Chain where
  (a b c d e f g h : UInt32)
  deriving DecidableEq, Repr

/-- The words before the first block: fractions of the square roots of the first eight primes. -/
def Chain.initial : Chain :=
  ⟨0x6a09e667, 0xbb67ae85, 0x3c6ef372, 0xa54ff53a,
   0x510e527f, 0x9b05688c, 0x1f83d9ab, 0x5be0cd19⟩

/-- Word by word addition. -/
def Chain.add (s t : Chain) : Chain :=
  ⟨s.a + t.a, s.b + t.b, s.c + t.c, s.d + t.d, s.e + t.e, s.f + t.f, s.g + t.g, s.h + t.h⟩

/-- A constant for each round: fractions of the cube roots of the first sixty-four primes. -/
def roundConstants : List UInt32 := [
  0x428a2f98, 0x71374491, 0xb5c0fbcf, 0xe9b5dba5, 0x3956c25b, 0x59f111f1, 0x923f82a4, 0xab1c5ed5,
  0xd807aa98, 0x12835b01, 0x243185be, 0x550c7dc3, 0x72be5d74, 0x80deb1fe, 0x9bdc06a7, 0xc19bf174,
  0xe49b69c1, 0xefbe4786, 0x0fc19dc6, 0x240ca1cc, 0x2de92c6f, 0x4a7484aa, 0x5cb0a9dc, 0x76f988da,
  0x983e5152, 0xa831c66d, 0xb00327c8, 0xbf597fc7, 0xc6e00bf3, 0xd5a79147, 0x06ca6351, 0x14292967,
  0x27b70a85, 0x2e1b2138, 0x4d2c6dfc, 0x53380d13, 0x650a7354, 0x766a0abb, 0x81c2c92e, 0x92722c85,
  0xa2bfe8a1, 0xa81a664b, 0xc24b8b70, 0xc76c51a3, 0xd192e819, 0xd6990624, 0xf40e3585, 0x106aa070,
  0x19a4c116, 0x1e376c08, 0x2748774c, 0x34b0bcb5, 0x391c0cb3, 0x4ed8aa4a, 0x5b9cca4f, 0x682e6ff3,
  0x748f82ee, 0x78a5636f, 0x84c87814, 0x8cc70208, 0x90befffa, 0xa4506ceb, 0xbef9a3f7, 0xc67178f2]

/-- Rotation to the right. -/
def rotate (x n : UInt32) : UInt32 := (x >>> n) ||| (x <<< (32 - n))

/-- One round with the scheduled word `w` and the constant `k`. -/
def Chain.round (s : Chain) (w k : UInt32) : Chain :=
  let big1 := rotate s.e 6 ^^^ rotate s.e 11 ^^^ rotate s.e 25
  let choice := (s.e &&& s.f) ^^^ ((~~~ s.e) &&& s.g)
  let t₁ := s.h + big1 + choice + k + w
  let big0 := rotate s.a 2 ^^^ rotate s.a 13 ^^^ rotate s.a 22
  let majority := (s.a &&& s.b) ^^^ (s.a &&& s.c) ^^^ (s.b &&& s.c)
  ⟨t₁ + (big0 + majority), s.a, s.b, s.c, s.d + t₁, s.e, s.f, s.g⟩

/-- The word that enters the window of the last sixteen scheduled words. -/
def nextWord (window : Array UInt32) : UInt32 :=
  let w := fun i => window.getD i 0
  let small0 := rotate (w 1) 7 ^^^ rotate (w 1) 18 ^^^ (w 1 >>> 3)
  let small1 := rotate (w 14) 17 ^^^ rotate (w 14) 19 ^^^ (w 14 >>> 10)
  w 0 + small0 + w 9 + small1

/-- The rounds of one block, over the window of scheduled words. -/
def rounds : List UInt32 → Array UInt32 → Chain → Chain
  | [], _, s => s
  | k :: ks, window, s =>
    rounds ks ((window.extract 1 16).push (nextWord window)) (s.round (window.getD 0 0) k)

/-- One block mixed into the chaining words. -/
def Chain.block (s : Chain) (words : List UInt32) : Chain :=
  s.add (rounds roundConstants words.toArray s)

/-- The bytes of `n` from the most significant on, `k` of them. -/
def bigEndian (n : Nat) : Nat → List UInt8
  | 0 => []
  | k + 1 => UInt8.ofNat (n >>> (8 * k)) :: bigEndian n k

/-- The message with a set bit, zero bits up to the last eight bytes of a block, and its length. -/
def padded (message : List UInt8) : List UInt8 :=
  let n := message.length
  message ++ 0x80 :: (List.replicate ((119 - n % 64) % 64) 0 ++ bigEndian (8 * n) 8)

/-- Bytes as words, the most significant byte first; fewer than four bytes are dropped. -/
def words : List UInt8 → List UInt32
  | a :: b :: c :: d :: r =>
    ((a.toUInt32 <<< 24) ||| (b.toUInt32 <<< 16) ||| (c.toUInt32 <<< 8) ||| d.toUInt32) :: words r
  | _ => []

/-- All blocks mixed in, `n` of them. -/
def blocks : Nat → List UInt32 → Chain → Chain
  | 0, _, s => s
  | n + 1, ws, s => blocks n (ws.drop 16) (s.block (ws.take 16))

/-- The final chaining words of a message. -/
def chain (message : List UInt8) : Chain :=
  let ws := words (padded message)
  blocks (ws.length / 16) ws .initial

/-- A word as eight hexadecimal digits. -/
def hexWord (w : UInt32) : String :=
  String.ofList ((bigEndian w.toNat 4).flatMap fun b =>
    [Nat.digitChar (b.toNat / 16), Nat.digitChar (b.toNat % 16)])

/-- The SHA-256 digest of a message in lower-case hexadecimal. -/
def sha256 (message : List UInt8) : String :=
  let s := chain message
  String.join ([s.a, s.b, s.c, s.d, s.e, s.f, s.g, s.h].map hexWord)

end StreamPipeline.Digest
