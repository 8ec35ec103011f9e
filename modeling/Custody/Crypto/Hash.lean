import Custody.Bytes

/-!
# The hash functions

Blake2b and SHA-512 are built alike: words of 64 bits, blocks of 128 bytes that are compressed in
turn, and a chaining value that starts from the same eight words.
-/

/-!
### Words of 64 bits

What the two hash functions share beyond wrapping addition: rotation, and the eight starting words,
which are the first 64 fraction bits of the square roots of the first eight primes.
-/

namespace Custody.Word64

/-- Rotation to the right by fewer than 64 places. -/
def rotateRight (x : UInt64) (places : UInt64) : UInt64 :=
  (x >>> places) ||| (x <<< (64 - places))

/-- Fraction bits of the square roots of 2, 3, 5, 7, 11, 13, 17 and 19. -/
def rootFractions : Vector UInt64 8 :=
  #v[0x6a09e667f3bcc908, 0xbb67ae8584caa73b, 0x3c6ef372fe94f82b, 0xa54ff53a5f1d36f1,
     0x510e527fade682d1, 0x9b05688c2b3e6c1f, 0x1f83d9abfb41bd6b, 0x5be0cd19137e2179]

/-- The word whose bytes are given, least significant first. -/
def ofBytesLE (bytes : Bytes) : UInt64 :=
  bytes.foldr (fun byte word ↦ (word <<< 8) ||| byte.toUInt64) 0

/-- The word whose bytes are given, most significant first. -/
def ofBytesBE (bytes : Bytes) : UInt64 :=
  bytes.foldl (fun word byte ↦ (word <<< 8) ||| byte.toUInt64) 0

/-- The eight bytes of a word, least significant first. -/
def toBytesLE (x : UInt64) : Bytes := Bytes.ofNatLE 8 x.toNat

/-- The eight bytes of a word, most significant first. -/
def toBytesBE (x : UInt64) : Bytes := (toBytesLE x).reverse

end Custody.Word64

/-!
### Blake2b with a digest of 32 bytes

The hash without key, salt or personalisation. Input is taken up byte by byte: a block of 128 bytes
is compressed when a further byte arrives, so the last block, which is compressed under the final
flag, is never empty unless the input is.
-/

namespace Custody.Blake2b

open Word64

/-- The chaining value. -/
abbrev Chain := Vector UInt64 8

/-- The working words of one compression. -/
abbrev Work := Vector UInt64 16

/-- The order in which the rounds read the message words; two more rounds repeat the first two. -/
def schedule : List (Vector (Fin 16) 16) :=
  let ten := [
    #v[0, 1, 2, 3, 4, 5, 6, 7, 8, 9, 10, 11, 12, 13, 14, 15],
    #v[14, 10, 4, 8, 9, 15, 13, 6, 1, 12, 0, 2, 11, 7, 5, 3],
    #v[11, 8, 12, 0, 5, 2, 15, 13, 10, 14, 3, 6, 7, 1, 9, 4],
    #v[7, 9, 3, 1, 13, 12, 11, 14, 2, 6, 5, 10, 4, 0, 15, 8],
    #v[9, 0, 5, 7, 2, 4, 10, 15, 14, 1, 11, 12, 6, 8, 3, 13],
    #v[2, 12, 6, 10, 0, 11, 8, 3, 4, 13, 7, 5, 15, 14, 1, 9],
    #v[12, 5, 1, 15, 14, 13, 4, 10, 0, 7, 6, 3, 9, 2, 8, 11],
    #v[13, 11, 7, 14, 12, 1, 3, 9, 5, 0, 15, 4, 8, 6, 2, 10],
    #v[6, 15, 14, 9, 11, 3, 0, 8, 12, 2, 13, 7, 1, 4, 10, 5],
    #v[10, 2, 8, 4, 7, 6, 1, 5, 15, 11, 9, 14, 3, 12, 13, 0]]
  ten ++ ten.take 2

/-- Mixes two message words into four working words. -/
def mix (v : Work) (a b c d : Fin 16) (x y : UInt64) : Work :=
  let va := v[a] + v[b] + x
  let vd := rotateRight (v[d] ^^^ va) 32
  let vc := v[c] + vd
  let vb := rotateRight (v[b] ^^^ vc) 24
  let va := va + vb + y
  let vd := rotateRight (vd ^^^ va) 16
  let vc := vc + vd
  let vb := rotateRight (vb ^^^ vc) 63
  (((v.set a va).set b vb).set c vc).set d vd

/-- Four columns, then four diagonals. -/
def round (m : Work) (v : Work) (s : Vector (Fin 16) 16) : Work :=
  let v := mix v 0 4 8 12 m[s[0]] m[s[1]]
  let v := mix v 1 5 9 13 m[s[2]] m[s[3]]
  let v := mix v 2 6 10 14 m[s[4]] m[s[5]]
  let v := mix v 3 7 11 15 m[s[6]] m[s[7]]
  let v := mix v 0 5 10 15 m[s[8]] m[s[9]]
  let v := mix v 1 6 11 12 m[s[10]] m[s[11]]
  let v := mix v 2 7 8 13 m[s[12]] m[s[13]]
  mix v 3 4 9 14 m[s[14]] m[s[15]]

/-- Splits a block of 128 bytes into its sixteen words. -/
def messageWords (block : Bytes) : Work :=
  Vector.ofFn fun i ↦ ofBytesLE ((block.drop (8 * i.val)).take 8)

/-- Takes a block into the chaining value; `count` is the number of input bytes up to its end. -/
def compress (h : Chain) (block : Bytes) (count : Nat) (final : Bool) : Chain :=
  let v : Work := h ++ rootFractions
  let v := v.set 12 (v[12] ^^^ UInt64.ofNat count)
  let v := v.set 13 (v[13] ^^^ UInt64.ofNat (count / Nat.pow 2 64))
  let v := if final then v.set 14 (~~~ v[14]) else v
  let v := schedule.foldl (round (messageWords block)) v
  Vector.ofFn fun i ↦ h[i] ^^^ v[i.val] ^^^ v[i.val + 8]

/-- A hash in progress: the bytes of the block being filled are kept latest first. -/
structure State where
  chain : Chain
  pending : Bytes
  filled : Nat
  count : Nat

/-- No input yet. The parameter word says: digest of 32 bytes, no key, no tree. -/
def State.init : State :=
  { chain := rootFractions.set 0 (rootFractions[0] ^^^ 0x01010020)
    pending := []
    filled := 0
    count := 0 }

/-- Takes one byte of input. -/
def State.feed (s : State) (byte : UInt8) : State :=
  if s.filled = 128 then
    { chain := compress s.chain s.pending.reverse s.count false
      pending := [byte]
      filled := 1
      count := s.count + 1 }
  else
    { s with pending := byte :: s.pending, filled := s.filled + 1, count := s.count + 1 }

/-- The digest of the input taken so far. -/
def State.digest (s : State) : Block 32 :=
  let block := s.pending.reverse ++ List.replicate (128 - s.filled) 0
  let h := compress s.chain block s.count true
  Block.fit 32 (h.toList.flatMap toBytesLE)

/-- The digest of a byte string. -/
def hash (data : Bytes) : Block 32 := (data.foldl State.feed State.init).digest

end Custody.Blake2b

/-!
### SHA-512

The message is filled up with a one bit, zeros and its length in bits, so that it splits into blocks
of 128 bytes, which are compressed in turn.
-/

namespace Custody.Sha512

open Word64

/-- Fraction bits of the cube roots of the first eighty primes. -/
def constants : List UInt64 :=
  [0x428a2f98d728ae22, 0x7137449123ef65cd, 0xb5c0fbcfec4d3b2f, 0xe9b5dba58189dbbc,
   0x3956c25bf348b538, 0x59f111f1b605d019, 0x923f82a4af194f9b, 0xab1c5ed5da6d8118,
   0xd807aa98a3030242, 0x12835b0145706fbe, 0x243185be4ee4b28c, 0x550c7dc3d5ffb4e2,
   0x72be5d74f27b896f, 0x80deb1fe3b1696b1, 0x9bdc06a725c71235, 0xc19bf174cf692694,
   0xe49b69c19ef14ad2, 0xefbe4786384f25e3, 0x0fc19dc68b8cd5b5, 0x240ca1cc77ac9c65,
   0x2de92c6f592b0275, 0x4a7484aa6ea6e483, 0x5cb0a9dcbd41fbd4, 0x76f988da831153b5,
   0x983e5152ee66dfab, 0xa831c66d2db43210, 0xb00327c898fb213f, 0xbf597fc7beef0ee4,
   0xc6e00bf33da88fc2, 0xd5a79147930aa725, 0x06ca6351e003826f, 0x142929670a0e6e70,
   0x27b70a8546d22ffc, 0x2e1b21385c26c926, 0x4d2c6dfc5ac42aed, 0x53380d139d95b3df,
   0x650a73548baf63de, 0x766a0abb3c77b2a8, 0x81c2c92e47edaee6, 0x92722c851482353b,
   0xa2bfe8a14cf10364, 0xa81a664bbc423001, 0xc24b8b70d0f89791, 0xc76c51a30654be30,
   0xd192e819d6ef5218, 0xd69906245565a910, 0xf40e35855771202a, 0x106aa07032bbd1b8,
   0x19a4c116b8d2d0c8, 0x1e376c085141ab53, 0x2748774cdf8eeb99, 0x34b0bcb5e19b48a8,
   0x391c0cb3c5c95a63, 0x4ed8aa4ae3418acb, 0x5b9cca4f7763e373, 0x682e6ff3d6b2b8a3,
   0x748f82ee5defb2fc, 0x78a5636f43172f60, 0x84c87814a1f0ab72, 0x8cc702081a6439ec,
   0x90befffa23631e28, 0xa4506cebde82bde9, 0xbef9a3f7b2c67915, 0xc67178f2e372532b,
   0xca273eceea26619c, 0xd186b8c721c0c207, 0xeada7dd6cde0eb1e, 0xf57d4f7fee6ed178,
   0x06f067aa72176fba, 0x0a637dc5a2c898a6, 0x113f9804bef90dae, 0x1b710b35131c471b,
   0x28db77f523047d84, 0x32caab7b40c72493, 0x3c9ebe0a15c9bebc, 0x431d67c49c100d4c,
   0x4cc5d4becb3e42b6, 0x597f299cfc657e2a, 0x5fcb6fab3ad6faec, 0x6c44198c4a475817]

/-- Sixteen consecutive words of the message schedule. -/
abbrev Window := Vector UInt64 16

/-- The window one word further on. -/
def Window.next (w : Window) : Window :=
  let low := rotateRight w[1] 1 ^^^ rotateRight w[1] 8 ^^^ (w[1] >>> 7)
  let high := rotateRight w[14] 19 ^^^ rotateRight w[14] 61 ^^^ (w[14] >>> 6)
  let word := high + w[9] + low + w[0]
  Vector.ofFn fun i ↦ if h : i.val < 15 then w[i.val + 1] else word

/-- The eight working words. -/
structure Work where
  a : UInt64
  b : UInt64
  c : UInt64
  d : UInt64
  e : UInt64
  f : UInt64
  g : UInt64
  h : UInt64

/-- One round, with its constant and its word of the message schedule. -/
def Work.round (v : Work) (constant word : UInt64) : Work :=
  let sumE := rotateRight v.e 14 ^^^ rotateRight v.e 18 ^^^ rotateRight v.e 41
  let choice := (v.e &&& v.f) ^^^ (~~~ v.e &&& v.g)
  let t := v.h + sumE + choice + constant + word
  let sumA := rotateRight v.a 28 ^^^ rotateRight v.a 34 ^^^ rotateRight v.a 39
  let majority := (v.a &&& v.b) ^^^ (v.a &&& v.c) ^^^ (v.b &&& v.c)
  ⟨t + sumA + majority, v.a, v.b, v.c, v.d + t, v.e, v.f, v.g⟩

/-- The words before any input. -/
def Work.init : Work :=
  let r := rootFractions
  ⟨r[0], r[1], r[2], r[3], r[4], r[5], r[6], r[7]⟩

/-- Wordwise sum. -/
def Work.add (v w : Work) : Work :=
  ⟨v.a + w.a, v.b + w.b, v.c + w.c, v.d + w.d, v.e + w.e, v.f + w.f, v.g + w.g, v.h + w.h⟩

/-- Takes a block of 128 bytes into the chaining value. -/
def compress (chain : Work) (block : Bytes) : Work :=
  let window : Window := Vector.ofFn fun i ↦ ofBytesBE ((block.drop (8 * i.val)).take 8)
  let (v, _) := constants.foldl
    (fun (v, w) constant ↦ (Work.round v constant w[0], Window.next w)) (chain, window)
  chain.add v

/-- A hash in progress: the bytes of the block being filled are kept latest first. -/
structure State where
  chain : Work
  pending : Bytes
  filled : Nat

/-- Takes one byte; the block is compressed when it is full. -/
def State.feed (s : State) (byte : UInt8) : State :=
  if s.filled = 127 then
    { chain := compress s.chain (byte :: s.pending).reverse, pending := [], filled := 0 }
  else
    { s with pending := byte :: s.pending, filled := s.filled + 1 }

/-- What follows a message of the given length: a one bit, zeros, and the length in bits as a number
of sixteen bytes. -/
def padding (length : Nat) : Bytes :=
  0x80 :: List.replicate ((239 - length % 128) % 128) 0 ++
    (Bytes.ofNatLE 16 (8 * length)).reverse

/-- The digest of a byte string. -/
def hash (data : Bytes) : Block 64 :=
  let s := (data ++ padding data.length).foldl State.feed ⟨Work.init, [], 0⟩
  let v := s.chain
  Block.fit 64 ([v.a, v.b, v.c, v.d, v.e, v.f, v.g, v.h].flatMap toBytesBE)

end Custody.Sha512
