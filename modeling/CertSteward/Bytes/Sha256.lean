/-!
# SHA-256

The message is followed by a one bit, zeros and its length in bits, cut into blocks of 64 bytes,
and each block is mixed into a state of eight words.

## Main definitions

* `sha256` — the digest of 32 bytes
* `hmacSha256` — a digest that only who has the key can compute
-/

namespace CertSteward

namespace Sha256

/-- The words of the start state: the first 32 bits of the fractions of the square roots of the
first eight primes. -/
def start : Array UInt32 :=
  #[0x6a09e667, 0xbb67ae85, 0x3c6ef372, 0xa54ff53a, 0x510e527f, 0x9b05688c, 0x1f83d9ab, 0x5be0cd19]

/-- The round constants: the first 32 bits of the fractions of the cube roots of the first 64
primes. -/
def rounds : Array UInt32 :=
  #[0x428a2f98, 0x71374491, 0xb5c0fbcf, 0xe9b5dba5, 0x3956c25b, 0x59f111f1, 0x923f82a4, 0xab1c5ed5,
    0xd807aa98, 0x12835b01, 0x243185be, 0x550c7dc3, 0x72be5d74, 0x80deb1fe, 0x9bdc06a7, 0xc19bf174,
    0xe49b69c1, 0xefbe4786, 0x0fc19dc6, 0x240ca1cc, 0x2de92c6f, 0x4a7484aa, 0x5cb0a9dc, 0x76f988da,
    0x983e5152, 0xa831c66d, 0xb00327c8, 0xbf597fc7, 0xc6e00bf3, 0xd5a79147, 0x06ca6351, 0x14292967,
    0x27b70a85, 0x2e1b2138, 0x4d2c6dfc, 0x53380d13, 0x650a7354, 0x766a0abb, 0x81c2c92e, 0x92722c85,
    0xa2bfe8a1, 0xa81a664b, 0xc24b8b70, 0xc76c51a3, 0xd192e819, 0xd6990624, 0xf40e3585, 0x106aa070,
    0x19a4c116, 0x1e376c08, 0x2748774c, 0x34b0bcb5, 0x391c0cb3, 0x4ed8aa4a, 0x5b9cca4f, 0x682e6ff3,
    0x748f82ee, 0x78a5636f, 0x84c87814, 0x8cc70208, 0x90befffa, 0xa4506ceb, 0xbef9a3f7, 0xc67178f2]

/-- A word turned right by `n` bits. -/
def rotate (x : UInt32) (n : UInt32) : UInt32 := (x >>> n) ||| (x <<< (32 - n))

/-- The eight bytes of a number, most significant first. -/
def eightBytes (n : Nat) : List UInt8 :=
  (List.range 8).map fun i => UInt8.ofNat (n / Nat.pow 256 (7 - i))

/-- The message with its end mark, zeros and length. -/
def pad (message : List UInt8) : List UInt8 :=
  message ++ 0x80 :: List.replicate ((119 - message.length % 64) % 64) 0 ++
    eightBytes (8 * message.length)

/-- Four bytes as a word, most significant first. -/
def wordAt (block : Array UInt8) (i : Nat) : UInt32 :=
  (List.range 4).foldl (fun w k => (w <<< 8) ||| (block.getD (4 * i + k) 0).toUInt32) 0

/-- The 64 words that a block is spread to. -/
def spread (block : Array UInt8) : Array UInt32 :=
  let first := ((List.range 16).map (wordAt block)).toArray
  (List.range 48).foldl (fun w k =>
    let x := w.getD (k + 1) 0
    let y := w.getD (k + 14) 0
    let s := rotate x 7 ^^^ rotate x 18 ^^^ (x >>> 3)
    let t := rotate y 17 ^^^ rotate y 19 ^^^ (y >>> 10)
    w.push (w.getD k 0 + s + w.getD (k + 9) 0 + t)) first

/-- One round on the eight working words. -/
def round (w : Array UInt32) (v : Array UInt32) (i : Nat) : Array UInt32 :=
  let a := v.getD 0 0
  let b := v.getD 1 0
  let c := v.getD 2 0
  let e := v.getD 4 0
  let f := v.getD 5 0
  let g := v.getD 6 0
  let s := rotate e 6 ^^^ rotate e 11 ^^^ rotate e 25
  let choice := (e &&& f) ^^^ (~~~e &&& g)
  let t := v.getD 7 0 + s + choice + rounds.getD i 0 + w.getD i 0
  let u := (rotate a 2 ^^^ rotate a 13 ^^^ rotate a 22) + ((a &&& b) ^^^ (a &&& c) ^^^ (b &&& c))
  #[t + u, a, b, c, v.getD 3 0 + t, e, f, g]

/-- The state after a block. -/
def mix (state : Array UInt32) (block : Array UInt8) : Array UInt32 :=
  let w := spread block
  let v := (List.range 64).foldl (round w) state
  ((List.range 8).map fun i => state.getD i 0 + v.getD i 0).toArray

/-- All blocks mixed in one after the other. -/
def mixAll : Nat → Array UInt32 → List UInt8 → Array UInt32
  | 0, state, _ => state
  | n + 1, state, bytes => mixAll n (mix state (bytes.take 64).toArray) (bytes.drop 64)

/-- The bytes of a state. -/
def output (state : Array UInt32) : List UInt8 :=
  state.toList.flatMap fun w => [24, 16, 8, 0].map fun k => (w >>> k).toUInt8

end Sha256

/-- The digest of a message. -/
def sha256 (message : List UInt8) : List UInt8 :=
  let padded := Sha256.pad message
  Sha256.output (Sha256.mixAll (padded.length / 64) Sha256.start padded)

/-! ### Keyed digests -/

/-- The bytes that a block of SHA-256 holds. -/
def hmacBlock : Nat := 64

/-- The key as one block: filled up with zeros, and replaced by its digest if it is too long. -/
def hmacKey (key : List UInt8) : List UInt8 :=
  let key := if key.length > hmacBlock then sha256 key else key
  key ++ List.replicate (hmacBlock - key.length) 0

/-- The digest of a message under a key. -/
def hmacSha256 (key message : List UInt8) : List UInt8 :=
  let block := hmacKey key
  sha256 (block.map (· ^^^ 0x5C) ++ sha256 (block.map (· ^^^ 0x36) ++ message))

end CertSteward
