import SchemaIr.Text.Quoted

/-! # SHA-256

The digest of a message of bytes. The message is padded to whole blocks of 64 bytes: a byte 0x80, zeros, and
the length in bits as eight bytes. Each block is expanded to a schedule of 64 words, which are mixed into
the state of eight words round by round. Constants, padding and rounds are those of the Secure Hash Standard, and the
digest is written in lower-case hexadecimal digits. -/

namespace SchemaIr.Sha256

/-- The fractional parts of the cube roots of the first sixty-four primes. -/
def roundWords : List UInt32 :=
  [0x428a2f98, 0x71374491, 0xb5c0fbcf, 0xe9b5dba5, 0x3956c25b, 0x59f111f1, 0x923f82a4, 0xab1c5ed5,
    0xd807aa98, 0x12835b01, 0x243185be, 0x550c7dc3, 0x72be5d74, 0x80deb1fe, 0x9bdc06a7, 0xc19bf174,
    0xe49b69c1, 0xefbe4786, 0x0fc19dc6, 0x240ca1cc, 0x2de92c6f, 0x4a7484aa, 0x5cb0a9dc, 0x76f988da,
    0x983e5152, 0xa831c66d, 0xb00327c8, 0xbf597fc7, 0xc6e00bf3, 0xd5a79147, 0x06ca6351, 0x14292967,
    0x27b70a85, 0x2e1b2138, 0x4d2c6dfc, 0x53380d13, 0x650a7354, 0x766a0abb, 0x81c2c92e, 0x92722c85,
    0xa2bfe8a1, 0xa81a664b, 0xc24b8b70, 0xc76c51a3, 0xd192e819, 0xd6990624, 0xf40e3585, 0x106aa070,
    0x19a4c116, 0x1e376c08, 0x2748774c, 0x34b0bcb5, 0x391c0cb3, 0x4ed8aa4a, 0x5b9cca4f, 0x682e6ff3,
    0x748f82ee, 0x78a5636f, 0x84c87814, 0x8cc70208, 0x90befffa, 0xa4506ceb, 0xbef9a3f7, 0xc67178f2]

/-- Rotates a word to the right. -/
def rotate (x : UInt32) (n : UInt32) : UInt32 := x >>> n ||| x <<< (32 - n)

/-! ### Padding -/

/-- A number as big-endian bytes. -/
def bigEndian (count n : Nat) : List UInt8 :=
  (List.range count).reverse.map fun i => UInt8.ofNat (n / Nat.pow 256 i % 256)

/-- The zeros that fill a padded message up to whole blocks. -/
def zeroCount (size : Nat) : Nat := (119 - size % 64) % 64

/-- What is appended to a message of a size. -/
def padding (size : Nat) : List UInt8 := 0x80 :: List.replicate (zeroCount size) 0 ++ bigEndian 8 (8 * size)

/-- The message with its padding. -/
def pad (message : ByteArray) : ByteArray := (padding message.size).foldl ByteArray.push message

/-! ### Compression -/

/-- The big-endian word at an offset. -/
def word (bytes : ByteArray) (offset : Nat) : UInt32 :=
  let byte (i : Nat) : UInt32 := (bytes.data.getD (offset + i) 0).toUInt32
  byte 0 <<< 24 ||| byte 1 <<< 16 ||| byte 2 <<< 8 ||| byte 3

/-- The next word of a schedule. -/
def nextWord (ws : Array UInt32) : UInt32 :=
  let back (i : Nat) : UInt32 := ws.getD (ws.size - i) 0
  let s0 := rotate (back 15) 7 ^^^ rotate (back 15) 18 ^^^ back 15 >>> 3
  let s1 := rotate (back 2) 17 ^^^ rotate (back 2) 19 ^^^ back 2 >>> 10
  back 16 + s0 + back 7 + s1

/-- The schedule of the block at an offset. -/
def schedule (bytes : ByteArray) (offset : Nat) : Array UInt32 :=
  (List.range 48).foldl (fun ws _ => ws.push (nextWord ws))
    ((List.range 16).foldl (fun ws i => ws.push (word bytes (offset + 4 * i))) #[])

/-- The words of a state. -/
structure State where
  a : UInt32
  b : UInt32
  c : UInt32
  d : UInt32
  e : UInt32
  f : UInt32
  g : UInt32
  h : UInt32

/-- The state before the first block: the fractional parts of the square roots of the first eight primes. -/
def initial : State :=
  ⟨0x6a09e667, 0xbb67ae85, 0x3c6ef372, 0xa54ff53a, 0x510e527f, 0x9b05688c, 0x1f83d9ab, 0x5be0cd19⟩

/-- One round, with the sum of its round word and schedule word. -/
def round (s : State) (k : UInt32) : State :=
  let s1 := rotate s.e 6 ^^^ rotate s.e 11 ^^^ rotate s.e 25
  let choice := (s.e &&& s.f) ^^^ (~~~s.e &&& s.g)
  let t1 := s.h + s1 + choice + k
  let s0 := rotate s.a 2 ^^^ rotate s.a 13 ^^^ rotate s.a 22
  let majority := (s.a &&& s.b) ^^^ (s.a &&& s.c) ^^^ (s.b &&& s.c)
  ⟨t1 + (s0 + majority), s.a, s.b, s.c, s.d + t1, s.e, s.f, s.g⟩

/-- Mixes the block at an offset into a state. -/
def compress (bytes : ByteArray) (s : State) (offset : Nat) : State :=
  let t := (roundWords.zip (schedule bytes offset).toList).foldl (fun s (k, w) => round s (k + w)) s
  ⟨s.a + t.a, s.b + t.b, s.c + t.c, s.d + t.d, s.e + t.e, s.f + t.f, s.g + t.g, s.h + t.h⟩

/-- The words of the digest of a message. -/
def digest (message : ByteArray) : List UInt32 :=
  let bytes := pad message
  let s := (List.range (bytes.size / 64)).foldl (fun s i => compress bytes s (64 * i)) initial
  [s.a, s.b, s.c, s.d, s.e, s.f, s.g, s.h]

/-- A word as eight hexadecimal digits. -/
def wordText (w : UInt32) : String :=
  let ds := Text.hex w.toNat
  String.ofList (List.replicate (8 - ds.length) '0' ++ ds)

/-- The digest of a message in hexadecimal digits. -/
def hexDigest (message : ByteArray) : String := String.join ((digest message).map wordText)

end SchemaIr.Sha256
