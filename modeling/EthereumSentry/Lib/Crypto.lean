import EthereumSentry.Lib.Bytes

/-!
# Hashes and block ciphers

Executable definitions of Keccak-256, SHA-256, HMAC-SHA256 and AES: the functions that a program gets from its
cryptographic libraries, for instances of its parameters that compute what the libraries compute.
-/

set_option autoImplicit false

/-- The first `n` bytes, filled up with zeros. -/
def FixedBytes.resize (n : Nat) (b : Bytes) : FixedBytes n := ⟨(b ++ List.replicate n 0).take n, by simp⟩

/-- Consecutive parts of length `k`, so many of them. -/
def chunks (k : Nat) : Nat → Bytes → List Bytes
  | 0, _ => []
  | n + 1, b => b.take k :: chunks k n (b.drop k)

namespace Keccak

/-! ## Keccak-256 -/

/-- The lane at column `x` and row `y` of a state is at index `x + 5 * y`. -/
abbrev Lanes : Type := List UInt64

def rotl (x n : UInt64) : UInt64 := (x <<< n) ||| (x >>> (64 - n))

def roundConstants : List UInt64 := [
    0x0000000000000001, 0x0000000000008082, 0x800000000000808a, 0x8000000080008000,
    0x000000000000808b, 0x0000000080000001, 0x8000000080008081, 0x8000000000008009,
    0x000000000000008a, 0x0000000000000088, 0x0000000080008009, 0x000000008000000a,
    0x000000008000808b, 0x800000000000008b, 0x8000000000008089, 0x8000000000008003,
    0x8000000000008002, 0x8000000000000080, 0x000000000000800a, 0x800000008000000a,
    0x8000000080008081, 0x8000000000008080, 0x0000000080000001, 0x8000000080008008]

def rotations : List UInt64 :=
  [0, 1, 62, 28, 27, 36, 44, 6, 55, 20, 3, 10, 43, 25, 39, 41, 45, 15, 21, 8, 18, 2, 61, 56, 14]

def theta (a : Lanes) : Lanes :=
  let c := (List.range 5).map fun x =>
    a.getD x 0 ^^^ a.getD (x + 5) 0 ^^^ a.getD (x + 10) 0 ^^^ a.getD (x + 15) 0 ^^^ a.getD (x + 20) 0
  let d := (List.range 5).map fun x => c.getD ((x + 4) % 5) 0 ^^^ rotl (c.getD ((x + 1) % 5) 0) 1
  (List.range 25).map fun i => a.getD i 0 ^^^ d.getD (i % 5) 0

/-- The rotations and the permutation of the lanes. -/
def rhoPi (a : Lanes) : Lanes :=
  (List.range 25).map fun i =>
    let source := (i % 5 + 3 * (i / 5)) % 5 + 5 * (i % 5)
    rotl (a.getD source 0) (rotations.getD source 0)

def chi (b : Lanes) : Lanes :=
  (List.range 25).map fun i =>
    b.getD i 0 ^^^ (~~~b.getD ((i + 1) % 5 + i / 5 * 5) 0 &&& b.getD ((i + 2) % 5 + i / 5 * 5) 0)

def round (a : Lanes) (rc : UInt64) : Lanes :=
  match chi (rhoPi (theta a)) with
  | [] => []
  | l :: ls => (l ^^^ rc) :: ls

def permute (a : Lanes) : Lanes := roundConstants.foldl round a

def rate : Nat := 136

/-- Padding to whole blocks: a byte `1`, zeros, and the top bit of the last byte. -/
def pad (data : Bytes) : Bytes :=
  let fill := rate - data.length % rate
  if fill = 1 then data ++ [0x81] else data ++ [0x01] ++ List.replicate (fill - 2) 0 ++ [0x80]

/-- A little-endian lane. -/
def lane (b : Bytes) : UInt64 := UInt64.ofNat (ofBe b.reverse)

def absorb (a : Lanes) (block : Bytes) : Lanes :=
  permute (List.zipWith (· ^^^ ·) a ((chunks 8 17 block).map lane ++ List.replicate 8 0))

def hash (data : Bytes) : FixedBytes 32 :=
  let padded := pad data
  let a := (chunks rate (padded.length / rate) padded).foldl absorb (List.replicate 25 0)
  .resize 32 ((a.take 4).flatMap fun l => (be 8 l.toNat).reverse)

end Keccak

namespace Sha256

/-! ## SHA-256 -/

def roundConstants : List UInt32 := [
    0x428a2f98, 0x71374491, 0xb5c0fbcf, 0xe9b5dba5, 0x3956c25b, 0x59f111f1, 0x923f82a4, 0xab1c5ed5,
    0xd807aa98, 0x12835b01, 0x243185be, 0x550c7dc3, 0x72be5d74, 0x80deb1fe, 0x9bdc06a7, 0xc19bf174,
    0xe49b69c1, 0xefbe4786, 0x0fc19dc6, 0x240ca1cc, 0x2de92c6f, 0x4a7484aa, 0x5cb0a9dc, 0x76f988da,
    0x983e5152, 0xa831c66d, 0xb00327c8, 0xbf597fc7, 0xc6e00bf3, 0xd5a79147, 0x06ca6351, 0x14292967,
    0x27b70a85, 0x2e1b2138, 0x4d2c6dfc, 0x53380d13, 0x650a7354, 0x766a0abb, 0x81c2c92e, 0x92722c85,
    0xa2bfe8a1, 0xa81a664b, 0xc24b8b70, 0xc76c51a3, 0xd192e819, 0xd6990624, 0xf40e3585, 0x106aa070,
    0x19a4c116, 0x1e376c08, 0x2748774c, 0x34b0bcb5, 0x391c0cb3, 0x4ed8aa4a, 0x5b9cca4f, 0x682e6ff3,
    0x748f82ee, 0x78a5636f, 0x84c87814, 0x8cc70208, 0x90befffa, 0xa4506ceb, 0xbef9a3f7, 0xc67178f2]

def rotr (x n : UInt32) : UInt32 := (x >>> n) ||| (x <<< (32 - n))

def pad (data : Bytes) : Bytes :=
  data ++ [0x80] ++ List.replicate ((119 - data.length % 64) % 64) 0 ++ be 8 (data.length * 8)

/-- The message schedule, latest word first. -/
def schedule : Nat → List UInt32 → List UInt32
  | 0, w => w
  | n + 1, w =>
    let w15 := w.getD 14 0
    let w2 := w.getD 1 0
    let s0 := rotr w15 7 ^^^ rotr w15 18 ^^^ (w15 >>> 3)
    let s1 := rotr w2 17 ^^^ rotr w2 19 ^^^ (w2 >>> 10)
    schedule n ((w.getD 15 0 + s0 + w.getD 6 0 + s1) :: w)

def round : List UInt32 → UInt32 × UInt32 → List UInt32
  | [a, b, c, d, e, f, g, h], (k, w) =>
    let t1 := h + (rotr e 6 ^^^ rotr e 11 ^^^ rotr e 25) + ((e &&& f) ^^^ (~~~e &&& g)) + k + w
    let t2 := (rotr a 2 ^^^ rotr a 13 ^^^ rotr a 22) + ((a &&& b) ^^^ (a &&& c) ^^^ (b &&& c))
    [t1 + t2, a, b, c, d + t1, e, f, g]
  | s, _ => s

def compress (s : List UInt32) (block : Bytes) : List UInt32 :=
  let w := ((chunks 4 16 block).map fun b => UInt32.ofNat (ofBe b)).reverse
  List.zipWith (· + ·) s ((roundConstants.zip (schedule 48 w).reverse).foldl round s)

def init : List UInt32 :=
  [0x6a09e667, 0xbb67ae85, 0x3c6ef372, 0xa54ff53a, 0x510e527f, 0x9b05688c, 0x1f83d9ab, 0x5be0cd19]

def hash (data : Bytes) : FixedBytes 32 :=
  let padded := pad data
  let s := (chunks 64 (padded.length / 64) padded).foldl compress init
  .resize 32 (s.flatMap fun w => be 4 w.toNat)

/-- HMAC: a key longer than a block is hashed first. -/
def hmac (key data : Bytes) : FixedBytes 32 :=
  let key := (FixedBytes.resize 64 (if key.length ≤ 64 then key else (hash key).bytes)).bytes
  hash (key.map (· ^^^ 0x5c) ++ (hash (key.map (· ^^^ 0x36) ++ data)).bytes)

end Sha256

namespace Aes

/-! ## AES -/

def sbox : List UInt8 := [
    0x63, 0x7c, 0x77, 0x7b, 0xf2, 0x6b, 0x6f, 0xc5, 0x30, 0x01, 0x67, 0x2b, 0xfe, 0xd7, 0xab, 0x76,
    0xca, 0x82, 0xc9, 0x7d, 0xfa, 0x59, 0x47, 0xf0, 0xad, 0xd4, 0xa2, 0xaf, 0x9c, 0xa4, 0x72, 0xc0,
    0xb7, 0xfd, 0x93, 0x26, 0x36, 0x3f, 0xf7, 0xcc, 0x34, 0xa5, 0xe5, 0xf1, 0x71, 0xd8, 0x31, 0x15,
    0x04, 0xc7, 0x23, 0xc3, 0x18, 0x96, 0x05, 0x9a, 0x07, 0x12, 0x80, 0xe2, 0xeb, 0x27, 0xb2, 0x75,
    0x09, 0x83, 0x2c, 0x1a, 0x1b, 0x6e, 0x5a, 0xa0, 0x52, 0x3b, 0xd6, 0xb3, 0x29, 0xe3, 0x2f, 0x84,
    0x53, 0xd1, 0x00, 0xed, 0x20, 0xfc, 0xb1, 0x5b, 0x6a, 0xcb, 0xbe, 0x39, 0x4a, 0x4c, 0x58, 0xcf,
    0xd0, 0xef, 0xaa, 0xfb, 0x43, 0x4d, 0x33, 0x85, 0x45, 0xf9, 0x02, 0x7f, 0x50, 0x3c, 0x9f, 0xa8,
    0x51, 0xa3, 0x40, 0x8f, 0x92, 0x9d, 0x38, 0xf5, 0xbc, 0xb6, 0xda, 0x21, 0x10, 0xff, 0xf3, 0xd2,
    0xcd, 0x0c, 0x13, 0xec, 0x5f, 0x97, 0x44, 0x17, 0xc4, 0xa7, 0x7e, 0x3d, 0x64, 0x5d, 0x19, 0x73,
    0x60, 0x81, 0x4f, 0xdc, 0x22, 0x2a, 0x90, 0x88, 0x46, 0xee, 0xb8, 0x14, 0xde, 0x5e, 0x0b, 0xdb,
    0xe0, 0x32, 0x3a, 0x0a, 0x49, 0x06, 0x24, 0x5c, 0xc2, 0xd3, 0xac, 0x62, 0x91, 0x95, 0xe4, 0x79,
    0xe7, 0xc8, 0x37, 0x6d, 0x8d, 0xd5, 0x4e, 0xa9, 0x6c, 0x56, 0xf4, 0xea, 0x65, 0x7a, 0xae, 0x08,
    0xba, 0x78, 0x25, 0x2e, 0x1c, 0xa6, 0xb4, 0xc6, 0xe8, 0xdd, 0x74, 0x1f, 0x4b, 0xbd, 0x8b, 0x8a,
    0x70, 0x3e, 0xb5, 0x66, 0x48, 0x03, 0xf6, 0x0e, 0x61, 0x35, 0x57, 0xb9, 0x86, 0xc1, 0x1d, 0x9e,
    0xe1, 0xf8, 0x98, 0x11, 0x69, 0xd9, 0x8e, 0x94, 0x9b, 0x1e, 0x87, 0xe9, 0xce, 0x55, 0x28, 0xdf,
    0x8c, 0xa1, 0x89, 0x0d, 0xbf, 0xe6, 0x42, 0x68, 0x41, 0x99, 0x2d, 0x0f, 0xb0, 0x54, 0xbb, 0x16]

def subBytes (s : Bytes) : Bytes := s.map fun x => sbox.getD x.toNat 0

/-- The byte at row `r` and column `c` of a state is at index `r + 4 * c`. -/
def shiftRows (s : Bytes) : Bytes :=
  (List.range 16).map fun i => s.getD (i % 4 + 4 * ((i / 4 + i % 4) % 4)) 0

def double (x : UInt8) : UInt8 := (x <<< 1) ^^^ (if x < 0x80 then 0 else 0x1b)

def mixColumn : Bytes → Bytes
  | [a, b, c, d] =>
    [double a ^^^ double b ^^^ b ^^^ c ^^^ d, a ^^^ double b ^^^ double c ^^^ c ^^^ d,
      a ^^^ b ^^^ double c ^^^ double d ^^^ d, double a ^^^ a ^^^ b ^^^ c ^^^ double d]
  | col => col

def mixColumns (s : Bytes) : Bytes := (chunks 4 4 s).flatMap mixColumn

def roundConstants : Bytes := [0x01, 0x02, 0x04, 0x08, 0x10, 0x20, 0x40, 0x80, 0x1b, 0x36]

/-- The words of the key schedule, latest first, for a key of `nk` words; `i` words are there. -/
def expand (nk : Nat) : Nat → Nat → List Bytes → List Bytes
  | 0, _, ws => ws
  | n + 1, i, ws =>
    let last := ws.headD []
    let temp :=
      if i % nk = 0 then
        List.zipWith (· ^^^ ·) (subBytes (last.rotateLeft 1)) [roundConstants.getD (i / nk - 1) 0, 0, 0, 0]
      else if 6 < nk ∧ i % nk = 4 then subBytes last
      else last
    expand nk n (i + 1) (List.zipWith (· ^^^ ·) (ws.getD (nk - 1) []) temp :: ws)

/-- The round keys. -/
def roundKeys (key : Bytes) : List Bytes :=
  let nk := key.length / 4
  let words := (expand nk (4 * (nk + 7) - nk) nk (chunks 4 nk key).reverse).reverse
  chunks 16 (nk + 7) words.flatten

def addRoundKey (s k : Bytes) : Bytes := List.zipWith (· ^^^ ·) s k

/-- The middle rounds and the last one, which does not mix the columns. -/
def rounds : Bytes → List Bytes → Bytes
  | s, [] => s
  | s, [k] => addRoundKey (shiftRows (subBytes s)) k
  | s, k :: ks => rounds (addRoundKey (mixColumns (shiftRows (subBytes s))) k) ks

def encryptBlock (key : Bytes) (block : FixedBytes 16) : FixedBytes 16 :=
  .resize 16 (match roundKeys key with
    | [] => []
    | k :: ks => rounds (addRoundKey block.bytes k) ks)

/-- Counter mode: the keystream byte at a position, under a big-endian counter of 128 bits. -/
def ctr (key : Bytes) (iv : FixedBytes 16) (pos : Nat) : UInt8 :=
  (encryptBlock key (.ofNat 16 (ofBe iv.bytes + pos / 16))).bytes.getD (pos % 16) 0

end Aes
