import Buzz.Lib.Hex

namespace Buzz
set_option autoImplicit true

namespace Sha256

/-- The round constants. -/
def K : List Nat :=
  [0x428a2f98, 0x71374491, 0xb5c0fbcf, 0xe9b5dba5, 0x3956c25b, 0x59f111f1, 0x923f82a4, 0xab1c5ed5,
    0xd807aa98, 0x12835b01, 0x243185be, 0x550c7dc3, 0x72be5d74, 0x80deb1fe, 0x9bdc06a7, 0xc19bf174,
    0xe49b69c1, 0xefbe4786, 0x0fc19dc6, 0x240ca1cc, 0x2de92c6f, 0x4a7484aa, 0x5cb0a9dc, 0x76f988da,
    0x983e5152, 0xa831c66d, 0xb00327c8, 0xbf597fc7, 0xc6e00bf3, 0xd5a79147, 0x06ca6351, 0x14292967,
    0x27b70a85, 0x2e1b2138, 0x4d2c6dfc, 0x53380d13, 0x650a7354, 0x766a0abb, 0x81c2c92e, 0x92722c85,
    0xa2bfe8a1, 0xa81a664b, 0xc24b8b70, 0xc76c51a3, 0xd192e819, 0xd6990624, 0xf40e3585, 0x106aa070,
    0x19a4c116, 0x1e376c08, 0x2748774c, 0x34b0bcb5, 0x391c0cb3, 0x4ed8aa4a, 0x5b9cca4f, 0x682e6ff3,
    0x748f82ee, 0x78a5636f, 0x84c87814, 0x8cc70208, 0x90befffa, 0xa4506ceb, 0xbef9a3f7, 0xc67178f2]

def H0 : List Nat :=
  [0x6a09e667, 0xbb67ae85, 0x3c6ef372, 0xa54ff53a, 0x510e527f, 0x9b05688c, 0x1f83d9ab, 0x5be0cd19]

def rotr (x n : Nat) : Nat :=
  (x >>> n ||| x <<< (32 - n)) % 2 ^ 32

def add (x y : Nat) : Nat :=
  (x + y) % 2 ^ 32

/-- The words of a block, given the last sixteen of them with the latest first. -/
def schedule : Nat → List Nat → List Nat
  | 0, _ => []
  | n + 1, ws =>
    let w15 := ws.getD 14 0
    let w2 := ws.getD 1 0
    let s0 := rotr w15 7 ^^^ rotr w15 18 ^^^ (w15 >>> 3)
    let s1 := rotr w2 17 ^^^ rotr w2 19 ^^^ (w2 >>> 10)
    let w := add (add (ws.getD 15 0) s0) (add (ws.getD 6 0) s1)
    w :: schedule n (w :: ws.take 15)

/-- One round on the eight working variables. -/
def round : List Nat → Nat × Nat → List Nat
  | [a, b, c, d, e, f, g, h], (k, w) =>
    let s1 := rotr e 6 ^^^ rotr e 11 ^^^ rotr e 25
    let ch := (e &&& f) ^^^ ((2 ^ 32 - 1 - e) &&& g)
    let t1 := add (add h s1) (add ch (add k w))
    let s0 := rotr a 2 ^^^ rotr a 13 ^^^ rotr a 22
    let maj := (a &&& b) ^^^ (a &&& c) ^^^ (b &&& c)
    [add t1 (add s0 maj), a, b, c, add d t1, e, f, g]
  | vs, _ => vs

def compress (hs block : List Nat) : List Nat :=
  let words := block ++ schedule 48 block.reverse
  List.zipWith add hs ((K.zip words).foldl round hs)

/-- Big-endian words of four bytes. -/
def wordsOf : List Nat → List Nat
  | a :: b :: c :: d :: bytes => (((a * 256 + b) * 256 + c) * 256 + d) :: wordsOf bytes
  | _ => []

def bigEndian : Nat → Nat → List Nat
  | 0, _ => []
  | n + 1, x => bigEndian n (x / 256) ++ [x % 256]

def pad (bytes : List Nat) : List Nat :=
  bytes ++ 0x80 :: (List.replicate ((119 - bytes.length % 64) % 64) 0 ++
    bigEndian 8 (8 * bytes.length))

def blocks : Nat → List Nat → List (List Nat)
  | 0, _ => []
  | n + 1, words => words.take 16 :: blocks n (words.drop 16)

def nibblesOf (n : Nat) : List (Fin 16) :=
  (bigEndian 4 n).flatMap fun b => [Fin.ofNat 16 (b / 16), Fin.ofNat 16 (b % 16)]

def words (bytes : ByteArray) : List Nat :=
  wordsOf (pad (bytes.toList.map UInt8.toNat))

theorem length_round (vs : List Nat) (kw : Nat × Nat) : (round vs kw).length = vs.length := by
  rw [round.eq_def]
  split
  · rfl
  · rfl

theorem length_rounds (kws : List (Nat × Nat)) (vs : List Nat) :
    (kws.foldl round vs).length = vs.length := by
  induction kws generalizing vs with
  | nil => rfl
  | cons kw kws ih => rw [List.foldl_cons, ih, length_round]

theorem length_foldl_compress (bs : List (List Nat)) (hs : List Nat) :
    (bs.foldl compress hs).length = hs.length := by
  induction bs generalizing hs with
  | nil => rfl
  | cons b bs ih =>
    rw [List.foldl_cons, ih, compress, List.length_zipWith, length_rounds, Nat.min_self]

theorem length_nibblesOf (n : Nat) : (nibblesOf n).length = 8 := rfl

end Sha256

open Sha256

/-- The SHA-256 digest of some bytes. -/
def sha256 (bytes : ByteArray) : HexId 64 :=
  ⟨((blocks ((words bytes).length / 16) (words bytes)).foldl compress H0).flatMap nibblesOf, by
    rw [List.length_flatMap, List.map_congr_left fun n _ => length_nibblesOf n, List.map_const',
      length_foldl_compress, List.sum_replicate]
    rfl⟩

end Buzz
