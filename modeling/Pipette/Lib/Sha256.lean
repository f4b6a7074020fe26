import Mathlib

/-!
# SHA-256

The hash function on lists of bytes, with 32-bit words as naturals below `2 ^ 32` and the digest in lowercase hex. The rest
needs only the shape of its output: `hex_chars` and `hex_length`.
-/

namespace Sha256

/-- Sums are taken modulo a word. -/
def word (x : Nat) : Nat := x % 2 ^ 32

/-- Rotation to the right. -/
def rotr (n x : Nat) : Nat := x >>> n ||| word (x <<< (32 - n))

/-- The round constants. -/
def constants : List Nat := [ 0x428a2f98, 0x71374491, 0xb5c0fbcf, 0xe9b5dba5, 0x3956c25b, 0x59f111f1, 0x923f82a4, 0xab1c5ed5,
  0xd807aa98, 0x12835b01, 0x243185be, 0x550c7dc3, 0x72be5d74, 0x80deb1fe, 0x9bdc06a7, 0xc19bf174,
  0xe49b69c1, 0xefbe4786, 0x0fc19dc6, 0x240ca1cc, 0x2de92c6f, 0x4a7484aa, 0x5cb0a9dc, 0x76f988da,
  0x983e5152, 0xa831c66d, 0xb00327c8, 0xbf597fc7, 0xc6e00bf3, 0xd5a79147, 0x06ca6351, 0x14292967,
  0x27b70a85, 0x2e1b2138, 0x4d2c6dfc, 0x53380d13, 0x650a7354, 0x766a0abb, 0x81c2c92e, 0x92722c85,
  0xa2bfe8a1, 0xa81a664b, 0xc24b8b70, 0xc76c51a3, 0xd192e819, 0xd6990624, 0xf40e3585, 0x106aa070,
  0x19a4c116, 0x1e376c08, 0x2748774c, 0x34b0bcb5, 0x391c0cb3, 0x4ed8aa4a, 0x5b9cca4f, 0x682e6ff3,
  0x748f82ee, 0x78a5636f, 0x84c87814, 0x8cc70208, 0x90befffa, 0xa4506ceb, 0xbef9a3f7, 0xc67178f2]

/-- The chaining state. -/
structure State where
  a : Nat
  b : Nat
  c : Nat
  d : Nat
  e : Nat
  f : Nat
  g : Nat
  h : Nat

/-- The initial hash value. -/
def State.init : State := ⟨0x6a09e667, 0xbb67ae85, 0x3c6ef372, 0xa54ff53a, 0x510e527f, 0x9b05688c, 0x1f83d9ab, 0x5be0cd19⟩

/-- The message schedule, latest word first, after `n` more words. -/
def extend : Nat → List Nat → List Nat
  | 0, ws => ws
  | n + 1, ws =>
    let w15 := ws.getD 14 0
    let w2 := ws.getD 1 0
    let s0 := rotr 7 w15 ^^^ rotr 18 w15 ^^^ w15 >>> 3
    let s1 := rotr 17 w2 ^^^ rotr 19 w2 ^^^ w2 >>> 10
    extend n (word (ws.getD 15 0 + s0 + ws.getD 6 0 + s1) :: ws)

/-- One round with the round's constant and schedule word. -/
def State.round (s : State) (kw : Nat × Nat) : State :=
  let s1 := rotr 6 s.e ^^^ rotr 11 s.e ^^^ rotr 25 s.e
  let ch := (s.e &&& s.f) ^^^ ((2 ^ 32 - 1 - s.e) &&& s.g)
  let t1 := s.h + s1 + ch + kw.1 + kw.2
  let s0 := rotr 2 s.a ^^^ rotr 13 s.a ^^^ rotr 22 s.a
  let maj := (s.a &&& s.b) ^^^ (s.a &&& s.c) ^^^ (s.b &&& s.c)
  ⟨word (t1 + s0 + maj), s.a, s.b, s.c, word (s.d + t1), s.e, s.f, s.g⟩

/-- Compress one block of sixteen words into the state. -/
def State.compress (s : State) (block : List Nat) : State :=
  let t := (constants.zip (extend 48 block.reverse).reverse).foldl State.round s
  ⟨word (s.a + t.a), word (s.b + t.b), word (s.c + t.c), word (s.d + t.d),
    word (s.e + t.e), word (s.f + t.f), word (s.g + t.g), word (s.h + t.h)⟩

/-- Big-endian words of a list of bytes. -/
def words : List Nat → List Nat
  | x :: y :: z :: w :: rest => (x * 2 ^ 24 + y * 2 ^ 16 + z * 2 ^ 8 + w) :: words rest
  | _ => []

variable (bytes : List Nat)

/-- The message, a one bit, zeros, and the length in bits, to a multiple of 64 bytes. -/
def pad : List Nat :=
  let len := bytes.length
  bytes ++ 0x80 :: List.replicate ((119 - len % 64) % 64) 0 ++ (List.range 8).map fun i => (len * 8) >>> (8 * (7 - i)) % 256

/-- The first `n` blocks of sixteen words. -/
def blocks : Nat → List Nat → List (List Nat)
  | 0, _ => []
  | n + 1, ws => ws.take 16 :: blocks n (ws.drop 16)

/-- The eight words of the digest. -/
def digest : List Nat :=
  let ws := words (pad bytes)
  let s := (blocks (ws.length / 16) ws).foldl State.compress State.init
  [s.a, s.b, s.c, s.d, s.e, s.f, s.g, s.h]

def hexDigit (n : Nat) : Char := Nat.digitChar (n % 16)

/-- A word as eight hex digits. -/
def hexWord (w : Nat) : List Char := (List.range 8).map fun i => hexDigit (w >>> (4 * (7 - i)))

/-- The digest in lowercase hex. -/
def hex : List Char := (digest bytes).flatMap hexWord

theorem hexDigit_mem (n : Nat) : hexDigit n ∈ "0123456789abcdef".toList := by
  have hall : ∀ m < 16, Nat.digitChar m ∈ "0123456789abcdef".toList := by decide
  exact hall (n % 16) (Nat.mod_lt n (by decide))

/-- A digest is written in hex digits. -/
theorem hex_chars {bytes : List Nat} {c : Char} (h : c ∈ hex bytes) : c ∈ "0123456789abcdef".toList := by
  obtain ⟨w, _, hc⟩ := List.mem_flatMap.1 h
  obtain ⟨i, _, rfl⟩ := List.mem_map.1 hc
  exact hexDigit_mem _

/-- A digest has 64 digits. -/
theorem hex_length : (hex bytes).length = 64 := by simp [hex, digest, hexWord]

example : hex ("abc".toList.map Char.toNat) =
    "ba7816bf8f01cfea414140de5dae2223b00361a396177a9cb410ff61f20015ad".toList := by decide

end Sha256
