import AssuranceLayer.Primitives

set_option autoImplicit false

/-!
SHA-256 and HMAC as executable functions. The results hold for an arbitrary hash that is
free of collisions on the byte strings at hand; this one makes them run.
-/
namespace AssuranceLayer.Sha256

/-- `k n`, with `n` evaluated before it is passed on. -/
def forced {α : Type} (n : ℕ) (k : ℕ → α) : α :=
  match n with
  | 0 => k 0
  | m + 1 => k (m + 1)

def rotr (n x : ℕ) : ℕ := (x >>> n) ||| ((x <<< (32 - n)) % 0x100000000)

def roundConstants : List ℕ := [
  0x428a2f98, 0x71374491, 0xb5c0fbcf, 0xe9b5dba5, 0x3956c25b, 0x59f111f1, 0x923f82a4, 0xab1c5ed5,
  0xd807aa98, 0x12835b01, 0x243185be, 0x550c7dc3, 0x72be5d74, 0x80deb1fe, 0x9bdc06a7, 0xc19bf174,
  0xe49b69c1, 0xefbe4786, 0x0fc19dc6, 0x240ca1cc, 0x2de92c6f, 0x4a7484aa, 0x5cb0a9dc, 0x76f988da,
  0x983e5152, 0xa831c66d, 0xb00327c8, 0xbf597fc7, 0xc6e00bf3, 0xd5a79147, 0x06ca6351, 0x14292967,
  0x27b70a85, 0x2e1b2138, 0x4d2c6dfc, 0x53380d13, 0x650a7354, 0x766a0abb, 0x81c2c92e, 0x92722c85,
  0xa2bfe8a1, 0xa81a664b, 0xc24b8b70, 0xc76c51a3, 0xd192e819, 0xd6990624, 0xf40e3585, 0x106aa070,
  0x19a4c116, 0x1e376c08, 0x2748774c, 0x34b0bcb5, 0x391c0cb3, 0x4ed8aa4a, 0x5b9cca4f, 0x682e6ff3,
  0x748f82ee, 0x78a5636f, 0x84c87814, 0x8cc70208, 0x90befffa, 0xa4506ceb, 0xbef9a3f7, 0xc67178f2]

structure State where
  a : ℕ
  b : ℕ
  c : ℕ
  d : ℕ
  e : ℕ
  f : ℕ
  g : ℕ
  h : ℕ

def initial : State :=
  ⟨0x6a09e667, 0xbb67ae85, 0x3c6ef372, 0xa54ff53a, 0x510e527f, 0x9b05688c, 0x1f83d9ab, 0x5be0cd19⟩

def round (s : State) (kw : ℕ) : State :=
  match s with
  | ⟨a, b, c, d, e, f, g, h⟩ =>
    let big1 := rotr 6 e ^^^ rotr 11 e ^^^ rotr 25 e
    let choose := (e &&& f) ^^^ ((0xffffffff - e) &&& g)
    let big0 := rotr 2 a ^^^ rotr 13 a ^^^ rotr 22 a
    let majority := (a &&& b) ^^^ (a &&& c) ^^^ (b &&& c)
    forced ((h + big1 + choose + kw) % 0x100000000) fun t1 =>
    forced ((t1 + big0 + majority) % 0x100000000) fun a' =>
    forced ((d + t1) % 0x100000000) fun e' => ⟨a', a, b, c, e', e, f, g⟩

/-- The schedule past a window of sixteen words, the oldest first. -/
def schedule : ℕ → List ℕ → List ℕ
  | 0, window => window
  | n + 1, window =>
    match window with
    | [] => []
    | w0 :: rest =>
      let w1 := rest.getD 0 0
      let w14 := rest.getD 13 0
      let small0 := rotr 7 w1 ^^^ rotr 18 w1 ^^^ (w1 >>> 3)
      let small1 := rotr 17 w14 ^^^ rotr 19 w14 ^^^ (w14 >>> 10)
      forced ((w0 + small0 + rest.getD 8 0 + small1) % 0x100000000) fun w16 =>
      w0 :: schedule n (rest ++ [w16])

def rounds : State → List ℕ → List ℕ → State
  | s, k :: ks, w :: ws => rounds (round s (k + w)) ks ws
  | s, _, _ => s

def compress (s : State) (block : List ℕ) : State :=
  match rounds s roundConstants (schedule 48 block) with
  | ⟨a, b, c, d, e, f, g, h⟩ =>
    forced ((s.a + a) % 0x100000000) fun a => forced ((s.b + b) % 0x100000000) fun b =>
    forced ((s.c + c) % 0x100000000) fun c => forced ((s.d + d) % 0x100000000) fun d =>
    forced ((s.e + e) % 0x100000000) fun e => forced ((s.f + f) % 0x100000000) fun f =>
    forced ((s.g + g) % 0x100000000) fun g => forced ((s.h + h) % 0x100000000) fun h =>
    ⟨a, b, c, d, e, f, g, h⟩

/-- The message, a one bit, zeros up to eight bytes short of a block, and the bit length. -/
def pad (bytes : List UInt8) : List UInt8 :=
  bytes ++ 0x80 :: (List.replicate ((119 - bytes.length % 64) % 64) 0 ++
    (Framing.littleEndian 8 (8 * bytes.length)).reverse)

def words : List UInt8 → List ℕ
  | b0 :: b1 :: b2 :: b3 :: rest =>
    forced (((b0.toNat * 256 + b1.toNat) * 256 + b2.toNat) * 256 + b3.toNat) fun w =>
    w :: words rest
  | _ => []

def absorb : ℕ → State → List ℕ → State
  | 0, s, _ => s
  | n + 1, s, ws => absorb n (compress s (ws.take 16)) (ws.drop 16)

def wordBytes (w : ℕ) : List UInt8 := (Framing.littleEndian 4 w).reverse

def stateBytes (s : State) : List UInt8 :=
  [s.a, s.b, s.c, s.d, s.e, s.f, s.g, s.h].flatMap wordBytes

theorem stateBytes_length (s : State) : (stateBytes s).length = 32 := by
  simp [stateBytes, wordBytes]

def sha256 (bytes : List UInt8) : Digest :=
  let padded := pad bytes
  ⟨stateBytes (absorb (padded.length / 64) initial (words padded)), stateBytes_length _⟩

example : hexEncode (sha256 (utf8 "abc")).toList =
    "ba7816bf8f01cfea414140de5dae2223b00361a396177a9cb410ff61f20015ad" := by decide +kernel

/-- A key of at most one block is padded with zeros, a longer one is hashed first. -/
def hmacKey (hash : List UInt8 → Digest) (key : List UInt8) : List UInt8 :=
  (if key.length ≤ 64 then key else (hash key).toList).rightpad 64 0

def hmac (hash : List UInt8 → Digest) (key message : List UInt8) : Digest :=
  let k := hmacKey hash key
  hash (k.map (· ^^^ 0x5c) ++ (hash (k.map (· ^^^ 0x36) ++ message)).toList)

end AssuranceLayer.Sha256
