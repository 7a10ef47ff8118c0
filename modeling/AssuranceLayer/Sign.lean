import AssuranceLayer.Primitives
import AssuranceLayer.Fallible

set_option autoImplicit false

/-! Detached signatures over a digest. The signature scheme itself is a parameter. -/
namespace AssuranceLayer.Sign
open Fallible

/-- An Ed25519 implementation: the public key of a seed, deterministic signing, whether 32 bytes
    decode to a key, and the check of a signature. -/
structure Ed25519 where
  publicKey : Bytes 32 → Bytes 32
  sign : Bytes 32 → List UInt8 → Bytes 64
  validKey : Bytes 32 → Bool
  verify : Bytes 32 → List UInt8 → Bytes 64 → Bool

/-- The scheme accepts, under the key of a seed, what that seed signed. -/
def Ed25519.AcceptsOwn (ed : Ed25519) : Prop :=
  ∀ seed message, ed.validKey (ed.publicKey seed) = true ∧
    ed.verify (ed.publicKey seed) message (ed.sign seed message) = true

inductive SignatureError where
  /-- "public key is not 32 bytes of hex" -/
  | malformedPublicKey
  /-- "signature is not 64 bytes of hex" -/
  | malformedSignature
  /-- "signature does not verify under this key" -/
  | badSignature
deriving DecidableEq

structure ReportSigner where
  seed : Bytes 32

variable (ed : Ed25519)

def ReportSigner.publicKeyHex (signer : ReportSigner) : String :=
  hexEncode (ed.publicKey signer.seed).toList

def ReportSigner.signDigest (signer : ReportSigner) (digest : Digest) : String :=
  hexEncode (ed.sign signer.seed digest.toList).toList

def verifySignature (publicKeyHex : String) (digest : Digest) (signatureHex : String) :
    Except SignatureError Unit := do
  let key ← okOr (hexDecodeN 32 publicKeyHex) .malformedPublicKey
  let sig ← okOr (hexDecodeN 64 signatureHex) .malformedSignature
  ensure (ed.validKey key = true) .malformedPublicKey
  ensure (ed.verify key digest.toList sig = true) .badSignature

variable {ed}

theorem verifySignature_own (h : ed.AcceptsOwn) (signer : ReportSigner) (digest : Digest) :
    verifySignature ed (signer.publicKeyHex ed) digest (signer.signDigest ed digest) = .ok () := by
  simp only [verifySignature, ReportSigner.publicKeyHex, ReportSigner.signDigest, bind_eq_ok,
    okOr_eq_ok, hexDecodeN_encode, ensure_eq_ok]
  exact ⟨_, rfl, _, rfl, (), (h signer.seed digest.toList).1, (h signer.seed digest.toList).2⟩

/-- `n` as a big-endian byte array. -/
def bytesOf (width n : ℕ) : Bytes width :=
  ⟨(Framing.littleEndian width n).reverse, by simp⟩

/-- The scheme as recorded for one key pair and the messages it signed; off the record a zero
    signature stands in. -/
def recorded (seed key : Bytes 32) (signed : List (Digest × Bytes 64)) : Ed25519 :=
  let publicKey := fun s => if s = seed then key else s
  let signature := fun k message =>
    if k = key then ((signed.find? fun r => r.1.toList = message).map Prod.snd).getD (bytesOf 64 0)
    else bytesOf 64 0
  { publicKey
    sign := fun s message => signature (publicKey s) message
    validKey := fun _ => true
    verify := fun k message sig => sig = signature k message }

theorem recorded_acceptsOwn (seed key : Bytes 32) (signed : List (Digest × Bytes 64)) :
    (recorded seed key signed).AcceptsOwn :=
  fun _ _ => ⟨rfl, decide_eq_true rfl⟩

/-- The signer of the golden vectors, with seed `[1; 32]`. -/
def goldenSigner : ReportSigner :=
  ⟨bytesOf 32 0x0101010101010101010101010101010101010101010101010101010101010101⟩

def goldenEd25519 (signed : List (Digest × Bytes 64)) : Ed25519 :=
  recorded goldenSigner.seed
    (bytesOf 32 0x8a88e3dd7409f195fd52db2d3cba5d72ca6709bf1d94121bf3748801b40f6f5c) signed

end AssuranceLayer.Sign
