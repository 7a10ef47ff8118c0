import AssuranceLayer.Document
import AssuranceLayer.Fallible
import AssuranceLayer.Sign

set_option autoImplicit false

/-!
Evidence packs: a signed index of the files of a delivery. Assembling a pack over files with
distinct plain names gives an index that accepts exactly those files.
-/
namespace AssuranceLayer.EvidencePack
open Fallible Framing Document Sign SortedMap

def packFormatVersion : String := "canton-solvency-pack-v1"
def packDigestDomain : String := "rocky-solvency-pack-v1"

structure PackEntry where
  name : String
  sha256 : String
deriving DecidableEq

structure Pack where
  formatVersion : String
  publisher : String
  snapshotTime : String
  reportDigest : String
  entries : List PackEntry
deriving DecidableEq

structure SignedPack where
  pack : Pack
  signature : SignatureBlock
deriving DecidableEq

inductive PackFailure where
  /-- "unsupported pack format version {found:?}" -/
  | unsupportedVersion (found : String)
  /-- "{name} appears twice in the pack" -/
  | duplicateEntry (name : String)
  /-- "{name:?} is not a plain file name" -/
  | unsafeName (name : String)
  /-- "the pack names {name}, which is not present" -/
  | missing (name : String)
  /-- "{name} does not match the digest the pack pins" -/
  | altered (name : String)
  /-- "{name} is present but the pack does not name it" -/
  | unlisted (name : String)
  /-- "the pack is evidence for a different report" -/
  | reportMismatch
  /-- "the pack is not signed by the trusted key" -/
  | unknownSigner
  /-- "the pack signature does not verify" -/
  | badSignature
deriving DecidableEq

def PlainName (name : String) : Prop :=
  ¬ (name = "" ∨ '/' ∈ name.toList ∨ '\\' ∈ name.toList ∨ name = "." ∨ name = "..")

instance (name : String) : Decidable (PlainName name) := inferInstanceAs (Decidable (¬ _))

def checkName (name : String) : Except PackFailure Unit := ensure (PlainName name) (.unsafeName name)

def packFields (p : Pack) : List UInt8 :=
  lp p.formatVersion ++ (lp p.publisher ++ (lp p.snapshotTime ++ (lp p.reportDigest ++
    counted u64le (fun e => lp e.name ++ lp e.sha256) p.entries)))

def packPreimage (p : Pack) : List UInt8 := utf8 packDigestDomain ++ packFields p

structure ShortEntry (e : PackEntry) : Prop where
  name : Short e.name
  sha256 : Short e.sha256

structure ShortPack (p : Pack) : Prop where
  formatVersion : Short p.formatVersion
  publisher : Short p.publisher
  snapshotTime : Short p.snapshotTime
  reportDigest : Short p.reportDigest
  entries : p.entries.length < 256 ^ 8 ∧ ∀ e ∈ p.entries, ShortEntry e

theorem framed_packFields : Framed ShortPack packFields := by
  have hentry : Framed ShortEntry fun e => lp e.name ++ lp e.sha256 :=
    (framed_lp.pair framed_lp).comp ShortEntry (fun e => (e.name, e.sha256))
      (fun _ h => ⟨h.name, h.sha256⟩) (by rintro ⟨⟩ ⟨⟩ _ _ ⟨⟩; rfl)
  exact (framed_lp.pair (framed_lp.pair (framed_lp.pair (framed_lp.pair
    (framed_u64le.counted hentry))))).comp ShortPack
    (fun p => (p.formatVersion, p.publisher, p.snapshotTime, p.reportDigest, p.entries))
    (fun _ h => ⟨h.formatVersion, h.publisher, h.snapshotTime, h.reportDigest, h.entries⟩)
    (by rintro ⟨⟩ ⟨⟩ _ _ ⟨⟩; rfl)

variable (sha256 : List UInt8 → Digest) (ed : Ed25519)

def memberDigest (bytes : List UInt8) : String := hexEncode (sha256 bytes).toList

def packDigest (p : Pack) : Digest := sha256 (packPreimage p)

def addMember (entries : SortedMap String String) (member : String × List UInt8) :
    Except PackFailure (SortedMap String String) := do
  checkName member.1
  ensure (entries.get? member.1 = none) (.duplicateEntry member.1)
  return entries.insert member.1 (memberDigest sha256 member.2)

def buildPack (publisher snapshotTime reportDigest : String) (members : List (String × List UInt8))
    (signer : ReportSigner) : Except PackFailure SignedPack := do
  let entries ← members.foldlM (addMember sha256) empty
  let pack : Pack := {
    formatVersion := packFormatVersion
    publisher, snapshotTime, reportDigest
    entries := entries.entries.map fun e => ⟨e.1, e.2⟩ }
  return ⟨pack, ⟨"ed25519", signer.publicKeyHex ed, signer.signDigest ed (packDigest sha256 pack)⟩⟩

def checkEntry (members : SortedMap String (List UInt8)) (entry : PackEntry) :
    Except PackFailure Unit := do
  checkName entry.name
  let bytes ← okOr (members.get? entry.name) (.missing entry.name)
  ensure (eqIgnoreAsciiCase (memberDigest sha256 bytes) entry.sha256 = true) (.altered entry.name)

/-- Check a delivery against its index: the signature, then that the members present are exactly
    the members named, byte for byte. -/
def verifyPack (signed : SignedPack) (trustedKey : String)
    (members : SortedMap String (List UInt8)) : Except PackFailure Unit := do
  ensure (signed.pack.formatVersion = packFormatVersion)
    (.unsupportedVersion signed.pack.formatVersion)
  ensure (eqIgnoreAsciiCase signed.signature.publicKey (trim trustedKey) = true) .unknownSigner
  (verifySignature ed (trim trustedKey) (packDigest sha256 signed.pack)
    signed.signature.value).mapError fun _ => .badSignature
  forM signed.pack.entries (checkEntry sha256 members)
  forM members.keys fun name => ensure (∃ e ∈ signed.pack.entries, e.name = name) (.unlisted name)

variable {sha256 ed}

theorem addMember_eq_ok {entries entries' : SortedMap String String} {member : String × List UInt8} :
    addMember sha256 entries member = .ok entries' ↔
      (PlainName member.1 ∧ entries.get? member.1 = none) ∧
        entries' = entries.insert member.1 (memberDigest sha256 member.2) := by
  simp only [addMember, checkName, bind_eq_ok, ensure_eq_ok, pure_eq_ok, Unique.exists_iff, and_assoc]
  exact and_congr_right fun _ => and_congr_right fun _ => eq_comm

theorem addMembers_eq_ok {members : List (String × List UInt8)} {start entries : SortedMap String String} :
    members.foldlM (addMember sha256) start = .ok entries ↔
      (∀ m ∈ members, PlainName m.1 ∧ start.get? m.1 = none) ∧ (members.map Prod.fst).Nodup ∧
      entries = members.foldl (fun m e => m.insert e.1 (memberDigest sha256 e.2)) start :=
  foldlM_fresh fun entries m entries' => (addMember_eq_ok : addMember sha256 entries m = .ok entries' ↔ _)

theorem eqIgnoreAsciiCase_self (s : String) : eqIgnoreAsciiCase s s = true := decide_eq_true rfl

theorem buildPack_eq_ok {publisher snapshotTime reportDigest : String}
    {members : List (String × List UInt8)} {signer : ReportSigner} {signed : SignedPack} :
    buildPack sha256 ed publisher snapshotTime reportDigest members signer = .ok signed ↔
      (∀ m ∈ members, PlainName m.1) ∧ (members.map Prod.fst).Nodup ∧
      signed.pack = ⟨packFormatVersion, publisher, snapshotTime, reportDigest,
        (ofList (members.map fun m => (m.1, memberDigest sha256 m.2))).entries.map
          fun e => ⟨e.1, e.2⟩⟩ ∧
      signed.signature = ⟨"ed25519", signer.publicKeyHex ed,
        signer.signDigest ed (packDigest sha256 signed.pack)⟩ := by
  simp only [buildPack, bind_eq_ok, addMembers_eq_ok, pure_eq_ok, get?_empty, and_true]
  have hfold : members.foldl (fun m e => m.insert e.1 (memberDigest sha256 e.2)) empty =
      ofList (members.map fun m => (m.1, memberDigest sha256 m.2)) := by rw [ofList, List.foldl_map]
  rw [hfold]
  constructor
  · rintro ⟨_, ⟨hplain, hnodup, rfl⟩, rfl⟩
    exact ⟨hplain, hnodup, rfl, rfl⟩
  · rintro ⟨hplain, hnodup, hpack, hsignature⟩
    refine ⟨_, ⟨hplain, hnodup, rfl⟩, ?_⟩
    rw [hpack] at hsignature
    calc
      _ = SignedPack.mk signed.pack signed.signature := by rw [hpack, hsignature]
      _ = signed := rfl

/-- A pack accepts, under its signer's key, the members it was built over. -/
theorem buildPack_verifies {publisher snapshotTime reportDigest : String}
    {members : List (String × List UInt8)} {signer : ReportSigner} {signed : SignedPack}
    (hsig : ed.AcceptsOwn)
    (h : buildPack sha256 ed publisher snapshotTime reportDigest members signer = .ok signed) :
    verifyPack sha256 ed signed (signer.publicKeyHex ed) (ofList members) = .ok () := by
  obtain ⟨hplain, hnodup, hpack, hsignature⟩ := buildPack_eq_ok.mp h
  have hentries : ∀ e, e ∈ signed.pack.entries ↔
      ∃ m ∈ members, e = ⟨m.1, memberDigest sha256 m.2⟩ := by
    have hkeys : ((members.map fun m => (m.1, memberDigest sha256 m.2)).map Prod.fst).Nodup := by
      rwa [List.map_map]
    intro e
    simp only [hpack, List.mem_map, Prod.exists, ← get?_eq_some, get?_ofList hkeys, Prod.mk.injEq]
    constructor
    · rintro ⟨_, _, ⟨name, bytes, hm, rfl, rfl⟩, rfl⟩
      exact ⟨name, bytes, hm, rfl⟩
    · rintro ⟨name, bytes, hm, rfl⟩
      exact ⟨_, _, ⟨name, bytes, hm, rfl, rfl⟩, rfl⟩
  simp only [verifyPack, bind_eq_ok, ensure_eq_ok, mapError_eq_ok, forM_eq_ok, ReportSigner.publicKeyHex,
    trim_hexEncode]
  refine ⟨(), by rw [hpack], (), by rw [hsignature]; exact eqIgnoreAsciiCase_self _, (), ?_, (), ?_, ?_⟩
  · rw [hsignature]
    exact verifySignature_own hsig signer _
  · intro e he
    obtain ⟨m, hm, rfl⟩ := (hentries e).mp he
    simp only [checkEntry, checkName, bind_eq_ok, ensure_eq_ok, okOr_eq_ok]
    exact ⟨(), hplain m hm, m.2, (get?_ofList hnodup).mpr hm, eqIgnoreAsciiCase_self _⟩
  · intro name hname
    obtain ⟨m, hm, rfl⟩ := List.mem_map.mp (keys_ofList.mp hname)
    exact ⟨_, (hentries _).mpr ⟨m, hm, rfl⟩, rfl⟩

end AssuranceLayer.EvidencePack
