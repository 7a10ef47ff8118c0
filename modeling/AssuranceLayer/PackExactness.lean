import AssuranceLayer.EvidencePack
import AssuranceLayer.Sha256

set_option autoImplicit false

/-! What a pack accepts: exactly the delivery its index names, byte for byte. -/
namespace AssuranceLayer.PackExactness
open Fallible Sign EvidencePack SortedMap

def contents (delivery : SortedMap String (List UInt8)) : List (List UInt8) :=
  delivery.entries.map Prod.snd

variable (sha256 : List UInt8 → Digest) (ed : Ed25519)

/-- The index is signed by the trusted key and names the delivered files with their digests. -/
structure Indexes (signed : SignedPack) (trustedKey : String)
    (delivery : SortedMap String (List UInt8)) : Prop where
  version : signed.pack.formatVersion = packFormatVersion
  signer : eqIgnoreAsciiCase signed.signature.publicKey (trim trustedKey) = true
  signature : verifySignature ed (trim trustedKey) (packDigest sha256 signed.pack)
    signed.signature.value = .ok ()
  plain : ∀ e ∈ signed.pack.entries, PlainName e.name
  names : ∀ name, name ∈ delivery.keys ↔ name ∈ signed.pack.entries.map PackEntry.name
  digests : ∀ e ∈ signed.pack.entries, ∀ bytes, delivery.get? e.name = some bytes →
    eqIgnoreAsciiCase (memberDigest sha256 bytes) e.sha256 = true

variable {sha256 ed} {signed : SignedPack} {trustedKey : String}
  {delivery A B : SortedMap String (List UInt8)}

theorem checkEntry_eq_ok {e : PackEntry} : checkEntry sha256 delivery e = .ok () ↔
    PlainName e.name ∧ ∃ bytes, delivery.get? e.name = some bytes ∧
      eqIgnoreAsciiCase (memberDigest sha256 bytes) e.sha256 = true := by
  simp only [checkEntry, checkName, bind_eq_ok, ensure_eq_ok, okOr_eq_ok, Unique.exists_iff]

theorem verifyPack_eq_ok : verifyPack sha256 ed signed trustedKey delivery = .ok () ↔
    Indexes sha256 ed signed trustedKey delivery := by
  simp only [verifyPack, bind_eq_ok, ensure_eq_ok, mapError_eq_ok, forM_eq_ok, checkEntry_eq_ok,
    Unique.exists_iff]
  constructor
  · rintro ⟨hversion, hsigner, hsignature, hentries, hlisted⟩
    refine ⟨hversion, hsigner, hsignature, fun e he => (hentries e he).1, fun name => ?_,
      fun e he bytes hbytes => ?_⟩
    · rw [List.mem_map]
      constructor
      · exact hlisted name
      · rintro ⟨e, he, rfl⟩
        obtain ⟨_, bytes, hbytes, _⟩ := hentries e he
        rw [mem_keys, hbytes]
        rfl
    · obtain ⟨_, bytes', hbytes', hdigest⟩ := hentries e he
      rw [hbytes, Option.some.injEq] at hbytes'
      rwa [hbytes']
  · intro h
    refine ⟨h.version, h.signer, h.signature, fun e he => ⟨h.plain e he, ?_⟩, fun name hname => ?_⟩
    · have hmem := (h.names e.name).mpr (List.mem_map_of_mem he)
      obtain ⟨bytes, hbytes⟩ := Option.isSome_iff_exists.mp (mem_keys.mp hmem)
      exact ⟨bytes, hbytes, h.digests e he bytes hbytes⟩
    · exact List.mem_map.mp ((h.names name).mp hname)

/-! ## One index, one delivery -/

theorem toLower_digitChar {n : ℕ} (h : n < 16) : n.digitChar.toLower = n.digitChar := by
  interval_cases n <;> decide

theorem toLower_hexEncode (bytes : List UInt8) :
    (hexEncode bytes).toList.map Char.toLower = (hexEncode bytes).toList := by
  rw [hexEncode, String.toList_ofList]
  induction bytes with
  | nil => rfl
  | cons b bytes ih =>
    have hb := b.toNat_lt
    rw [List.flatMap_cons, List.map_append, ih, hexPair, List.map_cons, List.map_cons,
      toLower_digitChar (by omega), toLower_digitChar (by omega)]
    rfl

/-- Two digests written out agree with one text up to case only when they are one digest. -/
theorem digest_eq_of_eqIgnoreAsciiCase {a b : Digest} {s : String}
    (ha : eqIgnoreAsciiCase (hexEncode a.toList) s = true)
    (hb : eqIgnoreAsciiCase (hexEncode b.toList) s = true) : a = b := by
  have ha' := of_decide_eq_true ha
  have hb' := of_decide_eq_true hb
  rw [toLower_hexEncode] at ha' hb'
  exact hexEncode_digest_inj (String.toList_inj.mp (ha'.trans hb'.symm))

theorem get?_mem_contents {name : String} {bytes : List UInt8} (h : delivery.get? name = some bytes) :
    bytes ∈ contents delivery :=
  List.mem_map.mpr ⟨_, get?_eq_some.mp h, rfl⟩

theorem delivery_unique (hcf : CollisionFreeOn sha256 (contents A ++ contents B))
    (hA : Indexes sha256 ed signed trustedKey A) (hB : Indexes sha256 ed signed trustedKey B) : A = B := by
  apply ext_get?
  intro name
  by_cases hname : name ∈ signed.pack.entries.map PackEntry.name
  · obtain ⟨e, he, rfl⟩ := List.mem_map.mp hname
    obtain ⟨a, ha⟩ := Option.isSome_iff_exists.mp (mem_keys.mp ((hA.names e.name).mpr hname))
    obtain ⟨b, hb⟩ := Option.isSome_iff_exists.mp (mem_keys.mp ((hB.names e.name).mpr hname))
    have hdigest : sha256 a = sha256 b :=
      digest_eq_of_eqIgnoreAsciiCase (hA.digests e he a ha) (hB.digests e he b hb)
    have hbytes := hcf a (List.mem_append_left _ (get?_mem_contents ha)) b
      (List.mem_append_right _ (get?_mem_contents hb)) hdigest
    rw [ha, hb, hbytes]
  · rw [get?_eq_none.mpr (mt (hA.names name).mp hname), get?_eq_none.mpr (mt (hB.names name).mp hname)]

/-! ## The index of given files -/

section Build
variable {publisher snapshotTime reportDigest : String} {members members' : List (String × List UInt8)}
  {signer : ReportSigner}

theorem buildPack_exists (hplain : ∀ m ∈ members, PlainName m.1)
    (hnodup : (members.map Prod.fst).Nodup) :
    ∃ signed, buildPack sha256 ed publisher snapshotTime reportDigest members signer = .ok signed := by
  let pack : Pack := ⟨packFormatVersion, publisher, snapshotTime, reportDigest,
    (ofList (members.map fun m => (m.1, memberDigest sha256 m.2))).entries.map fun e => ⟨e.1, e.2⟩⟩
  exact ⟨⟨pack, ⟨"ed25519", signer.publicKeyHex ed, signer.signDigest ed (packDigest sha256 pack)⟩⟩,
    buildPack_eq_ok.mpr ⟨hplain, hnodup, rfl, rfl⟩⟩

theorem buildPack_perm (h : members'.Perm members)
    (hbuilt : buildPack sha256 ed publisher snapshotTime reportDigest members signer = .ok signed) :
    buildPack sha256 ed publisher snapshotTime reportDigest members' signer = .ok signed := by
  obtain ⟨hplain, hnodup, hpack, hsignature⟩ := buildPack_eq_ok.mp hbuilt
  refine buildPack_eq_ok.mpr ⟨fun m hm => hplain m (h.mem_iff.mp hm),
    (h.map Prod.fst).nodup_iff.mpr hnodup, ?_, hsignature⟩
  rw [hpack, ofList_perm (h.map _)]
  rwa [List.map_map]

theorem contents_ofList (hnodup : (members.map Prod.fst).Nodup) {bytes : List UInt8} :
    bytes ∈ contents (ofList members) ↔ bytes ∈ members.map Prod.snd := by
  rw [contents, ((entries_ofList_perm hnodup).map Prod.snd).mem_iff]

end Build

/-- A delivery is accepted exactly when the signed index names its files with their digests, so one
    index accepts one delivery; the index built over files with distinct plain names does not depend
    on their order and accepts those files only. -/
theorem pack_exact (sha256 : List UInt8 → Digest) (ed : Ed25519) (hsig : ed.AcceptsOwn) :
    (∀ signed trustedKey delivery, verifyPack sha256 ed signed trustedKey delivery = .ok () ↔
      Indexes sha256 ed signed trustedKey delivery) ∧
    (∀ signed trustedKey A B, CollisionFreeOn sha256 (contents A ++ contents B) →
      verifyPack sha256 ed signed trustedKey A = .ok () →
      verifyPack sha256 ed signed trustedKey B = .ok () → A = B) ∧
    ∀ publisher snapshotTime reportDigest members signer,
      (∀ m ∈ members, PlainName m.1) → (members.map Prod.fst).Nodup →
      ∃ signed, (∀ members', members'.Perm members →
          buildPack sha256 ed publisher snapshotTime reportDigest members' signer = .ok signed) ∧
        ∀ delivery, CollisionFreeOn sha256 (contents delivery ++ members.map Prod.snd) →
          (verifyPack sha256 ed signed (signer.publicKeyHex ed) delivery = .ok () ↔
            delivery = ofList members) := by
  refine ⟨fun _ _ _ => verifyPack_eq_ok, fun _ _ _ _ hcf hA hB => ?_, ?_⟩
  · exact delivery_unique hcf (verifyPack_eq_ok.mp hA) (verifyPack_eq_ok.mp hB)
  · intro publisher snapshotTime reportDigest members signer hplain hnodup
    obtain ⟨signed, hbuilt⟩ := buildPack_exists hplain hnodup
    have hown := buildPack_verifies hsig hbuilt
    refine ⟨signed, fun members' h => buildPack_perm h hbuilt, fun delivery hcf => ?_⟩
    constructor
    · intro hdelivery
      refine delivery_unique (fun p hp q hq => hcf p ?_ q ?_) (verifyPack_eq_ok.mp hdelivery)
        (verifyPack_eq_ok.mp hown)
      · rwa [List.mem_append, contents_ofList hnodup, ← List.mem_append] at hp
      · rwa [List.mem_append, contents_ofList hnodup, ← List.mem_append] at hq
    · rintro rfl
      exact hown

def sampleMembers : List (String × List UInt8) :=
  [("report.json", utf8 "report"), ("proof-alice.json", utf8 "proof a")]

/-- Listed in either order the two files have one index, and it refuses a delivery without the
    second. -/
theorem pack_exact_two : ∃ signed,
    buildPack Sha256.sha256 (goldenEd25519 []) "venue::example" "2026-01-01T00:00:00Z" "aa11"
      sampleMembers.reverse goldenSigner = .ok signed ∧
    verifyPack Sha256.sha256 (goldenEd25519 []) signed (goldenSigner.publicKeyHex (goldenEd25519 []))
      (ofList sampleMembers) = .ok () ∧
    verifyPack Sha256.sha256 (goldenEd25519 []) signed (goldenSigner.publicKeyHex (goldenEd25519 []))
      (ofList (sampleMembers.take 1)) ≠ .ok () := by
  obtain ⟨signed, hbuilt, haccepts⟩ := (pack_exact Sha256.sha256 (goldenEd25519 [])
    (recorded_acceptsOwn _ _ _)).2.2 "venue::example" "2026-01-01T00:00:00Z" "aa11" sampleMembers
    goldenSigner (by decide +kernel) (by decide +kernel)
  refine ⟨signed, hbuilt _ sampleMembers.reverse_perm, ?_, ?_⟩
  · exact (haccepts _ (collisionFreeOn_of_nodup (by decide +kernel))).mpr rfl
  · rw [Ne, haccepts _ (collisionFreeOn_of_nodup (by decide +kernel))]
    decide +kernel

end AssuranceLayer.PackExactness
