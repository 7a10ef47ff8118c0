import AssuranceLayer.Command
import AssuranceLayer.Conservation

set_option autoImplicit false

/-!
The order in which the two publishers commit their customers: by identifier in the service, by the
derived salt on the command line.
-/
namespace AssuranceLayer.LeafOrder
open Fallible Sums Merkle Document Sign Produce Service Command Conservation SortedMap

/-! ## The order of the command line -/

section Order

theorem saltOrder_trans {a b c : LeafInput} (hab : saltOrder a b) (hbc : saltOrder b c) :
    saltOrder a c := by
  rcases hab with hab | ⟨hab, hidab⟩
  · rcases hbc with hbc | ⟨hbc, _⟩
    · exact .inl (List.lt_trans hab hbc)
    · exact .inl (hbc ▸ hab)
  · rcases hbc with hbc | ⟨hbc, hidbc⟩
    · exact .inl (hab ▸ hbc)
    · exact .inr ⟨hab.trans hbc, hidab.trans hidbc⟩

theorem saltOrder_total (a b : LeafInput) : saltOrder a b ∨ saltOrder b a := by
  rcases List.le_total a.salt.toList b.salt.toList with h | h
  · rcases List.le_iff_lt_or_eq.mp h with hlt | heq
    · exact .inl (.inl hlt)
    · have hsalt := List.Vector.toList_injective heq
      rcases le_total a.userId b.userId with hid | hid
      · exact .inl (.inr ⟨hsalt, hid⟩)
      · exact .inr (.inr ⟨hsalt.symm, hid⟩)
  · rcases List.le_iff_lt_or_eq.mp h with hlt | heq
    · exact .inr (.inl hlt)
    · have hsalt := List.Vector.toList_injective heq
      rcases le_total a.userId b.userId with hid | hid
      · exact .inl (.inr ⟨hsalt.symm, hid⟩)
      · exact .inr (.inr ⟨hsalt, hid⟩)

instance : IsTrans LeafInput saltOrder := ⟨fun _ _ _ => saltOrder_trans⟩

instance : Std.Total saltOrder := ⟨saltOrder_total⟩

/-- Under ascending identifiers only the salts decide. -/
theorem saltOrder_of_lt {a b : LeafInput} (h : a.userId < b.userId) :
    saltOrder a b ↔ a.salt.toList ≤ b.salt.toList := by
  rw [List.le_iff_lt_or_eq, saltOrder, and_iff_left h.le, List.Vector.toList_injective.eq_iff]

end Order

variable (sha256 : List UInt8 → Digest)

def customerLeaf (masterSalt : List UInt8) (user : String × AmountMap) : LeafInput where
  salt := leafSalt sha256 masterSalt user.1
  userId := user.1
  balances := user.2

/-- The customers and balances a file of balances lists. -/
def readUsers (text : String) : Except CommandFailure Users :=
  (text.toList.splitOn (Char.ofNat 0x0a)).zipIdx.foldlM readRow empty

/-- A leaf as its holder's proof opens it. -/
def opening (l : LeafInput) : LeafPreimage := ⟨hexEncode l.salt.toList, l.userId, l.balances⟩

/-- Ascending in the derived salt with ties by user id, and so the sequence the command line commits
    for the same customers under the same master salt. -/
structure InSaltOrder (masterSalt : List UInt8) (users : Users) (committed : List LeafPreimage) :
    Prop where
  ascending : ∃ leaves : List LeafInput, committed = leaves.map opening ∧
    leaves.Perm (users.entries.map (customerLeaf sha256 masterSalt)) ∧ leaves.Pairwise saltOrder
  commandLine : ∀ text saltText leaves, readUsers text = .ok users → utf8 saltText = masterSalt →
    readBalances sha256 text saltText = .ok leaves → committed = leaves.map opening

variable {sha256} {ed : Ed25519} {masterSalt : List UInt8} {users : Users}

theorem readBalances_eq_ok {text saltText : String} {leaves : List LeafInput} :
    readBalances sha256 text saltText = .ok leaves ↔ ∃ users, readUsers text = .ok users ∧
      users.isEmpty = false ∧
      leaves = (users.entries.map (customerLeaf sha256 (utf8 saltText))).insertionSort saltOrder := by
  simp only [readBalances, readUsers, bind_eq_ok, ensure_eq_ok, pure_eq_ok, Unique.exists_iff]
  exact exists_congr fun users => and_congr_right fun _ => and_congr_right fun _ => eq_comm

theorem opening_inj {a b : LeafInput} (h : opening a = opening b) : a = b := by
  obtain ⟨saltA, idA, balancesA⟩ := a
  obtain ⟨saltB, idB, balancesB⟩ := b
  simp only [opening, LeafPreimage.mk.injEq] at h
  obtain ⟨hsalt, rfl, rfl⟩ := h
  rw [hexEncode_digest_inj hsalt]

theorem customers_pairwise_iff :
    (users.entries.map (customerLeaf sha256 masterSalt)).Pairwise saltOrder ↔
      users.keys.Pairwise fun a b =>
        (leafSalt sha256 masterSalt a).toList ≤ (leafSalt sha256 masterSalt b).toList := by
  rw [List.pairwise_map, keys, List.pairwise_map]
  constructor
  · intro h
    exact (h.and users.ascending).imp fun hab => (saltOrder_of_lt hab.2).mp hab.1
  · intro h
    exact (h.and users.ascending).imp fun hab => (saltOrder_of_lt hab.2).mpr hab.1

/-- The command line commits in that order whatever the identifiers are. -/
theorem readBalances_inSaltOrder {text saltText : String} {leaves : List LeafInput}
    (hread : readUsers text = .ok users) (h : readBalances sha256 text saltText = .ok leaves) :
    InSaltOrder sha256 (utf8 saltText) users (leaves.map opening) := by
  obtain ⟨read, husers, _, rfl⟩ := readBalances_eq_ok.mp h
  obtain rfl : users = read := Except.ok.inj (hread.symm.trans husers)
  refine ⟨⟨_, rfl, List.perm_insertionSort _ _, List.pairwise_insertionSort _ _⟩, ?_⟩
  intro other salt leaves hother hsalt hleaves
  obtain ⟨read, husers, _, rfl⟩ := readBalances_eq_ok.mp hleaves
  obtain rfl : users = read := Except.ok.inj (hother.symm.trans husers)
  rw [hsalt]

theorem inSaltOrder_iff :
    InSaltOrder sha256 masterSalt users ((users.entries.map (customerLeaf sha256 masterSalt)).map opening) ↔
      users.keys.Pairwise fun a b =>
        (leafSalt sha256 masterSalt a).toList ≤ (leafSalt sha256 masterSalt b).toList := by
  rw [← customers_pairwise_iff]
  constructor
  · rintro ⟨⟨leaves, hopened, _, hsorted⟩, _⟩
    rwa [List.map_injective_iff.mpr (fun _ _ => opening_inj) hopened]
  · intro hsorted
    refine ⟨⟨_, rfl, List.Perm.refl _, hsorted⟩, ?_⟩
    rintro text saltText leaves hread rfl hleaves
    obtain ⟨users', hread', _, rfl⟩ := readBalances_eq_ok.mp hleaves
    obtain rfl : users = users' := Except.ok.inj (hread.symm.trans hread')
    rw [hsorted.insertionSort_eq]

variable (sha256 ed) in
/-- The service commits its customers in ascending user id, so in salt order only when the derived
    salts happen to ascend with the identifiers. -/
theorem leaf_order_iff (print : Json → String) (req : PublishRequest) (masterSalt : Bytes 32)
    (signer : ReportSigner) {resp : PublishResponse}
    (h : doPublish sha256 ed print req masterSalt signer = .ok resp) :
    ∃ d, deliver sha256 ed print req masterSalt signer = .ok (d, resp.clamped) ∧
      resp = d.response sha256 ed print resp.clamped signer ∧
      (InSaltOrder sha256 masterSalt.toList (Service.users req) (d.proofs.map ProofDocument.leaf) ↔
        (Service.users req).keys.Pairwise fun a b =>
          (leafSalt sha256 masterSalt.toList a).toList ≤ (leafSalt sha256 masterSalt.toList b).toList) := by
  obtain ⟨d, hdeliver, hresp⟩ := doPublish_spec h
  obtain ⟨pub, hpub, _, hproofs, _⟩ := deliver_spec hdeliver
  obtain ⟨metadata, _, hpublish⟩ := publication_spec hpub
  obtain ⟨nodes, tree, hpublished⟩ := publishWith_published hpublish
  have hcommitted : d.proofs.map ProofDocument.leaf = (leafInputs sha256 req masterSalt).map opening := by
    rw [hproofs, hpublished.documents, List.map_map]
    conv_rhs => rw [← List.zipIdx_map_fst 0 (leafInputs sha256 req masterSalt), List.map_map]
    rfl
  refine ⟨d, hdeliver, hresp, ?_⟩
  rw [hcommitted]
  exact inSaltOrder_iff

/-! ## Two requests -/

def saltText : String := "0123456789abcdef0123456789abcdef"

theorem saltText_length : (utf8 saltText).length = 32 := by decide

def textSalt : Bytes 32 := ⟨utf8 saltText, saltText_length⟩

def pairRequest (first second : String) : PublishRequest :=
  sampleRequest [⟨first, ofList [("USDA", "1")]⟩, ⟨second, ofList [("USDA", "2")]⟩]

def publishPair (first second : String) : Except PublishFailure PublishResponse :=
  doPublish Sha256.sha256 (goldenEd25519 []) Json.toStringPretty (pairRequest first second) textSalt
    goldenSigner

theorem leaf_order_iff_pair : ∃ resp, ∃ d : Delivery, publishPair "alice" "bob" = .ok resp ∧
    resp = d.response Sha256.sha256 (goldenEd25519 []) Json.toStringPretty resp.clamped goldenSigner ∧
    InSaltOrder Sha256.sha256 textSalt.toList (Service.users (pairRequest "alice" "bob"))
      (d.proofs.map ProofDocument.leaf) := by
  obtain ⟨resp, h⟩ : ∃ resp, publishPair "alice" "bob" = .ok resp := exists_of_isOk (by decide +kernel)
  obtain ⟨d, _, hresp, hiff⟩ := leaf_order_iff Sha256.sha256 (goldenEd25519 []) Json.toStringPretty
    (pairRequest "alice" "bob") textSalt goldenSigner h
  exact ⟨resp, d, h, hresp, hiff.mpr (by decide +kernel)⟩

def pairText : String := "carol,USDA,1\ndave,USDA,2"

/-- The service commits carol before dave, the command line dave before carol. -/
theorem leaf_order_differs : ∃ resp leaves, publishPair "carol" "dave" = .ok resp ∧
    readUsers pairText = .ok (Service.users (pairRequest "carol" "dave")) ∧
    utf8 saltText = textSalt.toList ∧ readBalances Sha256.sha256 pairText saltText = .ok leaves ∧
    resp.proofs.map ProofOut.userId = ["carol", "dave"] ∧
    leaves.map LeafInput.userId = ["dave", "carol"] := by
  obtain ⟨resp, h⟩ : ∃ resp, publishPair "carol" "dave" = .ok resp := exists_of_isOk (by decide +kernel)
  obtain ⟨leaves, hleaves⟩ : ∃ leaves, readBalances Sha256.sha256 pairText saltText = .ok leaves :=
    exists_of_isOk (by decide +kernel)
  have hids : ((publishPair "carol" "dave").toOption.map fun resp => resp.proofs.map ProofOut.userId) =
      some ["carol", "dave"] := by decide +kernel
  have hread : ((readUsers pairText).toOption.map fun users => users.entries) =
      some (Service.users (pairRequest "carol" "dave")).entries := by decide +kernel
  have hsorted : ((readBalances Sha256.sha256 pairText saltText).toOption.map
      fun leaves => leaves.map LeafInput.userId) = some ["dave", "carol"] := by decide +kernel
  rw [h] at hids
  rw [hleaves] at hsorted
  refine ⟨resp, leaves, h, ?_, rfl, hleaves, Option.some.inj hids, Option.some.inj hsorted⟩
  cases husers : readUsers pairText with
  | error e => simp [husers, Except.toOption] at hread
  | ok users =>
    rw [husers] at hread
    rw [ext_entries (Option.some.inj hread)]

end AssuranceLayer.LeafOrder
