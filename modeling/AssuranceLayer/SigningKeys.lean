import AssuranceLayer.Interleaving
import AssuranceLayer.Publishing

set_option autoImplicit false

/-!
An organisation's row beside its publications. Publishing, viewing the organisation and changing its
settings each read the row first and write later, and any number of them interleave.
-/
namespace AssuranceLayer.SigningKeys
open Fallible Interleaving Task Document Digest Sign Anchoring Conservation Extension Service Publishing

structure Records where
  publisherParty : String
  signingKeyHex : Option String
  rows : List StoredPublication

inductive Refusal where
  /-- "snapshot time {} does not advance", "ledger offset {} moves backwards" -/
  | notForward
  | service (e : PublishFailure)
  /-- "signing key changed for {}" -/
  | keyChanged
  /-- A unique column is taken. -/
  | database
deriving DecidableEq

inductive Request where
  /-- The signer is the one that the service has for the organisation when it is asked. -/
  | publish (input : PublishInput) (signer : ReportSigner) (masterSalt : Bytes 32) (id : String)
  /-- The key that the service answers an administrator with, if it does. -/
  | view (admin : Bool) (publicKey : Option String)
  | updateGeneral (publisherParty : String)

variable (sha256 : List UInt8 → Digest) (ed : Ed25519) (print : Json → String)

def stored (s : Records) (row : StoredPublication) (publicKey : String) : Records :=
  { s with signingKeyHex := some publicKey, rows := s.rows ++ [row] }

def publishForOrg (input : PublishInput) (signer : ReportSigner) (masterSalt : Bytes 32) (id : String) :
    Task Records Refusal Unit := do
  let org ← query fun s => s
  let previous ← query fun s => s.rows.getLast?
  require (mayFollow input previous = true) .notForward
  match deliver sha256 ed print (requestOf org.publisherParty input previous) masterSalt signer with
  | .error e => fail (.service e)
  | .ok d => do
    require (sameSigningKey org.signingKeyHex (signer.publicKeyHex ed) = true) .keyChanged
    transact fun s =>
      if admits s.rows (storedRow sha256 id input previous d.1) then
        .ok ((), stored s (storedRow sha256 id input previous d.1) (signer.publicKeyHex ed))
      else .error .database

/-- An organisation without a recorded key asks the service again. -/
def viewOrg (admin : Bool) (publicKey : Option String) : Task Records Refusal Unit := do
  let org ← query fun s => s
  if admin ∧ (org.signingKeyHex = none ∨ org.signingKeyHex = some "") then
    match publicKey with
    | some key => modify fun s => { s with signingKeyHex := some key }
    | none => pure ()
  else pure ()

def Request.task : Request → Task Records Refusal Unit
  | publish input signer masterSalt id => publishForOrg sha256 ed print input signer masterSalt id
  | view admin publicKey => viewOrg admin publicKey
  | updateGeneral publisherParty => modify fun s => { s with publisherParty }

/-! ## Writes -/

section Writes
variable (K : Records → Prop)

/-- Others append publications and keep the invariant. -/
structure Later (s t : Records) : Prop where
  kept : K s → K t
  appended : ∃ more, t.rows = s.rows ++ more

/-- Everything that a request can write, on what it has read before. -/
inductive Write : Request → Records → Records → Prop where
  | published {s t u : Records} {input : PublishInput} {signer : ReportSigner} {masterSalt : Bytes 32}
      {id : String} {d : Delivery} {clamped : ℕ} : K t → Later K t u → K u → Later K u s →
      mayFollow input u.rows.getLast? = true →
      deliver sha256 ed print (requestOf t.publisherParty input u.rows.getLast?) masterSalt signer =
        .ok (d, clamped) →
      sameSigningKey t.signingKeyHex (signer.publicKeyHex ed) = true →
      admits s.rows (storedRow sha256 id input u.rows.getLast? d) = true →
      Write (.publish input signer masterSalt id) s
        (stored s (storedRow sha256 id input u.rows.getLast? d) (signer.publicKeyHex ed))
  | recorded {s t : Records} {admin : Bool} {key : String} : K t → Later K t s →
      t.signingKeyHex = none ∨ t.signingKeyHex = some "" →
      Write (.view admin (some key)) s { s with signingKeyHex := some key }
  | updated {s : Records} {publisherParty : String} : Write (.updateGeneral publisherParty) s
      { s with publisherParty }

end Writes

variable {sha256 ed print} {K : Records → Prop} {q : Request} {s : Records}

instance : IsPreorder Records (Later K) where
  refl _ := ⟨fun h => h, [], (List.append_nil _).symm⟩
  trans _ _ _ hst htu := by
    obtain ⟨more, hmore⟩ := hst.appended
    obtain ⟨more', hmore'⟩ := htu.appended
    exact ⟨fun h => htu.kept (hst.kept h), more ++ more', by rw [hmore', hmore, List.append_assoc]⟩

theorem ensures_request {M : Records → Records → Prop}
    (hwrites : ∀ s t, K s → Write sha256 ed print K q s t → K t) (hs : K s) :
    (q.task sha256 ed print).Ensures M (Later K) (Later K) (fun _ t => K t) s := by
  have hsame : ∀ t, Later K t t := refl_of (Later K)
  cases q with
  | publish input signer masterSalt id =>
    refine ensures_query_bind fun t ht => ⟨hsame t, ?_⟩
    have hKt := ht.kept hs
    refine ensures_query_bind fun u hu => ⟨hsame u, ?_⟩
    have hKu := hu.kept hKt
    refine ensures_require_bind (fun hmay => ?_) fun _ => hKu
    cases hdeliver : deliver sha256 ed print (requestOf t.publisherParty input u.rows.getLast?) masterSalt signer with
    | error e => exact hKu
    | ok d =>
      refine ensures_require_bind (fun hkey => ?_) fun _ => hKu
      refine ensures_transact (fun v r hv hr _ => ?_) fun v e hv _ => ⟨hsame v, hv.kept hKu⟩
      split at hr
      · cases hr
        have hKv := hv.kept hKu
        have hw := hwrites v _ hKv (.published hKt hu hKu hv hmay hdeliver hkey ‹_›)
        exact ⟨⟨fun _ => hw, _, rfl⟩, hw⟩
      · cases hr
  | view admin publicKey =>
    refine ensures_query_bind fun t ht => ⟨hsame t, ?_⟩
    have hKt := ht.kept hs
    split
    · rename_i hblank
      cases publicKey with
      | none => exact hKt
      | some key =>
        refine ensures_modify fun u hu _ => ?_
        have hw := hwrites u _ (hu.kept hKt) (.recorded hKt hu hblank.2)
        exact ⟨⟨fun _ => hw, [], (List.append_nil _).symm⟩, hw⟩
    · exact hKt
  | updateGeneral publisherParty =>
    refine ensures_modify fun t ht _ => ?_
    have hw := hwrites t _ (ht.kept hs) .updated
    exact ⟨⟨fun _ => hw, [], (List.append_nil _).symm⟩, hw⟩

/-- Whatever requests are served at once, what all their writes keep holds throughout. -/
theorem invariant_of_writes {requests : ℕ → List Request} {Meets : ℕ → Records → Records → Prop}
    {c : Config Records Refusal Unit}
    (hwrites : ∀ i, ∀ q ∈ requests i, ∀ s t, K s → Write sha256 ed print K q s t → K t)
    (h : Reaches Meets ⟨s, fun i => serve (Request.task sha256 ed print) (requests i)⟩ c) (hs : K s) :
    K c.store := by
  have hcompatible : Compatible (fun _ => Later K) fun _ => Later K :=
    ⟨fun _ => inferInstance, fun _ _ _ hG => hG⟩
  refine h.keeps hcompatible (Q := fun _ _ t => K t) (fun _ _ _ _ hst => hst.kept) (fun i => ?_)
    (fun _ _ _ hG => hG.kept) hs
  exact ensures_serve (fun q hq _ hs => ensures_request (hwrites i q hq) hs) hs

/-! ## One history under one key -/

theorem deliver_key {req : PublishRequest} {masterSalt : Bytes 32} {signer : ReportSigner} {d : Delivery}
    {clamped : ℕ} (h : deliver sha256 ed print req masterSalt signer = .ok (d, clamped)) :
    d.signed.signature.publicKey = signer.publicKeyHex ed := by
  obtain ⟨pub, hpub, hsigned, _⟩ := deliver_spec h
  obtain ⟨metadata, _, hpublish⟩ := publication_spec hpub
  obtain ⟨nodes, tree, hpublished⟩ := Produce.publishWith_published hpublish
  rw [hsigned, hpublished.report]
  rfl

/-- The publications so far with more under the recorded key, all of them one accepted history. -/
structure Continues (sha256 : List UInt8 → Digest) (key : String) (s₀ s : Records) : Prop where
  publisherParty : s.publisherParty = s₀.publisherParty
  signingKeyHex : s.signingKeyHex = some key
  linear : Linear sha256 s.rows
  stated : ∀ row ∈ s.rows, Stated s₀.publisherParty row
  appended : ∃ more, s.rows = s₀.rows ++ more ∧ ∀ row ∈ more, row.anchor.publisherKey = key

variable {s₀ t : Records} {key : String}

end AssuranceLayer.SigningKeys
