import AssuranceLayer.Sha256
import AssuranceLayer.TenancyIsolation

set_option autoImplicit false

/-!
What a key of the API opens, while the console's requests and other calls go on: files of the
organisation that the key is of, and none once it is revoked.
-/
namespace AssuranceLayer.Tenancy
open Fallible Interleaving Task SortedMap

/-! ## Calls -/

section Calls
variable (sha256 : List UInt8 → Digest)

def hashApiKey (key : String) : String := hexEncode (sha256 (utf8 key)).toList

def apiPrefix : String := "cal_"

/-- The organisation of a bearer key, and the key's id. -/
def orgForApiKey (bearer : Option String) : Act (Option (String × String)) :=
  match bearer.filter fun b => startsWith apiPrefix b with
  | none => return none
  | some bearer => do
    let found ← query fun s => s.byHash (hashApiKey sha256 bearer)
    match found.filter fun e => e.2.revokedAt = none with
    | none => return none
    | some found => do
      -- Notes when it was used, which nothing here reads.
      onRow (fun s => s.apiKeys.get? found.1) fun s _ => s
      return some (found.2.orgId, found.1)

/-- The organisation at the slug, for a key of its own. -/
def authorise (bearer : Option String) (slug : String) : Act (Except ℕ String) := do
  let key ← orgForApiKey sha256 bearer
  match key with
  | none => return .error 401
  | some key => do
    let org ← query fun s => s.bySlug slug
    return okOr ((org.filter fun o => o.1 = key.1).map Prod.fst) 404

structure ApiCall where
  bearer : Option String
  slug : String
  /-- A publication's id, or "latest". -/
  id : String
  name : String
deriving DecidableEq

/-- The organisation's publications, in the order they were stored. -/
def published (archive : Archive) (order : List String) (orgId : String) : List (String × PublicationRow) :=
  order.filterMap fun id => ((archive.publications.get? id).filter fun p => p.orgId = orgId).map (Prod.mk id)

def apiPublication (archive : Archive) (order : List String) (orgId id : String) :
    Option (String × PublicationRow) :=
  if id = "latest" then (published archive order orgId).getLast?
  else ((archive.publications.get? id).filter fun p => p.orgId = orgId).map (Prod.mk id)

/-- A publication's files by API key. -/
def apiFile (archive : Archive) (order : List String) (call : ApiCall) : Act Answer := do
  let org ← authorise sha256 call.bearer call.slug
  return do
    let orgId ← org
    let pub ← okOr (apiPublication archive order orgId call.id) 404
    if call.name = "report.json" then .ok pub.2.report
    else if call.name = "anchor.json" then .ok pub.2.anchor
    else if call.name = "pack.json" then .ok pub.2.pack
    else okOr ((archive.proofs.get? (key pub.1 call.name)).map ProofRow.document) 404

/-- A party to the database: somebody at the console, or a program with keys. -/
inductive Party where
  | console (requests : List Request)
  | program (calls : List ApiCall)

def Party.requests : Party → List Request
  | console requests => requests
  | program _ => []

variable (toLowerCase : String → String) (archive : Archive) (order : List String)

def Party.task : Party → Act (List (ApiCall × Except Refusal Answer))
  | console requests => do
    serve toLowerCase requests
    return []
  | program calls => collect (apiFile sha256 archive order) calls

end Calls

/-! ## The key's row -/

/-- Whatever row has the hash is the organisation's, and revoked where it is to be. -/
def Bound (hash orgId : String) (revoked : Prop) (s : Store) : Prop :=
  ∀ id row, s.apiKeys.get? id = some row → row.hash = hash →
    row.orgId = orgId ∧ (revoked → row.revokedAt ≠ none)

/-- What every step leaves of the key. -/
def KeepsBound (hash orgId : String) (s t : Store) : Prop :=
  ∀ revoked, Bound hash orgId revoked s → Bound hash orgId revoked t

instance (hash orgId : String) : IsPreorder Store (KeepsBound hash orgId) where
  refl _ _ h := h
  trans _ _ _ hst htu revoked h := htu revoked (hst revoked h)

/-- The hash of the key that a request makes. -/
def Request.mints : Request → Option String
  | createApiKey _ _ _ _ hash => some hash
  | _ => none

variable {toLowerCase : String → String} {sha256 : List UInt8 → Digest} {R : Store → Store → Prop}
  {hash orgId : String} {revoked : Prop} {s t : Store} {q : Request}

theorem bound_write {K : Store → Prop} (hmints : q.mints ≠ some hash) (hw : Write toLowerCase R K q s t) :
    KeepsBound hash orgId s t := by
  intro revoked h
  cases hw with
  | deleted _ =>
    intro id row hrow hhash
    exact h id row (get?_filter_eq_some.mp hrow).1 hhash
  | apiKeyCreated _ _ _ =>
    intro id row hrow hhash
    simp only [get?_insert] at hrow
    split at hrow
    · cases hrow
      exact absurd (congrArg some hhash) hmints
    · exact h id row hrow hhash
  | apiKeyRevoked _ _ hold =>
    intro id row hrow hhash
    simp only [get?_insert] at hrow
    split at hrow
    · cases hrow
      exact ⟨(h _ _ hold hhash).1, fun _ => Option.some_ne_none _⟩
    · exact h id row hrow hhash
  | imported _ _ =>
    rw [Store.importRows_eq]
    exact h
  | _ => exact h

/-! ## What a call is answered with -/

section Answers
variable {archive : Archive} {order : List String} {M : Store → Store → Prop}

/-- A body that a call is answered with is a file of a publication of the organisation, and the key was
    not to be revoked. -/
def Confined (archive : Archive) (orgId : String) (revoked : Prop) (r : Except Refusal Answer) : Prop :=
  ∀ body, r = .ok (.ok body) → ¬ revoked ∧ ∃ id pub, archive.publications.get? id = some pub ∧
    pub.orgId = orgId ∧ (body = pub.report ∨ body = pub.anchor ∨ body = pub.pack ∨
      ∃ name proof, archive.proofs.get? (key id name) = some proof ∧ body = proof.document)

theorem ensures_orgForApiKey {bearer : String} {given : Option String}
    (hs : Bound (hashApiKey sha256 bearer) orgId revoked s) :
    (orgForApiKey sha256 given).Ensures M (KeepsBound (hashApiKey sha256 bearer) orgId)
      (KeepsBound (hashApiKey sha256 bearer) orgId)
      (fun r t => Bound (hashApiKey sha256 bearer) orgId revoked t ∧
        ∀ found, r = .ok (some found) → given = some bearer → found.1 = orgId ∧ ¬ revoked) s := by
  unfold orgForApiKey
  split
  · exact ensures_pure.mpr ⟨hs, by simp⟩
  · rename_i b hb
    refine ensures_query_bind fun t ht => ⟨refl_of _ t, ?_⟩
    have hKt := ht _ hs
    split
    · exact ensures_pure.mpr ⟨hKt, by simp⟩
    · rename_i found hfound
      obtain ⟨hrow, hlive⟩ := Option.filter_eq_some_iff.mp hfound
      have hhash : found.2.hash = hashApiKey sha256 b := by simpa using List.find?_some hrow
      have hget : t.apiKeys.get? found.1 = some found.2 := get?_eq_some.mpr (List.mem_of_find?_eq_some hrow)
      refine ensures_bind (Q := fun _ u => Bound (hashApiKey sha256 bearer) orgId revoked u) ?_
        (fun _ u hKu => ensures_pure.mpr ⟨hKu, ?_⟩) fun _ u hKu => ⟨hKu, by simp⟩
      · refine ensures_transact (fun u r hu hr _ => ?_) fun u _ hu _ => ⟨refl_of _ u, hu _ hKt⟩
        split at hr
        · cases hr
          exact ⟨refl_of _ u, hu _ hKt⟩
        · cases hr
      · rintro _ ⟨⟩ rfl
        obtain rfl : bearer = b := Option.some.inj (Option.filter_eq_some_iff.mp hb).1
        obtain ⟨horg, hrevoked⟩ := hKt _ _ hget hhash
        exact ⟨horg, fun h => hrevoked h (of_decide_eq_true hlive)⟩

theorem apiPublication_eq_some {id : String} {found : String × PublicationRow}
    (h : apiPublication archive order orgId id = some found) :
    archive.publications.get? found.1 = some found.2 ∧ found.2.orgId = orgId := by
  have hrow : ∀ id, ((archive.publications.get? id).filter fun p => p.orgId = orgId).map (Prod.mk id) = some found →
      archive.publications.get? found.1 = some found.2 ∧ found.2.orgId = orgId := by
    intro id hid
    obtain ⟨pub, hpub, rfl⟩ := Option.map_eq_some_iff.mp hid
    obtain ⟨hget, horg⟩ := Option.filter_eq_some_iff.mp hpub
    exact ⟨hget, of_decide_eq_true horg⟩
  unfold apiPublication at h
  split at h
  · obtain ⟨id, _, hid⟩ := List.mem_filterMap.mp (List.mem_of_getLast? h)
    exact hrow id hid
  · exact hrow id h

theorem ensures_apiFile {bearer : String} {call : ApiCall} (hs : Bound (hashApiKey sha256 bearer) orgId revoked s) :
    (apiFile sha256 archive order call).Ensures M (KeepsBound (hashApiKey sha256 bearer) orgId)
      (KeepsBound (hashApiKey sha256 bearer) orgId)
      (fun r t => Bound (hashApiKey sha256 bearer) orgId revoked t ∧
        (call.bearer = some bearer → Confined archive orgId revoked r)) s := by
  unfold apiFile authorise
  refine ensures_bind (Q := fun r t => Bound (hashApiKey sha256 bearer) orgId revoked t ∧
    ∀ org, r = .ok (.ok org) → call.bearer = some bearer → org = orgId ∧ ¬ revoked) ?_ (fun org t ht => ?_)
    fun _ t ht => ⟨ht.1, by simp [Confined]⟩
  · refine ensures_bind (ensures_orgForApiKey hs) (fun found t ht => ?_) fun _ t ht => ⟨ht.1, by simp⟩
    cases found with
    | none => exact ensures_pure.mpr ⟨ht.1, by simp⟩
    | some found =>
      refine ensures_query_bind fun u hu => ⟨refl_of _ u, ensures_pure.mpr ⟨hu _ ht.1, fun org h hbearer => ?_⟩⟩
      obtain ⟨horg, hlive⟩ := ht.2 found rfl hbearer
      obtain ⟨row, hrow, rfl⟩ := Option.map_eq_some_iff.mp (okOr_eq_ok.mp (Except.ok.inj h))
      have hsame := of_decide_eq_true (Option.filter_eq_some_iff.mp hrow).2
      exact ⟨hsame.trans horg, hlive⟩
  · refine ensures_pure.mpr ⟨ht.1, fun hbearer body h => ?_⟩
    simp only [Except.ok.injEq, bind_eq_ok, okOr_eq_ok] at h
    obtain ⟨org', rfl, pub, hpub, hbody⟩ := h
    obtain ⟨rfl, hlive⟩ := ht.2 org' rfl hbearer
    obtain ⟨hget, horg⟩ := apiPublication_eq_some hpub
    refine ⟨hlive, pub.1, pub.2, hget, horg, ?_⟩
    split_ifs at hbody
    · exact .inl (Except.ok.inj hbody).symm
    · exact .inr (.inl (Except.ok.inj hbody).symm)
    · exact .inr (.inr (.inl (Except.ok.inj hbody).symm))
    · obtain ⟨proof, hproof, rfl⟩ := Option.map_eq_some_iff.mp (okOr_eq_ok.mp hbody)
      exact .inr (.inr (.inr ⟨call.name, proof, hproof, rfl⟩))

end Answers

/-! ## Runs -/

section Runs
variable {archive : Archive} {order : List String} {bearer : String} {parties : ℕ → Party}
  {c d : Config Store Refusal (List (ApiCall × Except Refusal Answer))}

theorem ensures_party {party : Party} {M : Store → Store → Prop}
    (hmints : ∀ q ∈ party.requests, q.mints ≠ some (hashApiKey sha256 bearer))
    (hs : Bound (hashApiKey sha256 bearer) orgId revoked s) :
    (party.task sha256 toLowerCase archive order).Ensures M (KeepsBound (hashApiKey sha256 bearer) orgId)
      (KeepsBound (hashApiKey sha256 bearer) orgId) (fun r _ => ∀ results, r = .ok results →
        ∀ e ∈ results, e.1.bearer = some bearer → Confined archive orgId revoked e.2) s := by
  cases party with
  | console requests =>
    refine ensures_bind (Q := fun _ t => Bound (hashApiKey sha256 bearer) orgId revoked t) ?_
      (fun _ t _ => ensures_pure.mpr ?_) fun _ t _ => by simp
    · refine ensures_requests (fun q hq => ?_) (fun q hq u v hwrote => ?_) hs
      · exact ⟨inferInstance, fun _ _ hst => hst revoked, fun u v hK _ hw => bound_write (hmints q hq) hw _ hK⟩
      · rcases hwrote with rfl | ⟨_, _, hw⟩
        · exact refl_of _ v
        · exact bound_write (hmints q hq) hw
    · rintro _ ⟨⟩ e he
      exact absurd he List.not_mem_nil
  | program calls =>
    have hcollect : (collect (φ := Refusal) (apiFile sha256 archive order) calls).Ensures M
        (KeepsBound (hashApiKey sha256 bearer) orgId) (KeepsBound (hashApiKey sha256 bearer) orgId)
        (fun r t => Bound (hashApiKey sha256 bearer) orgId revoked t ∧ ∃ results, r = .ok results ∧
          ∀ e ∈ results, e.1.bearer = some bearer → Confined archive orgId revoked e.2) s :=
      ensures_collect (S := KeepsBound (hashApiKey sha256 bearer) orgId)
        (P := fun (call : ApiCall) r _ => call.bearer = some bearer → Confined archive orgId revoked r)
        (fun _ _ hst => hst) (fun _ _ hst => hst) (fun _ _ _ _ _ h => h) (fun _ _ _ => ensures_apiFile) hs
    refine hcollect.mono fun r t ht => ?_
    obtain ⟨_, results, rfl, hresults⟩ := ht
    rintro _ ⟨⟩
    exact hresults

/-- However console requests and calls of the API interleave, a key opens files of its organisation
    alone, and none for a program that begins once it is revoked. -/
theorem api_key_confined {Meets : ℕ → Store → Store → Prop}
    (hmints : ∀ i, ∀ q ∈ (parties i).requests, q.mints ≠ some (hashApiKey sha256 bearer))
    (hs : Bound (hashApiKey sha256 bearer) orgId False s)
    (h : Reaches Meets ⟨s, fun i => (parties i).task sha256 toLowerCase archive order⟩ c) {i : ℕ}
    (hbegins : c.tasks i = (parties i).task sha256 toLowerCase archive order)
    (hrevoked : revoked → ∀ id row, c.store.apiKeys.get? id = some row →
      row.hash = hashApiKey sha256 bearer → row.revokedAt ≠ none)
    (hlater : Reaches Meets c d) {results : List (ApiCall × Except Refusal Answer)}
    (hdone : (d.tasks i).outcome = some (.ok results)) :
    ∀ e ∈ results, e.1.bearer = some bearer → Confined archive orgId revoked e.2 := by
  have hcompatible : Compatible (fun _ : ℕ => KeepsBound (hashApiKey sha256 bearer) orgId)
      fun _ => KeepsBound (hashApiKey sha256 bearer) orgId := ⟨fun _ => inferInstance, fun _ _ _ hG => hG⟩
  -- what all have in hand when the program begins
  have hmidway := h.ensures hcompatible (fun _ _ _ _ _ hu => hu) fun j => ensures_party (hmints j) hs
  have hbound : Bound (hashApiKey sha256 bearer) orgId False c.store :=
    h.keeps (I := Bound (hashApiKey sha256 bearer) orgId False) hcompatible (fun _ _ _ _ _ hu => hu)
      (fun j => ensures_party (hmints j) hs) (fun _ _ _ hG => hG False) hs
  have hrest : ∀ j, (c.tasks j).Ensures (Meets j) (KeepsBound (hashApiKey sha256 bearer) orgId)
      (KeepsBound (hashApiKey sha256 bearer) orgId) (fun r _ => j = i → ∀ results, r = .ok results →
        ∀ e ∈ results, e.1.bearer = some bearer → Confined archive orgId revoked e.2) c.store := by
    intro j
    rcases eq_or_ne j i with rfl | hne
    · rw [hbegins]
      have hrevokedThere : Bound (hashApiKey sha256 bearer) orgId revoked c.store := fun id row hrow hhash =>
        ⟨(hbound id row hrow hhash).1, fun hr => hrevoked hr id row hrow hhash⟩
      exact (ensures_party (hmints j) hrevokedThere).mono fun _ _ hr _ => hr
    · exact (hmidway j).mono fun _ _ _ hj => absurd hj hne
  have hensures := hlater.ensures hcompatible (fun _ _ _ _ _ hu => hu) hrest i
  rw [outcome_eq_ok.mp hdone] at hensures
  exact hensures rfl results rfl

/-- The venue with a key of its own. -/
def venueKeyed : Store :=
  { venue .owner .admin with
    apiKeys := SortedMap.ofList [("k1", ⟨"o1", "ledger", hashApiKey Sha256.sha256 "cal_k1", none⟩)] }

def venueCall : ApiCall := ⟨some "cal_k1", "venue", "latest", "report.json"⟩

def venueParties (i : ℕ) : Party :=
  if i = 0 then .console [.revokeApiKey (some ann) "venue" "k1" 5] else .program [venueCall]

def venueBegun : Config Store Refusal (List (ApiCall × Except Refusal Answer)) :=
  ⟨venueKeyed, fun i => (venueParties i).task Sha256.sha256 id venueArchive ["p1"]⟩

/-- The key opens a report, is revoked, and opens nothing for the program that comes next. -/
theorem api_key_confined_venue :
    let c := venueBegun.schedule [1, 0, 1, 0, 1, 0, 0]
    let d := c.schedule [2]
    ((c.tasks 1).outcome = some (.ok [(venueCall, .ok (.ok "report"))]) ∧
      Confined venueArchive "o1" False (.ok (.ok "report"))) ∧
    (d.tasks 2).outcome = some (.ok [(venueCall, .ok (.error 401))]) ∧
      Confined venueArchive "o1" True (.ok (.error 401)) := by
  intro c d
  have hfirst : (c.tasks 1).outcome = some (.ok [(venueCall, .ok (.ok "report"))]) := by decide +kernel
  have hsecond : (d.tasks 2).outcome = some (.ok [(venueCall, .ok (.error 401))]) := by decide +kernel
  have hbound : Bound (hashApiKey Sha256.sha256 "cal_k1") "o1" False venueKeyed := by
    intro id row hrow _
    have hkeys : ∀ e ∈ venueKeyed.apiKeys.entries, e.2.orgId = "o1" := by decide +kernel
    exact ⟨hkeys _ (get?_eq_some.mp hrow), False.elim⟩
  have hmints : ∀ i, ∀ q ∈ (venueParties i).requests, q.mints ≠ some (hashApiKey Sha256.sha256 "cal_k1") := by
    intro i q hq
    unfold venueParties at hq
    split at hq
    · cases List.mem_singleton.mp hq
      exact (Option.some_ne_none _).symm
    · exact absurd hq List.not_mem_nil
  have hreaches : Reaches (fun _ _ _ => True) venueBegun c := reaches_schedule _ _
  have hlater : Reaches (fun _ _ _ => True) c d := reaches_schedule _ _
  have hbegins : c.tasks 2 = (venueParties 2).task Sha256.sha256 id venueArchive ["p1"] :=
    schedule_tasks (by decide)
  have hrevoked : ∀ e ∈ c.store.apiKeys.entries, e.2.revokedAt ≠ none := by decide +kernel
  refine ⟨⟨hfirst, ?_⟩, hsecond, ?_⟩
  · exact api_key_confined hmints hbound .refl rfl False.elim hreaches hfirst _ List.mem_cons_self rfl
  · exact api_key_confined hmints hbound hreaches hbegins
      (fun _ _ _ hrow _ => hrevoked _ (get?_eq_some.mp hrow)) hlater hsecond _ List.mem_cons_self rfl

end Runs

end AssuranceLayer.Tenancy
