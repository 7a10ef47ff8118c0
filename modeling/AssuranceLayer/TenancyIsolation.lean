import AssuranceLayer.TenancyOwners

set_option autoImplicit false

/-!
What strangers can do to an organisation and see of it, and who collects a customer's proof.
-/
namespace AssuranceLayer.Tenancy
open Fallible Interleaving Task SortedMap

/-! ## Files and proofs -/

structure PublicationRow where
  orgId : String
  report : String
  anchor : String
  pack : String
deriving DecidableEq

structure ProofRow where
  externalId : String
  document : String

/-- What has been published, with the proofs by publication and file name. -/
structure Archive where
  publications : SortedMap String PublicationRow
  proofs : SortedMap Key ProofRow

/-- What a request is answered with: a status or a body. -/
abbrev Answer := Except ℕ String

section Reading
variable (toLowerCase : String → String) (archive : Archive) (s : Store)

/-- Members of the organisation and its auditors. -/
def mayRead (user : User) (orgId : String) : Bool :=
  (s.memberships.get? (key orgId user.id)).isSome ∨
    s.auditorGrants.entries.any fun e =>
      orgOf e.1 = orgId ∧ (e.2.userId = some user.id ∨ (ofLex e.1).2 = user.email)

/-- A publication's files as signed, for members and auditors. -/
def publicationFile (session : Option User) (slug id name : String) : Answer := do
  let user ← okOr (signedIn session) 401
  let org ← okOr (s.bySlug slug) 404
  ensure (mayRead s user org.1 = true) 403
  let pub ← okOr ((archive.publications.get? id).filter fun p => p.orgId = org.1) 404
  if name = "report.json" then .ok pub.report
  else if name = "anchor.json" then .ok pub.anchor
  else if name = "pack.json" then .ok pub.pack
  else okOr ((archive.proofs.get? (key id name)).map ProofRow.document) 404

/-- Whether the identity is mapped to the account, or to its address. -/
def collects (userId email orgId externalId : String) : Bool :=
  (s.customers.get? (key orgId externalId)).any fun c => c.userId = some userId ∨ c.email = toLowerCase email

/-- A proof for the account that may collect it, with the publication it belongs to. -/
def proofForUser (userId email publicationId fileName : String) : Option (ProofRow × PublicationRow) := do
  let proof ← archive.proofs.get? (key publicationId fileName)
  let publication ← archive.publications.get? publicationId
  if collects toLowerCase s userId email publication.orgId proof.externalId then some (proof, publication)
  else none

/-- Every identity mapped to the account, with the proofs of its organisation's publications. -/
def proofsForUser (userId email : String) : List (Key × List (String × String)) :=
  (s.customers.entries.filter fun e => e.2.userId = some userId ∨ e.2.email = toLowerCase email).map fun e =>
    (e.1, (archive.proofs.entries.filter fun p => p.2.externalId = (ofLex e.1).2 ∧
      (archive.publications.get? (orgOf p.1)).any fun pub => pub.orgId = orgOf e.1).map fun p =>
        (orgOf p.1, (ofLex p.1).2))

/-- A customer's own proof, and the report it belongs to. -/
def portalFile (session : Option User) (id name file : String) : Answer := do
  let user ← okOr (signedIn session) 401
  let found ← okOr (proofForUser toLowerCase archive s user.id user.email id name) 404
  if file = "report.json" then .ok found.2.report
  else if file = name then .ok found.1.document
  else .error 404

end Reading

variable {toLowerCase : String → String} {R : Store → Store → Prop} {orgId : String}
  {requests : ℕ → List Request} {s t : Store} {c : Config Store Refusal Unit} {q : Request}

/-! ## Strangers -/

/-- Who a request is from, when it takes somebody. -/
def Request.caller : Request → Option User
  | signUp _ _ => none
  | createOrg session _ _ _ => session
  | invite session _ _ _ _ => session
  | setRole session _ _ _ => session
  | removeMember session _ _ => session
  | revokeInvitation session _ _ => session
  | acceptPending user _ => some user
  | updateGeneral session _ _ => session
  | grantAuditor session _ _ _ => session
  | revokeAuditor session _ _ => session
  | deleteOrg session _ _ => session
  | importRoster session _ _ _ _ => session
  | addCustomer session _ _ _ => session
  | removeCustomer session _ _ => session
  | createApiKey session _ _ _ _ => session
  | revokeApiKey session _ _ _ => session

/-- Nothing in the organisation names the account or its address. -/
structure Stranger (toLowerCase : String → String) (orgId : String) (s : Store) (user : User) : Prop where
  members : s.memberships.get? (key orgId user.id) = none
  invitations : ∀ id inv, s.invitations.get? id = some inv → inv.orgId = orgId →
    inv.email ≠ toLowerCase user.email
  customers : ∀ name c, s.customers.get? (key orgId name) = some c →
    c.email ≠ toLowerCase user.email ∧ c.userId ≠ some user.id
  auditorGrants : ∀ email g, s.auditorGrants.get? (key orgId email) = some g →
    email ≠ toLowerCase user.email ∧ email ≠ user.email ∧ g.userId ≠ some user.id

/-- The rows of the organisation are the same. -/
structure SameRows (orgId : String) (s t : Store) : Prop where
  organizations : t.organizations.get? orgId = s.organizations.get? orgId
  memberships : ∀ userId, t.memberships.get? (key orgId userId) = s.memberships.get? (key orgId userId)
  invitations : ∀ id inv, inv.orgId = orgId → (t.invitations.get? id = some inv ↔ s.invitations.get? id = some inv)
  customers : ∀ name, t.customers.get? (key orgId name) = s.customers.get? (key orgId name)
  auditorGrants : ∀ email, t.auditorGrants.get? (key orgId email) = s.auditorGrants.get? (key orgId email)
  apiKeys : ∀ id row, row.orgId = orgId → (t.apiKeys.get? id = some row ↔ s.apiKeys.get? id = some row)

theorem SameRows.refl : SameRows orgId s s :=
  ⟨rfl, fun _ => rfl, fun _ _ _ => Iff.rfl, fun _ => rfl, fun _ => rfl, fun _ _ _ => Iff.rfl⟩

theorem SameRows.trans {u : Store} (hst : SameRows orgId s t) (htu : SameRows orgId t u) :
    SameRows orgId s u where
  organizations := htu.organizations.trans hst.organizations
  memberships v := (htu.memberships v).trans (hst.memberships v)
  invitations id inv h := (htu.invitations id inv h).trans (hst.invitations id inv h)
  customers name := (htu.customers name).trans (hst.customers name)
  auditorGrants email := (htu.auditorGrants email).trans (hst.auditorGrants email)
  apiKeys id row h := (htu.apiKeys id row h).trans (hst.apiKeys id row h)

theorem Stranger.same {user : User} (h : Stranger toLowerCase orgId s user) (hst : SameRows orgId s t) :
    Stranger toLowerCase orgId t user where
  members := (hst.memberships _).trans h.members
  invitations id inv hinv horg := h.invitations id inv ((hst.invitations id inv horg).mp hinv) horg
  customers name c hc := h.customers name c (hst.customers name ▸ hc)
  auditorGrants email g hg := h.auditorGrants email g (hst.auditorGrants email ▸ hg)

/-- Rows of another organisation, by keys that name it. -/
theorem get?_insert_other {ν : Type} {m : SortedMap Key ν} {k : Key} {v : ν} (hk : orgOf k ≠ orgId)
    (name : String) : (m.insert k v).get? (key orgId name) = m.get? (key orgId name) := by
  rw [get?_insert, if_neg]
  rintro rfl
  exact hk rfl

theorem get?_erase_other {ν : Type} {m : SortedMap Key ν} {k : Key} (hk : orgOf k ≠ orgId) (name : String) :
    (m.erase k).get? (key orgId name) = m.get? (key orgId name) := by
  rw [get?_erase, if_neg]
  rintro rfl
  exact hk rfl

theorem get?_filter_other {ν : Type} {m : SortedMap Key ν} {other : String} (h : other ≠ orgId) (name : String) :
    (m.filter fun k _ => orgOf k ≠ other).get? (key orgId name) = m.get? (key orgId name) := by
  ext v
  rw [get?_filter_eq_some, orgOf_key, and_iff_left (decide_eq_true h.symm)]

section Rows
variable {ν : Type} {m : SortedMap String ν} {org : ν → String} {id i : String} {v : ν}

/-- Rows of another organisation, by ids. -/
theorem insert_row_other {row : ν} (hnew : org row ≠ orgId) (hold : ∀ old, m.get? id = some old → org old ≠ orgId)
    (hv : org v = orgId) : (m.insert id row).get? i = some v ↔ m.get? i = some v := by
  rw [get?_insert]
  split
  · subst i
    refine iff_of_false (fun h => hnew ?_) fun h => hold v h hv
    rw [Option.some.inj h, hv]
  · exact Iff.rfl

theorem erase_row_other (hold : ∀ old, m.get? id = some old → org old ≠ orgId) (hv : org v = orgId) :
    (m.erase id).get? i = some v ↔ m.get? i = some v := by
  rw [get?_erase_eq_some]
  refine and_iff_right_of_imp fun h hid => ?_
  subst hid
  exact hold v h hv

end Rows

theorem SameRows.setOrganization {id : String} {row : Organization} (hid : id ≠ orgId) :
    SameRows orgId s (s.setOrganization id row) :=
  { SameRows.refl with organizations := by simp only [Store.setOrganization, get?_insert, if_neg hid] }

theorem SameRows.setMember {org userId : String} {role : Role} (horg : org ≠ orgId) :
    SameRows orgId s (s.setMember org userId role) :=
  { SameRows.refl with memberships := fun v => get?_insert_other (k := key _ _) horg v }

theorem SameRows.upsertCustomer {org externalId id email : String} {userId : Option String}
    (horg : org ≠ orgId) : SameRows orgId s (s.upsertCustomer org externalId id email userId) :=
  { SameRows.refl with customers := fun name => get?_insert_other (k := key _ _) horg name }

theorem SameRows.importRows {org : String} (horg : org ≠ orgId) {ids : String → String}
    {accounts : SortedMap String String} {rows : List RosterRow} :
    SameRows orgId s (s.importRows org ids accounts rows) := by
  induction rows generalizing s with
  | nil => exact .refl
  | cons r rows ih => exact (SameRows.upsertCustomer horg).trans ih

variable {s₀ : Store}

theorem Acts.other {session : Option User} {slug : String} {minRole : Role} {ctx : OrgContext}
    (h : Acts R (SameRows orgId s₀) session slug minRole ctx s)
    (hcaller : ∀ user, session = some user → Stranger toLowerCase orgId s₀ user) : ctx.orgId ≠ orgId := by
  rintro rfl
  obtain ⟨u, hsame, _, hrole⟩ := h.role
  have hsession := (Option.filter_eq_some_iff.mp h.user).1
  rw [hsame.memberships, (hcaller _ hsession).members] at hrole
  cases hrole

/-- What was found at an id belongs to the organisation if what is there now does. -/
theorem SameRows.found_invitation {u : Store} (hu : SameRows orgId s₀ u) (hs : SameRows orgId s₀ s)
    {id : String} {inv row : Invitation} (hinv : u.invitations.get? id = some inv)
    (hrow : s.invitations.get? id = some row) (horg : row.orgId = orgId) : row = inv := by
  have hthere := (hu.invitations id row horg).mpr ((hs.invitations id row horg).mp hrow)
  exact Option.some.inj (hthere.symm.trans hinv)

theorem SameRows.found_apiKey {u : Store} (hu : SameRows orgId s₀ u) (hs : SameRows orgId s₀ s)
    {id : String} {key row : ApiKey} (hkey : u.apiKeys.get? id = some key)
    (hrow : s.apiKeys.get? id = some row) (horg : row.orgId = orgId) : row = key := by
  have hthere := (hu.apiKeys id row horg).mpr ((hs.apiKeys id row horg).mp hrow)
  exact Option.some.inj (hthere.symm.trans hkey)

theorem Write.sameRows (hw : Write toLowerCase R (SameRows orgId s₀) q s t) (hs : SameRows orgId s₀ s)
    (hcaller : ∀ user, q.caller = some user → Stranger toLowerCase orgId s₀ user)
    (hcreates : ¬ q.creates orgId) : SameRows orgId s t := by
  cases hw with
  | signedUp _ => exact { SameRows.refl with }
  | created _ _ _ => exact (SameRows.setOrganization hcreates).trans (.setMember hcreates)
  | keyed _ => exact .setOrganization hcreates
  | added hacts _ _ => exact .setMember (hacts.other hcaller)
  | invited hacts _ hfresh =>
    have hother := hacts.other hcaller
    refine { SameRows.refl with invitations := fun i v hv => ?_ }
    exact insert_row_other hother (fun old hold => absurd (hfresh.symm.trans hold) (by simp)) hv
  | roleSet hacts _ _ _ _ _ => exact .setMember (hacts.other hcaller)
  | removed hacts _ _ _ =>
    exact { SameRows.refl with memberships := fun v => get?_erase_other (k := key _ _) (hacts.other hcaller) v }
  | invitationRevoked hacts hfound =>
    obtain ⟨u, hu, _, inv, hinv, horg⟩ := hfound
    refine { SameRows.refl with invitations := fun i v hv => erase_row_other (fun row hrow heq => ?_) hv }
    rw [hu.found_invitation hs hinv hrow heq] at heq
    exact hacts.other hcaller (horg.symm.trans heq)
  | @accepted _ user _ id inv row hread hemail _ hrow =>
    obtain ⟨u, hu, hinv⟩ := hread
    have hinvited : inv.orgId ≠ orgId := fun horg =>
      (hcaller user rfl).invitations id inv ((hu.invitations id inv horg).mp hinv) horg hemail
    have hrowOrg : row.orgId ≠ orgId := fun horg => by
      rw [hu.found_invitation hs hinv hrow horg] at horg
      exact hinvited horg
    refine { SameRows.refl with memberships := fun v => ?_, invitations := fun i v hv => ?_ }
    · rw [Store.accept_memberships, if_neg fun hkey => hinvited (key_inj.mp hkey).1, Option.or_none]
    · exact insert_row_other hrowOrg
        (fun old hold => Option.some.inj (hrow.symm.trans hold) ▸ hrowOrg) hv
  | @customersLinked _ user _ =>
    refine { SameRows.refl with customers := fun name => ?_ }
    simp only [Store.linkCustomers, get?_mapValues]
    cases hc : s.customers.get? (key orgId name) with
    | none => rfl
    | some c =>
      have hstranger := (hcaller user rfl).customers name c (by rw [← hs.customers, hc])
      rw [Option.map_some, if_neg fun h => hstranger.1 h.1]
  | @grantsLinked _ user _ =>
    refine { SameRows.refl with auditorGrants := fun email => ?_ }
    simp only [Store.linkGrants, get?_mapWithKey]
    cases hg : s.auditorGrants.get? (key orgId email) with
    | none => rfl
    | some g =>
      have hstranger := (hcaller user rfl).auditorGrants email g (by rw [← hs.auditorGrants, hg])
      rw [Option.map_some, if_neg fun h => hstranger.1 h.1]
  | updated hacts _ => exact .setOrganization (hacts.other hcaller)
  | auditorGranted hacts _ =>
    exact { SameRows.refl with auditorGrants := fun e => get?_insert_other (k := key _ _) (hacts.other hcaller) e }
  | auditorRevoked hacts hk =>
    exact { SameRows.refl with auditorGrants := fun e => get?_erase_other (hk ▸ hacts.other hcaller) e }
  | deleted hacts =>
    have hother := hacts.other hcaller
    constructor
    · exact (get?_erase _ _ _).trans (if_neg hother)
    · exact fun v => get?_filter_other hother v
    · intro i v hv
      rw [Store.deleteOrg, get?_filter_eq_some, hv, and_iff_left (decide_eq_true hother.symm)]
    · exact fun name => get?_filter_other hother name
    · exact fun e => get?_filter_other hother e
    · intro i v hv
      rw [Store.deleteOrg, get?_filter_eq_some, hv, and_iff_left (decide_eq_true hother.symm)]
  | imported hacts _ => exact .importRows (hacts.other hcaller)
  | customerAdded hacts _ => exact .upsertCustomer (hacts.other hcaller)
  | customerRemoved hacts hk =>
    exact { SameRows.refl with customers := fun name => get?_erase_other (hk ▸ hacts.other hcaller) name }
  | apiKeyCreated hacts hfresh _ =>
    have hother := hacts.other hcaller
    refine { SameRows.refl with apiKeys := fun i v hv => ?_ }
    exact insert_row_other hother (fun old hold => absurd (hfresh.symm.trans hold) (by simp)) hv
  | @apiKeyRevoked _ _ _ _ _ ctx row hacts hfound hrow =>
    obtain ⟨u, hu, _, found, hfound, horg⟩ := hfound
    have hrowOrg : row.orgId ≠ orgId := fun heq => by
      rw [hu.found_apiKey hs hfound hrow heq] at heq
      exact hacts.other hcaller (horg.symm.trans heq)
    refine { SameRows.refl with apiKeys := fun i v hv => ?_ }
    exact insert_row_other hrowOrg
      (fun old hold => Option.some.inj (hrow.symm.trans hold) ▸ hrowOrg) hv

theorem mayRead_stranger {user : User} (h : Stranger toLowerCase orgId s user) : mayRead s user orgId = false := by
  rw [mayRead, decide_eq_false_iff_not, h.members, List.any_eq_true]
  rintro (hmember | ⟨e, he, hgrant⟩)
  · cases hmember
  · obtain ⟨rfl, hnamed⟩ := of_decide_eq_true hgrant
    have hget : s.auditorGrants.get? (key (orgOf e.1) (ofLex e.1).2) = some e.2 := get?_eq_some.mpr he
    obtain ⟨_, hemail, huser⟩ := h.auditorGrants _ _ hget
    exact hnamed.elim huser hemail

theorem collects_stranger {user : User} (h : Stranger toLowerCase orgId s user) (externalId : String) :
    collects toLowerCase s user.id user.email orgId externalId = false := by
  rw [collects, Option.any_eq_false_iff_get]
  intro hsome
  obtain ⟨hemail, huser⟩ := h.customers externalId _ (Option.some_get hsome).symm
  exact decide_eq_false (by tauto)

theorem publicationFile_eq_ok {archive : Archive} {session : Option User} {slug id name body : String}
    (h : publicationFile archive s session slug id name = .ok body) :
    ∃ user org pub, session = some user ∧ s.bySlug slug = some org ∧ mayRead s user org.1 = true ∧
      archive.publications.get? id = some pub ∧ pub.orgId = org.1 := by
  unfold publicationFile at h
  simp only [bind_eq_ok, okOr_eq_ok, ensure_eq_ok] at h
  obtain ⟨user, huser, org, horg, _, hread, pub, hpub, _⟩ := h
  obtain ⟨hfound, hof⟩ := Option.filter_eq_some_iff.mp hpub
  exact ⟨user, org, pub, (Option.filter_eq_some_iff.mp huser).1, horg, hread, hfound, of_decide_eq_true hof⟩

theorem portalFile_eq_ok {archive : Archive} {session : Option User} {id name file body : String}
    (h : portalFile toLowerCase archive s session id name file = .ok body) :
    ∃ user proof pub, session = some user ∧ archive.proofs.get? (key id name) = some proof ∧
      archive.publications.get? id = some pub ∧
      collects toLowerCase s user.id user.email pub.orgId proof.externalId = true ∧
      (body = pub.report ∨ body = proof.document) := by
  unfold portalFile at h
  simp only [bind_eq_ok, okOr_eq_ok] at h
  obtain ⟨user, huser, found, hfound, hbody⟩ := h
  simp only [proofForUser, Option.bind_eq_bind, Option.bind_eq_some_iff] at hfound
  obtain ⟨proof, hproof, pub, hpub, hfound⟩ := hfound
  split at hfound
  · cases hfound
    refine ⟨user, proof, pub, (Option.filter_eq_some_iff.mp huser).1, hproof, hpub, ‹_›, ?_⟩
    split_ifs at hbody
    · exact .inl (Except.ok.inj hbody).symm
    · exact .inr (Except.ok.inj hbody).symm
  · cases hfound

/-- However their requests interleave, strangers to an organisation leave its rows as they were and
    are given none of its files, under whatever slug they ask. -/
theorem kept_from_strangers {Meets : ℕ → Store → Store → Prop}
    (hcallers : ∀ i, ∀ q ∈ requests i, ∀ user, q.caller = some user → Stranger toLowerCase orgId s user)
    (hcreates : ∀ i, ∀ q ∈ requests i, ¬ q.creates orgId)
    (h : Reaches Meets ⟨s, fun i => serve toLowerCase (requests i)⟩ c) :
    SameRows orgId s c.store ∧ ∀ (archive : Archive) (user : User), Stranger toLowerCase orgId s user →
      ∀ id pub, archive.publications.get? id = some pub → pub.orgId = orgId →
        (∀ slug name body, publicationFile archive c.store (some user) slug id name ≠ .ok body) ∧
        ∀ name file body, portalFile toLowerCase archive c.store (some user) id name file ≠ .ok body := by
  have hsame : SameRows orgId s c.store := invariant_of_writes (K := SameRows orgId s)
    (fun i q hq _ _ hs hw => hs.trans (hw.sameRows hs (hcallers i q hq) (hcreates i q hq))) h .refl
  refine ⟨hsame, fun archive user hstranger id pub hpub horg => ⟨?_, ?_⟩⟩
  · intro slug name body hanswer
    obtain ⟨_, org, found, ⟨⟩, _, hread, hfound, hof⟩ := publicationFile_eq_ok hanswer
    obtain rfl : pub = found := Option.some.inj (hpub.symm.trans hfound)
    rw [← hof, horg] at hread
    exact Bool.false_ne_true ((mayRead_stranger (hstranger.same hsame)).symm.trans hread)
  · intro name file body hanswer
    obtain ⟨_, proof, found, ⟨⟩, _, hfound, hcollects, _⟩ := portalFile_eq_ok hanswer
    obtain rfl : pub = found := Option.some.inj (hpub.symm.trans hfound)
    subst horg
    exact Bool.false_ne_true ((collects_stranger (hstranger.same hsame) _).symm.trans hcollects)

/-! ## Whose rows they are -/

section Addresses
variable (toLowerCase) (address : String → String)

/-- The account's address, as given or in lower case. -/
def AddressOf (userId email : String) : Prop := email = toLowerCase (address userId) ∨ email = address userId

/-- A row linked to an account carries its address. -/
structure Linked (s : Store) : Prop where
  users : ∀ email userId, s.users.get? email = some userId → address userId = email
  customers : ∀ k c, s.customers.get? k = some c → ∀ userId, c.userId = some userId →
    AddressOf toLowerCase address userId c.email
  auditorGrants : ∀ k g, s.auditorGrants.get? k = some g → ∀ userId, g.userId = some userId →
    AddressOf toLowerCase address userId (ofLex k).2

/-- Sessions are of accounts with their addresses, and an account is of one address. -/
def Request.Genuine : Request → Prop
  | signUp email id => address id = email
  | acceptPending user _ => address user.id = user.email
  | _ => True

end Addresses

variable {address : String → String}

theorem Linked.account {email userId : String} (h : Linked toLowerCase address s)
    (huser : s.users.get? email = some userId) : AddressOf toLowerCase address userId email :=
  .inr (h.users email userId huser).symm

theorem Linked.upsertCustomer (h : Linked toLowerCase address s) {org externalId id email : String}
    {userId : Option String} (huser : ∀ u, userId = some u → AddressOf toLowerCase address u email) :
    Linked toLowerCase address (s.upsertCustomer org externalId id email userId) where
  users := h.users
  customers k c hc := by
    simp only [Store.upsertCustomer, get?_insert] at hc
    split at hc
    · cases hc
      exact huser
    · exact h.customers k c hc
  auditorGrants := h.auditorGrants

theorem Linked.upsertGrant (h : Linked toLowerCase address s) {org email id : String}
    {userId grantedById : Option String} (huser : ∀ u, userId = some u → AddressOf toLowerCase address u email) :
    Linked toLowerCase address (s.upsertGrant org email id userId grantedById) where
  users := h.users
  customers := h.customers
  auditorGrants k g hg := by
    simp only [Store.upsertGrant, get?_insert] at hg
    split at hg
    · cases hg
      subst k
      exact huser
    · exact h.auditorGrants k g hg

theorem Linked.importRows (h : Linked toLowerCase address s) {org : String} {ids : String → String}
    {accounts : SortedMap String String} {rows : List RosterRow}
    (haccounts : ∀ email u, accounts.get? email = some u → AddressOf toLowerCase address u email) :
    Linked toLowerCase address (s.importRows org ids accounts rows) := by
  induction rows generalizing s with
  | nil => exact h
  | cons r rows ih => exact ih (h.upsertCustomer (haccounts r.email))

theorem byEmail_address (h : Linked toLowerCase address s) {rows : List RosterRow} {email userId : String}
    (huser : (byEmail toLowerCase s rows).get? email = some userId) :
    AddressOf toLowerCase address userId email := by
  obtain ⟨e, he, heq⟩ := List.mem_map.mp (mem_of_get?_ofList huser)
  cases heq
  have haccount : s.users.get? e.1 = some e.2 := get?_eq_some.mpr (List.mem_filter.mp he).1
  exact .inl (congrArg toLowerCase (h.users _ _ haccount).symm)

theorem linked_write (hgenuine : q.Genuine address) (h : Linked toLowerCase address s)
    (hw : Write toLowerCase R (Linked toLowerCase address) q s t) : Linked toLowerCase address t := by
  cases hw with
  | signedUp _ =>
    refine ⟨fun email userId huser => ?_, h.customers, h.auditorGrants⟩
    simp only [get?_insert] at huser
    split at huser
    · cases huser
      exact hgenuine.trans ‹_›
    · exact h.users email userId huser
  | @customersLinked _ user _ =>
    refine ⟨h.users, fun k c hc userId huser => ?_, h.auditorGrants⟩
    simp only [Store.linkCustomers, get?_mapValues, Option.map_eq_some_iff] at hc
    obtain ⟨old, hold, rfl⟩ := hc
    split at huser
    · rename_i hunlinked
      cases huser
      rw [if_pos hunlinked]
      exact .inl (hunlinked.1.trans (congrArg toLowerCase hgenuine.symm))
    · rw [if_neg ‹_›]
      exact h.customers k old hold userId huser
  | @grantsLinked _ user _ =>
    refine ⟨h.users, h.customers, fun k g hg userId huser => ?_⟩
    simp only [Store.linkGrants, get?_mapWithKey, Option.map_eq_some_iff] at hg
    obtain ⟨old, hold, rfl⟩ := hg
    split at huser
    · rename_i hunlinked
      cases huser
      exact .inl (hunlinked.1.trans (congrArg toLowerCase hgenuine.symm))
    · exact h.auditorGrants k old hold userId huser
  | auditorGranted _ haccount =>
    obtain ⟨u, hu, _, haccount⟩ := haccount
    exact h.upsertGrant fun userId huser => hu.account (haccount.trans huser)
  | auditorRevoked _ _ =>
    exact ⟨h.users, h.customers, fun k g hg => h.auditorGrants k g (get?_erase_eq_some.mp hg).2⟩
  | deleted _ =>
    exact ⟨h.users, fun k c hc => h.customers k c (get?_filter_eq_some.mp hc).1,
      fun k g hg => h.auditorGrants k g (get?_filter_eq_some.mp hg).1⟩
  | imported _ haccounts =>
    obtain ⟨u, hu, _, rfl⟩ := haccounts
    exact h.importRows fun email userId huser => byEmail_address hu huser
  | customerAdded _ haccount =>
    obtain ⟨u, hu, _, haccount⟩ := haccount
    exact h.upsertCustomer fun userId huser => hu.account (haccount.trans huser)
  | customerRemoved _ _ =>
    exact ⟨h.users, fun k c hc => h.customers k c (get?_erase_eq_some.mp hc).2, h.auditorGrants⟩
  | _ => exact ⟨h.users, h.customers, h.auditorGrants⟩

theorem mem_proofsForUser {archive : Archive} {userId email : String} {e : Key × List (String × String)}
    (h : e ∈ proofsForUser toLowerCase archive s userId email) :
    (∃ customer, s.customers.get? e.1 = some customer ∧
      (customer.userId = some userId ∨ customer.email = toLowerCase email)) ∧
    ∀ p ∈ e.2, ∃ proof pub, archive.proofs.get? (key p.1 p.2) = some proof ∧
      proof.externalId = (ofLex e.1).2 ∧ archive.publications.get? p.1 = some pub ∧ pub.orgId = orgOf e.1 := by
  obtain ⟨row, hrow, rfl⟩ := List.mem_map.mp h
  obtain ⟨hmem, hmapped⟩ := List.mem_filter.mp hrow
  refine ⟨⟨row.2, get?_eq_some.mpr hmem, of_decide_eq_true hmapped⟩, fun p hp => ?_⟩
  obtain ⟨found, hfound, rfl⟩ := List.mem_map.mp hp
  obtain ⟨hproof, hshown⟩ := List.mem_filter.mp hfound
  obtain ⟨hexternal, hany⟩ := of_decide_eq_true hshown
  rw [Option.any_eq_true] at hany
  obtain ⟨pub, hpub, horg⟩ := hany
  exact ⟨found.2, pub, get?_eq_some.mpr hproof, hexternal, hpub, of_decide_eq_true horg⟩

/-- However the requests interleave, an account collects only proofs of identities that are mapped to
    its own address, each with the report it belongs to. -/
theorem portal_confined {Meets : ℕ → Store → Store → Prop}
    (hgenuine : ∀ i, ∀ q ∈ requests i, q.Genuine address)
    (h : Reaches Meets ⟨s, fun i => serve toLowerCase (requests i)⟩ c) (hs : Linked toLowerCase address s)
    {archive : Archive} {user : User} (huser : address user.id = user.email) :
    (∀ id name file body, portalFile toLowerCase archive c.store (some user) id name file = .ok body →
      ∃ proof pub customer, archive.proofs.get? (key id name) = some proof ∧
        archive.publications.get? id = some pub ∧ (body = pub.report ∨ body = proof.document) ∧
        c.store.customers.get? (key pub.orgId proof.externalId) = some customer ∧
        AddressOf toLowerCase address user.id customer.email) ∧
    ∀ e ∈ proofsForUser toLowerCase archive c.store user.id user.email,
      (∃ customer, c.store.customers.get? e.1 = some customer ∧
        AddressOf toLowerCase address user.id customer.email) ∧
      ∀ p ∈ e.2, ∃ proof pub, archive.proofs.get? (key p.1 p.2) = some proof ∧
        archive.publications.get? p.1 = some pub ∧ e.1 = key pub.orgId proof.externalId := by
  have hlinked := invariant_of_writes (fun i q hq _ _ hs hw => linked_write (hgenuine i q hq) hs hw) h hs
  have haddressed : ∀ k customer, c.store.customers.get? k = some customer →
      customer.userId = some user.id ∨ customer.email = toLowerCase user.email →
      AddressOf toLowerCase address user.id customer.email := by
    rintro k customer hcustomer (hid | hemail)
    · exact hlinked.customers k customer hcustomer _ hid
    · exact .inl (hemail.trans (congrArg toLowerCase huser.symm))
  constructor
  · intro id name file body hanswer
    obtain ⟨_, proof, pub, ⟨⟩, hproof, hpub, hcollects, hbody⟩ := portalFile_eq_ok hanswer
    rw [collects, Option.any_eq_true] at hcollects
    obtain ⟨customer, hcustomer, hmapped⟩ := hcollects
    exact ⟨proof, pub, customer, hproof, hpub, hbody, hcustomer,
      haddressed _ customer hcustomer (of_decide_eq_true hmapped)⟩
  · intro e he
    obtain ⟨⟨customer, hcustomer, hmapped⟩, hlisted⟩ := mem_proofsForUser he
    refine ⟨⟨customer, hcustomer, haddressed _ _ hcustomer hmapped⟩, fun p hp => ?_⟩
    obtain ⟨proof, pub, hproof, hexternal, hpub, horg⟩ := hlisted p hp
    refine ⟨proof, pub, hproof, hpub, ?_⟩
    rw [hexternal, horg]
    rfl

/-! ## A stranger and a customer of the venue -/

def eve : User := ⟨"eve", "eve@example.com"⟩

theorem eve_stranger : Stranger id "o1" (venue .owner .admin) eve where
  members := by decide +kernel
  invitations _ _ h := by cases h
  customers _ _ h := by cases h
  auditorGrants _ _ h := by cases h

def venueArchive : Archive where
  publications := SortedMap.ofList [("p1", ⟨"o1", "report", "anchor", "pack"⟩)]
  proofs := SortedMap.ofList [(key "p1" "proof-1.json", ⟨"leaf-1", "proof"⟩)]

def eveRequests (i : ℕ) : List Request :=
  if i = 0 then [.setRole (some eve) "venue" "eve" "OWNER", .acceptPending eve 0,
    .createApiKey (some eve) "venue" (some "mine") "k1" ""]
  else [.createOrg (some eve) (some ⟨"Eve", "eves", "eve::one"⟩) "o2" none]

def strangerAtWork : Config Store Refusal Unit := ⟨venue .owner .admin, fun i => serve id (eveRequests i)⟩

/-- A stranger asks for a role, an invitation and a key, and founds a venue of her own, under whose slug
    the first venue's publication is not to be had. -/
theorem kept_from_strangers_venue :
    let c := strangerAtWork.schedule [1, 0, 1, 0, 1, 0, 0, 0, 0, 0, 0]
    SameRows "o1" (venue .owner .admin) c.store ∧
      ((c.store.bySlug "eves").map Prod.fst = some "o2" ∧ mayRead c.store eve "o2" = true) ∧
      ∀ name body, publicationFile venueArchive c.store (some eve) "eves" "p1" name ≠ .ok body := by
  intro c
  have hreaches : Reaches (fun _ _ _ => True) strangerAtWork c := reaches_schedule _ _
  have hstore : venueArchive.publications.get? "p1" = some ⟨"o1", "report", "anchor", "pack"⟩ := by
    decide +kernel
  have hcallers : ∀ i, ∀ q ∈ eveRequests i, (∀ user, q.caller = some user → user = eve) ∧ ¬ q.creates "o1" := by
    intro i q hq
    unfold eveRequests at hq
    split at hq
    · simp only [List.mem_cons, List.not_mem_nil, or_false] at hq
      rcases hq with rfl | rfl | rfl <;> exact ⟨fun user huser => (Option.some.inj huser).symm, id⟩
    · rw [List.mem_singleton.mp hq]
      exact ⟨fun user huser => (Option.some.inj huser).symm, show ¬ "o2" = "o1" by decide⟩
  obtain ⟨hsame, hclosed⟩ := kept_from_strangers
    (fun i q hq user huser => (hcallers i q hq).1 user huser ▸ eve_stranger)
    (fun i q hq => (hcallers i q hq).2) hreaches
  exact ⟨hsame, by decide +kernel, (hclosed venueArchive eve eve_stranger "p1" _ hstore rfl).1 "eves"⟩

/-- An identity is mapped to an account while that account visits. -/
theorem portal_confined_venue :
    let c := Config.schedule ⟨venue .owner .viewer, fun i => serve id
      [if i = 0 then .addCustomer (some ann) "venue" (some ⟨"leaf-1", "bob@example.com"⟩) "c1"
        else .acceptPending bob 0]⟩ [0, 1, 0, 1, 0, 0]
    portalFile id venueArchive c.store (some bob) "p1" "proof-1.json" "proof-1.json" = .ok "proof" ∧
      ∃ proof pub customer, venueArchive.proofs.get? (key "p1" "proof-1.json") = some proof ∧
        venueArchive.publications.get? "p1" = some pub ∧ ("proof" = pub.report ∨ "proof" = proof.document) ∧
        c.store.customers.get? (key pub.orgId proof.externalId) = some customer ∧
        AddressOf id (fun u => u ++ "@example.com") "bob" customer.email := by
  intro c
  have hanswer : portalFile id venueArchive c.store (some bob) "p1" "proof-1.json" "proof-1.json" =
      .ok "proof" := by decide +kernel
  have hlinked : Linked id (fun u => u ++ "@example.com") (venue .owner .viewer) := by
    refine ⟨fun email userId h => ?_, fun _ _ h => ?_, fun _ _ h => ?_⟩
    · have haccounts : ∀ e ∈ (venue .owner .viewer).users.entries, e.2 ++ "@example.com" = e.1 := by
        decide +kernel
      exact haccounts _ (get?_eq_some.mp h)
    · cases h
    · cases h
  refine ⟨hanswer, (portal_confined (fun i q hq => ?_) (reaches_schedule _ _) hlinked
    (by decide +kernel : "bob" ++ "@example.com" = bob.email)).1 _ _ _ _ hanswer⟩
  rw [List.mem_singleton.mp hq]
  split
  · trivial
  · change "bob" ++ "@example.com" = bob.email
    decide +kernel

end AssuranceLayer.Tenancy
