import AssuranceLayer.Tenancy

set_option autoImplicit false

/-!
What the requests of the console can write, and on what they have seen before: one inversion for
every action, against whatever the others do between its steps.
-/
namespace AssuranceLayer.Tenancy
open Interleaving Task SortedMap

/-! ## Requests -/

inductive Request where
  | signUp (email id : String)
  | createOrg (session : Option User) (form : Option NewOrg) (id : String) (publicKey : Option String)
  | invite (session : Option User) (slug : String) (raw : Option (String × Role)) (id : String) (now : ℕ)
  | setRole (session : Option User) (slug userId roleRaw : String)
  | removeMember (session : Option User) (slug userId : String)
  | revokeInvitation (session : Option User) (slug id : String)
  | acceptPending (user : User) (now : ℕ)
  | updateGeneral (session : Option User) (slug : String) (raw : Option General)
  | grantAuditor (session : Option User) (slug : String) (raw : Option String) (id : String)
  | revokeAuditor (session : Option User) (slug id : String)
  | deleteOrg (session : Option User) (slug confirmSlug : String)
  | importRoster (session : Option User) (slug : String) (rows : List RosterRow) (errors : List String)
      (ids : String → String)
  | addCustomer (session : Option User) (slug : String) (raw : Option RosterRow) (id : String)
  | removeCustomer (session : Option User) (slug id : String)
  | createApiKey (session : Option User) (slug : String) (name : Option String) (id hash : String)
  | revokeApiKey (session : Option User) (slug id : String) (now : ℕ)

variable (toLowerCase : String → String)

def Request.task : Request → Act Unit
  | signUp email id => Tenancy.signUp email id
  | createOrg session form id publicKey => Tenancy.createOrg session form id publicKey
  | invite session slug raw id now => inviteAction toLowerCase session slug raw id now
  | setRole session slug userId roleRaw => setRoleAction session slug userId roleRaw
  | removeMember session slug userId => removeMemberAction session slug userId
  | revokeInvitation session slug id => revokeInvitationAction session slug id
  | acceptPending user now => acceptPendingInvitations toLowerCase user now
  | updateGeneral session slug raw => updateGeneralAction session slug raw
  | grantAuditor session slug raw id => grantAuditorAction toLowerCase session slug raw id
  | revokeAuditor session slug id => revokeAuditorAction session slug id
  | deleteOrg session slug confirmSlug => deleteOrgAction session slug confirmSlug
  | importRoster session slug rows errors ids => importRosterAction toLowerCase session slug rows errors ids
  | addCustomer session slug raw id => addCustomerAction toLowerCase session slug raw id
  | removeCustomer session slug id => removeCustomerAction session slug id
  | createApiKey session slug name id hash => createApiKeyAction session slug name id hash
  | revokeApiKey session slug id now => revokeApiKeyAction session slug id now

/-- Requests one after the other, each answered whatever came of it. -/
def serve (requests : List Request) : Act Unit := Task.serve (Request.task toLowerCase) requests

/-! ## Writes -/

section Writes
variable (M R : Store → Store → Prop) (K : Store → Prop)

/-- It held of the store once, and since then others have done what they may. -/
def Seen (p : Store → Prop) (s : Store) : Prop := ∃ t, K t ∧ R t s ∧ p t

/-- The caller was found to have this role in the organisation at the slug. -/
structure Acts (session : Option User) (slug : String) (minRole : Role) (ctx : OrgContext) (s : Store) :
    Prop where
  user : signedIn session = some ctx.user
  org : Seen R K (fun t => t.bySlug slug = some (ctx.orgId, ctx.org)) s
  role : Seen R K (fun t => t.memberships.get? (key ctx.orgId ctx.user.id) = some ctx.role) s
  allowed : atLeast ctx.role minRole = true

/-- Everything that a request can write. -/
inductive Write : Request → Store → Store → Prop where
  | signedUp {s : Store} {email id : String} : s.users.get? email = none →
      Write (.signUp email id) s { s with users := s.users.insert email id }
  | created {s : Store} {session : Option User} {form : NewOrg} {id : String} {publicKey : Option String}
      {user : User} : signedIn session = some user → s.organizations.get? id = none →
      s.bySlug form.slug = none → Write (.createOrg session (some form) id publicKey) s
        ((s.setOrganization id ⟨form.slug, form.name, form.publisherParty, false, none⟩).setMember id user.id
          .owner)
  | keyed {s : Store} {session : Option User} {form : Option NewOrg} {id publicKey : String}
      {row : Organization} : s.organizations.get? id = some row →
      Write (.createOrg session form id (some publicKey)) s
        (s.setOrganization id { row with signingKeyHex := some publicKey })
  | added {s : Store} {session : Option User} {slug email : String} {role : Role} {id : String} {now : ℕ}
      {ctx : OrgContext} {userId : String} : Acts R K session slug .admin ctx s →
      role.rank ≤ ctx.role.rank → Seen R K (fun t => t.users.get? (toLowerCase email) = some userId) s →
      Write (.invite session slug (some (email, role)) id now) s (s.setMember ctx.orgId userId role)
  | invited {s : Store} {session : Option User} {slug email : String} {role : Role} {id : String} {now : ℕ}
      {ctx : OrgContext} : Acts R K session slug .admin ctx s → role.rank ≤ ctx.role.rank →
      s.invitations.get? id = none → Write (.invite session slug (some (email, role)) id now) s
        { s with invitations :=
            s.invitations.insert id ⟨ctx.orgId, toLowerCase email, role, now + twoWeeks, none⟩ }
  | roleSet {s : Store} {session : Option User} {slug userId roleRaw : String} {role target : Role}
      {ctx : OrgContext} : Acts R K session slug .admin ctx s → roleOf roleRaw = some role →
      role.rank ≤ ctx.role.rank → atLeast ctx.role target = true →
      Seen R K (fun t => t.memberships.get? (key ctx.orgId userId) = some target) s →
      (target = .owner ∧ role ≠ .owner → Seen R K (fun t => 1 < t.owners ctx.orgId) s) →
      Write (.setRole session slug userId roleRaw) s (s.setMember ctx.orgId userId role)
  | removed {s : Store} {session : Option User} {slug userId : String} {target : Role} {ctx : OrgContext} :
      Acts R K session slug .admin ctx s → atLeast ctx.role target = true →
      Seen R K (fun t => t.memberships.get? (key ctx.orgId userId) = some target) s →
      (target = .owner → Seen R K (fun t => 1 < t.owners ctx.orgId) s) →
      Write (.removeMember session slug userId) s (s.removeMember ctx.orgId userId)
  | invitationRevoked {s : Store} {session : Option User} {slug id : String} {ctx : OrgContext} :
      Acts R K session slug .admin ctx s →
      Seen R K (fun t => ∃ inv, t.invitations.get? id = some inv ∧ inv.orgId = ctx.orgId) s →
      Write (.revokeInvitation session slug id) s { s with invitations := s.invitations.erase id }
  | accepted {s : Store} {user : User} {now : ℕ} {id : String} {inv row : Invitation} :
      (∃ t, K t ∧ t.invitations.get? id = some inv) → inv.email = toLowerCase user.email →
      inv.acceptedAt = none → s.invitations.get? id = some row →
      Write (.acceptPending user now) s (s.accept id inv row user.id now)
  | customersLinked {s : Store} {user : User} {now : ℕ} :
      Write (.acceptPending user now) s (s.linkCustomers (toLowerCase user.email) user.id)
  | grantsLinked {s : Store} {user : User} {now : ℕ} :
      Write (.acceptPending user now) s (s.linkGrants (toLowerCase user.email) user.id)
  | updated {s : Store} {session : Option User} {slug : String} {form : General} {ctx : OrgContext}
      {row : Organization} : Acts R K session slug .admin ctx s →
      s.organizations.get? ctx.orgId = some row → Write (.updateGeneral session slug (some form)) s
        (s.setOrganization ctx.orgId { row with
          name := form.name, publisherParty := form.publisherParty, publicPage := form.publicPage })
  | auditorGranted {s : Store} {session : Option User} {slug email id : String} {ctx : OrgContext}
      {userId : Option String} : Acts R K session slug .admin ctx s →
      Seen R K (fun t => t.users.get? (toLowerCase email) = userId) s →
      Write (.grantAuditor session slug (some email) id) s
        (s.upsertGrant ctx.orgId (toLowerCase email) id userId (some ctx.user.id))
  | auditorRevoked {s : Store} {session : Option User} {slug id : String} {ctx : OrgContext} {k : Key} :
      Acts R K session slug .admin ctx s → orgOf k = ctx.orgId →
      Write (.revokeAuditor session slug id) s { s with auditorGrants := s.auditorGrants.erase k }
  | deleted {s : Store} {session : Option User} {slug : String} {ctx : OrgContext} :
      Acts R K session slug .owner ctx s → Write (.deleteOrg session slug slug) s (s.deleteOrg ctx.orgId)
  | imported {s : Store} {session : Option User} {slug : String} {rows : List RosterRow}
      {errors : List String} {ids : String → String} {ctx : OrgContext} {accounts : SortedMap String String} :
      Acts R K session slug .operator ctx s → Seen R K (fun t => byEmail toLowerCase t rows = accounts) s →
      Write (.importRoster session slug rows errors ids) s
        (s.importRows ctx.orgId ids accounts rows)
  | customerAdded {s : Store} {session : Option User} {slug : String} {form : RosterRow} {id : String}
      {ctx : OrgContext} {userId : Option String} : Acts R K session slug .operator ctx s →
      Seen R K (fun t => t.users.get? (toLowerCase form.email) = userId) s →
      Write (.addCustomer session slug (some form) id) s
        (s.upsertCustomer ctx.orgId form.externalId id (toLowerCase form.email) userId)
  | customerRemoved {s : Store} {session : Option User} {slug id : String} {ctx : OrgContext} {k : Key} :
      Acts R K session slug .operator ctx s → orgOf k = ctx.orgId →
      Write (.removeCustomer session slug id) s { s with customers := s.customers.erase k }
  | apiKeyCreated {s : Store} {session : Option User} {slug name id hash : String} {ctx : OrgContext} :
      Acts R K session slug .admin ctx s → s.apiKeys.get? id = none → s.byHash hash = none →
      Write (.createApiKey session slug (some name) id hash) s
        { s with apiKeys := s.apiKeys.insert id ⟨ctx.orgId, name, hash, none⟩ }
  | apiKeyRevoked {s : Store} {session : Option User} {slug id : String} {now : ℕ} {ctx : OrgContext}
      {row : ApiKey} : Acts R K session slug .admin ctx s →
      Seen R K (fun t => ∃ row, t.apiKeys.get? id = some row ∧ row.orgId = ctx.orgId) s →
      s.apiKeys.get? id = some row → Write (.revokeApiKey session slug id now) s
        { s with apiKeys := s.apiKeys.insert id { row with revokedAt := some now } }

/-- A step of a request: it writes, or leaves everything as it is. -/
def Wrote (q : Request) (s t : Store) : Prop := t = s ∨ K s ∧ M s t ∧ Write toLowerCase R K q s t

/-- What others may do, and what the request writes as the condition has it, keeps the invariant. -/
structure Keeps (q : Request) : Prop where
  preorder : IsPreorder Store R
  others : ∀ s t, R s t → K s → K t
  own : ∀ s t, K s → M s t → Write toLowerCase R K q s t → K t

end Writes

variable {toLowerCase} {M R : Store → Store → Prop} {K : Store → Prop} {q : Request} {s : Store}

theorem Seen.later {p : Store → Prop} {t : Store} [IsTrans Store R] (h : Seen R K p s) (ht : R s t) :
    Seen R K p t := by
  obtain ⟨u, hK, hu, hp⟩ := h
  exact ⟨u, hK, trans_of R hu ht, hp⟩

theorem Acts.later {session : Option User} {slug : String} {minRole : Role} {ctx : OrgContext} {t : Store}
    [IsTrans Store R] (h : Acts R K session slug minRole ctx s) (ht : R s t) :
    Acts R K session slug minRole ctx t :=
  ⟨h.user, h.org.later ht, h.role.later ht, h.allowed⟩

/-! ## The actions, one by one -/

section Steps
variable {G : Store → Store → Prop} {Q : Except Refusal Unit → Store → Prop}

theorem ensures_orgForAction {session : Option User} {slug : String} {minRole : Role}
    {f : OrgContext → Act Unit} [IsPreorder Store R] (hG : ∀ t, G t t) (hothers : ∀ s t, R s t → K s → K t)
    (hs : K s) (hfail : ∀ e t, K t → Q (.error e) t)
    (hok : ∀ ctx t, K t → Acts R K session slug minRole ctx t → (f ctx).Ensures M R G Q t) :
    (orgForAction session slug minRole >>= f).Ensures M R G Q s := by
  refine ensures_bind (Q := fun r t => K t ∧ ∀ ctx, r = .ok ctx → Acts R K session slug minRole ctx t) ?_
    (fun ctx t h => hok ctx t h.1 (h.2 ctx rfl)) fun e t h => hfail e t h.1
  unfold orgForAction
  refine ensures_given_bind (fun user huser => ?_) fun _ => ⟨hs, by simp⟩
  refine ensures_query_bind fun t ht => ⟨hG t, ?_⟩
  have hKt := hothers _ _ ht hs
  refine ensures_given_bind (fun org horg => ?_) fun _ => ⟨hKt, by simp⟩
  refine ensures_query_bind fun u hu => ⟨hG u, ?_⟩
  have hKu := hothers _ _ hu hKt
  refine ensures_given_bind (fun role hrole => ?_) fun _ => ⟨hKu, by simp⟩
  refine ensures_require_bind (fun hallowed => ensures_pure.mpr ⟨hKu, ?_⟩) fun _ => ⟨hKu, by simp⟩
  rintro _ ⟨⟩
  exact ⟨huser, ⟨t, hKt, hu, horg⟩, ⟨u, hKu, refl_of R u, hrole⟩, hallowed⟩

end Steps

section Requests
variable (h : Keeps toLowerCase M R K q) (hs : K s)
include h hs

theorem Keeps.within {orgId : String} {admits : Store → Bool} {write : Store → Store}
    (hwrite : ∀ t, R s t → K t → admits t = true → Write toLowerCase R K q t (write t)) :
    (within orgId admits write).Ensures M R (Wrote toLowerCase M R K q) (fun _ t => K t) s := by
  refine ensures_transact (fun t r ht hr hm => ?_) fun t e ht _ => ⟨.inl rfl, h.others _ _ ht hs⟩
  split at hr
  · cases hr
    have hKt := h.others _ _ ht hs
    have hw := hwrite t ht hKt (And.right ‹_›)
    exact ⟨.inr ⟨hKt, hm, hw⟩, h.own _ _ hKt hm hw⟩
  · cases hr

theorem Keeps.onRow {ρ : Type} {row : Store → Option ρ} {write : Store → ρ → Store}
    (hwrite : ∀ t r, R s t → K t → row t = some r → Write toLowerCase R K q t (write t r)) :
    (onRow row write).Ensures M R (Wrote toLowerCase M R K q) (fun _ t => K t) s := by
  refine ensures_transact (fun t r ht hr hm => ?_) fun t e ht _ => ⟨.inl rfl, h.others _ _ ht hs⟩
  split at hr
  · cases hr
    have hKt := h.others _ _ ht hs
    have hw := hwrite t _ ht hKt ‹_›
    exact ⟨.inr ⟨hKt, hm, hw⟩, h.own _ _ hKt hm hw⟩
  · cases hr

theorem Keeps.modify {write : Store → Store} (hwrite : ∀ t, Write toLowerCase R K q t (write t)) :
    (Task.modify write : Act Unit).Ensures M R (Wrote toLowerCase M R K q) (fun _ t => K t) s := by
  refine ensures_modify fun t ht hm => ?_
  have hKt := h.others _ _ ht hs
  exact ⟨.inr ⟨hKt, hm, hwrite t⟩, h.own _ _ hKt hm (hwrite t)⟩

theorem Keeps.acting {session : Option User} {slug : String} {minRole : Role} {f : OrgContext → Act Unit}
    (hok : ∀ ctx t, K t → Acts R K session slug minRole ctx t →
      (f ctx).Ensures M R (Wrote toLowerCase M R K q) (fun _ t => K t) t) :
    (orgForAction session slug minRole >>= f).Ensures M R (Wrote toLowerCase M R K q) (fun _ t => K t) s := by
  have := h.preorder
  exact ensures_orgForAction (fun t => .inl rfl) h.others hs (fun _ _ hK => hK) hok

theorem Keeps.reading {β : Type} {read : Store → β} {f : β → Act Unit}
    (hok : ∀ t, R s t → K t → (f (read t)).Ensures M R (Wrote toLowerCase M R K q) (fun _ t => K t) t) :
    (query read >>= f).Ensures M R (Wrote toLowerCase M R K q) (fun _ t => K t) s :=
  ensures_query_bind fun t ht => ⟨.inl rfl, hok t ht (h.others _ _ ht hs)⟩

theorem Keeps.seen (p : Store → Prop) (hp : p s) : Seen R K p s := by
  have := h.preorder
  exact ⟨s, hs, refl_of R s, hp⟩

/-- Past the count of the owners, which a demotion has to make. -/
theorem Keeps.counting {orgId : String} {demotes : Bool} {f : Unit → Act Unit}
    (hok : ∀ t, R s t → K t → (demotes = true → Seen R K (fun u => 1 < u.owners orgId) t) →
      (f ()).Ensures M R (Wrote toLowerCase M R K q) (fun _ t => K t) t) :
    (keepsAnOwner orgId demotes >>= f).Ensures M R (Wrote toLowerCase M R K q) (fun _ t => K t) s := by
  have := h.preorder
  refine ensures_bind (Q := fun r t => K t ∧ R s t ∧
      (r = .ok () → demotes = true → Seen R K (fun u => 1 < u.owners orgId) t)) ?_
    (fun _ t ht => hok t ht.2.1 ht.1 (ht.2.2 rfl)) fun _ t ht => ht.1
  unfold keepsAnOwner
  cases demotes with
  | false => exact ensures_pure.mpr ⟨hs, refl_of R s, fun _ hfalse => absurd hfalse (by decide)⟩
  | true =>
    refine ensures_query_bind fun t ht => ⟨.inl rfl, ?_⟩
    have hKt := h.others _ _ ht hs
    unfold require
    split
    · exact ⟨hKt, ht, fun _ _ => h.seen hKt (fun u => 1 < u.owners orgId) ‹_›⟩
    · exact ⟨hKt, ht, fun hok => absurd hok (by simp)⟩

end Requests

variable {session : Option User} {slug : String}

theorem ensures_signUp {email id : String} (h : Keeps toLowerCase M R K (.signUp email id)) (hs : K s) :
    (signUp email id).Ensures M R (Wrote toLowerCase M R K (.signUp email id)) (fun _ t => K t) s := by
  refine ensures_modify fun t ht => ?_
  have hKt := h.others _ _ ht hs
  split
  · intro hm
    have hw : Write toLowerCase R K (.signUp email id) t _ := .signedUp ‹_›
    exact ⟨.inr ⟨hKt, hm, hw⟩, h.own _ _ hKt hm hw⟩
  · exact fun _ => ⟨.inl rfl, hKt⟩

theorem ensures_createOrg {form : Option NewOrg} {id : String} {publicKey : Option String}
    (h : Keeps toLowerCase M R K (.createOrg session form id publicKey)) (hs : K s) :
    (createOrg session form id publicKey).Ensures M R
      (Wrote toLowerCase M R K (.createOrg session form id publicKey)) (fun _ t => K t) s := by
  unfold createOrg
  refine ensures_given_bind (fun user huser => ?_) fun _ => hs
  refine ensures_given_bind (fun parsed hparsed => ?_) fun _ => hs
  subst hparsed
  refine h.reading hs fun t ht hKt => ?_
  refine ensures_require_bind (fun _ => ?_) fun _ => hKt
  refine ensures_bind (Q := fun _ t => K t) ?_ (fun _ u hKu => ?_) fun _ u hKu => hKu
  · refine ensures_transact (fun u r hu hr hm => ?_) fun u e hu _ => ⟨.inl rfl, h.others _ _ hu hKt⟩
    split at hr
    · cases hr
      have hKu := h.others _ _ hu hKt
      have hw : Write toLowerCase R K (.createOrg session (some parsed) id publicKey) u _ :=
        .created huser (And.left ‹_›) (And.right ‹_›)
      exact ⟨.inr ⟨hKu, hm, hw⟩, h.own _ _ hKu hm hw⟩
    · cases hr
  · cases publicKey with
    | none => exact hKu
    | some publicKey => exact h.onRow hKu fun v r _ _ hr => .keyed hr

theorem ensures_invite {raw : Option (String × Role)} {id : String} {now : ℕ}
    (h : Keeps toLowerCase M R K (.invite session slug raw id now)) (hs : K s) :
    (inviteAction toLowerCase session slug raw id now).Ensures M R
      (Wrote toLowerCase M R K (.invite session slug raw id now)) (fun _ t => K t) s := by
  have := h.preorder
  refine h.acting hs fun ctx t hKt hacts => ?_
  refine ensures_given_bind (fun parsed hparsed => ?_) fun _ => hKt
  obtain ⟨email, role⟩ := parsed
  subst hparsed
  refine ensures_require_bind (fun hrank => ?_) fun _ => hKt
  refine h.reading hKt fun u hu hKu => ?_
  have hacts := hacts.later hu
  cases huser : u.users.get? (toLowerCase email) with
  | some userId =>
    have hseen := h.seen hKu (fun t => t.users.get? (toLowerCase email) = some userId) huser
    exact h.within hKu fun v hv _ _ => .added (hacts.later hv) hrank (hseen.later hv)
  | none =>
    exact h.within hKu fun v hv _ hadmits => .invited (hacts.later hv) hrank (of_decide_eq_true hadmits)

theorem ensures_setRole {userId roleRaw : String}
    (h : Keeps toLowerCase M R K (.setRole session slug userId roleRaw)) (hs : K s) :
    (setRoleAction session slug userId roleRaw).Ensures M R
      (Wrote toLowerCase M R K (.setRole session slug userId roleRaw)) (fun _ t => K t) s := by
  have := h.preorder
  refine h.acting hs fun ctx t hKt hacts => ?_
  refine ensures_given_bind (fun role hrole => ?_) fun _ => hKt
  refine ensures_require_bind (fun hrank => ?_) fun _ => hKt
  refine h.reading hKt fun u hu hKu => ?_
  refine ensures_given_bind (fun target htarget => ?_) fun _ => hKu
  refine ensures_require_bind (fun hatLeast => ?_) fun _ => hKu
  refine h.counting hKu fun v hv hKv hcounted => ?_
  have hseen := (h.seen hKu (fun t => t.memberships.get? (key ctx.orgId userId) = some target) htarget).later hv
  refine h.onRow hKv fun w r hw hKw _ => ?_
  refine .roleSet ((hacts.later hu).later hv |>.later hw) hrole hrank hatLeast (hseen.later hw) fun hdemotes => ?_
  exact (hcounted (decide_eq_true hdemotes)).later hw

theorem ensures_removeMember {userId : String}
    (h : Keeps toLowerCase M R K (.removeMember session slug userId)) (hs : K s) :
    (removeMemberAction session slug userId).Ensures M R
      (Wrote toLowerCase M R K (.removeMember session slug userId)) (fun _ t => K t) s := by
  have := h.preorder
  refine h.acting hs fun ctx t hKt hacts => ?_
  refine h.reading hKt fun u hu hKu => ?_
  refine ensures_given_bind (fun target htarget => ?_) fun _ => hKu
  refine ensures_require_bind (fun hatLeast => ?_) fun _ => hKu
  refine h.counting hKu fun v hv hKv hcounted => ?_
  have hseen := (h.seen hKu (fun t => t.memberships.get? (key ctx.orgId userId) = some target) htarget).later hv
  refine h.onRow hKv fun w r hw hKw _ => ?_
  refine .removed ((hacts.later hu).later hv |>.later hw) hatLeast (hseen.later hw) fun howner => ?_
  exact (hcounted (decide_eq_true howner)).later hw

theorem ensures_revokeInvitation {id : String}
    (h : Keeps toLowerCase M R K (.revokeInvitation session slug id)) (hs : K s) :
    (revokeInvitationAction session slug id).Ensures M R
      (Wrote toLowerCase M R K (.revokeInvitation session slug id)) (fun _ t => K t) s := by
  have := h.preorder
  refine h.acting hs fun ctx t hKt hacts => ?_
  refine h.reading hKt fun u hu hKu => ?_
  refine ensures_given_bind (fun inv hinv => ?_) fun _ => hKu
  obtain ⟨hinv, horg⟩ := Option.filter_eq_some_iff.mp hinv
  have hseen := h.seen hKu (fun t => ∃ inv, t.invitations.get? id = some inv ∧ inv.orgId = ctx.orgId)
    ⟨inv, hinv, of_decide_eq_true horg⟩
  exact h.onRow hKu fun v r hv _ _ => .invitationRevoked ((hacts.later hu).later hv) (hseen.later hv)

theorem ensures_acceptPending {user : User} {now : ℕ}
    (h : Keeps toLowerCase M R K (.acceptPending user now)) (hs : K s) :
    (acceptPendingInvitations toLowerCase user now).Ensures M R
      (Wrote toLowerCase M R K (.acceptPending user now)) (fun _ t => K t) s := by
  refine h.reading hs fun t ht hKt => ?_
  refine ensures_bind (Q := fun _ t => K t) (ensures_each (fun e he u hKu => ?_) hKt) (fun _ u hKu => ?_)
    fun _ u hKu => hKu
  · obtain ⟨hmem, hpending⟩ := List.mem_filter.mp he
    obtain ⟨hemail, hopen, _⟩ := of_decide_eq_true hpending
    have hread : t.invitations.get? e.1 = some e.2 := get?_eq_some.mpr hmem
    exact h.onRow hKu fun v r _ _ hr => .accepted ⟨t, hKt, hread⟩ hemail hopen hr
  · exact ensures_bind (h.modify hKu fun _ => .customersLinked)
      (fun _ v hKv => h.modify hKv fun _ => .grantsLinked) fun _ v hKv => hKv

theorem ensures_updateGeneral {raw : Option General}
    (h : Keeps toLowerCase M R K (.updateGeneral session slug raw)) (hs : K s) :
    (updateGeneralAction session slug raw).Ensures M R
      (Wrote toLowerCase M R K (.updateGeneral session slug raw)) (fun _ t => K t) s := by
  have := h.preorder
  refine h.acting hs fun ctx t hKt hacts => ?_
  refine ensures_given_bind (fun parsed hparsed => ?_) fun _ => hKt
  subst hparsed
  exact h.onRow hKt fun u r hu _ hr => .updated (hacts.later hu) hr

theorem ensures_grantAuditor {raw : Option String} {id : String}
    (h : Keeps toLowerCase M R K (.grantAuditor session slug raw id)) (hs : K s) :
    (grantAuditorAction toLowerCase session slug raw id).Ensures M R
      (Wrote toLowerCase M R K (.grantAuditor session slug raw id)) (fun _ t => K t) s := by
  have := h.preorder
  refine h.acting hs fun ctx t hKt hacts => ?_
  refine ensures_given_bind (fun parsed hparsed => ?_) fun _ => hKt
  subst hparsed
  refine h.reading hKt fun u hu hKu => ?_
  have hseen := h.seen hKu (fun t => t.users.get? (toLowerCase parsed) = u.users.get? (toLowerCase parsed)) rfl
  exact h.within hKu fun v hv _ _ => .auditorGranted ((hacts.later hu).later hv) (hseen.later hv)

theorem ensures_revokeAuditor {id : String}
    (h : Keeps toLowerCase M R K (.revokeAuditor session slug id)) (hs : K s) :
    (revokeAuditorAction session slug id).Ensures M R
      (Wrote toLowerCase M R K (.revokeAuditor session slug id)) (fun _ t => K t) s := by
  have := h.preorder
  refine h.acting hs fun ctx t hKt hacts => ?_
  refine h.reading hKt fun u hu hKu => ?_
  refine ensures_given_bind (fun row hrow => ?_) fun _ => hKu
  have hfound := List.find?_some hrow
  have horg := of_decide_eq_true hfound
  exact h.onRow hKu fun v r hv _ _ => .auditorRevoked ((hacts.later hu).later hv) horg.2

theorem ensures_deleteOrg {confirmSlug : String}
    (h : Keeps toLowerCase M R K (.deleteOrg session slug confirmSlug)) (hs : K s) :
    (deleteOrgAction session slug confirmSlug).Ensures M R
      (Wrote toLowerCase M R K (.deleteOrg session slug confirmSlug)) (fun _ t => K t) s := by
  have := h.preorder
  refine h.acting hs fun ctx t hKt hacts => ?_
  refine ensures_require_bind (fun hconfirm => ?_) fun _ => hKt
  subst hconfirm
  exact h.onRow hKt fun u r hu _ _ => .deleted (hacts.later hu)

theorem ensures_importRoster {rows : List RosterRow} {errors : List String} {ids : String → String}
    (h : Keeps toLowerCase M R K (.importRoster session slug rows errors ids)) (hs : K s) :
    (importRosterAction toLowerCase session slug rows errors ids).Ensures M R
      (Wrote toLowerCase M R K (.importRoster session slug rows errors ids)) (fun _ t => K t) s := by
  have := h.preorder
  refine h.acting hs fun ctx t hKt hacts => ?_
  refine ensures_require_bind (fun _ => ?_) fun _ => hKt
  refine h.reading hKt fun u hu hKu => ?_
  have hseen := h.seen hKu (fun t => byEmail toLowerCase t rows = byEmail toLowerCase u rows) rfl
  exact h.within hKu fun v hv _ _ => .imported ((hacts.later hu).later hv) (hseen.later hv)

theorem ensures_addCustomer {raw : Option RosterRow} {id : String}
    (h : Keeps toLowerCase M R K (.addCustomer session slug raw id)) (hs : K s) :
    (addCustomerAction toLowerCase session slug raw id).Ensures M R
      (Wrote toLowerCase M R K (.addCustomer session slug raw id)) (fun _ t => K t) s := by
  have := h.preorder
  refine h.acting hs fun ctx t hKt hacts => ?_
  refine ensures_given_bind (fun parsed hparsed => ?_) fun _ => hKt
  subst hparsed
  refine h.reading hKt fun u hu hKu => ?_
  have hseen := h.seen hKu
    (fun t => t.users.get? (toLowerCase parsed.email) = u.users.get? (toLowerCase parsed.email)) rfl
  exact h.within hKu fun v hv _ _ => .customerAdded ((hacts.later hu).later hv) (hseen.later hv)

theorem ensures_removeCustomer {id : String}
    (h : Keeps toLowerCase M R K (.removeCustomer session slug id)) (hs : K s) :
    (removeCustomerAction session slug id).Ensures M R
      (Wrote toLowerCase M R K (.removeCustomer session slug id)) (fun _ t => K t) s := by
  have := h.preorder
  refine h.acting hs fun ctx t hKt hacts => ?_
  refine h.reading hKt fun u hu hKu => ?_
  refine ensures_given_bind (fun row hrow => ?_) fun _ => hKu
  have hfound := List.find?_some hrow
  have horg := of_decide_eq_true hfound
  exact h.onRow hKu fun v r hv _ _ => .customerRemoved ((hacts.later hu).later hv) horg.2

theorem ensures_createApiKey {name : Option String} {id hash : String}
    (h : Keeps toLowerCase M R K (.createApiKey session slug name id hash)) (hs : K s) :
    (createApiKeyAction session slug name id hash).Ensures M R
      (Wrote toLowerCase M R K (.createApiKey session slug name id hash)) (fun _ t => K t) s := by
  have := h.preorder
  refine h.acting hs fun ctx t hKt hacts => ?_
  refine ensures_given_bind (fun name hname => ?_) fun _ => hKt
  subst hname
  refine h.within hKt fun u hu _ hadmits => ?_
  obtain ⟨hid, hhash⟩ := of_decide_eq_true hadmits
  exact .apiKeyCreated (hacts.later hu) hid hhash

theorem ensures_revokeApiKey {id : String} {now : ℕ}
    (h : Keeps toLowerCase M R K (.revokeApiKey session slug id now)) (hs : K s) :
    (revokeApiKeyAction session slug id now).Ensures M R
      (Wrote toLowerCase M R K (.revokeApiKey session slug id now)) (fun _ t => K t) s := by
  have := h.preorder
  refine h.acting hs fun ctx t hKt hacts => ?_
  refine h.reading hKt fun u hu hKu => ?_
  refine ensures_given_bind (fun row hrow => ?_) fun _ => hKu
  obtain ⟨hrow, horg⟩ := Option.filter_eq_some_iff.mp hrow
  have hseen := h.seen hKu (fun t => ∃ row, t.apiKeys.get? id = some row ∧ row.orgId = ctx.orgId)
    ⟨row, hrow, of_decide_eq_true horg⟩
  exact h.onRow hKu fun v r hv _ hr => .apiKeyRevoked ((hacts.later hu).later hv) (hseen.later hv) hr

/-- A request writes what the listing says, and keeps what its writes and the others keep. -/
theorem Keeps.ensures (h : Keeps toLowerCase M R K q) (hs : K s) :
    (q.task toLowerCase).Ensures M R (Wrote toLowerCase M R K q) (fun _ t => K t) s := by
  cases q with
  | signUp => exact ensures_signUp h hs
  | createOrg => exact ensures_createOrg h hs
  | invite => exact ensures_invite h hs
  | setRole => exact ensures_setRole h hs
  | removeMember => exact ensures_removeMember h hs
  | revokeInvitation => exact ensures_revokeInvitation h hs
  | acceptPending => exact ensures_acceptPending h hs
  | updateGeneral => exact ensures_updateGeneral h hs
  | grantAuditor => exact ensures_grantAuditor h hs
  | revokeAuditor => exact ensures_revokeAuditor h hs
  | deleteOrg => exact ensures_deleteOrg h hs
  | importRoster => exact ensures_importRoster h hs
  | addCustomer => exact ensures_addCustomer h hs
  | removeCustomer => exact ensures_removeCustomer h hs
  | createApiKey => exact ensures_createApiKey h hs
  | revokeApiKey => exact ensures_revokeApiKey h hs

theorem ensures_requests {G : Store → Store → Prop} {requests : List Request}
    (h : ∀ q ∈ requests, Keeps toLowerCase M R K q)
    (hG : ∀ q ∈ requests, ∀ s t, Wrote toLowerCase M R K q s t → G s t) (hs : K s) :
    (serve toLowerCase requests).Ensures M R G (fun _ t => K t) s :=
  ensures_serve (fun q hq _ hs => ((h q hq).ensures hs).weaken (hG q hq)) hs

/-- Whatever requests are served at once, what all their writes keep holds throughout. -/
theorem invariant_of_writes {requests : ℕ → List Request}
    (hwrites : ∀ i, ∀ q ∈ requests i, ∀ s t, K s → Write toLowerCase (Preserves K) K q s t → K t) {s : Store}
    {c : Config Store Refusal Unit} {Meets : ℕ → Store → Store → Prop}
    (h : Reaches Meets ⟨s, fun i => serve toLowerCase (requests i)⟩ c) (hs : K s) : K c.store := by
  refine h.invariant (Q := fun _ _ t => K t) (fun _ _ _ _ hst hs => hst hs) (fun i => ?_) hs
  refine ensures_requests (fun q hq => ?_) (fun q hq s t hwrote hK => ?_) hs
  · exact ⟨inferInstance, fun _ _ hst => hst, fun s t hK _ => hwrites i q hq s t hK⟩
  · rcases hwrote with rfl | ⟨hK, _, hw⟩
    · exact hK
    · exact hwrites i q hq s t hK hw

end AssuranceLayer.Tenancy
