import AssuranceLayer.TenancyRuns

set_option autoImplicit false

/-!
Who can come to rule an organisation, and who is left to rule it, however the requests interleave.
-/
namespace AssuranceLayer.Tenancy
open Interleaving Task SortedMap

def Request.creates (orgId : String) : Request → Prop
  | createOrg _ _ id _ => id = orgId
  | _ => False

variable {toLowerCase : String → String} {R : Store → Store → Prop} {orgId : String}
  {requests : ℕ → List Request} {s t : Store} {c : Config Store Refusal Unit}

/-! ## Ranks -/

/-- Nobody in the organisation has this rank, and no invitation to it is pending. -/
structure Below (orgId : String) (rank : ℕ) (s : Store) : Prop where
  members : ∀ userId role, s.memberships.get? (key orgId userId) = some role → role.rank < rank
  invited : ∀ id inv, s.invitations.get? id = some inv → inv.orgId = orgId → inv.acceptedAt = none →
    inv.role.rank < rank

variable {rank : ℕ}

theorem Below.setMember (h : Below orgId rank s) {org userId : String} {role : Role}
    (hrole : org = orgId → role.rank < rank) : Below orgId rank (s.setMember org userId role) where
  members v held hheld := by
    simp only [Store.setMember, get?_insert] at hheld
    split at hheld
    · cases hheld
      exact hrole (key_inj.mp ‹_›).1
    · exact h.members v held hheld
  invited := h.invited

theorem Below.setOrganization (h : Below orgId rank s) {org : String} {row : Organization} :
    Below orgId rank (s.setOrganization org row) := ⟨h.members, h.invited⟩

theorem Below.removeMember (h : Below orgId rank s) {org userId : String} :
    Below orgId rank (s.removeMember org userId) where
  members v held hheld := by
    simp only [Store.removeMember, get?_erase_eq_some] at hheld
    exact h.members v held hheld.2
  invited := h.invited

theorem Below.invite (h : Below orgId rank s) {id : String} {inv : Invitation}
    (hinv : inv.orgId = orgId → inv.acceptedAt = none → inv.role.rank < rank) :
    Below orgId rank { s with invitations := s.invitations.insert id inv } where
  members := h.members
  invited i row hrow := by
    simp only [get?_insert] at hrow
    split at hrow
    · cases hrow
      exact hinv
    · exact h.invited i row hrow

theorem Below.accept (h : Below orgId rank s) {id userId : String} {inv row : Invitation} {now : ℕ}
    (hinv : inv.orgId = orgId → inv.role.rank < rank) :
    Below orgId rank (s.accept id inv row userId now) where
  members v held hheld := by
    rw [Store.accept_memberships, Option.or_eq_some_iff] at hheld
    rcases hheld with hheld | ⟨_, hnew⟩
    · exact h.members v held hheld
    · split at hnew
      · cases hnew
        exact hinv (key_inj.mp ‹_›).1
      · cases hnew
  invited := by
    have hmarked : Below orgId rank { s with
        invitations := s.invitations.insert id { row with acceptedAt := some now } } :=
      h.invite fun _ haccepted => by cases haccepted
    exact hmarked.invited

theorem Acts.below {session : Option User} {slug : String} {minRole : Role} {ctx : OrgContext}
    (h : Acts R (Below orgId rank) session slug minRole ctx s) (horg : ctx.orgId = orgId) :
    ctx.role.rank < rank := by
  obtain ⟨t, hbelow, _, hrole⟩ := h.role
  exact hbelow.members _ _ (horg ▸ hrole)

theorem below_write {q : Request} (hcreates : ¬ q.creates orgId) (h : Below orgId rank s)
    (hw : Write toLowerCase R (Below orgId rank) q s t) : Below orgId rank t := by
  cases hw with
  | signedUp _ => exact ⟨h.members, h.invited⟩
  | created _ _ _ => exact h.setOrganization.setMember fun hid => absurd hid hcreates
  | keyed _ => exact h.setOrganization
  | added hacts hrank _ => exact h.setMember fun horg => lt_of_le_of_lt hrank (hacts.below horg)
  | invited hacts hrank _ => exact h.invite fun horg _ => lt_of_le_of_lt hrank (hacts.below horg)
  | roleSet hacts _ hrank _ _ _ => exact h.setMember fun horg => lt_of_le_of_lt hrank (hacts.below horg)
  | removed _ _ _ _ => exact h.removeMember
  | invitationRevoked _ _ =>
    exact ⟨h.members, fun i row hrow => h.invited i row (get?_erase_eq_some.mp hrow).2⟩
  | accepted hread _ hopen _ =>
    obtain ⟨u, hbelow, hinv⟩ := hread
    exact h.accept fun horg => hbelow.invited _ _ hinv horg hopen
  | customersLinked => exact ⟨h.members, h.invited⟩
  | grantsLinked => exact ⟨h.members, h.invited⟩
  | updated _ _ => exact h.setOrganization
  | auditorGranted _ _ => exact ⟨h.members, h.invited⟩
  | auditorRevoked _ _ => exact ⟨h.members, h.invited⟩
  | deleted _ =>
    exact ⟨fun v held hheld => h.members v held (get?_filter_eq_some.mp hheld).1,
      fun i row hrow => h.invited i row (get?_filter_eq_some.mp hrow).1⟩
  | imported _ _ =>
    rw [Store.importRows_eq]
    exact ⟨h.members, h.invited⟩
  | customerAdded _ _ => exact ⟨h.members, h.invited⟩
  | customerRemoved _ _ => exact ⟨h.members, h.invited⟩
  | apiKeyCreated _ _ _ => exact ⟨h.members, h.invited⟩
  | apiKeyRevoked _ _ _ => exact ⟨h.members, h.invited⟩

/-- As long as nobody founds the organisation anew, no request gives anyone in it, or anyone whose
    invitation is pending, a rank that nobody had there. -/
theorem below_kept {Meets : ℕ → Store → Store → Prop}
    (hcreates : ∀ i, ∀ q ∈ requests i, ¬ q.creates orgId)
    (h : Reaches Meets ⟨s, fun i => serve toLowerCase (requests i)⟩ c) (hs : Below orgId rank s) :
    Below orgId rank c.store :=
  invariant_of_writes (fun i q hq _ _ => below_write (hcreates i q hq)) h hs

/-! ## Owners -/

def HasOwner (orgId : String) (s : Store) : Prop :=
  ∃ userId, s.memberships.get? (key orgId userId) = some .owner

/-- The organisation is found at the slug only, and has an owner for as long as it is there. -/
def Owned (slug orgId : String) (s : Store) : Prop :=
  ∀ org, s.organizations.get? orgId = some org → org.slug = slug ∧ HasOwner orgId s

/-- Where there are two owners, one is somebody else. -/
theorem other_owner (h : 1 < s.owners orgId) (userId : String) :
    ∃ other, other ≠ userId ∧ s.memberships.get? (key orgId other) = some .owner := by
  by_contra! hnone
  rw [Store.owners, List.countP_eq_length_filter] at h
  have hsub : s.memberships.entries.filter (fun e => orgOf e.1 = orgId ∧ e.2 = .owner) ⊆
      [(key orgId userId, .owner)] := by
    intro e he
    obtain ⟨hmem, howner⟩ := List.mem_filter.mp he
    obtain ⟨horg, hrole⟩ := of_decide_eq_true howner
    have hkey : key orgId (ofLex e.1).2 = e.1 := by rw [← horg]; rfl
    have hget : s.memberships.get? (key orgId (ofLex e.1).2) = some .owner := by
      rw [get?_eq_some, hkey, ← hrole]
      exact hmem
    have hsame : (ofLex e.1).2 = userId := by
      by_contra hne
      exact hnone _ hne hget
    rw [List.mem_singleton, ← hsame, hkey, ← hrole]
  have hlength := ((s.memberships.entries_nodup.filter _).subperm hsub).length_le
  rw [List.length_singleton] at hlength
  omega

/-- Whoever owns the organisation owns it still, unless it is gone. -/
def KeepsOwners (orgId : String) (s t : Store) : Prop :=
  (t.organizations.get? orgId).isSome → ∀ userId,
    s.memberships.get? (key orgId userId) = some .owner → t.memberships.get? (key orgId userId) = some .owner

/-- Apart from deleting the organisation, this takes no owner from it. -/
structure Retains (orgId : String) (s t : Store) : Prop where
  there : ∀ org, t.organizations.get? orgId = some org →
    ∃ old, s.organizations.get? orgId = some old ∧ org.slug = old.slug
  owners : KeepsOwners orgId s t

def Request.demotes (slug : String) : Request → Prop
  | setRole _ slug' _ _ => slug' = slug
  | removeMember _ slug' _ => slug' = slug
  | _ => False

/-- This writes what inviting an owner to less writes. -/
def Request.unseats (toLowerCase : String → String) (slug orgId : String) (s t : Store) : Request → Prop
  | invite _ slug' (some (email, role)) _ _ => slug' = slug ∧ role ≠ .owner ∧
      ∃ userId, s.users.get? (toLowerCase email) = some userId ∧
        s.memberships.get? (key orgId userId) = some .owner ∧ t = s.setMember orgId userId role
  | _ => False

variable {slug : String}

theorem Owned.retains (h : Owned slug orgId s) (hst : Retains orgId s t) : Owned slug orgId t := by
  intro org horg
  obtain ⟨old, hold, hslug⟩ := hst.there org horg
  obtain ⟨hsame, userId, howner⟩ := h old hold
  exact ⟨hslug.trans hsame, userId, hst.owners (by rw [horg]; rfl) userId howner⟩

theorem Acts.slug_eq {session : Option User} {slug' : String} {minRole : Role} {ctx : OrgContext}
    (h : Acts R (Owned slug orgId) session slug' minRole ctx s) (horg : ctx.orgId = orgId) : slug' = slug := by
  obtain ⟨t, howned, _, hfound⟩ := h.org
  have hslug := List.find?_some hfound
  have hrow : t.organizations.get? ctx.orgId = some ctx.org := get?_eq_some.mpr (List.mem_of_find?_eq_some hfound)
  exact (of_decide_eq_true hslug).symm.trans (howned _ (horg ▸ hrow)).1

theorem Write.users_grow {q : Request} {K : Store → Prop} (hw : Write toLowerCase R K q s t)
    {email userId : String} (h : s.users.get? email = some userId) : t.users.get? email = some userId := by
  cases hw with
  | @signedUp _ new id hnone =>
    rw [get?_insert, if_neg, h]
    rintro rfl
    exact absurd (hnone.symm.trans h) (by simp)
  | imported _ _ => rw [Store.importRows_eq]; exact h
  | _ => exact h

theorem KeepsOwners.setMember {org userId : String} {role : Role}
    (h : org = orgId → s.memberships.get? (key orgId userId) = some .owner → role = .owner) :
    KeepsOwners orgId s (s.setMember org userId role) := by
  intro _ v hv
  simp only [Store.setMember, get?_insert]
  split
  · obtain ⟨rfl, rfl⟩ := key_inj.mp ‹_›
    rw [h rfl hv]
  · exact hv

theorem KeepsOwners.removeMember {org userId : String} (h : org ≠ orgId) :
    KeepsOwners orgId s (s.removeMember org userId) :=
  fun _ _ hv => get?_erase_eq_some.mpr ⟨fun hkey => h (key_inj.mp hkey).1.symm, hv⟩

theorem Retains.refl : Retains orgId s s := ⟨fun org horg => ⟨org, horg, rfl⟩, fun _ _ h => h⟩

theorem Retains.trans {u : Store} (hst : Retains orgId s t) (htu : Retains orgId t u) :
    Retains orgId s u where
  there org horg := by
    obtain ⟨mid, hmid, hslug⟩ := htu.there org horg
    obtain ⟨old, hold, hslug'⟩ := hst.there mid hmid
    exact ⟨old, hold, hslug.trans hslug'⟩
  owners hthere v hv := by
    obtain ⟨org, horg⟩ := Option.isSome_iff_exists.mp hthere
    obtain ⟨mid, hmid, _⟩ := htu.there org horg
    exact htu.owners hthere v (hst.owners (by rw [hmid]; rfl) v hv)

/-- No request moves the organisation to another slug. -/
theorem Write.there {q : Request} {K : Store → Prop} (hw : Write toLowerCase R K q s t)
    (hcreates : ¬ q.creates orgId) : ∀ org, t.organizations.get? orgId = some org →
      ∃ old, s.organizations.get? orgId = some old ∧ org.slug = old.slug := by
  intro org horg
  have hset : ∀ {id : String} {row : Organization},
      (id = orgId → ∃ old, s.organizations.get? orgId = some old ∧ row.slug = old.slug) →
      (s.setOrganization id row).organizations.get? orgId = some org →
      ∃ old, s.organizations.get? orgId = some old ∧ org.slug = old.slug := by
    intro id row hrow hget
    simp only [Store.setOrganization, get?_insert] at hget
    split at hget
    · cases hget
      exact hrow ‹_›
    · exact ⟨org, hget, rfl⟩
  cases hw with
  | created _ _ _ => exact hset (fun hid => absurd hid hcreates) horg
  | keyed hrow =>
    refine hset (fun hid => ?_) horg
    subst hid
    exact ⟨_, hrow, rfl⟩
  | updated _ hrow =>
    refine hset (fun hid => ?_) horg
    subst hid
    exact ⟨_, hrow, rfl⟩
  | deleted _ => exact ⟨org, (get?_erase_eq_some.mp horg).2, rfl⟩
  | imported _ _ =>
    rw [Store.importRows_eq] at horg
    exact ⟨org, horg, rfl⟩
  | _ => exact ⟨org, horg, rfl⟩

/-- Only who demotes members or removes them, and who invites an owner, takes an owner's role away. -/
theorem Write.keepsOwners {q : Request} (hw : Write toLowerCase R (Owned slug orgId) q s t)
    (hgrow : ∀ s t, R s t → ∀ email userId, s.users.get? email = some userId →
      t.users.get? email = some userId)
    (hdemotes : ¬ q.demotes slug) (hunseats : ¬ q.unseats toLowerCase slug orgId s t) :
    KeepsOwners orgId s t := by
  cases hw with
  | created _ _ _ => exact KeepsOwners.setMember fun _ _ => rfl
  | added hacts _ huser =>
    refine .setMember fun horg howner => ?_
    by_contra hrole
    obtain ⟨u, _, hu, huser⟩ := huser
    exact hunseats ⟨hacts.slug_eq horg, hrole, _, hgrow u s hu _ _ huser, howner, by rw [horg]⟩
  | roleSet hacts _ _ _ _ _ => exact .setMember fun horg => absurd (hacts.slug_eq horg) hdemotes
  | removed hacts _ _ _ => exact .removeMember fun horg => hdemotes (hacts.slug_eq horg)
  | accepted _ _ _ _ =>
    intro _ v hv
    rw [Store.accept_memberships, hv, Option.some_or]
  | @deleted _ _ _ ctx _ =>
    refine fun hthere v hv => get?_filter_eq_some.mpr ⟨hv, decide_eq_true fun heq => ?_⟩
    obtain ⟨org, horg⟩ := Option.isSome_iff_exists.mp hthere
    exact (get?_erase_eq_some.mp horg).1 heq
  | imported _ _ =>
    rw [Store.importRows_eq]
    exact fun _ _ h => h
  | _ => exact fun _ _ h => h

/-! ## One change of roles at a time -/

/-- What every request leaves the others: accounts stay, and so does the invariant. -/
structure Allows (slug orgId : String) (s t : Store) : Prop where
  kept : Owned slug orgId s → Owned slug orgId t
  accounts : ∀ email userId, s.users.get? email = some userId → t.users.get? email = some userId

/-- Whoever changes roles relies on the others for the owners. -/
def Relies (slug orgId : String) (i : ℕ) (s t : Store) : Prop :=
  Allows slug orgId s t ∧ (i = 0 → Retains orgId s t)

instance (i : ℕ) : IsPreorder Store (Relies slug orgId i) where
  refl _ := ⟨⟨fun h => h, fun _ _ h => h⟩, fun _ => .refl⟩
  trans _ _ _ hst htu := ⟨⟨fun h => htu.1.kept (hst.1.kept h),
    fun e u h => htu.1.accounts e u (hst.1.accounts e u h)⟩, fun hi => (hst.2 hi).trans (htu.2 hi)⟩

theorem Seen.owner {p : Store → Prop} (h : Seen (Relies slug orgId 0) (Owned slug orgId) p s)
    {org : Organization} (horg : s.organizations.get? orgId = some org) {userId : String}
    (hp : ∀ t, Owned slug orgId t → (t.organizations.get? orgId).isSome → p t →
      ∃ other, other ≠ userId ∧ t.memberships.get? (key orgId other) = some .owner) :
    ∃ other, other ≠ userId ∧ s.memberships.get? (key orgId other) = some .owner := by
  obtain ⟨t, howned, hts, hpt⟩ := h
  obtain ⟨old, hold, _⟩ := (hts.2 rfl).there org horg
  obtain ⟨other, hne, hother⟩ := hp t howned (by rw [hold]; rfl) hpt
  exact ⟨other, hne, (hts.2 rfl).owners (by rw [horg]; rfl) other hother⟩

/-- Whoever is demoted or removed was no owner, or not the only one. -/
theorem Seen.another {userId : String} {target : Role} {org : Organization}
    (htarget : Seen (Relies slug orgId 0) (Owned slug orgId)
      (fun t => t.memberships.get? (key orgId userId) = some target) s)
    (hcounted : target = .owner → Seen (Relies slug orgId 0) (Owned slug orgId) (fun t => 1 < t.owners orgId) s)
    (horg : s.organizations.get? orgId = some org) :
    ∃ other, other ≠ userId ∧ s.memberships.get? (key orgId other) = some .owner := by
  by_cases howner : target = .owner
  · exact (hcounted howner).owner horg fun t _ _ hcount => other_owner hcount userId
  · refine htarget.owner horg fun t howned hthere hheld => ?_
    obtain ⟨old, hold⟩ := Option.isSome_iff_exists.mp hthere
    obtain ⟨_, other, hother⟩ := howned old hold
    refine ⟨other, fun heq => howner ?_, hother⟩
    rw [heq, hheld] at hother
    exact Option.some.inj hother

theorem Write.owned {q : Request} (hw : Write toLowerCase (Relies slug orgId 0) (Owned slug orgId) q s t)
    (hcreates : ¬ q.creates orgId) (hunseats : ¬ q.unseats toLowerCase slug orgId s t)
    (hs : Owned slug orgId s) : Owned slug orgId t := by
  by_cases hdemotes : q.demotes slug
  · cases hw with
    | @roleSet _ _ _ userId _ role target ctx hacts _ _ _ htarget hcounted =>
      intro org horg
      refine ⟨(hs org horg).1, ?_⟩
      rcases ne_or_eq ctx.orgId orgId with hother | rfl
      · obtain ⟨v, hv⟩ := (hs org horg).2
        refine ⟨v, ?_⟩
        simp only [Store.setMember, get?_insert]
        rwa [if_neg fun hkey => hother (key_inj.mp hkey).1]
      rcases eq_or_ne role .owner with rfl | hrole
      · exact ⟨userId, by simp only [Store.setMember, get?_insert, if_true]⟩
      · obtain ⟨v, hne, hv⟩ := htarget.another (fun howner => hcounted ⟨howner, hrole⟩) horg
        refine ⟨v, ?_⟩
        simp only [Store.setMember, get?_insert]
        rwa [if_neg fun hkey => hne (key_inj.mp hkey).2.symm]
    | @removed _ _ _ userId target ctx hacts _ htarget hcounted =>
      intro org horg
      refine ⟨(hs org horg).1, ?_⟩
      rcases ne_or_eq ctx.orgId orgId with hother | rfl
      · obtain ⟨v, hv⟩ := (hs org horg).2
        exact ⟨v, get?_erase_eq_some.mpr ⟨fun hkey => hother (key_inj.mp hkey).1.symm, hv⟩⟩
      · obtain ⟨v, hne, hv⟩ := htarget.another hcounted horg
        exact ⟨v, get?_erase_eq_some.mpr ⟨fun hkey => hne (key_inj.mp hkey).2, hv⟩⟩
    | _ => exact absurd hdemotes id
  · exact hs.retains ⟨hw.there hcreates, hw.keepsOwners (fun _ _ h => h.1.accounts) hdemotes hunseats⟩

/-- No step takes an owner's role away, but for those of one client, and none of these by inviting the
    owner to less. -/
def Spares (toLowerCase : String → String) (slug orgId : String) (requests : List Request) (i : ℕ)
    (s t : Store) : Prop :=
  if i = 0 then ∀ q ∈ requests, ¬ q.unseats toLowerCase slug orgId s t else KeepsOwners orgId s t

/-- An organisation keeps an owner for as long as it is there, when owners are demoted and removed by one
    request after the other and none is invited to less, whatever else is asked for meanwhile. -/
theorem owner_kept (hcreates : ∀ i, ∀ q ∈ requests i, ¬ q.creates orgId)
    (h : Reaches (Spares toLowerCase slug orgId (requests 0)) ⟨s, fun i => serve toLowerCase (requests i)⟩ c)
    (hs : Owned slug orgId s) : Owned slug orgId c.store := by
  let G := fun i s t => Allows slug orgId s t ∧ (i ≠ 0 → Retains orgId s t)
  have hcompatible : Compatible (Relies slug orgId) G :=
    ⟨fun _ => inferInstance, fun hne s t hG => ⟨hG.1, fun hj => hG.2 (hj ▸ hne)⟩⟩
  have hown : ∀ i, ∀ q ∈ requests i, ∀ s t, Owned slug orgId s →
      Spares toLowerCase slug orgId (requests 0) i s t →
      Write toLowerCase (Relies slug orgId i) (Owned slug orgId) q s t →
      Owned slug orgId t ∧ (i ≠ 0 → Retains orgId s t) := by
    intro i q hq s t hs hspares hw
    unfold Spares at hspares
    split_ifs at hspares with hi
    · subst hi
      exact ⟨hw.owned (hcreates 0 q hq) (hspares q hq) hs, fun h => absurd rfl h⟩
    · have hretains : Retains orgId s t := ⟨hw.there (hcreates i q hq), hspares⟩
      exact ⟨hs.retains hretains, fun _ => hretains⟩
  refine h.keeps hcompatible (Q := fun _ _ t => Owned slug orgId t) (fun _ _ _ _ hst => hst.1.kept) (fun i => ?_)
    (fun _ _ _ hG => hG.1.kept) hs
  refine ensures_requests (fun q hq => ⟨inferInstance, fun _ _ hst => hst.1.kept, fun s t hs hspares hw => ?_⟩)
    (fun q hq s t hwrote => ?_) hs
  · exact (hown i q hq s t hs hspares hw).1
  · rcases hwrote with rfl | ⟨hs, hspares, hw⟩
    · exact ⟨⟨fun h => h, fun _ _ h => h⟩, fun _ => .refl⟩
    · obtain ⟨howned, hretains⟩ := hown i q hq s t hs hspares hw
      exact ⟨⟨fun _ => howned, fun _ _ => hw.users_grow⟩, hretains⟩

/-! ## Nobody left to rule it -/

theorem rank_lt_owner {role : Role} : role.rank < Role.owner.rank ↔ role ≠ .owner := by
  cases role <;> decide

theorem run_orgForAction {session : Option User} {user : User} {slug : String} {org : Organization}
    {role minRole : Role} {f : OrgContext → Act Unit} (huser : signedIn session = some user)
    (horg : s.bySlug slug = some (orgId, org)) (hrole : s.memberships.get? (key orgId user.id) = some role)
    (hallowed : atLeast role minRole = true) :
    (orgForAction session slug minRole >>= f).run s = (f ⟨user, orgId, org, role⟩).run s := by
  rw [run_bind, orgForAction, huser, run_given_some_bind, run_query_bind, horg, run_given_some_bind,
    run_query_bind, hrole, run_given_some_bind, run_require_bind hallowed]
  rfl

theorem run_serve (q : Request) (s : Store) :
    ((serve toLowerCase [q]).run s).2 = ((q.task toLowerCase).run s).2 := by
  change ((((q.task toLowerCase).attempt >>= fun _ => pure ()) >>= fun _ => pure () : Act Unit).run s).2 = _
  rw [run_bind, run_bind, run_attempt]
  rfl

theorem run_invite {session : Option User} {user : User} {slug email owner id : String}
    {org : Organization} {role : Role} {now : ℕ} (huser : signedIn session = some user)
    (horg : s.bySlug slug = some (orgId, org))
    (hadmin : s.memberships.get? (key orgId user.id) = some .admin)
    (howner : s.users.get? (toLowerCase email) = some owner) (hrole : role.rank ≤ Role.admin.rank) :
    (inviteAction toLowerCase session slug (some (email, role)) id now).run s =
      (.ok (), s.setMember orgId owner role) := by
  have hrow : s.organizations.get? orgId = some org := get?_eq_some.mpr (List.mem_of_find?_eq_some horg)
  rw [inviteAction, run_orgForAction huser horg hadmin (by decide), run_given_some_bind,
    run_require_bind hrole, run_query_bind, howner]
  exact run_transact (r := ((), s.setMember orgId owner role)) (by simp [hrow, always])

/-- The requests of one client, with nobody else there. -/
def alone (requests : List Request) (i : ℕ) : List Request := if i = 0 then requests else []

/-- An administrator who invites the only owner to less leaves the organisation without one for good:
    no order of requests that follow gives anyone in it that role again. -/
theorem owner_lost {session : Option User} {user : User} {slug email owner id : String}
    {org : Organization} {role : Role} {now : ℕ} (huser : signedIn session = some user)
    (horg : s.bySlug slug = some (orgId, org))
    (hadmin : s.memberships.get? (key orgId user.id) = some .admin)
    (howner : s.users.get? (toLowerCase email) = some owner) (hrole : role.rank ≤ Role.admin.rank)
    (honly : ∀ userId, s.memberships.get? (key orgId userId) = some .owner ↔ userId = owner)
    (hinvited : ∀ i inv, s.invitations.get? i = some inv → inv.orgId = orgId → inv.acceptedAt = none →
      inv.role ≠ .owner) :
    HasOwner orgId s ∧ ∃ steps, ∀ {Meets : ℕ → Store → Store → Prop} {requests : ℕ → List Request}
      {d : Config Store Refusal Unit}, (∀ i, ∀ q ∈ requests i, ¬ q.creates orgId) →
      Reaches Meets ⟨(Config.schedule ⟨s, fun i => serve toLowerCase
          (alone [.invite session slug (some (email, role)) id now] i)⟩ steps).store,
        fun i => serve toLowerCase (requests i)⟩ d → ¬ HasOwner orgId d.store := by
  refine ⟨⟨owner, (honly owner).mpr rfl⟩, ?_⟩
  obtain ⟨steps, hsteps⟩ : ∃ steps, (Config.schedule ⟨s, fun i => serve toLowerCase
      (alone [.invite session slug (some (email, role)) id now] i)⟩ steps).store =
        ((serve toLowerCase [.invite session slug (some (email, role)) id now]).run s).2 :=
    exists_schedule_run _ 0
  refine ⟨steps, fun hcreates hreach h => ?_⟩
  have hbelow : Below orgId Role.owner.rank (s.setMember orgId owner role) := by
    refine ⟨fun v held hheld => ?_, fun i inv hinv hinvorg hopen =>
      rank_lt_owner.mpr (hinvited i inv hinv hinvorg hopen)⟩
    simp only [Store.setMember, get?_insert] at hheld
    split at hheld
    · cases hheld
      exact lt_of_le_of_lt hrole (by decide)
    · refine rank_lt_owner.mpr fun hisowner => ?_
      subst hisowner
      obtain rfl := (honly v).mp hheld
      exact absurd rfl ‹_›
  rw [hsteps, run_serve, Request.task, run_invite huser horg hadmin howner hrole] at hreach
  obtain ⟨v, hv⟩ := h
  exact absurd ((below_kept hcreates hreach hbelow).members v _ hv) (lt_irrefl _)

/-! ## Two people at one venue -/

def venue (ann bob : Role) : Store where
  users := SortedMap.ofList [("ann@example.com", "ann"), ("bob@example.com", "bob")]
  organizations := SortedMap.ofList [("o1", ⟨"venue", "Venue", "venue::one", true, none⟩)]
  memberships := SortedMap.ofList [(key "o1" "ann", ann), (key "o1" "bob", bob)]
  invitations := SortedMap.empty
  customers := SortedMap.empty
  auditorGrants := SortedMap.empty
  apiKeys := SortedMap.empty

def ann : User := ⟨"ann", "ann@example.com"⟩
def bob : User := ⟨"bob", "bob@example.com"⟩

theorem Below.of_entries (hmembers : ∀ e ∈ s.memberships.entries, e.2.rank < rank)
    (hinvited : ∀ e ∈ s.invitations.entries, e.2.role.rank < rank) : Below orgId rank s where
  members _ _ h := hmembers _ (get?_eq_some.mp h)
  invited _ _ h _ _ := hinvited _ (get?_eq_some.mp h)

theorem venue_owned (role : Role) : Owned "venue" "o1" (venue .owner role) := by
  intro org horg
  have hrow : (venue .owner .owner).organizations.get? "o1" =
      some ⟨"venue", "Venue", "venue::one", true, none⟩ := by decide +kernel
  change (venue .owner .owner).organizations.get? "o1" = some org at horg
  rw [hrow] at horg
  cases horg
  exact ⟨rfl, "ann", by cases role <;> decide +kernel⟩

/-- The one asks to be an owner while the other is promoted. -/
theorem below_kept_venue : Below "o1" Role.owner.rank
    (Config.schedule ⟨venue .admin .operator, fun i => serve id
      [if i = 0 then .setRole (some ann) "venue" "ann" "OWNER"
        else .setRole (some ann) "venue" "bob" "ADMIN"]⟩ [0, 1, 0, 1, 1, 1]).store := by
  refine below_kept (fun i q hq => ?_) (reaches_schedule _ _) (.of_entries ?_ ?_)
  · rw [List.mem_singleton.mp hq]
    split <;> exact id
  · decide +kernel
  · decide +kernel

theorem KeepsOwners.of_entries
    (h : ∀ e ∈ s.memberships.entries, e.2 = .owner → t.memberships.get? e.1 = some .owner) :
    KeepsOwners orgId s t := fun _ _ hv => h _ (get?_eq_some.mp hv) rfl

def ownersAtOdds : Config Store Refusal Unit :=
  ⟨venue .owner .owner, fun i => serve id
    (if i = 0 then [.removeMember (some ann) "venue" "bob", .removeMember (some bob) "venue" "ann"]
      else [.setRole (some bob) "venue" "bob" "OWNER"])⟩

/-- One owner removes the other, to whom somebody else gives that role once more meanwhile. -/
theorem owner_kept_venue :
    Owned "venue" "o1" (ownersAtOdds.schedule [0, 1, 0, 1, 0, 1, 1, 0, 0, 0, 0, 0, 0]).store := by
  have hmeeting : Reaches (fun i (s t : Store) => i = 0 ∨ ∀ e ∈ s.memberships.entries,
      e.2 = .owner → t.memberships.get? e.1 = some .owner) ownersAtOdds
      (ownersAtOdds.schedule [0, 1, 0, 1, 0, 1, 1, 0, 0, 0, 0, 0, 0]) := reaches_meeting (by decide +kernel)
  refine owner_kept (fun i q hq => ?_) (hmeeting.imp fun i s t hmeets => ?_) (venue_owned .owner)
  · split at hq
    · rcases List.mem_pair.mp hq with rfl | rfl <;> exact id
    · rw [List.mem_singleton.mp hq]
      exact id
  · rcases eq_or_ne i 0 with rfl | hi
    · rw [Spares, if_pos rfl]
      intro q hq
      rcases List.mem_pair.mp hq with rfl | rfl <;> exact id
    · rw [Spares, if_neg hi]
      exact .of_entries (hmeets.resolve_left hi)

/-- Two owners who remove each other at once: both counts are two. -/
theorem owner_kept_fails : (Config.schedule ⟨venue .owner .owner, fun i => serve id
    [if i = 0 then .removeMember (some ann) "venue" "bob" else .removeMember (some bob) "venue" "ann"]⟩
    [0, 0, 0, 0, 1, 1, 1, 1, 0, 1]).store.memberships = SortedMap.empty := by
  decide +kernel

theorem owner_lost_venue : HasOwner "o1" (venue .owner .admin) ∧
    ∃ steps, ∀ {Meets : ℕ → Store → Store → Prop} {requests : ℕ → List Request}
      {d : Config Store Refusal Unit}, (∀ i, ∀ q ∈ requests i, ¬ q.creates "o1") →
      Reaches Meets ⟨(Config.schedule ⟨venue .owner .admin, fun i => serve id
          (alone [.invite (some bob) "venue" (some ("ann@example.com", .viewer)) "i1" 0] i)⟩ steps).store,
        fun i => serve id (requests i)⟩ d → ¬ HasOwner "o1" d.store := by
  have hslug : (venue .owner .admin).bySlug "venue" =
      some ("o1", ⟨"venue", "Venue", "venue::one", true, none⟩) := by decide +kernel
  have hmembers : (venue .owner .admin).memberships.entries =
      [(key "o1" "ann", .owner), (key "o1" "bob", .admin)] := by decide +kernel
  have huser : signedIn (some bob) = some bob := by decide +kernel
  have haccount : (venue .owner .admin).users.get? "ann@example.com" = some "ann" := by decide +kernel
  refine owner_lost huser hslug (by decide +kernel) haccount (by decide) (fun v => ?_) (fun i inv h => ?_)
  · rw [get?_eq_some, hmembers]
    simp [key_inj]
  · cases h

end AssuranceLayer.Tenancy
