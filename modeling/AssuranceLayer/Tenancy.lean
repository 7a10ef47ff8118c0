import AssuranceLayer.Interleaving
import AssuranceLayer.SortedMap

set_option autoImplicit false

/-!
The hosted console's tenancy: who may act for an organisation, and what each server action reads and
writes. A query or a transaction of the database is one step, and the requests of any number of
people interleave.
-/
namespace AssuranceLayer.Tenancy
open Interleaving Task SortedMap

/-! ## Roles -/

inductive Role where
  | viewer
  | auditor
  | operator
  | admin
  | owner
deriving DecidableEq

/-- Higher is more. -/
def Role.rank : Role → ℕ
  | viewer => 1
  | auditor => 2
  | operator => 3
  | admin => 4
  | owner => 5

/-- Every check is "at least this role". -/
def atLeast (held wanted : Role) : Bool := wanted.rank ≤ held.rank

def Role.name : Role → String
  | viewer => "VIEWER"
  | auditor => "AUDITOR"
  | operator => "OPERATOR"
  | admin => "ADMIN"
  | owner => "OWNER"

def roles : List Role := [.owner, .admin, .operator, .auditor, .viewer]

def roleOf (text : String) : Option Role := roles.find? fun role => role.name = text

/-! ## Rows -/

structure Organization where
  slug : String
  name : String
  publisherParty : String
  publicPage : Bool
  signingKeyHex : Option String
deriving DecidableEq

structure Invitation where
  orgId : String
  email : String
  role : Role
  expiresAt : ℕ
  acceptedAt : Option ℕ
deriving DecidableEq

/-- A leaf identity of the balance file, mapped to the address that may collect its proofs. -/
structure Customer where
  id : String
  email : String
  userId : Option String
deriving DecidableEq

structure AuditorGrant where
  id : String
  userId : Option String
  grantedById : Option String
deriving DecidableEq

structure ApiKey where
  orgId : String
  name : String
  hash : String
  revokedAt : Option ℕ
deriving DecidableEq

/-- A row of an organisation, by the organisation and what is unique within it. -/
abbrev Key := String ×ₗ String

def key (orgId name : String) : Key := toLex (orgId, name)

def orgOf (k : Key) : String := (ofLex k).1

@[simp] theorem orgOf_key (orgId name : String) : orgOf (key orgId name) = orgId := rfl

theorem key_inj {orgId orgId' name name' : String} :
    key orgId name = key orgId' name' ↔ orgId = orgId' ∧ name = name' := by
  rw [key, key, toLex_inj, Prod.mk.injEq]

structure Store where
  /-- Account ids by address. -/
  users : SortedMap String String
  organizations : SortedMap String Organization
  /-- By user. -/
  memberships : SortedMap Key Role
  invitations : SortedMap String Invitation
  /-- By leaf identity. -/
  customers : SortedMap Key Customer
  /-- By address. -/
  auditorGrants : SortedMap Key AuditorGrant
  apiKeys : SortedMap String ApiKey
deriving DecidableEq

structure RosterRow where
  externalId : String
  email : String

namespace Store

def bySlug (s : Store) (slug : String) : Option (String × Organization) :=
  s.organizations.entries.find? fun e => e.2.slug = slug

def byHash (s : Store) (hash : String) : Option (String × ApiKey) :=
  s.apiKeys.entries.find? fun e => e.2.hash = hash

def owners (s : Store) (orgId : String) : ℕ :=
  s.memberships.entries.countP fun e => orgOf e.1 = orgId ∧ e.2 = .owner

def setMember (s : Store) (orgId userId : String) (role : Role) : Store :=
  { s with memberships := s.memberships.insert (key orgId userId) role }

def removeMember (s : Store) (orgId userId : String) : Store :=
  { s with memberships := s.memberships.erase (key orgId userId) }

/-- The membership is created unless there is one, and the invitation is marked. -/
def accept (s : Store) (id : String) (inv row : Invitation) (userId : String) (now : ℕ) : Store :=
  let memberships := s.memberships.get? (key inv.orgId userId)
  { s with
    memberships :=
      if memberships.isSome then s.memberships else s.memberships.insert (key inv.orgId userId) inv.role
    invitations := s.invitations.insert id { row with acceptedAt := some now } }

def linkCustomers (s : Store) (email userId : String) : Store :=
  { s with customers := s.customers.mapValues fun c =>
      if c.email = email ∧ c.userId = none then { c with userId := some userId } else c }

def linkGrants (s : Store) (email userId : String) : Store :=
  { s with auditorGrants := s.auditorGrants.mapWithKey fun k g =>
      if (ofLex k).2 = email ∧ g.userId = none then { g with userId := some userId } else g }

/-- An existing row keeps its id. -/
def upsertCustomer (s : Store) (orgId externalId id email : String) (userId : Option String) : Store :=
  let row := (s.customers.get? (key orgId externalId)).getD ⟨id, email, userId⟩
  { s with customers := s.customers.insert (key orgId externalId) { row with email, userId } }

def upsertGrant (s : Store) (orgId email id : String) (userId grantedById : Option String) : Store :=
  let row := (s.auditorGrants.get? (key orgId email)).getD ⟨id, userId, grantedById⟩
  { s with auditorGrants := s.auditorGrants.insert (key orgId email) { row with userId } }

/-- The rows of a roster file, one after the other. -/
def importRows (s : Store) (orgId : String) (ids : String → String) (accounts : SortedMap String String)
    (rows : List RosterRow) : Store :=
  rows.foldl (fun s r =>
    s.upsertCustomer orgId r.externalId (ids r.externalId) r.email (accounts.get? r.email)) s

/-- Everything under an organisation goes with it. -/
def deleteOrg (s : Store) (orgId : String) : Store :=
  { s with
    organizations := s.organizations.erase orgId
    memberships := s.memberships.filter fun k _ => orgOf k ≠ orgId
    invitations := s.invitations.filter fun _ inv => inv.orgId ≠ orgId
    customers := s.customers.filter fun k _ => orgOf k ≠ orgId
    auditorGrants := s.auditorGrants.filter fun k _ => orgOf k ≠ orgId
    apiKeys := s.apiKeys.filter fun _ row => row.orgId ≠ orgId }

def setOrganization (s : Store) (orgId : String) (row : Organization) : Store :=
  { s with organizations := s.organizations.insert orgId row }

theorem accept_memberships (s : Store) (id : String) (inv row : Invitation) (userId : String) (now : ℕ)
    (k : Key) : (s.accept id inv row userId now).memberships.get? k =
      (s.memberships.get? k).or (if key inv.orgId userId = k then some inv.role else none) := by
  simp only [accept]
  by_cases hk : key inv.orgId userId = k
  · subst hk
    cases hheld : s.memberships.get? (key inv.orgId userId) <;> simp [hheld]
  · split <;> simp [hk]

/-- Importing touches the customers only. -/
theorem importRows_eq (s : Store) (orgId : String) (ids : String → String)
    (accounts : SortedMap String String) (rows : List RosterRow) :
    s.importRows orgId ids accounts rows =
      { s with customers := (s.importRows orgId ids accounts rows).customers } := by
  induction rows generalizing s with
  | nil => rfl
  | cons r rows ih => exact ih _

end Store

/-! ## Actions -/

inductive Refusal where
  /-- An error text of the source. -/
  | because (error : String)
  /-- What the form's schema says. -/
  | invalid
  /-- A row that a query needs is gone, or a unique column is taken. -/
  | database
deriving DecidableEq

abbrev Act (α : Type) := Task Store Refusal α

structure User where
  id : String
  email : String
deriving DecidableEq

structure OrgContext where
  user : User
  orgId : String
  org : Organization
  role : Role

def signedIn (session : Option User) : Option User := session.filter fun u => u.id ≠ "" ∧ u.email ≠ ""

/-- The organisation at the slug, with the caller's role in it. -/
def orgForAction (session : Option User) (slug : String) (minRole : Role) : Act OrgContext := do
  let user ← given (signedIn session) (.because "not signed in")
  let found ← query fun s => s.bySlug slug
  let org ← given found (.because "no such organisation")
  let membership ← query fun s => s.memberships.get? (key org.1 user.id)
  let role ← given membership (.because "insufficient role")
  require (atLeast role minRole) (.because "insufficient role")
  return ⟨user, org.1, org.2, role⟩

/-- A write to the rows of an organisation, which must still be there; ids are unique. -/
def within (orgId : String) (admits : Store → Bool) (write : Store → Store) : Act Unit :=
  transact fun s =>
    if (s.organizations.get? orgId).isSome ∧ admits s then .ok ((), write s) else .error .database

def always (_ : Store) : Bool := true

/-- A write to a row that must still be there. -/
def onRow {ρ : Type} (row : Store → Option ρ) (write : Store → ρ → Store) : Act Unit :=
  transact fun s =>
    match row s with
    | some r => .ok ((), write s r)
    | none => .error .database

def twoWeeks : ℕ := 14 * 24 * 3600 * 1000

variable (toLowerCase : String → String)

def inviteAction (session : Option User) (slug : String) (raw : Option (String × Role)) (id : String)
    (now : ℕ) : Act Unit := do
  let ctx ← orgForAction session slug .admin
  let parsed ← given raw .invalid
  let email := toLowerCase parsed.1
  require (parsed.2.rank ≤ ctx.role.rank) (.because "cannot grant a role above your own")
  let user ← query fun s => s.users.get? email
  match user with
  | some userId => within ctx.orgId always fun s => s.setMember ctx.orgId userId parsed.2
  | none => within ctx.orgId (fun s => s.invitations.get? id = none) fun s =>
      { s with invitations := s.invitations.insert id ⟨ctx.orgId, email, parsed.2, now + twoWeeks, none⟩ }

/-- Whoever takes an owner's role away counts the owners first. -/
def keepsAnOwner (orgId : String) (demotes : Bool) : Act Unit :=
  if demotes then do
    let owners ← query fun s => s.owners orgId
    require (1 < owners) (.because "an organisation keeps at least one owner")
  else pure ()

def setRoleAction (session : Option User) (slug userId roleRaw : String) : Act Unit := do
  let ctx ← orgForAction session slug .admin
  let role ← given (roleOf roleRaw) (.because "unknown role")
  require (role.rank ≤ ctx.role.rank) (.because "cannot grant a role above your own")
  let membership ← query fun s => s.memberships.get? (key ctx.orgId userId)
  let target ← given membership (.because "not a member")
  require (atLeast ctx.role target) (.because "cannot change a member above your own role")
  keepsAnOwner ctx.orgId (target = .owner ∧ role ≠ .owner)
  onRow (fun s => s.memberships.get? (key ctx.orgId userId)) fun s _ => s.setMember ctx.orgId userId role

def removeMemberAction (session : Option User) (slug userId : String) : Act Unit := do
  let ctx ← orgForAction session slug .admin
  let membership ← query fun s => s.memberships.get? (key ctx.orgId userId)
  let target ← given membership (.because "not a member")
  require (atLeast ctx.role target) (.because "cannot remove a member above your own role")
  keepsAnOwner ctx.orgId (target = .owner)
  onRow (fun s => s.memberships.get? (key ctx.orgId userId)) fun s _ => s.removeMember ctx.orgId userId

def revokeInvitationAction (session : Option User) (slug id : String) : Act Unit := do
  let ctx ← orgForAction session slug .admin
  let found ← query fun s => (s.invitations.get? id).filter fun inv => inv.orgId = ctx.orgId
  let _ ← given found (.because "not found")
  onRow (fun s => s.invitations.get? id) fun s _ => { s with invitations := s.invitations.erase id }

/-- On every visit: pending invitations for the address become memberships, and rows that carry the
    address are linked to the account. -/
def acceptPendingInvitations (user : User) (now : ℕ) : Act Unit := do
  let email := toLowerCase user.email
  let pending ← query fun s => s.invitations.entries.filter fun e =>
    e.2.email = email ∧ e.2.acceptedAt = none ∧ now < e.2.expiresAt
  each (fun e => onRow (fun s => s.invitations.get? e.1) fun s row => s.accept e.1 e.2 row user.id now) pending
  modify fun s => s.linkCustomers email user.id
  modify fun s => s.linkGrants email user.id

structure General where
  name : String
  publisherParty : String
  publicPage : Bool

def updateGeneralAction (session : Option User) (slug : String) (raw : Option General) : Act Unit := do
  let ctx ← orgForAction session slug .admin
  let parsed ← given raw .invalid
  onRow (fun s => s.organizations.get? ctx.orgId) fun s row => s.setOrganization ctx.orgId
    { row with name := parsed.name, publisherParty := parsed.publisherParty, publicPage := parsed.publicPage }

def grantAuditorAction (session : Option User) (slug : String) (raw : Option String) (id : String) :
    Act Unit := do
  let ctx ← orgForAction session slug .admin
  let parsed ← given raw .invalid
  let email := toLowerCase parsed
  let user ← query fun s => s.users.get? email
  within ctx.orgId always fun s => s.upsertGrant ctx.orgId email id user (some ctx.user.id)

def revokeAuditorAction (session : Option User) (slug id : String) : Act Unit := do
  let ctx ← orgForAction session slug .admin
  let found ← query fun s => s.auditorGrants.entries.find? fun e => e.2.id = id ∧ orgOf e.1 = ctx.orgId
  let row ← given found (.because "not found")
  onRow (fun s => (s.auditorGrants.get? row.1).filter fun r => r.id = id) fun s _ =>
    { s with auditorGrants := s.auditorGrants.erase row.1 }

def deleteOrgAction (session : Option User) (slug confirmSlug : String) : Act Unit := do
  let ctx ← orgForAction session slug .owner
  require (confirmSlug = slug) (.because "type the slug to confirm")
  onRow (fun s => s.organizations.get? ctx.orgId) fun s _ => s.deleteOrg ctx.orgId

/-- The accounts of the addresses in a roster. -/
def byEmail (s : Store) (rows : List RosterRow) : SortedMap String String :=
  ofList ((s.users.entries.filter fun e => e.1 ∈ rows.map RosterRow.email).map fun e =>
    (toLowerCase e.1, e.2))

/-- Rows and errors of a roster file that has been read. -/
def importRosterAction (session : Option User) (slug : String) (rows : List RosterRow)
    (errors : List String) (ids : String → String) : Act Unit := do
  let ctx ← orgForAction session slug .operator
  require (rows ≠ []) (.because (errors.head?.getD "no rows"))
  let accounts ← query fun s => byEmail toLowerCase s rows
  within ctx.orgId always fun s => s.importRows ctx.orgId ids accounts rows

def addCustomerAction (session : Option User) (slug : String) (raw : Option RosterRow) (id : String) :
    Act Unit := do
  let ctx ← orgForAction session slug .operator
  let parsed ← given raw .invalid
  let email := toLowerCase parsed.email
  let user ← query fun s => s.users.get? email
  within ctx.orgId always fun s => s.upsertCustomer ctx.orgId parsed.externalId id email user

def removeCustomerAction (session : Option User) (slug id : String) : Act Unit := do
  let ctx ← orgForAction session slug .operator
  let found ← query fun s => s.customers.entries.find? fun e => e.2.id = id ∧ orgOf e.1 = ctx.orgId
  let row ← given found (.because "not found")
  onRow (fun s => (s.customers.get? row.1).filter fun r => r.id = id) fun s _ =>
    { s with customers := s.customers.erase row.1 }

def createApiKeyAction (session : Option User) (slug : String) (name : Option String) (id hash : String) :
    Act Unit := do
  let ctx ← orgForAction session slug .admin
  let name ← given name .invalid
  within ctx.orgId (fun s => s.apiKeys.get? id = none ∧ s.byHash hash = none) fun s =>
    { s with apiKeys := s.apiKeys.insert id ⟨ctx.orgId, name, hash, none⟩ }

def revokeApiKeyAction (session : Option User) (slug id : String) (now : ℕ) : Act Unit := do
  let ctx ← orgForAction session slug .admin
  let found ← query fun s => (s.apiKeys.get? id).filter fun row => row.orgId = ctx.orgId
  let _ ← given found (.because "not found")
  onRow (fun s => s.apiKeys.get? id) fun s row =>
    { s with apiKeys := s.apiKeys.insert id { row with revokedAt := some now } }

structure NewOrg where
  name : String
  slug : String
  publisherParty : String

/-- Creates the organisation with its creator as owner, and asks the signing service for its key. -/
def createOrg (session : Option User) (form : Option NewOrg) (id : String) (publicKey : Option String) :
    Act Unit := do
  let user ← given (signedIn session) (.because "not signed in")
  let parsed ← given form .invalid
  let taken ← query fun s => s.bySlug parsed.slug
  require (taken = none) (.because "slug")
  transact fun s =>
    if s.organizations.get? id = none ∧ s.bySlug parsed.slug = none then
      .ok ((), (s.setOrganization id ⟨parsed.slug, parsed.name, parsed.publisherParty, false, none⟩).setMember
        id user.id .owner)
    else .error .database
  match publicKey with
  | some key => onRow (fun s => s.organizations.get? id) fun s row =>
      s.setOrganization id { row with signingKeyHex := some key }
  | none => pure ()

/-- The sign-in adapter stores an account for a new address. -/
def signUp (email id : String) : Act Unit :=
  modify fun s => if s.users.get? email = none then { s with users := s.users.insert email id } else s

end AssuranceLayer.Tenancy
