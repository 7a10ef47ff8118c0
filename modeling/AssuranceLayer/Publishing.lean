import AssuranceLayer.Extension
import AssuranceLayer.Utf16

set_option autoImplicit false

/-!
Concurrent publications of one organisation. A run reads the latest publication, checks that it
moves forward, has its report signed and stores everything in one transaction; the steps of any
number of runs interleave. Documents are kept as what their stored text reads as.
-/
namespace AssuranceLayer.Publishing
open Fallible Document Digest Sign Anchoring Conservation Extension Service

/-! ## Strings as the web tier compares them -/

def utf16 (s : String) : List ℕ := Utf16.unitValues (Utf16.ofString s)

/-- `padStart` with zeros. -/
def padStart (width : ℕ) (s : String) : String :=
  String.ofList (List.replicate (width - (utf16 s).length) '0' ++ s.toList)

def Bmp (s : String) : Prop := ∀ c ∈ s.toList, c.toNat < 0x10000

instance (s : String) : Decidable (Bmp s) := inferInstanceAs (Decidable (∀ c ∈ _, _))

theorem utf16_of_bmp {s : String} (h : Bmp s) : utf16 s = s.toList.map Char.toNat := by
  have hunits : ∀ cs : List Char, (∀ c ∈ cs, c.toNat < 0x10000) →
      Utf16.unitValues (cs.flatMap Utf16.charUnits) = cs.map Char.toNat := by
    intro cs hcs
    induction cs with
    | nil => rfl
    | cons c cs ih =>
      obtain ⟨hc, hrest⟩ := List.forall_mem_cons.mp hcs
      rw [List.flatMap_cons, Utf16.charUnits_of_lt hc, List.singleton_append, Utf16.unitValues, List.map_cons,
        Utf16.unit_toNat hc, ← Utf16.unitValues, ih hrest, List.map_cons]
  exact hunits _ h

theorem map_toNat_lt_iff {s t : List Char} : s.map Char.toNat < t.map Char.toNat ↔ s < t := by
  induction s generalizing t with
  | nil =>
    cases t with
    | nil => simp
    | cons d t => exact iff_of_true (List.nil_lt_cons _ _) (List.nil_lt_cons _ _)
  | cons c s ih =>
    cases t with
    | nil => exact iff_of_false (List.not_lt_nil _) (List.not_lt_nil _)
    | cons d t =>
      rw [List.map_cons, List.map_cons, List.cons_lt_cons_iff, List.cons_lt_cons_iff, ih]
      have hlt : c.toNat < d.toNat ↔ c < d := Iff.rfl
      have heq : c.toNat = d.toNat ↔ c = d := ⟨fun h => Char.ext (UInt32.toNat_inj.mp h), fun h => h ▸ rfl⟩
      rw [hlt, heq]

theorem utf16_lt_iff {s t : String} (hs : Bmp s) (ht : Bmp t) : utf16 s < utf16 t ↔ s < t := by
  rw [utf16_of_bmp hs, utf16_of_bmp ht, map_toNat_lt_iff, String.lt_iff_toList_lt]

theorem padStart_bmp {width : ℕ} {s : String} (h : Bmp s) : Bmp (padStart width s) := by
  intro c hc
  rw [padStart, String.toList_ofList, List.mem_append] at hc
  rcases hc with hc | hc
  · rw [List.eq_of_mem_replicate hc]
    decide
  · exact h c hc

/-! ## Runs -/

structure PublishInput where
  snapshotTime : String
  ledgerOffset : String
  leaves : List LeafIn
  markPrices : SortedMap String String
  disclosures : DisclosuresIn
  manifest : Option Manifest
deriving DecidableEq

/-- What both callers check of an input before it is passed on: an ISO time, and an offset of
    digits. -/
structure Validated (input : PublishInput) : Prop where
  snapshotTime : input.snapshotTime.toList.all (·.toNat < 128) = true
  ledgerOffset : input.ledgerOffset.toList.all isAsciiDigit = true

structure StoredPublication where
  id : String
  snapshotTime : String
  ledgerOffset : String
  reportDigest : String
  anchor : Anchor
  previousId : Option String
deriving DecidableEq

inductive Phase where
  | started
  | read (previous : Option StoredPublication)
  | checked (previous : Option StoredPublication)
  | signed (previous : Option StoredPublication) (delivery : Delivery)
  | stored
  | failed
deriving DecidableEq

structure State where
  rows : List StoredPublication
  phase : ℕ → Phase

def State.enter (s : State) (i : ℕ) (phase : Phase) : State :=
  { s with phase := Function.update s.phase i phase }

inductive Action where
  | read (i : ℕ)
  | check (i : ℕ)
  | sign (i : ℕ) (masterSalt : Bytes 32)
  | store (i : ℕ) (id : String)
  /-- A failure of the service, the database or the process. -/
  | abort (i : ℕ)

/-- What each run was called with. The settings can name another party from one run to the next. -/
structure Setting where
  publisherParty : ℕ → String
  signingKeyHex : ℕ → Option String
  inputs : ℕ → PublishInput

def storedOffset (input : PublishInput) : String := padStart 18 input.ledgerOffset

/-- The checks before the signing service is asked. -/
def mayFollow (input : PublishInput) : Option StoredPublication → Bool
  | none => true
  | some previous => ¬ utf16 input.snapshotTime ≤ utf16 previous.snapshotTime ∧
      ¬ utf16 (storedOffset input) < utf16 previous.ledgerOffset

def requestOf (publisherParty : String) (input : PublishInput) (previous : Option StoredPublication) :
    PublishRequest where
  publisher := publisherParty
  profile := liabilitiesProfile
  snapshotTime := input.snapshotTime
  ledgerOffset := storedOffset input
  leaves := input.leaves
  markPrices := input.markPrices
  disclosures := input.disclosures
  manifest := input.manifest
  previousAnchor := previous.map StoredPublication.anchor

/-- A recorded signing key must be the one the report was signed with. -/
def sameSigningKey (recorded : Option String) (returned : String) : Bool :=
  match recorded with
  | none => true
  | some key => key = "" ∨ key = returned

variable (sha256 : List UInt8 → Digest) (ed : Ed25519) (print : Json → String) (signer : ReportSigner)
  (setting : Setting)

def storedRow (id : String) (input : PublishInput) (previous : Option StoredPublication)
    (d : Delivery) : StoredPublication where
  id := id
  snapshotTime := input.snapshotTime
  ledgerOffset := storedOffset input
  reportDigest := reportDigestHex sha256 d.signed.report
  anchor := d.anchor
  previousId := previous.map StoredPublication.id

/-- The unique columns: the key, the report digest, and the predecessor unless it is null. -/
def admits (rows : List StoredPublication) (row : StoredPublication) : Bool :=
  rows.all fun r => r.id ≠ row.id ∧ r.reportDigest ≠ row.reportDigest ∧
    (row.previousId = none ∨ r.previousId ≠ row.previousId)

def step (s : State) : Action → Option State
  | .read i =>
    match s.phase i with
    | .started => some (s.enter i (.read s.rows.getLast?))
    | _ => none
  | .check i =>
    match s.phase i with
    | .read previous =>
      some (s.enter i (if mayFollow (setting.inputs i) previous then .checked previous else .failed))
    | _ => none
  | .sign i masterSalt =>
    match s.phase i with
    | .checked previous =>
      match deliver sha256 ed print (requestOf (setting.publisherParty i) (setting.inputs i) previous)
          masterSalt signer with
      | .ok d =>
        if sameSigningKey (setting.signingKeyHex i) (signer.publicKeyHex ed) then
          some (s.enter i (.signed previous d.1))
        else some (s.enter i .failed)
      | .error _ => some (s.enter i .failed)
    | _ => none
  | .store i id =>
    match s.phase i with
    | .signed previous d =>
      let row := storedRow sha256 id (setting.inputs i) previous d
      if admits s.rows row then some { s.enter i .stored with rows := s.rows ++ [row] }
      else some (s.enter i .failed)
    | _ => none
  | .abort i =>
    match s.phase i with
    | .stored => none
    | _ => some (s.enter i .failed)

def initial : State := ⟨[], fun _ => .started⟩

/-- The documents of a run about to store its publication, with the predecessor it has read. -/
def Phase.ready : Phase → Option (Option StoredPublication × Delivery)
  | .signed previous d => some (previous, d)
  | _ => none

/-- Who has found no publication is still the first, and who has found one is of its publisher. -/
def Succeeds (rows : List StoredPublication) (publisherParty : String) : Option StoredPublication → Prop
  | none => rows = []
  | some previous => previous.anchor.publisher = publisherParty

instance (rows : List StoredPublication) (publisherParty : String) (previous : Option StoredPublication) :
    Decidable (Succeeds rows publisherParty previous) :=
  match previous with
  | none => inferInstanceAs (Decidable (rows = []))
  | some _ => inferInstanceAs (Decidable (_ = publisherParty))

/-- A run stores its publication only as the first of all or after one of the same publisher, or has it
    refused. -/
def InLine (s : State) : Action → Prop
  | .store i id => ∀ r ∈ (s.phase i).ready, Succeeds s.rows (setting.publisherParty i) r.1 ∨
      admits s.rows (storedRow sha256 id (setting.inputs i) r.1 r.2) = false
  | _ => True

instance (s : State) (a : Action) : Decidable (InLine sha256 setting s a) :=
  match a with
  | .store _ _ => inferInstanceAs (Decidable (∀ r ∈ Phase.ready _, _))
  | .read _ | .check _ | .sign _ _ | .abort _ => isTrue trivial

/-- The states that steps meeting the condition lead to. -/
inductive Reachable (Meets : State → Action → Prop) : State → Prop where
  | initial : Reachable Meets initial
  | step {s s' : State} {a : Action} : Reachable Meets s → Meets s a →
      Publishing.step sha256 ed print signer setting s a = some s' → Reachable Meets s'

def takeAll (Meets : State → Action → Prop) [∀ s a, Decidable (Meets s a)] (s : State) :
    List Action → Option State
  | [] => some s
  | a :: actions =>
    if Meets s a then (step sha256 ed print signer setting s a).bind (takeAll Meets · actions) else none

/-- One linear chain: a single publication without predecessor, every other one naming a stored
    predecessor of its own, and an order along these names in which the anchors are accepted. -/
structure OneChain (rows : List StoredPublication) : Prop where
  first : rows ≠ [] → ∃! row, row ∈ rows ∧ row.previousId = none
  predecessor : ∀ row ∈ rows, ∀ id, row.previousId = some id → ∃ p ∈ rows, p.id = id
  distinct : rows.Pairwise fun a b => a.previousId ≠ b.previousId
  order : ∃ ordered : List StoredPublication, ordered.Perm rows ∧
    ordered.IsChain (fun previous row => row.previousId = some previous.id) ∧
    verifyChain sha256 (ordered.map StoredPublication.anchor) = .ok ()

variable {sha256 ed print signer setting}

/-! ## Rows that name one another -/

def Follows (previous row : StoredPublication) : Prop := row.previousId = some previous.id

theorem tail_previousIds {rows : List StoredPublication} (h : rows.IsChain Follows) :
    rows.tail.map StoredPublication.previousId = rows.dropLast.map fun r => some r.id := by
  induction rows with
  | nil => rfl
  | cons a rows ih =>
    cases rows with
    | nil => rfl
    | cons b rows =>
      obtain ⟨hab, hrest⟩ := List.isChain_cons_cons.mp h
      have hab : b.previousId = some a.id := hab
      rw [List.tail_cons, List.map_cons, hab, List.dropLast_cons_cons, List.map_cons, ← ih hrest]
      rfl

theorem previousIds_eq {row : StoredPublication} {rows : List StoredPublication}
    (hfirst : row.previousId = none) (h : (row :: rows).IsChain Follows) :
    (row :: rows).map StoredPublication.previousId =
      none :: (row :: rows).dropLast.map fun r => some r.id := by
  rw [← tail_previousIds h, List.map_cons, hfirst, List.tail_cons]

theorem last_of_unclaimed {rows : List StoredPublication} {p : StoredPublication}
    (h : rows.IsChain Follows) (hp : p ∈ rows) (hfree : ∀ r ∈ rows, r.previousId ≠ some p.id) :
    rows.getLast? = some p := by
  induction rows with
  | nil => simp at hp
  | cons a rows ih =>
    cases rows with
    | nil => rw [List.mem_singleton.mp hp]; rfl
    | cons b rows =>
      obtain ⟨hab, hrest⟩ := List.isChain_cons_cons.mp h
      rw [List.getLast?_cons_cons]
      rcases List.mem_cons.mp hp with rfl | hp
      · exact absurd hab (hfree b (List.mem_cons_of_mem _ List.mem_cons_self))
      · exact ih hrest hp fun r hr => hfree r (List.mem_cons_of_mem _ hr)

/-- Rows that form one chain as they were stored. -/
structure Linear (sha256 : List UInt8 → Digest) (rows : List StoredPublication) : Prop where
  genesis : ∀ r ∈ rows.head?, r.previousId = none
  links : rows.IsChain Follows
  ids : (rows.map StoredPublication.id).Nodup
  accepted : verifyChain sha256 (rows.map StoredPublication.anchor) = .ok ()

theorem Linear.nil : Linear sha256 [] := ⟨by simp, List.isChain_nil, List.nodup_nil, rfl⟩

theorem Linear.singleton {row : StoredPublication} (hprevious : row.previousId = none)
    (hanchor : row.anchor.prevAnchor = none) (hversion : row.anchor.formatVersion = anchorFormatVersion) :
    Linear sha256 [row] := by
  refine ⟨by simpa using hprevious, List.isChain_singleton _, List.nodup_singleton _, ?_⟩
  exact verifyChain_eq_ok.mpr ⟨by simpa using hversion, by simpa using hanchor, List.isChain_singleton _⟩

theorem Linear.concat {rows : List StoredPublication} {p row : StoredPublication}
    (h : Linear sha256 rows) (hlast : rows.getLast? = some p) (hfollows : Follows p row)
    (hid : ∀ r ∈ rows, r.id ≠ row.id) (hversion : row.anchor.formatVersion = anchorFormatVersion)
    (hprecedes : Precedes sha256 p.anchor row.anchor) : Linear sha256 (rows ++ [row]) := by
  constructor
  · cases rows with
    | nil => simp at hlast
    | cons first rest => exact h.genesis
  · rw [List.isChain_append, hlast]
    refine ⟨h.links, List.isChain_singleton _, ?_⟩
    rintro _ ⟨⟩ _ ⟨⟩
    exact hfollows
  · rw [List.map_append, List.nodup_append]
    refine ⟨h.ids, List.nodup_singleton _, fun x hx y hy => ?_⟩
    obtain ⟨r, hr, rfl⟩ := List.mem_map.mp hx
    rw [List.mem_singleton.mp hy]
    exact hid r hr
  · have hlast : (rows.map StoredPublication.anchor).getLast? = some p.anchor := by
      rw [List.getLast?_map, hlast, Option.map_some]
    rw [List.map_append, List.map_singleton, verifyChain_concat h.accepted hlast]
    exact ⟨hversion, hprecedes⟩

theorem Linear.oneChain {rows : List StoredPublication} (h : Linear sha256 rows) :
    OneChain sha256 rows := by
  obtain ⟨hgenesis, hlinks, hids, haccepted⟩ := h
  cases rows with
  | nil =>
    exact ⟨fun h => absurd rfl h, by simp, List.Pairwise.nil, [], List.Perm.refl _, List.isChain_nil,
      haccepted⟩
  | cons row rows =>
    have hfirst := hgenesis row rfl
    have hprevious := previousIds_eq hfirst hlinks
    have htail := tail_previousIds hlinks
    have hnodup : ((row :: rows).map StoredPublication.previousId).Nodup := by
      rw [hprevious, List.nodup_cons]
      refine ⟨fun hmem => ?_, ?_⟩
      · obtain ⟨r, _, hr⟩ := List.mem_map.mp hmem
        exact absurd hr (by simp)
      have hsub : ((row :: rows).dropLast.map StoredPublication.id).Nodup :=
        hids.sublist ((List.dropLast_sublist _).map _)
      have hsome := hsub.map (Option.some_injective String)
      rwa [List.map_map] at hsome
    refine ⟨fun _ => ⟨row, ⟨List.mem_cons_self, hfirst⟩, ?_⟩, ?_, List.pairwise_map.mp hnodup,
      row :: rows, List.Perm.refl _, hlinks, haccepted⟩
    · rintro r ⟨hr, hnone⟩
      rcases List.mem_cons.mp hr with rfl | hr
      · rfl
      · have hmem : r.previousId ∈ (row :: rows).tail.map StoredPublication.previousId :=
          List.mem_map_of_mem hr
        rw [htail, hnone] at hmem
        obtain ⟨q, _, hq⟩ := List.mem_map.mp hmem
        exact absurd hq (by simp)
    · intro r hr id hid
      have hmem : r.previousId ∈ (row :: rows).map StoredPublication.previousId :=
        List.mem_map_of_mem hr
      rw [hprevious, hid, List.mem_cons] at hmem
      obtain ⟨q, hq, heq⟩ := List.mem_map.mp (hmem.resolve_left (by simp))
      exact ⟨q, List.dropLast_subset _ hq, Option.some.inj heq⟩

/-! ## What the runs keep -/

/-- What holds of a run that has come this far, with these rows stored. -/
def Consistent (sha256 : List UInt8 → Digest) (party : String) (rows : List StoredPublication)
    (input : PublishInput) : Phase → Prop
  | .read previous => ∀ p ∈ previous, p ∈ rows
  | .checked previous => (∀ p ∈ previous, p ∈ rows) ∧ mayFollow input previous = true
  | .signed previous d => (∀ p ∈ previous, p ∈ rows) ∧ mayFollow input previous = true ∧
      d.anchor = anchorReport sha256 d.signed (previous.map StoredPublication.anchor) ∧
      d.signed.report.publisher = party ∧ d.signed.report.snapshotTime = input.snapshotTime ∧
      d.signed.report.ledgerOffset = storedOffset input
  | _ => True

theorem Consistent.mono {party : String} {rows more : List StoredPublication} {input : PublishInput}
    {phase : Phase} (h : Consistent sha256 party rows input phase) :
    Consistent sha256 party (rows ++ more) input phase := by
  cases phase with
  | read previous => exact fun p hp => List.mem_append_left _ (h p hp)
  | checked previous => exact ⟨fun p hp => List.mem_append_left _ (h.1 p hp), h.2⟩
  | signed previous d => exact ⟨fun p hp => List.mem_append_left _ (h.1 p hp), h.2⟩
  | _ => trivial

/-- A step takes one run further, or appends the row of a signed run whose columns are unique. -/
theorem step_cases {s s' : State} {a : Action} (h : step sha256 ed print signer setting s a = some s') :
    (∃ i phase, s' = s.enter i phase ∧
      (Consistent sha256 (setting.publisherParty i) s.rows (setting.inputs i) (s.phase i) →
        Consistent sha256 (setting.publisherParty i) s.rows (setting.inputs i) phase)) ∨
    ∃ i id previous d, a = .store i id ∧ s.phase i = .signed previous d ∧
      admits s.rows (storedRow sha256 id (setting.inputs i) previous d) = true ∧
      s' = { s.enter i .stored with
        rows := s.rows ++ [storedRow sha256 id (setting.inputs i) previous d] } := by
  cases a with
  | read i =>
    simp only [step] at h
    split at h
    · exact .inl ⟨i, _, (Option.some.inj h).symm, fun _ _ hp => List.mem_of_getLast? hp⟩
    · cases h
  | check i =>
    simp only [step] at h
    split at h
    · rename_i previous hphase
      refine .inl ⟨i, _, (Option.some.inj h).symm, fun hread => ?_⟩
      rw [hphase] at hread
      split
      · exact ⟨hread, ‹_›⟩
      · trivial
    · cases h
  | sign i masterSalt =>
    simp only [step] at h
    split at h
    · rename_i previous hphase
      split at h
      · rename_i d hdeliver
        obtain ⟨hanchor, hpublisher, htime, hoffset⟩ := deliver_states hdeliver
        split at h
        · refine .inl ⟨i, _, (Option.some.inj h).symm, fun hchecked => ?_⟩
          rw [hphase] at hchecked
          exact ⟨hchecked.1, hchecked.2, hanchor, hpublisher, htime, hoffset⟩
        · exact .inl ⟨i, _, (Option.some.inj h).symm, fun _ => trivial⟩
      · exact .inl ⟨i, _, (Option.some.inj h).symm, fun _ => trivial⟩
    · cases h
  | store i id =>
    simp only [step] at h
    split at h
    · rename_i previous d hphase
      split at h
      · exact .inr ⟨i, id, previous, d, rfl, hphase, ‹_›, (Option.some.inj h).symm⟩
      · exact .inl ⟨i, _, (Option.some.inj h).symm, fun _ => trivial⟩
    · cases h
  | abort i =>
    simp only [step] at h
    split at h
    · cases h
    · exact .inl ⟨i, _, (Option.some.inj h).symm, fun _ => trivial⟩

/-- A stored row repeats what its anchor states, in texts without surrogates. -/
structure Stated (party : String) (row : StoredPublication) : Prop where
  version : row.anchor.formatVersion = anchorFormatVersion
  publisher : row.anchor.publisher = party
  snapshotTime : row.anchor.snapshotTime = row.snapshotTime
  ledgerOffset : row.anchor.ledgerOffset = row.ledgerOffset
  plainTime : Bmp row.snapshotTime
  plainOffset : Bmp row.ledgerOffset

theorem Stated.self {party : String} {row : StoredPublication} (h : Stated party row) :
    Stated row.anchor.publisher row := by
  rw [h.publisher]
  exact h

structure Inv (sha256 : List UInt8 → Digest) (setting : Setting) (s : State) : Prop where
  linear : Linear sha256 s.rows
  stated : ∀ r ∈ s.rows, Stated r.anchor.publisher r
  runs : ∀ i, Consistent sha256 (setting.publisherParty i) s.rows (setting.inputs i) (s.phase i)

theorem inv_initial : Inv sha256 setting initial :=
  ⟨Linear.nil, fun _ hr => absurd hr (List.not_mem_nil), fun _ => trivial⟩

theorem Validated.plainTime {input : PublishInput} (h : Validated input) : Bmp input.snapshotTime :=
  fun c hc => (of_decide_eq_true (List.all_eq_true.mp h.snapshotTime c hc)).trans (by decide)

theorem Validated.plainOffset {input : PublishInput} (h : Validated input) : Bmp (storedOffset input) :=
  padStart_bmp fun c hc => by
    have hdigit := List.all_eq_true.mp h.ledgerOffset c hc
    have hle : c.toNat ≤ '9'.toNat := (of_decide_eq_true hdigit).2
    exact hle.trans_lt (by decide)

theorem runs_enter {rows : List StoredPublication} {phases : ℕ → Phase} {i : ℕ} {phase : Phase}
    (h : ∀ j, Consistent sha256 (setting.publisherParty j) rows (setting.inputs j) (phases j))
    (hi : Consistent sha256 (setting.publisherParty i) rows (setting.inputs i) phase) (j : ℕ) :
    Consistent sha256 (setting.publisherParty j) rows (setting.inputs j)
      (Function.update phases i phase j) := by
  rcases eq_or_ne j i with rfl | hne
  · rwa [Function.update_self]
  · rw [Function.update_of_ne hne]
    exact h j

theorem movesForward_of_mayFollow {party : String} {input : PublishInput} {p : StoredPublication}
    (hinput : Validated input) (hp : Stated party p) (h : mayFollow input (some p) = true) :
    MovesForward p.anchor party input.snapshotTime (storedOffset input) := by
  obtain ⟨htime, hoffset⟩ := of_decide_eq_true h
  refine ⟨hp.publisher.symm, ?_, ?_⟩
  · rw [hp.snapshotTime, ← utf16_lt_iff hp.plainTime hinput.plainTime]
    exact not_le.mp htime
  · rw [hp.ledgerOffset, ← not_lt, ← utf16_lt_iff hinput.plainOffset hp.plainOffset]
    exact hoffset

theorem storedRow_stated {party : String} {input : PublishInput} {previous : Option StoredPublication}
    {d : Delivery} {rows : List StoredPublication} (id : String) (hinput : Validated input)
    (h : Consistent sha256 party rows input (.signed previous d)) :
    Stated party (storedRow sha256 id input previous d) := by
  obtain ⟨_, _, hanchor, hpublisher, htime, hoffset⟩ := h
  exact ⟨congrArg Anchor.formatVersion hanchor, (congrArg Anchor.publisher hanchor).trans hpublisher,
    (congrArg Anchor.snapshotTime hanchor).trans htime,
    (congrArg Anchor.ledgerOffset hanchor).trans hoffset, hinput.plainTime, hinput.plainOffset⟩

theorem inv_step {s s' : State} {a : Action} (hinv : Inv sha256 setting s)
    (hinputs : ∀ i, Validated (setting.inputs i)) (hline : InLine sha256 setting s a)
    (h : step sha256 ed print signer setting s a = some s') : Inv sha256 setting s' := by
  rcases step_cases h with ⟨i, phase, rfl, hphase⟩ | ⟨i, id, previous, d, rfl, hsigned, hadmits, rfl⟩
  · exact ⟨hinv.linear, hinv.stated, runs_enter hinv.runs (hphase (hinv.runs i))⟩
  have hrun := hinv.runs i
  rw [hsigned] at hrun
  have hstated := storedRow_stated id (hinputs i) hrun
  obtain ⟨hstored, hmay, hanchor, hpublisher, htime, hoffset⟩ := hrun
  have hfree := fun r hr => of_decide_eq_true (List.all_eq_true.mp hadmits r hr)
  have hsucceeds : Succeeds s.rows (setting.publisherParty i) previous :=
    (hline (previous, d) (by rw [hsigned]; rfl)).resolve_right (by rw [hadmits]; exact Bool.true_eq_false.mp)
  refine ⟨?_, ?_, ?_⟩
  · change Linear sha256 (s.rows ++ [_])
    cases previous with
    | none =>
      rw [show s.rows = [] from hsucceeds]
      exact Linear.singleton rfl (congrArg Anchor.prevAnchor hanchor) hstated.version
    | some p =>
      have hp : p ∈ s.rows := hstored p rfl
      have hlast : s.rows.getLast? = some p := last_of_unclaimed hinv.linear.links hp fun r hr =>
        (hfree r hr).2.2.resolve_left (Option.some_ne_none _)
      have hmoves := movesForward_of_mayFollow (hinputs i) (hinv.stated p hp) hmay
      rw [show p.anchor.publisher = setting.publisherParty i from hsucceeds] at hmoves
      refine hinv.linear.concat hlast rfl (fun r hr => (hfree r hr).1) hstated.version ?_
      change Precedes sha256 p.anchor d.anchor
      rw [hanchor, Option.map_some, anchorReport_precedes, hpublisher, htime, hoffset]
      exact hmoves
  · intro r hr
    rcases List.mem_append.mp hr with hr | hr
    · exact hinv.stated r hr
    · rw [List.mem_singleton.mp hr]
      exact hstated.self
  · exact runs_enter (fun j => (hinv.runs j).mono) trivial

theorem inv_reachable {s : State} (hinputs : ∀ i, Validated (setting.inputs i))
    (h : Reachable sha256 ed print signer setting (InLine sha256 setting) s) :
    Inv sha256 setting s := by
  induction h with
  | initial => exact inv_initial
  | step _ hline hstep ih => exact inv_step ih hinputs hline hstep

theorem mem_ready {phase : Phase} {previous : Option StoredPublication} {d : Delivery} :
    (previous, d) ∈ phase.ready ↔ phase = .signed previous d := by
  constructor
  · intro h
    unfold Phase.ready at h
    split at h
    · cases h
      rfl
    · cases h
  · rintro rfl
    rfl

/-- Where the ids are distinct, a row stands right behind the one that it names. -/
theorem behind_named {ordered : List StoredPublication} {p row : StoredPublication}
    (hlinks : ordered.IsChain Follows) (hids : (ordered.map StoredPublication.id).Nodup) (hp : p ∈ ordered)
    (hrow : row ∈ ordered) (hnamed : Follows p row) (hhead : ordered.head? ≠ some row) :
    ∃ front back, ordered = front ++ p :: row :: back := by
  obtain ⟨front, back, rfl⟩ := List.append_of_mem hrow
  rcases List.eq_nil_or_concat front with rfl | ⟨front, q, rfl⟩
  · exact absurd rfl hhead
  rw [List.concat_eq_append, List.append_assoc, List.singleton_append] at hlinks hids hp ⊢
  have hfollows : Follows q row := (List.isChain_append.mp hlinks).2.1.rel
  have hq : q ∈ front ++ q :: row :: back := List.mem_append_right _ List.mem_cons_self
  have hsame : q.id = p.id := Option.some.inj (hfollows.symm.trans hnamed)
  exact ⟨front, back, by rw [List.inj_on_of_nodup_map hids hq hp hsame]⟩

theorem publisher_of_oneChain {rows : List StoredPublication} {p row : StoredPublication}
    (hlinear : Linear sha256 rows) (hp : p ∈ rows) (hnamed : Follows p row) (hid : ∀ r ∈ rows, r.id ≠ row.id)
    (hchain : OneChain sha256 (rows ++ [row])) : p.anchor.publisher = row.anchor.publisher := by
  obtain ⟨ordered, hperm, hlinks, haccepted⟩ := hchain.order
  have hmem : ∀ r, r ∈ rows → r ∈ ordered := fun r hr => hperm.mem_iff.mpr (List.mem_append_left _ hr)
  have hrow : row ∈ ordered := hperm.mem_iff.mpr (List.mem_append_right _ List.mem_cons_self)
  have hids : (ordered.map StoredPublication.id).Nodup := by
    rw [(hperm.map _).nodup_iff, List.map_append, List.nodup_append]
    refine ⟨hlinear.ids, List.nodup_singleton _, fun x hx y hy => ?_⟩
    obtain ⟨r, hr, rfl⟩ := List.mem_map.mp hx
    rw [List.mem_singleton.mp hy]
    exact hid r hr
  -- The first row names nobody, so it stands behind nobody.
  have hhead : ordered.head? ≠ some row := by
    intro hhead
    obtain ⟨first, hfirst⟩ := Option.isSome_iff_exists.mp (List.isSome_head?.mpr (List.ne_nil_of_mem hp))
    have hmemFirst : first ∈ rows := List.mem_of_head? hfirst
    have hnone := hlinear.genesis first hfirst
    obtain ⟨rest, rfl⟩ : ∃ rest, ordered = row :: rest := List.head?_eq_some_iff.mp hhead
    have hrest : first ∈ rest := (List.mem_cons.mp (hmem first hmemFirst)).resolve_left fun heq =>
      hid first hmemFirst (congrArg _ heq)
    have hnames : first.previousId ∈ (row :: rest).tail.map StoredPublication.previousId :=
      List.mem_map_of_mem hrest
    rw [tail_previousIds hlinks, hnone] at hnames
    obtain ⟨q, _, hq⟩ := List.mem_map.mp hnames
    cases hq
  obtain ⟨front, back, rfl⟩ := behind_named hlinks hids (hmem p hp) hrow hnamed hhead
  obtain ⟨_, _, hprecedes⟩ := verifyChain_eq_ok.mp haccepted
  rw [List.map_append, List.map_cons, List.map_cons] at hprecedes
  exact (List.isChain_append.mp hprecedes).2.1.rel.publisher.symm

theorem inLine_of_oneChain {s s' : State} {a : Action} (hinv : Inv sha256 setting s)
    (h : step sha256 ed print signer setting s a = some s') (hchain : OneChain sha256 s'.rows) :
    InLine sha256 setting s a := by
  cases a with
  | store i id =>
    rintro ⟨previous, d⟩ hready
    have hsigned := mem_ready.mp hready
    have hrun := hinv.runs i
    rw [hsigned] at hrun
    obtain ⟨hstored, _, hanchor, hpublisher, _⟩ := hrun
    set row := storedRow sha256 id (setting.inputs i) previous d with hrow
    refine or_iff_not_imp_right.mpr fun hadmits => ?_
    have hadmits := eq_true_of_ne_false hadmits
    have hfree := fun r hr => of_decide_eq_true (List.all_eq_true.mp hadmits r hr)
    simp only [step, hsigned, ← hrow, hadmits, if_true, Option.some.injEq] at h
    rw [← h] at hchain
    cases previous with
    | none =>
      by_contra hrows
      obtain ⟨first, hfirst⟩ := Option.isSome_iff_exists.mp (List.isSome_head?.mpr hrows)
      have hmem : first ∈ s.rows := List.mem_of_head? hfirst
      obtain ⟨only, _, honly⟩ := hchain.first (by simp)
      have heq : first = row :=
        (honly _ ⟨List.mem_append_left _ hmem, hinv.linear.genesis _ hfirst⟩).trans
          (honly _ ⟨List.mem_append_right _ List.mem_cons_self, rfl⟩).symm
      exact (hfree first hmem).1 (congrArg _ heq)
    | some p =>
      have hsame : p.anchor.publisher = row.anchor.publisher :=
        publisher_of_oneChain hinv.linear (hstored p rfl) rfl (fun r hr => (hfree r hr).1) hchain
      exact hsame.trans ((congrArg Anchor.publisher hanchor).trans hpublisher)
  | _ => trivial

variable (sha256 ed print signer setting) in
/-- However the steps of the runs interleave, the stored publications form one chain as long as each run
    stores its own as the first of all or after one of the same publisher, and the step that does not
    ends it. -/
theorem one_chain_while {s : State} (hinputs : ∀ i, Validated (setting.inputs i))
    (h : Reachable sha256 ed print signer setting (InLine sha256 setting) s) :
    OneChain sha256 s.rows ∧ ∀ a s', step sha256 ed print signer setting s a = some s' →
      (OneChain sha256 s'.rows ↔ InLine sha256 setting s a) := by
  have hinv := inv_reachable hinputs h
  refine ⟨hinv.linear.oneChain, fun a s' hstep => ⟨inLine_of_oneChain hinv hstep, fun hline => ?_⟩⟩
  exact (inv_step hinv hinputs hline hstep).linear.oneChain

theorem reachable_takeAll {Meets : State → Action → Prop} [∀ s a, Decidable (Meets s a)]
    {actions : List Action} {s s' : State} (hs : Reachable sha256 ed print signer setting Meets s)
    (h : takeAll sha256 ed print signer setting Meets s actions = some s') :
    Reachable sha256 ed print signer setting Meets s' := by
  induction actions generalizing s with
  | nil => exact Option.some.inj h ▸ hs
  | cons a actions ih =>
    unfold takeAll at h
    split at h
    · obtain ⟨t, hstep, hrest⟩ := Option.bind_eq_some_iff.mp h
      exact ih (hs.step ‹_› hstep) hrest
    · cases h

/-! ## Two runs -/

def sampleInput (snapshotTime : String) : PublishInput where
  snapshotTime := snapshotTime
  ledgerOffset := "3042"
  leaves := [⟨"alice", SortedMap.ofList [("USDA", "7")]⟩]
  markPrices := SortedMap.empty
  disclosures := ⟨SortedMap.empty, 0, SortedMap.empty⟩
  manifest := none

def twoRuns : Setting where
  publisherParty _ := "venue::one"
  signingKeyHex _ := none
  inputs i := sampleInput (if i = 0 then "2026-09-09T10:00:00Z" else "2026-09-10T10:00:00Z")

theorem twoRuns_validated (i : ℕ) : Validated (twoRuns.inputs i) := by
  rcases eq_or_ne i 0 with rfl | hne
  · exact ⟨by decide +kernel, by decide +kernel⟩
  · change Validated (sampleInput (if i = 0 then _ else _))
    rw [if_neg hne]
    exact ⟨by decide +kernel, by decide +kernel⟩

/-- The rows that two runs leave: their names and the names of their predecessors. -/
def namesAfter (Meets : State → Action → Prop) [∀ s a, Decidable (Meets s a)] (actions : List Action) :
    Option (List (String × Option String)) :=
  (takeAll Sha256.sha256 (goldenEd25519 []) Json.toStringPretty goldenSigner twoRuns Meets initial
    actions).map fun s => s.rows.map fun r => (r.id, r.previousId)

theorem reachable_of_namesAfter (Meets : State → Action → Prop) [∀ s a, Decidable (Meets s a)]
    (actions : List Action) (names : List (String × Option String))
    (h : namesAfter Meets actions = some names) :
    ∃ s, Reachable Sha256.sha256 (goldenEd25519 []) Json.toStringPretty goldenSigner twoRuns Meets s ∧
      s.rows.map (fun r => (r.id, r.previousId)) = names := by
  obtain ⟨s, hs, hnames⟩ := Option.map_eq_some_iff.mp h
  exact ⟨s, reachable_takeAll .initial hs, hnames⟩

/-- The second run reads what the first has stored. -/
theorem one_chain_while_two : ∃ s,
    Reachable Sha256.sha256 (goldenEd25519 []) Json.toStringPretty goldenSigner twoRuns
      (InLine Sha256.sha256 twoRuns) s ∧
    s.rows.map (fun r => (r.id, r.previousId)) = [("a", none), ("b", some "a")] ∧
    OneChain Sha256.sha256 s.rows := by
  obtain ⟨s, hs, hnames⟩ := reachable_of_namesAfter (InLine Sha256.sha256 twoRuns) [.read 0, .check 0,
    .sign 0 sampleSalt, .store 0 "a", .read 1, .check 1, .sign 1 sampleSalt, .store 1 "b"]
    [("a", none), ("b", some "a")] (by decide +kernel)
  exact ⟨s, hs, hnames, (one_chain_while Sha256.sha256 (goldenEd25519 []) Json.toStringPretty
    goldenSigner twoRuns twoRuns_validated hs).1⟩

/-- Both runs read before either has stored: two publications without predecessor. -/
theorem one_chain_fails : (∀ i, Validated (twoRuns.inputs i)) ∧ ∃ s,
    Reachable Sha256.sha256 (goldenEd25519 []) Json.toStringPretty goldenSigner twoRuns
      (fun _ _ => True) s ∧
    s.rows.map (fun r => (r.id, r.previousId)) = [("a", none), ("b", none)] ∧
    ¬ OneChain Sha256.sha256 s.rows := by
  obtain ⟨s, hs, hnames⟩ := reachable_of_namesAfter (fun _ _ => True) [.read 0, .read 1, .check 0,
    .check 1, .sign 0 sampleSalt, .sign 1 sampleSalt, .store 0 "a", .store 1 "b"]
    [("a", none), ("b", none)] (by decide +kernel)
  refine ⟨twoRuns_validated, s, hs, hnames, fun h => ?_⟩
  have hprevious : s.rows.map StoredPublication.previousId = [none, none] := by
    have hsnd := congrArg (List.map Prod.snd) hnames
    rwa [List.map_map] at hsnd
  have hdistinct := List.pairwise_map.mpr h.distinct
  rw [hprevious] at hdistinct
  exact absurd hdistinct (by simp)

end AssuranceLayer.Publishing
