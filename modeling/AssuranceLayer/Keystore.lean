import AssuranceLayer.Directory
import AssuranceLayer.Fallible
import AssuranceLayer.Primitives

set_option autoImplicit false

/-!
The signing service's keystore: one sealed seed a file for each organisation, made on its first use.
Calls interleave at every access to the directory, and a crash leaves a call where it stands.
-/
namespace AssuranceLayer.Keystore
open Fallible Interleaving Task

/-! ## Names -/

/-- The name up to its last dot, unless that comes first. -/
def fileStem (name : List Char) : List Char :=
  match name.reverse.dropWhile (· ≠ '.') with
  | _ :: c :: before => (c :: before).reverse
  | _ => name

def withExtension (name extension : String) : String :=
  String.ofList (fileStem name.toList) ++ "." ++ extension

/-- Ids are opaque to the service, but they become file names. -/
def pathFor (orgId : String) : Option String :=
  if orgId ≠ "" ∧ orgId.toList.all (fun c => c.isAlphanum ∨ c = '-' ∨ c = '_') then some (orgId ++ ".key")
  else none

def temporary (path : String) : String := withExtension path "key.tmp"

/-! ## Sealing -/

inductive KeyError where
  /-- "org_id must be non-empty and [A-Za-z0-9_-]" -/
  | unsafeId
  | writing
  | renaming
  | reading
  /-- "{} is too short to be a sealed key" -/
  | tooShort
  /-- "could not unseal {}: wrong SERVICE_KEK, or the file was altered" -/
  | altered
  /-- "unsealed seed has the wrong length" -/
  | wrongLength
deriving DecidableEq

/-- Authenticated encryption: key, nonce, associated data and message. -/
structure Cipher where
  encrypt : Bytes 32 → List UInt8 → List UInt8 → List UInt8 → List UInt8
  decrypt : Bytes 32 → List UInt8 → List UInt8 → List UInt8 → Option (List UInt8)
  opens (key : Bytes 32) (nonce data message : List UInt8) :
    decrypt key nonce data (encrypt key nonce data message) = some message
  tag (key : Bytes 32) (nonce data message : List UInt8) :
    (encrypt key nonce data message).length = message.length + 16

/-- A request for a signer, with the random bytes it would use, how much of a file it can write at
    once, and whether the disk is full after that. -/
structure Call where
  orgId : String
  seed : Bytes 32
  nonce : Bytes 12
  piece : ℕ
  full : Bool
deriving DecidableEq

variable (cipher : Cipher) (kek : Bytes 32)

def sealed (call : Call) : List UInt8 :=
  call.nonce.toList ++ cipher.encrypt kek call.nonce.toList (utf8 call.orgId) call.seed.toList

def unsealSeed (orgId : String) (bytes : List UInt8) : Except KeyError (Bytes 32) := do
  ensure (12 + 16 ≤ bytes.length) .tooShort
  let seed ← okOr (cipher.decrypt kek (bytes.take 12) (utf8 orgId) (bytes.drop 12)) .altered
  if h : seed.length = 32 then .ok ⟨seed, h⟩ else .error .wrongLength

/-- Written to a temporary name and renamed. -/
def sealSeed (path : String) (call : Call) : Task Directory KeyError Unit := do
  let file ← transact fun d => .ok (d.create (temporary path))
  modify fun d => d.write file 0 ((sealed cipher kek call).take call.piece)
  require (call.full = false) .writing
  modify fun d => d.write file ((sealed cipher kek call).take call.piece).length
    ((sealed cipher kek call).drop call.piece)
  transact fun d =>
    match d.rename (temporary path) path with
    | some renamed => .ok ((), renamed)
    | none => .error .renaming

/-- The organisation's seed, made on first use. -/
def signerFor (call : Call) : Task Directory KeyError (Bytes 32) := do
  let path ← given (pathFor call.orgId) .unsafeId
  let found ← query fun d => (d.names.get? path).isSome
  if found then do
    let bytes ← query fun d => d.read path
    let bytes ← given bytes .reading
    match unsealSeed cipher kek call.orgId bytes with
    | .ok seed => done seed
    | .error e => fail e
  else do
    sealSeed cipher kek path call
    return call.seed

variable {cipher kek}

theorem unsealSeed_sealed (call : Call) :
    unsealSeed cipher kek call.orgId (sealed cipher kek call) = .ok call.seed := by
  have hlength : (sealed cipher kek call).length = 60 := by
    rw [sealed, List.length_append, cipher.tag, List.Vector.toList_length, List.Vector.toList_length]
  have htake : (sealed cipher kek call).take 12 = call.nonce.toList :=
    List.take_left' (List.Vector.toList_length _)
  have hdrop : (sealed cipher kek call).drop 12 =
      cipher.encrypt kek call.nonce.toList (utf8 call.orgId) call.seed.toList :=
    List.drop_left' (List.Vector.toList_length _)
  have hseed : call.seed.toList.length = 32 := List.Vector.toList_length _
  rw [unsealSeed, hlength, htake, hdrop, cipher.opens]
  simp [ensure, okOr, hseed]

/-! ## Whose files they are -/

theorem append_dot_inj {a b x y : List Char} (ha : '.' ∉ a) (hb : '.' ∉ b)
    (h : a ++ '.' :: x = b ++ '.' :: y) : a = b ∧ x = y := by
  induction a generalizing b with
  | nil =>
    cases b with
    | nil => exact ⟨rfl, (List.cons.inj h).2⟩
    | cons c b => exact absurd ((List.cons.inj h).1 ▸ List.mem_cons_self) hb
  | cons c a ih =>
    cases b with
    | nil => exact absurd ((List.cons.inj h).1 ▸ List.mem_cons_self) ha
    | cons c' b =>
      obtain ⟨rfl, hrest⟩ := List.cons.inj h
      obtain ⟨rfl, hxy⟩ := ih (fun hmem => ha (List.mem_cons_of_mem _ hmem))
        (fun hmem => hb (List.mem_cons_of_mem _ hmem)) hrest
      exact ⟨rfl, hxy⟩

variable {orgId orgId' path path' : String}

theorem pathFor_eq_some (h : pathFor orgId = some path) :
    path = orgId ++ ".key" ∧ '.' ∉ orgId.toList ∧ orgId.toList ≠ [] := by
  unfold pathFor at h
  split at h
  · rename_i hsafe
    cases h
    refine ⟨rfl, fun hdot => ?_, fun hnil => hsafe.1 (String.toList_eq_nil_iff.mp hnil)⟩
    exact absurd (List.all_eq_true.mp hsafe.2 '.' hdot) (by decide)
  · cases h

theorem temporary_eq (h : pathFor orgId = some path) : temporary path = orgId ++ ".key.tmp" := by
  obtain ⟨rfl, hdotless, hne⟩ := pathFor_eq_some h
  have hstem : fileStem (orgId ++ ".key").toList = orgId.toList := by
    have hreverse : (orgId ++ ".key").toList.reverse = ['y', 'e', 'k', '.'] ++ orgId.toList.reverse := by
      rw [String.toList_append, List.reverse_append]
      rfl
    have hdrop : (orgId ++ ".key").toList.reverse.dropWhile (· ≠ '.') = '.' :: orgId.toList.reverse := by
      rw [hreverse]
      rfl
    obtain ⟨c, before, hbefore⟩ := List.exists_cons_of_ne_nil (mt List.reverse_eq_nil_iff.mp hne)
    rw [fileStem, hdrop, hbefore]
    change (c :: before).reverse = _
    rw [← hbefore, List.reverse_reverse]
  rw [temporary, withExtension, hstem, String.ofList_toList, String.append_assoc]
  rfl

theorem path_inj (h : pathFor orgId = some path) (h' : pathFor orgId' = some path) : orgId = orgId' := by
  obtain ⟨rfl, hdotless, _⟩ := pathFor_eq_some h
  obtain ⟨heq, hdotless', _⟩ := pathFor_eq_some h'
  have hlist := congrArg String.toList heq
  rw [String.toList_append, String.toList_append] at hlist
  exact String.toList_injective (append_dot_inj hdotless hdotless' hlist).1

theorem path_ne_temporary (h : pathFor orgId = some path) (h' : pathFor orgId' = some path') :
    path ≠ temporary path' := by
  intro heq
  rw [temporary_eq h'] at heq
  obtain ⟨rfl, hdotless, _⟩ := pathFor_eq_some h
  obtain ⟨_, hdotless', _⟩ := pathFor_eq_some h'
  have hlist := congrArg String.toList heq
  rw [String.toList_append, String.toList_append] at hlist
  exact absurd (append_dot_inj hdotless hdotless' hlist).2 (by decide)

theorem temporary_inj (h : pathFor orgId = some path) (h' : pathFor orgId' = some path')
    (heq : temporary path = temporary path') : orgId = orgId' := by
  rw [temporary_eq h, temporary_eq h'] at heq
  have hlist := congrArg String.toList heq
  rw [String.toList_append, String.toList_append] at hlist
  exact String.toList_injective
    (append_dot_inj (pathFor_eq_some h).2.1 (pathFor_eq_some h').2.1 hlist).1

/-! ## Calls that interleave -/

section Runs
variable (cipher kek)

/-- Every key file opens for the organisation it is named after. -/
def Sound (d : Directory) : Prop :=
  ∀ orgId path bytes, pathFor orgId = some path → d.read path = some bytes →
    ∃ seed, unsealSeed cipher kek orgId bytes = .ok seed

/-- The organisation has a key file. -/
def OnFile (d : Directory) (orgId : String) : Prop :=
  ∃ path, pathFor orgId = some path ∧ (d.read path).isSome = true

/-- The key file of the organisation holds this seed. -/
def Holds (d : Directory) (orgId : String) (seed : Bytes 32) : Prop :=
  ∃ path bytes, pathFor orgId = some path ∧ d.read path = some bytes ∧
    unsealSeed cipher kek orgId bytes = .ok seed

/-- What a call may come to: no seed but the one on file, and that one unless the id is unsafe or the
    disk is full. -/
structure Answers (call : Call) (answer : Except KeyError (Bytes 32)) (d : Directory) : Prop where
  held : ∀ seed, answer = .ok seed → Holds cipher kek d call.orgId seed
  given : (pathFor call.orgId).isSome → call.full = false → ∃ seed, answer = .ok seed

/-- Key files stay as they are. -/
def KeysKept (d e : Directory) : Prop :=
  ∀ orgId path bytes, pathFor orgId = some path → d.read path = some bytes → e.read path = some bytes

instance : IsPreorder Directory KeysKept where
  refl _ _ _ _ _ h := h
  trans _ _ _ hde hef orgId path bytes hpath h := hef orgId path bytes hpath (hde orgId path bytes hpath h)

/-- The key file of such an organisation, or its temporary file. -/
def Named (orgs : String → Prop) (name : String) : Prop :=
  ∃ orgId path, orgs orgId ∧ pathFor orgId = some path ∧ (name = path ∨ name = temporary path)

/-- What the calls of other organisations do between the steps of a call. -/
structure Relies (orgs : String → Prop) (d e : Directory) : Prop where
  mine : ∀ name, Named orgs name → Directory.Keeps name d e
  sound : Sound cipher kek d → Sound cipher kek e
  kept : KeysKept d e

/-- What a call does to the other organisations. -/
structure Guarantees (orgs : String → Prop) (d e : Directory) : Prop where
  others : ∀ name, ¬ Named orgs name → Directory.Keeps name d e
  sound : Sound cipher kek d → Sound cipher kek e
  kept : KeysKept d e

end Runs

variable {orgs : String → Prop} {call : Call} {d e : Directory}

instance : IsPreorder Directory (Relies cipher kek orgs) where
  refl d := ⟨fun _ _ => refl_of _ d, fun h => h, refl_of KeysKept d⟩
  trans _ _ _ hde hef := ⟨fun name h => trans_of _ (hde.mine name h) (hef.mine name h),
    fun h => hef.sound (hde.sound h), trans_of KeysKept hde.kept hef.kept⟩

theorem Guarantees.refl : Guarantees cipher kek orgs d d :=
  ⟨fun _ _ => refl_of _ d, fun h => h, refl_of KeysKept d⟩

theorem OnFile.later (h : OnFile d orgId) (hkept : KeysKept d e) : OnFile e orgId := by
  obtain ⟨path, hpath, hread⟩ := h
  obtain ⟨bytes, hbytes⟩ := Option.isSome_iff_exists.mp hread
  exact ⟨path, hpath, by rw [hkept _ _ _ hpath hbytes]; rfl⟩

theorem Answers.later {answer : Except KeyError (Bytes 32)} (h : Answers cipher kek call answer d)
    (hkept : KeysKept d e) : Answers cipher kek call answer e where
  held seed hseed := by
    obtain ⟨path, bytes, hpath, hread, hopens⟩ := h.held seed hseed
    exact ⟨path, bytes, hpath, hkept _ _ _ hpath hread, hopens⟩
  given := h.given

/-- A step that touches the temporary file only. -/
theorem guarantees_temporary (horg : orgs orgId) (hpath : pathFor orgId = some path)
    (h : ∀ name, name ≠ temporary path → Directory.Keeps name d e) : Guarantees cipher kek orgs d e where
  others name hname := h name fun heq => hname ⟨orgId, path, horg, hpath, .inr heq⟩
  sound hs _ path' _ hpath' hread :=
    hs _ path' _ hpath' ((h path' (path_ne_temporary hpath' hpath)).read ▸ hread)
  kept _ path' _ hpath' hread := (h path' (path_ne_temporary hpath' hpath)).read.trans hread

/-- A step that puts a sealed seed in place of no file. -/
theorem guarantees_renamed (horg : orgs call.orgId) (hpath : pathFor call.orgId = some path)
    (habsent : d.names.get? path = none) (hrename : d.rename (temporary path) path = some e)
    (hread : e.read path = some (sealed cipher kek call)) : Guarantees cipher kek orgs d e := by
  have hother : ∀ orgId' path', pathFor orgId' = some path' → path' ≠ path → e.read path' = d.read path' :=
    fun orgId' path' hpath' hne =>
      (Directory.rename_keeps hrename (path_ne_temporary hpath' hpath) hne).read
  constructor
  · intro name hname
    exact Directory.rename_keeps hrename (fun heq => hname ⟨_, path, horg, hpath, .inr heq⟩)
      fun heq => hname ⟨_, path, horg, hpath, .inl heq⟩
  · intro hs orgId' path' bytes hpath' hbytes
    rcases eq_or_ne path' path with rfl | hne
    · obtain rfl := path_inj hpath hpath'
      cases hread.symm.trans hbytes
      exact ⟨call.seed, unsealSeed_sealed call⟩
    · exact hs orgId' path' bytes hpath' ((hother orgId' path' hpath' hne).symm.trans hbytes)
  · intro orgId' path' bytes hpath' hbytes
    rcases eq_or_ne path' path with rfl | hne
    · rw [Directory.read, habsent] at hbytes
      cases hbytes
    · exact (hother orgId' path' hpath' hne).trans hbytes

/-- There is no key file yet, and this much stands in the temporary one. -/
structure Writing (path : String) (file : ℕ) (bytes : List UInt8) (d : Directory) : Prop where
  opened : d.names.get? (temporary path) = some file
  written : d.contents file = bytes
  absent : d.names.get? path = none

theorem absent_later (horg : orgs orgId) (hpath : pathFor orgId = some path) (h : d.names.get? path = none)
    (hlater : Relies cipher kek orgs d e) : e.names.get? path = none :=
  (hlater.mine path ⟨orgId, path, horg, hpath, .inl rfl⟩).names.trans h

theorem Writing.later {file : ℕ} {bytes : List UInt8} (h : Writing path file bytes d) (horg : orgs orgId)
    (hpath : pathFor orgId = some path) (hlater : Relies cipher kek orgs d e) : Writing path file bytes e := by
  have hkeeps := hlater.mine (temporary path) ⟨orgId, path, horg, hpath, .inr rfl⟩
  exact ⟨hkeeps.names.trans h.opened, (hkeeps.contents file h.opened).trans h.written,
    absent_later horg hpath h.absent hlater⟩

theorem Writing.write {file : ℕ} {bytes : List UInt8} (h : Writing path file bytes d) (more : List UInt8) :
    Writing path file (bytes ++ more) (d.write file bytes.length more) :=
  ⟨h.opened, Directory.write_end h.written more, h.absent⟩

theorem Writing.guarantees {file : ℕ} {bytes : List UInt8} (h : Writing path file bytes d) (horg : orgs orgId)
    (hpath : pathFor orgId = some path) (place : ℕ) (more : List UInt8) :
    Guarantees cipher kek orgs d (d.write file place more) :=
  guarantees_temporary horg hpath fun _ hne => Directory.write_keeps h.opened hne place more

theorem writing_create (hpath : pathFor orgId = some path) (h : d.names.get? path = none) :
    Writing path (d.create (temporary path)).1 [] (d.create (temporary path)).2 where
  opened := by rw [Directory.create_names, if_pos rfl]
  written := Directory.create_contents d _
  absent := by rw [Directory.create_names, if_neg (path_ne_temporary hpath hpath).symm, h]

theorem Writing.rename {file : ℕ} {bytes : List UInt8} (h : Writing path file bytes d) :
    ∃ e, d.rename (temporary path) path = some e ∧ e.read path = some bytes := by
  obtain ⟨e, hrename, hcontents, hnames⟩ := Directory.rename_names h.opened path
  refine ⟨e, hrename, ?_⟩
  rw [Directory.read, hnames, if_pos rfl, Option.map_some, hcontents, h.written]

variable {M : Directory → Directory → Prop}

theorem ensures_sealSeed (horg : orgs call.orgId) (hpath : pathFor call.orgId = some path)
    (hs : Sound cipher kek d) (habsent : d.names.get? path = none) :
    (sealSeed cipher kek path call).Ensures M (Relies cipher kek orgs) (Guarantees cipher kek orgs)
      (fun r e => Sound cipher kek e ∧ (r = .ok () → e.read path = some (sealed cipher kek call)) ∧
        (call.full = false → r = .ok ())) d := by
  have hpieces := List.take_append_drop call.piece (sealed cipher kek call)
  unfold sealSeed
  generalize (sealed cipher kek call).take call.piece = first at hpieces ⊢
  generalize (sealed cipher kek call).drop call.piece = rest at hpieces ⊢
  refine ensures_transact_bind (fun t r ht hr => ?_) fun t e ht he => by cases he
  cases hr
  have hG : Guarantees cipher kek orgs t (t.create (temporary path)).2 :=
    guarantees_temporary horg hpath fun _ hne => Directory.create_keeps hne
  have hw := writing_create hpath (absent_later horg hpath habsent ht)
  refine ⟨hG, ensures_modify_bind fun u hu => ?_⟩
  have hsu := hu.sound (hG.sound (ht.sound hs))
  have hw := hw.later horg hpath hu
  have hG : Guarantees cipher kek orgs u (u.write _ 0 first) := hw.guarantees horg hpath 0 first
  have hw := hw.write first
  refine ⟨hG, ensures_require_bind (fun _ => ensures_modify_bind fun v hv => ?_) fun hfull => ?_⟩
  · have hsv := hv.sound (hG.sound hsu)
    have hw := hw.later horg hpath hv
    have hG : Guarantees cipher kek orgs v (v.write _ first.length rest) :=
      hw.guarantees horg hpath first.length rest
    have hw := hw.write rest
    rw [List.nil_append, hpieces] at hw
    refine ⟨hG, ensures_transact (fun x r hx hr _ => ?_) fun x e hx he => ?_⟩
    · have hw := hw.later horg hpath hx
      obtain ⟨y, hrename, hread⟩ := hw.rename
      rw [hrename] at hr
      cases hr
      have hrenamed := guarantees_renamed horg hpath hw.absent hrename hread
      exact ⟨hrenamed, hrenamed.sound (hx.sound (hG.sound hsv)), fun _ => hread, fun _ => rfl⟩
    · obtain ⟨y, hrename, hread⟩ := (hw.later horg hpath hx).rename
      rw [hrename] at he
      cases he
  · exact ⟨hG.sound hsu, fun h => absurd h (by simp), fun hroom => absurd hroom hfull⟩

/-- A call writes nothing where there is a key, and puts one where it has none to share. -/
theorem ensures_signerFor (horg : orgs call.orgId ∨ OnFile d call.orgId) (hs : Sound cipher kek d) :
    (signerFor cipher kek call).Ensures M (Relies cipher kek orgs) (Guarantees cipher kek orgs)
      (fun r e => Sound cipher kek e ∧ Answers cipher kek call r e) d := by
  unfold signerFor
  refine ensures_given_bind (fun path hpath => ?_) fun hnone =>
    ⟨hs, fun _ h => absurd h (by simp), fun h => absurd h (by rw [hnone]; simp)⟩
  refine ensures_query_bind fun t ht => ⟨.refl, ?_⟩
  have hst := ht.sound hs
  cases hfound : t.names.get? path with
  | some file =>
    refine ensures_query_bind fun u hu => ⟨.refl, ?_⟩
    have hread : u.read path = some (t.contents file) :=
      hu.kept _ _ _ hpath (by rw [Directory.read, hfound, Option.map_some])
    have hsu := hu.sound hst
    obtain ⟨seed, hopens⟩ := hsu call.orgId path _ hpath hread
    rw [hread]
    change Task.Ensures _ _ _ _ (match unsealSeed cipher kek call.orgId (t.contents file) with
      | .ok seed => done seed
      | .error e => fail e) u
    rw [hopens]
    refine ⟨hsu, fun _ h => ?_, fun _ _ => ⟨seed, rfl⟩⟩
    cases h
    exact ⟨path, _, hpath, hread, hopens⟩
  | none =>
    have hmine : orgs call.orgId := horg.resolve_right fun honfile => by
      obtain ⟨path', hpath', hread⟩ := honfile.later ht.kept
      cases hpath.symm.trans hpath'
      rw [Directory.read, hfound] at hread
      cases hread
    refine ensures_bind (ensures_sealSeed hmine hpath hst hfound) (fun _ u hu => ?_) fun e u hu => ?_
    · obtain ⟨hsu, hread, _⟩ := hu
      refine ⟨hsu, fun seed hseed => ?_, fun _ _ => ⟨_, rfl⟩⟩
      cases hseed
      exact ⟨path, _, hpath, hread rfl, unsealSeed_sealed call⟩
    · exact ⟨hu.1, fun _ h => absurd h (by simp), fun _ hfull => absurd (hu.2.2 hfull) (by simp)⟩

/-! ## One key for an organisation -/

/-- Calls for an organisation that has no key file yet come one after the other. -/
def Separate (d : Directory) (calls : ℕ → List Call) : Prop :=
  ∀ i j, ∀ a ∈ calls i, ∀ b ∈ calls j, a.orgId = b.orgId → i = j ∨ OnFile d a.orgId

variable (cipher kek) in
def service (d : Directory) (calls : ℕ → List Call) :
    Config Directory KeyError (List (Call × Except KeyError (Bytes 32))) :=
  ⟨d, fun i => collect (signerFor cipher kek) (calls i)⟩

/-- Some round of calls has ended, and this is what came of one of them. -/
def Answered (c : Config Directory KeyError (List (Call × Except KeyError (Bytes 32)))) (call : Call)
    (answer : Except KeyError (Bytes 32)) : Prop :=
  ∃ i results, (c.tasks i).outcome = some (.ok results) ∧ (call, answer) ∈ results

variable {Meets Meets' : ℕ → Directory → Directory → Prop} {calls calls' : ℕ → List Call}
  {c c' : Config Directory KeyError (List (Call × Except KeyError (Bytes 32)))}

theorem service_sound (hseparate : Separate d calls) (h : Reaches Meets (service cipher kek d calls) c)
    (hs : Sound cipher kek d) : Sound cipher kek c.store ∧ KeysKept d c.store ∧
      ∀ call answer, Answered c call answer → Answers cipher kek call answer c.store := by
  let orgs := fun i orgId => ¬ OnFile d orgId ∧ ∃ call ∈ calls i, call.orgId = orgId
  let Q : ℕ → Except KeyError (List (Call × Except KeyError (Bytes 32))) → Directory → Prop :=
    fun _ r e => Sound cipher kek e ∧ ∃ results, r = .ok results ∧
      ∀ a ∈ results, Answers cipher kek a.1 a.2 e
  have hcompatible : Compatible (fun i => Relies cipher kek (orgs i)) fun i => Guarantees cipher kek (orgs i) := by
    refine ⟨fun _ => inferInstance, fun hne s t hG => ⟨fun name hname => hG.others name fun hother => ?_,
      hG.sound, hG.kept⟩⟩
    obtain ⟨o, p, ⟨_, a, ha, rfl⟩, hp, hnamed⟩ := hname
    obtain ⟨o', p', ⟨hnone, b, hb, rfl⟩, hp', hnamed'⟩ := hother
    refine hne ((hseparate _ _ b hb a ha ?_).resolve_right hnone)
    rcases hnamed with rfl | rfl <;> rcases hnamed' with heq | heq
    · exact path_inj hp' (heq ▸ hp)
    · exact absurd heq (path_ne_temporary hp hp')
    · exact absurd heq.symm (path_ne_temporary hp' hp)
    · exact temporary_inj hp' hp heq.symm
  have hstable : ∀ i r s t, Relies cipher kek (orgs i) s t → Q i r s → Q i r t := by
    rintro i r s t hst ⟨hsound, results, rfl, hanswers⟩
    exact ⟨hst.sound hsound, results, rfl, fun a ha => (hanswers a ha).later hst.kept⟩
  have hstart : ∀ i, ((service cipher kek d calls).tasks i).Ensures (Meets i) (Relies cipher kek (orgs i))
      (Guarantees cipher kek (orgs i)) (Q i) d := by
    intro i
    have hcollect : ((service cipher kek d calls).tasks i).Ensures (Meets i) (Relies cipher kek (orgs i))
        (Guarantees cipher kek (orgs i)) (fun r e => (Sound cipher kek e ∧ KeysKept d e) ∧
          ∃ results, r = .ok results ∧ ∀ a ∈ results, Answers cipher kek a.1 a.2 e) d := by
      refine ensures_collect (S := KeysKept) (fun _ _ hst => hst.kept) (fun _ _ hst => hst.kept)
        (fun _ _ _ _ hst hanswers => hanswers.later hst) (fun call hcall s hs => ?_) ⟨hs, refl_of KeysKept d⟩
      have hmine : orgs i call.orgId ∨ OnFile s call.orgId := by
        by_cases honfile : OnFile d call.orgId
        · exact .inr (honfile.later hs.2)
        · exact .inl ⟨honfile, call, hcall, rfl⟩
      refine ((ensures_signerFor hmine hs.1).along (fun _ _ hst => hst.kept) fun _ _ hst => hst.kept).mono ?_
      exact fun _ _ ⟨hkept, hsound, hanswers⟩ => ⟨⟨hsound, trans_of KeysKept hs.2 hkept⟩, hanswers⟩
    exact hcollect.mono fun _ _ ⟨hI, hanswers⟩ => ⟨hI.1, hanswers⟩
  have hkept : Sound cipher kek c.store ∧ KeysKept d c.store :=
    h.keeps (I := fun e => Sound cipher kek e ∧ KeysKept d e) hcompatible hstable hstart
      (fun i s t hG hI => ⟨hG.sound hI.1, trans_of KeysKept hI.2 hG.kept⟩) ⟨hs, refl_of KeysKept d⟩
  refine ⟨hkept.1, hkept.2, ?_⟩
  rintro call answer ⟨i, results, hdone, hmem⟩
  have hensures := h.ensures hcompatible hstable hstart i
  rw [outcome_eq_ok.mp hdone] at hensures
  obtain ⟨_, _, ⟨⟩, hanswers⟩ := hensures
  exact hanswers _ hmem

theorem Holds.unique {a b : Bytes 32} (ha : Holds cipher kek d orgId a) (hb : Holds cipher kek d orgId b) :
    a = b := by
  obtain ⟨path, bytes, hpath, hread, hopens⟩ := ha
  obtain ⟨path', bytes', hpath', hread', hopens'⟩ := hb
  cases hpath.symm.trans hpath'
  cases hread.symm.trans hread'
  exact Except.ok.inj (hopens.symm.trans hopens')

/-- An organisation has one signer, over any calls that interleave, of which those for an organisation
    without a key come one after the other, through a crash at any step and a restart; and no crash makes
    a later call fail. -/
theorem key_stable (hseparate : Separate d calls) (hs : Sound cipher kek d)
    (h : Reaches Meets (service cipher kek d calls) c) (hseparate' : Separate c.store calls')
    (h' : Reaches Meets' (service cipher kek c.store calls') c') :
    (∀ call call' a b, Answered c call (.ok a) ∨ Answered c' call (.ok a) →
      Answered c call' (.ok b) ∨ Answered c' call' (.ok b) → call.orgId = call'.orgId → a = b) ∧
    ∀ call answer, Answered c' call answer → (pathFor call.orgId).isSome → call.full = false →
      ∃ seed, answer = .ok seed := by
  obtain ⟨hsound, _, hanswers⟩ := service_sound hseparate h hs
  obtain ⟨_, hkept', hanswers'⟩ := service_sound hseparate' h' hsound
  have hheld : ∀ call seed, Answered c call (.ok seed) ∨ Answered c' call (.ok seed) →
      Holds cipher kek c'.store call.orgId seed := by
    rintro call seed (hanswered | hanswered)
    · exact ((hanswers call _ hanswered).later hkept').held seed rfl
    · exact (hanswers' call _ hanswered).held seed rfl
  refine ⟨fun call call' a b ha hb horg => ?_, fun call answer h => (hanswers' call _ h).given⟩
  exact (hheld call a ha).unique (horg ▸ hheld call' b hb)

/-! ## A crash, and two calls at once -/

/-- The message with an empty tag. -/
def plain : Cipher where
  encrypt _ _ _ message := message ++ List.replicate 16 0
  decrypt _ _ _ bytes := some (bytes.take (bytes.length - 16))
  opens _ _ _ message := by simp
  tag _ _ _ message := by simp

def sampleKek : Bytes 32 := List.Vector.replicate 32 7

def sampleCall (orgId : String) (random : UInt8) : Call :=
  ⟨orgId, List.Vector.replicate 32 random, List.Vector.replicate 12 random, 40, false⟩

theorem empty_sound : Sound plain sampleKek Directory.empty := by
  intro orgId path bytes _ h
  cases h

theorem separate_single (calls : List Call) : Separate d fun i => if i = 0 then calls else [] := by
  intro i j a ha b hb _
  by_cases hi : i = 0
  · by_cases hj : j = 0
    · rw [hi, hj]
      exact .inl rfl
    · simp [hj] at hb
  · simp [hi] at ha

/-- The service stops halfway through the first file and once more after the second, and then two calls
    at once are answered with the seed that is there. -/
theorem key_stable_crash :
    let c := (service plain sampleKek Directory.empty fun i => if i = 0 then [sampleCall "org-1" 1] else []).schedule
      [0, 0, 0]
    let c' := (service plain sampleKek c.store fun i => if i = 0 then [sampleCall "org-1" 2] else []).schedule
      [0, 0, 0, 0, 0]
    let c'' := (service plain sampleKek c'.store fun i => [sampleCall "org-1" (if i = 0 then 3 else 4)]).schedule
      [0, 1, 0, 1]
    ∃ a b, Answered c' (sampleCall "org-1" 2) (.ok a) ∧ Answered c'' (sampleCall "org-1" 4) (.ok b) ∧ a = b := by
  intro c c' c''
  have hfirst : (c'.tasks 0).outcome = some (.ok [(sampleCall "org-1" 2, .ok (List.Vector.replicate 32 2))]) := by
    decide +kernel
  have hsecond : (c''.tasks 1).outcome = some (.ok [(sampleCall "org-1" 4, .ok (List.Vector.replicate 32 2))]) := by
    decide +kernel
  have honfile : OnFile c'.store "org-1" := ⟨"org-1.key", by decide +kernel, by decide +kernel⟩
  have hstarted : Sound plain sampleKek c.store :=
    (service_sound (separate_single _) (reaches_schedule _ _) empty_sound).1
  have ha : Answered c' (sampleCall "org-1" 2) (.ok (List.Vector.replicate 32 2)) :=
    ⟨0, _, hfirst, List.mem_cons_self⟩
  have hb : Answered c'' (sampleCall "org-1" 4) (.ok (List.Vector.replicate 32 2)) :=
    ⟨1, _, hsecond, List.mem_cons_self⟩
  have hshared : Separate c'.store fun i => [sampleCall "org-1" (if i = 0 then 3 else 4)] := by
    intro i j a ha b hb _
    rw [List.mem_singleton.mp ha]
    exact .inr honfile
  exact ⟨_, _, ha, hb, (key_stable (separate_single _) hstarted (reaches_schedule _ _) hshared
    (reaches_schedule _ _)).1 _ _ _ _ (.inl ha) (.inr hb) rfl⟩

/-- Two first calls for one organisation at once: both are answered with their own seed, or the file
    that is left stops the organisation for good. -/
theorem key_stable_fails :
    (∃ steps, let c := (service plain sampleKek Directory.empty fun i =>
        [sampleCall "org-1" (if i = 0 then 1 else 2)]).schedule steps
      Answered c (sampleCall "org-1" 1) (.ok (List.Vector.replicate 32 1)) ∧
        Answered c (sampleCall "org-1" 2) (.ok (List.Vector.replicate 32 2))) ∧
    ∃ steps, ¬ Sound plain sampleKek (((service plain sampleKek Directory.empty fun i =>
        [sampleCall "org-1" (if i = 0 then 1 else 2)]).schedule steps).store) := by
  refine ⟨⟨[0, 1, 0, 0, 0, 0, 1, 1, 1, 1], ?_, ?_⟩, [0, 1, 0, 0, 0, 1, 0], fun h => ?_⟩
  · exact ⟨0, [(sampleCall "org-1" 1, .ok (List.Vector.replicate 32 1))], by decide +kernel, List.mem_cons_self⟩
  · exact ⟨1, [(sampleCall "org-1" 2, .ok (List.Vector.replicate 32 2))], by decide +kernel, List.mem_cons_self⟩
  · obtain ⟨seed, hseed⟩ := h "org-1" "org-1.key" [] (by decide +kernel) (by decide +kernel)
    cases hseed

end AssuranceLayer.Keystore
