import AssuranceLayer.ManifestAgreement

set_option autoImplicit false

/-!
The rules of a profile in the two verifiers. The browser's registry lacks one profile. Under the others a
report whose leaf count is kept passes in both or in neither.
-/
namespace AssuranceLayer.ProfileAgreement
open Fallible Utf16 JavaScript Reading SortedMap BrowserThrows
open Document (Report)
open Profile (ProfileRules LeafKind registry coverageCustody qualifiedPrefix)
open Sums (AmountMap amount)
open Binary64 (ofNat)

/-! ## Prefixes -/

theorem stripName_ofString {pre k : String} {rest : JsString} :
    Browser.stripName pre (ofString k) = some rest ↔ ∃ r, k = pre ++ r ∧ rest = ofString r := by
  rw [Browser.stripName, List.isPrefixOf?_eq_some_iff_append_eq]
  constructor
  · intro h
    have hscalars := congrArg scalars h
    rw [ofString, scalars_append, scalars_ofString] at hscalars
    have hk : k = pre ++ String.ofList (scalars rest) := by
      rw [← String.toList_inj, String.toList_append, String.toList_ofList, hscalars]
    refine ⟨_, hk, ?_⟩
    rw [hk, ofString_append] at h
    exact List.append_cancel_left h
  · rintro ⟨r, rfl, rfl⟩
    exact (ofString_append pre r).symm

theorem startsWith_iff {pre k : String} : startsWith pre k = true ↔ ∃ r, k = pre ++ r := by
  rw [startsWith, List.isPrefixOf_iff_prefix]
  constructor
  · rintro ⟨r, hr⟩
    exact ⟨String.ofList r, by rw [← String.toList_inj, String.toList_append, String.toList_ofList, hr]⟩
  · rintro ⟨r, rfl⟩
    exact ⟨r.toList, (String.toList_append ..).symm⟩

/-! ## The rules -/

variable {v : Js} {r : Report}

theorem sums_sound (h : ReadsReport v r) {e : JsString × Js} (he : e ∈ sumsOf v) :
    ∃ k a, e.1 = ofString k ∧ r.rootSums.get? k = some a ∧ ReadsAmount e.2 a := by
  obtain ⟨props, hprops, hm⟩ := h.rootSums
  rw [sumsOf, hprops] at he
  exact hm.sound e he

theorem sums_complete (h : ReadsReport v r) {k : String} {a : U128} (hk : r.rootSums.get? k = some a) :
    ∃ w, (ofString k, w) ∈ sumsOf v ∧ (sumsOf v).lookup (ofString k) = some w ∧ ReadsAmount w a := by
  obtain ⟨props, hprops, hm⟩ := h.rootSums
  obtain ⟨w, hw, hreads⟩ := hm.lookup hk
  rw [sumsOf, hprops]
  exact ⟨w, (lookup_eq_some hm.nodup).mp hw, hw, hreads⟩

theorem sums_absent (h : ReadsReport v r) {k : String} (hk : r.rootSums.get? k = none) :
    (sumsOf v).lookup (ofString k) = none := by
  obtain ⟨props, hprops, hm⟩ := h.rootSums
  rw [sumsOf, hprops]
  exact hm.lookup_none hk

/-- An aggregate the verifiers can look for. -/
def Checkable (aggregate : String) : Prop :=
  aggregate = "root_sums" ∨
    aggregate ≠ "root_sums" ∧ aggregate ≠ "mark_prices" ∧ (qualifiedPrefix aggregate).isSome = true

instance (aggregate : String) : Decidable (Checkable aggregate) := inferInstanceAs (Decidable (_ ∨ _))

theorem aggregates_checkable : ∀ rules ∈ registry, ∀ aggregate ∈ rules.requiredAggregates, Checkable aggregate := by
  decide +kernel

theorem aggregatePresent_iff (h : ReadsReport v r) {aggregate : String} (haggregate : Checkable aggregate) :
    AggregatePresent v aggregate ↔ Profile.AggregatePresent r aggregate := by
  rcases haggregate with rfl | ⟨hroot, hmark, hprefix⟩
  · have hempty : (sumsOf v).isEmpty = r.rootSums.isEmpty := ManifestAgreement.entriesOf_reads h.rootSums
    have hnone : qualifiedPrefix "root_sums" = none := by decide +kernel
    rw [AggregatePresent, Profile.AggregatePresent, hnone, if_pos rfl, ← hempty]
    simp
  · obtain ⟨pre, hpre⟩ := Option.isSome_iff_exists.mp hprefix
    simp only [AggregatePresent, Profile.AggregatePresent, hpre, if_neg hroot, if_neg hmark, Option.some.injEq,
      exists_eq_left']
    constructor
    · rintro ⟨e, he, hstrip⟩
      obtain ⟨k, a, hk, hget, -⟩ := sums_sound h he
      obtain ⟨rest, hrest⟩ := Option.isSome_iff_exists.mp hstrip
      rw [hk] at hrest
      obtain ⟨s, hs, -⟩ := stripName_ofString.mp hrest
      exact ⟨k, mem_keys.mpr (by simp [hget]), startsWith_iff.mpr ⟨s, hs⟩⟩
    · rintro ⟨k, hk, hstart⟩
      obtain ⟨a, hget⟩ := Option.isSome_iff_exists.mp (mem_keys.mp hk)
      obtain ⟨w, hw, -, -⟩ := sums_complete h hget
      obtain ⟨s, hs⟩ := startsWith_iff.mp hstart
      exact ⟨_, hw, Option.isSome_iff_exists.mpr ⟨_, stripName_ofString.mpr ⟨s, hs, rfl⟩⟩⟩

theorem parse_held (h : ReadsReport v r) (c : Profile.Coverage) (asset : String) :
    Browser.parseAmount18dp (heldOf c (sumsOf v) (ofString asset)) =
      .ok (amount r.rootSums (c.covering ++ "/" ++ asset) : ℤ) := by
  rw [heldOf, ← ofString_append, ← ofString_append]
  cases hget : r.rootSums.get? (c.covering ++ "/" ++ asset) with
  | none =>
    rw [sums_absent h hget, Sums.amount, hget]
    exact AmountTexts.parseAmount18dp_of_ok (s := "0") (a := 0) (by decide +kernel)
  | some a =>
    obtain ⟨w, -, hw, hreads⟩ := sums_complete h hget
    rw [hw, Sums.amount_of_get? hget, ← parseAmount18dp_reads hreads]
    obtain ⟨s, rfl, -⟩ := hreads
    rfl

theorem coveragePasses_iff (h : ReadsReport v r) {c : Profile.Coverage} :
    CoveragePasses v c ↔ Profile.Covered r c := by
  constructor
  · intro hpasses asset
    cases hget : r.rootSums.get? (c.covered ++ "/" ++ asset) with
    | none => simp [Sums.amount, hget]
    | some a =>
      obtain ⟨w, hw, -, hreads⟩ := sums_complete h hget
      obtain ⟨held, required, hheld, hrequired, hle⟩ := hpasses _ hw (ofString asset)
        (stripName_ofString.mpr ⟨asset, rfl, rfl⟩)
      obtain rfl := Except.ok.inj ((parse_held h c asset).symm.trans hheld)
      obtain rfl := Except.ok.inj ((parseAmount18dp_reads hreads).symm.trans hrequired)
      rw [Sums.amount_of_get? hget]
      exact_mod_cast hle
  · intro hcovered e he name hstrip
    obtain ⟨k, a, hk, hget, hreads⟩ := sums_sound h he
    rw [hk] at hstrip
    obtain ⟨asset, rfl, rfl⟩ := stripName_ofString.mp hstrip
    refine ⟨_, _, parse_held h c asset, parseAmount18dp_reads hreads, ?_⟩
    have hle := hcovered asset
    rw [Sums.amount_of_get? hget] at hle
    exact_mod_cast hle

/-- A count that is kept is read as it is. -/
theorem toBigInt_of_kept {n : U64} (h : readCount n = n) :
    ((Js.num (ofNat n.val)).toBigInt : Browser.Throws ℤ) = .ok (n.val : ℤ) := by
  rw [toBigInt_count]
  by_cases hn : n.val < 2 ^ 53
  · rw [Binary64.ofNat_of_lt hn]
    rfl
  · obtain ⟨k, hk, hlow, hhigh⟩ := Binary64.ofNat_of_le (not_lt.mp hn) n.isLt
    have hval := congrArg Fin.val h
    rw [readCount, hk] at hval
    have hk64 : k % 2 ^ 64 = n.val := hval
    have heq : k = n.val := by omega
    rw [hk, heq]
    rfl

theorem mapPasses_iff (h : ReadsReport v r) (hcount : readCount r.leafCount = r.leafCount) {mapName : String} :
    MapPasses v mapName ↔ Profile.Unanimous r mapName := by
  have hbig := toBigInt_of_kept hcount
  rw [← h.leafCount] at hbig
  constructor
  · intro hpasses rule a hget
    obtain ⟨w, hw, -, hreads⟩ := sums_complete h hget
    obtain ⟨count, hc, htotal⟩ := hpasses _ hw
      (Option.isSome_iff_exists.mpr ⟨_, stripName_ofString.mpr ⟨rule, rfl, rfl⟩⟩)
    obtain rfl := Except.ok.inj (hbig.symm.trans hc)
    have heq := Except.ok.inj ((parseAmount18dp_reads hreads).symm.trans htotal)
    rw [Browser.scale] at heq
    exact_mod_cast heq
  · intro hunanimous e he hstrip
    obtain ⟨k, a, hk, hget, hreads⟩ := sums_sound h he
    obtain ⟨rest, hrest⟩ := Option.isSome_iff_exists.mp hstrip
    rw [hk] at hrest
    obtain ⟨rule, rfl, -⟩ := stripName_ofString.mp hrest
    refine ⟨_, hbig, ?_⟩
    rw [parseAmount18dp_reads hreads, hunanimous rule a hget, Browser.scale]
    norm_num

theorem rulesPass_iff (h : ReadsReport v r) (hcount : readCount r.leafCount = r.leafCount) {rules : ProfileRules}
    (hrules : rules ∈ registry) : RulesPass v rules ↔
      (∀ aggregate ∈ rules.requiredAggregates, Profile.AggregatePresent r aggregate) ∧
        (∀ c, rules.coverage = some c → Profile.Covered r c) ∧
        ∀ mapName ∈ rules.unanimousMaps, Profile.Unanimous r mapName := by
  have haggregates : ∀ aggregate ∈ rules.requiredAggregates,
      (AggregatePresent v aggregate ↔ Profile.AggregatePresent r aggregate) := fun aggregate ha =>
    aggregatePresent_iff h (aggregates_checkable rules hrules aggregate ha)
  constructor
  · rintro ⟨ha, hc, hm⟩
    exact ⟨fun aggregate hmem => (haggregates aggregate hmem).mp (ha aggregate hmem),
      fun c heq => (coveragePasses_iff h).mp (hc c (Option.mem_toList.mpr heq)),
      fun mapName hmem => (mapPasses_iff h hcount).mp (hm mapName hmem)⟩
  · rintro ⟨ha, hc, hm⟩
    exact ⟨fun aggregate hmem => (haggregates aggregate hmem).mpr (ha aggregate hmem),
      fun c hmem => (coveragePasses_iff h).mpr (hc c (Option.mem_toList.mp hmem)),
      fun mapName hmem => (mapPasses_iff h hcount).mpr (hm mapName hmem)⟩

/-! ## The registries -/

theorem registry_eq : registry = Browser.profileRegistry ++ [coverageCustody] := rfl

theorem lookupProfile_string (name : String) : Browser.lookupProfile (Js.string name) =
    if name = coverageCustody.name then none else Profile.lookup name := by
  have hfind : (fun rules : ProfileRules => (Js.string name).is (ofString rules.name)) =
      fun rules => decide (rules.name = name) := funext fun rules => by
    rw [Bool.eq_iff_iff, is_string, decide_eq_true_eq, eq_comm]
  rw [Browser.lookupProfile, hfind]
  split_ifs with hname
  · rw [hname]
    decide +kernel
  · rw [Profile.lookup, registry_eq, List.find?_append, List.find?_cons_of_neg (by simpa [eq_comm] using hname),
      List.find?_nil, Option.or_none]

theorem profile_of_lookup (h : ReadsReport v r) {rules : ProfileRules}
    (hlookup : Browser.lookupProfile (v.prop "profile") = some rules) :
    r.profile ≠ coverageCustody.name ∧ Profile.lookup r.profile = some rules := by
  rw [h.profile, lookupProfile_string] at hlookup
  split_ifs at hlookup with hname
  exact ⟨hname, hlookup⟩

theorem profile_iff (h : ReadsReport v r) (hcount : readCount r.leafCount = r.leafCount) {rules : ProfileRules} :
    (Browser.lookupProfile (v.prop "profile") = some rules ∧ RulesPass v rules) ↔
      r.profile ≠ coverageCustody.name ∧ Profile.validate r = .ok rules := by
  rw [h.profile, lookupProfile_string, Profile.validate_eq_ok]
  split_ifs with hname
  · simp [hname]
  · constructor
    · rintro ⟨hlookup, hpass⟩
      exact ⟨hname, hlookup, (rulesPass_iff h hcount (Profile.lookup_mem hlookup).1).mp hpass⟩
    · rintro ⟨-, hlookup, hpass⟩
      exact ⟨hlookup, (rulesPass_iff h hcount (Profile.lookup_mem hlookup).1).mpr hpass⟩

theorem expectLeafKind_agrees (h : ReadsReport v r) (hcount : readCount r.leafCount = r.leafCount)
    {wanted : LeafKind} : Browser.expectLeafKind v wanted = .ok () ↔
      r.profile ≠ coverageCustody.name ∧ ∃ rules, Profile.validate r = .ok rules ∧ rules.leaf = wanted := by
  rw [expectLeafKind_eq_ok h.object, ← exists_and_left]
  refine exists_congr fun rules => ?_
  rw [← and_assoc, profile_iff h hcount, and_assoc]

theorem mem_v2LeafKinds {rules : ProfileRules} (hrules : rules ∈ registry) (hname : rules.name ≠ coverageCustody.name) :
    rules.leaf ∈ Browser.v2LeafKinds ↔ rules.leaf.usesLeafV2 = true := by
  revert rules
  decide +kernel

theorem expectLeafV2_agrees (h : ReadsReport v r) (hcount : readCount r.leafCount = r.leafCount) :
    Browser.expectLeafV2 v = .ok () ↔ r.profile ≠ coverageCustody.name ∧
      ∃ rules, Profile.validate r = .ok rules ∧ rules.leaf.usesLeafV2 = true := by
  rw [expectLeafV2_eq_ok h.object, ← exists_and_left]
  refine exists_congr fun rules => ?_
  constructor
  · rintro ⟨hlookup, hkind, hpass⟩
    obtain ⟨hname, hvalid⟩ := (profile_iff h hcount).mp ⟨hlookup, hpass⟩
    obtain ⟨hrules, heq⟩ := Profile.lookup_mem (Profile.validate_eq_ok.mp hvalid).1
    exact ⟨hname, hvalid, (mem_v2LeafKinds hrules (heq ▸ hname)).mp hkind⟩
  · rintro ⟨hname, hvalid, hkind⟩
    obtain ⟨hlookup, hpass⟩ := (profile_iff h hcount).mpr ⟨hname, hvalid⟩
    obtain ⟨hrules, heq⟩ := Profile.lookup_mem (Profile.validate_eq_ok.mp hvalid).1
    exact ⟨hlookup, (mem_v2LeafKinds hrules (heq ▸ hname)).mpr hkind, hpass⟩

end AssuranceLayer.ProfileAgreement
