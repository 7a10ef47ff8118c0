import AssuranceLayer.LeafOrder

set_option autoImplicit false

/-!
What the command line makes of a file of balances: every row is one balance of one customer, and the
order of the rows does not matter.
-/
namespace AssuranceLayer.BalanceFile
open Fallible Amount Sums Merkle Produce Command LeafOrder SortedMap

/-! ## Lines and columns -/

def lineFeed : Char := Char.ofNat 0x0a
def carriageReturn : Char := Char.ofNat 0x0d

def withoutReturn (cs : List Char) : List Char :=
  if cs.getLast? = some carriageReturn then cs.dropLast else cs

/-- `str::lines`. What stands behind the last line feed is a line only if anything stands there, and
    keeps a carriage return. -/
def lines (text : String) : List String :=
  let parts := text.toList.splitOn lineFeed
  (parts.dropLast.map withoutReturn ++ parts.getLast?.toList.filter (· ≠ [])).map String.ofList

def columns (line : String) : List String :=
  (line.toList.splitOn ',').map fun col => trim (String.ofList col)

/-- The lines that are not blank. -/
def dataLines (text : String) : List String := ((lines text).map trim).filter (· ≠ "")

/-- What a line says in its first three columns. -/
def rowOf (line : String) : String × String × U128 :=
  match columns line with
  | userId :: asset :: raw :: _ => (userId, asset, (parseAmount18dp raw).toOption.getD 0)
  | _ => ("", "", 0)

def pairOf (line : String) : String × String := ((rowOf line).1, (rowOf line).2.1)

/-- The balances of all leaves, each with its customer. -/
def committedRows (leaves : List LeafInput) : List (String × String × U128) :=
  leaves.flatMap fun l => l.balances.entries.map fun e => (l.userId, e.1, e.2)

variable (sha256 : List UInt8 → Digest)

structure ReadWithoutLoss (text masterSalt : String) (leaves : List LeafInput) : Prop where
  columns : ∀ line ∈ dataLines text, ∃ userId asset raw amount,
    columns line = [userId, asset, raw] ∧ parseAmount18dp raw = .ok amount ∧
      rowOf line = (userId, asset, amount)
  entries : (committedRows leaves).Perm ((dataLines text).map rowOf)
  pairs : ((dataLines text).map pairOf).Nodup
  users : (leaves.map LeafInput.userId).Nodup ∧
    ∀ u, u ∈ leaves.map LeafInput.userId ↔ ∃ line ∈ dataLines text, (rowOf line).1 = u
  totals : ∀ a, (leaves.map fun l => amount l.balances a).sum =
    entryTotal a ((dataLines text).map fun line => (rowOf line).2)
  order : ∀ text', (lines text').Perm (lines text) → readBalances sha256 text' masterSalt = .ok leaves

/-! ## Trimmed lines -/

theorem dropWhile_concat {p : Char → Bool} {c : Char} (hc : p c = true) (cs : List Char) :
    ((cs ++ [c]).dropWhile p).reverse.dropWhile p = (cs.dropWhile p).reverse.dropWhile p := by
  by_cases h : ∀ d ∈ cs, p d = true
  · have hall : ∀ d ∈ cs ++ [c], p d = true := by
      intro d hd
      rcases List.mem_append.mp hd with hd | hd
      · exact h d hd
      · exact List.mem_singleton.mp hd ▸ hc
    rw [List.dropWhile_eq_nil_iff.mpr h, List.dropWhile_eq_nil_iff.mpr hall]
  · have hne : cs.dropWhile p ≠ [] := fun hnil => h (List.dropWhile_eq_nil_iff.mp hnil)
    rw [List.dropWhile_append, if_neg (by simpa using hne), List.reverse_append, List.reverse_singleton,
      List.singleton_append, List.dropWhile_cons_of_pos hc]

theorem trim_concat {c : Char} (hc : isWhitespace c = true) (cs : List Char) :
    trim (String.ofList (cs ++ [c])) = trim (String.ofList cs) := by
  rw [trim, trim, String.toList_ofList, String.toList_ofList, dropWhile_concat hc]

theorem trim_withoutReturn (cs : List Char) :
    trim (String.ofList (withoutReturn cs)) = trim (String.ofList cs) := by
  rw [withoutReturn]
  split_ifs with h
  · obtain ⟨init, rfl⟩ := List.getLast?_eq_some_iff.mp h
    rw [List.dropLast_concat, trim_concat (by decide)]
  · rfl

/-- The line endings are blank, so splitting at the line feeds finds the same lines. -/
theorem dataLines_eq (text : String) : dataLines text =
    ((text.toList.splitOn lineFeed).map fun cs => trim (String.ofList cs)).filter (· ≠ "") := by
  have hne : text.toList.splitOn lineFeed ≠ [] := List.splitOn_ne_nil _ _
  have hinit : ((text.toList.splitOn lineFeed).dropLast.map withoutReturn).map
      (fun cs => trim (String.ofList cs)) =
      (text.toList.splitOn lineFeed).dropLast.map fun cs => trim (String.ofList cs) := by
    rw [List.map_map]
    exact List.map_congr_left fun cs _ => trim_withoutReturn cs
  have hlast : ∀ cs : List Char,
      (((some cs).toList.filter (· ≠ [])).map fun cs => trim (String.ofList cs)).filter (· ≠ "") =
        [trim (String.ofList cs)].filter (· ≠ "") := by
    intro cs
    by_cases h : cs = []
    · subst h
      rfl
    · simp [h]
  conv_rhs => rw [← List.dropLast_append_getLast hne, List.map_append, List.filter_append,
    List.map_singleton]
  rw [dataLines, lines, List.map_map, List.map_append, List.filter_append, ← hlast]
  congr 1
  · rw [← hinit]
    rfl
  · rw [List.getLast?_eq_some_getLast hne]
    rfl

/-! ## One row -/

/-- The amount a customer holds of an asset so far. -/
def held (users : Users) (pair : String × String) : Option U128 :=
  (users.get? pair.1).bind fun balances => balances.get? pair.2

def enter (users : Users) (row : String × String × U128) : Users :=
  users.insert row.1 (((users.get? row.1).getD empty).insert row.2.1 row.2.2)

/-- A line the command line accepts on its own. -/
def Readable (line : String) : Prop :=
  ∃ userId asset raw rest amount, columns line = userId :: asset :: raw :: rest ∧ userId ≠ "" ∧
    asset ≠ "" ∧ parseAmount18dp raw = .ok amount ∧ rowOf line = (userId, asset, amount)

theorem held_enter (users : Users) (row : String × String × U128) (pair : String × String) :
    held (enter users row) pair =
      if (row.1, row.2.1) = pair then some row.2.2 else held users pair := by
  obtain ⟨u, a, v⟩ := row
  obtain ⟨u', a'⟩ := pair
  simp only [held, enter, get?_insert, Prod.mk.injEq]
  by_cases hu : u = u'
  · subst hu
    rw [if_pos rfl, Option.bind_some, get?_insert]
    by_cases ha : a = a'
    · rw [if_pos ha, if_pos ⟨rfl, ha⟩]
    · rw [if_neg ha, if_neg fun h => ha h.2]
      cases users.get? u <;> rfl
  · rw [if_neg hu, if_neg fun h => hu h.1]

theorem held_eq_none {users : Users} {userId asset : String} :
    ((users.get? userId).getD empty).get? asset = none ↔ held users (userId, asset) = none := by
  rw [held]
  cases users.get? userId <;> rfl

theorem rowOf_eq {line userId asset raw : String} {rest : List String} {v : U128}
    (h : columns line = userId :: asset :: raw :: rest) (hv : parseAmount18dp raw = .ok v) :
    rowOf line = (userId, asset, v) := by
  simp only [rowOf, h, hv]
  rfl

theorem readRow_eq_ok {users users' : Users} {row : List Char × ℕ} :
    readRow users row = .ok users' ↔
      (trim (String.ofList row.1) = "" ∧ users' = users) ∨
      trim (String.ofList row.1) ≠ "" ∧ Readable (trim (String.ofList row.1)) ∧
        held users (pairOf (trim (String.ofList row.1))) = none ∧
        users' = enter users (rowOf (trim (String.ofList row.1))) := by
  rw [readRow]
  generalize trim (String.ofList row.1) = line
  by_cases hblank : line = ""
  · rw [if_pos hblank, pure_eq_ok, or_iff_left fun h => h.1 hblank, and_iff_right hblank, eq_comm]
  · rw [if_neg hblank, or_iff_right fun h => hblank h.1, and_iff_right hblank]
    change (match columns line with
      | userId :: asset :: raw :: _ => _
      | _ => _) = _ ↔ _
    split
    · next userId asset raw rest hcols =>
      simp only [bind_eq_ok, ensure_eq_ok, mapError_eq_ok, pure_eq_ok, Unique.exists_iff]
      constructor
      · rintro ⟨⟨hu, ha⟩, v, hv, hnew, rfl⟩
        have hrow := rowOf_eq hcols hv
        refine ⟨⟨userId, asset, raw, rest, v, hcols, hu, ha, hv, hrow⟩, ?_, ?_⟩
        · rw [pairOf, hrow]
          exact held_eq_none.mp hnew
        · rw [hrow, enter]
      · rintro ⟨⟨userId', asset', raw', rest', v, hcols', hu, ha, hv, hrow⟩, hnew, rfl⟩
        rw [hcols] at hcols'
        simp only [List.cons.injEq] at hcols'
        obtain ⟨rfl, rfl, rfl, rfl⟩ := hcols'
        rw [pairOf, hrow] at hnew
        exact ⟨⟨hu, ha⟩, v, hv, held_eq_none.mpr hnew, by rw [hrow, enter]⟩
    · next hnot =>
      simp only [reduceCtorEq, false_iff, not_and]
      rintro ⟨userId, asset, raw, rest, v, hcols, _⟩
      exact absurd hcols (hnot userId asset raw rest)

/-! ## All rows -/

/-- The rows are read one by one under new pairs, which blank lines do not touch. -/
theorem readRows_eq_ok {parts : List (List Char)} {k : ℕ} {users users' : Users} :
    (parts.zipIdx k).foldlM readRow users = .ok users' ↔
      (∀ line ∈ (parts.map fun cs => trim (String.ofList cs)).filter (· ≠ ""),
        Readable line ∧ held users (pairOf line) = none) ∧
      (((parts.map fun cs => trim (String.ofList cs)).filter (· ≠ "")).map pairOf).Nodup ∧
      users' = (((parts.map fun cs => trim (String.ofList cs)).filter (· ≠ "")).map rowOf).foldl enter users := by
  induction parts generalizing k users with
  | nil => simp [pure, Except.pure, eq_comm]
  | cons part parts ih =>
    simp only [List.zipIdx_cons, List.foldlM_cons, bind_eq_ok, readRow_eq_ok, ih, List.map_cons,
      List.filter_cons]
    generalize trim (String.ofList part) = line
    generalize (parts.map fun cs => trim (String.ofList cs)).filter (fun line => decide (line ≠ "")) = rest
    by_cases hblank : line = ""
    · simp [hblank]
    · rw [if_pos (decide_eq_true hblank), List.map_cons, List.map_cons, List.nodup_cons,
        List.foldl_cons, List.forall_mem_cons]
      constructor
      · rintro ⟨mid, ⟨h, -⟩ | ⟨-, hread, hnew, rfl⟩, hrest, hnodup, rfl⟩
        · exact absurd h hblank
        · have hother : ∀ l ∈ rest, pairOf line ≠ pairOf l ∧ held users (pairOf l) = none := by
            intro l hl
            have hheld := (hrest l hl).2
            rw [held_enter] at hheld
            split_ifs at hheld with heq
            exact ⟨heq, hheld⟩
          refine ⟨⟨⟨hread, hnew⟩, fun l hl => ⟨(hrest l hl).1, (hother l hl).2⟩⟩, ⟨?_, hnodup⟩, rfl⟩
          rw [List.mem_map]
          rintro ⟨l, hl, heq⟩
          exact (hother l hl).1 heq.symm
      · rintro ⟨⟨⟨hread, hnew⟩, hrest⟩, ⟨hnot, hnodup⟩, rfl⟩
        refine ⟨_, .inr ⟨hblank, hread, hnew, rfl⟩, fun l hl => ⟨(hrest l hl).1, ?_⟩, hnodup, rfl⟩
        rw [held_enter, if_neg]
        · exact (hrest l hl).2
        · intro heq
          exact hnot (List.mem_map.mpr ⟨l, hl, heq.symm⟩)

/-- Rows under different pairs are all found again. -/
theorem held_foldl {rows : List (String × String × U128)}
    (h : (rows.map fun r => (r.1, r.2.1)).Nodup) (users : Users)
    (hnew : ∀ r ∈ rows, held users (r.1, r.2.1) = none) (pair : String × String) (v : U128) :
    held (rows.foldl enter users) pair = some v ↔
      (pair.1, pair.2, v) ∈ rows ∨ held users pair = some v := by
  induction rows generalizing users with
  | nil => simp
  | cons r rows ih =>
    rw [List.map_cons, List.nodup_cons] at h
    rw [List.forall_mem_cons] at hnew
    have hnew' : ∀ s ∈ rows, held (enter users r) (s.1, s.2.1) = none := by
      intro s hs
      rw [held_enter, if_neg]
      · exact hnew.2 s hs
      · intro heq
        exact h.1 (List.mem_map.mpr ⟨s, hs, heq.symm⟩)
    rw [List.foldl_cons, ih h.2 _ hnew', held_enter, List.mem_cons]
    split_ifs with heq
    · subst heq
      rw [hnew.1]
      simp only [Option.some.injEq, reduceCtorEq, or_false, Prod.ext_iff, true_and]
      rw [or_comm, eq_comm]
    · have hne : (pair.1, pair.2, v) ≠ r := by
        rintro rfl
        exact heq rfl
      simp [hne]

theorem keys_foldl {rows : List (String × String × U128)} {users : Users} {u : String} :
    u ∈ (rows.foldl enter users).keys ↔ u ∈ users.keys ∨ ∃ r ∈ rows, r.1 = u := by
  induction rows generalizing users with
  | nil => simp
  | cons r rows ih =>
    rw [List.foldl_cons, ih, enter, mem_keys_insert]
    rw [List.exists_mem_cons_iff, eq_comm, or_right_comm, or_comm, or_left_comm]

/-- What is held, and by whom, is all there is to the customers. -/
theorem users_ext {users users' : Users} (hheld : ∀ pair v, held users pair = some v ↔ held users' pair = some v)
    (hkeys : ∀ u, u ∈ users.keys ↔ u ∈ users'.keys) : users = users' := by
  apply ext_get?
  intro u
  have hsome := hkeys u
  rw [mem_keys, mem_keys] at hsome
  cases h : users.get? u with
  | none =>
    rw [h] at hsome
    exact (Option.not_isSome_iff_eq_none.mp fun h' => Bool.false_ne_true (hsome.mpr h')).symm
  | some balances =>
    rw [h] at hsome
    obtain ⟨balances', h'⟩ := Option.isSome_iff_exists.mp (hsome.mp rfl)
    rw [h']
    congr 1
    apply ext_get?
    intro a
    ext v
    have hpair := hheld (u, a) v
    rwa [held, held, h, h'] at hpair

/-! ## The whole file -/

theorem readUsers_eq_ok {text : String} {users : Users} : readUsers text = .ok users ↔
    (∀ line ∈ dataLines text, Readable line) ∧ ((dataLines text).map pairOf).Nodup ∧
      users = ((dataLines text).map rowOf).foldl enter empty := by
  rw [readUsers, dataLines_eq]
  change (List.zipIdx (text.toList.splitOn lineFeed) 0).foldlM readRow empty = _ ↔ _
  rw [readRows_eq_ok]
  refine and_congr_left fun _ => forall₂_congr fun line _ => ?_
  exact and_iff_left rfl

theorem held_users {text : String} {users : Users} (h : readUsers text = .ok users)
    (pair : String × String) (v : U128) :
    held users pair = some v ↔ (pair.1, pair.2, v) ∈ (dataLines text).map rowOf := by
  obtain ⟨_, hnodup, rfl⟩ := readUsers_eq_ok.mp h
  rw [held_foldl (by rwa [List.map_map]) empty fun _ _ => rfl]
  exact or_iff_left (Option.some_ne_none v).symm

theorem keys_users {text : String} {users : Users} (h : readUsers text = .ok users) (u : String) :
    u ∈ users.keys ↔ ∃ line ∈ dataLines text, (rowOf line).1 = u := by
  obtain ⟨_, _, rfl⟩ := readUsers_eq_ok.mp h
  rw [keys_foldl]
  simp [keys, empty]

theorem dataLines_perm {text text' : String} (h : (lines text').Perm (lines text)) :
    (dataLines text').Perm (dataLines text) := (h.map trim).filter _

/-- The order of the lines is lost in the customers. -/
theorem readUsers_perm {text text' : String} {users : Users} (h : (lines text').Perm (lines text))
    (hread : readUsers text = .ok users) : readUsers text' = .ok users := by
  have hperm := dataLines_perm h
  obtain ⟨hreadable, hnodup, _⟩ := readUsers_eq_ok.mp hread
  have hread' : readUsers text' = .ok (((dataLines text').map rowOf).foldl enter empty) :=
    readUsers_eq_ok.mpr ⟨fun line hline => hreadable line (hperm.mem_iff.mp hline),
      (hperm.map pairOf).nodup_iff.mpr hnodup, rfl⟩
  have heq : ((dataLines text').map rowOf).foldl enter empty = users := by
    refine users_ext (fun pair v => ?_) fun u => ?_
    · rw [held_users hread', held_users hread, (hperm.map rowOf).mem_iff]
    · rw [keys_users hread', keys_users hread]
      simp only [hperm.mem_iff]
  rw [hread', heq]

section
variable {sha256} {text masterSalt : String} {users : Users} {leaves : List LeafInput}

theorem committedRows_map (users : Users) (masterSalt : List UInt8) :
    committedRows (users.entries.map (customerLeaf sha256 masterSalt)) =
      users.entries.flatMap fun user => user.2.entries.map fun e => (user.1, e.1, e.2) := by
  rw [committedRows, List.flatMap_map]
  rfl

theorem mem_rows {row : String × String × U128} :
    row ∈ (users.entries.flatMap fun user => user.2.entries.map fun e => (user.1, e.1, e.2)) ↔
      held users (row.1, row.2.1) = some row.2.2 := by
  obtain ⟨u, a, v⟩ := row
  simp only [List.mem_flatMap, List.mem_map, held, Option.bind_eq_some_iff, Prod.mk.injEq]
  constructor
  · rintro ⟨user, huser, e, he, rfl, rfl, rfl⟩
    exact ⟨user.2, get?_eq_some.mpr huser, get?_eq_some.mpr he⟩
  · rintro ⟨balances, hbalances, hv⟩
    exact ⟨(u, balances), get?_eq_some.mp hbalances, (a, v), get?_eq_some.mp hv, rfl, rfl, rfl⟩

theorem rows_nodup (users : Users) :
    (users.entries.flatMap fun user => user.2.entries.map fun e => (user.1, e.1, e.2)).Nodup := by
  rw [List.nodup_flatMap]
  constructor
  · intro user _
    exact user.2.entries_nodup.map fun e f h => (Prod.mk.inj h).2
  · have hne := List.pairwise_map.mp users.keys_nodup
    refine hne.imp fun {user other} hother => ?_
    simp only [Function.onFun, List.disjoint_left, List.mem_map]
    rintro row ⟨e, _, rfl⟩ ⟨f, _, hf⟩
    exact hother (congrArg Prod.fst hf).symm

/-- Every row is one balance of the committed leaves, and there are no others. -/
theorem committedRows_perm (h : readUsers text = .ok users)
    (hleaves : leaves.Perm (users.entries.map (customerLeaf sha256 (utf8 masterSalt)))) :
    (committedRows leaves).Perm ((dataLines text).map rowOf) := by
  have hnodup : ((dataLines text).map rowOf).Nodup := by
    obtain ⟨_, hpairs, _⟩ := readUsers_eq_ok.mp h
    refine List.Nodup.of_map (fun r => (r.1, r.2.1)) ?_
    rwa [List.map_map]
  refine (hleaves.flatMap_right _).trans ?_
  rw [← committedRows, committedRows_map]
  refine (List.perm_ext_iff_of_nodup (rows_nodup users) hnodup).mpr fun row => ?_
  rw [mem_rows, held_users h]

theorem total_eq (leaves : List LeafInput) (a : String) :
    (leaves.map fun l => amount l.balances a).sum =
      entryTotal a ((committedRows leaves).map Prod.snd) := by
  rw [committedRows, List.map_flatMap, entryTotal_flatMap]
  congr 1
  refine List.map_congr_left fun l _ => ?_
  rw [List.map_map, ← entryTotal_entries]
  congr 1
  exact (List.map_id _).symm

theorem columns_length (line : String) : (columns line).length = line.toList.count ',' + 1 := by
  rw [columns, List.length_map]
  induction line.toList with
  | nil => rfl
  | cons c cs ih =>
    rw [List.splitOn_cons_eq_if_modifyHead, List.count_cons]
    split_ifs with h
    · rw [List.length_cons, ih]
    · rw [List.length_modifyHead, ih]

/-- The customers are those the lines name, each once. -/
theorem users_of_read (h : readBalances sha256 text masterSalt = .ok leaves) :
    (leaves.map LeafInput.userId).Nodup ∧
      ∀ u, u ∈ leaves.map LeafInput.userId ↔ ∃ line ∈ dataLines text, (rowOf line).1 = u := by
  obtain ⟨users, hread, _, rfl⟩ := readBalances_eq_ok.mp h
  have hids := (List.perm_insertionSort saltOrder
    (users.entries.map (customerLeaf sha256 (utf8 masterSalt)))).map LeafInput.userId
  have hkeys : (users.entries.map (customerLeaf sha256 (utf8 masterSalt))).map LeafInput.userId =
      users.keys := by
    rw [List.map_map]
    rfl
  rw [hkeys] at hids
  exact ⟨hids.nodup_iff.mpr users.keys_nodup, fun u => by rw [hids.mem_iff, keys_users hread]⟩

/-- A file that is accepted is read without loss exactly when no line has a column behind its
    amount. -/
theorem read_without_loss_iff (h : readBalances sha256 text masterSalt = .ok leaves) :
    ReadWithoutLoss sha256 text masterSalt leaves ↔
      ∀ line ∈ dataLines text, line.toList.count ',' ≤ 2 := by
  have husers := users_of_read h
  obtain ⟨users, hread, hsome, rfl⟩ := readBalances_eq_ok.mp h
  obtain ⟨hreadable, hpairs, _⟩ := readUsers_eq_ok.mp hread
  have hleaves := List.perm_insertionSort saltOrder
    (users.entries.map (customerLeaf sha256 (utf8 masterSalt)))
  have hrows := committedRows_perm hread hleaves
  constructor
  · intro hlossless line hline
    obtain ⟨userId, asset, raw, amount, hcols, _, _⟩ := hlossless.columns line hline
    have hlen := columns_length line
    rw [hcols] at hlen
    exact (Nat.succ.inj hlen).ge
  · intro hcommas
    refine ⟨fun line hline => ?_, hrows, hpairs, husers, fun a => ?_, fun text' hperm => ?_⟩
    · obtain ⟨userId, asset, raw, rest, amount, hcols, _, _, hamount, hrow⟩ := hreadable line hline
      have hlen := columns_length line
      have hle := hcommas line hline
      rw [hcols, List.length_cons, List.length_cons, List.length_cons] at hlen
      obtain rfl : rest = [] := List.eq_nil_of_length_eq_zero (by omega)
      exact ⟨userId, asset, raw, amount, hcols, hamount, hrow⟩
    · rw [total_eq, entryTotal_perm (hrows.map Prod.snd), List.map_map]
      rfl
    · exact readBalances_eq_ok.mpr ⟨users, readUsers_perm hperm hread, hsome, rfl⟩

end

theorem read_without_loss_iff_two : ∃ leaves,
    readBalances Sha256.sha256 "alice,USDA,1\n\nbob,USDA,2.5\n" saltText = .ok leaves ∧
      ReadWithoutLoss Sha256.sha256 "alice,USDA,1\n\nbob,USDA,2.5\n" saltText leaves := by
  obtain ⟨leaves, h⟩ : ∃ leaves,
      readBalances Sha256.sha256 "alice,USDA,1\n\nbob,USDA,2.5\n" saltText = .ok leaves :=
    exists_of_isOk (by decide +kernel)
  exact ⟨leaves, h, (read_without_loss_iff h).mpr (by decide +kernel)⟩

/-- A thousands separator: the row is accepted, and 1 is committed in place of 1000. -/
theorem surplus_column_ignored : ∃ leaves,
    readBalances Sha256.sha256 "alice,USDA,1,000" saltText = .ok leaves ∧
      (leaves.map fun l => amount l.balances "USDA").sum = 10 ^ 18 ∧
      ¬ ReadWithoutLoss Sha256.sha256 "alice,USDA,1,000" saltText leaves := by
  obtain ⟨leaves, h⟩ : ∃ leaves, readBalances Sha256.sha256 "alice,USDA,1,000" saltText = .ok leaves :=
    exists_of_isOk (by decide +kernel)
  have htotal : ((readBalances Sha256.sha256 "alice,USDA,1,000" saltText).toOption.map
      fun leaves => (leaves.map fun l => amount l.balances "USDA").sum) = some (10 ^ 18) := by
    decide +kernel
  rw [h] at htotal
  refine ⟨leaves, h, Option.some.inj htotal, fun hlossless => ?_⟩
  obtain ⟨userId, asset, raw, amount, hcols, _, _⟩ := hlossless.columns "alice,USDA,1,000" (by decide +kernel)
  have hlen := columns_length "alice,USDA,1,000"
  simp [hcols] at hlen

end AssuranceLayer.BalanceFile
