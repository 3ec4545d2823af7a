import Jos.StabBounds
import Jos.StabBrackets
import Jos.StabReads

/- What debuginfo_eip finds out about an address, from tables that lie in memory in order. -/
namespace JosStabLookup
open JosLayout JosMachine JosPmap JosPrintfmt JosKdebug JosDebuginfo JosStabSearch JosStabBrackets
open JosStabReads BackScan WhileLoop EventLog Logged
open JosStabBounds (Between)

structure EntryIn (s : State) (a : Nat) (entry : Stab) : Prop where
  strx : wordAt s a = some entry.nStrx
  type : byteAt s (a + 4) = some entry.nType
  desc : halfAt s (a + 6) = some entry.nDesc
  value : wordAt s (a + 8) = some entry.nValue

/-- A table of n stabs and its strings lie in memory, with less than 2 GB for each. -/
structure Loaded (s : State) (t : UserStabData) (tab : Int → Stab) (n : Nat) : Prop where
  size : t.stabEnd.toNat = t.stabs.toNat + STABSIZE * n
  small : STABSIZE * n < 2147483648
  entry : ∀ i : Int, 0 ≤ i → i < n → EntryIn s (entryAt t.stabs i) (tab i)
  strings : t.stabstr.toNat < t.stabstrEnd.toNat
  few : t.stabstrEnd.toNat - t.stabstr.toNat < 2147483648
  string : ∀ a, t.stabstr.toNat ≤ a → a < t.stabstrEnd.toNat → ∃ b, byteAt s a = some b
  nul : byteAt s (t.stabstrEnd.toNat - 1) = some 0

section Search
variable {s : State} {t : UserStabData} {tab : Int → Stab} {type L R : Int} {n fuel : Nat} {addr : UInt32}

theorem round_follows (entry : ∀ i, Between L R i → EntryIn s (entryAt t.stabs i) (tab i)) (q : Search) :
    Follows (Between L R) (binsearchStep (nType s t.stabs) (nValue s t.stabs) type q)
      (binsearchStep (JosStabBounds.nType tab) (JosStabBounds.nValue tab) type q) := by
  have isType_follows : ∀ i, Follows (Between L R) (isType (nType s t.stabs) type i)
      (isType (JosStabBounds.nType tab) type i) := fun i =>
    follows_bind (follows_event fun inside => (entry i inside).type) fun _ => follows_pure _
  unfold binsearchStep
  split
  · refine follows_bind (follows_back isType_follows _ _) ?_
    intro k
    split
    · exact follows_pure _
    · exact follows_bind (follows_event fun inside => (entry k inside).value) fun _ => follows_pure _
  · exact follows_pure none

theorem search_follows (entry : ∀ i, Between L R i → EntryIn s (entryAt t.stabs i) (tab i))
    (from_zero : 0 ≤ L) (small : R < 1073741824) {region : Int × Int}
    (run : binsearchIn tab type fuel L R addr = some region) :
    (search s t fuel L R type addr).result = some region := by
  have follows : Follows (Between L R)
      (stabBinsearch (nType s t.stabs) (nValue s t.stabs) fuel L R type addr)
      (JosStabBounds.search tab type fuel L R addr) := by
    unfold JosStabBounds.search stabBinsearch
    refine follows_bind (follows_loop (round_follows entry) fuel _) ?_
    intro found
    cases found with
    | none => exact follows_pure none
    | some q =>
      dsimp only
      split
      · refine follows_bind (follows_back ?_ _ _) fun _ => follows_pure _
        exact fun i => follows_bind (follows_event fun inside => (entry i inside).type) fun _ =>
          follows_pure _
      · exact follows_pure _
  have same := JosStabBounds.search_result tab type fuel L R addr
  rw [run] at same
  have found := follows (JosStabBounds.search_reads from_zero small fuel) _ same
  unfold search
  rw [bind_result found]
  rfl

/-- A search for an entry that is there, in a range in order, that does not slip. -/
structure Sought (tab : Int → Stab) (type L R : Int) (a : Nat) (i : Int) : Prop where
  rising : Rising tab type L R
  home : Latest (fun i => Of tab type i ∧ value tab i ≤ a) L R i
  fine : ¬ Slips tab type L R a

theorem search_found (entry : ∀ i, Between L R i → EntryIn s (entryAt t.stabs i) (tab i))
    (from_zero : 0 ≤ L) (small : R < 1073741824) {i : Int} (sought : Sought tab type L R addr.toNat i)
    (enough : 2 * (R + 1 - L).toNat + 1 < fuel) :
    ∃ right, (search s t fuel L R type addr).result = some (i, right) ∧
      Brackets tab type L R addr.toNat i right := by
  have closing : Closing tab type L R addr.toNat ⟨L, R, L, R, false, addr⟩ := by
    refine ⟨?_, ?_, Or.inl ?_⟩
    · exact fun j low before => absurd low (Int.not_le.mpr before)
    · exact fun j after high => absurd high (Int.not_le.mpr after)
    · exact fun j low before => absurd low (Int.not_le.mpr before)
  obtain ⟨q, run, within, stage, done⟩ := binsearchIn_total from_zero small
    (Stage tab type L R addr.toNat i) (.seeking closing rfl .refl)
    (fun q q' within stage more round => stage_next sought.rising within sought.home stage more round)
    enough
  have found := (stage_end within sought.home stage done).mpr sought.fine
  have same : (finish tab type q).1 = i := found.1.unique sought.home
  refine ⟨(finish tab type q).2, search_follows entry from_zero small ?_, ?_⟩
  · rw [run, ← same]
  · rw [← same]
    exact found

theorem brackets_unique {a : Nat} {left right right' : Int} (first : Brackets tab type L R a left right)
    (second : Brackets tab type L R a left right') : right = right' := by
  rcases first.2 with ⟨next, later, bound, here, none_between, ends⟩ | ⟨none_after, ends⟩
  · rcases second.2 with ⟨next', later', bound', here', none_between', ends'⟩ | ⟨none_after', ends'⟩
    · rcases Int.lt_trichotomy next next' with before | same | past
      · exact absurd here (none_between' next later before)
      · omega
      · exact absurd here' (none_between next' later' past)
    · exact absurd here (none_after' next later bound)
  · rcases second.2 with ⟨next', later', bound', here', _, _⟩ | ⟨none_after', ends'⟩
    · exact absurd here' (none_after next' later' bound')
    · omega

theorem brackets_order {a : Nat} {left right : Int} (brackets : Brackets tab type L R a left right) :
    left ≤ right ∧ right ≤ R := by
  have high := brackets.1.high
  rcases brackets.2 with ⟨next, later, bound, _, _, ends⟩ | ⟨_, ends⟩
  · omega
  · omega

/-- A search slips only where there is an entry with the next address. -/
theorem slips_next {a : Nat} (slips : Slips tab type L R a) :
    a + 1 = WORD ∨ ∃ i, L ≤ i ∧ i ≤ R ∧ Of tab type i ∧ value tab i = a + 1 := by
  obtain ⟨k, r, ⟨l, path, found, _⟩, wraps | ⟨i, after, bound, here, same, _⟩⟩ := slips
  · exact Or.inl wraps
  · have kept : L ≤ l ∧ r ≤ R := by
      clear found bound
      generalize place : (l, r) = x at path
      induction path generalizing l r with
      | refl =>
        cases place
        exact ⟨Int.le_refl L, Int.le_refl R⟩
      | tail _ step ih =>
        cases step with
        | absent more _ =>
          cases place
          obtain ⟨low, high⟩ := ih _ _ rfl
          omega
        | low found _ =>
          cases place
          obtain ⟨low, high⟩ := ih _ _ rfl
          have := found.low
          have := found.high
          omega
        | high found _ =>
          cases place
          obtain ⟨low, high⟩ := ih _ _ rfl
          have := found.low
          have := found.high
          omega
    have low := found.low
    exact Or.inr ⟨i, by omega, by omega, here, same⟩

theorem search_nothing (entry : ∀ i, Between L R i → EntryIn s (entryAt t.stabs i) (tab i))
    (from_zero : 0 ≤ L) (small : R < 1073741824) (none_here : ∀ i, L ≤ i → i ≤ R → ¬ Of tab type i)
    (enough : 2 * (R + 1 - L).toNat + 1 < fuel) :
    (search s t fuel L R type addr).result = some (L, L - 1) := by
  have all_above : ∀ i, L ≤ i → i ≤ R → Of tab type i → addr.toNat < value tab i :=
    fun i low high here => absurd here (none_here i low high)
  have start : NothingBelow tab type L R addr ⟨L, R, L, R, false, addr⟩ :=
    ⟨rfl, rfl, fun j from_start before => absurd from_start (Int.not_le.mpr before),
      iff_of_false Bool.false_ne_true (Int.lt_irrefl R)⟩
  obtain ⟨q, run, within, held, done⟩ := binsearchIn_total from_zero small (NothingBelow tab type L R addr)
    start (fun q q' within held more round => nothingBelow_next all_above within held more round) enough
  have unmoved : q.anyMatches = false := by
    cases met : q.anyMatches with
    | false => rfl
    | true =>
      obtain ⟨inside, here⟩ := within.next (held.met.mp met)
      have high := within.high
      have moved := held.met.mp met
      exact absurd here (none_here (q.r + 1) inside (by omega))
  have ends : finish tab type q = (L, L - 1) := by
    unfold finish
    rw [unmoved, held.left]
    rfl
  apply search_follows entry from_zero small
  rw [run, ends]

end Search

def nameFrom (t : UserStabData) (strx : UInt32) : Name :=
  if strx < t.stabstrEnd - t.stabstr then .at (t.stabstr + strx).toNat else .unknown

def NameLength (s : State) : Name → Int → Prop
  | .unknown, len => len = 9
  | .at p, len => ∃ k : Nat, len = k ∧ (∀ j, j < k → ∃ b, byteAt s (p + j) = some b ∧ b ≠ 0 ∧ b ≠ 0x3a) ∧
      (byteAt s (p + k) = some 0 ∨ byteAt s (p + k) = some 0x3a)

/-- An entry that names the file of the lines after it. -/
def NamesFile (tab : Int → Stab) (i : Int) : Prop := Of tab N_SOL i ∨ Of tab N_SO i ∧ (tab i).nValue ≠ 0

instance (tab : Int → Stab) (i : Int) : Decidable (NamesFile tab i) := inferInstanceAs (Decidable (_ ∨ _))

def FileOf (t : UserStabData) (tab : Int → Stab) (L line : Int) (name : Name) : Prop :=
  (∃ i, Latest (NamesFile tab) L line i ∧ name = nameFrom t (tab i).nStrx) ∨
    (∀ i, L ≤ i → i ≤ line → ¬ NamesFile tab i) ∧ name = .unknown

structure Parameters (tab : Int → Stab) (first last : Int) (k : Nat) : Prop where
  each : ∀ i, first < i → i ≤ first + k → i < last ∧ Of tab N_PSYM i
  no_more : ¬ (first + k + 1 < last ∧ Of tab N_PSYM (first + k + 1))

section Strings
variable {s : State} {t : UserStabData} {tab : Int → Stab} {n fuel : Nat}

theorem stabCount_loaded (loaded : Loaded s t tab n) : stabCount t = n := by
  have size := loaded.size
  have small := loaded.small
  have bytes : (t.stabEnd.toNat : Int) - t.stabs.toNat = 12 * n := by
    simp only [STABSIZE] at size
    omega
  simp only [STABSIZE] at small
  have inverse : 12 * (n : Int) / 4 * 0xaaaaaaab = n + 4294967296 * (2 * n) := by omega
  unfold stabCount
  rw [bytes, wrap_small (z := 12 * (n : Int)) (by omega) (by omega), inverse]
  have no_turns : wrap (n + 4294967296 * (2 * n)) = wrap n := Int.add_mul_bmod_self_left n 4294967296 (2 * n)
  rw [no_turns]
  exact wrap_small (by omega) (by omega)

theorem strfind_ends (loaded : Loaded s t tab n) {p d : Nat} (inside : t.stabstr.toNat ≤ p)
    (left : p + d + 1 = t.stabstrEnd.toNat) (enough : d < fuel) :
    ∃ k, k ≤ d ∧ (loop (strfindStep s 0x3a) fuel p).result = some (some (p + k)) ∧
      NameLength s (.at p) k := by
  induction d generalizing p fuel with
  | zero =>
    obtain ⟨fuel, rfl⟩ := Nat.exists_eq_add_one_of_ne_zero (Nat.ne_of_gt (Nat.zero_lt_of_lt enough))
    have nul : byteAt s p = some 0 := by
      have last := loaded.nul
      rw [← left] at last
      exact last
    have none_before : ∀ j, j < 0 → ∃ b, byteAt s (p + j) = some b ∧ b ≠ 0 ∧ b ≠ 0x3a :=
      fun j early => absurd early (Nat.not_lt_zero j)
    refine ⟨0, Nat.le_refl 0, ?_, 0, rfl, none_before, Or.inl nul⟩
    have done : (strfindStep s 0x3a p).result = some none := by
      unfold strfindStep strByte
      rw [nul, event_some]
      rfl
    unfold loop
    rw [bind_result done]
    rfl
  | succ d ih =>
    obtain ⟨fuel, rfl⟩ := Nat.exists_eq_add_one_of_ne_zero (Nat.ne_of_gt (Nat.zero_lt_of_lt enough))
    obtain ⟨b, here⟩ := loaded.string p inside (by omega)
    by_cases ends : b = 0 ∨ b = 0x3a
    · have done : (strfindStep s 0x3a p).result = some none := by
        unfold strfindStep strByte
        rw [here, event_some]
        dsimp only
        rw [if_pos ends]
        rfl
      refine ⟨0, Nat.zero_le _, ?_, 0, rfl, fun j none_before => absurd none_before (Nat.not_lt_zero j), ?_⟩
      · unfold loop
        rw [bind_result done]
        rfl
      · rcases ends with rfl | rfl
        · exact Or.inl here
        · exact Or.inr here
    · have small := t.stabstrEnd.toNat_lt
      have next : (strfindStep s 0x3a p).result = some (some (p + 1)) := by
        have kept : (p + 1) % WORD = p + 1 := Nat.mod_eq_of_lt (by simp only [WORD]; omega)
        unfold strfindStep strByte
        rw [here, event_some]
        dsimp only
        rw [if_neg ends, kept]
        rfl
      have later : t.stabstr.toNat ≤ p + 1 := Nat.le_succ_of_le inside
      obtain ⟨k, bound, run, k', same, before, last⟩ := ih later (by omega) (Nat.lt_of_succ_lt_succ enough)
      obtain rfl : k = k' := Int.ofNat.inj same
      rw [Nat.add_assoc, Nat.add_comm 1 k] at run last
      refine ⟨k + 1, Nat.succ_le_succ bound, ?_, k + 1, rfl, ?_, last⟩
      · unfold loop
        rw [bind_result next]
        exact run
      · intro j early
        cases j with
        | zero => exact ⟨b, here, fun nul => ends (Or.inl nul), fun colon => ends (Or.inr colon)⟩
        | succ j =>
          have there := before j (by omega)
          rw [Nat.add_assoc, Nat.add_comm 1 j] at there
          exact there

theorem name_place (loaded : Loaded s t tab n) {strx : UInt32} (inside : strx < t.stabstrEnd - t.stabstr) :
    ∃ d, (t.stabstr + strx).toNat + d + 1 = t.stabstrEnd.toNat ∧ t.stabstr.toNat ≤ (t.stabstr + strx).toNat ∧
      d < t.stabstrEnd.toNat - t.stabstr.toNat := by
  have strings := loaded.strings
  have size : (t.stabstrEnd - t.stabstr).toNat = t.stabstrEnd.toNat - t.stabstr.toNat :=
    UInt32.toNat_sub_of_le _ _ (UInt32.le_iff_toNat_le.mpr (Nat.le_of_lt strings))
  have low : strx.toNat < t.stabstrEnd.toNat - t.stabstr.toNat := by
    rw [← size]
    exact UInt32.lt_iff_toNat_lt.mp inside
  have small := t.stabstrEnd.toNat_lt
  have place : (t.stabstr + strx).toNat = t.stabstr.toNat + strx.toNat := by
    rw [UInt32.toNat_add]
    exact Nat.mod_eq_of_lt (by omega)
  exact ⟨t.stabstrEnd.toNat - t.stabstr.toNat - strx.toNat - 1, by omega, by omega, by omega⟩

theorem namelen_ends (loaded : Loaded s t tab n) (strx : UInt32)
    (enough : t.stabstrEnd.toNat - t.stabstr.toNat < fuel) :
    ∃ len, (namelen s fuel (nameFrom t strx)).result = some len ∧ NameLength s (nameFrom t strx) len := by
  unfold nameFrom
  split
  · rename_i inside
    have few := loaded.few
    obtain ⟨d, left, low, rounds⟩ := name_place loaded inside
    obtain ⟨k, bound, run, length⟩ := strfind_ends loaded low left (Nat.lt_trans rounds enough)
    refine ⟨k, ?_, length⟩
    have distance : wrap ((((t.stabstr + strx).toNat + k : Nat) : Int) - (t.stabstr + strx).toNat) = k := by
      rw [wrap_small (by omega) (by omega)]
      omega
    unfold namelen
    dsimp only
    rw [bind_result run]
    exact congrArg some distance
  · exact ⟨9, rfl, rfl⟩

end Strings

section Entries
variable {s : State} {t : UserStabData} {tab : Int → Stab} {L R : Int}

theorem nameOf_entry {i : Int} (entry : EntryIn s (entryAt t.stabs i) (tab i)) :
    (nameOf s t i .unknown).result = some (nameFrom t (tab i).nStrx) := by
  unfold nameOf nStrx nameFrom
  rw [entry.strx, event_some]
  dsimp only
  split
  · rfl
  · rfl

theorem nDesc_entry {i : Int} (entry : EntryIn s (entryAt t.stabs i) (tab i)) :
    (nDesc s t.stabs i).result = some (tab i).nDesc := entry.desc

theorem nValue_entry {i : Int} (entry : EntryIn s (entryAt t.stabs i) (tab i)) :
    (nValue s t.stabs i).result = some (tab i).nValue := entry.value

theorem fileEntry_follows (entry : ∀ i, Between L R i → EntryIn s (entryAt t.stabs i) (tab i)) (i : Int) :
    Follows (Between L R) (fileEntry s t.stabs i) (event i (some (decide (NamesFile tab i)))) := by
  intro events
  have here := entry i (events i List.mem_cons_self)
  intro a run
  cases run
  unfold fileEntry JosDebuginfo.nType
  rw [here.type, event_some]
  dsimp only
  by_cases sol : ((tab i).nType.toNat : Int) = N_SOL
  · have names : NamesFile tab i := Or.inl sol
    rw [if_pos sol, decide_eq_true names]
    rfl
  · rw [if_neg sol]
    by_cases so : ((tab i).nType.toNat : Int) = N_SO
    · rw [if_pos so, bind_result (nValue_entry here)]
      refine congrArg some (decide_eq_decide.mpr ⟨fun nonzero => Or.inr ⟨so, nonzero⟩, ?_⟩)
      rintro (sol' | ⟨_, nonzero⟩)
      · exact absurd sol' sol
      · exact nonzero
    · rw [if_neg so]
      refine congrArg some (decide_eq_false ?_).symm
      rintro (sol' | ⟨so', _⟩)
      · exact sol sol'
      · exact so so'

theorem file_found (entry : ∀ i, Between L R i → EntryIn s (entryAt t.stabs i) (tab i)) {line : Int}
    (low : L ≤ line) (high : line ≤ R) :
    ∃ i, (back (fileEntry s t.stabs) (line - L + 1).toNat line).result = some i ∧
      ∃ name, (if i ≥ L then nameOf s t i .unknown else pure .unknown : Run Name).result = some name ∧
        FileOf t tab L line name := by
  obtain ⟨i, scan⟩ : ∃ i : Int,
      back (m := Id) (fun i => decide (NamesFile tab i)) (line - L + 1).toNat line = i := ⟨_, rfl⟩
  have follows := follows_back (fileEntry_follows entry) (line - L + 1).toNat line
  have inside : Only (Between L R) (back (fun i => event i (some (decide (NamesFile tab i))))
      (line - L + 1).toNat line) :=
    only_back _ _ fun j after before e member => by
      rw [List.mem_singleton.mp member]
      exact ⟨by omega, by omega⟩
  have run : (back (fun i => event i (some (decide (NamesFile tab i)))) (line - L + 1).toNat line).result = _ :=
    back_result (fun i => rfl) (line - L + 1).toNat line
  refine ⟨i, follows inside i (run.trans (congrArg some scan)), ?_⟩
  have lowest : line - ((line - L + 1).toNat : Int) = L - 1 := by omega
  rcases back_spec (P := NamesFile tab) (fun i => decide_eq_true_iff) scan with found | ⟨below, none_here⟩
  · rw [lowest, Int.sub_add_cancel] at found
    have i_low := found.low
    have i_high := found.high
    rw [if_pos i_low]
    exact ⟨_, nameOf_entry (entry i ⟨i_low, by omega⟩), Or.inl ⟨i, found, rfl⟩⟩
  · rw [if_neg (by omega)]
    exact ⟨.unknown, rfl, Or.inr ⟨fun j after bound => none_here j (by omega) bound, rfl⟩⟩

theorem countArgs_counts (n : Nat) {first last : Int} (size : last = first + 1 + n)
    (entry : ∀ i, first < i → i < last → EntryIn s (entryAt t.stabs i) (tab i)) :
    ∃ k : Nat, (countArgs s t.stabs n (first + 1)).result = some (k : Int) ∧ Parameters tab first last k := by
  induction n generalizing first with
  | zero => exact ⟨0, rfl, fun i after bound => by omega, by omega⟩
  | succ n ih =>
    have here := entry (first + 1) (by omega) (by omega)
    unfold countArgs JosDebuginfo.nType
    rw [here.type, event_some]
    dsimp only
    by_cases parameter : ((tab (first + 1)).nType.toNat : Int) = N_PSYM
    · have shorter : last = first + 1 + 1 + n := by omega
      obtain ⟨k, run, each, no_more⟩ := ih shorter fun i after => entry i (by omega)
      refine ⟨k + 1, ?_, ?_, ?_⟩
      · rw [if_pos parameter, bind_result run]
        change some (1 + (k : Int)) = some ((k + 1 : Nat) : Int)
        rw [Int.natCast_add, Int.add_comm]
        rfl
      · intro i after bound
        by_cases same : i = first + 1
        · exact ⟨by omega, same ▸ parameter⟩
        · exact each i (by omega) (by omega)
      · have place : first + ((k + 1 : Nat) : Int) + 1 = first + 1 + k + 1 := by omega
        rw [place]
        exact no_more
    · rw [if_neg parameter]
      refine ⟨0, rfl, fun i after bound => by omega, ?_⟩
      rw [Int.natCast_zero, Int.add_zero]
      exact fun more => parameter more.2

end Entries

/-- The entries that are about an address: those of its source file, those of its function, or of the
    whole file where that has no function, and its line. -/
structure Place where
  file : Int
  fileEnd : Int
  inFunction : Bool
  first : Int
  last : Int
  line : Int

/-- The address as the lines count it: in a function from its start. -/
def Place.offset (p : Place) (tab : Int → Stab) (addr : UInt32) : UInt32 :=
  if p.inFunction then addr - (tab p.first).nValue else addr

structure Describes (tab : Int → Stab) (n : Nat) (addr : UInt32) (p : Place) : Prop where
  file : Sought tab N_SO 0 (n - 1) addr.toNat p.file
  fileEnd : Brackets tab N_SO 0 (n - 1) addr.toNat p.file p.fileEnd
  header : p.file ≠ 0
  function : p.inFunction = true → Sought tab N_FUN p.file p.fileEnd addr.toNat p.first ∧
    Brackets tab N_FUN p.file p.fileEnd addr.toNat p.first p.last
  assembly : p.inFunction = false → p.first = p.file ∧ p.last = p.fileEnd ∧
    ∀ i, p.file ≤ i → i ≤ p.fileEnd → ¬ Of tab N_FUN i
  line : Sought tab N_SLINE p.first p.last (p.offset tab addr).toNat p.line

/-- What is to be found out about an address in this place. -/
structure Tells (s : State) (t : UserStabData) (tab : Int → Stab) (p : Place) (addr : UInt32)
    (info : Eipdebuginfo) : Prop where
  file : FileOf t tab p.file p.line info.eipFile
  line : info.eipLine = (tab p.line).nDesc.toNat
  fnName : info.eipFnName = if p.inFunction then nameFrom t (tab p.first).nStrx else .unknown
  fnNamelen : NameLength s info.eipFnName info.eipFnNamelen
  fnAddr : info.eipFnAddr = if p.inFunction then (tab p.first).nValue else addr
  fnNarg : ∃ k : Nat, info.eipFnNarg = k ∧ (p.inFunction = true → Parameters tab p.first p.last k) ∧
    (p.inFunction = false → k = 0)

section Main
variable {kernel : UserStabData} {s : State} {t : UserStabData} {tab : Int → Stab} {n fuel : Nat}
variable {addr : UInt32} {p : Place}

theorem place_order (describes : Describes tab n addr p) :
    0 ≤ p.file ∧ p.file ≤ p.first ∧ p.first ≤ p.line ∧ p.line ≤ p.last ∧ p.last ≤ p.fileEnd ∧
      p.fileEnd < n := by
  have file := describes.file.home.low
  obtain ⟨_, inside⟩ := brackets_order describes.fileEnd
  have line := describes.line.home
  have low := line.low
  have high := line.high
  cases kind : p.inFunction with
  | true =>
    obtain ⟨sought, brackets⟩ := describes.function kind
    have first := sought.home.low
    have last := (brackets_order brackets).2
    omega
  | false =>
    obtain ⟨first, last, _⟩ := describes.assembly kind
    omega

theorem if_bind {α β : Type} (c : Prop) [Decidable c] (x y : Run α) (f : α → Run β) :
    (if c then x >>= f else y >>= f) = (if c then x else y) >>= f := by
  split
  · rfl
  · rfl

theorem narg_finds (entry : ∀ i, p.first < i → i < p.last → EntryIn s (entryAt t.stabs i) (tab i))
    {lfun rfun : Int}
    (region : p.inFunction = true ∧ lfun = p.first ∧ rfun = p.last ∨ p.inFunction = false ∧ rfun < lfun) :
    ∃ k : Nat, (if lfun < rfun then countArgs s t.stabs (rfun - lfun - 1).toNat (lfun + 1)
        else pure 0 : Run Int).result = some (k : Int) ∧
      (p.inFunction = true → Parameters tab p.first p.last k) ∧ (p.inFunction = false → k = 0) := by
  rcases region with ⟨kind, rfl, rfl⟩ | ⟨kind, crossed⟩
  · have other : ∀ {k : Nat}, p.inFunction = false → k = 0 :=
      fun no => Bool.noConfusion (no.symm.trans kind)
    by_cases more : p.first < p.last
    · have size : p.last = p.first + 1 + (p.last - p.first - 1).toNat := by omega
      obtain ⟨k, run, parameters⟩ := countArgs_counts (p.last - p.first - 1).toNat size entry
      rw [if_pos more]
      exact ⟨k, run, fun _ => parameters, other⟩
    · rw [if_neg more]
      exact ⟨0, rfl, fun _ => ⟨fun i after bound => by omega, by omega⟩, other⟩
  · rw [if_neg (by omega)]
    exact ⟨0, rfl, fun yes => Bool.noConfusion (kind.symm.trans yes), fun _ => rfl⟩

theorem lineInfo_finds (loaded : Loaded s t tab n) (describes : Describes tab n addr p)
    (enough : 2 * n + 1 < fuel) {lfun rfun : Int} {info : Eipdebuginfo} (unknown : info.eipFile = .unknown)
    (region : p.inFunction = true ∧ lfun = p.first ∧ rfun = p.last ∨ p.inFunction = false ∧ rfun < lfun)
    (name : info.eipFnName = if p.inFunction then nameFrom t (tab p.first).nStrx else .unknown)
    (length : NameLength s info.eipFnName info.eipFnNamelen)
    (start : info.eipFnAddr = if p.inFunction then (tab p.first).nValue else addr) :
    ∃ found, (lineInfo s t fuel (p.offset tab addr) info p.file lfun rfun p.first p.last).result =
      some (0, found) ∧ Tells s t tab p addr found := by
  obtain ⟨from_zero, file, low, high, last, inside⟩ := place_order describes
  have small := loaded.small
  have few : (n : Int) ≤ 178956970 := by
    simp only [STABSIZE] at small
    omega
  have entry : ∀ i, Between p.file p.fileEnd i → EntryIn s (entryAt t.stabs i) (tab i) := by
    rintro i ⟨from_start, bound⟩
    exact loaded.entry i (by omega) (by omega)
  have in_scope : ∀ i, Between p.first p.last i → EntryIn s (entryAt t.stabs i) (tab i) := by
    rintro i ⟨from_start, bound⟩
    exact entry i ⟨by omega, by omega⟩
  have rounds : 2 * (p.last + 1 - p.first).toNat + 1 < fuel := by omega
  obtain ⟨right, searched, brackets⟩ := search_found in_scope (by omega) (by omega) describes.line rounds
  have order := (brackets_order brackets).1
  have line_low : p.file ≤ p.line := by omega
  have line_high : p.line ≤ p.fileEnd := by omega
  obtain ⟨i, scanned, file_name, named, file_is⟩ := file_found entry line_low line_high
  obtain ⟨k, counted, parameters⟩ := narg_finds (p := p)
    (fun i after bound => in_scope i ⟨by omega, by omega⟩) region
  refine ⟨{ info with eipLine := (tab p.line).nDesc.toNat, eipFile := file_name, eipFnNarg := k }, ?_,
    file_is, rfl, name, length, start, k, rfl, parameters⟩
  unfold lineInfo
  rw [bind_result searched]
  dsimp only
  rw [if_pos order, bind_result (nDesc_entry (entry p.line ⟨line_low, line_high⟩)), bind_result scanned]
  rw [unknown, if_bind, bind_result named, if_bind, bind_result counted]
  rfl

theorem lookUp_finds (loaded : Loaded s t tab n) (describes : Describes tab n addr p)
    (enough : 2 * n + 1 < fuel) (long : t.stabstrEnd.toNat - t.stabstr.toNat < fuel) :
    ∃ found, (lookUp s t fuel addr (unknownInfo addr)).result = some (0, found) ∧
      Tells s t tab p addr found := by
  obtain ⟨from_zero, file, low, high, last, inside⟩ := place_order describes
  have small := loaded.small
  have few : (n : Int) ≤ 178956970 := by
    simp only [STABSIZE] at small
    omega
  have in_table : ∀ i, Between 0 (n - 1) i → EntryIn s (entryAt t.stabs i) (tab i) :=
    fun i between => loaded.entry i between.1 (Int.le_sub_one_iff.mp between.2)
  have in_file : ∀ i, Between p.file p.fileEnd i → EntryIn s (entryAt t.stabs i) (tab i) := by
    rintro i ⟨from_start, bound⟩
    exact loaded.entry i (by omega) (by omega)
  obtain ⟨right, searched, brackets⟩ := search_found in_table (Int.le_refl 0) (by omega) describes.file
    (show 2 * ((n : Int) - 1 + 1 - 0).toNat + 1 < fuel by omega)
  obtain rfl := brackets_unique brackets describes.fileEnd
  have whole : wrap (stabCount t - 1) = n - 1 := by
    rw [stabCount_loaded loaded]
    exact wrap_small (by omega) (by omega)
  have rounds : 2 * (p.fileEnd + 1 - p.file).toNat + 1 < fuel := by omega
  unfold lookUp
  rw [whole, bind_result searched]
  dsimp only
  rw [if_neg describes.header]
  cases kind : p.inFunction with
  | true =>
    obtain ⟨sought, ends⟩ := describes.function kind
    obtain ⟨right, searched, brackets⟩ := search_found in_file from_zero (by omega) sought rounds
    obtain rfl := brackets_unique brackets ends
    have here := in_file p.first ⟨file, by omega⟩
    obtain ⟨len, counted, length⟩ := namelen_ends loaded (tab p.first).nStrx long
    have offset : p.offset tab addr = addr - (tab p.first).nValue := if_pos kind
    have named : (nameOf s t p.first (unknownInfo addr).eipFnName).result = _ := nameOf_entry here
    obtain ⟨found, run, tells⟩ := @lineInfo_finds s t tab n fuel addr p loaded describes enough p.first p.last
      ⟨.unknown, 0, nameFrom t (tab p.first).nStrx, len, (tab p.first).nValue, 0⟩ rfl
      (Or.inl ⟨kind, rfl, rfl⟩) (if_pos kind).symm length (if_pos kind).symm
    refine ⟨found, ?_, tells⟩
    rw [bind_result searched]
    dsimp only
    rw [if_pos (show p.first ≤ p.last by omega), bind_result named, bind_result (nValue_entry here),
      bind_result counted, ← offset]
    exact run
  | false =>
    obtain ⟨first, scope, none_here⟩ := describes.assembly kind
    have nothing := @search_nothing s t tab N_FUN _ _ fuel addr in_file from_zero (by omega) none_here rounds
    have outside : ¬ p.inFunction = true := Bool.eq_false_iff.mp kind
    have offset : p.offset tab addr = addr := if_neg outside
    obtain ⟨found, run, tells⟩ := @lineInfo_finds s t tab n fuel addr p loaded describes enough p.file
      (p.file - 1) ⟨.unknown, 0, .unknown, 9, addr, 0⟩ rfl (Or.inr ⟨kind, by omega⟩) (if_neg outside).symm
      rfl (if_neg outside).symm
    refine ⟨found, ?_, tells⟩
    rw [bind_result nothing]
    dsimp only
    rw [if_neg (by omega)]
    rw [offset, first, scope] at run
    exact run

/-- The tables debuginfo_eip takes for the address: the kernel's, or those it opens at USTABDATA. -/
def Taken (kernel : UserStabData) (s : State) (addr : UInt32) (t : UserStabData) : Prop :=
  ULIM ≤ addr.toNat ∧ kernel = t ∨ addr.toNat < ULIM ∧ Opens s t

theorem debuginfoEip_taken (loaded : Loaded s t tab n) (taken : Taken kernel s addr t) :
    (debuginfoEip kernel fuel s addr).result =
      (lookUp s t fuel addr (unknownInfo addr)).result.map fun out => (out.1, out.2, s) := by
  rcases taken with ⟨above, rfl⟩ | ⟨user, opens⟩
  · have tables : (findStabs kernel s addr).result = some (some kernel, s) := by
      unfold findStabs
      rw [if_pos above]
      rfl
    have strings := loaded.strings
    have order : ¬ kernel.stabstrEnd ≤ kernel.stabstr := by
      rw [UInt32.le_iff_toNat_le]
      omega
    have one : (1 : UInt32) ≤ kernel.stabstrEnd := by
      rw [UInt32.le_iff_toNat_le]
      change 1 ≤ kernel.stabstrEnd.toNat
      omega
    have last : (kernel.stabstrEnd - 1).toNat = kernel.stabstrEnd.toNat - 1 := UInt32.toNat_sub_of_le _ _ one
    have valid : (validStrings s kernel).result = some true := by
      unfold validStrings strByte
      rw [if_neg order, last, loaded.nul, event_some]
      rfl
    unfold debuginfoEip
    rw [bind_result tables]
    dsimp only
    rw [bind_result valid, if_pos rfl]
    cases next : (lookUp s kernel fuel addr (unknownInfo addr)).result with
    | none =>
      rw [bind_none next]
      rfl
    | some out =>
      rw [bind_result next]
      rfl
  · rw [debuginfoEip_opens user opens]

/-- Of an address that its tables describe, debuginfo_eip finds out the file, the line, the function and
    its parameters. -/
theorem debuginfo_eip_finds (loaded : Loaded s t tab n) (taken : Taken kernel s addr t)
    (describes : Describes tab n addr p) (enough : 2 * n + 1 < fuel)
    (long : t.stabstrEnd.toNat - t.stabstr.toNat < fuel) :
    ∃ info, (debuginfoEip kernel fuel s addr).result = some (0, info, s) ∧ Tells s t tab p addr info := by
  obtain ⟨info, run, tells⟩ := lookUp_finds loaded describes enough long
  refine ⟨info, ?_, tells⟩
  rw [debuginfoEip_taken loaded taken, run]
  rfl

/-- A file of one function, with one parameter and two lines, and an entry for the table before it. -/
def fewStabs (i : Int) : Stab :=
  if i = 1 then ⟨1, 0x64, 0, 0xF0100000⟩
  else if i = 2 then ⟨5, 0x24, 0, 0xF0100000⟩
  else if i = 3 then ⟨9, 0xa0, 0, 8⟩
  else if i = 4 then ⟨0, 0x44, 7, 0⟩
  else if i = 5 then ⟨0, 0x44, 9, 3⟩
  else ⟨0, 0, 0, 0⟩

def fewTables : UserStabData := ⟨0xF0000000, 0xF0000048, 0xF0000048, 0xF0000053⟩

def fewWords : List (Nat × Nat) :=
  [(3, 1), (4, 0x64), (5, 0xF0100000), (6, 5), (7, 0x24), (8, 0xF0100000), (9, 9), (10, 0xa0), (11, 8),
    (13, 0x70044), (16, 0x90044), (17, 3), (18, 0x632E6100), (19, 0x463A6600), (20, 0x6E00),
    (32, 0xF00000A0), (33, 0xF0100004), (34, 2), (40, 0), (41, 0xF0100004), (42, 3)]

def fewPage : State :=
  let s := { JosUserMemCheck.emptySpace with cr3 := 1000 }
  let s := s.setEntry 1000 960 (page2pa 1001 ||| PTE_W ||| PTE_P)
  let s := s.setEntry 1001 0 (page2pa 1002 ||| PTE_W ||| PTE_P)
  fewWords.foldl (fun s w => s.setEntry 1002 w.1 w.2) s

theorem fewPage_loaded : Loaded fewPage fewTables fewStabs 6 where
  size := by decide
  small := by decide
  entry := by
    intro i low high
    obtain rfl | rfl | rfl | rfl | rfl | rfl : i = 0 ∨ i = 1 ∨ i = 2 ∨ i = 3 ∨ i = 4 ∨ i = 5 := by omega
    all_goals exact ⟨by decide, by decide, by decide, by decide⟩
  strings := by decide
  few := by decide
  string := by
    intro a low high
    have there : ∀ k, k < 11 → (byteAt fewPage (0xF0000048 + k)).isSome := by decide
    obtain ⟨k, rfl⟩ : ∃ k, a = 0xF0000048 + k := ⟨a - 0xF0000048, by change 0xF0000048 ≤ a at low; omega⟩
    exact Option.isSome_iff_exists.mp (there k (by change _ < 0xF0000053 at high; omega))
  nul := by decide

theorem fewStabs_types {i : Int} (low : 0 ≤ i) (high : i ≤ 5) : (Of fewStabs N_SO i → i = 1) ∧
    (Of fewStabs N_FUN i → i = 2) ∧ (Of fewStabs N_SLINE i → i = 4 ∨ i = 5) := by
  obtain rfl | rfl | rfl | rfl | rfl | rfl : i = 0 ∨ i = 1 ∨ i = 2 ∨ i = 3 ∨ i = 4 ∨ i = 5 := by omega
  all_goals decide

theorem fewStabs_single {type L k : Int} {a : Nat} (low : L ≤ k) (high : k ≤ 5)
    (here : Of fewStabs type k ∧ value fewStabs k ≤ a)
    (only : ∀ i, L ≤ i → i ≤ 5 → Of fewStabs type i → i = k)
    (apart : a + 1 ≠ WORD ∧ value fewStabs k ≠ a + 1) :
    Sought fewStabs type L 5 a k ∧ Brackets fewStabs type L 5 a k 5 := by
  have home : Latest (fun i => Of fewStabs type i ∧ value fewStabs i ≤ a) L 5 k :=
    ⟨low, high, here, fun j after bound there => by
      have := only j (by omega) bound there.1
      omega⟩
  refine ⟨⟨?_, home, ?_⟩, home, Or.inr ⟨fun j after bound there => ?_, rfl⟩⟩
  · intro i j i_low before j_high i_here j_here
    have := only i i_low (by omega) i_here
    have := only j (by omega) j_high j_here
    omega
  · intro slips
    rcases slips_next slips with wraps | ⟨i, i_low, i_high, there, same⟩
    · exact apart.1 wraps
    · obtain rfl := only i i_low i_high there
      exact apart.2 same
  · have := only j (by omega) bound there
    omega

theorem fewStabs_file :
    Sought fewStabs N_SO 0 5 0xF0100004 1 ∧ Brackets fewStabs N_SO 0 5 0xF0100004 1 5 :=
  fewStabs_single (by decide) (by decide) (by decide)
    (fun _ low high => (fewStabs_types low high).1) (by decide)

theorem fewStabs_function :
    Sought fewStabs N_FUN 1 5 0xF0100004 2 ∧ Brackets fewStabs N_FUN 1 5 0xF0100004 2 5 :=
  fewStabs_single (by decide) (by decide) (by decide)
    (fun _ low high => (fewStabs_types (Int.le_trans (by decide) low) high).2.1) (by decide)

theorem fewStabs_line : Sought fewStabs N_SLINE 2 5 4 5 where
  rising := by
    intro i j low before high i_here j_here
    obtain rfl | rfl := (fewStabs_types (by omega) (by omega)).2.2 i_here
    · obtain rfl : j = 5 := by omega
      decide
    · omega
  home := ⟨by decide, by decide, by decide, fun j after bound => by omega⟩
  fine := by
    intro slips
    rcases slips_next slips with wraps | ⟨i, low, high, here, same⟩
    · exact absurd wraps (by decide)
    · obtain rfl | rfl := (fewStabs_types (by omega) high).2.2 here
      · exact absurd same (by decide)
      · exact absurd same (by decide)

def fewPlace : Place := ⟨1, 5, true, 2, 5, 5⟩

theorem fewStabs_describes : Describes fewStabs 6 0xF0100004 fewPlace where
  file := fewStabs_file.1
  fileEnd := fewStabs_file.2
  header := by decide
  function := fun _ => fewStabs_function
  assembly := fun outside => by cases outside
  line := fewStabs_line

theorem debuginfo_eip_finds_fewTables : ∃ info, (debuginfoEip fewTables 20 fewPage 0xF0100004).result =
    some (0, info, fewPage) ∧ Tells fewPage fewTables fewStabs fewPlace 0xF0100004 info :=
  debuginfo_eip_finds fewPage_loaded (Or.inl ⟨by decide, rfl⟩) fewStabs_describes (by decide) (by decide)

end Main

end JosStabLookup
