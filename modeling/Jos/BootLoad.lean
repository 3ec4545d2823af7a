import Jos.Env

/- The boot loader: readseg in whole sectors, and the loop of bootmain over the program headers it
   read to 0x10000. -/
namespace JosBootLoad
open JosLayout JosEnv CountedLoop

abbrev SECTSIZE : Nat := 512
abbrev ELFHDR : Nat := 0x10000

/-- Physical memory, by address. The disk is one too, by place; the kernel image starts in sector 1. -/
abbrev Mem : Type := Nat → UInt8

inductive Stop where
  | running
  | bad
  deriving DecidableEq

def readsect (disk : Mem) (dst sector : Nat) (mem : Mem) : Mem :=
  fun a => if dst ≤ a ∧ a < dst + SECTSIZE then disk (sector * SECTSIZE + (a - dst)) else mem a

def readsegLoop (disk : Mem) : Nat → Nat → Nat → Nat → Mem → Except Stop Mem
  | 0, _, _, _, _ => .error .running
  | fuel + 1, pa, endPa, sector, mem =>
    if pa < endPa then
      readsegLoop disk fuel ((pa + SECTSIZE) % WORD) endPa ((sector + 1) % WORD) (readsect disk pa sector mem)
    else .ok mem

def readseg (disk : Mem) (fuel pa count offset : Nat) (mem : Mem) : Except Stop Mem :=
  readsegLoop disk fuel (pa - pa % SECTSIZE) ((pa + count) % WORD) (offset / SECTSIZE + 1) mem

/-- What the loader finds at ELFHDR. -/
def elfhdr (mem : Mem) : Binary := ⟨ELFHDR, fun o => mem ((ELFHDR + o) % WORD)⟩

def pPa (b : Binary) (o : Nat) : Nat := b.long (o + 12)

def bootSegment (disk : Mem) (fuel ph : Nat) (mem : Mem) : Except Stop Mem :=
  let elf := elfhdr mem
  readseg disk fuel (pPa elf ph) (elf.pMemsz ph) (elf.pOffset ph) mem

def bootmain (disk : Mem) (fuel : Nat) (mem : Mem) : Except Stop Mem := do
  let mem ← readseg disk fuel ELFHDR (SECTSIZE * 8) 0 mem
  let elf := elfhdr mem
  if elf.eMagic ≠ ELF_MAGIC then .error .bad
  else times (fun k mem => bootSegment disk fuel (elf.ph k) mem) elf.phCount mem

structure Segment where
  pa : Nat
  memsz : Nat
  filesz : Nat
  offset : Nat
  deriving DecidableEq

def image (disk : Mem) : Binary := ⟨ELFHDR, fun o => disk (SECTSIZE + o)⟩

def segment (disk : Mem) (k : Nat) : Segment :=
  let ph := (image disk).ph k
  ⟨pPa (image disk) ph, (image disk).pMemsz ph, (image disk).pFilesz ph, (image disk).pOffset ph⟩

/-- Images the loader is meant for. That the segments come in increasing order and are disjoint is not
    needed below. -/
structure Fit (disk : Mem) : Prop where
  magic : (image disk).eMagic = ELF_MAGIC
  table : (image disk).ePhoff + 32 * (image disk).ePhnum ≤ 4096
  file : ∀ k, k < (image disk).ePhnum → (segment disk k).filesz ≤ (segment disk k).memsz
  wraps : ∀ k, k < (image disk).ePhnum → (segment disk k).pa + (segment disk k).memsz < WORD
  clear : ∀ k, k < (image disk).ePhnum →
    (segment disk k).pa + (segment disk k).memsz ≤ ELFHDR ∨ ELFHDR + 4096 ≤ (segment disk k).pa
  aligned : ∀ k, k < (image disk).ePhnum →
    (segment disk k).pa % SECTSIZE = (segment disk k).offset % SECTSIZE

def Loaded (disk mem : Mem) : Prop :=
  ∃ fuel mem', bootmain disk fuel mem = .ok mem' ∧
    ∀ k, k < (image disk).ePhnum → ∀ i, i < (segment disk k).filesz →
      mem' ((segment disk k).pa + i) = disk (SECTSIZE + (segment disk k).offset + i)

/-- The address lies in one of the sectors that are read for the segment. -/
def Segment.Covers (g : Segment) (a : Nat) : Prop :=
  g.pa - g.pa % SECTSIZE < g.pa + g.memsz ∧ g.pa - g.pa % SECTSIZE ≤ a ∧
    a < (g.pa + g.memsz + (SECTSIZE - 1)) / SECTSIZE * SECTSIZE

instance (g : Segment) (a : Nat) : Decidable (g.Covers a) := inferInstanceAs (Decidable (_ ∧ _))

def Segment.Ends (g : Segment) : Prop :=
  g.pa - g.pa % SECTSIZE < g.pa + g.memsz → g.pa + g.memsz ≤ WORD - SECTSIZE

instance (g : Segment) : Decidable g.Ends := inferInstanceAs (Decidable (_ → _))

/-- Where a later segment has a sector in common with an earlier one, the file has the same byte for
    both. The last such segment decides. -/
def Agree (disk : Mem) : Prop :=
  ∀ k j, k < j → j < (image disk).ePhnum → ∀ i, i < (segment disk k).filesz →
    (segment disk j).Covers ((segment disk k).pa + i) →
    (∀ l, j < l → l < (image disk).ePhnum → ¬ (segment disk l).Covers ((segment disk k).pa + i)) →
    disk (SECTSIZE + ((segment disk j).offset + ((segment disk k).pa + i) - (segment disk j).pa)) =
      disk (SECTSIZE + (segment disk k).offset + i)

/- readseg, sector after sector. -/
theorem readsegLoop_more {disk : Mem} {fuel pa endPa sector : Nat} {mem mem' : Mem} (extra : Nat)
    (run : readsegLoop disk fuel pa endPa sector mem = .ok mem') :
    readsegLoop disk (fuel + extra) pa endPa sector mem = .ok mem' := by
  induction fuel generalizing pa sector mem with
  | zero => cases run
  | succ fuel ih =>
    rw [Nat.succ_add]
    unfold readsegLoop at run ⊢
    split
    · rename_i inside
      rw [if_pos inside] at run
      exact ih run
    · rename_i outside
      rwa [if_neg outside] at run

theorem readsect_at (disk : Mem) (dst sector : Nat) (mem : Mem) (a : Nat) :
    readsect disk dst sector mem a =
      if dst ≤ a ∧ a < dst + 512 then disk (sector * 512 + (a - dst)) else mem a := rfl

theorem readsegLoop_round {disk : Mem} {fuel pa endPa sector : Nat} {mem : Mem} (inside : pa < endPa)
    (room : pa + SECTSIZE < WORD) (few : sector + 1 < WORD) :
    readsegLoop disk (fuel + 1) pa endPa sector mem =
      readsegLoop disk fuel (pa + SECTSIZE) endPa (sector + 1) (readsect disk pa sector mem) := by
  rw [readsegLoop, if_pos inside, Nat.mod_eq_of_lt room, Nat.mod_eq_of_lt few]

theorem within_next (lo a size rest : Nat) : (lo ≤ a ∧ a < lo + (rest + size)) ↔
    (lo ≤ a ∧ a < lo + size) ∨ (lo + size ≤ a ∧ a < lo + size + rest) := by
  omega

theorem readsegLoop_covers (disk : Mem) (n : Nat) {fuel lo endPa sector : Nat} (mem : Mem)
    (start : lo % 512 = 0) (low : endPa ≤ 4294966784) (rounds : n = (endPa - lo + 511) / 512)
    (enough : n < fuel) (few : sector + n < 4294967296) :
    ∃ mem', readsegLoop disk fuel lo endPa sector mem = .ok mem' ∧
      ∀ a, mem' a = if lo ≤ a ∧ a < lo + 512 * n then disk (sector * 512 + (a - lo)) else mem a := by
  induction n generalizing fuel lo sector mem with
  | zero =>
    cases fuel with
    | zero => omega
    | succ fuel =>
      refine ⟨mem, if_neg (by omega), fun a => (if_neg (by omega)).symm⟩
  | succ n ih =>
    cases fuel with
    | zero => omega
    | succ fuel =>
      have inside : lo < endPa := by omega
      obtain ⟨mem', run, bytes⟩ := @ih fuel (lo + 512) (sector + 1) (readsect disk lo sector mem)
        (by omega) (by omega) (by omega) (by omega)
      refine ⟨mem', ?_, ?_⟩
      · have room : lo + 512 < 4294967296 := by omega
        have more : sector + 1 < 4294967296 := by omega
        exact (readsegLoop_round inside room more).trans run
      · intro a
        have within := within_next lo a 512 (512 * n)
        rw [bytes a, show 512 * (n + 1) = 512 * n + 512 from Nat.mul_succ 512 n]
        by_cases later : lo + 512 ≤ a ∧ a < lo + 512 + 512 * n
        · rw [if_pos later, if_pos (within.mpr (.inr later))]
          exact congrArg disk (by omega)
        · rw [if_neg later, readsect_at]
          by_cases here : lo ≤ a ∧ a < lo + 512
          · rw [if_pos here, if_pos (within.mpr (.inl here))]
          · rw [if_neg here, if_neg fun h => (within.mp h).elim here later]

/-- An end inside the last sector of the address space is never reached: pa returns to 0 first. -/
theorem readsegLoop_hangs (disk : Mem) (fuel : Nat) {pa endPa sector : Nat} (mem : Mem)
    (start : pa % 512 = 0) (word : pa < 4294967296) (high : 4294966784 < endPa) :
    readsegLoop disk fuel pa endPa sector mem = .error .running := by
  induction fuel generalizing pa sector mem with
  | zero => rfl
  | succ fuel ih =>
    unfold readsegLoop
    rw [if_pos (by omega)]
    exact ih _ (by change (pa + 512) % 4294967296 % 512 = 0; omega)
      (Nat.mod_lt _ (by decide))

theorem readseg_covers (disk : Mem) (g : Segment) {fuel : Nat} (mem : Mem)
    (wraps : g.pa + g.memsz < 4294967296) (aligned : g.pa % 512 = g.offset % 512)
    (word : g.offset < 4294967296) (ends : g.Ends) (enough : 8388608 < fuel) :
    ∃ mem', readseg disk fuel g.pa g.memsz g.offset mem = .ok mem' ∧
      ∀ a, mem' a = if g.Covers a then disk (512 + (g.offset + a - g.pa)) else mem a := by
  have sum : (g.pa + g.memsz) % 4294967296 = g.pa + g.memsz := Nat.mod_eq_of_lt wraps
  have covers : ∀ a, g.Covers a ↔ g.pa - g.pa % 512 < g.pa + g.memsz ∧ g.pa - g.pa % 512 ≤ a ∧
      a < (g.pa + g.memsz + 511) / 512 * 512 := fun _ => Iff.rfl
  unfold readseg
  change ∃ mem', readsegLoop disk fuel (g.pa - g.pa % 512) ((g.pa + g.memsz) % 4294967296)
    (g.offset / 512 + 1) mem = .ok mem' ∧ _
  rw [sum]
  by_cases some : g.pa - g.pa % 512 < g.pa + g.memsz
  · have low : g.pa + g.memsz ≤ 4294966784 := ends some
    obtain ⟨mem', run, bytes⟩ := readsegLoop_covers disk _ mem (by omega) low rfl
      (show (g.pa + g.memsz - (g.pa - g.pa % 512) + 511) / 512 < fuel by omega)
      (show g.offset / 512 + 1 + _ < 4294967296 by omega)
    refine ⟨mem', run, fun a => ?_⟩
    rw [bytes a]
    by_cases inside : g.Covers a
    · have bounds := (covers a).mp inside
      rw [if_pos inside, if_pos (by omega)]
      exact congrArg disk (by omega)
    · have outside : ¬ (_ ∧ _ ∧ _) := fun h => inside ((covers a).mpr h)
      rw [if_neg inside, if_neg (by omega)]
  · obtain ⟨round, rfl⟩ : ∃ n, fuel = n + 1 := ⟨fuel - 1, by omega⟩
    refine ⟨mem, if_neg some, fun a => ?_⟩
    rw [if_neg fun inside => some ((covers a).mp inside).1]

theorem readseg_ok {disk : Mem} {g : Segment} {fuel : Nat} {mem mem' : Mem}
    (wraps : g.pa + g.memsz < 4294967296) (aligned : g.pa % 512 = g.offset % 512)
    (word : g.offset < 4294967296) (run : readseg disk fuel g.pa g.memsz g.offset mem = .ok mem') :
    g.Ends ∧ ∀ a, mem' a = if g.Covers a then disk (512 + (g.offset + a - g.pa)) else mem a := by
  by_cases ends : g.Ends
  · refine ⟨ends, ?_⟩
    obtain ⟨mem'', full, bytes⟩ := readseg_covers disk g mem wraps aligned word ends
      (show 8388608 < fuel + 8388609 by omega)
    have same : (Except.ok mem' : Except Stop Mem) = .ok mem'' :=
      (readsegLoop_more 8388609 run).symm.trans full
    cases same
    exact bytes
  · obtain ⟨_, high⟩ := Classical.not_imp.mp ends
    have above : 4294966784 < g.pa + g.memsz := Nat.lt_of_not_le high
    have hangs := @readsegLoop_hangs disk fuel (g.pa - g.pa % 512) (g.pa + g.memsz) (g.offset / 512 + 1)
      mem (by omega) (by omega) above
    have wraps' : g.pa + g.memsz < WORD := wraps
    unfold readseg at run
    rw [Nat.mod_eq_of_lt wraps'] at run
    cases hangs.symm.trans run

theorem segment_bounds (disk : Mem) (k : Nat) :
    (segment disk k).pa < 4294967296 ∧ (segment disk k).offset < 4294967296 := by
  have long : ∀ (b : Binary) o, b.long o < 4294967296 := by
    intro b o
    have h0 := (b.byte (o % WORD)).toNat_lt
    have h1 := (b.byte ((o + 1) % WORD)).toNat_lt
    have h2 := (b.byte ((o + 2) % WORD)).toNat_lt
    have h3 := (b.byte ((o + 2 + 1) % WORD)).toNat_lt
    simp only [Binary.long, Binary.half]
    omega
  exact ⟨long _ _, long _ _⟩

def Headed (disk mem : Mem) : Prop := ∀ o, o < 4096 → mem (ELFHDR + o) = disk (SECTSIZE + o)

theorem below_word {n : Nat} (small : n < 1048576) : n % WORD = n :=
  Nat.mod_eq_of_lt (Nat.lt_trans small (by decide))

theorem headed_half {disk mem : Mem} (headed : Headed disk mem) {o : Nat} (inside : o + 2 ≤ 4096) :
    (elfhdr mem).half o = (image disk).half o := by
  have byte : ∀ o, o < 4096 → (elfhdr mem).byte (o % WORD) = (image disk).byte (o % WORD) := by
    intro o small
    rw [below_word (by omega)]
    change mem ((65536 + o) % WORD) = disk (SECTSIZE + o)
    rw [below_word (by omega)]
    exact headed o small
  unfold Binary.half
  rw [byte o (by omega), byte (o + 1) (by omega)]

theorem headed_long {disk mem : Mem} (headed : Headed disk mem) {o : Nat} (inside : o + 4 ≤ 4096) :
    (elfhdr mem).long o = (image disk).long o := by
  unfold Binary.long
  rw [headed_half headed (by omega), headed_half headed (by omega)]

theorem headed_ph {disk mem : Mem} (headed : Headed disk mem) (k : Nat) :
    (elfhdr mem).ph k = (image disk).ph k := by
  unfold Binary.ph Binary.ePhoff
  rw [headed_long headed (by omega)]

theorem headed_count {disk mem : Mem} (headed : Headed disk mem) (fit : Fit disk) :
    (elfhdr mem).phCount = (image disk).ePhnum := by
  have table := fit.table
  have offset : (elfhdr mem).ePhoff = (image disk).ePhoff := headed_long headed (by omega)
  have count : (elfhdr mem).ePhnum = (image disk).ePhnum := headed_half headed (by omega)
  unfold Binary.phCount
  rw [offset, count]
  change (((65536 + (image disk).ePhoff) % WORD + 32 * (image disk).ePhnum) % WORD -
    (65536 + (image disk).ePhoff) % WORD) / 32 = _
  rw [@below_word (65536 + (image disk).ePhoff) (by omega), below_word (by omega)]
  omega

theorem bootSegment_eq {disk mem : Mem} {k : Nat} (fit : Fit disk) (inside : k < (image disk).ePhnum)
    (headed : Headed disk mem) (fuel : Nat) : bootSegment disk fuel ((elfhdr mem).ph k) mem =
      readseg disk fuel (segment disk k).pa (segment disk k).memsz (segment disk k).offset mem := by
  have table := fit.table
  have fields : ∀ o, o + 4 ≤ 32 → (elfhdr mem).long ((image disk).ph k + o) =
      (image disk).long ((image disk).ph k + o) := by
    intro o small
    exact headed_long headed (by unfold Binary.ph; omega)
  rw [headed_ph headed]
  unfold bootSegment pPa Binary.pMemsz Binary.pOffset
  dsimp only
  rw [fields 12 (by omega), fields 20 (by omega), fields 4 (by omega)]
  rfl

def Read (disk mem : Mem) (k : Nat) (mem' : Mem) : Prop :=
  ∀ a, mem' a = if (segment disk k).Covers a then
    disk (SECTSIZE + ((segment disk k).offset + a - (segment disk k).pa)) else mem a

theorem bootSegment_total {disk mem : Mem} {k fuel : Nat} (fit : Fit disk)
    (inside : k < (image disk).ePhnum) (headed : Headed disk mem) (ends : (segment disk k).Ends)
    (enough : 8388608 < fuel) :
    ∃ mem', bootSegment disk fuel ((elfhdr mem).ph k) mem = .ok mem' ∧ Read disk mem k mem' := by
  rw [bootSegment_eq fit inside headed]
  exact readseg_covers disk (segment disk k) mem (fit.wraps k inside) (fit.aligned k inside)
    (segment_bounds disk k).2 ends enough

theorem bootSegment_ok {disk mem mem' : Mem} {k fuel : Nat} (fit : Fit disk)
    (inside : k < (image disk).ePhnum) (headed : Headed disk mem)
    (run : bootSegment disk fuel ((elfhdr mem).ph k) mem = .ok mem') :
    (segment disk k).Ends ∧ Read disk mem k mem' := by
  rw [bootSegment_eq fit inside headed] at run
  exact readseg_ok (fit.wraps k inside) (fit.aligned k inside) (segment_bounds disk k).2 run

theorem read_headed {disk mem mem' : Mem} {k : Nat} (fit : Fit disk)
    (inside : k < (image disk).ePhnum) (headed : Headed disk mem) (read : Read disk mem k mem') :
    Headed disk mem' := by
  intro o small
  have outside : ¬ (segment disk k).Covers (65536 + o) := by
    have clear : (segment disk k).pa + (segment disk k).memsz ≤ 65536 ∨
      69632 ≤ (segment disk k).pa := fit.clear k inside
    rintro ⟨some, low, high⟩
    change (segment disk k).pa - (segment disk k).pa % 512 ≤ 65536 + o at low
    change 65536 + o < ((segment disk k).pa + (segment disk k).memsz + 511) / 512 * 512 at high
    omega
  have same := read (65536 + o)
  rw [if_neg outside] at same
  exact same.trans (headed o small)

/-- The last of the first n segments that reads a sector over an address decides its byte. -/
def Decided (disk : Mem) (n : Nat) (mem : Mem) : Prop :=
  ∀ a j, j < n → (segment disk j).Covers a → (∀ l, j < l → l < n → ¬ (segment disk l).Covers a) →
    mem a = disk (SECTSIZE + ((segment disk j).offset + a - (segment disk j).pa))

theorem read_decided {disk mem mem' : Mem} {n : Nat} (before : Decided disk n mem)
    (read : Read disk mem n mem') : Decided disk (n + 1) mem' := by
  intro a j inside covers last
  rw [read a]
  by_cases newest : j = n
  · rw [← newest, if_pos covers]
  · rw [if_neg (last n (by omega) (by omega))]
    exact before a j (by omega) covers fun l after small => last l after (by omega)

theorem last_covering {disk : Mem} {a k n : Nat} (small : k < n) (covers : (segment disk k).Covers a) :
    ∃ j, k ≤ j ∧ j < n ∧ (segment disk j).Covers a ∧
      ∀ l, j < l → l < n → ¬ (segment disk l).Covers a := by
  induction n with
  | zero => omega
  | succ n ih =>
    by_cases newest : (segment disk n).Covers a
    · exact ⟨n, by omega, by omega, newest, fun l after inside => by omega⟩
    · have older : k < n := by
        have : k ≠ n := fun same => newest (same ▸ covers)
        omega
      obtain ⟨j, after, inside, covers', last⟩ := ih older
      refine ⟨j, after, by omega, covers', ?_⟩
      intro l later small'
      by_cases same : l = n
      · exact same ▸ newest
      · exact last l later (by omega)

/- The first page of the image, as bootmain reads it. -/
theorem header_ends : (⟨ELFHDR, 4096, 0, 0⟩ : Segment).Ends := by
  intro _
  decide

theorem header_headed {disk mem mem' : Mem} {fuel : Nat}
    (run : readseg disk fuel ELFHDR (SECTSIZE * 8) 0 mem = .ok mem') : Headed disk mem' := by
  obtain ⟨_, bytes⟩ := @readseg_ok disk ⟨ELFHDR, 4096, 0, 0⟩ fuel mem mem' (by decide) (by decide)
    (by decide) run
  intro o small
  have covered : (⟨ELFHDR, 4096, 0, 0⟩ : Segment).Covers (65536 + o) := by
    refine ⟨by decide, ?_, ?_⟩
    · change 65536 - 65536 % 512 ≤ 65536 + o
      omega
    · change 65536 + o < (65536 + 4096 + 511) / 512 * 512
      omega
  have byte := bytes (65536 + o)
  rw [if_pos covered] at byte
  refine byte.trans (congrArg disk ?_)
  change 512 + (0 + (65536 + o) - 65536) = 512 + o
  omega

theorem headed_magic {disk mem : Mem} (headed : Headed disk mem) :
    (elfhdr mem).eMagic = (image disk).eMagic := headed_long headed (by omega)

theorem bootmain_ok {disk mem mem' : Mem} {fuel : Nat} (fit : Fit disk)
    (run : bootmain disk fuel mem = .ok mem') :
    (∀ k, k < (image disk).ePhnum → (segment disk k).Ends) ∧ Decided disk (image disk).ePhnum mem' := by
  obtain ⟨page, header, rest⟩ := bind_ok.mp run
  have headed := header_headed header
  rw [if_neg (by rw [headed_magic headed, fit.magic]; exact not_not.mpr rfl), headed_count headed fit] at rest
  have keeps := @times_keeps Stop Mem _ _ page mem'
    (fun n mem => Headed disk mem ∧ (∀ k, k < n → (segment disk k).Ends) ∧ Decided disk n mem)
    ⟨headed, by omega, fun a j small => by omega⟩ ?_ rest
  · exact keeps.2
  · rintro k a b inside ⟨headed', ends, decided⟩ round
    rw [headed_ph headed, ← headed_ph headed'] at round
    obtain ⟨end_k, read⟩ := bootSegment_ok fit inside headed' round
    refine ⟨read_headed fit inside headed' read, ?_, read_decided decided read⟩
    intro l small
    by_cases newest : l = k
    · exact newest ▸ end_k
    · exact ends l (by omega)

theorem bootmain_total {disk : Mem} (fit : Fit disk) (mem : Mem)
    (ends : ∀ k, k < (image disk).ePhnum → (segment disk k).Ends) :
    ∃ mem', bootmain disk 8388609 mem = .ok mem' := by
  obtain ⟨page, header, _⟩ := readseg_covers disk ⟨ELFHDR, 4096, 0, 0⟩ mem (by decide) (by decide)
    (by decide) header_ends (show 8388608 < 8388609 by decide)
  have headed := header_headed header
  obtain ⟨mem', run, _⟩ := @times_total Stop Mem
    (fun k mem => bootSegment disk 8388609 ((elfhdr page).ph k) mem) (image disk).ePhnum page
    (fun _ mem => Headed disk mem) headed (by
      intro k a inside headed'
      obtain ⟨b, round, read⟩ := bootSegment_total fit inside headed' (ends k inside)
        (show 8388608 < 8388609 by decide)
      rw [headed_ph headed', ← headed_ph headed] at round
      exact ⟨b, round, read_headed fit inside headed' read⟩)
  refine ⟨mem', bind_ok.mpr ⟨page, header, ?_⟩⟩
  dsimp only
  rw [if_neg (by rw [headed_magic headed, fit.magic]; exact not_not.mpr rfl), headed_count headed fit]
  exact run

theorem covers_own {g : Segment} {i : Nat} (file : g.filesz ≤ g.memsz) (inside : i < g.filesz) :
    g.Covers (g.pa + i) := by
  refine ⟨?_, ?_, ?_⟩
  · change g.pa - g.pa % 512 < g.pa + g.memsz
    omega
  · change g.pa - g.pa % 512 ≤ g.pa + i
    omega
  · change g.pa + i < (g.pa + g.memsz + 511) / 512 * 512
    omega

theorem loaded_agree {disk mem : Mem} (fit : Fit disk) (loaded : Loaded disk mem) :
    (∀ k, k < (image disk).ePhnum → (segment disk k).Ends) ∧ Agree disk := by
  obtain ⟨fuel, mem', run, bytes⟩ := loaded
  obtain ⟨ends, decided⟩ := bootmain_ok fit run
  refine ⟨ends, ?_⟩
  intro k j after inside i small covers last
  rw [← bytes k (by omega) i small, decided _ j inside covers last]

theorem agree_loaded {disk : Mem} (fit : Fit disk) (mem : Mem)
    (ends : ∀ k, k < (image disk).ePhnum → (segment disk k).Ends) (agree : Agree disk) :
    Loaded disk mem := by
  obtain ⟨mem', run⟩ := bootmain_total fit mem ends
  obtain ⟨_, decided⟩ := bootmain_ok fit run
  refine ⟨8388609, mem', run, ?_⟩
  intro k inside i small
  obtain ⟨j, after, inside', covers, last⟩ :=
    last_covering inside (covers_own (fit.file k inside) small)
  rw [decided _ j inside' covers last]
  by_cases same : j = k
  · rw [same]
    exact congrArg disk (by omega)
  · exact agree k j (by omega) inside' i small covers last

def diskOf (words : List Nat) : Mem := fun a =>
  if a < 512 then 0
  else if a = 512 + 0x1000 then 1
  else UInt8.ofNat (words.getD ((a - 512) / 4) 0 / 256 ^ ((a - 512) % 4))

/-- Boot loading puts every byte of every segment in its place exactly when sectors shared between
    segments hold the same bytes for both, and no segment ends in the last sector of the address space. -/
theorem boot_load_iff {disk : Mem} (fit : Fit disk) (mem : Mem) :
    Loaded disk mem ↔ (∀ k, k < (image disk).ePhnum → (segment disk k).Ends) ∧ Agree disk := by
  constructor
  · exact loaded_agree fit
  · rintro ⟨ends, agree⟩
    exact agree_loaded fit mem ends agree

/- The words of an ELF header with two program headers: 256 bytes at 0x100000 from 0x1000 on in the
   file, and the 256 bytes after them, in the same sector. -/
def sharedSector : List Nat :=
  [ELF_MAGIC, 0, 0, 0, 0, 0, 0, 52, 0, 0, 0, 2, 0,
   1, 0x1000, 0, 0x100000, 0x100, 0x100, 0, 0,
   1, 0x1100, 0, 0x100100, 0x100, 0x100, 0, 0]

theorem boot_load_iff_sharedSector : Loaded (diskOf sharedSector) fun _ => 0 := by
  have fit : Fit (diskOf sharedSector) := by constructor <;> decide
  have two : (image (diskOf sharedSector)).ePhnum = 2 := by decide
  have first : segment (diskOf sharedSector) 0 = ⟨0x100000, 0x100, 0x100, 0x1000⟩ := by decide
  have second : segment (diskOf sharedSector) 1 = ⟨0x100100, 0x100, 0x100, 0x1100⟩ := by decide
  refine (boot_load_iff fit _).mpr ⟨by decide, ?_⟩
  intro k j after inside i small _ _
  obtain ⟨rfl, rfl⟩ : k = 0 ∧ j = 1 := by omega
  rw [first] at small ⊢
  rw [second]
  exact congrArg (diskOf sharedSector) (by simp only [SECTSIZE]; omega)

def Ordered (disk : Mem) : Prop :=
  ∀ j k, j < k → k < (image disk).ePhnum → (segment disk j).pa + (segment disk j).memsz ≤ (segment disk k).pa

/- Two program headers: the same 256 bytes, and the next 256 bytes from 0x2100 on in the file. -/
def twoSegments : List Nat :=
  [ELF_MAGIC, 0, 0, 0, 0, 0, 0, 52, 0, 0, 0, 2, 0,
   1, 0x1000, 0, 0x100000, 0x100, 0x100, 0, 0,
   1, 0x2100, 0, 0x100100, 0x100, 0x100, 0, 0]

theorem twoSegments_fit : Fit (diskOf twoSegments) := by
  constructor <;> decide

/-- The second segment starts inside the sector in which the first one ends: its first sector is read
    from 0x2000 on in the file and overwrites the first segment. -/
theorem boot_load_spoiled : Fit (diskOf twoSegments) ∧ Ordered (diskOf twoSegments) ∧
    ∀ mem, ¬ Loaded (diskOf twoSegments) mem := by
  refine ⟨twoSegments_fit, ?_, ?_⟩
  · intro j k less inside
    have two : (image (diskOf twoSegments)).ePhnum = 2 := by decide
    obtain ⟨rfl, rfl⟩ : j = 0 ∧ k = 1 := by omega
    decide
  · intro mem loaded
    obtain ⟨_, agree⟩ := loaded_agree twoSegments_fit loaded
    have two : (image (diskOf twoSegments)).ePhnum = 2 := by decide
    have same := agree 0 1 (by decide) (by decide) 0 (by decide) (by decide)
      (fun l after inside => by omega)
    exact absurd same (by decide)

end JosBootLoad
