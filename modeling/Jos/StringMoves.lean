import Jos.Crt
import Jos.Printfmt
import Jos.UserStores
import Mathlib.Data.Fintype.Basic
import Mathlib.Logic.Function.Iterate

/- memset, memmove and memcpy of lib/string.c, on the string instructions of the processor. What
   the screen moves among its cells and load_icode stores through a directory is what they do. -/
namespace JosStringMoves
open JosLayout JosPrintfmt

abbrev Mem : Type := Nat → UInt8

/-- edi, esi and what they point into. -/
structure Regs where
  mem : Mem
  edi : Nat
  esi : Nat

def load (mem : Mem) (a size : Nat) : List UInt8 := (List.range size).map fun k => mem ((a + k) % WORD)

def put : Mem → Nat → List UInt8 → Mem
  | mem, _, [] => mem
  | mem, a, b :: bs => put (Function.update mem a b) ((a + 1) % WORD) bs

def advance (std : Bool) (size a : Nat) : Nat := if std then (a + WORD - size) % WORD else (a + size) % WORD

def movs (std : Bool) (size : Nat) (r : Regs) : Regs :=
  ⟨put r.mem r.edi (load r.mem r.esi size), advance std size r.edi, advance std size r.esi⟩

def lowBytes (eax : BitVec 32) (size : Nat) : List UInt8 :=
  (List.range size).map fun k => UInt8.ofNat (eax.toNat / 256 ^ k)

def stos (size : Nat) (eax : BitVec 32) (r : Regs) : Regs :=
  ⟨put r.mem r.edi (lowBytes eax size), advance false size r.edi, r.esi⟩

/-- The prefix rep, with the count in ecx. -/
def rep (instruction : Regs → Regs) (ecx : Nat) (r : Regs) : Regs := instruction^[ecx] r

def aligned (a : Nat) : Prop := (wrap a).tmod 4 = 0

instance (a : Nat) : Decidable (aligned a) := inferInstanceAs (Decidable (_ = _))

def fourTimes (c : BitVec 32) : BitVec 32 :=
  let c := c &&& 0xFF
  c <<< 24 ||| c <<< 16 ||| c <<< 8 ||| c

def memset (v : Nat) (c : BitVec 32) (n : Nat) (mem : Mem) : Nat × Mem :=
  if n = 0 then (v, mem)
  else if aligned v ∧ n % 4 = 0 then (v, (rep (stos 4 (fourTimes c)) (n / 4) ⟨mem, v, 0⟩).mem)
  else (v, (rep (stos 1 c) n ⟨mem, v, 0⟩).mem)

def memmove (dst src n : Nat) (mem : Mem) : Nat × Mem :=
  let s := src
  let d := dst
  if s < d ∧ (s + n) % WORD > d then
    let s := (s + n) % WORD
    let d := (d + n) % WORD
    if aligned s ∧ aligned d ∧ n % 4 = 0 then
      (dst, (rep (movs true 4) (n / 4) ⟨mem, (d + WORD - 4) % WORD, (s + WORD - 4) % WORD⟩).mem)
    else (dst, (rep (movs true 1) n ⟨mem, (d + WORD - 1) % WORD, (s + WORD - 1) % WORD⟩).mem)
  else
    if aligned s ∧ aligned d ∧ n % 4 = 0 then (dst, (rep (movs false 4) (n / 4) ⟨mem, d, s⟩).mem)
    else (dst, (rep (movs false 1) n ⟨mem, d, s⟩).mem)

def memcpy (dst src n : Nat) (mem : Mem) : Nat × Mem := memmove dst src n mem

/-- The old memory with the bytes from lo up to hi of the target replaced by those of the source. -/
def moved (mem : Mem) (dst src lo hi : Nat) : Mem := fun x =>
  if dst + lo ≤ x ∧ x < dst + hi then mem (src + (x - dst)) else mem x

def filled (mem : Mem) (v n : Nat) (b : UInt8) : Mem := fun x => if v ≤ x ∧ x < v + n then b else mem x

section Put
variable {mem : Mem} {a size : Nat}

theorem put_getD (mem : Mem) (a : Nat) (bs : List UInt8) (fits : a + bs.length ≤ WORD) (x : Nat) :
    put mem a bs x = if a ≤ x ∧ x < a + bs.length then bs.getD (x - a) 0 else mem x := by
  induction bs generalizing mem a with
  | nil => exact (if_neg (fun inside => by simp at inside; omega)).symm
  | cons b bs ih =>
    rw [List.length_cons] at fits ⊢
    unfold put
    cases bs with
    | nil =>
      unfold put
      rw [List.length_nil]
      by_cases here : x = a
      · rw [here, Function.update_self, if_pos ⟨Nat.le_refl a, by omega⟩, Nat.sub_self]
        rfl
      · rw [Function.update_of_ne here, if_neg (by omega)]
    | cons b' bs' =>
      have next : (a + 1) % WORD = a + 1 := Nat.mod_eq_of_lt (by rw [List.length_cons] at fits; omega)
      rw [next, ih (Function.update mem a b) (a + 1) (by omega)]
      by_cases here : x = a
      · rw [here, if_neg (by omega), Function.update_self, if_pos ⟨Nat.le_refl a, by omega⟩, Nat.sub_self]
        rfl
      · rw [Function.update_of_ne here]
        by_cases inside : a + 1 ≤ x ∧ x < a + 1 + (b' :: bs').length
        · have offset : x - a = x - (a + 1) + 1 := by omega
          rw [if_pos inside, if_pos ⟨by omega, by omega⟩, offset]
          rfl
        · rw [if_neg inside, if_neg (by omega)]

theorem load_length (mem : Mem) (a size : Nat) : (load mem a size).length = size := by
  unfold load
  rw [List.length_map, List.length_range]

theorem load_getD (fits : a + size ≤ WORD) {k : Nat} (inside : k < size) :
    (load mem a size).getD k 0 = mem (a + k) := by
  unfold load
  rw [List.getD_eq_getElem _ _ (by rw [List.length_map, List.length_range]; exact inside), List.getElem_map,
    List.getElem_range, Nat.mod_eq_of_lt (by omega)]

end Put

theorem advance_up (size a : Nat) : advance false size a = (a + size) % WORD := if_neg Bool.false_ne_true

theorem advance_down (size a : Nat) : advance true size a = (a + WORD - size) % WORD := if_pos (Eq.refl true)

section Move
variable {mem : Mem} {dst src n size : Nat}

theorem put_block {lo hi lo' hi' o : Nat} (dst_fits : dst + o + size ≤ WORD) (src_fits : src + o + size ≤ WORD)
    (unread : ∀ k, k < size → moved mem dst src lo hi (src + o + k) = mem (src + o + k))
    (join : ∀ i, lo' ≤ i ∧ i < hi' ↔ lo ≤ i ∧ i < hi ∨ o ≤ i ∧ i < o + size) :
    put (moved mem dst src lo hi) (dst + o) (load (moved mem dst src lo hi) (src + o) size) =
      moved mem dst src lo' hi' := by
  funext x
  rw [put_getD _ _ _ (by rw [load_length]; exact dst_fits), load_length]
  by_cases block : dst + o ≤ x ∧ x < dst + o + size
  · obtain ⟨k, rfl⟩ : ∃ k, x = dst + o + k := ⟨x - (dst + o), by omega⟩
    have offset : dst + o + k - (dst + o) = k := by omega
    have place : src + (dst + o + k - dst) = src + o + k := by omega
    have within := (join (o + k)).mpr (Or.inr ⟨by omega, by omega⟩)
    rw [if_pos block, offset, load_getD src_fits (by omega), unread k (by omega)]
    unfold moved
    rw [if_pos ⟨by omega, by omega⟩, place]
  · rw [if_neg block]
    unfold moved
    by_cases inside : dst + lo ≤ x ∧ x < dst + hi
    · have within := (join (x - dst)).mpr (Or.inl ⟨by omega, by omega⟩)
      rw [if_pos inside, if_pos ⟨by omega, by omega⟩]
    · rw [if_neg inside, if_neg]
      intro wider
      rcases (join (x - dst)).mp ⟨by omega, by omega⟩ with old | new
      · exact inside ⟨by omega, by omega⟩
      · exact block ⟨by omega, by omega⟩

theorem moved_empty (mem : Mem) (dst src k : Nat) : moved mem dst src k k = mem := by
  funext x
  exact if_neg (by omega)

theorem movs_up (mem : Mem) (positive : 0 < size) (src_fits : src + n ≤ WORD) (dst_fits : dst + n ≤ WORD)
    (safe : ¬ (src < dst ∧ dst < src + n)) (q : Nat) (few : size * q ≤ n) :
    rep (movs false size) q ⟨mem, dst % WORD, src % WORD⟩ =
      ⟨moved mem dst src 0 (size * q), (dst + size * q) % WORD, (src + size * q) % WORD⟩ := by
  induction q with
  | zero =>
    rw [Nat.mul_zero, moved_empty]
    rfl
  | succ q ih =>
    rw [Nat.mul_succ] at few ⊢
    have dst_here : (dst + size * q) % WORD = dst + size * q := Nat.mod_eq_of_lt (by omega)
    have src_here : (src + size * q) % WORD = src + size * q := Nat.mod_eq_of_lt (by omega)
    have block : put (moved mem dst src 0 (size * q)) (dst + size * q)
        (load (moved mem dst src 0 (size * q)) (src + size * q) size) =
          moved mem dst src 0 (size * q + size) :=
      put_block (by omega) (by omega) (fun k inside => if_neg (by omega)) (fun i => by omega)
    unfold rep at ih ⊢
    rw [Function.iterate_succ_apply', ih (by omega)]
    unfold movs
    rw [dst_here, src_here, block, advance_up, advance_up, Nat.add_assoc, Nat.add_assoc]

theorem movs_down (positive : 0 < size) (src_fits : src + n ≤ WORD) (dst_fits : dst + n ≤ WORD)
    (safe : ¬ (dst < src ∧ src < dst + n)) (q : Nat) (few : size * q ≤ n) :
    rep (movs true size) q ⟨mem, (dst + n + WORD - size) % WORD, (src + n + WORD - size) % WORD⟩ =
      ⟨moved mem dst src (n - size * q) n, (dst + (n - size * q) + WORD - size) % WORD,
        (src + (n - size * q) + WORD - size) % WORD⟩ := by
  induction q with
  | zero =>
    rw [Nat.mul_zero, Nat.sub_zero, moved_empty]
    rfl
  | succ q ih =>
    rw [Nat.mul_succ] at few ⊢
    obtain ⟨o, below⟩ : ∃ o, n - (size * q + size) = o := ⟨_, rfl⟩
    have above : n - size * q = o + size := by omega
    have dst_here : (dst + (o + size) + WORD - size) % WORD = dst + o := by
      have same : dst + (o + size) + WORD - size = dst + o + WORD := by omega
      rw [same, Nat.add_mod_right]
      exact Nat.mod_eq_of_lt (by omega)
    have src_here : (src + (o + size) + WORD - size) % WORD = src + o := by
      have same : src + (o + size) + WORD - size = src + o + WORD := by omega
      rw [same, Nat.add_mod_right]
      exact Nat.mod_eq_of_lt (by omega)
    have block : put (moved mem dst src (o + size) n) (dst + o) (load (moved mem dst src (o + size) n) (src + o) size) =
        moved mem dst src o n :=
      put_block (by omega) (by omega) (fun k inside => if_neg (by omega)) (fun i => by omega)
    have later := ih (by omega)
    rw [above] at later
    unfold rep at later ⊢
    rw [Function.iterate_succ_apply', later, below]
    unfold movs
    rw [dst_here, src_here, block, advance_down, advance_down]

/-- Both instructions, in either direction, where no byte is written before it is read. -/
theorem rep_moves (mem : Mem) (whole : n % size = 0) (positive : 0 < size) (src_fits : src + n ≤ WORD)
    (dst_fits : dst + n ≤ WORD) :
    (¬ (src < dst ∧ dst < src + n) →
      (rep (movs false size) (n / size) ⟨mem, dst, src⟩).mem = moved mem dst src 0 n) ∧
    (¬ (dst < src ∧ src < dst + n) →
      (rep (movs true size) (n / size)
        ⟨mem, (dst + n + WORD - size) % WORD, (src + n + WORD - size) % WORD⟩).mem = moved mem dst src 0 n) := by
  have blocks : size * (n / size) = n := Nat.mul_div_cancel' (Nat.dvd_of_mod_eq_zero whole)
  constructor
  · intro safe
    rcases Nat.eq_zero_or_pos n with rfl | some
    · rw [Nat.zero_div, moved_empty]
      rfl
    · have up := movs_up mem positive src_fits dst_fits safe (n / size) (Nat.le_of_eq blocks)
      rw [blocks, Nat.mod_eq_of_lt (by omega : dst < WORD), Nat.mod_eq_of_lt (by omega : src < WORD)] at up
      rw [up]
  · intro safe
    rw [movs_down positive src_fits dst_fits safe (n / size) (Nat.le_of_eq blocks), blocks, Nat.sub_self]

theorem back_mod (small : size ≤ WORD) (a : Nat) : (a % WORD + WORD - size) % WORD = (a + WORD - size) % WORD := by
  rw [Nat.add_sub_assoc small, Nat.add_sub_assoc small, Nat.mod_add_mod]

theorem memmove_moves (mem : Mem) (src_fits : src + n ≤ WORD) (dst_fits : dst + n ≤ WORD) :
    memmove dst src n mem = (dst, moved mem dst src 0 n) := by
  have words := fun whole : n % 4 = 0 => rep_moves mem whole (by decide) src_fits dst_fits
  have bytes := rep_moves mem (Nat.mod_one n) (by decide) src_fits dst_fits
  rw [Nat.div_one] at bytes
  unfold memmove
  by_cases overlap : src < dst ∧ dst < src + n
  · have ends : (src + n) % WORD = src + n := Nat.mod_eq_of_lt (by omega)
    have backward : src < dst ∧ (src + n) % WORD > dst := ⟨overlap.1, by rw [ends]; exact overlap.2⟩
    have safe : ¬ (dst < src ∧ src < dst + n) := by omega
    rw [if_pos backward]
    dsimp only
    split
    case isTrue even => rw [back_mod (by decide), back_mod (by decide), (words even.2.2).2 safe]
    case isFalse odd => rw [back_mod (by decide), back_mod (by decide), bytes.2 safe]
  · have forward : ¬ (src < dst ∧ (src + n) % WORD > dst) := by
      intro backward
      exact overlap ⟨backward.1, Nat.lt_of_lt_of_le backward.2 (Nat.mod_le _ _)⟩
    rw [if_neg forward]
    split
    case isTrue even => rw [(words even.2.2).1 overlap]
    case isFalse odd => rw [bytes.1 overlap]

end Move

section Fill
variable {mem : Mem} {v n size : Nat} {b : UInt8}

theorem put_append (mem : Mem) (a : Nat) (b : UInt8) (bs cs : List UInt8) :
    put mem a (b :: bs ++ cs) = put (put mem a (b :: bs)) ((a + (bs.length + 1)) % WORD) cs := by
  induction bs generalizing mem a b with
  | nil => rfl
  | cons b' bs ih =>
    have next : ((a + 1) % WORD + (bs.length + 1)) % WORD = (a + ((b' :: bs).length + 1)) % WORD := by
      rw [Nat.mod_add_mod, List.length_cons, Nat.add_assoc, Nat.add_comm 1]
    change put (Function.update mem a b) ((a + 1) % WORD) (b' :: bs ++ cs) = _
    rw [ih, next]
    rfl

theorem rep_stos {eax : BitVec 32} (same : lowBytes eax (size + 1) = List.replicate (size + 1) b) (q : Nat) (r : Regs) :
    (rep (stos (size + 1) eax) q r).mem = put r.mem r.edi (List.replicate ((size + 1) * q) b) := by
  induction q generalizing r with
  | zero => rfl
  | succ q ih =>
    have more : (size + 1) * (q + 1) = (size + 1) + (size + 1) * q := by rw [Nat.mul_succ, Nat.add_comm]
    unfold rep at ih ⊢
    rw [Function.iterate_succ_apply, ih, more, ← List.replicate_append_replicate, List.replicate_succ, put_append,
      List.length_replicate, ← List.replicate_succ]
    unfold stos
    rw [same, advance_up]

theorem lowBytes_one (c : BitVec 32) : lowBytes c 1 = List.replicate 1 (UInt8.ofNat c.toNat) := by
  change [UInt8.ofNat (c.toNat / 1)] = _
  rw [Nat.div_one]
  rfl

theorem fourTimes_byte (c : Fin 256) :
    lowBytes (fourTimes (BitVec.ofNat 32 c)) 4 = List.replicate 4 (UInt8.ofNat c) := by
  revert c
  decide +kernel

theorem fourTimes_low (c : BitVec 32) : fourTimes c = fourTimes (BitVec.ofNat 32 (c.toNat % 256)) := by
  have low : c &&& 0xFF = BitVec.ofNat 32 (c.toNat % 256) &&& 0xFF := by
    apply BitVec.eq_of_toNat_eq
    have small : c.toNat % 256 < 2 ^ 32 := by omega
    rw [BitVec.toNat_and, BitVec.toNat_and, BitVec.toNat_ofNat, Nat.mod_eq_of_lt small]
    change c.toNat &&& 2 ^ 8 - 1 = c.toNat % 256 &&& 2 ^ 8 - 1
    rw [Nat.and_two_pow_sub_one_eq_mod, Nat.and_two_pow_sub_one_eq_mod]
    omega
  unfold fourTimes
  rw [low]

theorem lowBytes_four (c : BitVec 32) : lowBytes (fourTimes c) 4 = List.replicate 4 (UInt8.ofNat c.toNat) := by
  have byte : UInt8.ofNat (c.toNat % 256) = UInt8.ofNat c.toNat := UInt8.ofNat_mod_size
  rw [fourTimes_low, fourTimes_byte ⟨c.toNat % 256, Nat.mod_lt _ (by decide)⟩, byte]

theorem put_filled (mem : Mem) (b : UInt8) (fits : v + n ≤ WORD) :
    put mem v (List.replicate n b) = filled mem v n b := by
  funext x
  rw [put_getD _ _ _ (by rw [List.length_replicate]; exact fits), List.length_replicate]
  unfold filled
  by_cases inside : v ≤ x ∧ x < v + n
  · rw [if_pos inside, if_pos inside, List.getD_replicate b (by omega)]
  · rw [if_neg inside, if_neg inside]

theorem stos_fills (mem : Mem) (v : Nat) (c : BitVec 32) :
    (n % 4 = 0 → (rep (stos 4 (fourTimes c)) (n / 4) ⟨mem, v, 0⟩).mem =
      put mem v (List.replicate n (UInt8.ofNat c.toNat))) ∧
    (rep (stos 1 c) n ⟨mem, v, 0⟩).mem = put mem v (List.replicate n (UInt8.ofNat c.toNat)) := by
  constructor
  · intro whole
    rw [rep_stos (lowBytes_four c), Nat.mul_div_cancel' (Nat.dvd_of_mod_eq_zero whole)]
  · rw [rep_stos (lowBytes_one c), Nat.one_mul]

theorem memset_fills (mem : Mem) (v : Nat) (c : BitVec 32) (n : Nat) :
    memset v c n mem = (v, put mem v (List.replicate n (UInt8.ofNat c.toNat))) := by
  obtain ⟨words, bytes⟩ := stos_fills (n := n) mem v c
  unfold memset
  split
  case isTrue none =>
    rw [none]
    rfl
  case isFalse some =>
    split
    case isTrue even => rw [words even.2]
    case isFalse odd => rw [bytes]

end Fill

/-- memmove and memcpy copy the old bytes of the source, whichever instruction and direction is taken, and both
instructions of memset set the bytes to the low byte of c. -/
theorem moves_snapshot (mem : Mem) (dst src n : Nat) (src_fits : src + n ≤ WORD) (dst_fits : dst + n ≤ WORD) :
    (memmove dst src n mem = (dst, moved mem dst src 0 n) ∧ memcpy dst src n mem = (dst, moved mem dst src 0 n)) ∧
    (∀ size, size = 1 ∨ size = 4 → n % size = 0 →
      (¬ (src < dst ∧ dst < src + n) →
        (rep (movs false size) (n / size) ⟨mem, dst, src⟩).mem = moved mem dst src 0 n) ∧
      (¬ (dst < src ∧ src < dst + n) →
        (rep (movs true size) (n / size)
          ⟨mem, (dst + n + WORD - size) % WORD, (src + n + WORD - size) % WORD⟩).mem = moved mem dst src 0 n)) ∧
    ∀ c : BitVec 32,
      memset dst c n mem = (dst, filled mem dst n (UInt8.ofNat c.toNat)) ∧
      (n % 4 = 0 → (rep (stos 4 (fourTimes c)) (n / 4) ⟨mem, dst, 0⟩).mem = (rep (stos 1 c) n ⟨mem, dst, 0⟩).mem) := by
  refine ⟨⟨memmove_moves mem src_fits dst_fits, memmove_moves mem src_fits dst_fits⟩, ?_, ?_⟩
  · intro size sizes whole
    have positive : 0 < size := by omega
    exact rep_moves mem whole positive src_fits dst_fits
  · intro c
    obtain ⟨words, bytes⟩ := stos_fills (n := n) mem dst c
    constructor
    · rw [memset_fills, put_filled mem _ dst_fits]
    · intro whole
      rw [words whole, bytes]

theorem moves_snapshot_overlapping :
    memmove 0x1004 0x1000 8 (fun x => UInt8.ofNat x) = (0x1004, moved (fun x => UInt8.ofNat x) 0x1004 0x1000 0 8) :=
  (moves_snapshot (fun x => UInt8.ofNat x) 0x1004 0x1000 8 (by decide) (by decide)).1.1

section Screen
variable {mem : Mem} {base dst src n : Nat}

/-- The cells of crt_buf, two bytes each, from base on. -/
def HasCells (mem : Mem) (base : Nat) (buf : Nat → BitVec 16) : Prop :=
  ∀ i k, i < 2000 → k < 2 → mem (base + (2 * i + k)) = UInt8.ofNat ((buf i).toNat / 256 ^ k)

theorem memmove_cells {crt : JosCrt.Crt} (cells : HasCells mem base crt.buf) (space : base + 4000 ≤ WORD)
    (dst_inside : dst + n ≤ 2000) (src_inside : src + n ≤ 2000) :
    ∃ crt', JosCrt.memmove dst src n crt = .ok crt' ∧
      HasCells (memmove (base + 2 * dst) (base + 2 * src) (2 * n) mem).2 base crt'.buf := by
  refine ⟨_, JosCrt.memmove_moves crt dst_inside src_inside, ?_⟩
  rw [memmove_moves mem (by omega) (by omega)]
  intro i k inside small
  change moved mem (base + 2 * dst) (base + 2 * src) 0 (2 * n) (base + (2 * i + k)) =
    UInt8.ofNat ((JosCrt.movedCells crt.buf dst src 0 n i).toNat / 256 ^ k)
  unfold moved JosCrt.movedCells
  by_cases target : dst ≤ i ∧ i < dst + n
  · have place : base + 2 * src + (base + (2 * i + k) - (base + 2 * dst)) =
        base + (2 * (src + (i - dst)) + k) := by omega
    rw [if_pos ⟨by omega, by omega⟩, if_pos ⟨by omega, target.2⟩, place]
    exact cells _ k (by omega) small
  · rw [if_neg (by omega), if_neg (by omega)]
    exact cells i k inside small

end Screen

section Pages
variable {m : JosBoot.Machine} {dirs : JosAccounting.Dirs} {s s' : JosMachine.State}
  {e : Fin NENV} {pgdir v n : Nat} {mem : Mem}

/-- The bytes that the directory shows below UTOP. -/
def HasPages (mem : Mem) (s : JosMachine.State) (pgdir : Nat) : Prop :=
  ∀ va b, va < UTOP → JosUserStores.byteAt s pgdir va = some b → mem va = b

theorem stores_pages {f : Nat → UInt8} {mem' : Mem} (pages : HasPages mem s pgdir)
    (tidy : JosUserStores.Tidy m dirs s) (he : dirs e = some pgdir) (cr3 : s.cr3 = pgdir) (low : v ≤ UTOP)
    (run : JosUserStores.stores f v n s = .ok s')
    (same : ∀ va, va < UTOP → mem' va = if v ≤ va ∧ va < v + n then f (va - v) else mem va) :
    v + n ≤ UTOP ∧ HasPages mem' s' pgdir := by
  have written := JosUserStores.stores_ok tidy he cr3 low run
  refine ⟨written.below, ?_⟩
  intro va b user shown
  rw [written.bytes e pgdir va he user] at shown
  rw [same va user]
  by_cases inside : v ≤ va ∧ va < v + n
  · rw [if_pos ⟨rfl, inside⟩] at shown
    rw [if_pos inside]
    exact Option.some.inj shown
  · rw [if_neg fun both => inside both.2] at shown
    rw [if_neg inside]
    exact pages va b user shown

theorem memset_pages (pages : HasPages mem s pgdir) (tidy : JosUserStores.Tidy m dirs s)
    (he : dirs e = some pgdir) (cr3 : s.cr3 = pgdir) (low : v ≤ UTOP) (c : BitVec 32)
    (run : JosEnv.memset s v (UInt8.ofNat c.toNat) n = .ok s') : HasPages (memset v c n mem).2 s' pgdir := by
  rw [JosUserStores.memset_eq] at run
  have below := (JosUserStores.stores_ok tidy he cr3 low run).below
  refine (stores_pages pages tidy he cr3 low run fun va _ => ?_).2
  rw [memset_fills, put_filled mem _ (Nat.le_trans below (by decide))]
  rfl

theorem memcpy_pages {src o : Nat} {binary : JosEnv.Binary} (pages : HasPages mem s pgdir)
    (tidy : JosUserStores.Tidy m dirs s) (he : dirs e = some pgdir) (cr3 : s.cr3 = pgdir) (low : v ≤ UTOP)
    (src_fits : src + n ≤ WORD) (object : ∀ k, k < n → mem (src + k) = binary.byte ((o + k) % WORD))
    (run : JosEnv.memcpy s v binary o n = .ok s') : HasPages (memcpy v src n mem).2 s' pgdir := by
  rw [JosUserStores.memcpy_eq] at run
  have below := (JosUserStores.stores_ok tidy he cr3 low run).below
  refine (stores_pages pages tidy he cr3 low run fun va _ => ?_).2
  unfold memcpy
  rw [memmove_moves mem src_fits (Nat.le_trans below (by decide))]
  change moved mem v src 0 n va = _
  unfold moved
  rw [Nat.add_zero]
  by_cases inside : v ≤ va ∧ va < v + n
  · rw [if_pos inside, if_pos inside, object _ (by omega)]
  · rw [if_neg inside, if_neg inside]

end Pages

end JosStringMoves
