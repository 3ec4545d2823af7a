import Jos.CountedLoop
import Mathlib.Logic.Function.Basic
import Mathlib.Data.Fintype.Basic

/- The text screen: cga_putc over crt_buf, and the sheet of which the screen shows the end. -/
namespace JosCrt
open CountedLoop

abbrev CRT_ROWS : Nat := 25
abbrev CRT_COLS : Nat := 80
abbrev CRT_SIZE : Nat := CRT_ROWS * CRT_COLS

inductive Fault where
  | outside (cell : Nat)
  | recursion

structure Crt where
  buf : Nat → BitVec 16
  pos : Nat
  addr6845 : Nat
  ports : List (Nat × Nat)

def store (crt : Crt) (i : Nat) (v : BitVec 16) : Except Fault Crt :=
  if i < CRT_SIZE then .ok { crt with buf := Function.update crt.buf i v } else .error (.outside i)

def load (crt : Crt) (i : Nat) : Except Fault (BitVec 16) :=
  if i < CRT_SIZE then .ok (crt.buf i) else .error (.outside i)

def moveCell (dst src : Nat) (crt : Crt) : Except Fault Crt := do
  let v ← load crt src
  store crt dst v

/- One movsl takes two cells at a time. -/
def moveLong (dst src : Nat) (crt : Crt) : Except Fault Crt := do
  let v ← load crt src
  let w ← load crt (src + 1)
  let crt ← store crt dst v
  store crt (dst + 1) w

/-- memmove of n cells between cells of crt_buf, which starts at a multiple of 4: words when both
    places and the length allow it, from the end when the target overlaps what is still to be read. -/
def memmove (dst src n : Nat) (crt : Crt) : Except Fault Crt :=
  let long := src % 2 = 0 ∧ dst % 2 = 0 ∧ n % 2 = 0
  if src < dst ∧ dst < src + n then
    if long then times (fun k => moveLong (dst + n - 2 * (k + 1)) (src + n - 2 * (k + 1))) (n / 2) crt
    else times (fun k => moveCell (dst + n - (k + 1)) (src + n - (k + 1))) n crt
  else
    if long then times (fun k => moveLong (dst + 2 * k) (src + 2 * k)) (n / 2) crt
    else times (fun k => moveCell (dst + k) (src + k)) n crt

/- black on white -/
def blank : BitVec 16 := 0x0720

def scroll (crt : Crt) : Except Fault Crt :=
  if CRT_SIZE ≤ crt.pos then do
    let crt ← memmove 0 CRT_COLS (CRT_SIZE - CRT_COLS) crt
    let crt ← times (fun k crt => store crt (CRT_SIZE - CRT_COLS + k) blank) CRT_COLS crt
    .ok { crt with pos := crt.pos - CRT_COLS }
  else .ok crt

def outb (port data : Nat) (crt : Crt) : Crt := { crt with ports := crt.ports ++ [(port, data % 256)] }

def moveCursor (crt : Crt) : Crt :=
  outb (crt.addr6845 + 1) crt.pos <| outb crt.addr6845 15 <|
    outb (crt.addr6845 + 1) (crt.pos / 256) <| outb crt.addr6845 14 crt

/- Both wait for their device for 12800 rounds at most and send c in any case. -/
def serialPutc (c : BitVec 32) (crt : Crt) : Crt := outb 0x3F8 c.toNat crt
def lptPutc (c : BitVec 32) (crt : Crt) : Crt :=
  outb (0x378 + 2) 0x08 <| outb (0x378 + 2) 0x0D <| outb 0x378 c.toNat crt

def consPutc (cga : BitVec 32 → Crt → Except Fault Crt) (c : BitVec 32) (crt : Crt) : Except Fault Crt :=
  cga c (lptPutc c (serialPutc c crt))

def u16 (n : Nat) : Nat := n % 65536

def cgaSwitch (putSpace : Crt → Except Fault Crt) (c : BitVec 32) (crt : Crt) : Except Fault Crt :=
  match (c &&& 0xFF).toNat with
  | 0x08 =>
    if 0 < crt.pos then
      store { crt with pos := crt.pos - 1 } (crt.pos - 1) (((c &&& ~~~0xFF) ||| 0x20).setWidth 16)
    else .ok crt
  | 0x0A =>
    let pos := u16 (crt.pos + CRT_COLS)
    .ok { crt with pos := pos - pos % CRT_COLS }
  | 0x0D => .ok { crt with pos := crt.pos - crt.pos % CRT_COLS }
  | 0x09 => times (fun _ => putSpace) 5 crt
  | _ => store { crt with pos := u16 (crt.pos + 1) } crt.pos (c.setWidth 16)

/-- cga_putc, with depth calls of cga_putc inside each other at most. -/
def cgaPutc : Nat → BitVec 32 → Crt → Except Fault Crt
  | 0, _, _ => .error .recursion
  | depth + 1, c, crt => do
    let c := if c &&& ~~~0xFF = 0 then c ||| 0x0700 else c
    let crt ← cgaSwitch (consPutc (cgaPutc depth) 0x20) c crt
    let crt ← scroll crt
    .ok (moveCursor crt)

/-- An unbounded sheet of rows of 80 cells, of which rows exist so far, with the place of the cursor.
    The screen shows the last 25 rows. -/
structure Sheet where
  cell : Nat → BitVec 16
  cursor : Nat
  rows : Nat

def Sheet.top (s : Sheet) : Nat := (s.rows - CRT_ROWS) * CRT_COLS

def Sheet.grow (s : Sheet) : Sheet :=
  if s.cursor < s.rows * CRT_COLS then s
  else { s with cell := fun i => if i / CRT_COLS = s.rows then blank else s.cell i, rows := s.rows + 1 }

def Sheet.put (v : BitVec 16) (s : Sheet) : Sheet :=
  { s with cell := Function.update s.cell s.cursor v, cursor := s.cursor + 1 }.grow

def Sheet.type (s : Sheet) (c : UInt8) : Sheet :=
  match c.toNat with
  | 0x08 =>
    if s.top < s.cursor then
      { s with cell := Function.update s.cell (s.cursor - 1) blank, cursor := s.cursor - 1 }
    else s
  | 0x0A => { s with cursor := (s.cursor / CRT_COLS + 1) * CRT_COLS }.grow
  | 0x0D => { s with cursor := s.cursor / CRT_COLS * CRT_COLS }
  | 0x09 => (Sheet.put blank)^[5] s
  | n => s.put (BitVec.ofNat 16 (0x0700 + n))

def Crt.sheet (crt : Crt) : Sheet := ⟨crt.buf, crt.pos, CRT_ROWS⟩

/-- The screen shows the last 25 rows of the sheet, and the cursors are at one place. -/
structure Shows (crt : Crt) (s : Sheet) : Prop where
  rows : CRT_ROWS ≤ s.rows
  pos : crt.pos < CRT_SIZE
  cursor : s.cursor = s.top + crt.pos
  cells : ∀ i, i < CRT_SIZE → crt.buf i = s.cell (s.top + i)

structure Before (crt : Crt) (s : Sheet) : Prop where
  rows : 25 ≤ s.rows
  pos : crt.pos ≤ 2000
  cursor : s.cursor = s.top + crt.pos
  cells : ∀ i, i < 2000 → crt.buf i = s.cell (s.top + i)

theorem store_ok {crt : Crt} {i : Nat} (inside : i < 2000) (v : BitVec 16) :
    store crt i v = .ok { crt with buf := Function.update crt.buf i v } := if_pos inside

theorem load_ok {crt : Crt} {i : Nat} (inside : i < 2000) : load crt i = .ok (crt.buf i) :=
  if_pos inside

/-- The cells from lo up to hi of the target are those that lay at the source. -/
def movedCells (buf : Nat → BitVec 16) (dst src lo hi : Nat) : Nat → BitVec 16 := fun i =>
  if dst + lo ≤ i ∧ i < dst + hi then buf (src + (i - dst)) else buf i

section Move
variable {crt : Crt} {buf : Nat → BitVec 16} {dst src n size : Nat}

theorem moveCell_ok (crt : Crt) {dst src : Nat} (dst_inside : dst + 1 ≤ 2000)
    (src_inside : src + 1 ≤ 2000) :
    moveCell dst src crt = .ok { crt with buf := movedCells crt.buf dst src 0 1 } := by
  have cells : Function.update crt.buf dst (crt.buf src) = movedCells crt.buf dst src 0 1 := by
    funext i
    unfold movedCells
    by_cases here : i = dst
    · rw [here, Function.update_self, if_pos (by omega), Nat.sub_self, Nat.add_zero]
    · rw [Function.update_of_ne here, if_neg (by omega)]
  unfold moveCell
  rw [load_ok (by omega), ok_bind, store_ok (by omega), cells]

theorem moveLong_ok (crt : Crt) {dst src : Nat} (dst_inside : dst + 2 ≤ 2000)
    (src_inside : src + 2 ≤ 2000) :
    moveLong dst src crt = .ok { crt with buf := movedCells crt.buf dst src 0 2 } := by
  have cells : Function.update (Function.update crt.buf dst (crt.buf src)) (dst + 1) (crt.buf (src + 1)) =
      movedCells crt.buf dst src 0 2 := by
    funext i
    unfold movedCells
    by_cases second : i = dst + 1
    · rw [second, Function.update_self, if_pos (by omega), Nat.add_sub_cancel_left]
    · rw [Function.update_of_ne second]
      by_cases first : i = dst
      · rw [first, Function.update_self, if_pos (by omega), Nat.sub_self, Nat.add_zero]
      · rw [Function.update_of_ne first, if_neg (by omega)]
  unfold moveLong
  rw [load_ok (by omega), ok_bind, load_ok (by omega), ok_bind, store_ok (by omega), ok_bind,
    store_ok (by omega), cells]

theorem movedCells_empty (buf : Nat → BitVec 16) (dst src k : Nat) : movedCells buf dst src k k = buf := by
  funext i
  exact if_neg (by omega)

theorem movedCells_join {lo hi lo' hi' o : Nat}
    (unread : ∀ k, k < size → movedCells buf dst src lo hi (src + o + k) = buf (src + o + k))
    (join : ∀ i, lo' ≤ i ∧ i < hi' ↔ lo ≤ i ∧ i < hi ∨ o ≤ i ∧ i < o + size) :
    movedCells (movedCells buf dst src lo hi) (dst + o) (src + o) 0 size = movedCells buf dst src lo' hi' := by
  funext x
  by_cases block : dst + o ≤ x ∧ x < dst + o + size
  · have within := (join (x - dst)).mpr (Or.inr ⟨by omega, by omega⟩)
    have place : src + o + (x - (dst + o)) = src + (x - dst) := by omega
    change (if dst + o + 0 ≤ x ∧ x < dst + o + size then
      movedCells buf dst src lo hi (src + o + (x - (dst + o))) else _) = _
    rw [if_pos ⟨by omega, block.2⟩, unread _ (by omega), place]
    exact (if_pos ⟨by omega, by omega⟩).symm
  · change (if dst + o + 0 ≤ x ∧ x < dst + o + size then _ else movedCells buf dst src lo hi x) = _
    rw [if_neg (by omega)]
    unfold movedCells
    by_cases inside : dst + lo ≤ x ∧ x < dst + hi
    · have within := (join (x - dst)).mpr (Or.inl ⟨by omega, by omega⟩)
      rw [if_pos inside, if_pos ⟨by omega, by omega⟩]
    · rw [if_neg inside, if_neg]
      intro wider
      rcases (join (x - dst)).mp ⟨by omega, by omega⟩ with old | new
      · exact inside ⟨by omega, by omega⟩
      · exact block ⟨by omega, by omega⟩

section Rounds
variable {move : Nat → Nat → Crt → Except Fault Crt}
  (moves : ∀ crt dst src, dst + size ≤ 2000 → src + size ≤ 2000 →
    move dst src crt = .ok { crt with buf := movedCells crt.buf dst src 0 size })
  (dst_inside : dst + n ≤ 2000) (src_inside : src + n ≤ 2000)
include moves dst_inside src_inside

theorem moves_up (safe : ¬ (src < dst ∧ dst < src + n)) (q : Nat) (few : size * q ≤ n) :
    times (fun k => move (dst + size * k) (src + size * k)) q crt =
      .ok { crt with buf := movedCells crt.buf dst src 0 (size * q) } := by
  induction q with
  | zero =>
    rw [Nat.mul_zero, movedCells_empty]
    rfl
  | succ q ih =>
    rw [Nat.mul_succ] at few ⊢
    unfold times
    rw [ih (by omega), ok_bind, moves _ _ _ (by omega) (by omega)]
    congr 2
    exact movedCells_join (fun k inside => if_neg (by omega)) fun i => by omega

theorem moves_down (safe : ¬ (dst < src ∧ src < dst + n)) (q : Nat) (few : size * q ≤ n) :
    times (fun k => move (dst + n - size * (k + 1)) (src + n - size * (k + 1))) q crt =
      .ok { crt with buf := movedCells crt.buf dst src (n - size * q) n } := by
  induction q with
  | zero =>
    rw [Nat.mul_zero, Nat.sub_zero, movedCells_empty]
    rfl
  | succ q ih =>
    have row : size * (q + 1) = size * q + size := Nat.mul_succ size q
    obtain ⟨o, below⟩ : ∃ o, n - size * (q + 1) = o := ⟨_, rfl⟩
    have dst_here : dst + n - size * (q + 1) = dst + o := by omega
    have src_here : src + n - size * (q + 1) = src + o := by omega
    unfold times
    rw [ih (by omega), ok_bind, dst_here, src_here, moves _ _ _ (by omega) (by omega), below]
    congr 2
    exact movedCells_join (fun k inside => if_neg (by omega)) fun i => by omega

end Rounds

theorem memmove_moves (crt : Crt) {dst src n : Nat} (dst_inside : dst + n ≤ 2000)
    (src_inside : src + n ≤ 2000) :
    memmove dst src n crt = .ok { crt with buf := movedCells crt.buf dst src 0 n } := by
  have cell := fun crt dst src => @moveCell_ok crt dst src
  have long := fun crt dst src => @moveLong_ok crt dst src
  have pairs : ∀ even : n % 2 = 0, 2 * (n / 2) = n := fun even =>
    Nat.mul_div_cancel' (Nat.dvd_of_mod_eq_zero even)
  unfold memmove
  dsimp only
  by_cases overlap : src < dst ∧ dst < src + n
  · have safe : ¬ (dst < src ∧ src < dst + n) := by omega
    rw [if_pos overlap]
    split
    case isTrue even =>
      have down := @moves_down crt _ _ _ _ _ long dst_inside src_inside safe (n / 2)
        (Nat.le_of_eq (pairs even.2.2))
      rw [down, pairs even.2.2, Nat.sub_self]
    case isFalse odd =>
      have down := @moves_down crt _ _ _ _ _ cell dst_inside src_inside safe n (by omega)
      simp only [Nat.one_mul, Nat.sub_self] at down
      exact down
  · rw [if_neg overlap]
    split
    case isTrue even =>
      have up := @moves_up crt _ _ _ _ _ long dst_inside src_inside overlap (n / 2)
        (Nat.le_of_eq (pairs even.2.2))
      rw [up, pairs even.2.2]
    case isFalse odd =>
      have up := @moves_up crt _ _ _ _ _ cell dst_inside src_inside overlap n (by omega)
      simp only [Nat.one_mul] at up
      exact up

end Move

theorem memmove_row (crt : Crt) : ∃ buf, memmove 0 80 1920 crt = .ok { crt with buf := buf } ∧
    ∀ i, i < 2000 → buf i = if i < 1920 then crt.buf (80 + i) else crt.buf i := by
  refine ⟨_, memmove_moves crt (by decide) (by decide), ?_⟩
  intro i _
  unfold movedCells
  by_cases up : i < 1920
  · rw [if_pos up, if_pos ⟨by omega, by omega⟩, Nat.sub_zero]
  · rw [if_neg up, if_neg (by omega)]

theorem fill_row (crt : Crt) :
    ∃ buf, times (fun k crt => store crt (1920 + k) blank) 80 crt = .ok { crt with buf := buf } ∧
      ∀ i, i < 2000 → buf i = if i < 1920 then crt.buf i else blank := by
  have loop := @times_total Fault Crt (fun k crt => store crt (1920 + k) blank) 80 crt
    (fun k crt' => ∃ buf, crt' = { crt with buf := buf } ∧ ∀ i, i < 2000 → buf i =
      if 1920 ≤ i ∧ i < 1920 + k then blank else crt.buf i)
    ⟨crt.buf, rfl, fun i _ => (if_neg (by omega)).symm⟩ ?_
  · obtain ⟨_, run, buf, rfl, cells⟩ := loop
    refine ⟨buf, run, fun i inside => ?_⟩
    rw [cells i inside]
    by_cases last : i < 1920
    · rw [if_neg (by omega), if_pos last]
    · rw [if_pos (by omega), if_neg last]
  · rintro k _ small ⟨buf, rfl, cells⟩
    refine ⟨_, store_ok (by omega) blank, _, rfl, ?_⟩
    intro i inside
    dsimp only
    by_cases here : i = 1920 + k
    · rw [here, Function.update_self, if_pos (by omega)]
    · rw [Function.update_of_ne here, cells i inside]
      by_cases done : 1920 ≤ i ∧ i < 1920 + k
      · rw [if_pos done, if_pos (by omega)]
      · rw [if_neg done, if_neg (by omega)]

theorem scroll_below {crt : Crt} (below : 2000 ≤ crt.pos) :
    ∃ buf, scroll crt = .ok { crt with buf := buf, pos := crt.pos - 80 } ∧
      ∀ i, i < 2000 → buf i = if i < 1920 then crt.buf (80 + i) else blank := by
  obtain ⟨moved, move, cells_moved⟩ := memmove_row crt
  obtain ⟨filled, fill, cells_filled⟩ := fill_row { crt with buf := moved }
  refine ⟨filled, ?_, ?_⟩
  · refine (if_pos below).trans ?_
    change (memmove 0 80 1920 crt >>= fun crt =>
      times (fun k crt => store crt (1920 + k) blank) 80 crt >>= _) = _
    rw [move, ok_bind, fill, ok_bind]
  · intro i inside
    rw [cells_filled i inside]
    dsimp only
    rw [cells_moved i inside]
    split <;> rfl

/-- The end of cga_putc: a cursor just below the screen scrolls it by one row, as the sheet grows. -/
theorem scroll_shows {crt : Crt} {s : Sheet} (h : Before crt s) :
    ∃ crt', scroll crt = .ok crt' ∧ Shows crt' s.grow := by
  obtain ⟨rows, pos, cursor, cells⟩ := h
  have top : s.top = (s.rows - 25) * 80 := rfl
  by_cases inside : crt.pos < 2000
  · have stays : s.grow = s := if_pos (by change s.cursor < s.rows * 80; omega)
    rw [stays]
    exact ⟨crt, if_neg (by change ¬ 2000 ≤ crt.pos; omega), rows, inside, cursor, cells⟩
  · obtain ⟨buf, run, cells'⟩ := scroll_below (show 2000 ≤ crt.pos by omega)
    have grows : s.grow =
        ⟨fun i => if i / 80 = s.rows then blank else s.cell i, s.cursor, s.rows + 1⟩ :=
      if_neg (by change ¬ s.cursor < s.rows * 80; omega)
    have top' : s.grow.top = s.top + 80 := by
      rw [grows, top]
      change (s.rows + 1 - 25) * 80 = _
      omega
    refine ⟨_, run, ?_, ?_, ?_, ?_⟩
    · rw [grows]
      change 25 ≤ s.rows + 1
      omega
    · change crt.pos - 80 < 2000
      omega
    · rw [top', grows]
      change s.cursor = s.top + 80 + (crt.pos - 80)
      omega
    · intro i small
      rw [top', grows]
      change buf i = _
      rw [cells' i small]
      dsimp only
      by_cases last : i < 1920
      · rw [if_pos last, cells (80 + i) (by omega), if_neg (by omega), Nat.add_assoc]
      · rw [if_neg last, if_pos (by change i < 2000 at small; omega)]

/- What cga_putc sees of a character: the white on black attribute, then the character itself. -/
theorem char_facts (n : Fin 256) :
    let c := BitVec.ofNat 32 n
    c &&& ~~~0xFF = 0 ∧ ((c ||| 0x0700) &&& 0xFF).toNat = n ∧
      (((c ||| 0x0700) &&& ~~~0xFF) ||| 0x20).setWidth 16 = blank ∧
      (c ||| 0x0700).setWidth 16 = BitVec.ofNat 16 (0x0700 + n) := by
  revert n
  decide +kernel

theorem Sheet.grow_inside {s : Sheet} (inside : s.cursor < s.rows * 80) : s.grow = s := if_pos inside

theorem switch_before {crt : Crt} {s : Sheet} (h : Shows crt s) (putSpace : Crt → Except Fault Crt)
    (c : UInt8) (no_tab : c.toNat ≠ 0x09) :
    ∃ crt' s', cgaSwitch putSpace (BitVec.ofNat 32 c.toNat ||| 0x0700) crt = .ok crt' ∧
      s.type c = Sheet.grow s' ∧ Before crt' s' := by
  obtain ⟨_, char, erased, cell⟩ := char_facts ⟨c.toNat, c.toNat_lt⟩
  dsimp only at char erased cell
  have rows : 25 ≤ s.rows := h.rows
  have pos : crt.pos < 2000 := h.pos
  have cursor := h.cursor
  have cells : ∀ i, i < 2000 → crt.buf i = s.cell (s.top + i) := h.cells
  have top : s.top = (s.rows - 25) * 80 := rfl
  have written : ∀ at_pos v, at_pos < 2000 → ∀ i, i < 2000 →
      Function.update crt.buf at_pos v i = Function.update s.cell (s.top + at_pos) v (s.top + i) := by
    intro at_pos v _ i small
    by_cases here : i = at_pos
    · rw [here, Function.update_self, Function.update_self]
    · rw [Function.update_of_ne here, Function.update_of_ne (by omega), cells i small]
  unfold cgaSwitch Sheet.type
  rw [char, erased, cell]
  split
  · by_cases first : 0 < crt.pos
    · rw [if_pos first, if_pos (by omega), store_ok (by omega)]
      have moved : s.cursor - 1 = s.top + (crt.pos - 1) := by omega
      refine ⟨_, ⟨Function.update s.cell (s.cursor - 1) blank, s.cursor - 1, s.rows⟩, rfl, ?_,
        rows, by dsimp only; omega, moved, ?_⟩
      · exact (Sheet.grow_inside (by dsimp only; omega)).symm
      · rw [moved]
        exact written (crt.pos - 1) blank (by omega)
    · rw [if_neg first, if_neg (by omega)]
      exact ⟨crt, s, rfl, (Sheet.grow_inside (by omega)).symm, rows, by omega, cursor, cells⟩
  · have line : u16 (crt.pos + CRT_COLS) = crt.pos + 80 :=
      Nat.mod_eq_of_lt (by change crt.pos + 80 < 65536; omega)
    refine ⟨_, ⟨s.cell, (s.cursor / CRT_COLS + 1) * CRT_COLS, s.rows⟩, rfl, rfl, rows, ?_, ?_, cells⟩
    · rw [line]
      change crt.pos + 80 - (crt.pos + 80) % 80 ≤ 2000
      omega
    · rw [line]
      change (s.cursor / 80 + 1) * 80 = s.top + (crt.pos + 80 - (crt.pos + 80) % 80)
      omega
  · have line : s.cursor / 80 * 80 = s.top + (crt.pos - crt.pos % 80) := by omega
    refine ⟨_, ⟨s.cell, s.cursor / CRT_COLS * CRT_COLS, s.rows⟩, rfl, ?_, rows, ?_, line, cells⟩
    · exact (Sheet.grow_inside (by change s.cursor / 80 * 80 < s.rows * 80; omega)).symm
    · change crt.pos - crt.pos % 80 ≤ 2000
      omega
  · contradiction
  · have next : u16 (crt.pos + 1) = crt.pos + 1 := Nat.mod_eq_of_lt (by omega)
    rw [store_ok pos, next]
    refine ⟨_, ⟨Function.update s.cell s.cursor (BitVec.ofNat 16 (0x0700 + c.toNat)), s.cursor + 1, s.rows⟩,
      rfl, rfl, rows, pos, ?_, ?_⟩
    · change s.cursor + 1 = s.top + (crt.pos + 1)
      omega
    · rw [cursor]
      exact written crt.pos _ pos

theorem Shows.outs {crt crt' : Crt} {s : Sheet} (h : Shows crt s) (buf : crt'.buf = crt.buf)
    (pos : crt'.pos = crt.pos) : Shows crt' s :=
  ⟨h.rows, pos ▸ h.pos, pos ▸ h.cursor, buf ▸ h.cells⟩

theorem cgaPutc_plain {crt : Crt} {s : Sheet} (h : Shows crt s) (depth : Nat) (c : UInt8)
    (no_tab : c.toNat ≠ 0x09) :
    ∃ crt', cgaPutc (depth + 1) (BitVec.ofNat 32 c.toNat) crt = .ok crt' ∧ Shows crt' (s.type c) := by
  obtain ⟨switched, s', run, grows, before⟩ :=
    switch_before h (consPutc (cgaPutc depth) 0x20) c no_tab
  obtain ⟨scrolled, scrolls, shows⟩ := scroll_shows before
  obtain ⟨plain, _⟩ := char_facts ⟨c.toNat, c.toNat_lt⟩
  refine ⟨moveCursor scrolled, ?_, grows ▸ shows.outs rfl rfl⟩
  unfold cgaPutc
  rw [if_pos plain]
  dsimp only
  rw [run, ok_bind, scrolls, ok_bind]

theorem cgaPutc_tab {crt : Crt} {s : Sheet} (h : Shows crt s) (depth : Nat) :
    ∃ crt', cgaPutc (depth + 2) (BitVec.ofNat 32 0x09) crt = .ok crt' ∧
      Shows crt' ((Sheet.put blank)^[5] s) := by
  have spaces := @times_total Fault Crt (fun _ => consPutc (cgaPutc (depth + 1)) 0x20) 5 crt
    (fun k crt' => Shows crt' ((Sheet.put blank)^[k] s)) h ?_
  · obtain ⟨spaced, run, shows⟩ := spaces
    have inside : spaced.pos < 2000 := shows.pos
    have still : scroll spaced = .ok spaced := if_neg (by change ¬ 2000 ≤ spaced.pos; omega)
    refine ⟨moveCursor spaced, ?_, shows.outs rfl rfl⟩
    unfold cgaPutc
    change (times (fun _ => consPutc (cgaPutc (depth + 1)) 0x20) 5 crt >>= fun crt => scroll crt >>= _) = _
    rw [run, ok_bind, still, ok_bind]
  · intro k crt' _ shows
    have sent : Shows (lptPutc 0x20 (serialPutc 0x20 crt')) ((Sheet.put blank)^[k] s) :=
      shows.outs rfl rfl
    have space : ∀ s : Sheet, s.type 0x20 = s.put blank := fun _ => rfl
    rw [Function.iterate_succ_apply', ← space]
    exact cgaPutc_plain sent depth 0x20 (by decide)

theorem cgaPutc_shows {crt : Crt} {s : Sheet} (h : Shows crt s) (depth : Nat) (c : UInt8) :
    ∃ crt', cgaPutc (depth + 2) (BitVec.ofNat 32 c.toNat) crt = .ok crt' ∧ Shows crt' (s.type c) := by
  by_cases tab : c.toNat = 0x09
  · have typed : s.type c = (Sheet.put blank)^[5] s := by
      unfold Sheet.type
      rw [tab]
      rfl
    rw [tab, typed]
    exact cgaPutc_tab h depth
  · exact cgaPutc_plain h (depth + 1) c tab

def putChars (depth : Nat) (cs : List UInt8) (crt : Crt) : Except Fault Crt :=
  cs.foldlM (fun crt c => cgaPutc depth (BitVec.ofNat 32 c.toNat) crt) crt

theorem putChars_shows {crt : Crt} {s : Sheet} (h : Shows crt s) (depth : Nat) (cs : List UInt8) :
    ∃ crt', putChars (depth + 2) cs crt = .ok crt' ∧ Shows crt' (cs.foldl Sheet.type s) := by
  induction cs generalizing crt s with
  | nil => exact ⟨crt, rfl, h⟩
  | cons c rest ih =>
    obtain ⟨crt1, first, shows⟩ := cgaPutc_shows h depth c
    obtain ⟨crt', run, shows'⟩ := ih shows
    refine ⟨crt', ?_, shows'⟩
    rw [putChars, List.foldlM_cons, first, ok_bind]
    exact run

/-- The screen is a window on the sheet: any characters typed on any screen. -/
theorem screen_shows_sheet (crt : Crt) (inside : crt.pos < CRT_SIZE) (depth : Nat) (cs : List UInt8) :
    ∃ crt', putChars (depth + 2) cs crt = .ok crt' ∧ Shows crt' (cs.foldl Sheet.type crt.sheet) := by
  have start : Shows crt crt.sheet := by
    refine ⟨Nat.le_refl _, inside, ?_, ?_⟩
    · simp [Crt.sheet, Sheet.top]
    · simp [Crt.sheet, Sheet.top]
  exact putChars_shows start depth cs

theorem screen_shows_sheet_corner : ∃ crt', putChars 2 [0x61, 0x09] ⟨fun _ => blank, 1999, 0x3D4, []⟩ =
    .ok crt' ∧ Shows crt' ([0x61, 0x09].foldl Sheet.type ⟨fun _ => blank, 1999, 25⟩) :=
  screen_shows_sheet ⟨fun _ => blank, 1999, 0x3D4, []⟩ (by decide) 0 [0x61, 0x09]

end JosCrt
