import Jos.WrappedQueue
import Jos.Keyboard
import Mathlib.Data.Nat.ModEq

/- The console input buffer: the device routines that fill it and cons_getc. -/
namespace JosConsole
open JosKeyboard WrappedQueue

abbrev CONSBUFSIZE : Nat := 512

structure Cons where
  buf : Nat → UInt8
  rpos : Nat
  wpos : Nat

structure Serial where
  serialExists : Bool
  rx : List UInt8

structure System where
  cons : Cons
  serial : Serial
  kbd : Keyboard

def serialProcData (s : Serial) : Int × Serial :=
  match s.rx with
  | [] => (-1, s)
  | data :: rest => (data.toNat, { s with rx := rest })

/-- The two index steps of the source share this shape. -/
def wrapped (pos : Nat) : Nat := if pos = CONSBUFSIZE then 0 else pos

def Cons.store (cons : Cons) (c : Int) : Cons :=
  { cons with
    buf := Function.update cons.buf cons.wpos (UInt8.ofInt c)
    wpos := wrapped (cons.wpos + 1) }

section DeviceLoop
variable {Device : Type} (proc : Device → Int × Device)

def consIntr : Nat → Cons → Device → Option (Cons × Device)
  | 0, _, _ => none
  | fuel + 1, cons, dev =>
    if (proc dev).1 = -1 then some (cons, (proc dev).2)
    else if (proc dev).1 = 0 then consIntr fuel cons (proc dev).2
    else consIntr fuel (cons.store (proc dev).1) (proc dev).2

def results : Nat → Device → List Int
  | 0, _ => []
  | fuel + 1, dev => if (proc dev).1 = -1 then [] else (proc dev).1 :: results fuel (proc dev).2

end DeviceLoop

def serialIntr (s : System) : Option System :=
  if s.serial.serialExists then
    (consIntr serialProcData (s.serial.rx.length + 1) s.cons s.serial).map
      fun done => { s with cons := done.1, serial := done.2 }
  else some s

def kbdIntr (s : System) : Option System :=
  (consIntr kbdProcData (s.kbd.waiting.length + 1) s.cons s.kbd).map
    fun done => { s with cons := done.1, kbd := done.2 }

def Cons.grab (cons : Cons) : Int × Cons :=
  if cons.rpos ≠ cons.wpos then
    ((cons.buf cons.rpos).toNat, { cons with rpos := wrapped (cons.rpos + 1) })
  else (0, cons)

def consGetc (s : System) : Option (Int × System) := do
  let s ← serialIntr s
  let s ← kbdIntr s
  some (s.cons.grab.1, { s with cons := s.cons.grab.2 })

def nonzero (cs : List Int) : List Int := cs.filter (· ≠ 0)

def serialChars (s : System) : List Int :=
  if s.serial.serialExists then nonzero (results serialProcData (s.serial.rx.length + 1) s.serial) else []

def kbdChars (s : System) : List Int := nonzero (results kbdProcData (s.kbd.waiting.length + 1) s.kbd)

def polled (s : System) : List Int := serialChars s ++ kbdChars s

def Cons.queue (cons : Cons) : Buffer UInt8 := ⟨cons.buf, cons.rpos, cons.wpos⟩

/-- The buffer holds the accepted and unread characters cs. -/
def Pending (cons : Cons) (cs : List Int) : Prop :=
  Holds CONSBUFSIZE cons.queue (cs.map UInt8.ofInt) ∧ ∀ c ∈ cs, 0 < c ∧ c < 256

theorem stores_queue (cs : List Int) (cons : Cons) :
    (cs.foldl Cons.store cons).queue = (cs.map UInt8.ofInt).foldl (push CONSBUFSIZE) cons.queue := by
  induction cs generalizing cons with
  | nil => rfl
  | cons c rest ih => exact ih (cons.store c)

theorem byte_char {c : Int} (char : 0 < c ∧ c < 256) : ((UInt8.ofInt c).toNat : Int) = c := by
  have small : c.toNat < 256 := by omega
  have rest : (c % 2 ^ 8).toNat = c.toNat := by omega
  rw [UInt8.ofInt, rest, UInt8.toNat_ofNat', Nat.mod_eq_of_lt small]
  omega

/- A device routine stores what its device delivers and ends: proc uses up something of the device
   each time it does not return -1. -/
theorem consIntr_results {Device : Type} {proc : Device → Int × Device} (size : Device → Nat)
    (shrinks : ∀ dev, (proc dev).1 ≠ -1 → size (proc dev).2 < size dev)
    (idle : ∀ dev, (proc dev).1 = -1 → (proc dev).2 = dev)
    (fuel : Nat) (cons : Cons) (dev : Device) (enough : size dev < fuel) :
    ∃ dev', consIntr proc fuel cons dev =
      some ((nonzero (results proc fuel dev)).foldl Cons.store cons, dev') ∧ (proc dev').1 = -1 := by
  induction fuel generalizing cons dev with
  | zero => omega
  | succ fuel ih =>
    unfold consIntr results
    by_cases last : (proc dev).1 = -1
    · exact ⟨(proc dev).2, by simp [last, nonzero], by rw [idle dev last, last]⟩
    · have fewer := shrinks dev last
      by_cases null : (proc dev).1 = 0
      · obtain ⟨dev', rest, done⟩ := ih cons (proc dev).2 (by omega)
        exact ⟨dev', by simpa [null, nonzero] using rest, done⟩
      · obtain ⟨dev', rest, done⟩ := ih (cons.store (proc dev).1) (proc dev).2 (by omega)
        exact ⟨dev', by simpa [last, null, nonzero] using rest, done⟩

theorem results_range {Device : Type} {proc : Device → Int × Device}
    (range : ∀ dev, (proc dev).1 = -1 ∨ 0 ≤ (proc dev).1 ∧ (proc dev).1 < 256) (fuel : Nat) (dev : Device) :
    ∀ c ∈ nonzero (results proc fuel dev), 0 < c ∧ c < 256 := by
  induction fuel generalizing dev with
  | zero => simp [results, nonzero]
  | succ fuel ih =>
    unfold results
    by_cases last : (proc dev).1 = -1
    · simp [last, nonzero]
    · intro c member
      rw [if_neg last, nonzero, List.mem_filter, List.mem_cons] at member
      obtain ⟨rfl | later, char⟩ := member
      · have := range dev
        have null : (proc dev).1 ≠ 0 := by simpa using char
        omega
      · exact ih (proc dev).2 c (List.mem_filter.mpr ⟨later, char⟩)

theorem serial_shrinks (s : Serial) (more : (serialProcData s).1 ≠ -1) :
    (serialProcData s).2.rx.length < s.rx.length := by
  unfold serialProcData at more ⊢
  split
  · rename_i empty
    simp [empty] at more
  · rename_i data rest waiting
    simp [waiting]

theorem serial_range (s : Serial) :
    (serialProcData s).1 = -1 ∨ 0 ≤ (serialProcData s).1 ∧ (serialProcData s).1 < 256 := by
  unfold serialProcData
  split
  · exact .inl rfl
  · rename_i data rest waiting
    have := data.toNat_lt
    exact .inr (by simp; omega)

theorem capitals_range (caps : Prop) [Decidable caps] (c : UInt8) :
    0 ≤ (if caps then capitals c.toNat else c.toNat) ∧
      (if caps then capitals c.toNat else c.toNat) < 256 := by
  have := c.toNat_lt
  unfold capitals
  split
  · split
    · omega
    · split <;> omega
  · omega

theorem procData_range (k : Keyboard) (data : UInt8) :
    0 ≤ (procData k data).1 ∧ (procData k data).1 < 256 := by
  unfold procData
  split
  · simp
  · split
    · simp
    · exact capitals_range _ _

theorem kbd_range (k : Keyboard) :
    (kbdProcData k).1 = -1 ∨ 0 ≤ (kbdProcData k).1 ∧ (kbdProcData k).1 < 256 := by
  unfold kbdProcData
  split
  · exact .inl rfl
  · split
    · exact .inl rfl
    · exact .inr (procData_range _ _)

theorem kbd_shrinks (k : Keyboard) (more : (kbdProcData k).1 ≠ -1) :
    (kbdProcData k).2.waiting.length < k.waiting.length := by
  unfold kbdProcData at more ⊢
  split
  · rename_i empty
    simp [empty] at more
  · rename_i data mouse rest waiting
    split
    · rename_i from_mouse
      simp [waiting, from_mouse] at more
    · rw [procData_waiting, waiting]
      simp

theorem serial_idle (s : Serial) (last : (serialProcData s).1 = -1) : (serialProcData s).2 = s := by
  unfold serialProcData at last ⊢
  split
  · rfl
  · rename_i data rest waiting
    rw [waiting] at last
    simp at last

theorem kbd_idle (k : Keyboard) (last : (kbdProcData k).1 = -1) : (kbdProcData k).2 = k := by
  unfold kbdProcData at last ⊢
  split
  · rfl
  · rename_i data mouse rest waiting
    rw [waiting] at last
    split
    · rfl
    · rename_i plain
      have range := procData_range { k with waiting := rest } data
      have read : (procData { k with waiting := rest } data).1 = -1 := by simpa [plain] using last
      omega

theorem chars_range (s : System) : ∀ c ∈ serialChars s ++ kbdChars s, 0 < c ∧ c < 256 := by
  intro c member
  rcases List.mem_append.mp member with serial | kbd
  · unfold serialChars at serial
    split at serial
    · exact results_range serial_range _ _ c serial
    · cases serial
  · exact results_range kbd_range _ _ c kbd

theorem serialIntr_chars (s : System) : ∃ serial, serialIntr s =
    some { s with cons := (serialChars s).foldl Cons.store s.cons, serial := serial } ∧
      (serial.serialExists = true → (serialProcData serial).1 = -1) := by
  unfold serialIntr serialChars
  split
  · obtain ⟨serial, run, done⟩ := consIntr_results (fun s : Serial => s.rx.length) serial_shrinks
      serial_idle (s.serial.rx.length + 1) s.cons s.serial (by omega)
    exact ⟨serial, by rw [run]; rfl, fun _ => done⟩
  · rename_i absent
    exact ⟨s.serial, rfl, fun present => absurd present absent⟩

theorem kbdIntr_chars (s : System) : ∃ kbd, kbdIntr s =
    some { s with cons := (kbdChars s).foldl Cons.store s.cons, kbd := kbd } ∧
      (kbdProcData kbd).1 = -1 := by
  obtain ⟨kbd, run, done⟩ := consIntr_results (fun k : Keyboard => k.waiting.length) kbd_shrinks
    kbd_idle (s.kbd.waiting.length + 1) s.cons s.kbd (by omega)
  exact ⟨kbd, by rw [kbdIntr, run]; rfl, done⟩

theorem consGetc_chars (s : System) : ∃ s' : System, s'.cons = (polled s).foldl Cons.store s.cons ∧
    consGetc s = some (s'.cons.grab.1, { s' with cons := s'.cons.grab.2 }) := by
  obtain ⟨serial, first, _⟩ := serialIntr_chars s
  obtain ⟨kbd, second, _⟩ := kbdIntr_chars
    { s with cons := (serialChars s).foldl Cons.store s.cons, serial := serial }
  refine ⟨⟨(polled s).foldl Cons.store s.cons, serial, kbd⟩, rfl, ?_⟩
  have stores : (polled s).foldl Cons.store s.cons =
      (kbdChars s).foldl Cons.store ((serialChars s).foldl Cons.store s.cons) := List.foldl_append
  unfold consGetc
  rw [first]
  dsimp only [Option.bind_eq_bind, Option.bind_some]
  rw [second, stores]
  rfl

/- The buffer against the characters it holds. -/
theorem Pending.stores {cons : Cons} {cs ds : List Int} (pending : Pending cons cs)
    (chars : ∀ c ∈ ds, 0 < c ∧ c < 256) (fits : (cs ++ ds).length ≤ 511) :
    Pending (ds.foldl Cons.store cons) (cs ++ ds) := by
  constructor
  · rw [stores_queue, List.map_append]
    have below : (cs.map UInt8.ofInt ++ ds.map UInt8.ofInt).length < 512 := by
      simp only [List.length_append, List.length_map] at fits ⊢
      omega
    exact pushes_hold pending.1 below
  · intro c member
    rcases List.mem_append.mp member with old | new
    · exact pending.2 c old
    · exact chars c new

theorem Pending.grab_nil {cons : Cons} (pending : Pending cons []) : cons.grab = (0, cons) := by
  have empty := pop_nil pending.1
  unfold pop at empty
  split at empty
  · cases empty
  · rename_i same
    exact if_neg same

theorem Pending.grab_cons {cons : Cons} {c : Int} {cs : List Int} (pending : Pending cons (c :: cs)) :
    ∃ cons', cons.grab = (c, cons') ∧ Pending cons' cs := by
  obtain ⟨queue, popped, rest⟩ := pop_cons pending.1
  unfold pop at popped
  split at popped
  · rename_i differ
    obtain ⟨first, rfl⟩ := Prod.mk.inj (Option.some.inj popped)
    refine ⟨{ cons with rpos := wrapped (cons.rpos + 1) }, ?_, rest, ?_⟩
    · have char : ((cons.buf cons.rpos).toNat : Int) = c := by
        rw [← byte_char (pending.2 c List.mem_cons_self)]
        exact congrArg (fun b : UInt8 => (b.toNat : Int)) first
      exact (if_pos differ).trans (by rw [char])
    · intro d member
      exact pending.2 d (List.mem_cons_of_mem c member)
  · cases popped

/-- Something happens to the devices, or a device routine runs and delivers cs. -/
inductive Feeds : System → List Int → System → Prop where
  | serialByte (s : System) (data : UInt8) :
      Feeds s [] { s with serial := { s.serial with rx := s.serial.rx ++ [data] } }
  | kbdByte (s : System) (data : UInt8) (fromMouse : Bool) :
      Feeds s [] { s with kbd := { s.kbd with waiting := s.kbd.waiting ++ [(data, fromMouse)] } }
  | serialIntr (s s' : System) (call : serialIntr s = some s') : Feeds s (serialChars s) s'
  | kbdIntr (s s' : System) (call : kbdIntr s = some s') : Feeds s (kbdChars s) s'

/-- Runs from boot in which at most 511 characters are ever pending, with the characters delivered
    and the results of cons_getc so far. -/
inductive Run : System → List Int → List Int → Prop where
  | boot (s : System) (read : s.cons.rpos = 0) (write : s.cons.wpos = 0) : Run s [] []
  | feed (s s' : System) (sent got cs : List Int) (run : Run s sent got) (feeds : Feeds s cs s')
      (few : (sent ++ cs).length ≤ (nonzero got).length + 511) : Run s' (sent ++ cs) got
  | getc (s s' : System) (sent got : List Int) (c : Int) (run : Run s sent got)
      (few : (sent ++ polled s).length ≤ (nonzero got).length + 511)
      (call : consGetc s = some (c, s')) : Run s' (sent ++ polled s) (got ++ [c])

theorem feeds_stores {s s' : System} {cs : List Int} (feeds : Feeds s cs s') :
    s'.cons = cs.foldl Cons.store s.cons ∧ ∀ c ∈ cs, 0 < c ∧ c < 256 := by
  cases feeds with
  | serialByte => exact ⟨rfl, by simp⟩
  | kbdByte => exact ⟨rfl, by simp⟩
  | serialIntr _ call =>
    obtain ⟨serial, spec, _⟩ := serialIntr_chars s
    rw [spec] at call
    cases call
    exact ⟨rfl, fun c member => chars_range s c (List.mem_append_left _ member)⟩
  | kbdIntr _ call =>
    obtain ⟨kbd, spec, _⟩ := kbdIntr_chars s
    rw [spec] at call
    cases call
    exact ⟨rfl, fun c member => chars_range s c (List.mem_append_right _ member)⟩

/-- One cons_getc on a buffer that does not overflow: the oldest pending character, or 0. -/
theorem getc_pending {s : System} {cs : List Int} (pending : Pending s.cons cs)
    (few : (cs ++ polled s).length ≤ 511) : ∃ c s', consGetc s = some (c, s') ∧
      (cs ++ polled s = [] ∧ c = 0 ∧ Pending s'.cons [] ∨
        ∃ rest, cs ++ polled s = c :: rest ∧ 0 < c ∧ Pending s'.cons rest) := by
  obtain ⟨s', cons, call⟩ := consGetc_chars s
  have filled := pending.stores (chars_range s) few
  change Pending ((polled s).foldl Cons.store s.cons) _ at filled
  rw [← cons] at filled
  cases all : cs ++ polled s with
  | nil =>
    have filled' : Pending s'.cons [] := all ▸ filled
    exact ⟨_, _, call, .inl ⟨rfl, by rw [filled'.grab_nil], by rw [filled'.grab_nil]; exact filled'⟩⟩
  | cons c rest =>
    have filled' : Pending s'.cons (c :: rest) := all ▸ filled
    obtain ⟨cons', grab, left⟩ := filled'.grab_cons
    have char := filled'.2 c List.mem_cons_self
    refine ⟨_, _, call, .inr ⟨rest, by rw [grab], by rw [grab]; exact char.1, by rw [grab]; exact left⟩⟩

theorem nonzero_snoc_zero (got : List Int) : nonzero (got ++ [0]) = nonzero got := by
  simp [nonzero]

theorem nonzero_snoc {c : Int} (char : 0 < c) (got : List Int) :
    nonzero (got ++ [c]) = nonzero got ++ [c] := by
  have : c ≠ 0 := by omega
  simp [nonzero, this]

theorem run_pending {s : System} {sent got : List Int} (run : Run s sent got) :
    ∃ pending, sent = nonzero got ++ pending ∧ Pending s.cons pending := by
  induction run with
  | boot s read write =>
    refine ⟨[], rfl, ⟨⟨⟨?_, ?_, by simp⟩, by simp⟩, by simp⟩⟩
    · change s.cons.rpos < 512
      omega
    · change s.cons.wpos = (s.cons.rpos + 0) % 512
      omega
  | feed s s' sent got cs _ feeds few ih =>
    obtain ⟨pending, rfl, holds⟩ := ih
    obtain ⟨cons, chars⟩ := feeds_stores feeds
    refine ⟨pending ++ cs, by simp, ?_⟩
    rw [cons]
    exact holds.stores chars (by simp only [List.length_append] at few ⊢; omega)
  | getc s s' sent got c _ few call ih =>
    obtain ⟨pending, rfl, holds⟩ := ih
    obtain ⟨c', s'', same, result⟩ := getc_pending holds
      (by simp only [List.length_append] at few ⊢; omega)
    rw [same] at call
    cases call
    obtain ⟨all, rfl, left⟩ | ⟨rest, all, char, left⟩ := result
    · refine ⟨[], ?_, left⟩
      rw [List.append_assoc, all, nonzero_snoc_zero]
    · refine ⟨rest, ?_, left⟩
      rw [List.append_assoc, all, nonzero_snoc char]
      simp

theorem Pending.indices {cons : Cons} {cs : List Int} (pending : Pending cons cs) :
    cons.rpos < 512 ∧ cons.wpos < 512 :=
  ⟨pending.1.trail.start, pending.1.trail.write_lt⟩

/-- Console input is a FIFO. -/
theorem console_fifo {s : System} {sent got : List Int} (run : Run s sent got) :
    s.cons.rpos < 512 ∧ s.cons.wpos < 512 ∧ (∃ pending, sent = nonzero got ++ pending) ∧
    (serialIntr s).isSome ∧ (kbdIntr s).isSome ∧
    ((sent ++ polled s).length ≤ (nonzero got).length + 511 →
      ∃ c s', consGetc s = some (c, s') ∧ (c = 0 ↔ sent ++ polled s = nonzero got) ∧
        ∀ x rest, sent ++ polled s = nonzero got ++ x :: rest → c = x) := by
  obtain ⟨pending, rfl, holds⟩ := run_pending run
  obtain ⟨read, write⟩ := holds.indices
  obtain ⟨serial, first, _⟩ := serialIntr_chars s
  obtain ⟨kbd, second, _⟩ := kbdIntr_chars s
  refine ⟨read, write, ⟨pending, rfl⟩, by rw [first]; rfl, by rw [second]; rfl, ?_⟩
  intro few
  obtain ⟨c, s', call, result⟩ := getc_pending holds
    (by simp only [List.length_append] at few ⊢; omega)
  refine ⟨c, s', call, ?_, ?_⟩
  · rw [List.append_assoc]
    obtain ⟨all, zero, _⟩ | ⟨rest, all, char, _⟩ := result
    · simp [all, zero]
    · have : c ≠ 0 := by omega
      simp [all, this]
  · intro x rest same
    rw [List.append_assoc] at same
    have waiting := List.append_cancel_left same
    obtain ⟨all, _⟩ | ⟨rest', all, _⟩ := result
    · simp [all] at waiting
    · rw [all] at waiting
      exact (List.cons.inj waiting).1

def twoKeys : System :=
  { cons := ⟨fun _ => 0, 0, 0⟩
    serial := ⟨true, [0x61, 0]⟩
    kbd := ⟨[(0x30, false), (0xB0, false)], 0, []⟩ }

/-- kbd_intr has stored the 'b', -/
def keyStored : System := (kbdIntr twoKeys).getD twoKeys

/-- and cons_getc has returned it. -/
def keyRead : System := ((consGetc keyStored).map Prod.snd).getD keyStored

theorem console_fifo_twoKeys : ∃ s, consGetc keyStored = some (0x62, keyRead) ∧
    consGetc keyRead = some (0x61, s) := by
  have stored : kbdIntr twoKeys = some keyStored := rfl
  have run1 := Run.feed _ _ [] [] _ (.boot twoKeys rfl rfl) (.kbdIntr _ _ stored) (by decide)
  obtain ⟨c, s, call, _, next⟩ := (console_fifo run1).2.2.2.2.2 (by decide)
  obtain rfl : c = 0x62 := next 0x62 [0x61] (by decide)
  obtain rfl : keyRead = s := by
    unfold keyRead
    rw [call]
    rfl
  have run2 := Run.getc _ _ _ _ _ run1 (by decide) call
  obtain ⟨c', s', call', _, next'⟩ := (console_fifo run2).2.2.2.2.2 (by decide)
  obtain rfl : c' = 0x61 := next' 0x61 [] (by decide)
  exact ⟨s', call, call'⟩

inductive Burst : System → List Int → System → Prop where
  | none (s : System) : Burst s [] s
  | more (s s' s'' : System) (cs ds : List Int) (burst : Burst s cs s') (feeds : Feeds s' ds s'') :
      Burst s (cs ++ ds) s''

def Quiet (s : System) : Prop :=
  (s.serial.serialExists = true → (serialProcData s.serial).1 = -1) ∧ (kbdProcData s.kbd).1 = -1

def getcs : Nat → System → Option (List Int × System)
  | 0, s => some ([], s)
  | n + 1, s => do
    let first ← consGetc s
    let rest ← getcs n first.2
    some (first.1 :: rest.1, rest.2)

/-- Later calls return at least 511 of the accepted characters, in arrival order. -/
def YieldsMost (accepted : List Int) (s : System) : Prop :=
  ∃ n got s', getcs n s = some (got, s') ∧ 511 ≤ (nonzero got).length ∧ (nonzero got).Sublist accepted

/-- No later call returns 0 before every accepted character was returned. -/
def NeverEarly (accepted : List Int) (s : System) : Prop :=
  ∀ n got s' s'', getcs n s = some (got, s') → consGetc s' = some (0, s'') → nonzero got = accepted

theorem burst_stores {s s' : System} {cs : List Int} (burst : Burst s cs s') :
    s'.cons = cs.foldl Cons.store s.cons ∧ ∀ c ∈ cs, 0 < c ∧ c < 256 := by
  induction burst with
  | none => exact ⟨rfl, by simp⟩
  | more s' s'' cs ds _ feeds ih =>
    obtain ⟨cons, chars⟩ := feeds_stores feeds
    refine ⟨by rw [cons, ih.1, List.foldl_append], ?_⟩
    intro c member
    rcases List.mem_append.mp member with old | new
    · exact ih.2 c old
    · exact chars c new

/-- A burst leaves the characters after the last whole turn of the writer. -/
theorem burst_pending {s s' : System} {xs cs : List Int} (pending : Pending s.cons xs)
    (burst : Burst s cs s') :
    Pending s'.cons ((xs ++ cs).drop ((xs ++ cs).length - (xs ++ cs).length % 512)) := by
  obtain ⟨cons, chars⟩ := burst_stores burst
  have left := trail_holds (pushes_trail pending.1.trail (cs.map UInt8.ofInt))
  rw [cons]
  constructor
  · rw [stores_queue, List.map_drop, List.map_append]
    simpa using left
  · intro c member
    rcases List.mem_append.mp (List.mem_of_mem_drop member) with old | new
    · exact pending.2 c old
    · exact chars c new

theorem consGetc_quiet {s : System} (quiet : Quiet s) :
    consGetc s = some (s.cons.grab.1, { s with cons := s.cons.grab.2 }) := by
  have first : serialIntr s = some s := by
    unfold serialIntr
    split
    · rename_i present
      rw [consIntr, if_pos (quiet.1 present), serial_idle s.serial (quiet.1 present)]
      rfl
    · rfl
  have second : kbdIntr s = some s := by
    rw [kbdIntr, consIntr, if_pos quiet.2, kbd_idle s.kbd quiet.2]
    rfl
  rw [consGetc, first]
  dsimp only [Option.bind_eq_bind, Option.bind_some]
  rw [second]
  rfl

theorem getcs_pending (n : Nat) {s : System} {cs : List Int} (quiet : Quiet s)
    (pending : Pending s.cons cs) : ∃ s', getcs n s =
      some (cs.take n ++ List.replicate (n - cs.length) 0, s') ∧ Quiet s' ∧
        Pending s'.cons (cs.drop n) := by
  induction n generalizing s cs with
  | zero => exact ⟨s, by simp [getcs], quiet, by simpa using pending⟩
  | succ n ih =>
    cases cs with
    | nil =>
      obtain ⟨s', rest, quiet', left⟩ := ih quiet pending
      refine ⟨s', ?_, quiet', by simpa using left⟩
      have again : { s with cons := s.cons } = s := rfl
      rw [getcs, consGetc_quiet quiet, pending.grab_nil]
      dsimp only [Option.bind_eq_bind, Option.bind_some]
      rw [again, rest]
      simp [List.replicate_succ]
    | cons c cs =>
      obtain ⟨cons', grab, held⟩ := pending.grab_cons
      obtain ⟨s', rest, quiet', left⟩ := @ih { s with cons := cons' } cs quiet held
      refine ⟨s', ?_, quiet', by simpa using left⟩
      rw [getcs, consGetc_quiet quiet, grab]
      dsimp only [Option.bind_eq_bind, Option.bind_some]
      rw [rest]
      simp

theorem nonzero_padded {cs : List Int} (chars : ∀ c ∈ cs, 0 < c ∧ c < 256) (n k : Nat) :
    nonzero (cs.take n ++ List.replicate k 0) = cs.take n := by
  unfold nonzero
  rw [List.filter_append, List.filter_replicate_of_neg (by simp), List.append_nil]
  refine List.filter_eq_self.mpr ?_
  intro c member
  have := chars c (List.mem_of_mem_take member)
  have nonnull : c ≠ 0 := by omega
  simpa using nonnull

theorem overflow_outcome {s s' : System} {xs cs : List Int} (pending : Pending s.cons xs)
    (burst : Burst s cs s') (quiet : Quiet s') :
    (NeverEarly (xs ++ cs) s' ↔ (xs ++ cs).length ≤ 511) ∧
      (512 ≤ (xs ++ cs).length → (YieldsMost (xs ++ cs) s' ↔ (xs ++ cs).length % 512 = 511)) := by
  have left := burst_pending pending burst
  have kept : ((xs ++ cs).drop ((xs ++ cs).length - (xs ++ cs).length % 512)).length =
      (xs ++ cs).length % 512 := by
    have := Nat.mod_le (xs ++ cs).length 512
    rw [List.length_drop]
    omega
  obtain ⟨all, at_all⟩ : ∃ all, all = xs ++ cs := ⟨_, rfl⟩
  obtain ⟨rest, at_rest⟩ : ∃ rest, rest = all.drop (all.length - all.length % 512) := ⟨_, rfl⟩
  rw [← at_all, ← at_rest] at left kept
  rw [← at_all]
  have turn := Nat.mod_lt all.length (show 0 < 512 by decide)
  constructor
  · constructor
    · intro never
      obtain ⟨s1, calls, quiet1, none⟩ := getcs_pending rest.length quiet left
      rw [List.drop_length] at none
      have empty := consGetc_quiet quiet1
      rw [none.grab_nil] at empty
      have same := never _ _ _ _ calls empty
      rw [nonzero_padded left.2, List.take_length] at same
      have := congrArg List.length same
      omega
    · intro few n got s1 s2 calls empty
      have whole : rest = all := by
        rw [at_rest, Nat.mod_eq_of_lt (by omega), Nat.sub_self, List.drop_zero]
      obtain ⟨s1', calls', quiet1, held⟩ := getcs_pending n quiet left
      rw [calls'] at calls
      cases calls
      rw [nonzero_padded left.2, ← whole]
      cases at_drop : rest.drop n with
      | nil => exact List.take_of_length_le (List.drop_eq_nil_iff.mp at_drop)
      | cons c later =>
        rw [at_drop] at held
        obtain ⟨cons', grab, _⟩ := held.grab_cons
        have char := held.2 c List.mem_cons_self
        rw [consGetc_quiet quiet1, grab] at empty
        obtain ⟨zero, _⟩ := Prod.mk.inj (Option.some.inj empty)
        omega
  · intro _
    constructor
    · rintro ⟨n, got, s1, calls, enough, _⟩
      obtain ⟨s1', calls', _, _⟩ := getcs_pending n quiet left
      rw [calls'] at calls
      cases calls
      rw [nonzero_padded left.2, List.length_take] at enough
      omega
    · intro exactly
      obtain ⟨s1, calls, _, _⟩ := getcs_pending rest.length quiet left
      refine ⟨_, _, s1, calls, ?_⟩
      rw [nonzero_padded left.2, List.take_length]
      exact ⟨by omega, at_rest ▸ List.drop_sublist _ _⟩

def flooded : System :=
  { cons := ⟨fun _ => 0, 0, 0⟩
    serial := ⟨true, List.replicate 512 0x61⟩
    kbd := ⟨[], 0, []⟩ }

theorem serial_results (s : Serial) :
    results serialProcData (s.rx.length + 1) s = s.rx.map fun data => (data.toNat : Int) := by
  obtain ⟨present, rx⟩ := s
  induction rx with
  | nil => rfl
  | cons data rest ih =>
    have char : (data.toNat : Int) ≠ -1 := by omega
    change (if (data.toNat : Int) = -1 then [] else _ :: results serialProcData _ ⟨present, rest⟩) = _
    rw [if_neg char]
    exact congrArg _ ih

theorem flooded_chars : serialChars flooded = List.replicate 512 0x61 := by
  have delivered := serial_results flooded.serial
  have bytes : flooded.serial.rx.map (fun data => (data.toNat : Int)) = List.replicate 512 0x61 :=
    List.map_replicate
  rw [bytes] at delivered
  change nonzero (results serialProcData (flooded.serial.rx.length + 1) flooded.serial) = _
  rw [delivered]
  exact List.filter_replicate_of_pos (by decide)

theorem flooded_burst : ∃ s' cs, Pending flooded.cons [] ∧ Burst flooded cs s' ∧ Quiet s' ∧
    cs.length = 512 := by
  obtain ⟨serial, call, quiet⟩ := serialIntr_chars flooded
  have length : (serialChars flooded).length = 512 := by rw [flooded_chars, List.length_replicate]
  have empty : Pending flooded.cons [] := ⟨⟨⟨by decide, rfl, by simp⟩, by decide⟩, by simp⟩
  have feeds := Feeds.serialIntr flooded _ call
  have still : Quiet { flooded with
      cons := (serialChars flooded).foldl Cons.store flooded.cons, serial := serial } := ⟨quiet, rfl⟩
  generalize serialChars flooded = cs at length feeds still
  have burst := Burst.more _ _ _ _ _ (.none flooded) feeds
  rw [List.nil_append] at burst
  exact ⟨_, cs, empty, burst, still, length⟩

/-- A burst that brings the unread characters to 512 or more never loses the excess alone: some call
    finds the buffer empty too early, and 511 characters are left for one length in 512. -/
theorem console_overflow {s s' : System} {xs cs : List Int} (pending : Pending s.cons xs)
    (burst : Burst s cs s') (quiet : Quiet s') :
    (512 ≤ (xs ++ cs).length → ¬ (YieldsMost (xs ++ cs) s' ∧ NeverEarly (xs ++ cs) s')) ∧
      (512 ≤ (xs ++ cs).length → (YieldsMost (xs ++ cs) s' ↔ (xs ++ cs).length % 512 = 511)) ∧
      (NeverEarly (xs ++ cs) s' ↔ (xs ++ cs).length ≤ 511) := by
  obtain ⟨early, most⟩ := overflow_outcome pending burst quiet
  refine ⟨?_, most, early⟩
  rintro many ⟨_, never⟩
  have := early.mp never
  omega

theorem console_overflow_flooded : ∃ s' cs, Burst flooded cs s' ∧ cs.length = 512 ∧
    ¬ YieldsMost cs s' := by
  obtain ⟨s', cs, empty, burst, quiet, length⟩ := flooded_burst
  have most := (console_overflow empty burst quiet).2.1
  rw [List.nil_append, length] at most
  refine ⟨s', cs, burst, length, ?_⟩
  intro yields
  exact absurd ((most (by decide)).mp yields) (by decide)

/-- The burst of 512 characters is gone: the next cons_getc reports an empty buffer. -/
theorem console_loses_burst : ∃ s s' : System, ∃ cs : List Int, Pending s.cons [] ∧ Burst s cs s' ∧
    Quiet s' ∧ cs.length = 512 ∧ (∃ s'', consGetc s' = some (0, s'')) ∧
      ¬ (YieldsMost cs s' ∧ NeverEarly cs s') := by
  obtain ⟨s', cs, empty, burst, quiet, length⟩ := flooded_burst
  refine ⟨flooded, s', cs, empty, burst, quiet, length, ?_, ?_⟩
  · have left := burst_pending empty burst
    rw [List.nil_append, length, List.drop_eq_nil_of_le (by omega)] at left
    exact ⟨_, by rw [consGetc_quiet quiet, left.grab_nil]⟩
  · rintro ⟨_, never⟩
    have early := (overflow_outcome empty burst quiet).1
    rw [List.nil_append] at early
    have := early.mp never
    omega

end JosConsole
