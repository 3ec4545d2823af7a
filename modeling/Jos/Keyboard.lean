import Mathlib.Logic.Function.Basic
import Mathlib.Logic.Function.Iterate
import Mathlib.Data.List.Induction

/- The keyboard driver: kbd_proc_data with its shift state and its four maps. -/
namespace JosKeyboard

def SHIFT : BitVec 32 := 1
def CTL : BitVec 32 := 2
def ALT : BitVec 32 := 4
def CAPSLOCK : BitVec 32 := 8
def NUMLOCK : BitVec 32 := 16
def SCROLLLOCK : BitVec 32 := 32
def E0ESC : BitVec 32 := 64

def NO : UInt8 := 0
def KEY_HOME : UInt8 := 0xE0
def KEY_END : UInt8 := 0xE1
def KEY_UP : UInt8 := 0xE2
def KEY_DN : UInt8 := 0xE3
def KEY_LF : UInt8 := 0xE4
def KEY_RT : UInt8 := 0xE5
def KEY_PGUP : UInt8 := 0xE6
def KEY_PGDN : UInt8 := 0xE7
def KEY_INS : UInt8 := 0xE8
def KEY_DEL : UInt8 := 0xE9

def shiftcode (data : UInt8) : BitVec 32 :=
  match data with
  | 0x1D => CTL
  | 0x2A => SHIFT
  | 0x36 => SHIFT
  | 0x38 => ALT
  | 0x9D => CTL
  | 0xB8 => ALT
  | _ => 0

def togglecode (data : UInt8) : BitVec 32 :=
  match data with
  | 0x3A => CAPSLOCK
  | 0x45 => NUMLOCK
  | 0x46 => SCROLLLOCK
  | _ => 0

def ascii (row : List Char) : List UInt8 := row.map Char.toUInt8

/- 0x08 is the backspace, 0x09 the tab, 0x0A the newline, 0x1B the escape, 0x27 and 0x60 the two quotes,
   0x5C the backslash. -/
def normalRow : List UInt8 :=
  [NO, 0x1B] ++ ascii ['1', '2', '3', '4', '5', '6', '7', '8', '9', '0', '-', '='] ++ [0x08, 0x09] ++
  ascii ['q', 'w', 'e', 'r', 't', 'y', 'u', 'i', 'o', 'p', '[', ']'] ++ [0x0A, NO] ++
  ascii ['a', 's', 'd', 'f', 'g', 'h', 'j', 'k', 'l', ';'] ++ [0x27, 0x60, NO, 0x5C] ++
  ascii ['z', 'x', 'c', 'v', 'b', 'n', 'm', ',', '.', '/'] ++ [NO] ++ ascii ['*'] ++ [NO] ++ ascii [' '] ++
  List.replicate 13 NO ++
  ascii ['7', '8', '9', '-', '4', '5', '6', '+', '1', '2', '3', '0', '.'] ++ [NO, NO, NO, NO]

def shiftRow : List UInt8 :=
  [NO, 0x1B] ++ ascii ['!', '@', '#', '$', '%', '^', '&', '*', '(', ')', '_', '+'] ++ [0x08, 0x09] ++
  ascii ['Q', 'W', 'E', 'R', 'T', 'Y', 'U', 'I', 'O', 'P'] ++ [0x7B, 0x7D, 0x0A, NO] ++
  ascii ['A', 'S', 'D', 'F', 'G', 'H', 'J', 'K', 'L', ':'] ++ [0x22] ++ ascii ['~'] ++ [NO] ++ ascii ['|'] ++
  ascii ['Z', 'X', 'C', 'V', 'B', 'N', 'M', '<', '>', '?'] ++ [NO] ++ ascii ['*'] ++ [NO] ++ ascii [' '] ++
  List.replicate 13 NO ++
  ascii ['7', '8', '9', '-', '4', '5', '6', '+', '1', '2', '3', '0', '.'] ++ [NO, NO, NO, NO]

/- C(x) of the source, stored in a uint8_t. -/
def control (x : UInt8) : UInt8 := x - 0x40

def ctlRow : List UInt8 :=
  List.replicate 16 NO ++
  (ascii ['Q', 'W', 'E', 'R', 'T', 'Y', 'U', 'I', 'O', 'P']).map control ++ [NO, NO, 0x0D, NO] ++
  (ascii ['A', 'S', 'D', 'F', 'G', 'H', 'J', 'K', 'L']).map control ++ [NO, NO, NO, NO] ++
  [control 0x5C] ++ (ascii ['Z', 'X', 'C', 'V', 'B', 'N', 'M']).map control ++
  [NO, NO] ++ (ascii ['/']).map control ++ [NO, NO]

/-- The keys that only the 0xE0 escape reaches and that all maps share. -/
def extendedKey (data : UInt8) : Option UInt8 :=
  match data with
  | 0xC8 => some KEY_UP
  | 0xC9 => some KEY_PGUP
  | 0xCB => some KEY_LF
  | 0xCD => some KEY_RT
  | 0xCF => some KEY_END
  | 0xD0 => some KEY_DN
  | 0xD1 => some KEY_PGDN
  | 0xD2 => some KEY_INS
  | 0xD3 => some KEY_DEL
  | _ => none

/- normalmap and shiftmap, which differ in their rows below 0x80 only. -/
def typedMap (row : List UInt8) (data : UInt8) : UInt8 :=
  match data with
  | 0xC7 => KEY_HOME
  | 0x9C => 0x0A
  | 0xB5 => 0x2F
  | _ => (extendedKey data).getD (row.getD data.toNat NO)

def normalmap (data : UInt8) : UInt8 := typedMap normalRow data
def shiftmap (data : UInt8) : UInt8 := typedMap shiftRow data

def ctlmap (data : UInt8) : UInt8 :=
  match data with
  | 0x97 => KEY_HOME
  | 0xB5 => control 0x2F
  | _ => (extendedKey data).getD (ctlRow.getD data.toNat NO)

def charcode (modifiers : BitVec 32) : UInt8 → UInt8 :=
  match modifiers.toNat with
  | 0 => normalmap
  | 1 => shiftmap
  | _ => ctlmap

inductive Effect where
  | cprintf (text : String)
  | outb (port data : Nat)
  deriving DecidableEq

/-- The bytes waiting in the controller, each with its KBS_TERR status (a byte from the mouse), the
    driver's shift word, and what it did besides. -/
structure Keyboard where
  waiting : List (UInt8 × Bool)
  shift : BitVec 32
  effects : List Effect
  deriving DecidableEq

def capitals (c : Int) : Int :=
  if 0x61 ≤ c ∧ c ≤ 0x7A then c + (0x41 - 0x61)
  else if 0x41 ≤ c ∧ c ≤ 0x5A then c + (0x61 - 0x41) else c

/-- kbd_proc_data after it has read data. -/
def procData (k : Keyboard) (data : UInt8) : Int × Keyboard :=
  if data = 0xE0 then (0, { k with shift := k.shift ||| E0ESC })
  else if data &&& 0x80 ≠ 0 then
    let data := if k.shift &&& E0ESC ≠ 0 then data else data &&& 0x7F
    (0, { k with shift := k.shift &&& ~~~(shiftcode data ||| E0ESC) })
  else
    let escaped := k.shift &&& E0ESC ≠ 0
    let data := if escaped then data ||| 0x80 else data
    let shift := if escaped then k.shift &&& ~~~E0ESC else k.shift
    let shift := (shift ||| shiftcode data) ^^^ togglecode data
    let c : Int := (charcode (shift &&& (CTL ||| SHIFT)) data).toNat
    let c := if shift &&& CAPSLOCK ≠ 0 then capitals c else c
    let reboot := ~~~shift &&& (CTL ||| ALT) = 0 ∧ c = KEY_DEL.toNat
    let effects := if reboot then k.effects ++ [.cprintf "Rebooting!\n", .outb 0x92 0x3] else k.effects
    (c, { k with shift := shift, effects := effects })

def kbdProcData (k : Keyboard) : Int × Keyboard :=
  match k.waiting with
  | [] => (-1, k)
  | (data, fromMouse) :: rest =>
    if fromMouse then (-1, k) else procData { k with waiting := rest } data

/-- A key of the set: its make code, and whether the keyboard sends 0xE0 before it. The make code
    0x60 has no key, since its break code would read as the escape. -/
structure Key where
  extended : Bool
  code : Fin 128
  apart : code ≠ 0x60
  deriving DecidableEq

inductive Stroke where
  | press (key : Key)
  | release (key : Key)

def Key.make (key : Key) : UInt8 := UInt8.ofNat key.code
def Key.lead (key : Key) : List UInt8 := if key.extended then [0xE0] else []

def Key.index (key : Key) : UInt8 := if key.extended then key.make ||| 0x80 else key.make

def Stroke.codes : Stroke → List UInt8
  | .press key => key.lead ++ [key.make]
  | .release key => key.lead ++ [key.make ||| 0x80]

inductive Modifier where
  | shift
  | ctl
  | alt
  deriving DecidableEq

def Modifier.place : Modifier → Fin 32
  | .shift => 0
  | .ctl => 1
  | .alt => 2

def bit (word : BitVec 32) (i : Fin 32) : Bool := word.getLsbD i

/-- shiftcode maps the key to the modifier. -/
def Key.Maps (key : Key) (m : Modifier) : Prop := bit (shiftcode key.index) m.place = true

instance (key : Key) (m : Modifier) : Decidable (key.Maps m) :=
  inferInstanceAs (Decidable (_ = true))

def Stroke.hold (held : Key → Bool) : Stroke → Key → Bool
  | .press key => Function.update held key true
  | .release key => Function.update held key false

/-- Which keys are down after the strokes. -/
def held (strokes : List Stroke) : Key → Bool := strokes.foldl Stroke.hold fun _ => false

def Stroke.follow (m : Modifier) (down : Bool) : Stroke → Bool
  | .press key => if key.Maps m then true else down
  | .release key => if key.Maps m then false else down

/-- Whether the last stroke on a key of the modifier was a press. -/
def lastPressed (m : Modifier) (strokes : List Stroke) : Bool := strokes.foldl (Stroke.follow m) false

def codes (strokes : List Stroke) : List UInt8 := strokes.flatMap Stroke.codes

/-- The driver after it has read the codes of the strokes, with later bytes still waiting. -/
def typed (strokes : List Stroke) (later : List (UInt8 × Bool)) : Keyboard :=
  (fun k => (kbdProcData k).2)^[(codes strokes).length]
    { waiting := (codes strokes).map (·, false) ++ later, shift := 0, effects := [] }

/-- No key of the modifier comes up while another key of it is down. -/
def Alone (m : Modifier) (strokes : List Stroke) : Prop :=
  ∀ before key after, strokes = before ++ .release key :: after → key.Maps m →
    ∀ other : Key, other ≠ key → other.Maps m → held before other = false

@[simp] theorem bit_or (a b : BitVec 32) (i : Fin 32) : bit (a ||| b) i = (bit a i || bit b i) :=
  BitVec.getLsbD_or

@[simp] theorem bit_xor (a b : BitVec 32) (i : Fin 32) : bit (a ^^^ b) i = (bit a i ^^ bit b i) :=
  BitVec.getLsbD_xor

@[simp] theorem bit_clear (a b : BitVec 32) (i : Fin 32) :
    bit (a &&& ~~~b) i = (bit a i && !bit b i) := by
  simp [bit]

@[simp] theorem bit_shiftcode_escape (data : UInt8) : bit (shiftcode data) 6 = false := by
  unfold shiftcode
  split <;> decide

@[simp] theorem bit_togglecode_escape (data : UInt8) : bit (togglecode data) 6 = false := by
  unfold togglecode
  split <;> decide

@[simp] theorem bit_togglecode (data : UInt8) (m : Modifier) : bit (togglecode data) m.place = false := by
  unfold togglecode
  cases m <;> split <;> decide

theorem bit_escape (i : Fin 32) : bit E0ESC i = decide (i = 6) := by
  revert i
  decide

theorem escaped_iff (shift : BitVec 32) : shift &&& E0ESC ≠ 0 ↔ bit shift 6 = true := by
  have mask : E0ESC = BitVec.twoPow 32 6 := by decide
  rw [mask, BitVec.and_twoPow]
  change _ ↔ shift.getLsbD 6 = true
  cases shift.getLsbD 6 with
  | false => simp
  | true => exact iff_of_true (by decide) rfl

theorem code_facts (code : Fin 128) (apart : code ≠ 0x60) :
    let data := UInt8.ofNat code
    data ≠ 0xE0 ∧ data &&& 0x80 = 0 ∧ data ||| 0x80 ≠ 0xE0 ∧ (data ||| 0x80) &&& 0x80 ≠ 0 ∧
      (data ||| 0x80) &&& 0x7F = data := by
  revert code
  decide

theorem Key.make_plain (key : Key) : key.make ≠ 0xE0 := (code_facts key.code key.apart).1
theorem Key.make_low (key : Key) : key.make &&& 0x80 = 0 := (code_facts key.code key.apart).2.1
theorem Key.break_plain (key : Key) : key.make ||| 0x80 ≠ 0xE0 := (code_facts key.code key.apart).2.2.1
theorem Key.break_high (key : Key) : (key.make ||| 0x80) &&& 0x80 ≠ 0 :=
  (code_facts key.code key.apart).2.2.2.1
theorem Key.break_make (key : Key) : (key.make ||| 0x80) &&& 0x7F = key.make :=
  (code_facts key.code key.apart).2.2.2.2

/- What one byte does to the shift word. -/
theorem escape_shift (k : Keyboard) : (procData k 0xE0).2.shift = k.shift ||| E0ESC := by
  rw [procData, if_pos rfl]

theorem make_shift (k : Keyboard) (key : Key) :
    (procData k key.make).2.shift =
      let data := if bit k.shift 6 = true then key.make ||| 0x80 else key.make
      ((if bit k.shift 6 = true then k.shift &&& ~~~E0ESC else k.shift) ||| shiftcode data) ^^^
        togglecode data := by
  rw [procData, if_neg key.make_plain, if_neg (not_not.mpr key.make_low)]
  simp only [escaped_iff]

theorem break_shift (k : Keyboard) (key : Key) :
    (procData k (key.make ||| 0x80)).2.shift =
      let data := if bit k.shift 6 = true then key.make ||| 0x80 else key.make
      k.shift &&& ~~~(shiftcode data ||| E0ESC) := by
  rw [procData, if_neg key.break_plain, if_pos key.break_high]
  simp only [escaped_iff, key.break_make]

theorem procData_waiting (k : Keyboard) (data : UInt8) (waiting : List (UInt8 × Bool)) :
    (procData { k with waiting := waiting } data).2 =
      { (procData k data).2 with waiting := waiting } := by
  unfold procData
  split
  · rfl
  · split <;> rfl

def feed (k : Keyboard) (bytes : List UInt8) : Keyboard :=
  bytes.foldl (fun k data => (procData k data).2) k

theorem calls_feed (bytes : List UInt8) (k : Keyboard) (later : List (UInt8 × Bool)) :
    (fun k => (kbdProcData k).2)^[bytes.length] { k with waiting := bytes.map (·, false) ++ later } =
      { feed k bytes with waiting := later } := by
  induction bytes generalizing k with
  | nil => rfl
  | cons data rest ih =>
    have call : (kbdProcData { k with waiting := (data :: rest).map (·, false) ++ later }).2 =
        { (procData k data).2 with waiting := rest.map (·, false) ++ later } :=
      procData_waiting k data _
    rw [List.length_cons, Function.iterate_succ_apply, call, ih]
    rfl

/- One stroke from outside an escape: a press sets the bits shiftcode gives its key and turns over
   those togglecode gives it, a release clears the first kind; the escape is used up. -/
theorem press_bit {k : Keyboard} (idle : bit k.shift 6 = false) (key : Key) (i : Fin 32) :
    bit (feed k (Stroke.press key).codes).shift i =
      ((bit k.shift i || bit (shiftcode key.index) i) ^^ bit (togglecode key.index) i) := by
  cases lead : key.extended with
  | false => simp [feed, Stroke.codes, Key.lead, Key.index, lead, make_shift, idle]
  | true =>
    simp only [feed, Stroke.codes, Key.lead, Key.index, lead, ↓reduceIte, List.cons_append,
      List.nil_append, List.foldl_cons, List.foldl_nil, make_shift, escape_shift, bit_or, bit_xor,
      bit_clear, bit_escape, decide_true, Bool.or_true]
    by_cases last : i = 6
    · subst last
      simp [idle]
    · simp [last]

theorem release_bit {k : Keyboard} (idle : bit k.shift 6 = false) (key : Key) (i : Fin 32) :
    bit (feed k (Stroke.release key).codes).shift i =
      (bit k.shift i && !bit (shiftcode key.index) i) := by
  have used : ∀ word, bit word 6 = false → (bit word i && !(i = 6)) = bit word i := by
    intro word clear
    by_cases last : i = 6
    · subst last
      simp [clear]
    · simp [last]
  cases lead : key.extended with
  | false =>
    simp only [feed, Stroke.codes, Key.lead, Key.index, lead, Bool.false_eq_true, ↓reduceIte,
      List.nil_append, List.foldl_cons, List.foldl_nil, break_shift, idle, bit_or, bit_clear, bit_escape]
    by_cases last : i = 6
    · subst last
      simp [idle]
    · simp [last]
  | true =>
    simp only [feed, Stroke.codes, Key.lead, Key.index, lead, ↓reduceIte, List.cons_append,
      List.nil_append, List.foldl_cons, List.foldl_nil, break_shift, escape_shift, bit_or,
      bit_clear, bit_escape, decide_true, Bool.or_true]
    by_cases last : i = 6
    · subst last
      simp [idle]
    · simp [last]

theorem stroke_idle {k : Keyboard} (idle : bit k.shift 6 = false) (stroke : Stroke) :
    bit (feed k stroke.codes).shift 6 = false := by
  cases stroke with
  | press key => simp [press_bit idle, idle]
  | release key => simp [release_bit idle, idle]

theorem stroke_follow {k : Keyboard} (idle : bit k.shift 6 = false) (stroke : Stroke) (m : Modifier) :
    bit (feed k stroke.codes).shift m.place = stroke.follow m (bit k.shift m.place) := by
  cases stroke with
  | press key =>
    rw [press_bit idle, Stroke.follow]
    by_cases maps : key.Maps m
    · simp [maps, show bit (shiftcode key.index) m.place = true from maps]
    · simp [maps, show bit (shiftcode key.index) m.place = false from Bool.not_eq_true _ ▸ maps]
  | release key =>
    rw [release_bit idle, Stroke.follow]
    by_cases maps : key.Maps m
    · simp [maps, show bit (shiftcode key.index) m.place = true from maps]
    · simp [maps, show bit (shiftcode key.index) m.place = false from Bool.not_eq_true _ ▸ maps]

/-- The shift word after any strokes: the escape is used up and each modifier bit tells the last
    stroke on a key of the modifier. -/
theorem typed_shift (strokes : List Stroke) (later : List (UInt8 × Bool)) :
    bit (typed strokes later).shift 6 = false ∧
      ∀ m : Modifier, bit (typed strokes later).shift m.place = lastPressed m strokes := by
  have word : (typed strokes later).shift = (feed ⟨[], 0, []⟩ (codes strokes)).shift := by
    have calls := calls_feed (codes strokes) ⟨[], 0, []⟩ later
    have shifts := congrArg Keyboard.shift calls
    exact shifts
  rw [word]
  clear word
  induction strokes using List.reverseRecOn with
  | nil => exact ⟨by decide, fun m => by cases m <;> decide⟩
  | append_singleton strokes stroke ih =>
    obtain ⟨idle, bits⟩ := ih
    have split : feed ⟨[], 0, []⟩ (codes (strokes ++ [stroke])) =
        feed (feed ⟨[], 0, []⟩ (codes strokes)) stroke.codes := by
      simp [feed, codes]
    rw [split]
    refine ⟨stroke_idle idle stroke, fun m => ?_⟩
    rw [stroke_follow idle, bits m, lastPressed, lastPressed, List.foldl_append]
    rfl

theorem held_snoc (strokes : List Stroke) (stroke : Stroke) :
    held (strokes ++ [stroke]) = stroke.hold (held strokes) := by
  simp [held]

theorem lastPressed_snoc (m : Modifier) (strokes : List Stroke) (stroke : Stroke) :
    lastPressed m (strokes ++ [stroke]) = stroke.follow m (lastPressed m strokes) := by
  simp [lastPressed]

theorem Alone.init {m : Modifier} {strokes : List Stroke} {stroke : Stroke}
    (alone : Alone m (strokes ++ [stroke])) : Alone m strokes := by
  intro before key after same
  exact alone before key (after ++ [stroke]) (by simp [same])

theorem held_elsewhere {m : Modifier} {key : Key} (maps : ¬ key.Maps m) (down : Key → Bool) (b : Bool) :
    (∃ one : Key, one.Maps m ∧ Function.update down key b one = true) ↔
      ∃ one : Key, one.Maps m ∧ down one = true := by
  have other : ∀ one : Key, one.Maps m → one ≠ key := by
    rintro one its rfl
    exact maps its
  constructor
  · rintro ⟨one, its, pressed⟩
    rw [Function.update_of_ne (other one its)] at pressed
    exact ⟨one, its, pressed⟩
  · rintro ⟨one, its, pressed⟩
    exact ⟨one, its, by rw [Function.update_of_ne (other one its), pressed]⟩

/-- Without a key let go next to another of its modifier, the last stroke tells whether one is held. -/
theorem lastPressed_held {m : Modifier} {strokes : List Stroke} (alone : Alone m strokes) :
    lastPressed m strokes = true ↔ ∃ key : Key, key.Maps m ∧ held strokes key = true := by
  induction strokes using List.reverseRecOn with
  | nil => simp [lastPressed, held]
  | append_singleton strokes stroke ih =>
    have before := ih alone.init
    rw [lastPressed_snoc, held_snoc]
    cases stroke with
    | press key =>
      by_cases maps : key.Maps m
      · simp only [Stroke.follow, maps, if_true, true_iff]
        exact ⟨key, maps, by simp [Stroke.hold]⟩
      · simp only [Stroke.follow, maps, if_false, Stroke.hold, before, held_elsewhere maps]
    | release key =>
      by_cases maps : key.Maps m
      · simp only [Stroke.follow, maps, if_true, Stroke.hold]
        refine iff_of_false (by simp) ?_
        rintro ⟨one, its, down⟩
        by_cases same : one = key
        · simp [same] at down
        · rw [Function.update_of_ne same, alone strokes key [] rfl maps one same its] at down
          exact Bool.false_ne_true down
      · simp only [Stroke.follow, maps, if_false, Stroke.hold, before, held_elsewhere maps]

/-- The modifier bits after every complete code. -/
theorem modifier_bits (strokes : List Stroke) (later : List (UInt8 × Bool)) :
    (∀ m : Modifier, bit (typed strokes later).shift m.place = lastPressed m strokes) ∧
      (∀ m : Modifier, Alone m strokes → (bit (typed strokes later).shift m.place = true ↔
        ∃ key : Key, key.Maps m ∧ held strokes key = true)) ∧
      bit (typed strokes later).shift 6 = false := by
  obtain ⟨idle, bits⟩ := typed_shift strokes later
  refine ⟨bits, ?_, idle⟩
  intro m alone
  rw [bits m]
  exact lastPressed_held alone

def leftShift : Key := ⟨false, 0x2A, by decide⟩
def rightShift : Key := ⟨false, 0x36, by decide⟩

/-- Both shift keys go down and one comes up: the other is held, but the bit is clear. -/
theorem shift_bit_lost :
    let strokes := [Stroke.press leftShift, .press rightShift, .release rightShift]
    ¬ (bit (typed strokes []).shift Modifier.shift.place = true ↔
      ∃ key : Key, key.Maps .shift ∧ held strokes key = true) := by
  intro strokes follows
  have clear : bit (typed strokes []).shift Modifier.shift.place = false := by decide
  have set := follows.mpr ⟨leftShift, by decide, by decide⟩
  rw [clear] at set
  exact Bool.false_ne_true set

end JosKeyboard
