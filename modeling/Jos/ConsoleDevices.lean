import Jos.Crt
import Mathlib.Data.List.Basic

/- cputchar: what the serial port and the parallel port are sent, next to the screen. -/
namespace JosConsoleDevices
open JosCrt CountedLoop

def cputchar (depth : Nat) (c : BitVec 32) (crt : Crt) : Except Fault Crt := consPutc (cgaPutc depth) c crt

def cputchars (depth : Nat) (cs : List (BitVec 32)) (crt : Crt) : Except Fault Crt :=
  cs.foldlM (fun crt c => cputchar depth c crt) crt

def sent (port : Nat) (crt : Crt) : List Nat := (crt.ports.filter fun w => w.1 = port).map Prod.snd

def low (c : BitVec 32) : Nat := c.toNat % 256

def Device (port : Nat) : Prop := port = 0x3F8 ∨ port = 0x378

/-- The cursor is on the screen, whose registers are where cga_init looks for them. -/
structure Ready (crt : Crt) : Prop where
  pos : crt.pos < CRT_SIZE
  base : crt.addr6845 = 0x3D4 ∨ crt.addr6845 = 0x3B4

/-- What a device gets for one character. -/
def received (c : BitVec 32) : List Nat := low c :: if low c = 0x09 then List.replicate 5 0x20 else []

section Ports
variable {crt : Crt} {port : Nat}

theorem sent_outb (p data : Nat) (crt : Crt) :
    sent port (outb p data crt) = sent port crt ++ if p = port then [data % 256] else [] := by
  unfold sent outb
  dsimp only
  rw [List.filter_append, List.map_append]
  by_cases same : p = port
  · rw [if_pos same]
    simp [same]
  · rw [if_neg same]
    simp [same]

theorem sent_cursor (ready : crt.addr6845 = 0x3D4 ∨ crt.addr6845 = 0x3B4) (device : Device port) :
    sent port (moveCursor crt) = sent port crt := by
  have addr : crt.addr6845 ≠ port ∧ crt.addr6845 + 1 ≠ port := by
    unfold Device at device
    omega
  unfold moveCursor
  rw [sent_outb, sent_outb, sent_outb, sent_outb]
  simp [addr.1, addr.2]

theorem sent_devices (c : BitVec 32) (crt : Crt) (device : Device port) :
    sent port (lptPutc c (serialPutc c crt)) = sent port crt ++ [low c] := by
  unfold lptPutc serialPutc
  rw [sent_outb, sent_outb, sent_outb, sent_outb]
  rcases device with rfl | rfl
  · simp [low]
  · simp [low]

end Ports

section Screen
variable {crt : Crt} {port : Nat}

theorem and_low (c : BitVec 32) : (c &&& 0xFF).toNat = low c := by
  rw [BitVec.toNat_and]
  exact Nat.and_two_pow_sub_one_eq_mod c.toNat 8

theorem attribute_low (c : BitVec 32) : ((if c &&& ~~~0xFF = 0 then c ||| 0x0700 else c) &&& 0xFF).toNat = low c := by
  split
  · have same : (c ||| 0x0700) &&& 0xFF = c &&& 0xFF := by
      rw [BitVec.and_comm, BitVec.and_or_distrib_left, BitVec.and_comm]
      simp
    rw [same]
    exact and_low c
  · exact and_low c

theorem switch_quiet (crt : Crt) (putSpace : Crt → Except Fault Crt) {c : BitVec 32} (no_tab : (c &&& 0xFF).toNat ≠ 0x09)
    (inside : crt.pos < 2000) : ∃ buf pos, cgaSwitch putSpace c crt = .ok { crt with buf := buf, pos := pos } ∧
      pos ≤ 2000 := by
  unfold cgaSwitch
  split
  · by_cases first : 0 < crt.pos
    · rw [if_pos first, store_ok (by omega)]
      exact ⟨_, crt.pos - 1, rfl, by omega⟩
    · rw [if_neg first]
      exact ⟨crt.buf, crt.pos, rfl, by omega⟩
  · refine ⟨crt.buf, _, rfl, ?_⟩
    have line : u16 (crt.pos + CRT_COLS) = crt.pos + 80 :=
      Nat.mod_eq_of_lt (by change crt.pos + 80 < 65536; omega)
    rw [line]
    change crt.pos + 80 - (crt.pos + 80) % 80 ≤ 2000
    omega
  · exact ⟨crt.buf, _, rfl, by omega⟩
  · contradiction
  · have next : u16 (crt.pos + 1) = crt.pos + 1 := Nat.mod_eq_of_lt (by omega)
    rw [store_ok inside, next]
    exact ⟨_, crt.pos + 1, rfl, by omega⟩

theorem scroll_quiet (crt : Crt) (most : crt.pos ≤ 2000) :
    ∃ buf pos, scroll crt = .ok { crt with buf := buf, pos := pos } ∧ pos < 2000 := by
  by_cases below : 2000 ≤ crt.pos
  · obtain ⟨buf, run, _⟩ := scroll_below below
    exact ⟨buf, _, run, by omega⟩
  · exact ⟨crt.buf, crt.pos, if_neg below, by omega⟩

end Screen

section Put
variable {crt : Crt}

/-- From a screen that is ready to one that is ready, with these bytes more at both devices. -/
structure Sends (crt crt' : Crt) (bytes : List Nat) : Prop where
  ready : Ready crt'
  both : ∀ port, Device port → sent port crt' = sent port crt ++ bytes

theorem Sends.trans {crt1 crt2 : Crt} {bs cs : List Nat} (first : Sends crt crt1 bs)
    (second : Sends crt1 crt2 cs) : Sends crt crt2 (bs ++ cs) := by
  refine ⟨second.ready, fun port device => ?_⟩
  rw [second.both port device, first.both port device, List.append_assoc]

theorem Ready.cursor {buf : Nat → BitVec 16} {pos : Nat} (ready : Ready crt) (inside : pos < 2000) :
    Sends crt (moveCursor { crt with buf := buf, pos := pos }) [] := by
  refine ⟨⟨inside, ready.base⟩, fun port device => ?_⟩
  rw [List.append_nil]
  exact sent_cursor (show Crt.addr6845 { crt with buf := buf, pos := pos } = _ ∨ _ from ready.base) device

theorem cgaPutc_quiet (depth : Nat) {c : BitVec 32} (no_tab : low c ≠ 0x09) (ready : Ready crt) :
    ∃ crt', cgaPutc (depth + 1) c crt = .ok crt' ∧ Sends crt crt' [] := by
  have plain := attribute_low c
  unfold cgaPutc
  generalize (if c &&& ~~~0xFF = 0 then c ||| 0x0700 else c) = c' at plain ⊢
  rw [← plain] at no_tab
  obtain ⟨buf, pos, run, most⟩ := switch_quiet crt (consPutc (cgaPutc depth) 0x20) no_tab ready.pos
  obtain ⟨buf', pos', scrolls, inside⟩ := scroll_quiet { crt with buf := buf, pos := pos } most
  dsimp only
  rw [run, ok_bind, scrolls, ok_bind]
  exact ⟨_, rfl, ready.cursor inside⟩

theorem sends_first (c : BitVec 32) (ready : Ready crt) :
    Sends crt (lptPutc c (serialPutc c crt)) [low c] :=
  ⟨⟨ready.pos, ready.base⟩, fun _ device => sent_devices c crt device⟩

theorem consPutc_quiet (depth : Nat) {c : BitVec 32} (no_tab : low c ≠ 0x09) (ready : Ready crt) :
    ∃ crt', consPutc (cgaPutc (depth + 1)) c crt = .ok crt' ∧ Sends crt crt' [low c] := by
  have first := sends_first c ready
  obtain ⟨crt', run, quiet⟩ := cgaPutc_quiet depth no_tab first.ready
  refine ⟨crt', run, ?_⟩
  have both := first.trans quiet
  rw [List.append_nil] at both
  exact both

theorem cgaPutc_tab (depth : Nat) {c : BitVec 32} (tab : low c = 0x09) (ready : Ready crt) :
    ∃ crt', cgaPutc (depth + 2) c crt = .ok crt' ∧ Sends crt crt' (List.replicate 5 0x20) := by
  have char := attribute_low c
  rw [tab] at char
  have spaces := @times_total Fault Crt (fun _ => consPutc (cgaPutc (depth + 1)) 0x20) 5 crt
    (fun k crt' => Sends crt crt' (List.replicate k 0x20)) ⟨ready, fun _ _ => (List.append_nil _).symm⟩ ?_
  · obtain ⟨spaced, run, sends⟩ := spaces
    obtain ⟨buf, pos, scrolls, inside⟩ := scroll_quiet spaced (Nat.le_of_lt sends.ready.pos)
    have still : Sends spaced (moveCursor { spaced with buf := buf, pos := pos }) [] := sends.ready.cursor inside
    have moved := sends.trans still
    rw [List.append_nil] at moved
    refine ⟨_, ?_, moved⟩
    unfold cgaPutc
    dsimp only
    unfold cgaSwitch
    rw [char]
    change (times (fun _ => consPutc (cgaPutc (depth + 1)) 0x20) 5 crt >>= fun crt => scroll crt >>= _) = _
    rw [run, ok_bind, scrolls, ok_bind]
  · intro k crt' _ sends
    obtain ⟨crt2, run, more⟩ := consPutc_quiet depth (c := 0x20) (by decide) sends.ready
    have all := sends.trans more
    rw [List.replicate_succ']
    exact ⟨crt2, run, all⟩

theorem cputchar_sends (depth : Nat) (c : BitVec 32) (ready : Ready crt) :
    ∃ crt', cputchar (depth + 2) c crt = .ok crt' ∧ Sends crt crt' (received c) := by
  unfold cputchar received
  by_cases tab : low c = 0x09
  · have first := sends_first c ready
    obtain ⟨crt', run, spaces⟩ := cgaPutc_tab depth tab first.ready
    rw [if_pos tab]
    exact ⟨crt', run, first.trans spaces⟩
  · rw [if_neg tab]
    exact consPutc_quiet (depth + 1) tab ready

theorem cputchars_sends (depth : Nat) (cs : List (BitVec 32)) (ready : Ready crt) :
    ∃ crt', cputchars (depth + 2) cs crt = .ok crt' ∧ Sends crt crt' (cs.flatMap received) := by
  induction cs generalizing crt with
  | nil => exact ⟨crt, rfl, ready, fun _ _ => (List.append_nil _).symm⟩
  | cons c cs ih =>
    obtain ⟨crt1, first, sends⟩ := cputchar_sends depth c ready
    obtain ⟨crt', run, more⟩ := ih sends.ready
    refine ⟨crt', ?_, ?_⟩
    · rw [cputchars, List.foldlM_cons, first, ok_bind]
      exact run
    · rw [List.flatMap_cons]
      exact sends.trans more

end Put

section Main
variable {crt : Crt}

theorem received_some (c : BitVec 32) : 1 ≤ (received c).length := by
  unfold received
  rw [List.length_cons]
  omega

theorem received_length (cs : List (BitVec 32)) : cs.length ≤ (cs.flatMap received).length := by
  induction cs with
  | nil => exact Nat.le_refl 0
  | cons c cs ih =>
    have first := received_some c
    rw [List.flatMap_cons, List.length_append, List.length_cons]
    omega

theorem received_iff (cs : List (BitVec 32)) : cs.flatMap received = cs.map low ↔ ∀ c ∈ cs, low c ≠ 0x09 := by
  induction cs with
  | nil => simp
  | cons c cs ih =>
    rw [List.flatMap_cons, List.map_cons, List.forall_mem_cons, ← ih]
    by_cases tab : low c = 0x09
    · have six : (received c).length = 6 := by
        unfold received
        rw [if_pos tab]
        rfl
      refine ⟨fun same => ?_, fun both => absurd tab both.1⟩
      have lengths := congrArg List.length same
      have least := received_length cs
      rw [List.length_append, six, List.length_cons, List.length_map] at lengths
      omega
    · have one : received c = [low c] := by
        unfold received
        rw [if_neg tab]
      rw [one, List.singleton_append, List.cons.injEq]
      exact ⟨fun both => ⟨tab, both.2⟩, fun both => ⟨rfl, both.2⟩⟩

/-- Each device gets the low eight bits of the characters, one byte for each, exactly when no
    character is a tab: a tab is followed there by the five blanks that the screen makes of it. -/
theorem devices_iff (ready : Ready crt) (depth : Nat) (cs : List (BitVec 32)) :
    ∃ crt', cputchars (depth + 2) cs crt = .ok crt' ∧ ∀ port, Device port →
      (sent port crt' = sent port crt ++ cs.map low ↔ ∀ c ∈ cs, low c ≠ 0x09) := by
  obtain ⟨crt', run, sends⟩ := cputchars_sends depth cs ready
  refine ⟨crt', run, fun port device => ?_⟩
  rw [sends.both port device, List.append_cancel_left_eq]
  exact received_iff cs

def fresh : Crt := ⟨fun _ => blank, 0, 0x3D4, []⟩

theorem fresh_ready : Ready fresh := ⟨by decide, Or.inl rfl⟩

theorem devices_iff_line : ∃ crt', cputchars 2 [0x61, 0x0A] fresh = .ok crt' ∧
    ∀ port, Device port → sent port crt' = [0x61, 0x0A] := by
  obtain ⟨crt', run, law⟩ := devices_iff fresh_ready 0 [0x61, 0x0A]
  have no_tab : ∀ c ∈ [(0x61 : BitVec 32), 0x0A], low c ≠ 0x09 := by simp [low]
  have bytes : [(0x61 : BitVec 32), 0x0A].map low = [0x61, 0x0A] := rfl
  refine ⟨crt', run, fun port device => ?_⟩
  have got := (law port device).mpr no_tab
  rw [bytes] at got
  exact got

/-- A tab reaches the serial port as a tab and five blanks. -/
theorem devices_tab : ¬ ∀ (crt : Crt) (depth : Nat) (cs : List (BitVec 32)), Ready crt →
    ∃ crt', cputchars (depth + 2) cs crt = .ok crt' ∧
      ∀ port, Device port → sent port crt' = sent port crt ++ cs.map low := by
  intro claim
  obtain ⟨crt1, run1, same⟩ := claim fresh 0 [0x09] fresh_ready
  obtain ⟨crt2, run2, sends⟩ := cputchars_sends 0 [0x09] fresh_ready
  rw [run1] at run2
  cases run2
  have both := same 0x3F8 (Or.inl rfl)
  rw [sends.both 0x3F8 (Or.inl rfl), List.append_cancel_left_eq, received_iff] at both
  exact both 0x09 List.mem_cons_self rfl

end Main

end JosConsoleDevices
