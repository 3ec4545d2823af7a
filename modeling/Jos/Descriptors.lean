import Jos.Layout
import Jos.BitFields

/- Segment and gate descriptors: how inc/mmu.h writes them, and how the processor reads them. -/
namespace JosDescriptors
open JosLayout BitFields

structure Segdesc where
  sdLim15_0 : Nat
  sdBase15_0 : Nat
  sdBase23_16 : Nat
  sdType : Nat
  sdS : Nat
  sdDpl : Nat
  sdP : Nat
  sdLim19_16 : Nat
  sdAvl : Nat
  sdRsv1 : Nat
  sdDb : Nat
  sdG : Nat
  sdBase31_24 : Nat
  deriving DecidableEq

def Segdesc.bits (d : Segdesc) : Nat :=
  pack [(16, d.sdLim15_0), (16, d.sdBase15_0), (8, d.sdBase23_16), (4, d.sdType), (1, d.sdS),
    (2, d.sdDpl), (1, d.sdP), (4, d.sdLim19_16), (1, d.sdAvl), (1, d.sdRsv1), (1, d.sdDb),
    (1, d.sdG), (8, d.sdBase31_24)]

abbrev STA_X : Nat := 0x8
abbrev STA_W : Nat := 0x2
abbrev STA_R : Nat := 0x2
abbrev STS_T32A : Nat := 0x9
abbrev STS_IG32 : Nat := 0xE
abbrev STS_TG32 : Nat := 0xF

def SEG_NULL : Segdesc := ⟨0, 0, 0, 0, 0, 0, 0, 0, 0, 0, 0, 0, 0⟩

def SEG (type base lim dpl : Nat) : Segdesc :=
  ⟨lim >>> 12 &&& 0xffff, base &&& 0xffff, base >>> 16 &&& 0xff, type, 1, dpl, 1, lim >>> 28, 0, 0, 1, 1,
    base >>> 24⟩

def SEG16 (type base lim dpl : Nat) : Segdesc :=
  ⟨lim &&& 0xffff, base &&& 0xffff, base >>> 16 &&& 0xff, type, 1, dpl, 1, lim >>> 16, 0, 0, 1, 0,
    base >>> 24⟩

def asmSEG (type base lim : Nat) : List (Nat × Nat) :=
  [(16, lim >>> 12 &&& 0xffff), (16, base &&& 0xffff), (8, base >>> 16 &&& 0xff), (8, 0x90 ||| type),
    (8, 0xC0 ||| (lim >>> 28 &&& 0xf)), (8, base >>> 24 &&& 0xff)]

/-- What the processor makes of a segment descriptor. -/
structure Segment where
  base : Nat
  limit : Nat
  type : Nat
  application : Bool
  dpl : Nat
  present : Bool
  deriving DecidableEq

def readSegment (x : Nat) : Segment where
  base := field x 16 24 + 2 ^ 24 * field x 56 8
  limit :=
    let raw := field x 0 16 + 2 ^ 16 * field x 48 4
    if field x 55 1 = 1 then raw * 4096 + 4095 else raw
  type := field x 40 4
  application := decide (field x 44 1 = 1)
  dpl := field x 45 2
  present := decide (field x 47 1 = 1)

structure Gatedesc where
  gdOff15_0 : Nat
  gdSel : Nat
  gdArgs : Nat
  gdRsv1 : Nat
  gdType : Nat
  gdS : Nat
  gdDpl : Nat
  gdP : Nat
  gdOff31_16 : Nat
  deriving DecidableEq

def Gatedesc.bits (g : Gatedesc) : Nat :=
  pack [(16, g.gdOff15_0), (16, g.gdSel), (5, g.gdArgs), (3, g.gdRsv1), (4, g.gdType), (1, g.gdS),
    (2, g.gdDpl), (1, g.gdP), (16, g.gdOff31_16)]

def SETGATE (istrap : Bool) (sel off dpl : Nat) : Gatedesc :=
  ⟨off &&& 0xffff, sel, 0, 0, if istrap then STS_TG32 else STS_IG32, 0, dpl, 1, off >>> 16⟩

/-- What the processor makes of a gate descriptor. -/
structure Gate where
  offset : Nat
  selector : Nat
  type : Nat
  application : Bool
  dpl : Nat
  present : Bool
  deriving DecidableEq

def readGate (x : Nat) : Gate where
  offset := field x 0 16 + 2 ^ 16 * field x 48 16
  selector := field x 16 16
  type := field x 40 4
  application := decide (field x 44 1 = 1)
  dpl := field x 45 2
  present := decide (field x 47 1 = 1)

section Read
variable {type base lim dpl sel off : Nat}

theorem readSegment_bits (d : Segdesc) : readSegment d.bits =
    { base := d.sdBase15_0 % 65536 + 65536 * (d.sdBase23_16 % 256) + 2 ^ 24 * (d.sdBase31_24 % 256)
      limit :=
        let raw := d.sdLim15_0 % 65536 + 65536 * (d.sdLim19_16 % 16)
        if d.sdG % 2 = 1 then raw * 4096 + 4095 else raw
      type := d.sdType % 16
      application := decide (d.sdS % 2 = 1)
      dpl := d.sdDpl % 4
      present := decide (d.sdP % 2 = 1) } := by
  have lim_low : field d.bits 0 16 = d.sdLim15_0 % 2 ^ 16 := field_pack [] _ 16 _
  have base_low : field d.bits 16 16 = d.sdBase15_0 % 2 ^ 16 := field_pack [(16, _)] _ 16 _
  have base_mid : field d.bits 32 8 = d.sdBase23_16 % 2 ^ 8 := field_pack [(16, _), (16, _)] _ 8 _
  have type_at : field d.bits 40 4 = d.sdType % 2 ^ 4 :=
    field_pack [(16, _), (16, _), (8, _)] _ 4 _
  have s_at : field d.bits 44 1 = d.sdS % 2 ^ 1 :=
    field_pack [(16, _), (16, _), (8, _), (4, _)] _ 1 _
  have dpl_at : field d.bits 45 2 = d.sdDpl % 2 ^ 2 :=
    field_pack [(16, _), (16, _), (8, _), (4, _), (1, _)] _ 2 _
  have p_at : field d.bits 47 1 = d.sdP % 2 ^ 1 :=
    field_pack [(16, _), (16, _), (8, _), (4, _), (1, _), (2, _)] _ 1 _
  have lim_high : field d.bits 48 4 = d.sdLim19_16 % 2 ^ 4 :=
    field_pack [(16, _), (16, _), (8, _), (4, _), (1, _), (2, _), (1, _)] _ 4 _
  have g_at : field d.bits 55 1 = d.sdG % 2 ^ 1 :=
    field_pack [(16, _), (16, _), (8, _), (4, _), (1, _), (2, _), (1, _), (4, _), (1, _), (1, _),
      (1, _)] _ 1 _
  have base_high : field d.bits 56 8 = d.sdBase31_24 % 2 ^ 8 :=
    field_pack [(16, _), (16, _), (8, _), (4, _), (1, _), (2, _), (1, _), (4, _), (1, _), (1, _),
      (1, _), (1, _)] _ 8 _
  have base_both : field d.bits 16 24 = field d.bits 16 16 + 2 ^ 16 * field d.bits 32 8 :=
    field_add d.bits 16 16 8
  unfold readSegment
  rw [base_both, lim_low, base_low, base_mid, type_at, s_at, dpl_at, p_at, lim_high, g_at, base_high]
  rfl

theorem readGate_bits (g : Gatedesc) : readGate g.bits =
    { offset := g.gdOff15_0 % 65536 + 65536 * (g.gdOff31_16 % 65536)
      selector := g.gdSel % 65536
      type := g.gdType % 16
      application := decide (g.gdS % 2 = 1)
      dpl := g.gdDpl % 4
      present := decide (g.gdP % 2 = 1) } := by
  have off_low : field g.bits 0 16 = g.gdOff15_0 % 2 ^ 16 := field_pack [] _ 16 _
  have sel_at : field g.bits 16 16 = g.gdSel % 2 ^ 16 := field_pack [(16, _)] _ 16 _
  have type_at : field g.bits 40 4 = g.gdType % 2 ^ 4 :=
    field_pack [(16, _), (16, _), (5, _), (3, _)] _ 4 _
  have s_at : field g.bits 44 1 = g.gdS % 2 ^ 1 :=
    field_pack [(16, _), (16, _), (5, _), (3, _), (4, _)] _ 1 _
  have dpl_at : field g.bits 45 2 = g.gdDpl % 2 ^ 2 :=
    field_pack [(16, _), (16, _), (5, _), (3, _), (4, _), (1, _)] _ 2 _
  have p_at : field g.bits 47 1 = g.gdP % 2 ^ 1 :=
    field_pack [(16, _), (16, _), (5, _), (3, _), (4, _), (1, _), (2, _)] _ 1 _
  have off_high : field g.bits 48 16 = g.gdOff31_16 % 2 ^ 16 :=
    field_pack [(16, _), (16, _), (5, _), (3, _), (4, _), (1, _), (2, _), (1, _)] _ 16 _
  unfold readGate
  rw [off_low, sel_at, type_at, s_at, dpl_at, p_at, off_high]
  rfl

theorem low_bits (x : Nat) : x &&& 0xffff = x % 65536 ∧ x &&& 0xff = x % 256 ∧ x &&& 0xf = x % 16 :=
  ⟨and_low_mask x 16, and_low_mask x 8, and_low_mask x 4⟩

theorem base_pieces (word : base < WORD) : (base &&& 0xffff) % 65536 +
    65536 * ((base >>> 16 &&& 0xff) % 256) + 16777216 * (base >>> 24 % 256) = base := by
  rw [(low_bits base).1, (low_bits _).2.1, Nat.shiftRight_eq_div_pow, Nat.shiftRight_eq_div_pow]
  simp only [WORD] at word
  omega

theorem SEG_read (locate : base < WORD) (most : lim < WORD) (small : type < 16) (ring : dpl < 4) :
    readSegment (SEG type base lim dpl).bits =
      ⟨base, lim / 4096 * 4096 + 4095, type, true, dpl, true⟩ := by
  have pages : ((lim >>> 12 &&& 0xffff) % 65536 + 65536 * (lim >>> 28 % 16)) * 4096 + 4095 =
      lim / 4096 * 4096 + 4095 := by
    rw [(low_bits _).1, Nat.shiftRight_eq_div_pow, Nat.shiftRight_eq_div_pow]
    simp only [WORD] at most
    omega
  have place := base_pieces locate
  rw [readSegment_bits]
  simpa [SEG, pages, Nat.mod_eq_of_lt small, Nat.mod_eq_of_lt ring] using place

theorem SEG16_read (locate : base < WORD) (small : type < 16) (ring : dpl < 4) :
    readSegment (SEG16 type base lim dpl).bits = ⟨base, lim % 2 ^ 20, type, true, dpl, true⟩ := by
  have bytes : (lim &&& 0xffff) % 65536 + 65536 * (lim >>> 16 % 16) = lim % 1048576 := by
    rw [(low_bits _).1, Nat.shiftRight_eq_div_pow]
    omega
  have place := base_pieces locate
  rw [readSegment_bits]
  simpa [SEG16, bytes, Nat.mod_eq_of_lt small, Nat.mod_eq_of_lt ring] using place

theorem SETGATE_read (istrap : Bool) (locate : off < WORD) (half : sel < 65536) (ring : dpl < 4) :
    readGate (SETGATE istrap sel off dpl).bits =
      ⟨off, sel, if istrap then STS_TG32 else STS_IG32, false, dpl, true⟩ := by
  have halves : (off &&& 0xffff) % 65536 + 65536 * (off >>> 16 % 65536) = off := by
    rw [(low_bits _).1, Nat.shiftRight_eq_div_pow]
    simp only [WORD] at locate
    omega
  rw [readGate_bits]
  cases istrap with
  | false => simp [SETGATE, STS_IG32, halves, Nat.mod_eq_of_lt half, Nat.mod_eq_of_lt ring]
  | true => simp [SETGATE, STS_TG32, halves, Nat.mod_eq_of_lt half, Nat.mod_eq_of_lt ring]

theorem asmSEG_bits (base lim : Nat) (small : type < 16) :
    pack (asmSEG type base lim) = (SEG type base lim 0).bits := by
  have flags : (0x90 ||| type) = 0x90 + type :=
    (Nat.two_pow_add_eq_or_of_lt (i := 4) small 9).symm
  have fine : lim >>> 28 % 16 < 16 := Nat.mod_lt _ (by decide)
  have more : (0xC0 ||| lim >>> 28 % 16) = 0xC0 + lim >>> 28 % 16 :=
    (Nat.two_pow_add_eq_or_of_lt (i := 4) fine 12).symm
  unfold asmSEG SEG Segdesc.bits
  rw [flags, (low_bits (lim >>> 28)).2.2, more, (low_bits (base >>> 24)).2.1]
  simp only [pack]
  omega

end Read

/-- What inc/mmu.h writes into a descriptor is what the processor reads out of it: a segment of whole
    pages or of bytes, and a gate; boot/boot.S gets the same segments as the kernel. -/
theorem descriptors_read {type base lim dpl sel off : Nat} (istrap : Bool) (located : base < WORD)
    (most : lim < WORD) (small : type < 16) (ring : dpl < 4) (half : sel < 65536) (entry : off < WORD) :
    readSegment (SEG type base lim dpl).bits =
        ⟨base, lim / 4096 * 4096 + 4095, type, true, dpl, true⟩ ∧
      readSegment (SEG16 type base lim dpl).bits = ⟨base, lim % 2 ^ 20, type, true, dpl, true⟩ ∧
      pack (asmSEG type base lim) = (SEG type base lim 0).bits ∧
      readGate (SETGATE istrap sel off dpl).bits =
        ⟨off, sel, if istrap then STS_TG32 else STS_IG32, false, dpl, true⟩ :=
  ⟨SEG_read located most small ring, SEG16_read located small ring, asmSEG_bits base lim small,
    SETGATE_read istrap entry half ring⟩

theorem descriptors_read_userText :
    readSegment (SEG (STA_X ||| STA_R) 0 0xffffffff 3).bits = ⟨0, 0xffffffff, 10, true, 3, true⟩ :=
  (@descriptors_read 10 0 0xffffffff 3 8 0 false (by decide) (by decide) (by decide) (by decide)
    (by decide) (by decide)).1

end JosDescriptors
