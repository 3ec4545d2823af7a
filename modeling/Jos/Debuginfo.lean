import Jos.EventLog
import Jos.Kdebug
import Jos.Mmu

/- debuginfo_eip of kern/kdebug.c, with a log of the ranges it has user_mem_check look at and of
   the stab entries and the bytes of the string table it reads. A load that faults, a panic and
   a search that runs out of rounds end it. -/
namespace JosDebuginfo
open JosLayout JosMachine JosPmap JosMmu JosPrintfmt JosKdebug BackScan WhileLoop EventLog Logged

abbrev USTABDATA : Nat := PTSIZE / 2

inductive Event where
  | checked (va len : Nat) (r : Int)
  | read (a len : Nat)
  deriving DecidableEq

abbrev Run : Type → Type := Logged Event

/-- What eip_file and eip_fn_name point to: the constant "<unknown>", or an address. -/
inductive Name where
  | unknown
  | at (p : Nat)
  deriving DecidableEq

structure Eipdebuginfo where
  eipFile : Name
  eipLine : Int
  eipFnName : Name
  eipFnNamelen : Int
  eipFnAddr : UInt32
  eipFnNarg : Int
  deriving DecidableEq

structure UserStabData where
  stabs : UInt32
  stabEnd : UInt32
  stabstr : UInt32
  stabstrEnd : UInt32

def unknownInfo (addr : UInt32) : Eipdebuginfo where
  eipFile := .unknown
  eipLine := 0
  eipFnName := .unknown
  eipFnNamelen := 9
  eipFnAddr := addr
  eipFnNarg := 0

section Loads
variable (s : State)

def byteAt (a : Nat) : Option UInt8 := kread s (a % WORD)

def halfAt (a : Nat) : Option UInt16 := do
  let b0 ← byteAt s a
  let b1 ← byteAt s (a + 1)
  return UInt16.ofNat (b0.toNat + 256 * b1.toNat)

def wordAt (a : Nat) : Option UInt32 := do
  let b0 ← byteAt s a
  let b1 ← byteAt s (a + 1)
  let b2 ← byteAt s (a + 2)
  let b3 ← byteAt s (a + 3)
  return UInt32.ofNat (b0.toNat + 256 * b1.toNat + 65536 * b2.toNat + 16777216 * b3.toNat)

def structAt (a : Nat) : Option UserStabData := do
  let stabs ← wordAt s a
  let stabEnd ← wordAt s (a + 4)
  let stabstr ← wordAt s (a + 8)
  let stabstrEnd ← wordAt s (a + 12)
  return ⟨stabs, stabEnd, stabstr, stabstrEnd⟩

def entryAt (stabs : UInt32) (i : Int) : Nat := ((stabs.toNat + STABSIZE * i) % WORD).toNat

variable (stabs : UInt32)

def nStrx (i : Int) : Run UInt32 := event (.read (entryAt stabs i) STABSIZE) (wordAt s (entryAt stabs i))
def nType (i : Int) : Run UInt8 := event (.read (entryAt stabs i) STABSIZE) (byteAt s (entryAt stabs i + 4))
def nDesc (i : Int) : Run UInt16 := event (.read (entryAt stabs i) STABSIZE) (halfAt s (entryAt stabs i + 6))
def nValue (i : Int) : Run UInt32 := event (.read (entryAt stabs i) STABSIZE) (wordAt s (entryAt stabs i + 8))

def strByte (a : Nat) : Run UInt8 := event (.read (a % WORD) 1) (byteAt s a)

end Loads

def check (s : State) (va len : Nat) : Run (Bool × State) :=
  match userMemCheck s s.curenv va len PTE_U with
  | .error _ => stop
  | .ok (r, s') => event (.checked va len r) (some (decide (r = 0), s'))

/-- The tables for addr; none where they are not to be read. -/
def findStabs (kernel : UserStabData) (s : State) (addr : UInt32) :
    Run (Option UserStabData × State) :=
  if addr.toNat ≥ ULIM then pure (some kernel, s)
  else do
    match ← check s USTABDATA 16 with
    | (false, s) => pure (none, s)
    | (true, s) => do
      let usd ← event (.read USTABDATA 16) (structAt s USTABDATA)
      match ← check s usd.stabs.toNat STABSIZE with
      | (false, s) => pure (none, s)
      | (true, s) => do
        match ← check s usd.stabstr.toNat (usd.stabstrEnd - usd.stabstr).toNat with
        | (false, s) => pure (none, s)
        | (true, s) => pure (some usd, s)

def validStrings (s : State) (t : UserStabData) : Run Bool :=
  if t.stabstrEnd ≤ t.stabstr then pure false
  else do
    let last ← strByte s (t.stabstrEnd - 1).toNat
    return decide (last = 0)

/-- stab_end - stabs as it is compiled: a shift, and a product with the inverse of 3. -/
def stabCount (t : UserStabData) : Int :=
  wrap (wrap (t.stabEnd.toNat - t.stabs.toNat) / 4 * 0xaaaaaaab)

def search (s : State) (t : UserStabData) (fuel : Nat) (left right type : Int) (addr : UInt32) :
    Run (Int × Int) := do
  match ← stabBinsearch (nType s t.stabs) (nValue s t.stabs) fuel left right type addr with
  | none => stop
  | some region => pure region

def nameOf (s : State) (t : UserStabData) (i : Int) (old : Name) : Run Name := do
  let strx ← nStrx s t.stabs i
  if strx < t.stabstrEnd - t.stabstr then return .at (t.stabstr + strx).toNat
  else return old

def strfindStep (s : State) (c : UInt8) (p : Nat) : Run (Option Nat) := do
  let b ← strByte s p
  if b = 0 ∨ b = c then return none else return some ((p + 1) % WORD)

def namelen (s : State) (fuel : Nat) : Name → Run Int
  | .unknown => pure 9
  | .at p => do
    match ← loop (strfindStep s 0x3a) fuel p with
    | none => stop
    | some q => return wrap (q - p)

/-- Where the search backwards for the file of a line stops: at an N_SOL entry, or at an N_SO entry
    with an address. -/
def fileEntry (s : State) (stabs : UInt32) (i : Int) : Run Bool := do
  let type ← nType s stabs i
  if (type.toNat : Int) = N_SOL then return true
  else if (type.toNat : Int) = N_SO then return decide ((← nValue s stabs i) ≠ 0)
  else return false

def countArgs (s : State) (stabs : UInt32) : Nat → Int → Run Int
  | 0, _ => pure 0
  | n + 1, i => do
    if ((← nType s stabs i).toNat : Int) = N_PSYM then return 1 + (← countArgs s stabs n (i + 1))
    else return 0

def lineInfo (s : State) (t : UserStabData) (fuel : Nat) (addr : UInt32) (info : Eipdebuginfo)
    (lfile lfun rfun lline rline : Int) : Run (Int × Eipdebuginfo) := do
  let (lline, rline) ← search s t fuel lline rline N_SLINE addr
  if lline ≤ rline then do
    let desc ← nDesc s t.stabs lline
    let info := { info with eipLine := (desc.toNat : Int) }
    let file ← back (fileEntry s t.stabs) (lline - lfile + 1).toNat lline
    let name ← if file ≥ lfile then nameOf s t file info.eipFile else pure info.eipFile
    let info := { info with eipFile := name }
    let narg ← if lfun < rfun then countArgs s t.stabs (rfun - lfun - 1).toNat (lfun + 1) else pure 0
    return (0, { info with eipFnNarg := narg })
  else return (-1, info)

def lookUp (s : State) (t : UserStabData) (fuel : Nat) (addr : UInt32) (info : Eipdebuginfo) :
    Run (Int × Eipdebuginfo) := do
  let (lfile, rfile) ← search s t fuel 0 (wrap (stabCount t - 1)) N_SO addr
  if lfile = 0 then return (-1, info)
  else do
    let (lfun, rfun) ← search s t fuel lfile rfile N_FUN addr
    if lfun ≤ rfun then do
      let name ← nameOf s t lfun info.eipFnName
      let fnAddr ← nValue s t.stabs lfun
      let info := { info with eipFnName := name, eipFnAddr := fnAddr }
      let len ← namelen s fuel info.eipFnName
      lineInfo s t fuel (addr - fnAddr) { info with eipFnNamelen := len } lfile lfun rfun lfun rfun
    else do
      let info := { info with eipFnAddr := addr }
      let len ← namelen s fuel info.eipFnName
      lineInfo s t fuel addr { info with eipFnNamelen := len } lfile lfun rfun lfile rfile

/-- What debuginfo_eip returns, what it leaves in *info, and the state. -/
def debuginfoEip (kernel : UserStabData) (fuel : Nat) (s : State) (addr : UInt32) :
    Run (Int × Eipdebuginfo × State) := do
  let info := unknownInfo addr
  match ← findStabs kernel s addr with
  | (none, s) => return (-1, info, s)
  | (some t, s) => do
    if ← validStrings s t then do
      let (r, info) ← lookUp s t fuel addr info
      return (r, info, s)
    else return (-1, info, s)

end JosDebuginfo
