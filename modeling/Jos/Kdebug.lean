import Jos.BackScan
import Jos.Printfmt
import Jos.WhileLoop

/- The search of kern/kdebug.c in a table of stabs. The entries are read one field at a time,
   through nType and nValue, so that a search can be run on a table that is there and on one
   that has yet to be loaded. -/
namespace JosKdebug
open JosPrintfmt BackScan WhileLoop

/- inc/stab.h, the types debuginfo_eip asks for. -/
abbrev N_FUN : Int := 0x24
abbrev N_SLINE : Int := 0x44
abbrev N_SO : Int := 0x64
abbrev N_SOL : Int := 0x84
abbrev N_PSYM : Int := 0xa0

structure Stab where
  nStrx : UInt32
  nType : UInt8
  nDesc : UInt16
  nValue : UInt32

/- sizeof(struct Stab) -/
abbrev STABSIZE : Nat := 12

/-- The variables of stab_binsearch; left and right are what its two pointers point to. -/
structure Search where
  l : Int
  r : Int
  left : Int
  right : Int
  anyMatches : Bool
  addr : UInt32

def middle (l r : Int) : Int := (wrap (l + r)).tdiv 2

theorem middle_eq {l r : Int} (low : 0 ≤ l) (more : l ≤ r) (small : l + r < 2147483648) :
    middle l r = (l + r) / 2 := by
  have kept : wrap (l + r) = l + r := wrap_small (by omega) small
  unfold middle
  rw [kept, Int.tdiv_eq_ediv_of_nonneg (by omega)]

section Binsearch
variable {m : Type → Type} [Monad m] (nType : Int → m UInt8) (nValue : Int → m UInt32)

def isType (type : Int) (i : Int) : m Bool := do
  return decide (((← nType i).toNat : Int) = type)

def probe (q : Search) (trueM k : Int) (value : UInt32) : Search :=
  let q := { q with anyMatches := true }
  if value < q.addr then { q with left := k, l := trueM + 1 }
  else if value > q.addr then { q with right := k - 1, r := k - 1 }
  else { q with left := k, l := k, addr := q.addr + 1 }

def binsearchStep (type : Int) (q : Search) : m (Option Search) :=
  if q.l ≤ q.r then do
    let trueM := middle q.l q.r
    let k ← back (isType nType type) (trueM - q.l + 1).toNat trueM
    if k < q.l then pure (some { q with l := trueM + 1 })
    else return some (probe q trueM k (← nValue k))
  else pure none

/-- *region_left and *region_right after the search; none if it takes more than fuel rounds. -/
def stabBinsearch (fuel : Nat) (left right type : Int) (addr : UInt32) : m (Option (Int × Int)) := do
  match ← loop (binsearchStep nType nValue type) fuel ⟨left, right, left, right, false, addr⟩ with
  | none => pure none
  | some q =>
    if q.anyMatches then do
      -- the rightmost region containing addr
      let l ← back (isType nType type) (q.right - q.left).toNat q.right
      pure (some (l, q.right))
    else pure (some (q.left, q.left - 1))

end Binsearch

end JosKdebug
