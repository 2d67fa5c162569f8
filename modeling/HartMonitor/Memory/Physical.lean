/-
# `HartMonitor.Memory.Physical` — the physical range of addresses

The board has 128 MiB from `0x80000000` on.  Expressions dereference and the shell
examines inside this range only, whatever window the configured memory has.
-/
import HartMonitor.Word

namespace HartMonitor.Physical

def base : Word := 0x80000000

def size : Nat := 128 * 1024 * 1024

def last : Word := 0x87ffffff

def contains (addr : Word) : Bool :=
  base ≤ addr && addr ≤ last

/-- Whether the `len` addresses from a physical one on are physical; no address is asked for
where `len` is zero. -/
def containsRange (addr : Word) (len : Nat) : Bool :=
  contains addr && (len == 0 || addr.toNat + (len - 1) ≤ last.toNat)

end HartMonitor.Physical
