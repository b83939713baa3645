/-!
# Named bits

Registers whose bits have names. A `FlagTable` lists the names in the order in which the bits are
declared; bits without a name are legal in a register and are kept by every operation here unless
its doc says otherwise.
-/

namespace BringUp

/-- Whether every bit of `mask` is set in `bits`. -/
def hasBits (bits mask : UInt64) : Bool :=
  bits &&& mask == mask

/-- Names of the bits of a register, in order of declaration. -/
structure FlagTable where
  /-- Each name with its bit. -/
  flags : List (String × UInt64)

namespace FlagTable

variable (t : FlagTable)

/-- All named bits. -/
def all : UInt64 :=
  t.flags.foldl (fun acc f ↦ acc ||| f.2) 0

/-- Names of the bits that are set, in order of declaration. -/
def names (bits : UInt64) : List String :=
  (t.flags.filter fun f ↦ hasBits bits f.2).map Prod.fst

/-- The named bits among those set. -/
def known (bits : UInt64) : UInt64 :=
  bits &&& t.all

/-- Whether only named bits are set. -/
def valid (bits : UInt64) : Bool :=
  t.known bits == bits

/-- The named bits that are not set. -/
def complement (bits : UInt64) : UInt64 :=
  t.all &&& ~~~bits

end FlagTable

end BringUp
