/-!
Pointer maps of compiled closures: one bit for each argument slot, packed in words of 32.
-/

namespace LazyGraph

/-- `size` slots, whose bits lie in `words` from the least significant bit of the first word. -/
structure PointerMap where
  size : Nat
  words : List UInt32
  deriving DecidableEq, Inhabited

namespace PointerMap

def pack (bits : List Bool) : UInt32 :=
  bits.foldr (fun bit word => word <<< 1 ||| if bit then 1 else 0) 0

def ofSlots (slots : List Bool) : PointerMap where
  size := slots.length
  words := (List.range ((slots.length + 31) / 32)).map fun w =>
    pack ((slots.drop (32 * w)).take 32)

def isPointer (m : PointerMap) (slot : Nat) : Bool :=
  slot < m.size && (m.words[slot / 32]?).any fun word => word.toNat.testBit (slot % 32)

def slots (m : PointerMap) (n : Nat) : List Bool :=
  (List.range n).map m.isPointer

/-- Whether the map is the one built anew from its answers, of which at most `limit` are taken. -/
def isPacked (m : PointerMap) (limit : Nat) : Bool :=
  m == ofSlots (m.slots (min m.size limit))

end PointerMap

end LazyGraph
