import ChainLab.Bytes.Hex

/-!
# Digests, identifiers of blocks, and keys

The 32-byte values of the chain, each with its own type, ordered byte by byte.
-/

namespace ChainLab

abbrev Digest := Bytes 32

instance : Std.TransOrd Digest := inferInstanceAs (Std.TransOrd (Vector UInt8 32))

/-- The short text of a hash: its four little-endian words in hexadecimal. -/
def Digest.short (digest : Digest) : String :=
  let word (i : Nat) : String :=
    String.ofList (Nat.toDigits 16 (ofLittleEndian ((digest.toList.drop (8 * i)).take 8)))
  s!"{word 0}_{word 1}_{word 2}_{word 3}"

def Digest.hex (digest : Digest) : String := Hex.encode digest.toList

/-- Identifier of a block: the hash of its header. -/
structure BlockId where
  digest : Digest
  deriving DecidableEq

namespace BlockId

def zero : BlockId := ⟨Bytes.zero 32⟩

/-- The 32 bits by which a transaction names its reference block. -/
def refTag (id : BlockId) : UInt32 :=
  UInt32.ofNat (ofLittleEndian ((id.digest.toList.drop 8).take 4))

instance : ToString BlockId := ⟨fun id => id.digest.short⟩

instance : Ord BlockId := ⟨compareOn digest⟩

instance : Std.TransOrd BlockId := inferInstanceAs (Std.TransCmp (compareOn digest))

instance : Std.LawfulEqOrd BlockId where
  eq_of_compare {a b} h := by
    cases a; cases b
    exact congrArg BlockId.mk (Std.LawfulEqOrd.eq_of_compare h)

end BlockId

/-- Verification key of a signature scheme, compared by its bytes. -/
structure PublicKey where
  bytes : Bytes 32
  deriving DecidableEq

namespace PublicKey

def hex (key : PublicKey) : String := Hex.encode key.bytes.toList

instance : ToString PublicKey := ⟨hex⟩

instance : Ord PublicKey := ⟨compareOn bytes⟩

instance : Std.TransOrd PublicKey := inferInstanceAs (Std.TransCmp (compareOn bytes))

instance : Std.LawfulEqOrd PublicKey where
  eq_of_compare {a b} h := by
    cases a; cases b
    exact congrArg PublicKey.mk (Std.LawfulEqOrd.eq_of_compare h)

/-- Why a text does not name a key. -/
inductive Fault where
  | hex (fault : Hex.Fault)
  | length (actual : Nat)
  deriving DecidableEq, Repr

def ofHex (text : String) : Except Fault PublicKey :=
  match Hex.decode text with
  | .error fault => .error (.hex fault)
  | .ok bytes =>
    match Bytes.ofList? 32 bytes with
    | some key => .ok ⟨key⟩
    | none => .error (.length bytes.length)

end PublicKey

structure Signature where
  bytes : Bytes 64
  deriving DecidableEq

end ChainLab
