import RingQueue.Config
import RingQueue.Varint

/-!
Settings in binary: the capacity, then the index of the policy.
-/
namespace RingQueue.Config.Binary

inductive Fault where
  | number (fault : Varint.Fault)
  | unknownPolicy
  deriving DecidableEq, Repr

/-- A policy by its index. -/
def encodePolicy (p : OverflowPolicy) : List UInt8 := Varint.encode .limits32 p.index

/-- The shortest bytes that stand for the settings. -/
def encode (c : Config) : List UInt8 :=
  Varint.encode .limits64 c.capacity ++ encodePolicy c.policy

/-- Settings at the front of the bytes; what follows them is not looked at. -/
def decode (bytes : List UInt8) : Except Fault Config :=
  match Varint.decode .limits64 bytes with
  | .error fault => .error (.number fault)
  | .ok (capacity, rest) =>
    match Varint.decode .limits32 rest with
    | .error fault => .error (.number fault)
    | .ok (index, _) =>
      match OverflowPolicy.ofIndex? index with
      | some policy => .ok ⟨capacity, policy⟩
      | none => .error .unknownPolicy

end RingQueue.Config.Binary
