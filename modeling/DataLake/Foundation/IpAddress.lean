/-! IP addresses, networks, and the properties that the `ipaddress` library of Python
reads off the IANA registries. -/

namespace Foundation

structure Network (w : Nat) where
  address : BitVec w
  length : Nat

def Network.contains {w : Nat} (n : Network w) (x : BitVec w) : Bool :=
  x >>> (w - n.length) = n.address >>> (w - n.length)

inductive IpAddress where
  | v4 (bits : BitVec 32)
  | v6 (bits : BitVec 128)
deriving DecidableEq

namespace IpAddress

def privateV4 : List (Network 32) :=
  [⟨0x00000000, 8⟩, ⟨0x0a000000, 8⟩, ⟨0x7f000000, 8⟩, ⟨0xa9fe0000, 16⟩, ⟨0xac100000, 12⟩,
    ⟨0xc0000000, 24⟩, ⟨0xc00000aa, 31⟩, ⟨0xc0000200, 24⟩, ⟨0xc0a80000, 16⟩, ⟨0xc6120000, 15⟩,
    ⟨0xc6336400, 24⟩, ⟨0xcb007100, 24⟩, ⟨0xf0000000, 4⟩, ⟨0xffffffff, 32⟩]

def privateExceptionsV4 : List (Network 32) := [⟨0xc0000009, 32⟩, ⟨0xc000000a, 32⟩]

def privateV6 : List (Network 128) :=
  [⟨1, 128⟩, ⟨0, 128⟩, ⟨0xffff00000000, 96⟩, ⟨0x0064ff9b000100000000000000000000, 48⟩,
    ⟨0x01000000000000000000000000000000, 64⟩, ⟨0x20010000000000000000000000000000, 23⟩,
    ⟨0x20010db8000000000000000000000000, 32⟩, ⟨0x20020000000000000000000000000000, 16⟩,
    ⟨0x3fff0000000000000000000000000000, 20⟩, ⟨0xfc000000000000000000000000000000, 7⟩,
    ⟨0xfe800000000000000000000000000000, 10⟩]

def privateExceptionsV6 : List (Network 128) :=
  [⟨0x20010001000000000000000000000001, 128⟩, ⟨0x20010001000000000000000000000002, 128⟩,
    ⟨0x20010003000000000000000000000000, 32⟩, ⟨0x20010004011200000000000000000000, 48⟩,
    ⟨0x20010020000000000000000000000000, 28⟩, ⟨0x20010030000000000000000000000000, 28⟩]

/-- An IPv4 address inside an IPv6 one decides its properties. -/
def ipv4Mapped (bits : BitVec 128) : Option (BitVec 32) :=
  if bits >>> 32 = 0xffff then some (bits.truncate 32) else none

def either (onV4 : BitVec 32 → Bool) (onV6 : BitVec 128 → Bool) : IpAddress → Bool
  | v4 bits => onV4 bits
  | v6 bits => ((ipv4Mapped bits).map onV4).getD (onV6 bits)

def isLoopback : IpAddress → Bool :=
  either (Network.contains ⟨0x7f000000, 8⟩) fun bits => bits = 1

def isLinkLocal : IpAddress → Bool :=
  either (Network.contains ⟨0xa9fe0000, 16⟩)
    (Network.contains ⟨0xfe800000000000000000000000000000, 10⟩)

def isMulticast : IpAddress → Bool :=
  either (Network.contains ⟨0xe0000000, 4⟩)
    (Network.contains ⟨0xff000000000000000000000000000000, 8⟩)

def isUnspecified : IpAddress → Bool :=
  either (fun bits => bits = 0) fun bits => bits = 0

def isPrivate : IpAddress → Bool :=
  either
    (fun bits => privateV4.any (·.contains bits) && !privateExceptionsV4.any (·.contains bits))
    fun bits => privateV6.any (·.contains bits) && !privateExceptionsV6.any (·.contains bits)

end IpAddress

end Foundation
