import HyLisp.DataPlane.MapTables

/-!
# Prefixes and mapping entries of the control plane

The control plane keeps an EID prefix as an address and a length, and a locator
as a sockaddr with its metrics.
-/

namespace HyLisp.ControlPlane

open DataPlane

/-- `prefix` -/
structure Prefix where
  addr : Address
  prefixlen : UInt8
  deriving DecidableEq, Repr

/-- `sockunion`; the last constructor stands for the families that no code of
the control plane handles. -/
inductive SockUnion
  | inet (port : Vector UInt8 2) (addr : Vector UInt8 4) (zero : Vector UInt8 8)
  | inet6 (port : Vector UInt8 2) (flowinfo : Vector UInt8 4)
      (addr : Vector UInt8 16) (scopeId : Vector UInt8 4)
  | other (family : UInt8)
  deriving DecidableEq, Repr

/-- The address of a sockaddr. -/
def SockUnion.address : SockUnion → Option Address
  | .inet _ addr _ => some (.inet addr)
  | .inet6 _ _ addr _ => some (.inet6 addr)
  | .other _ => none

/-- `map_entry`, with the fields the map messages carry. -/
structure MapEntry where
  rloc : SockUnion
  priority : UInt8
  weight : UInt8
  L : Bool
  r : Bool
  deriving DecidableEq, Repr

/-! ## Sockaddrs in memory -/

/-- A `sockaddr_in` as it is written to a map message. -/
def sockaddrIn (port : Vector UInt8 2) (addr : Vector UInt8 4)
    (zero : Vector UInt8 8) : List UInt8 :=
  [16, afInet] ++ (port.toList ++ (addr.toList ++ zero.toList))

/-- A `sockaddr_in6` as it is written to a map message, with the four bytes that
round its length up to a multiple of `sizeof(long)`. -/
def sockaddrIn6 (port : Vector UInt8 2) (flowinfo : Vector UInt8 4)
    (addr : Vector UInt8 16) (scopeId : Vector UInt8 4) : List UInt8 :=
  [28, afInet6] ++ (port.toList ++ (flowinfo.toList ++ (addr.toList ++
    (scopeId.toList ++ [0, 0, 0, 0]))))

@[simp] theorem length_sockaddrIn (port : Vector UInt8 2)
    (addr : Vector UInt8 4) (zero : Vector UInt8 8) :
    (sockaddrIn port addr zero).length = 16 := by
  simp [sockaddrIn]

@[simp] theorem length_sockaddrIn6 (port : Vector UInt8 2)
    (flowinfo : Vector UInt8 4) (addr : Vector UInt8 16)
    (scopeId : Vector UInt8 4) :
    (sockaddrIn6 port flowinfo addr scopeId).length = 32 := by
  simp [sockaddrIn6]

section Fields

variable {m : Mem} {port : Vector UInt8 2} {addr4 : Vector UInt8 4}
  {zero : Vector UInt8 8} {flowinfo scopeId : Vector UInt8 4}
  {addr6 : Vector UInt8 16}

theorem fields_of_holds_sockaddrIn (h : Mem.Holds m (sockaddrIn port addr4 zero)) :
    m 0 = 16 ∧ m 1 = afInet ∧ Mem.bytes m 4 4 = addr4 := by
  simp only [sockaddrIn, Mem.holds_append, List.length_cons, List.length_nil,
    Vector.length_toList, Mem.advance_advance] at h
  obtain ⟨hhead, -, haddr, -⟩ := h
  exact ⟨hhead 0 (by simp), hhead 1 (by simp), Mem.bytes_of_holds haddr⟩

theorem fields_of_holds_sockaddrIn6
    (h : Mem.Holds m (sockaddrIn6 port flowinfo addr6 scopeId)) :
    m 0 = 28 ∧ m 1 = afInet6 ∧ Mem.bytes m 8 16 = addr6 := by
  simp only [sockaddrIn6, Mem.holds_append, List.length_cons, List.length_nil,
    Vector.length_toList, Mem.advance_advance] at h
  obtain ⟨hhead, -, -, haddr, -⟩ := h
  exact ⟨hhead 0 (by simp), hhead 1 (by simp), Mem.bytes_of_holds haddr⟩

theorem holdsSockaddr_of_sockaddrIn
    (h : Mem.Holds m (sockaddrIn port addr4 zero)) :
    HoldsSockaddr m (.inet addr4) := by
  obtain ⟨h0, h1, haddr⟩ := fields_of_holds_sockaddrIn h
  exact holdsSockaddr_inet h0 h1 haddr

theorem holdsSockaddr_of_sockaddrIn6
    (h : Mem.Holds m (sockaddrIn6 port flowinfo addr6 scopeId)) :
    HoldsSockaddr m (.inet6 addr6) := by
  obtain ⟨h0, h1, haddr⟩ := fields_of_holds_sockaddrIn6 h
  exact holdsSockaddr_inet6 h0 h1 haddr

end Fields

end HyLisp.ControlPlane
