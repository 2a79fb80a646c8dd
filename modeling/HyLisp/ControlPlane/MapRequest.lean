import HyLisp.ControlPlane.Prefix

/-!
# Map-Requests

The layout of a Map-Request: a header of twelve bytes, the source EID, between
one and 32 ITR-RLOCs, and the records, of which only the first one is named
here.  Addresses are preceded by their AFI, and an AFI of zero by itself stands
for an address that is not given.
-/

namespace HyLisp.ControlPlane

open DataPlane

/-- An AFI and the address behind it. -/
def afiAddress : Option Address → List UInt8
  | none => [0, 0]
  | some (.inet addr) => [0, 1] ++ addr.toList
  | some (.inet6 addr) => [0, 2] ++ addr.toList

/-- The size of an address with its AFI. -/
theorem length_afiAddress (addr : Address) :
    (afiAddress (some addr)).length = 2 + addr.width / 8 := by
  cases addr with
  | inet addr => simp [afiAddress, Address.width]
  | inet6 addr => simp [afiAddress, Address.width]

/-- A Map-Request with at least one record; `rest` are the bytes behind it. -/
structure MapRequest where
  typeFlags : UInt8
  reserved : UInt8
  irc : UInt8
  recordCount : UInt8
  nonce : Vector UInt8 8
  sourceEid : Option Address
  itrRlocs : List (Option Address)
  recordReserved : UInt8
  eid : Prefix
  rest : List UInt8
  lispType : typeFlags >>> 4 = 1
  ircCount : itrRlocs.length = (irc &&& 0x1F).toNat + 1
  maskInWidth : eid.prefixlen.toNat ≤ eid.addr.width

namespace MapRequest

/-- The first record. -/
def recordBytes (r : MapRequest) : List UInt8 :=
  [r.recordReserved, r.eid.prefixlen] ++ afiAddress (some r.eid.addr)

/-- The Map-Request as it lies in a datagram. -/
def toBytes (r : MapRequest) : List UInt8 :=
  [r.typeFlags, r.reserved, r.irc, r.recordCount] ++ (r.nonce.toList ++
    (afiAddress r.sourceEid ++ (r.itrRlocs.flatMap afiAddress ++
      (r.recordBytes ++ r.rest))))

/-- The Map-Request with another prefix in its first record, whatever its length. -/
def toBytesFor (r : MapRequest) (eid : Prefix) : List UInt8 :=
  [r.typeFlags, r.reserved, r.irc, r.recordCount] ++ (r.nonce.toList ++
    (afiAddress r.sourceEid ++ (r.itrRlocs.flatMap afiAddress ++
      (([r.recordReserved, eid.prefixlen] ++ afiAddress (some eid.addr)) ++ r.rest))))

theorem toBytes_eq (r : MapRequest) : r.toBytes = r.toBytesFor r.eid := rfl

end MapRequest

/-! ## Reading an AFI and its address -/

section Read

variable {m : Mem}

theorem be16_of_holds {hi lo : UInt8} {rest : List UInt8}
    (h : Mem.Holds m ([hi, lo] ++ rest)) :
    m.be16 0 = hi.toNat * 256 + lo.toNat := by
  rw [Mem.be16, h 0 (by simp), h 1 (by simp)]
  rfl

theorem afi_none_of_holds (h : Mem.Holds m (afiAddress none)) : m.be16 0 = 0 := by
  rw [Mem.be16, h 0 (by simp [afiAddress]), h 1 (by simp [afiAddress])]
  rfl

theorem afi_inet_of_holds {addr : Vector UInt8 4}
    (h : Mem.Holds m (afiAddress (some (.inet addr)))) :
    m.be16 0 = 1 ∧ m.bytes 2 4 = addr := by
  have hafi := be16_of_holds h
  rw [afiAddress, Mem.holds_append] at h
  exact ⟨hafi, Mem.bytes_of_holds h.2⟩

theorem afi_inet6_of_holds {addr : Vector UInt8 16}
    (h : Mem.Holds m (afiAddress (some (.inet6 addr)))) :
    m.be16 0 = 2 ∧ m.bytes 2 16 = addr := by
  have hafi := be16_of_holds h
  rw [afiAddress, Mem.holds_append] at h
  exact ⟨hafi, Mem.bytes_of_holds h.2⟩

end Read

end HyLisp.ControlPlane
