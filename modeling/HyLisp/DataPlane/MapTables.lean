import HyLisp.Support.Memory

/-!
# Map messages

The layout of the messages exchanged over the mapping socket, from
`net/lisp/maptables.h`: a header, the sockaddrs it announces, and for each RLOC
a sockaddr followed by its metrics.  The control plane writes them, the
hypervisor reads the EID out of them, and the data plane parses them.

The target is a 64-bit FreeBSD: little-endian, sockaddrs that start with their
length and family, eight bytes in a `long`.
-/

namespace HyLisp.DataPlane

/-! ## Constants -/

/-- `AF_INET` -/
def afInet : UInt8 := 2

/-- `AF_INET6` -/
def afInet6 : UInt8 := 28

/-- `sizeof(long)` -/
def sizeofLong : ℕ := 8

/-- `sizeof(struct map_msghdr)` -/
def sizeofMapMsghdr : ℕ := 28

/-- `sizeof(struct rloc_mtx)` -/
def sizeofRlocMtx : ℕ := 16

/-- `sizeof(struct sockaddr_in)` -/
def sizeofSockaddrIn : ℕ := 16

/-- `sizeof(struct sockaddr_in6)` -/
def sizeofSockaddrIn6 : ℕ := 28

/-- `MAPM_VERSION` -/
def mapmVersion : UInt8 := 1

/-- `MAPM_ADD` -/
def mapmAdd : UInt16 := 0x01

/-- `MAPM_DELETE` -/
def mapmDelete : UInt16 := 0x02

/-- `MAPM_MISS_HEADER` -/
def mapmMissHeader : UInt16 := 0x07

/-- `MAPA_EID` -/
def mapaEid : UInt16 := 0x01

/-- `MAPA_EIDMASK` -/
def mapaEidmask : UInt16 := 0x02

/-- `MAPA_RLOC` -/
def mapaRloc : UInt16 := 0x04

/-- `MAPF_DB` -/
def mapfDb : UInt32 := 0x001

/-- `MAPF_STATIC` -/
def mapfStatic : UInt32 := 0x008

/-- `MAPF_UP` -/
def mapfUp : UInt32 := 0x010

/-- `MAPF_ALL` -/
def mapfAll : UInt32 := 0x020

/-- `MAPF_NEGATIVE` -/
def mapfNegative : UInt32 := 0x080

/-- `RLOCF_UP` -/
def rlocfUp : UInt16 := 0x01

/-- `RLOCF_LIF` -/
def rlocfLif : UInt16 := 0x02

/-! ## The header -/

/-- `map_msghdr`; the `int` fields are kept as their 32 bits. -/
structure MapMsghdr where
  mapMsglen : UInt8
  mapVersion : UInt8
  mapType : UInt16
  mapFlags : UInt32
  mapAddrs : UInt16
  mapVersioning : UInt16
  mapRlocCount : UInt32
  mapPid : UInt32
  mapSeq : UInt32
  mapErrno : UInt32
  deriving DecidableEq, Repr

namespace MapMsghdr

/-- The header as it lies in memory. -/
def toBytes (h : MapMsghdr) : List UInt8 :=
  [h.mapMsglen] ++ ([h.mapVersion] ++ (Mem.le16Bytes h.mapType ++
    (Mem.le32Bytes h.mapFlags ++ (Mem.le16Bytes h.mapAddrs ++
      (Mem.le16Bytes h.mapVersioning ++ (Mem.le32Bytes h.mapRlocCount ++
        (Mem.le32Bytes h.mapPid ++ (Mem.le32Bytes h.mapSeq ++
          Mem.le32Bytes h.mapErrno))))))))

/-- The header read at the start of a buffer. -/
def ofMem (buf : Mem) : MapMsghdr where
  mapMsglen := buf 0
  mapVersion := buf 1
  mapType := .ofNat (Mem.le16 buf 2)
  mapFlags := .ofNat (Mem.le32 buf 4)
  mapAddrs := .ofNat (Mem.le16 buf 8)
  mapVersioning := .ofNat (Mem.le16 buf 10)
  mapRlocCount := .ofNat (Mem.le32 buf 12)
  mapPid := .ofNat (Mem.le32 buf 16)
  mapSeq := .ofNat (Mem.le32 buf 20)
  mapErrno := .ofNat (Mem.le32 buf 24)

@[simp] theorem length_toBytes (h : MapMsghdr) :
    h.toBytes.length = sizeofMapMsghdr := rfl

/-- A header is read back from the bytes it was written to. -/
theorem ofMem_of_holds {buf : Mem} {h : MapMsghdr}
    (hbuf : Mem.Holds buf h.toBytes) : ofMem buf = h := by
  simp only [toBytes, Mem.holds_append, List.length_singleton,
    Mem.length_le16Bytes, Mem.length_le32Bytes, Mem.advance_advance] at hbuf
  obtain ⟨hlen, hversion, htype, hflags, haddrs, hversioning, hcount, hpid,
    hseq, herrno⟩ := hbuf
  have h0 : buf 0 = h.mapMsglen := hlen 0 (by simp)
  have h1 : buf 1 = h.mapVersion := hversion 0 (by simp)
  rw [ofMem, h0, h1, Mem.le16_of_holds htype, Mem.le32_of_holds hflags,
    Mem.le16_of_holds haddrs, Mem.le16_of_holds hversioning,
    Mem.le32_of_holds hcount, Mem.le32_of_holds hpid, Mem.le32_of_holds hseq,
    Mem.le32_of_holds herrno]
  simp

end MapMsghdr

/-! ## Sockaddrs -/

/-- The room a sockaddr takes in a message: its length rounded up to a multiple
of `sizeof(long)`.  `SS_SIZE` of the data plane, `SS_LEN` of the control plane
and `SA_SIZE` of the hypervisor are this same expression. -/
def ssSize (ssLen : UInt8) : ℕ :=
  if ssLen = 0 then sizeofLong
  else 1 + ((ssLen.toNat - 1) ||| (sizeofLong - 1))

@[simp] theorem ssSize_sockaddrIn : ssSize 16 = 16 := by
  decide

@[simp] theorem ssSize_sockaddrIn6 : ssSize 28 = 32 := by
  decide

/-- An address with its family. -/
inductive Address
  | inet (addr : Vector UInt8 4)
  | inet6 (addr : Vector UInt8 16)
  deriving DecidableEq, Repr

/-- The number of bits of an address. -/
def Address.width : Address → ℕ
  | .inet _ => 32
  | .inet6 _ => 128

theorem Address.width_le (addr : Address) : addr.width ≤ 128 := by
  cases addr with
  | inet _ => exact (by decide : 32 ≤ 128)
  | inet6 _ => exact Nat.le_refl 128

/-- The room a sockaddr of the family takes in a message. -/
def Address.room : Address → ℕ
  | .inet _ => 16
  | .inet6 _ => 32

/-- The bytes of an address. -/
def Address.toMem : Address → Mem
  | .inet addr => Mem.ofVector addr
  | .inet6 addr => Mem.ofVector addr

/-- The address of a sockaddr: `sin_addr` or `sin6_addr`. -/
def sockaddrAddress (ss : Mem) : Option Address :=
  if ss 1 = afInet then some (.inet (ss.bytes 4 4))
  else if ss 1 = afInet6 then some (.inet6 (ss.bytes 8 16))
  else none

/-- A sockaddr in memory, with the length and the family of its address. -/
structure HoldsSockaddr (ss : Mem) (addr : Address) : Prop where
  length_ne_zero : ss 0 ≠ 0
  length_le : (ss 0).toNat ≤ addr.room
  ssSize_eq : ssSize (ss 0) = addr.room
  family : ss 1 = afInet ∨ ss 1 = afInet6
  address : sockaddrAddress ss = some addr

theorem holdsSockaddr_inet {ss : Mem} {addr : Vector UInt8 4} (h0 : ss 0 = 16)
    (h1 : ss 1 = afInet) (haddr : ss.bytes 4 4 = addr) :
    HoldsSockaddr ss (.inet addr) where
  length_ne_zero := by rw [h0]; decide
  length_le := by rw [h0]; exact Nat.le_refl 16
  ssSize_eq := by rw [h0]; rfl
  family := Or.inl h1
  address := by rw [sockaddrAddress, if_pos h1, haddr]

theorem holdsSockaddr_inet6 {ss : Mem} {addr : Vector UInt8 16} (h0 : ss 0 = 28)
    (h1 : ss 1 = afInet6) (haddr : ss.bytes 8 16 = addr) :
    HoldsSockaddr ss (.inet6 addr) where
  length_ne_zero := by rw [h0]; decide
  length_le := by rw [h0]; exact (by decide : 28 ≤ 32)
  ssSize_eq := by rw [h0]; rfl
  family := Or.inr h1
  address := by
    have hne : ¬ ss 1 = afInet := by
      rw [h1]
      decide
    rw [sockaddrAddress, if_neg hne, if_pos h1, haddr]

end HyLisp.DataPlane
