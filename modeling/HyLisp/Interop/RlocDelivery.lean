import HyLisp.ControlPlane.MapMessages
import HyLisp.DataPlane.LocatorChain
import HyLisp.Support.BitString
import Mathlib.Algebra.BigOperators.Group.List.Basic

/-!
# RLOC lists, from the control plane to the data plane

An addition is complete when it is written whole, says its own length, and the
data plane finds in it the prefix and every locator.  The length field has
eight bits, and the chain of locators takes no sockaddr twice, so this is the
case exactly when the message fits in 255 bytes and its sockaddrs differ.
-/

namespace HyLisp.Interop

open ControlPlane DataPlane DataPlane.LocatorChain BitString

/-- What the data plane should read of an RLOC entry. -/
def rlocRead (rl : MapEntry) : Rloc where
  rlocAddr := rl.rloc.toBytes.getD []
  rlocmtx :=
    { priority := rl.priority
      weight := rl.weight
      flags := (if rl.L then rlocfLif else 0) ||| (if rl.r then rlocfUp else 0)
      mtu := 0
      txNonce := 0
      rxNonce := 0 }

/-- The data plane builds a request from the message, and the request leads it
to the prefix and to a mapping that has the RLOCs with their priorities and weights. -/
def Recovers (p : Prefix) (rlocs : List MapEntry) (mapmsg : Mem) (len : ℕ) : Prop :=
  ∃ info eid mask, mapOutput mapmsg len = .ok info ∧
    info.eid = some eid ∧
    info.eidmask = some (.inMessage mask) ∧
    info.mapiRlocCount.toNat = rlocs.length ∧
    sockaddrAddress (mapmsg.advance eid) = some p.addr ∧
    (∃ addr, sockaddrAddress (mapmsg.advance mask) = some addr ∧
      addr.width = p.addr.width ∧
      IsMask p.prefixlen.toNat p.addr.width addr.toMem) ∧
    ∀ behind, ∃ chain lsbits, maprequestAdd behind mapmsg info = .ok (chain, lsbits) ∧
      (chain.map fun l => (l.rloc.address, l.rloc.rlocmtx.priority,
        l.rloc.rlocmtx.weight)).Perm
        (rlocs.map fun rl => (rl.rloc.address, rl.priority, rl.weight))

/-- The bytes written are as many as the parts of the message take, the length
field says so, and the data plane recovers the mapping from any memory that
holds them. -/
def Delivers (p : Prefix) (rlocs : List MapEntry) (bytes : List UInt8) : Prop :=
  bytes.length = messageSize p rlocs ∧
    ∀ mapmsg, Mem.Holds mapmsg bytes →
      (MapMsghdr.ofMem mapmsg).mapMsglen.toNat = messageSize p rlocs ∧
        Recovers p rlocs mapmsg bytes.length

/-! ## The mask of a prefix -/

theorem byteBit_lastByte {masklen r : ℕ} (hr : r < 8) :
    byteBit (oplMaskByte masklen (masklen / 8)) r =
      decide (r < masklen % 8) := by
  have hall : ∀ k r : Fin 8,
      byteBit (if k.val ≠ 0 then 0xFF <<< UInt8.ofNat (8 - k) else 0) r =
        decide (r.val < k.val) := by
    decide
  rw [← hall ⟨masklen % 8, Nat.mod_lt _ (by decide)⟩ ⟨r, hr⟩]
  rw [oplMaskByte, if_neg (lt_irrefl _)]
  simp

theorem bit_oplMask {m : Mem} {masklen i : ℕ}
    (hm : m (i / 8) = oplMaskByte masklen (i / 8)) :
    bit m i = decide (i < masklen) := by
  rw [bit, hm]
  rcases lt_trichotomy (i / 8) (masklen / 8) with hlt | heq | hgt
  · have hones : ∀ r : Fin 8, byteBit 0xFF r = true := by decide
    rw [oplMaskByte, if_pos hlt, hones ⟨i % 8, Nat.mod_lt _ (by decide)⟩]
    exact (decide_eq_true (by omega)).symm
  · rw [heq, byteBit_lastByte (Nat.mod_lt _ (by decide))]
    congr 1
    exact propext (by omega)
  · have hzero : ∀ r : Fin 8, byteBit 0 r = false := by decide
    rw [oplMaskByte, if_neg (by omega), if_neg (by omega),
      hzero ⟨i % 8, Nat.mod_lt _ (by decide)⟩]
    exact (decide_eq_false (by omega)).symm

theorem isMask_maskAddress (masklen : ℕ) (addr : Address) :
    IsMask masklen addr.width (maskAddress masklen addr).toMem := by
  intro i hi
  cases addr with
  | inet addr =>
      have hbyte : i / 8 < 4 := by
        simp only [Address.width] at hi
        omega
      apply bit_oplMask
      rw [maskAddress, Address.toMem, Mem.ofVector_apply _ hbyte,
        Vector.getElem_ofFn]
  | inet6 addr =>
      have hbyte : i / 8 < 16 := by
        simp only [Address.width] at hi
        omega
      apply bit_oplMask
      rw [maskAddress, Address.toMem, Mem.ofVector_apply _ hbyte,
        Vector.getElem_ofFn]

/-! ## Walking the sockaddrs -/

section Walk

variable {mapmsg : Mem} {cplim cp : ℕ}

theorem mapXaddrsSockaddr_of_holds {addr : Address}
    (h : HoldsSockaddr (mapmsg.advance cp) addr) (hroom : cp + addr.room ≤ cplim) :
    mapXaddrsSockaddr mapmsg cplim cp = .ok (cp + addr.room) := by
  have hlen := h.length_le
  have hfits : ¬ (cp + (mapmsg.advance cp 0).toNat > cplim ∨
      ¬ KnownFamily (mapmsg.advance cp)) := by
    rintro (hgt | hfamily)
    · omega
    · exact hfamily h.family
  rw [mapXaddrsSockaddr]
  rw [if_neg hfits, if_neg h.length_ne_zero, h.ssSize_eq]

theorem room_of_address {rl : MapEntry} {addr : Address}
    (haddr : rl.rloc.address = some addr) :
    rl.room = addr.room + sizeofRlocMtx := by
  rw [MapEntry.room, haddr, Option.elim_some]

/-- An entry and the entries behind it. -/
theorem holds_rlocBytes_cons {buf : Mem} {rl : MapEntry} {addr : Address}
    {rest : List MapEntry} (haddr : rl.rloc.address = some addr)
    (h : Mem.Holds buf (rlocBytes (rl :: rest))) :
    HoldsSockaddr buf addr ∧
      Mem.Holds (buf.advance addr.room) (rl.rlocMtx ++ rlocBytes rest) ∧
      Mem.Holds (buf.advance (addr.room + sizeofRlocMtx)) (rlocBytes rest) := by
  rw [rlocBytes, List.flatMap_cons] at h
  obtain ⟨hsock, hmtx⟩ := entry_of_holds haddr h
  refine ⟨hsock, hmtx, ?_⟩
  have hnext := (Mem.holds_append.mp hmtx).2
  rwa [length_rlocMtx, Mem.advance_advance] at hnext

/-- An RLOC is read as it was written. -/
theorem readRloc_of_holds {rl : MapEntry} {addr : Address} {rest : List MapEntry}
    (haddr : rl.rloc.address = some addr)
    (h : Mem.Holds (mapmsg.advance cp) (rlocBytes (rl :: rest))) (db : Bool) :
    readRloc mapmsg db cp = rlocRead rl := by
  obtain ⟨hsock, hmtx, -⟩ := holds_rlocBytes_cons haddr h
  obtain ⟨hpriority, hweight, hflags⟩ := fields_of_holds_rlocMtx hmtx
  obtain ⟨hmtu, hnonce⟩ := zeros_of_holds_rlocMtx hmtx
  have hlen := length_sockaddr haddr
  rw [rlocBytes, List.flatMap_cons] at h
  have hbytes := Mem.toList_of_holds (sockaddr_of_holds haddr h)
  rw [hlen] at hbytes
  rw [readRloc, rlocRead, hsock.ssSize_eq, hbytes, hpriority, hweight, hflags, hmtu, hnonce,
    UInt16.ofNat_toNat]
  cases db <;> rfl

theorem mapXaddrsRlocs_of_holds {rlocs : List MapEntry} (h : Supported rlocs)
    (hbytes : Mem.Holds (mapmsg.advance cp) (rlocBytes rlocs))
    (hroom : cp + (rlocs.map MapEntry.room).sum ≤ cplim) :
    mapXaddrsRlocs mapmsg cplim rlocs.length cp =
      .ok (cp + (rlocs.map MapEntry.room).sum) := by
  induction rlocs generalizing cp with
  | nil => rfl
  | cons rl rest ih =>
      obtain ⟨addr, haddr⟩ := Option.isSome_iff_exists.mp
        (h rl List.mem_cons_self)
      obtain ⟨hsock, -, hrest⟩ := holds_rlocBytes_cons haddr hbytes
      rw [List.map_cons, List.sum_cons, room_of_address haddr] at hroom ⊢
      have hlen := hsock.length_le
      have hfits : ¬ (cp + (mapmsg.advance cp 0).toNat + sizeofRlocMtx > cplim ∨
          ¬ KnownFamily (mapmsg.advance cp)) := by
        rintro (hgt | hfamily)
        · omega
        · exact hfamily hsock.family
      rw [Mem.advance_advance] at hrest
      have hnext := ih (fun rl' hrl' => h rl' (List.mem_cons_of_mem _ hrl'))
        hrest (by omega)
      rw [List.length_cons, mapXaddrsRlocs]
      rw [if_neg hfits, if_neg hsock.length_ne_zero, hsock.ssSize_eq,
        Nat.add_assoc cp, hnext]
      congr 1
      omega

/-- The RLOCs of an addition are read as they were written. -/
theorem rlocsOf_of_holds {rlocs : List MapEntry} (h : Supported rlocs)
    (hbytes : Mem.Holds (mapmsg.advance cp) (rlocBytes rlocs)) (db : Bool) :
    rlocsOf mapmsg db rlocs.length cp = rlocs.map rlocRead := by
  induction rlocs generalizing cp with
  | nil => rfl
  | cons rl rest ih =>
      obtain ⟨addr, haddr⟩ := Option.isSome_iff_exists.mp
        (h rl List.mem_cons_self)
      obtain ⟨hsock, hmtx, hrest⟩ := holds_rlocBytes_cons haddr hbytes
      rw [Mem.advance_advance, ← Nat.add_assoc] at hrest
      have hnext := ih (fun rl' hrl' => h rl' (List.mem_cons_of_mem _ hrl')) hrest
      have hsize : ssSize (mapmsg cp) = addr.room := hsock.ssSize_eq
      rw [List.length_cons, rlocsOf, hsize, hnext, List.map_cons,
        readRloc_of_holds haddr hbytes db]

end Walk

/-! ## The chain of locators -/

section Chain

variable {rlocs : List MapEntry} {mapmsg : Mem} {db : Bool} {cp : ℕ}

theorem sockaddrIn_inj {port port' : Vector UInt8 2} {addr addr' : Vector UInt8 4}
    {zero zero' : Vector UInt8 8} (h : sockaddrIn port addr zero = sockaddrIn port' addr' zero') :
    port = port' ∧ addr = addr' ∧ zero = zero' := by
  have htail := List.append_cancel_left h
  obtain ⟨hport, htail⟩ := List.append_inj htail (by simp)
  obtain ⟨haddr, hzero⟩ := List.append_inj htail (by simp)
  exact ⟨Vector.toList_inj.mp hport, Vector.toList_inj.mp haddr, Vector.toList_inj.mp hzero⟩

theorem sockaddrIn6_inj {port port' : Vector UInt8 2} {flowinfo flowinfo' : Vector UInt8 4}
    {addr addr' : Vector UInt8 16} {scopeId scopeId' : Vector UInt8 4}
    (h : sockaddrIn6 port flowinfo addr scopeId = sockaddrIn6 port' flowinfo' addr' scopeId') :
    port = port' ∧ flowinfo = flowinfo' ∧ addr = addr' ∧ scopeId = scopeId' := by
  have htail := List.append_cancel_left h
  obtain ⟨hport, htail⟩ := List.append_inj htail (by simp)
  obtain ⟨hflowinfo, htail⟩ := List.append_inj htail (by simp)
  obtain ⟨haddr, htail⟩ := List.append_inj htail (by simp)
  have hscopeId := List.append_cancel_right htail
  exact ⟨Vector.toList_inj.mp hport, Vector.toList_inj.mp hflowinfo,
    Vector.toList_inj.mp haddr, Vector.toList_inj.mp hscopeId⟩

/-- Sockaddrs with the same bytes are the same. -/
theorem sockUnion_eq {ss ss' : SockUnion} (h : ss.address.isSome) (h' : ss'.address.isSome)
    (heq : ss.toBytes.getD [] = ss'.toBytes.getD []) : ss = ss' := by
  have hlen (port addr zero port' flowinfo addr' scopeId) :
      sockaddrIn port addr zero ≠ sockaddrIn6 port' flowinfo addr' scopeId := by
    intro hbytes
    have hlength := congrArg List.length hbytes
    rw [length_sockaddrIn, length_sockaddrIn6] at hlength
    omega
  cases ss with
  | inet port addr zero =>
      cases ss' with
      | inet port' addr' zero' =>
          obtain ⟨rfl, rfl, rfl⟩ := sockaddrIn_inj heq
          rfl
      | inet6 port' flowinfo' addr' scopeId' => exact absurd heq (hlen _ _ _ _ _ _ _)
      | other family => cases h'
  | inet6 port flowinfo addr scopeId =>
      cases ss' with
      | inet port' addr' zero' => exact absurd heq.symm (hlen _ _ _ _ _ _ _)
      | inet6 port' flowinfo' addr' scopeId' =>
          obtain ⟨rfl, rfl, rfl, rfl⟩ := sockaddrIn6_inj heq
          rfl
      | other family => cases h'
  | other family => cases h

/-- What is read of an RLOC has its address. -/
theorem holds_rlocRead {rl : MapEntry} {addr : Address} (haddr : rl.rloc.address = some addr) :
    (rlocRead rl).Holds addr := by
  refine ⟨length_sockaddr haddr, ?_⟩
  have hsock := Mem.holds_ofList (rl.rloc.toBytes.getD []) fun _ => 0
  obtain ⟨rloc, priority, weight, L, r⟩ := rl
  cases rloc with
  | inet port addr4 zero =>
      obtain rfl : Address.inet addr4 = addr := Option.some_inj.mp haddr
      exact holdsSockaddr_of_sockaddrIn hsock
  | inet6 port flowinfo addr6 scopeId =>
      obtain rfl : Address.inet6 addr6 = addr := Option.some_inj.mp haddr
      exact holdsSockaddr_of_sockaddrIn6 hsock
  | other family => cases haddr

/-- No RLOC of an addition has a nonce, so only a sockaddr that occurs twice is refused. -/
theorem firstRefused_eq_none (h : Supported rlocs) :
    firstRefused db [] (rlocs.map rlocRead) = none ↔ (rlocs.map MapEntry.rloc).Nodup := by
  have hnonce : ∀ r ∈ rlocs.map rlocRead,
      ¬(db ∧ r.rlocmtx.flags &&& rlocfTxnonce ≠ 0) ∧ r.rlocAddr ∉ ([] : List (List UInt8)) := by
    intro r hr
    obtain ⟨rl, -, rfl⟩ := List.mem_map.mp hr
    refine ⟨?_, List.not_mem_nil⟩
    rintro ⟨-, hbit⟩
    apply hbit
    cases hL : rl.L <;> cases hr : rl.r <;> simp only [rlocRead, hL, hr] <;> decide
  rw [firstRefused_eq_none_iff, and_iff_right hnonce, List.map_map]
  have hinj : ∀ ss ∈ rlocs.map MapEntry.rloc, ∀ ss' ∈ rlocs.map MapEntry.rloc,
      ss.toBytes.getD [] = ss'.toBytes.getD [] → ss = ss' := by
    intro ss hss ss' hss'
    obtain ⟨rl, hrl, rfl⟩ := List.mem_map.mp hss
    obtain ⟨rl', hrl', rfl⟩ := List.mem_map.mp hss'
    exact sockUnion_eq (h rl hrl) (h rl' hrl')
  have hmap : rlocs.map (Rloc.rlocAddr ∘ rlocRead) =
      (rlocs.map MapEntry.rloc).map fun ss => ss.toBytes.getD [] := by
    rw [List.map_map]
    rfl
  rw [hmap]
  exact ⟨List.Nodup.of_map _, List.Nodup.map_on hinj⟩

/-- The data plane takes the RLOCs of an addition if and only if their sockaddrs differ, and
then it takes all of them. -/
theorem mapSetrlocs_of_holds (h : Supported rlocs)
    (hbytes : Mem.Holds (mapmsg.advance cp) (rlocBytes rlocs)) (behind : ℕ → Mem) :
    ((rlocs.map MapEntry.rloc).Nodup →
      ∃ chain lsbits, mapSetrlocs behind mapmsg db rlocs.length cp 0 = .ok (chain, lsbits) ∧
        (chain.map Locator.rloc).Perm (rlocs.map rlocRead)) ∧
      ∀ result, mapSetrlocs behind mapmsg db rlocs.length cp 0 = .ok result →
        (rlocs.map MapEntry.rloc).Nodup := by
  have hreads := rlocsOf_of_holds h hbytes db
  have haddresses : ∀ r ∈ rlocsOf mapmsg db rlocs.length cp, ∃ addr, r.Holds addr := by
    intro r hr
    rw [hreads] at hr
    obtain ⟨rl, hrl, rfl⟩ := List.mem_map.mp hr
    obtain ⟨addr, haddr⟩ := Option.isSome_iff_exists.mp (h rl hrl)
    exact ⟨addr, holds_rlocRead haddr⟩
  obtain ⟨hall, hlost⟩ := mapSetrlocs_cases behind 0 haddresses
  rw [hreads] at hall hlost
  constructor
  · intro hnodup
    obtain ⟨chain, hchain, hperm, -⟩ := hall ((firstRefused_eq_none h).mpr hnodup)
    exact ⟨chain, _, hchain, hperm⟩
  · intro result hresult
    apply (firstRefused_eq_none h).mp
    cases hrefused : firstRefused db [] (rlocs.map rlocRead) with
    | none => rfl
    | some k =>
        obtain ⟨lost, herror, -⟩ := hlost k hrefused
        cases herror.symm.trans hresult

end Chain

/-! ## Delivery -/

section Delivery

variable {p : Prefix} {rlocs : List MapEntry} {mapmsg : Mem}

theorem sum_room_pos (hrlocs : Supported rlocs) (hne : rlocs ≠ []) :
    0 < (rlocs.map MapEntry.room).sum := by
  obtain ⟨rl, rest, rfl⟩ := List.exists_cons_of_ne_nil hne
  obtain ⟨addr, haddr⟩ := Option.isSome_iff_exists.mp (hrlocs rl List.mem_cons_self)
  rw [List.map_cons, List.sum_cons, room_of_address haddr, sizeofRlocMtx]
  omega

theorem length_le_sum_room (hrlocs : Supported rlocs)
    (hshort : messageSize p rlocs ≤ 255) : rlocs.length ≤ 255 := by
  have hone : ∀ room ∈ rlocs.map MapEntry.room, 1 ≤ room := by
    intro room hroom
    obtain ⟨rl, hrl, rfl⟩ := List.mem_map.mp hroom
    obtain ⟨addr, haddr⟩ := Option.isSome_iff_exists.mp (hrlocs rl hrl)
    rw [room_of_address haddr, sizeofRlocMtx]
    omega
  have hsum := List.length_le_sum_of_one_le _ hone
  rw [List.length_map] at hsum
  rw [messageSize] at hshort
  omega

/-- `map_xaddrs` finds the EID, the mask and the RLOCs of an addition. -/
theorem mapXaddrs_of_holds {mapinfo : MapAddrinfo} (hmask : p.HasMask)
    (hrlocs : Supported rlocs) (hne : rlocs ≠ [])
    (heid : HoldsSockaddr (mapmsg.advance sizeofMapMsghdr) p.addr)
    (hmasksock : HoldsSockaddr (mapmsg.advance (sizeofMapMsghdr + p.addr.room))
      (maskAddress p.prefixlen.toNat p.addr))
    (hrlocsmem : Mem.Holds (mapmsg.advance (sizeofMapMsghdr + p.room))
      (rlocBytes rlocs))
    (haddrs : mapinfo.mapiAddrs &&& mapaEid ≠ 0 ∧
      mapinfo.mapiAddrs &&& mapaEidmask ≠ 0 ∧
      mapinfo.mapiAddrs &&& mapaRloc ≠ 0)
    (hflags : mapinfo.mapiFlags &&& mapfNegative = 0)
    (hcount : mapinfo.mapiRlocCount.toNat = rlocs.length) :
    mapXaddrs mapmsg sizeofMapMsghdr (messageSize p rlocs) mapinfo =
      .ok { mapinfo with
        eid := some sizeofMapMsghdr
        eidmask := some (.inMessage (sizeofMapMsghdr + p.addr.room))
        rloc := some (sizeofMapMsghdr + p.room) } := by
  have hpos := sum_room_pos hrlocs hne
  have hroom : p.room = p.addr.room + p.addr.room := by
    rw [Prefix.room, if_pos hmask]
  have hroommask := room_maskAddress p.prefixlen.toNat p.addr
  have hsize : messageSize p rlocs =
      sizeofMapMsghdr + p.room + (rlocs.map MapEntry.room).sum := rfl
  have hfirst : mapXaddrsSockaddr mapmsg (messageSize p rlocs)
      sizeofMapMsghdr = _ := mapXaddrsSockaddr_of_holds heid (by omega)
  have hsecond : mapXaddrsSockaddr mapmsg (messageSize p rlocs)
      (sizeofMapMsghdr + p.addr.room) = _ :=
    mapXaddrsSockaddr_of_holds hmasksock (by omega)
  have hthird := mapXaddrsRlocs_of_holds hrlocs hrlocsmem hsize.ge
  rw [room_maskAddress, Nat.add_assoc, ← hroom] at hsecond
  rw [← hcount] at hthird
  have hlt1 : sizeofMapMsghdr < messageSize p rlocs := by omega
  have hlt2 : sizeofMapMsghdr + p.addr.room < messageSize p rlocs := by omega
  have hlt3 : sizeofMapMsghdr + p.room < messageSize p rlocs := by omega
  obtain ⟨h1, h2, h3⟩ := haddrs
  simp [mapXaddrs, hlt1, hlt2, hlt3, h1, h2, h3, hflags, hfirst, hsecond,
    hthird, bind, Except.bind, pure, Except.pure]

/-- The request the data plane builds from an addition. -/
def addRequest (header : MapMsghdr) (p : Prefix) : MapAddrinfo where
  mapiAddrs := header.mapAddrs
  eid := some sizeofMapMsghdr
  eidmask := some (.inMessage (sizeofMapMsghdr + p.addr.room))
  rloc := some (sizeofMapMsghdr + p.room)
  mapiRlocCount := header.mapRlocCount
  mapiFlags := header.mapFlags
  mapiVersioning := header.mapVersioning

/-- An addition with RLOCs names them, the EID and its mask. -/
theorem mapAddrs_addHeader (pid seq : UInt32) (db : Bool) (hmask : p.HasMask)
    (hne : rlocs ≠ []) :
    (addHeader pid seq p rlocs db).mapAddrs &&& mapaEid ≠ 0 ∧
      (addHeader pid seq p rlocs db).mapAddrs &&& mapaEidmask ≠ 0 ∧
      (addHeader pid seq p rlocs db).mapAddrs &&& mapaRloc ≠ 0 := by
  simp only [addHeader, if_neg hne, if_pos hmask]
  decide

/-- It is no negative mapping. -/
theorem mapFlags_addHeader (pid seq : UInt32) (p : Prefix) (db : Bool) (hne : rlocs ≠ []) :
    (addHeader pid seq p rlocs db).mapFlags &&& mapfNegative = 0 := by
  simp only [addHeader, if_neg hne]
  cases db <;> decide

/-- The header and the parts of an addition, in a memory that holds it. -/
theorem parts_of_holds {pid seq : UInt32} {db : Bool} (hmask : p.HasMask)
    (hbytes : Mem.Holds mapmsg ((addHeader pid seq p rlocs db).toBytes ++
      (p.sockaddrs ++ rlocBytes rlocs))) :
    MapMsghdr.ofMem mapmsg = addHeader pid seq p rlocs db ∧
      HoldsSockaddr (mapmsg.advance sizeofMapMsghdr) p.addr ∧
      HoldsSockaddr (mapmsg.advance (sizeofMapMsghdr + p.addr.room))
        (maskAddress p.prefixlen.toNat p.addr) ∧
      Mem.Holds (mapmsg.advance (sizeofMapMsghdr + p.room)) (rlocBytes rlocs) := by
  obtain ⟨hheader, hbody⟩ := Mem.holds_append.mp hbytes
  rw [MapMsghdr.length_toBytes] at hbody
  obtain ⟨heid, hmasksock⟩ := holds_sockaddrs hbody
  have hrlocsmem := (Mem.holds_append.mp hbody).2
  rw [length_sockaddrs, Mem.advance_advance] at hrlocsmem
  have hmasksock := holdsSockaddr_of_addressSockaddr (hmasksock hmask)
  rw [Mem.advance_advance] at hmasksock
  exact ⟨MapMsghdr.ofMem_of_holds hheader, holdsSockaddr_of_addressSockaddr heid, hmasksock,
    hrlocsmem⟩

theorem mapMsglen_addHeader (pid seq : UInt32) (db : Bool) (hshort : messageSize p rlocs ≤ 255) :
    (addHeader pid seq p rlocs db).mapMsglen.toNat = messageSize p rlocs :=
  UInt8.toNat_ofNat_of_lt' (by
    change _ < 256
    omega)

theorem mapRlocCount_addHeader (pid seq : UInt32) (db : Bool) (hrlocs : Supported rlocs)
    (hshort : messageSize p rlocs ≤ 255) :
    (addHeader pid seq p rlocs db).mapRlocCount.toNat = rlocs.length :=
  UInt32.toNat_ofNat_of_lt' (lt_of_le_of_lt (length_le_sum_room hrlocs hshort) (by decide))

theorem mapRlocCount_ne_zero {header : MapMsghdr} (hne : rlocs ≠ [])
    (hcount : header.mapRlocCount.toNat = rlocs.length) : header.mapRlocCount ≠ 0 := by
  intro hzero
  rw [hzero] at hcount
  exact hne (List.length_eq_zero_iff.mp hcount.symm)

/-- `map_output` builds the request of an addition that fits. -/
theorem mapOutput_of_holds {pid seq : UInt32} {db : Bool} (hmask : p.HasMask)
    (hrlocs : Supported rlocs) (hne : rlocs ≠ [])
    (hshort : messageSize p rlocs ≤ 255)
    (hbytes : Mem.Holds mapmsg ((addHeader pid seq p rlocs db).toBytes ++
      (p.sockaddrs ++ rlocBytes rlocs))) :
    mapOutput mapmsg (messageSize p rlocs) =
      .ok (addRequest (addHeader pid seq p rlocs db) p) := by
  obtain ⟨hread, heidsock, hmasksock, hrlocsmem⟩ := parts_of_holds hmask hbytes
  have haddrs := mapAddrs_addHeader pid seq db hmask hne
  have hflags := mapFlags_addHeader pid seq p db hne
  have hcount := mapRlocCount_addHeader pid seq db hrlocs hshort
  have hcount0 := mapRlocCount_ne_zero hne hcount
  have hlt : ¬ (messageSize p rlocs < sizeofMapMsghdr ∨
      messageSize p rlocs ≠ (addHeader pid seq p rlocs db).mapMsglen.toNat) := by
    rw [mapMsglen_addHeader pid seq db hshort, messageSize]
    omega
  simp only [mapOutput, hread, if_neg hlt]
  rw [mapXaddrs_of_holds hmask hrlocs hne heidsock hmasksock hrlocsmem haddrs
    hflags hcount]
  have hversion : ¬ (addHeader pid seq p rlocs db).mapVersion ≠ mapmVersion :=
    not_not_intro rfl
  rw [if_neg hversion]
  simp [bind, Except.bind, defaultMask, addRequest, hcount0, hflags]

/-- `maprequest` accepts this request, and goes on to the RLOCs. -/
theorem maprequestAdd_addRequest (pid seq : UInt32) (db : Bool) (hrlocs : Supported rlocs)
    (hne : rlocs ≠ []) (hshort : messageSize p rlocs ≤ 255) (behind : ℕ → Mem) :
    maprequestAdd behind mapmsg (addRequest (addHeader pid seq p rlocs db) p) =
      (mapSetrlocs behind mapmsg ((addHeader pid seq p rlocs db).mapFlags &&& mapfDb ≠ 0)
        rlocs.length (sizeofMapMsghdr + p.room) 0).mapError Prod.fst := by
  have hflags := mapFlags_addHeader pid seq p db hne
  have hcount := mapRlocCount_addHeader pid seq db hrlocs hshort
  have hcount0 := mapRlocCount_ne_zero hne hcount
  have hall : ¬(addHeader pid seq p rlocs db).mapFlags &&& mapfAll ≠ 0 := by
    simp only [addHeader, if_neg hne]
    cases db <;> decide
  have hchecks : ¬(some sizeofMapMsghdr = none ∨
      (¬(addHeader pid seq p rlocs db).mapFlags &&& mapfNegative ≠ 0 ∧
        (some (sizeofMapMsghdr + p.room) = none ∨
          (addHeader pid seq p rlocs db).mapRlocCount = 0)) ∨
      ((addHeader pid seq p rlocs db).mapFlags &&& mapfNegative ≠ 0 ∧
        (some (sizeofMapMsghdr + p.room) ≠ none ∨
          (addHeader pid seq p rlocs db).mapRlocCount ≠ 0))) := by
    simp [hflags, hcount0]
  rw [← hcount]
  exact (if_neg hall).trans (if_neg hchecks)

/-- The data plane recovers an addition that fits, if and only if its sockaddrs differ. -/
theorem recovers_iff_of_holds {pid seq : UInt32} {db : Bool} (hmask : p.HasMask)
    (hrlocs : Supported rlocs) (hne : rlocs ≠ [])
    (hshort : messageSize p rlocs ≤ 255)
    (hbytes : Mem.Holds mapmsg ((addHeader pid seq p rlocs db).toBytes ++
      (p.sockaddrs ++ rlocBytes rlocs))) :
    Recovers p rlocs mapmsg (messageSize p rlocs) ↔ (rlocs.map MapEntry.rloc).Nodup := by
  obtain ⟨-, heidsock, hmasksock, hrlocsmem⟩ := parts_of_holds hmask hbytes
  have houtput := mapOutput_of_holds hmask hrlocs hne hshort hbytes
  have hrequest := @maprequestAdd_addRequest p rlocs mapmsg pid seq db hrlocs hne hshort
  have hset (behind) := @mapSetrlocs_of_holds _ _
    ((addHeader pid seq p rlocs db).mapFlags &&& mapfDb ≠ 0) _ hrlocs hrlocsmem behind
  constructor
  · rintro ⟨info, eid, mask, hinfo, -, -, -, -, -, hchain⟩
    obtain rfl := Except.ok.inj (houtput.symm.trans hinfo)
    obtain ⟨chain, lsbits, hok, -⟩ := hchain fun _ _ => 0
    rw [hrequest] at hok
    cases hresult : mapSetrlocs (fun _ _ => 0) mapmsg
        ((addHeader pid seq p rlocs db).mapFlags &&& mapfDb ≠ 0) rlocs.length
        (sizeofMapMsghdr + p.room) 0 with
    | ok result => exact (hset _).2 result hresult
    | error e =>
        rw [hresult] at hok
        cases hok
  · intro hnodup
    refine ⟨addRequest (addHeader pid seq p rlocs db) p, sizeofMapMsghdr,
      sizeofMapMsghdr + p.addr.room, houtput, rfl, rfl,
      mapRlocCount_addHeader pid seq db hrlocs hshort, heidsock.address,
      ⟨_, hmasksock.address, ?_, isMask_maskAddress _ _⟩, fun behind => ?_⟩
    · cases p.addr <;> rfl
    · obtain ⟨chain, lsbits, hok, hperm⟩ := (hset behind).1 hnodup
      refine ⟨chain, lsbits, ?_, ?_⟩
      · rw [hrequest, hok]
        rfl
      · have hread : ∀ rl ∈ rlocs, (rlocRead rl).address = rl.rloc.address := by
          intro rl hrl
          obtain ⟨addr, haddr⟩ := Option.isSome_iff_exists.mp (hrlocs rl hrl)
          rw [haddr]
          exact (holds_rlocRead haddr).address_eq
        have hmetrics := hperm.map fun r : Rloc =>
          (r.address, r.rlocmtx.priority, r.rlocmtx.weight)
        rw [List.map_map, List.map_map] at hmetrics
        refine hmetrics.trans (List.Perm.of_eq (List.map_congr_left fun rl hrl => ?_))
        change ((rlocRead rl).address, rl.priority, rl.weight) = _
        rw [hread rl hrl]

/-- An addition with RLOCs is delivered exactly when header, EID, mask and all
RLOC entries fit in 255 bytes and no sockaddr of an RLOC occurs twice. -/
theorem oplAdd_delivers_iff (pid seq : UInt32) (petr : Option (List MapEntry))
    (db : Bool) (hmask : p.HasMask) (hrlocs : Supported rlocs)
    (hne : rlocs ≠ []) :
    (∃ bytes, oplAdd pid seq petr p rlocs db = .ok bytes ∧
        Delivers p rlocs bytes) ↔
      messageSize p rlocs ≤ 255 ∧ (rlocs.map MapEntry.rloc).Nodup := by
  have hadv : advertised petr rlocs = rlocs := if_pos hne
  have hlen := length_addMessage pid seq p db hrlocs
  rw [MapMessage.toBytes] at hlen
  have hadd (hshort : messageSize p rlocs ≤ 255) :=
    oplAdd_eq pid seq petr p db (fun h => absurd h hne) (by rw [hadv]; exact hrlocs)
      (by rw [hadv]; exact hshort)
  rw [hadv] at hadd
  constructor
  · rintro ⟨bytes, hbytes, hsize, hread⟩
    have hshort : messageSize p rlocs ≤ 255 := by
      rw [← hsize]
      exact length_oplAdd_le hbytes
    obtain rfl := Except.ok.inj ((hadd hshort).symm.trans hbytes)
    have hholds := Mem.holds_ofList (MapMessage.toBytes
      ⟨addHeader pid seq p rlocs db, p.sockaddrs ++ rlocBytes rlocs⟩) fun _ => 0
    have hrecovers := (hread _ hholds).2
    rw [hsize] at hrecovers
    exact ⟨hshort, (recovers_iff_of_holds hmask hrlocs hne hshort hholds).mp hrecovers⟩
  · rintro ⟨hshort, hnodup⟩
    refine ⟨_, hadd hshort, hlen, fun mapmsg hmem => ?_⟩
    rw [hlen, (parts_of_holds hmask hmem).1, mapMsglen_addHeader pid seq db hshort]
    exact ⟨rfl, (recovers_iff_of_holds hmask hrlocs hne hshort hmem).mpr hnodup⟩

/-- An IPv4 locator with priority 1 and weight 100. -/
def locator (last : UInt8) : MapEntry :=
  ⟨.inet #v[0, 0] #v[192, 0, 2, last] (zeros 8), 1, 100, true, true⟩

theorem oplAdd_delivers_two :
    ∃ bytes, oplAdd 1 1 none ⟨.inet #v[10, 0, 0, 0], 8⟩ [locator 2, locator 1] true =
        .ok bytes ∧
      Delivers ⟨.inet #v[10, 0, 0, 0], 8⟩ [locator 2, locator 1] bytes :=
  (oplAdd_delivers_iff 1 1 none true (by decide)
    (by simp [Supported, locator, SockUnion.address]) (by decide)).mpr
    ⟨by decide, by decide⟩

/-- Seven IPv4 locators take 284 bytes: the length wraps around to 28. -/
theorem oplAdd_not_delivers_seven :
    ¬ ∃ bytes, oplAdd 1 1 none ⟨.inet #v[10, 0, 0, 0], 8⟩
        ([1, 2, 3, 4, 5, 6, 7].map locator) true = .ok bytes ∧
      Delivers ⟨.inet #v[10, 0, 0, 0], 8⟩
        ([1, 2, 3, 4, 5, 6, 7].map locator) bytes := by
  rintro ⟨bytes, hadd, hlen, -⟩
  have hle := length_oplAdd_le hadd
  rw [hlen] at hle
  exact absurd hle (by decide)

end Delivery

end HyLisp.Interop
