import HyLisp.ControlPlane.MapMessages
import HyLisp.Hypervisor.ParseMessage
import HyLisp.Interop.HvPrefix

/-!
# The EID of a map message, from the control plane to the hypervisor

The control plane writes an EID prefix as a sockaddr and, for a prefix that is
neither empty nor a host, a mask.  The hypervisor turns the mask back into a
length and takes a missing mask for a host.  The two agree on every prefix but
the empty one.
-/

namespace HyLisp.Interop

open ControlPlane DataPlane Hypervisor

/-! ## Masks -/

theorem oplMaskByte_whole {masklen i : ℕ} (hi : i < masklen / 8) :
    oplMaskByte masklen i = 0xFF := by
  rw [oplMaskByte, if_pos hi]

theorem oplMaskByte_last (masklen : ℕ) :
    oplMaskByte masklen (masklen / 8) = lastMaskByte (masklen % 8) := by
  rw [oplMaskByte, if_neg (lt_irrefl _), lastMaskByte]
  by_cases hzero : masklen % 8 = 0
  · rw [if_neg (by simp [hzero]), if_pos hzero]
  · rw [if_pos ⟨rfl, hzero⟩, if_neg hzero]

/-- The hypervisor reads the length the control plane made the mask of. -/
theorem maskToLength_oplMask {mask : Mem} {masklen n : ℕ} (base : ℕ)
    (hmask : ∀ i < n, mask i = oplMaskByte masklen i) (hlt : masklen < 8 * n) :
    maskToLength mask base 0 n = base + masklen := by
  have hq : masklen / 8 < n := by omega
  rw [maskToLength_eq (q := masklen / 8) (r := masklen % 8) (by omega)
    (fun i hi => (hmask i (by omega)).trans (oplMaskByte_whole hi))
    ((hmask _ hq).trans (oplMaskByte_last masklen)) (Nat.zero_le _) (by omega)]
  omega

/-! ## Reading a message back -/

section ReadBack

variable {buf : Mem} {header : MapMsghdr} {p : Prefix} {rest : List UInt8}

theorem ofNat_add_prefixlen (prefixlen : UInt8) (base : ℕ) :
    UInt8.ofNat (base + prefixlen.toNat) = prefixlen + .ofNat base := by
  rw [UInt8.ofNat_add, UInt8.ofNat_toNat, UInt8.add_comm]

/-- Bytes that are given by a function stand at their places. -/
theorem apply_of_bytes_ofFn {m : Mem} {k n : ℕ} {f : ℕ → UInt8}
    (h : m.bytes k n = Vector.ofFn fun i => f i) : ∀ i < n, m.advance k i = f i := by
  intro i hi
  rw [Mem.advance_apply, ← Mem.getElem_bytes m k n hi, h, Vector.getElem_ofFn]

theorem processEid_of_holds
    (hbuf : Mem.Holds buf (p.sockaddrs ++ rest)) (hmask : Bool)
    (hiff : hmask = true ↔ p.HasMask) :
    (if buf 1 = afInet then processEidIpv4 buf hmask
      else if buf 1 = afInet6 then processEidIpv6 buf hmask
      else getUndefinedEid .uprfxUnknIp) =
      ⟨hvAddress p.addr,
        if p.HasMask then p.prefixlen + hvOffset p.addr else 128,
        .prfxAsis⟩ := by
  obtain ⟨hsock, hmasksock⟩ := holds_sockaddrs hbuf
  obtain ⟨addr, prefixlen⟩ := p
  cases addr with
  | inet addr =>
      obtain ⟨h0, h1, haddr⟩ := fields_of_holds_sockaddrIn hsock
      rw [if_pos h1, processEidIpv4, haddr]
      cases hmask with
      | false =>
          rw [if_neg fun h => Bool.false_ne_true (hiff.mpr h)]
          rfl
      | true =>
          have hhas := hiff.mp rfl
          obtain ⟨-, -, hbytes⟩ :=
            fields_of_holds_sockaddrIn (hmasksock hhas)
          have hread : ∀ i < 4, ((buf.advance 16).advance 4) i =
              oplMaskByte prefixlen.toNat i := apply_of_bytes_ofFn hbytes
          have hlen := maskToLength_oplMask 96 hread hhas.2
          simp only [h0, if_pos hhas, if_true, ssSize_sockaddrIn, hlen]
          exact congrArg (Ipv6Prefix.mk _ · _) (ofNat_add_prefixlen _ 96)
  | inet6 addr =>
      obtain ⟨h0, h1, haddr⟩ := fields_of_holds_sockaddrIn6 hsock
      have hne : ¬ buf 1 = afInet := by
        rw [h1]
        decide
      rw [if_neg hne, if_pos h1, processEidIpv6, haddr]
      cases hmask with
      | false =>
          rw [if_neg fun h => Bool.false_ne_true (hiff.mpr h)]
          rfl
      | true =>
          have hhas := hiff.mp rfl
          obtain ⟨-, -, hbytes⟩ :=
            fields_of_holds_sockaddrIn6 (hmasksock hhas)
          have hread : ∀ i < 16, ((buf.advance 32).advance 8) i =
              oplMaskByte prefixlen.toNat i := apply_of_bytes_ofFn hbytes
          have hlen := maskToLength_oplMask 0 hread hhas.2
          simp only [h0, if_pos hhas, if_true, ssSize_sockaddrIn6, hlen]
          exact congrArg (Ipv6Prefix.mk _ · _) (ofNat_add_prefixlen _ 0)

/-- The EID the hypervisor reads from a message of the control plane. -/
theorem extractEidMm_of_holds
    (hbuf : Mem.Holds buf (header.toBytes ++ (p.sockaddrs ++ rest)))
    (htype : header.mapType = mapmAdd ∨ header.mapType = mapmDelete)
    (hversioning : header.mapVersioning = 0)
    (heid : header.mapAddrs &&& mapaEid ≠ 0)
    (hmask : header.mapAddrs &&& mapaEidmask ≠ 0 ↔ p.HasMask) :
    extractEidMm buf =
      ⟨hvAddress p.addr,
        if p.HasMask then p.prefixlen + hvOffset p.addr else 128,
        .prfxAsis⟩ := by
  obtain ⟨hheader, hrest⟩ := Mem.holds_append.mp hbuf
  have hread := MapMsghdr.ofMem_of_holds hheader
  rw [MapMsghdr.length_toBytes] at hrest
  simp only [extractEidMm, extractEidMmAddDelete, hread, hversioning, ne_eq,
    not_true_eq_false, if_false, if_pos htype, if_neg heid]
  exact processEid_of_holds hrest _ (by simpa using hmask)

end ReadBack

/-! ## The round trip -/

/-- A prefix is read back exactly when it is not empty. -/
theorem readBack_eq_iff {p : Prefix} (hlen : p.prefixlen.toNat ≤ p.addr.width) :
    (⟨hvAddress p.addr,
        if p.HasMask then p.prefixlen + hvOffset p.addr else 128,
        .prfxAsis⟩ : Ipv6Prefix) = hvPrefix p ↔ p.prefixlen ≠ 0 := by
  rw [hvPrefix, Ipv6Prefix.mk.injEq]
  simp only [true_and, and_true]
  by_cases hmask : p.HasMask
  · rw [if_pos hmask]
    refine iff_of_true rfl fun hzero => ?_
    have hpos := hmask.1
    rw [hzero] at hpos
    exact absurd hpos (by decide)
  · rw [if_neg hmask]
    have hends : p.prefixlen.toNat = 0 ∨ p.prefixlen.toNat = p.addr.width := by
      unfold Prefix.HasMask at hmask
      omega
    rcases hends with hzero | hfull
    · have hzero' : p.prefixlen = 0 := UInt8.toNat_inj.mp hzero
      rw [hzero']
      refine iff_of_false ?_ fun h => h rfl
      cases p.addr with
      | inet addr => exact (by decide : (128 : UInt8) ≠ 0 + 96)
      | inet6 addr => exact (by decide : (128 : UInt8) ≠ 0 + 0)
    · obtain ⟨addr, prefixlen⟩ := p
      cases addr with
      | inet addr =>
          obtain rfl : prefixlen = 32 := UInt8.toNat_inj.mp hfull
          exact iff_of_true (by decide : (128 : UInt8) = 32 + 96)
            (by decide : (32 : UInt8) ≠ 0)
      | inet6 addr =>
          obtain rfl : prefixlen = 128 := UInt8.toNat_inj.mp hfull
          exact iff_of_true (by decide : (128 : UInt8) = 128 + 0)
            (by decide : (128 : UInt8) ≠ 0)

/-- What the round trip promises: the message is written, and the hypervisor
reads the prefix back from any buffer that holds it. -/
def RoundTrips (p : Prefix) (written : Except OplError (List UInt8)) : Prop :=
  ∃ bytes, written = .ok bytes ∧
    ∀ buf, Mem.Holds buf bytes → extractEidMm buf = hvPrefix p

theorem roundTrips_iff_of_read {p : Prefix} {bytes : List UInt8}
    (hread : ∀ buf, Mem.Holds buf bytes →
      extractEidMm buf =
        ⟨hvAddress p.addr,
          if p.HasMask then p.prefixlen + hvOffset p.addr else 128,
          .prfxAsis⟩)
    (hlen : p.prefixlen.toNat ≤ p.addr.width) :
    RoundTrips p (.ok bytes) ↔ p.prefixlen ≠ 0 := by
  rw [← readBack_eq_iff hlen]
  constructor
  · rintro ⟨bytes', hbytes, hback⟩
    obtain rfl := Except.ok.inj hbytes
    have hbuf := Mem.holds_ofList bytes fun _ => 0
    rw [← hread _ hbuf, hback _ hbuf]
  · intro heq
    exact ⟨bytes, rfl, fun buf hbuf => (hread buf hbuf).trans heq⟩

theorem oplAdd_roundTrips_iff (pid seq : UInt32)
    {petr : Option (List MapEntry)} {p : Prefix} {info : List MapEntry}
    (db : Bool) (hlen : p.prefixlen.toNat ≤ p.addr.width)
    (hpetr : info = [] → petr ≠ some [])
    (hrlocs : Supported (advertised petr info))
    (hshort : messageSize p (advertised petr info) ≤ 255) :
    RoundTrips p (oplAdd pid seq petr p info db) ↔ p.prefixlen ≠ 0 := by
  rw [oplAdd_eq pid seq petr p db hpetr hrlocs hshort]
  refine roundTrips_iff_of_read (fun buf hbuf => ?_) hlen
  refine extractEidMm_of_holds hbuf (Or.inl rfl) rfl ?_ ?_
  · simp only [addHeader]
    split <;> split <;> decide
  · simp only [addHeader]
    split <;> split <;> simp_all <;> decide

theorem oplDel_roundTrips_iff (pid seq : UInt32) {p : Prefix} (db : Bool)
    (hlen : p.prefixlen.toNat ≤ p.addr.width) :
    RoundTrips p (oplDel pid seq p db) ↔ p.prefixlen ≠ 0 := by
  rw [oplDel_eq]
  refine roundTrips_iff_of_read (fun buf hbuf => ?_) hlen
  rw [← List.append_nil p.sockaddrs] at hbuf
  refine extractEidMm_of_holds hbuf (Or.inr rfl) rfl ?_ ?_
  · simp only [delHeader]
    split <;> decide
  · simp only [delHeader]
    split <;> simp_all <;> decide

/-- Additions and deletions carry a prefix to the hypervisor exactly when it is
not the empty prefix. -/
theorem eid_roundTrips_iff (pid seq : UInt32) {petr : Option (List MapEntry)}
    {p : Prefix} {info : List MapEntry} (db : Bool)
    (hlen : p.prefixlen.toNat ≤ p.addr.width)
    (hpetr : info = [] → petr ≠ some [])
    (hrlocs : Supported (advertised petr info))
    (hshort : messageSize p (advertised petr info) ≤ 255) :
    RoundTrips p (oplAdd pid seq petr p info db) ∧
        RoundTrips p (oplDel pid seq p db) ↔ p.prefixlen ≠ 0 := by
  rw [oplAdd_roundTrips_iff pid seq db hlen hpetr hrlocs hshort,
    oplDel_roundTrips_iff pid seq db hlen, and_self_iff]

/-- `10.0.0.0/8` with one IPv4 locator makes the round trip. -/
theorem eid_roundTrips_ten :
    RoundTrips ⟨.inet #v[10, 0, 0, 0], 8⟩
        (oplAdd 1 1 none ⟨.inet #v[10, 0, 0, 0], 8⟩
          [⟨.inet #v[0, 0] #v[192, 0, 2, 1] (zeros 8), 1, 100, true, true⟩]
          true) ∧
      RoundTrips ⟨.inet #v[10, 0, 0, 0], 8⟩
        (oplDel 1 1 ⟨.inet #v[10, 0, 0, 0], 8⟩ true) :=
  (eid_roundTrips_iff 1 1 true (by decide) (by decide)
    (by simp [Supported, advertised, SockUnion.address]) (by decide)).mpr
    (by decide)

/-- The default prefix `0.0.0.0/0` is sent without a mask, and read back as a
host. -/
theorem eid_not_roundTrips :
    ¬ ∀ (pid seq : UInt32) (petr : Option (List MapEntry)) (p : Prefix)
      (info : List MapEntry) (db : Bool),
      p.prefixlen.toNat ≤ p.addr.width → (info = [] → petr ≠ some []) →
        Supported (advertised petr info) →
        messageSize p (advertised petr info) ≤ 255 →
        RoundTrips p (oplAdd pid seq petr p info db) ∧
          RoundTrips p (oplDel pid seq p db) := by
  intro h
  have hdel := (h 1 1 none ⟨.inet #v[0, 0, 0, 0], 0⟩ [] true (by decide)
    (by decide) (by simp [Supported, advertised]) (by decide)).2
  exact absurd rfl ((oplDel_roundTrips_iff 1 1 true (by decide)).mp hdel)

end HyLisp.Interop
