import HyLisp.Hypervisor.Demux

/-!
# Nested encapsulations

A control message can travel behind any number of headers of encapsulations,
each with an IP header of its own version and length.  The parser strips them one
by one and ends up with the EID of the message itself.
-/

namespace HyLisp.Hypervisor

/-- A header of an encapsulation: four bytes of LISP, an IP header and a UDP
header.  The length of an IPv4 header is the one its IHL names, even when that is
zero. -/
structure EcmHeader where
  typeFlags : UInt8
  reserved : Vector UInt8 3
  ipVersion : UInt8
  rest : List UInt8
  lispType : typeFlags >>> 4 = 8
  layout : ipVersion >>> 4 = 4 ∧
      5 + rest.length = 4 + 4 * (ipVersion &&& 0x0F).toNat + 8 ∨
    ipVersion >>> 4 = 6 ∧ 5 + rest.length = 4 + 40 + 8

/-- The header as it lies in a datagram. -/
def EcmHeader.toBytes (header : EcmHeader) : List UInt8 :=
  header.typeFlags :: (header.reserved.toList ++ header.ipVersion :: header.rest)

/-- The headers in front of a message, the outermost first. -/
def nestedBytes (headers : List EcmHeader) : List UInt8 :=
  headers.flatMap EcmHeader.toBytes

theorem EcmHeader.length_toBytes (header : EcmHeader) :
    header.toBytes.length = 5 + header.rest.length := by
  simp only [toBytes, List.length_cons, List.length_append, Vector.length_toList]
  omega

/-- A header in front of a message that is not empty is an encapsulation of it. -/
theorem EcmHeader.encapsulates {header : EcmHeader} {datagram : Mem} {len : ℕ}
    (h : Mem.Holds datagram header.toBytes) (hlen : 0 < len) :
    Encapsulates (datagram, header.toBytes.length + len)
      (datagram.advance header.toBytes.length, len) := by
  have htype : packetType datagram = 8 := by
    rw [packetType, h 0 (by simp [toBytes])]
    exact header.lispType
  have hversion : datagram 4 = header.ipVersion := by
    rw [h 4 (by rw [length_toBytes]; omega)]
    simp [toBytes]
  rcases header.layout with ⟨h4, hrest⟩ | ⟨h6, hrest⟩
  · have hihl : header.toBytes.length =
        4 + 4 * (datagram 4 &&& 0x0F).toNat + 8 := by
      rw [length_toBytes, hversion, hrest]
    have hstep := @Encapsulates.ipv4 datagram (header.toBytes.length + len) _
      htype (by rw [hversion, h4]) rfl (by omega)
    rwa [← hihl, Nat.add_sub_cancel_left] at hstep
  · have hsize : header.toBytes.length = 4 + 40 + 8 := by
      rw [length_toBytes, hrest]
    have hstep := @Encapsulates.ipv6 datagram (header.toBytes.length + len)
      htype (by rw [hversion, h6]) (by omega)
    rwa [← hsize, Nat.add_sub_cancel_left] at hstep

/-- All headers are stripped in turn. -/
theorem stripped_of_holds {headers : List EcmHeader} {datagram : Mem} {len : ℕ}
    (h : Mem.Holds datagram (nestedBytes headers)) (hlen : 0 < len) :
    Relation.ReflTransGen Encapsulates
      (datagram, (nestedBytes headers).length + len)
      (datagram.advance (nestedBytes headers).length, len) := by
  induction headers generalizing datagram with
  | nil =>
      simp only [nestedBytes, List.flatMap_nil, List.length_nil, Nat.zero_add,
        Mem.advance_zero]
      exact Relation.ReflTransGen.refl
  | cons header rest ih =>
      have hbytes : nestedBytes (header :: rest) =
          header.toBytes ++ nestedBytes rest := List.flatMap_cons
      rw [hbytes] at h ⊢
      obtain ⟨hhead, hrest⟩ := Mem.holds_append.mp h
      have houter := header.encapsulates hhead
        (Nat.add_pos_right (nestedBytes rest).length hlen)
      have hinner := ih hrest
      rw [Mem.advance_advance] at hinner
      rw [List.length_append, Nat.add_assoc]
      exact hinner.head houter

/-- The EID of a message behind any number of headers is the one of the message
itself. -/
theorem extractEidCp_nested (headers : List EcmHeader) (message : Mem) (len : ℕ)
    (hlen : 0 < len) :
    extractEidCp (Mem.ofList (nestedBytes headers) message)
        ((nestedBytes headers).length + len) =
      extractEidCp message len := by
  have hstripped := extractEidCp_of_stripped
    (stripped_of_holds (Mem.holds_ofList (nestedBytes headers) message) hlen)
  rwa [Mem.advance_ofList] at hstripped

/-- An IPv4 header that claims a length of zero, and an IPv6 one. -/
def shortestThenIpv6 : List EcmHeader :=
  [⟨0x80, #v[0, 0, 0], 0x40, List.replicate 7 0, rfl, .inl ⟨rfl, rfl⟩⟩,
    ⟨0x88, #v[0, 0, 0], 0x60, List.replicate 47 0, rfl, .inr ⟨rfl, rfl⟩⟩]

theorem extractEidCp_nested_notify :
    0 < 1 ∧ extractEidCp (Mem.ofList (nestedBytes shortestThenIpv6) fun _ => 0x40) 65 =
      extractEidCp (fun _ => 0x40) 1 :=
  ⟨Nat.one_pos, extractEidCp_nested shortestThenIpv6 (fun _ => 0x40) 1 Nat.one_pos⟩

end HyLisp.Hypervisor
