import HyLisp.ControlPlane.LocatorOrder
import HyLisp.ControlPlane.RecordWriter
import HyLisp.ControlPlane.RequestProcessing

/-!
# Writing the locators of a Map-Reply

With LISP-TE a locator that has paths is written once for each of them, and the RLOC
itself is the last hop.  It is copied from `sin_addr` on in both families.  The probe
bit is that of the address the request was sent to.
-/

namespace HyLisp.ControlPlane

open DataPlane

/-- `sockunioncmp` returns zero. -/
def sameSockUnion (m n : SockUnion) : Bool :=
  match m.address, n.address with
  | some addr, some addr' => decide (addr = addr')
  | _, _ => false

/-- The last hop of a path: what is copied of a locator. -/
def lastHop (rloc : SockUnion) : Option Address :=
  match rloc with
  | .inet _ addr _ => some (.inet addr)
  | .inet6 .. => some (.inet6 (rloc.sinAddr.bytes 0 16))
  | .other _ => none

/-- A locator as it is written: the probe bit is no longer its own.  `di` is the address
the request was sent to. -/
def probedEntry (rlocProbe : Bool) (di : SockUnion) (e : ReplyEntry) : ReplyEntry :=
  { e with p := rlocProbe && sameSockUnion e.rloc di }

/-- What is written for a path of a locator. -/
def replyPath (rlocProbe : Bool) (di : SockUnion) (e : ReplyEntry) (pe : PeEntry) :
    Option (List UInt8) :=
  (lastHop e.rloc).map fun addr => pathLocatorBytes (probedEntry rlocProbe di e) addr pe

/-- What is written for a locator without its paths. -/
def replyPlain (rlocProbe : Bool) (di : SockUnion) (e : ReplyEntry) : Option (List UInt8) :=
  e.rloc.address.map fun addr => plainLocatorBytes (probedEntry rlocProbe di e) addr

/-- Paths are counted and written. -/
def Functions.writesPaths (fncs : Functions) (lispTe : Bool) : Bool :=
  (fncs.xtr || fncs.ms) && lispTe

/-- The locators that `udp_reply_add_locator` writes.  For another family than IPv4 and
IPv6 an assertion fails. -/
def replyLocators (fncs : Functions) (lispTe rlocProbe : Bool) (di : SockUnion)
    (e : RegisterEntry) : Option (List (List UInt8)) :=
  match e.pe with
  | some pes =>
      if fncs.writesPaths lispTe then pes.mapM (replyPath rlocProbe di e.toReplyEntry)
      else (replyPlain rlocProbe di e.toReplyEntry).map fun bytes => [bytes]
  | none => (replyPlain rlocProbe di e.toReplyEntry).map fun bytes => [bytes]

/-- `udp_reply_add_locator` -/
def udpReplyAddLocator (fncs : Functions) (lispTe : Bool) (di : SockUnion)
    (rpk : RplEntry) (e : RegisterEntry) : Option RplEntry :=
  (replyLocators fncs lispTe rpk.rlocProbe di e).map fun locators =>
    { rpk with body := rpk.body ++ locators.flatten }

/-! ## The last hop -/

/-- The address is that of IPv4, or the unspecified one of IPv6. -/
def KeepsBytes : Address → Prop
  | .inet _ => True
  | .inet6 addr => addr = zeros 16

section LastHop

/-- Of an IPv6 address that was read, the last hop has four zeros and twelve bytes. -/
theorem getElem_sinAddr_bytes (addr : Vector UInt8 16) {i : ℕ} (hi : i < 16) :
    ((addressSockUnion (.inet6 addr)).sinAddr.bytes 0 16)[i] =
      if i < 4 then 0 else addr[i - 4] := by
  rw [Mem.getElem_bytes, Nat.zero_add, addressSockUnion, SockUnion.sinAddr, Mem.ofList,
    dif_pos (by simp; omega), List.getElem_append_left (by simp; omega)]
  split
  next hflow =>
    rw [List.getElem_append_left (by simpa using hflow), Vector.getElem_toList, zeros,
      Vector.getElem_replicate]
  next hflow =>
    rw [List.getElem_append_right (by simpa using hflow)]
    simp

/-- Such an address is its own last hop if it is all zero. -/
theorem sinAddr_bytes_eq_iff (addr : Vector UInt8 16) :
    (addressSockUnion (.inet6 addr)).sinAddr.bytes 0 16 = addr ↔ addr = zeros 16 := by
  constructor
  · intro h
    have hzero : ∀ i (hi : i < 16), addr[i] = 0 := by
      intro i
      -- each byte is the one four places before it
      induction i using Nat.strong_induction_on with
      | h i ih =>
          intro hi
          have hbyte := getElem_sinAddr_bytes addr hi
          rw [Vector.ext_iff.mp h i hi] at hbyte
          rw [hbyte]
          split
          · rfl
          · exact ih (i - 4) (by omega) (by omega)
    ext i hi
    rw [hzero i hi]
    simp [zeros]
  · rintro rfl
    ext i hi
    rw [getElem_sinAddr_bytes]
    simp [zeros]

/-- A last hop that was read is written as it is exactly for these addresses. -/
theorem lastHop_eq_iff (addr : Address) :
    lastHop (addressSockUnion addr) = some addr ↔ KeepsBytes addr := by
  cases addr with
  | inet addr => exact iff_of_true rfl trivial
  | inet6 addr =>
      rw [KeepsBytes, ← sinAddr_bytes_eq_iff, addressSockUnion, lastHop, Option.some_inj,
        Address.inet6.injEq]

/-- The last hop that is written has the family of the address. -/
theorem exists_lastHop {rloc : SockUnion} {addr : Address} (h : rloc.address = some addr) :
    ∃ a, lastHop rloc = some a ∧ hopSize a = hopSize addr := by
  cases rloc with
  | inet port addr zero =>
      obtain rfl := Option.some_inj.mp h
      exact ⟨_, rfl, rfl⟩
  | inet6 port flowinfo addr scopeId =>
      obtain rfl := Option.some_inj.mp h
      exact ⟨_, rfl, rfl⟩
  | other family => cases h

end LastHop

/-! ## Paths and plain locators -/

section Locators

variable {fncs : Functions} {lispTe rlocProbe : Bool} {di : SockUnion} {e : RegisterEntry}

/-- A locator is written once for each of its paths. -/
theorem replyLocators_of_paths {pes : List PeEntry} {a : Address}
    (hpaths : fncs.writesPaths lispTe = true) (hpes : e.pe = some pes)
    (hlast : lastHop e.rloc = some a) :
    replyLocators fncs lispTe rlocProbe di e =
      some (pes.map (pathLocatorBytes (probedEntry rlocProbe di e.toReplyEntry) a)) := by
  have hpath : replyPath rlocProbe di e.toReplyEntry =
      fun pe => some (pathLocatorBytes (probedEntry rlocProbe di e.toReplyEntry) a pe) := by
    funext pe
    rw [replyPath, hlast, Option.map_some]
  rw [replyLocators, hpes]
  dsimp only
  rw [if_pos hpaths, hpath]
  exact List.mapM_pure

/-- Otherwise it is written once. -/
theorem replyLocators_of_plain (h : fncs.writesPaths lispTe = true → e.pe = none) :
    replyLocators fncs lispTe rlocProbe di e =
      (replyPlain rlocProbe di e.toReplyEntry).map fun bytes => [bytes] := by
  unfold replyLocators
  split
  next pes hpes =>
    have hpaths : ¬fncs.writesPaths lispTe = true := by
      intro hpaths
      rw [h hpaths] at hpes
      cases hpes
    rw [if_neg hpaths]
  · rfl

end Locators

end HyLisp.ControlPlane
