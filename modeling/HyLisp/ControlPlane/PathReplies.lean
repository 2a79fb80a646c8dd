import HyLisp.ControlPlane.HopChoice
import HyLisp.ControlPlane.ReplyWriter

/-!
# Paths from a Map-Register to a Map-Reply

A Map-Server with LISP-TE that answers for a site keeps the paths of its locators: the
hops before the last one, below the entry of the last.  A Map-Reply puts them together
again.  Entries with one address are merged, and keep all their paths.
-/

namespace HyLisp.ControlPlane

open DataPlane

/-! ## Paths with their flags -/

/-- The hops from a position on have the flags of those of a list. -/
def FlagsAt (lcaf : Mem) : ℕ → List HopEntry → Prop
  | _, [] => True
  | hop, he :: rest =>
      hopEntry (lcaf.advance hop) he.addr = he ∧ FlagsAt lcaf (hop + hopSize he.addr) rest

/-- The locator is a path over the hops to the last one. -/
structure HasPath (loc : Mem) (hops : List HopEntry) (rloc : Address) : Prop where
  path : IsPath loc (hops.map HopEntry.addr ++ [rloc])
  flags : FlagsAt (loc.advance 6) sizeofLcafHdr hops

/-- The walk over the locators of a record comes to the offset. -/
def IsLocator (cfg : RegisterConfig) (rec : Mem) (loc : ℕ) : Prop :=
  ∃ k < (rec 4).toNat, ∃ info,
    registerLocators cfg rec k (10 + getAddressSize (rec.advance 10)) [] = (info, some loc)

/-- The path of a locator is among those of the entry of its last hop. -/
def KeepsPath (info : List RegisterEntry) (rloc : Address) (pe : PeEntry) : Prop :=
  ∃ e ∈ info, e.rloc = addressSockUnion rloc ∧ ∃ pes, e.pe = some pes ∧ pe ∈ pes

/-- Of the locators that a Map-Reply lists for the entry of the last hop, the one for
the path of the locator is a path over the same hops. -/
def ListsPath (fncs : Functions) (lispTe rlocProbe : Bool) (di : SockUnion)
    (info : List RegisterEntry) (loc : Mem) (hops : List HopEntry) (rloc : Address) : Prop :=
  ∃ e ∈ info, e.rloc = addressSockUnion rloc ∧ ∃ pes, e.pe = some pes ∧
    peEntry loc hops ∈ pes ∧ ∃ locators written,
      replyLocators fncs lispTe rlocProbe di e = some locators ∧
      replyPath rlocProbe di e.toReplyEntry (peEntry loc hops) = some written ∧
      written ∈ locators ∧ ∀ m : Mem, m.Holds written → HasPath m hops rloc

/-! ## The path is kept -/

section Kept

variable {cfg : RegisterConfig} {lcaf rec loc : Mem} {hop n : ℕ} {hops : List HopEntry}
  {rloc : Address} {info : List RegisterEntry} {pe : PeEntry}

/-- The loop over the hops takes the last one as locator and keeps the others. -/
theorem registerHops_of_hopsAt (hte : cfg.lispTe = true) (hproxy : cfg.proxyMapRepl = true)
    (h : HopsAt lcaf hop (hops.map HopEntry.addr ++ [rloc])) (hflags : FlagsAt lcaf hop hops)
    (hn : pathLen (hops.map HopEntry.addr ++ [rloc]) ≤ n) :
    registerHops cfg lcaf (hop + pathLen (hops.map HopEntry.addr ++ [rloc])) n hop =
      some (hops, some rloc) := by
  induction hops generalizing hop n with
  | nil =>
      have hpos := hopSize_pos rloc
      rw [List.map_nil, List.nil_append, pathLen_cons, pathLen_nil] at hn ⊢
      cases n with
      | zero => omega
      | succ n =>
          rw [registerHops, if_pos (by omega), h.1]
          dsimp only
          have hend : registerHops cfg lcaf (hop + (hopSize rloc + 0)) n
              (hop + hopSize rloc) = some ([], none) := by
            cases n with
            | zero => rfl
            | succ n => rw [registerHops, if_neg (by omega)]
          rw [hend, Option.map_some, if_neg (by omega)]
  | cons he hops ih =>
      have hpos := hopSize_pos he.addr
      have hlast := pathLen_pos (hops.map HopEntry.addr) [] rloc
      rw [List.map_cons, List.cons_append, pathLen_cons] at hn ⊢
      cases n with
      | zero => omega
      | succ n =>
          obtain ⟨hread, hrest⟩ := h
          rw [registerHops, if_pos (by omega), hread]
          dsimp only
          rw [← Nat.add_assoc, ih hrest hflags.2 (by omega), Option.map_some,
            if_pos (by omega), hte, hproxy, hflags.1]
          rfl

/-- The entry of a path. -/
theorem registerLocator_of_hasPath (hte : cfg.lispTe = true)
    (hproxy : cfg.proxyMapRepl = true) (h : HasPath loc hops rloc) :
    ∃ size, registerLocator cfg loc =
      some (⟨replyEntry loc rloc, some [peEntry loc hops]⟩, size) := by
  refine ⟨6 + (sizeofLcafHdr + pathLen (hops.map HopEntry.addr ++ [rloc])), ?_⟩
  rw [registerLocator, if_pos ⟨h.path.afi, h.path.type⟩, h.path.payload]
  dsimp only
  rw [registerHops_of_hopsAt hte hproxy h.path.hops h.flags (Nat.le_refl _)]

/-- The entries that are read have nothing but their addresses. -/
def Bare (info : List RegisterEntry) : Prop :=
  ∀ e ∈ info, ∃ addr, e.rloc = addressSockUnion addr

theorem rloc_registerLocator {entry : RegisterEntry} {size : ℕ}
    (h : registerLocator cfg loc = some (entry, size)) :
    ∃ addr, entry.rloc = addressSockUnion addr := by
  unfold registerLocator at h
  dsimp only at h
  split at h
  · split at h
    next hops addr _ =>
      rw [Option.some_inj, Prod.mk.injEq] at h
      exact ⟨addr, by rw [← h.1]; rfl⟩
    · cases h
  · obtain ⟨addr, -, heq⟩ := Option.map_eq_some_iff.mp h
    rw [Prod.mk.injEq] at heq
    exact ⟨addr, by rw [← heq.1]; rfl⟩

/-- An update takes the address of one of the two entries. -/
theorem rloc_updateEntry (nEntry entry : RegisterEntry) :
    (updateEntry nEntry entry).rloc = nEntry.rloc ∨
      (updateEntry nEntry entry).rloc = entry.rloc := by
  unfold updateEntry
  split
  · split
    · exact Or.inr rfl
    · exact Or.inl rfl
  · exact Or.inl rfl
  · exact Or.inl rfl
  · exact Or.inl rfl

theorem Bare.registerEntry (h : Bare info) {entry : RegisterEntry}
    (hentry : ∃ addr, entry.rloc = addressSockUnion addr) :
    Bare (registerEntry info entry) := by
  induction info with
  | nil =>
      intro e he
      rw [List.mem_singleton.mp he]
      exact hentry
  | cons e info ih =>
      obtain ⟨he, hinfo⟩ := List.forall_mem_cons.mp h
      rw [ControlPlane.registerEntry]
      split
      · refine List.forall_mem_cons.mpr ⟨?_, hinfo⟩
        rcases rloc_updateEntry e entry with heq | heq
        · rw [heq]
          exact he
        · rw [heq]
          exact hentry
      · exact List.forall_mem_cons.mpr ⟨he, ih hinfo⟩

/-- What is kept stays when another locator is entered. -/
theorem KeepsPath.registerEntry (h : KeepsPath info rloc pe) (entry : RegisterEntry) :
    KeepsPath (registerEntry info entry) rloc pe := by
  obtain ⟨e, he, hrloc, pes, hpes, hpe⟩ := h
  induction info with
  | nil => cases he
  | cons first info ih =>
      rw [ControlPlane.registerEntry]
      rcases List.mem_cons.mp he with rfl | hinfo
      · split
        · -- the paths of an entry are only added to
          refine ⟨_, List.mem_cons_self, ?_⟩
          unfold updateEntry
          rw [hpes]
          cases entry.pe with
          | none => exact ⟨hrloc, pes, rfl, hpe⟩
          | some more => exact ⟨hrloc, pes ++ more, rfl, List.mem_append_left _ hpe⟩
        · exact ⟨e, List.mem_cons_self, hrloc, pes, hpes, hpe⟩
      · split
        · exact ⟨e, List.mem_cons_of_mem _ hinfo, hrloc, pes, hpes, hpe⟩
        · obtain ⟨e', he', hrest⟩ := ih hinfo
          exact ⟨e', List.mem_cons_of_mem _ he', hrest⟩

theorem addressSockUnion_injective {a b : Address}
    (h : (addressSockUnion a).address = (addressSockUnion b).address) : a = b := by
  rw [address_addressSockUnion, address_addressSockUnion] at h
  exact Option.some_inj.mp h

/-- A locator that is entered is kept. -/
theorem keepsPath_registerEntry (h : Bare info) {entry : RegisterEntry}
    (hrloc : entry.rloc = addressSockUnion rloc) (hpe : entry.pe = some [pe]) :
    KeepsPath (registerEntry info entry) rloc pe := by
  induction info with
  | nil => exact ⟨entry, List.mem_cons_self, hrloc, [pe], hpe, List.mem_cons_self⟩
  | cons e info ih =>
      obtain ⟨⟨addr, haddr⟩, hinfo⟩ := List.forall_mem_cons.mp h
      rw [ControlPlane.registerEntry]
      split
      next heq =>
        rw [hrloc, haddr] at heq
        have hsame : e.rloc = addressSockUnion rloc := by
          rw [haddr, addressSockUnion_injective heq]
        refine ⟨_, List.mem_cons_self, ?_⟩
        unfold updateEntry
        rw [hpe]
        cases e.pe with
        | none => exact ⟨hsame, [pe], rfl, List.mem_cons_self⟩
        | some pes =>
            exact ⟨hsame, pes ++ [pe], rfl, List.mem_append_right _ List.mem_cons_self⟩
      · obtain ⟨e', he', hrest⟩ := ih hinfo
        exact ⟨e', List.mem_cons_of_mem _ he', hrest⟩

/-- The loop over the locators keeps the paths it has. -/
theorem KeepsPath.registerLocators (h : KeepsPath info rloc pe) (lcount start : ℕ) :
    KeepsPath (registerLocators cfg rec lcount start info).1 rloc pe := by
  induction lcount generalizing start info with
  | zero => exact h
  | succ lcount ih =>
      rw [ControlPlane.registerLocators]
      split
      · exact h
      next entry size _ => exact ih (h.registerEntry entry) (start + size)

theorem Bare.registerLocators (h : Bare info) (lcount start : ℕ) :
    Bare (registerLocators cfg rec lcount start info).1 := by
  induction lcount generalizing start info with
  | zero => exact h
  | succ lcount ih =>
      rw [ControlPlane.registerLocators]
      split
      · exact h
      next entry size hread =>
        exact ih (h.registerEntry (rloc_registerLocator hread)) (start + size)

/-- The loop goes on from where it came to. -/
theorem registerLocators_add {k lcount start stop : ℕ} {info' : List RegisterEntry}
    (h : registerLocators cfg rec k start info = (info', some stop)) :
    registerLocators cfg rec (k + lcount) start info =
      registerLocators cfg rec lcount stop info' := by
  induction k generalizing start info with
  | zero =>
      obtain ⟨rfl, hstop⟩ := Prod.mk.inj h
      rw [Nat.zero_add, Option.some_inj.mp hstop]
  | succ k ih =>
      rw [registerLocators] at h
      rw [Nat.add_right_comm, registerLocators]
      split at h
      · cases (Prod.mk.inj h).2
      · exact ih h

/-- The mapping of a record keeps the path of each of its locators. -/
theorem keepsPath_of_isLocator {start : ℕ} {m : RegisterMapping} (hte : cfg.lispTe = true)
    (hproxy : cfg.proxyMapRepl = true) (hlocator : IsLocator cfg rec start)
    (hpath : HasPath (rec.advance start) hops rloc)
    (hstored : (msProcessRegisterRecord cfg rec).2 = some m) :
    KeepsPath m.info rloc (peEntry (rec.advance start) hops) := by
  obtain ⟨k, hk, info, hbefore⟩ := hlocator
  obtain ⟨size, hread⟩ := registerLocator_of_hasPath hte hproxy hpath
  obtain ⟨more, hmore⟩ := Nat.exists_eq_add_of_lt hk
  have hinfo : m.info =
      (registerLocators cfg rec (rec 4).toNat (10 + getAddressSize (rec.advance 10)) []).1 := by
    unfold msProcessRegisterRecord at hstored
    dsimp only at hstored
    split at hstored
    · cases hstored
    · rw [← Option.some_inj.mp hstored]
  have hbare : Bare info := by
    have hall : Bare (registerLocators cfg rec k
        (10 + getAddressSize (rec.advance 10)) []).1 :=
      Bare.registerLocators (fun _ he => absurd he List.not_mem_nil) _ _
    rw [hbefore] at hall
    exact hall
  rw [hinfo, hmore, Nat.add_assoc, registerLocators_add hbefore, registerLocators, hread]
  exact (keepsPath_registerEntry hbare rfl rfl).registerLocators more _

end Kept

/-! ## The path is written -/

section Written

variable {m lcaf : Mem} {hop : ℕ} {hops : List HopEntry} {a b : Address}

theorem hopFlags_bits (L P S : Bool) :
    let flags : UInt8 :=
      (if L then 0x20 else 0) ||| (if P then 0x40 else 0) ||| (if S then 0x80 else 0)
    decide (flags &&& 0x20 ≠ 0) = L ∧ decide (flags &&& 0x40 ≠ 0) = P ∧
      decide (flags &&& 0x80 ≠ 0) = S := by
  revert L P S
  decide

/-- A hop that was written is read back. -/
theorem readHop_of_holds {L P S : Bool} (h : m.Holds (hopBytes L P S a)) :
    readHop m = some (a, hopSize a) ∧ hopEntry m a = ⟨L, P, S, a⟩ := by
  have hflags := hopFlags_bits L P S
  have hentry : ∀ flags : UInt8, m 3 = flags →
      decide (flags &&& 0x20 ≠ 0) = L ∧ decide (flags &&& 0x40 ≠ 0) = P ∧
        decide (flags &&& 0x80 ≠ 0) = S → hopEntry m a = ⟨L, P, S, a⟩ := by
    rintro flags h3 ⟨hL, hP, hS⟩
    rw [hopEntry, h3, hL, hP, hS]
  cases a with
  | inet addr =>
      have hafi : m.be16 0 = lispAfiIp := be16_of_holds h
      have h3 := h 3 (by simp [hopBytes])
      rw [hopBytes, Mem.holds_append] at h
      have haddr : m.bytes 4 4 = addr := Mem.bytes_of_holds h.2
      rw [readHop, if_pos hafi, haddr]
      exact ⟨rfl, hentry _ h3 hflags⟩
  | inet6 addr =>
      have hafi : m.be16 0 = lispAfiIpv6 := be16_of_holds h
      have h3 := h 3 (by simp [hopBytes])
      rw [hopBytes, Mem.holds_append] at h
      have hne : ¬m.be16 0 = lispAfiIp := by
        rw [hafi]
        decide
      have haddr : m.bytes 4 16 = addr := Mem.bytes_of_holds h.2
      rw [readHop, if_neg hne, if_pos hafi, haddr]
      exact ⟨rfl, hentry _ h3 hflags⟩

/-- The bytes of the hops of a path. -/
def hopsBytes (hops : List HopEntry) (a : Address) : List UInt8 :=
  hops.flatMap (fun he => hopBytes he.L he.P he.S he.addr) ++ hopBytes false false false a

theorem length_hopsBytes (hops : List HopEntry) (a : Address) :
    (hopsBytes hops a).length = pathLen (hops.map HopEntry.addr ++ [a]) := by
  induction hops with
  | nil => exact length_hopBytes false false false a
  | cons he hops ih =>
      rw [hopsBytes] at ih
      rw [hopsBytes, List.flatMap_cons, List.append_assoc, List.length_append, ih,
        length_hopBytes]
      rfl

/-- The hops of a path are read back. -/
theorem hopsAt_of_holds (h : (lcaf.advance hop).Holds (hopsBytes hops a)) :
    HopsAt lcaf hop (hops.map HopEntry.addr ++ [a]) ∧ FlagsAt lcaf hop hops := by
  induction hops generalizing hop with
  | nil => exact ⟨⟨(readHop_of_holds h).1, trivial⟩, trivial⟩
  | cons he hops ih =>
      rw [hopsBytes, List.flatMap_cons, List.append_assoc, Mem.holds_append,
        Mem.advance_advance, length_hopBytes] at h
      obtain ⟨hread, hflags⟩ := readHop_of_holds h.1
      obtain ⟨hhops, hrest⟩ := ih h.2
      exact ⟨⟨hread, hhops⟩, hflags, hrest⟩

/-- A path that was written is read back. -/
theorem hasPath_of_holds {e : ReplyEntry} {pe : PeEntry}
    (h : m.Holds (pathLocatorBytes e a pe))
    (hlen : pathLen (pe.hop.map HopEntry.addr ++ [a]) < 65536) : HasPath m pe.hop a := by
  have hbytes : pathLocatorBytes e a pe =
      [pe.priority, pe.weight, pe.mPriority, pe.mWeight, 0, locatorFlags e.L e.p e.r] ++
        (Mem.be16Bytes (.ofNat lcafAfi) ++ ([0, 0, lcafTe, 0] ++
          (Mem.be16Bytes (.ofNat (hopsBytes pe.hop a).length) ++ hopsBytes pe.hop a))) := rfl
  rw [hbytes, Mem.holds_append, Mem.holds_append, Mem.holds_append, Mem.holds_append] at h
  obtain ⟨-, hafi, htype, hpayload, hhops⟩ := h
  simp only [List.length_cons, List.length_nil, Nat.zero_add, Nat.reduceAdd,
    Mem.length_be16Bytes] at hafi htype hpayload hhops
  rw [Mem.advance_advance (m.advance 6)] at hpayload hhops
  rw [Mem.advance_advance (m.advance 6)] at hhops
  have hread : ((m.advance 6).advance sizeofLcafHdr).Holds (hopsBytes pe.hop a) := hhops
  obtain ⟨hat, hflags⟩ := hopsAt_of_holds hread
  refine ⟨⟨?_, htype 2 (by simp), ?_, hat⟩, hflags⟩
  · rw [← Mem.advance_zero (m.advance 6)] at hafi
    exact Mem.be16_of_holds_be16Bytes hafi
  · have hfield : (m.advance 6).be16 6 = (UInt16.ofNat (hopsBytes pe.hop a).length).toNat :=
      Mem.be16_of_holds_be16Bytes hpayload
    rw [hfield, length_hopsBytes, UInt16.toNat_ofNat_of_lt' hlen]

/-- A path has one last hop. -/
theorem hopsAt_last {addrs : List Address} (ha : HopsAt lcaf hop (addrs ++ [a]))
    (hb : HopsAt lcaf hop (addrs ++ [b])) : a = b := by
  induction addrs generalizing hop with
  | nil =>
      have hread := ha.1.symm.trans hb.1
      rw [Option.some_inj, Prod.mk.injEq] at hread
      exact hread.1
  | cons first addrs ih => exact ih ha.2 hb.2

theorem pathLen_append (before after : List Address) :
    pathLen (before ++ after) = pathLen before + pathLen after := by
  rw [pathLen, List.map_append, List.sum_append]
  rfl

/-- What is written with the last hop fits the payload length if what was read does. -/
theorem HasPath.pathLen_lt {rloc : Address} (h : HasPath m hops rloc)
    (hsize : hopSize a = hopSize rloc) :
    pathLen (hops.map HopEntry.addr ++ [a]) < 65536 := by
  have hpayload := h.path.payload
  have hlt : (m.advance 6).be16 6 < 65536 := Mem.be16_lt _ _
  rw [pathLen_append, pathLen_cons, hsize, ← pathLen_cons, ← pathLen_append, ← hpayload]
  exact hlt

/-- A path that is written as it was read has a last hop that is copied as it is. -/
theorem ListsPath.keepsBytes {fncs : Functions} {lispTe rlocProbe : Bool} {di : SockUnion}
    {info : List RegisterEntry} {rloc : Address}
    (h : ListsPath fncs lispTe rlocProbe di info m hops rloc) (hpath : HasPath m hops rloc) :
    KeepsBytes rloc := by
  obtain ⟨e, -, hrloc, pes, -, -, locators, written, -, hwritten, -, hread⟩ := h
  obtain ⟨a, hlast, hsize⟩ := exists_lastHop (address_addressSockUnion rloc)
  rw [replyPath, hrloc, hlast, Option.map_some, Option.some_inj] at hwritten
  have hholds := Mem.holds_ofList written fun _ => 0
  have hgiven := hread _ hholds
  rw [← hwritten] at hholds
  have hcopied := hasPath_of_holds hholds (hpath.pathLen_lt hsize)
  rw [hwritten] at hcopied
  rw [← lastHop_eq_iff, hlast, hopsAt_last hcopied.path.hops hgiven.path.hops]

end Written

/-- On a Map-Server with LISP-TE and proxy replies, the path of a locator is written
again as it was registered exactly when its last hop is an IPv4 address or the
unspecified IPv6 address. -/
theorem listsPath_iff {cfg : RegisterConfig} {fncs : Functions} {rec : Mem} {start : ℕ}
    {hops : List HopEntry} {rloc : Address} {m : RegisterMapping} {rlocProbe : Bool}
    {di : SockUnion} (hte : cfg.lispTe = true) (hproxy : cfg.proxyMapRepl = true)
    (hms : fncs.ms = true) (hlocator : IsLocator cfg rec start)
    (hpath : HasPath (rec.advance start) hops rloc)
    (hstored : (msProcessRegisterRecord cfg rec).2 = some m) :
    ListsPath fncs cfg.lispTe rlocProbe di m.info (rec.advance start) hops rloc ↔
      KeepsBytes rloc := by
  refine ⟨fun h => h.keepsBytes hpath, fun hkeeps => ?_⟩
  have hlast := (lastHop_eq_iff rloc).mpr hkeeps
  obtain ⟨e, he, hrloc, pes, hpes, hpe⟩ :=
    keepsPath_of_isLocator hte hproxy hlocator hpath hstored
  have hpaths : fncs.writesPaths cfg.lispTe = true := by
    rw [Functions.writesPaths, hms, hte, Bool.or_true, Bool.and_true]
  rw [← hrloc] at hlast
  refine ⟨e, he, hrloc, pes, hpes, hpe, _, _, replyLocators_of_paths hpaths hpes hlast, ?_,
    List.mem_map_of_mem hpe, fun m hm => hasPath_of_holds hm (hpath.pathLen_lt rfl)⟩
  rw [replyPath, hlast, Option.map_some]

/-- A record of 10.0.0.0/24 with one locator. -/
def tenRecord (locator : List UInt8) : Mem :=
  Mem.ofList [0, 0, 0x05, 0xa0, 1, 24, 0x10, 0, 0, 0, 0, 1, 10, 0, 0, 0]
    (Mem.ofList locator fun _ => 0)

/-- A path whose only hop is 2001:db8::1, as a locator. -/
def inet6Path : List UInt8 :=
  [1, 100, 255, 0, 0, 1, 0x40, 0x03, 0, 0, 10, 0, 0, 20,
    0, 2, 0, 0, 0x20, 0x01, 0x0d, 0xb8, 0, 0, 0, 0, 0, 0, 0, 0, 0, 0, 0, 1]

theorem advance_tenRecord (locator : List UInt8) :
    (tenRecord locator).advance 16 = Mem.ofList locator fun _ => 0 :=
  Mem.advance_ofList _ _

/-- A path that ends in an IPv4 address is written as it was registered. -/
theorem listsPath_iff_mixed :
    ∃ m, (msProcessRegisterRecord ⟨true, true⟩ (tenRecord mixedPath)).2 = some m ∧
      (ListsPath ⟨false, true, false, false⟩ true false (addressSockUnion mixedFirst) m.info
        ((tenRecord mixedPath).advance 16) [⟨false, false, false, mixedFirst⟩] mixedLast ↔
          KeepsBytes mixedLast) := by
  have hstored : (msProcessRegisterRecord ⟨true, true⟩ (tenRecord mixedPath)).2.isSome := by
    decide +kernel
  obtain ⟨m, hm⟩ := Option.isSome_iff_exists.mp hstored
  have hlocator : IsLocator ⟨true, true⟩ (tenRecord mixedPath) 16 :=
    ⟨0, by decide, [], by decide +kernel⟩
  have hpath : HasPath ((tenRecord mixedPath).advance 16)
      [⟨false, false, false, mixedFirst⟩] mixedLast := by
    rw [advance_tenRecord]
    exact ⟨isPath_mixedPath, by decide, trivial⟩
  exact ⟨m, hm, listsPath_iff rfl rfl rfl hlocator hpath hm⟩

/-- The last hop 2001:db8::1 is not written as it was registered. -/
theorem not_listsPath_inet6 :
    ¬ ∀ cfg fncs rec start hops rloc m rlocProbe di, cfg.lispTe = true →
      cfg.proxyMapRepl = true → fncs.ms = true → IsLocator cfg rec start →
      HasPath (rec.advance start) hops rloc → (msProcessRegisterRecord cfg rec).2 = some m →
      ListsPath fncs cfg.lispTe rlocProbe di m.info (rec.advance start) hops rloc := by
  intro h
  have hstored : (msProcessRegisterRecord ⟨true, true⟩ (tenRecord inet6Path)).2.isSome := by
    decide +kernel
  obtain ⟨m, hm⟩ := Option.isSome_iff_exists.mp hstored
  have hlocator : IsLocator ⟨true, true⟩ (tenRecord inet6Path) 16 :=
    ⟨0, by decide, [], by decide +kernel⟩
  have hpath : HasPath ((tenRecord inet6Path).advance 16) [] mixedFirst := by
    rw [advance_tenRecord]
    exact ⟨⟨by decide, by decide, by decide, by decide, trivial⟩, trivial⟩
  have hlists := h ⟨true, true⟩ ⟨false, true, false, false⟩ _ 16 _ _ m false
    (addressSockUnion mixedFirst) rfl rfl rfl hlocator hpath hm
  have hzero : mixedFirst = .inet6 (zeros 16) :=
    congrArg Address.inet6 (hlists.keepsBytes hpath)
  exact absurd hzero (by decide)

end HyLisp.ControlPlane
