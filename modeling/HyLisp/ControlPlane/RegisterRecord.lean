import HyLisp.ControlPlane.MapReply

/-!
# Records of a Map-Register

The Map-Server walks over the records of a Map-Register a second time to enter
their mappings.  Of an explicit locator path the last hop becomes the locator; the
hops before it are kept with `lisp_te` for a site that asks for proxy replies.
Unlike `read_rec`, the merge of locators with one address keeps all their paths.
-/

namespace HyLisp.ControlPlane

open DataPlane

/-- `hop_entry` -/
structure HopEntry where
  L : Bool
  P : Bool
  S : Bool
  addr : Address
  deriving DecidableEq, Repr

/-- `pe_entry` -/
structure PeEntry where
  priority : UInt8
  weight : UInt8
  mPriority : UInt8
  mWeight : UInt8
  L : Bool
  p : Bool
  r : Bool
  hop : List HopEntry
  deriving DecidableEq, Repr

/-- `map_entry` -/
structure RegisterEntry extends ReplyEntry where
  pe : Option (List PeEntry)
  deriving DecidableEq, Repr

/-- The settings the walk consults: `lisp_te`, and the proxy bit of the message. -/
structure RegisterConfig where
  lispTe : Bool
  proxyMapRepl : Bool
  deriving DecidableEq, Repr

/-- The mapping a record leaves at its node: the EID, the flags, the proxy bit and
the locators. -/
structure RegisterMapping where
  eid : Prefix
  flags : MappingFlags
  proxy : Bool
  info : List RegisterEntry
  deriving DecidableEq, Repr

/-! ## Explicit locator paths -/

/-- The hop at a position of a path, as it is kept. -/
def hopEntry (hop : Mem) (addr : Address) : HopEntry where
  L := hop 3 &&& 0x20 ≠ 0
  P := hop 3 &&& 0x40 ≠ 0
  S := hop 3 &&& 0x80 ≠ 0
  addr := addr

/-- The loop over the hops from position `hop` up to `barr`: the hops kept, and
the last one as locator.  `n` bounds their number. -/
def registerHops (cfg : RegisterConfig) (lcaf : Mem) (barr : ℕ) :
    ℕ → ℕ → Option (List HopEntry × Option Address)
  | 0, _ => some ([], none)
  | n + 1, hop =>
      if hop < barr then
        match readHop (lcaf.advance hop) with
        | none => none
        | some (addr, size) =>
            (registerHops cfg lcaf barr n (hop + size)).map fun (hops, rloc) =>
              if hop + size < barr then
                (if cfg.lispTe && cfg.proxyMapRepl then
                    hopEntry (lcaf.advance hop) addr :: hops
                  else hops,
                  rloc)
              else (hops, some addr)
      else some ([], none)

/-! ## Locators -/

/-- The path of a locator. -/
def peEntry (loc : Mem) (hop : List HopEntry) : PeEntry where
  priority := loc 0
  weight := loc 1
  mPriority := loc 2
  mWeight := loc 3
  L := loc 5 &&& 0x04 ≠ 0
  p := loc 5 &&& 0x02 ≠ 0
  r := loc 5 &&& 0x01 ≠ 0
  hop := hop

/-- One turn of the loop over the locators: the entry and the size of the
locator.  There is none for an unknown family, or for a path without hops. -/
def registerLocator (cfg : RegisterConfig) (loc : Mem) :
    Option (RegisterEntry × ℕ) :=
  let lcaf := loc.advance 6
  if lcaf.be16 0 = lcafAfi ∧ lcaf 4 = lcafTe then
    let payloadLen := lcaf.be16 6
    let barr := sizeofLcafHdr + payloadLen
    match registerHops cfg lcaf barr payloadLen sizeofLcafHdr with
    | some (hops, some addr) =>
        some (⟨replyEntry loc addr, some [peEntry loc hops]⟩, 6 + barr)
    | _ => none
  else
    (readAddress lcaf).map fun addr =>
      (⟨replyEntry loc addr, none⟩, 6 + getAddressSize lcaf)

/-- What an entry becomes when another one with its address is read. -/
def updateEntry (nEntry entry : RegisterEntry) : RegisterEntry :=
  match nEntry.pe, entry.pe with
  | none, none => if nEntry.priority > entry.priority then entry else nEntry
  | none, some pe => { nEntry with pe := some pe }
  | some pe, none => { nEntry with pe := some pe }
  | some nPe, some pe => { nEntry with pe := some (nPe ++ pe) }

/-- `list_search` and what follows: the first entry with the address is updated;
without one, the entry goes to the end. -/
def registerEntry (info : List RegisterEntry) (entry : RegisterEntry) :
    List RegisterEntry :=
  match info with
  | [] => [entry]
  | e :: rest =>
      if entry.rloc.address = e.rloc.address then updateEntry e entry :: rest
      else e :: registerEntry rest entry

/-- The loop over the locators from offset `loc` on: the entries, and the offset
behind the locators unless one is not understood. -/
def registerLocators (cfg : RegisterConfig) (rec : Mem) :
    ℕ → ℕ → List RegisterEntry → List RegisterEntry × Option ℕ
  | 0, loc, info => (info, some loc)
  | lcount + 1, loc, info =>
      match registerLocator cfg (rec.advance loc) with
      | none => (info, none)
      | some (entry, size) =>
          registerLocators cfg rec lcount (loc + size) (registerEntry info entry)

/-! ## Records -/

/-- `_ms_process_register_record`: the length it returns, and the mapping it
leaves.  A failure returns 0; the locators read before it stay. -/
def msProcessRegisterRecord (cfg : RegisterConfig) (rec : Mem) :
    ℕ × Option RegisterMapping :=
  let afi := rec.advance 10
  match readAddress afi with
  | none => (0, none)
  | some addr =>
      let rhdrLen := 10 + getAddressSize afi
      let (info, rlen) := registerLocators cfg rec (rec 4).toNat rhdrLen []
      (rlen.getD 0, some
        { eid := ⟨addr, rec 5⟩
          flags :=
            { act := rec 6 >>> 5
              A := rec 6 &&& 0x10 ≠ 0
              version := rec.le16 8 % 4096
              ttl := rec.be32 0 }
          proxy := cfg.proxyMapRepl
          info := info })

/-- The loop of `_register` over the records: the length each call returns, and
the mapping it leaves.  A record with length 0 is processed again as the next
one. -/
def registerRecords (cfg : RegisterConfig) : ℕ → Mem → List (ℕ × Option RegisterMapping)
  | 0, _ => []
  | rcount + 1, rec =>
      let result := msProcessRegisterRecord cfg rec
      result :: registerRecords cfg rcount (rec.advance result.1)

end HyLisp.ControlPlane
