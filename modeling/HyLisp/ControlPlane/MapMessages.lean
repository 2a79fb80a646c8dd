import HyLisp.ControlPlane.Prefix
import Mathlib.Algebra.GroupWithZero.Nat

/-!
# Writing map messages

`opl_add` and `opl_del` turn a mapping into a `MAPM_ADD` or `MAPM_DELETE`
message: the header, the EID as a sockaddr, a mask when the prefix is neither
empty nor a host, and for an addition the RLOCs with their metrics.  The length
of the message is kept in the 8-bit field `map_msglen`, and what is handed to
`write` is as many bytes as that field says.

A message under construction is its header and the bytes behind it.  The buffer
is allocated with zeros and holds `PSIZE` bytes behind the header; writing past
it is modelled as an error of its own.
-/

namespace HyLisp.ControlPlane

open DataPlane

/-- `PSIZE` -/
def psize : ℕ := 4089

/-- Why no message was written. -/
inductive OplError
  | refused
  | pastBuffer
  deriving DecidableEq, Repr

/-- A message under construction. -/
structure MapMessage where
  header : MapMsghdr
  body : List UInt8

/-- The message as it lies in the buffer. -/
def MapMessage.toBytes (msg : MapMessage) : List UInt8 :=
  msg.header.toBytes ++ msg.body

/-- The number of bytes from the start of the header to the write position. -/
def MapMessage.size (msg : MapMessage) : ℕ :=
  sizeofMapMsghdr + msg.body.length

/-- `opl_new_msg`, with the process id and the sequence number it fills in. -/
def oplNewMsg (pid seq : UInt32) (version : UInt8) (mapType : UInt16)
    (mapFlags : UInt32) (mapAddrs : UInt16) : MapMessage where
  header :=
    { mapMsglen := .ofNat sizeofMapMsghdr
      mapVersion := version
      mapType := mapType
      mapFlags := mapFlags
      mapAddrs := mapAddrs
      mapVersioning := 0
      mapRlocCount := 0
      mapPid := pid
      mapSeq := seq
      mapErrno := 0 }
  body := []

/-- The mask buffer of `opl_mask2sockaddr`. -/
def oplMaskByte (masklen i : ℕ) : UInt8 :=
  if i < masklen / 8 then 0xFF
  else if i = masklen / 8 ∧ masklen % 8 ≠ 0 then
    0xFF <<< UInt8.ofNat (8 - masklen % 8)
  else 0

/-- All-zero bytes of a fixed width. -/
def zeros (n : ℕ) : Vector UInt8 n :=
  Vector.replicate n 0

/-- The sockaddr written for an address: port and flow label are zero. -/
def addressSockaddr : Address → List UInt8
  | .inet addr => sockaddrIn (zeros 2) addr (zeros 8)
  | .inet6 addr => sockaddrIn6 (zeros 2) (zeros 4) addr (zeros 4)

/-- A mask as an address of the family of another one. -/
def maskAddress (masklen : ℕ) : Address → Address
  | .inet _ => .inet (.ofFn fun i => oplMaskByte masklen i)
  | .inet6 _ => .inet6 (.ofFn fun i => oplMaskByte masklen i)

/-- `opl_mask2sockaddr`, for the family of an address. -/
def oplMask2sockaddr (masklen : ℕ) (addr : Address) : Option (List UInt8) :=
  if masklen > addr.width then none
  else some (addressSockaddr (maskAddress masklen addr))

/-- A prefix that gets a mask in the message. -/
def Prefix.HasMask (p : Prefix) : Prop :=
  0 < p.prefixlen.toNat ∧ p.prefixlen.toNat < p.addr.width

instance (p : Prefix) : Decidable p.HasMask :=
  inferInstanceAs (Decidable (_ ∧ _))

/-- `opl_add_mapp` -/
def oplAddMapp (msg : MapMessage) (p : Prefix) : Except OplError MapMessage :=
  let header := { msg.header with mapRlocCount := 0 }
  let body := addressSockaddr p.addr
  if p.HasMask then
    match oplMask2sockaddr p.prefixlen.toNat p.addr with
    | none => .error .refused
    | some mask =>
        let body := body ++ mask
        .ok ⟨{ header with
          mapAddrs := header.mapAddrs ||| mapaEidmask
          mapMsglen := .ofNat (sizeofMapMsghdr + body.length) }, body⟩
  else
    .ok ⟨{ header with
      mapMsglen := .ofNat (sizeofMapMsghdr + body.length) }, body⟩

/-- The sockaddr `opl_add_rloc` copies for an RLOC. -/
def SockUnion.toBytes : SockUnion → Option (List UInt8)
  | .inet port addr zero => some (sockaddrIn port addr zero)
  | .inet6 port flowinfo addr scopeId =>
      some (sockaddrIn6 port flowinfo addr scopeId)
  | .other _ => none

/-- The `rloc_mtx` of an entry; MTU and nonces are left zero. -/
def MapEntry.rlocMtx (rl : MapEntry) : List UInt8 :=
  [rl.priority, rl.weight] ++
    (Mem.le16Bytes ((if rl.L then rlocfLif else 0) |||
        (if rl.r then rlocfUp else 0)) ++ List.replicate 12 0)

/-- The bytes of an RLOC in a message. -/
def MapEntry.toBytes (rl : MapEntry) : Option (List UInt8) :=
  rl.rloc.toBytes.map fun sockaddr => sockaddr ++ rl.rlocMtx

/-- The loop of `opl_add_rloc`. -/
def oplAddRlocLoop : List MapEntry → List UInt8 → UInt32 →
    Except OplError (List UInt8 × UInt32)
  | [], body, count => .ok (body, count)
  | rl :: rest, body, count =>
      match rl.toBytes with
      | none => .error .refused
      | some bytes =>
          -- the last twelve bytes of the metrics are not written
          if (body ++ bytes).length > psize + 12 then .error .pastBuffer
          else oplAddRlocLoop rest (body ++ bytes) (count + 1)

/-- `opl_add_rloc`.  An empty list returns 0, which `opl_add` refuses as it
refuses a length of 0. -/
def oplAddRloc (msg : MapMessage) (entries : List MapEntry) :
    Except OplError MapMessage :=
  if entries = [] then .error .refused
  else do
    let start := msg.header.mapMsglen.toNat - sizeofMapMsghdr
    let (body, count) ← oplAddRlocLoop entries (msg.body.take start) 0
    let msglen := UInt8.ofNat (sizeofMapMsghdr + body.length)
    if msglen = 0 then .error .refused
    else
      .ok ⟨{ msg.header with mapRlocCount := count, mapMsglen := msglen }, body⟩

/-- The bytes `write` is given: as many as the message length says. -/
def MapMessage.written (msg : MapMessage) : List UInt8 :=
  msg.toBytes.take msg.header.mapMsglen.toNat

/-- The RLOCs an addition carries: those of the mapping, or else those of the
proxy ETR. -/
def oplAddRlocs (petr : Option (List MapEntry)) (info : List MapEntry)
    (buf : MapMessage) : Except OplError MapMessage :=
  if info ≠ [] then oplAddRloc buf info
  else
    match petr with
    | some petr => oplAddRloc buf petr
    | none => .ok buf

/-- `opl_add`: `info` is the locator list of the mapping and `petr` that of the
proxy ETR, when one is configured.  The result is what is written. -/
def oplAdd (pid seq : UInt32) (petr : Option (List MapEntry)) (mapp : Prefix)
    (info : List MapEntry) (db : Bool) : Except OplError (List UInt8) := do
  let mapNeg := if info = [] ∧ petr = none then mapfNegative else 0
  let buf := oplNewMsg pid seq mapmVersion mapmAdd
    (((if db then mapfDb else 0) ||| mapfStatic ||| mapfUp) ||| mapNeg)
    (mapaEid ||| (if mapNeg ≠ 0 then 0 else mapaRloc))
  let buf ← oplAddMapp buf mapp
  let buf ← oplAddRlocs petr info buf
  return buf.written

/-- `opl_del` -/
def oplDel (pid seq : UInt32) (mapp : Prefix) (db : Bool) :
    Except OplError (List UInt8) := do
  let buf := oplNewMsg pid seq mapmVersion mapmDelete
    ((if db then mapfDb else mapfAll) ||| mapfStatic ||| mapfUp) mapaEid
  let buf ← oplAddMapp buf mapp
  return buf.written

/-! ## The size of a message -/

/-- The room the EID and its mask take. -/
def Prefix.room (p : Prefix) : ℕ :=
  p.addr.room + if p.HasMask then p.addr.room else 0

/-- The room an RLOC takes, metrics included. -/
def MapEntry.room (rl : MapEntry) : ℕ :=
  (rl.rloc.address.elim 0 Address.room) + sizeofRlocMtx

/-- The size of header, EID, mask and all RLOC entries. -/
def messageSize (mapp : Prefix) (rlocs : List MapEntry) : ℕ :=
  sizeofMapMsghdr + mapp.room + (rlocs.map MapEntry.room).sum

/-- The bytes of the EID and its mask. -/
def Prefix.sockaddrs (p : Prefix) : List UInt8 :=
  addressSockaddr p.addr ++
    if p.HasMask then
      addressSockaddr (maskAddress p.prefixlen.toNat p.addr)
    else []

/-- The bytes of a list of RLOC entries. -/
def rlocBytes (rlocs : List MapEntry) : List UInt8 :=
  rlocs.flatMap fun rl => rl.toBytes.getD []

/-- RLOCs of the two families that map messages carry. -/
def Supported (rlocs : List MapEntry) : Prop :=
  ∀ rl ∈ rlocs, rl.rloc.address.isSome

@[simp] theorem length_addressSockaddr (addr : Address) :
    (addressSockaddr addr).length = addr.room := by
  cases addr <;> simp [addressSockaddr, Address.room]

@[simp] theorem room_maskAddress (masklen : ℕ) (addr : Address) :
    (maskAddress masklen addr).room = addr.room := by
  cases addr <;> rfl

theorem room_le (addr : Address) : addr.room ≤ 32 := by
  cases addr <;> simp [Address.room]

@[simp] theorem length_sockaddrs (p : Prefix) : p.sockaddrs.length = p.room := by
  rw [Prefix.sockaddrs, List.length_append, length_addressSockaddr, Prefix.room]
  split <;> simp

theorem prefix_room_le (p : Prefix) : p.room ≤ 64 := by
  have hroom := room_le p.addr
  unfold Prefix.room
  split <;> omega

@[simp] theorem length_rlocMtx (rl : MapEntry) :
    rl.rlocMtx.length = sizeofRlocMtx := by
  simp [MapEntry.rlocMtx, sizeofRlocMtx]

theorem exists_toBytes {rl : MapEntry} (h : rl.rloc.address.isSome) :
    ∃ bytes, rl.toBytes = some bytes ∧ bytes.length = rl.room := by
  obtain ⟨rloc, priority, weight, L, r⟩ := rl
  cases rloc with
  | inet port addr zero =>
      refine ⟨_, rfl, ?_⟩
      simp [MapEntry.room, SockUnion.address, Address.room]
  | inet6 port flowinfo addr scopeId =>
      refine ⟨_, rfl, ?_⟩
      simp [MapEntry.room, SockUnion.address, Address.room]
  | other family => cases h

theorem length_rlocBytes {rlocs : List MapEntry} (h : Supported rlocs) :
    (rlocBytes rlocs).length = (rlocs.map MapEntry.room).sum := by
  induction rlocs with
  | nil => rfl
  | cons rl rest ih =>
      obtain ⟨bytes, hbytes, hlen⟩ := exists_toBytes (h rl List.mem_cons_self)
      rw [rlocBytes, List.flatMap_cons, hbytes, Option.getD_some,
        List.length_append, hlen, List.map_cons, List.sum_cons, ← rlocBytes,
        ih fun rl' hrl' => h rl' (List.mem_cons_of_mem _ hrl')]

/-! ## What the operations write -/

/-- The EID part of a message. -/
theorem oplAddMapp_eq (msg : MapMessage) (p : Prefix) :
    oplAddMapp msg p = .ok
      ⟨{ msg.header with
          mapMsglen := .ofNat (sizeofMapMsghdr + p.room)
          mapAddrs := msg.header.mapAddrs |||
            if p.HasMask then mapaEidmask else 0
          mapRlocCount := 0 }, p.sockaddrs⟩ := by
  by_cases hmask : p.HasMask
  · have hwidth : ¬ p.prefixlen.toNat > p.addr.width := Nat.not_lt.mpr (Nat.le_of_lt hmask.2)
    simp only [oplAddMapp, if_pos hmask, oplMask2sockaddr, if_neg hwidth,
      Prefix.sockaddrs, Prefix.room, List.length_append,
      length_addressSockaddr, room_maskAddress]
  · simp only [oplAddMapp, if_neg hmask, Prefix.sockaddrs, Prefix.room,
      List.append_nil, length_addressSockaddr, Nat.add_zero, UInt16.or_zero]

/-- The loop over the RLOCs appends their bytes, as long as they fit. -/
theorem oplAddRlocLoop_eq {rlocs : List MapEntry} (h : Supported rlocs)
    {body : List UInt8} (count : UInt32)
    (hfits : body.length + (rlocs.map MapEntry.room).sum ≤ psize) :
    oplAddRlocLoop rlocs body count =
      .ok (body ++ rlocBytes rlocs, count + .ofNat rlocs.length) := by
  induction rlocs generalizing body count with
  | nil => simp [oplAddRlocLoop, rlocBytes]
  | cons rl rest ih =>
      obtain ⟨bytes, hbytes, hlen⟩ := exists_toBytes (h rl List.mem_cons_self)
      rw [List.map_cons, List.sum_cons] at hfits
      have hroom : ¬ (body ++ bytes).length > psize + 12 := by
        rw [List.length_append]
        omega
      have hrest : Supported rest := fun rl' hrl' =>
        h rl' (List.mem_cons_of_mem _ hrl')
      have hfits' : (body ++ bytes).length + (rest.map MapEntry.room).sum ≤
          psize := by
        rw [List.length_append]
        omega
      have hcount : count + 1 + UInt32.ofNat rest.length =
          count + UInt32.ofNat (rl :: rest).length := by
        rw [List.length_cons, UInt32.ofNat_add, UInt32.add_assoc,
          UInt32.add_comm 1]
        rfl
      simp only [oplAddRlocLoop, hbytes]
      rw [if_neg hroom, ih hrest _ hfits', hcount, rlocBytes, rlocBytes,
        List.flatMap_cons, hbytes, Option.getD_some, List.append_assoc]

/-- The RLOCs an addition carries. -/
def advertised (petr : Option (List MapEntry)) (info : List MapEntry) :
    List MapEntry :=
  if info ≠ [] then info else petr.getD []

/-- The header of an addition that fits the 8-bit length. -/
def addHeader (pid seq : UInt32) (mapp : Prefix) (rlocs : List MapEntry)
    (db : Bool) : MapMsghdr where
  mapMsglen := .ofNat (messageSize mapp rlocs)
  mapVersion := mapmVersion
  mapType := mapmAdd
  mapFlags := ((if db then mapfDb else 0) ||| mapfStatic ||| mapfUp) |||
    if rlocs = [] then mapfNegative else 0
  mapAddrs := (mapaEid ||| if rlocs = [] then 0 else mapaRloc) |||
    if mapp.HasMask then mapaEidmask else 0
  mapVersioning := 0
  mapRlocCount := .ofNat rlocs.length
  mapPid := pid
  mapSeq := seq
  mapErrno := 0

/-- The header of a deletion. -/
def delHeader (pid seq : UInt32) (mapp : Prefix) (db : Bool) : MapMsghdr where
  mapMsglen := .ofNat (messageSize mapp [])
  mapVersion := mapmVersion
  mapType := mapmDelete
  mapFlags := (if db then mapfDb else mapfAll) ||| mapfStatic ||| mapfUp
  mapAddrs := mapaEid ||| if mapp.HasMask then mapaEidmask else 0
  mapVersioning := 0
  mapRlocCount := 0
  mapPid := pid
  mapSeq := seq
  mapErrno := 0

/-- No message is longer than its 8-bit length field can say. -/
theorem length_written_le (msg : MapMessage) : msg.written.length ≤ 255 := by
  have hlen := msg.header.mapMsglen.toNat_lt
  rw [MapMessage.written, List.length_take]
  omega

/-- A message that is as long as its length field says is written whole. -/
theorem written_eq_toBytes (msg : MapMessage)
    (hlen : msg.header.mapMsglen = .ofNat msg.toBytes.length)
    (hshort : msg.toBytes.length ≤ 255) : msg.written = msg.toBytes := by
  rw [MapMessage.written, hlen, UInt8.toNat_ofNat_of_lt' (by
    change _ < 256
    omega), List.take_length]

/-- The RLOCs are appended to the EID part when the whole fits. -/
theorem oplAddRloc_eq {msg : MapMessage} {rlocs : List MapEntry}
    (hrlocs : Supported rlocs) (hne : rlocs ≠ [])
    (hlen : msg.header.mapMsglen = .ofNat (sizeofMapMsghdr + msg.body.length))
    (hshort : sizeofMapMsghdr + msg.body.length +
      (rlocs.map MapEntry.room).sum ≤ 255) :
    oplAddRloc msg rlocs = .ok
      ⟨{ msg.header with
          mapMsglen := .ofNat (sizeofMapMsghdr + msg.body.length +
            (rlocs.map MapEntry.room).sum)
          mapRlocCount := .ofNat rlocs.length },
        msg.body ++ rlocBytes rlocs⟩ := by
  have hstart : msg.header.mapMsglen.toNat - sizeofMapMsghdr =
      msg.body.length := by
    rw [hlen, UInt8.toNat_ofNat_of_lt' (by
      change _ < 256
      omega)]
    omega
  have hfits : msg.body.length + (rlocs.map MapEntry.room).sum ≤ psize := by
    unfold psize
    omega
  have htotal : sizeofMapMsghdr + (msg.body ++ rlocBytes rlocs).length =
      sizeofMapMsghdr + msg.body.length + (rlocs.map MapEntry.room).sum := by
    rw [List.length_append, length_rlocBytes hrlocs, Nat.add_assoc]
  have hnonzero : UInt8.ofNat (sizeofMapMsghdr + msg.body.length +
      (rlocs.map MapEntry.room).sum) ≠ 0 := by
    intro hzero
    have hnat := congrArg UInt8.toNat hzero
    rw [UInt8.toNat_ofNat_of_lt' (by
      change _ < 256
      omega)] at hnat
    simp [sizeofMapMsghdr] at hnat
  rw [oplAddRloc, if_neg hne]
  simp only [hstart, List.take_length, oplAddRlocLoop_eq hrlocs 0 hfits, bind,
    Except.bind, htotal, if_neg hnonzero, UInt32.zero_add]

theorem length_toBytes_mk (header : MapMsghdr) (body : List UInt8) :
    (MapMessage.mk header body).toBytes.length =
      sizeofMapMsghdr + body.length := by
  rw [MapMessage.toBytes, List.length_append, MapMsghdr.length_toBytes]

theorem messageSize_nil (mapp : Prefix) :
    messageSize mapp [] = sizeofMapMsghdr + mapp.room := rfl

theorem messageSize_nil_le (mapp : Prefix) : messageSize mapp [] ≤ 255 := by
  have hroom := prefix_room_le mapp
  rw [messageSize_nil, sizeofMapMsghdr]
  omega

/-- A deletion is always written whole. -/
theorem oplDel_eq (pid seq : UInt32) (mapp : Prefix) (db : Bool) :
    oplDel pid seq mapp db =
      .ok ((delHeader pid seq mapp db).toBytes ++ mapp.sockaddrs) := by
  have hsize : (MapMessage.mk (delHeader pid seq mapp db)
      mapp.sockaddrs).toBytes.length = messageSize mapp [] := by
    rw [length_toBytes_mk, length_sockaddrs, messageSize_nil]
  have hwritten := written_eq_toBytes
    ⟨delHeader pid seq mapp db, mapp.sockaddrs⟩
    (by rw [hsize]; rfl) (by rw [hsize]; exact messageSize_nil_le mapp)
  simp only [oplDel, oplNewMsg, oplAddMapp_eq, bind, Except.bind, pure,
    Except.pure]
  exact congrArg Except.ok hwritten

theorem length_addMessage (pid seq : UInt32) (mapp : Prefix)
    {rlocs : List MapEntry} (db : Bool) (hrlocs : Supported rlocs) :
    (MapMessage.mk (addHeader pid seq mapp rlocs db)
      (mapp.sockaddrs ++ rlocBytes rlocs)).toBytes.length =
      messageSize mapp rlocs := by
  rw [length_toBytes_mk, List.length_append, length_sockaddrs,
    length_rlocBytes hrlocs, messageSize, Nat.add_assoc]

/-- The message of an addition before its RLOCs are appended. -/
def addMappMessage (pid seq : UInt32) (mapp : Prefix) (db : Bool) : MapMessage where
  header :=
    { addHeader pid seq mapp [] db with
      mapMsglen := .ofNat (sizeofMapMsghdr + mapp.room)
      mapFlags := ((if db then mapfDb else 0) ||| mapfStatic ||| mapfUp) ||| 0
      mapAddrs := (mapaEid ||| mapaRloc) |||
        if mapp.HasMask then mapaEidmask else 0 }
  body := mapp.sockaddrs

theorem oplAddRloc_addMappMessage (pid seq : UInt32) (mapp : Prefix) (db : Bool)
    {rlocs : List MapEntry} (hrlocs : Supported rlocs) (hne : rlocs ≠ [])
    (hshort : messageSize mapp rlocs ≤ 255) :
    oplAddRloc (addMappMessage pid seq mapp db) rlocs =
      .ok ⟨addHeader pid seq mapp rlocs db,
        mapp.sockaddrs ++ rlocBytes rlocs⟩ := by
  have hbody : (addMappMessage pid seq mapp db).body.length = mapp.room :=
    length_sockaddrs mapp
  rw [oplAddRloc_eq hrlocs hne (by rw [hbody]; rfl)
    (by rw [hbody]; exact hshort), hbody]
  simp [addMappMessage, addHeader, hne, messageSize]

/-- An addition is written whole when it fits the 8-bit length. -/
theorem oplAdd_eq (pid seq : UInt32) (petr : Option (List MapEntry))
    (mapp : Prefix) {info : List MapEntry} (db : Bool)
    (hpetr : info = [] → petr ≠ some [])
    (hrlocs : Supported (advertised petr info))
    (hshort : messageSize mapp (advertised petr info) ≤ 255) :
    oplAdd pid seq petr mapp info db =
      .ok ((addHeader pid seq mapp (advertised petr info) db).toBytes ++
        (mapp.sockaddrs ++ rlocBytes (advertised petr info))) := by
  have hsize := length_addMessage pid seq mapp db hrlocs
  have hwritten := written_eq_toBytes
    ⟨addHeader pid seq mapp (advertised petr info) db,
      mapp.sockaddrs ++ rlocBytes (advertised petr info)⟩
    (by rw [hsize]; rfl) (by rw [hsize]; exact hshort)
  rw [MapMessage.toBytes] at hwritten
  rw [← hwritten]
  by_cases hinfo : info = []
  · subst hinfo
    cases petr with
    | none =>
        simp [oplAdd, oplAddRlocs, oplNewMsg, oplAddMapp_eq, bind, Except.bind, pure,
          Except.pure, advertised, addHeader, rlocBytes, mapfNegative,
          messageSize_nil]
    | some petr =>
        have hne : petr ≠ [] := fun h => hpetr rfl (congrArg some h)
        have hadd := oplAddRloc_addMappMessage pid seq mapp db hrlocs hne hshort
        simp only [oplAdd, oplAddRlocs, oplAddMapp_eq, reduceCtorEq, and_false, if_false,
          ne_eq, not_true_eq_false, bind, Except.bind, pure, Except.pure]
        exact hadd ▸ rfl
  · have hadv : advertised petr info = info := if_pos hinfo
    rw [hadv] at hrlocs hshort ⊢
    have hadd := oplAddRloc_addMappMessage pid seq mapp db hrlocs hinfo hshort
    simp only [oplAdd, oplAddRlocs, oplAddMapp_eq, hinfo, false_and, if_false, ne_eq,
      not_false_eq_true, if_true, not_true_eq_false, bind, Except.bind, pure,
      Except.pure]
    exact hadd ▸ rfl

/-- No addition is longer than 255 bytes. -/
theorem length_oplAdd_le {pid seq : UInt32} {petr : Option (List MapEntry)}
    {mapp : Prefix} {info : List MapEntry} {db : Bool} {bytes : List UInt8}
    (h : oplAdd pid seq petr mapp info db = .ok bytes) : bytes.length ≤ 255 := by
  simp only [oplAdd, oplAddMapp_eq, bind, Except.bind, pure, Except.pure] at h
  split at h
  · cases h
  · rw [← Except.ok.inj h]
    exact length_written_le _

/-! ## What a reader finds -/

/-- The sockaddrs of a prefix: the EID, and the mask where there is one. -/
theorem holds_sockaddrs {buf : Mem} {p : Prefix} {rest : List UInt8}
    (hbuf : Mem.Holds buf (p.sockaddrs ++ rest)) :
    Mem.Holds buf (addressSockaddr p.addr) ∧
      (p.HasMask → Mem.Holds (buf.advance p.addr.room)
        (addressSockaddr (maskAddress p.prefixlen.toNat p.addr))) := by
  rw [Prefix.sockaddrs, List.append_assoc, Mem.holds_append,
    length_addressSockaddr] at hbuf
  refine ⟨hbuf.1, fun hmask => ?_⟩
  rw [if_pos hmask] at hbuf
  exact (Mem.holds_append.mp hbuf.2).1

theorem holdsSockaddr_of_addressSockaddr {ss : Mem} {addr : Address}
    (h : Mem.Holds ss (addressSockaddr addr)) : HoldsSockaddr ss addr := by
  cases addr with
  | inet addr => exact holdsSockaddr_of_sockaddrIn h
  | inet6 addr => exact holdsSockaddr_of_sockaddrIn6 h

/-- The metrics of an entry, as they are read back. -/
theorem fields_of_holds_rlocMtx {mtx : Mem} {rl : MapEntry} {rest : List UInt8}
    (h : Mem.Holds mtx (rl.rlocMtx ++ rest)) :
    mtx 0 = rl.priority ∧ mtx 1 = rl.weight ∧
      mtx.le16 2 = ((if rl.L then rlocfLif else 0) |||
        (if rl.r then rlocfUp else 0)).toNat := by
  rw [MapEntry.rlocMtx, List.append_assoc, List.append_assoc] at h
  obtain ⟨hhead, hflags⟩ := Mem.holds_append.mp h
  exact ⟨hhead 0 (by simp), hhead 1 (by simp),
    Mem.le16_of_holds (Mem.holds_append.mp hflags).1⟩

/-- The rest of the metrics is zero. -/
theorem zeros_of_holds_rlocMtx {mtx : Mem} {rl : MapEntry} {rest : List UInt8}
    (h : Mem.Holds mtx (rl.rlocMtx ++ rest)) : mtx.le32 4 = 0 ∧ mtx.le32 8 = 0 := by
  have hzero : ∀ i, 4 ≤ i → i < 16 → mtx i = 0 := by
    intro i hlow hhigh
    rw [MapEntry.rlocMtx, List.append_assoc, List.append_assoc] at h
    have htail := (Mem.holds_append.mp (Mem.holds_append.mp h).2).2
    have hi := (Mem.holds_append.mp htail).1 (i - 4) (by
      rw [List.length_replicate]
      omega)
    rw [List.getElem_replicate] at hi
    rw [← hi, List.length_cons, List.length_singleton, Mem.length_le16Bytes, Mem.advance,
      Mem.advance]
    congr 1
    omega
  simp [Mem.le32, Mem.le16, hzero]

/-- The sockaddr of an entry. -/
theorem length_sockaddr {rl : MapEntry} {addr : Address} (haddr : rl.rloc.address = some addr) :
    (rl.rloc.toBytes.getD []).length = addr.room := by
  obtain ⟨rloc, priority, weight, L, r⟩ := rl
  cases rloc with
  | inet port addr4 zero =>
      obtain rfl : Address.inet addr4 = addr := Option.some_inj.mp haddr
      exact length_sockaddrIn port addr4 zero
  | inet6 port flowinfo addr6 scopeId =>
      obtain rfl : Address.inet6 addr6 = addr := Option.some_inj.mp haddr
      exact length_sockaddrIn6 port flowinfo addr6 scopeId
  | other family => cases haddr

theorem toBytes_eq {rl : MapEntry} {addr : Address} (haddr : rl.rloc.address = some addr) :
    rl.toBytes.getD [] = rl.rloc.toBytes.getD [] ++ rl.rlocMtx := by
  obtain ⟨rloc, priority, weight, L, r⟩ := rl
  cases rloc with
  | inet port addr4 zero => rfl
  | inet6 port flowinfo addr6 scopeId => rfl
  | other family => cases haddr

theorem sockaddr_of_holds {buf : Mem} {rl : MapEntry} {addr : Address} {rest : List UInt8}
    (haddr : rl.rloc.address = some addr) (h : Mem.Holds buf (rl.toBytes.getD [] ++ rest)) :
    Mem.Holds buf (rl.rloc.toBytes.getD []) := by
  rw [toBytes_eq haddr, List.append_assoc] at h
  exact (Mem.holds_append.mp h).1

/-- An RLOC entry: its sockaddr, and the metrics behind it. -/
theorem entry_of_holds {buf : Mem} {rl : MapEntry} {addr : Address}
    {rest : List UInt8} (haddr : rl.rloc.address = some addr)
    (h : Mem.Holds buf (rl.toBytes.getD [] ++ rest)) :
    HoldsSockaddr buf addr ∧
      Mem.Holds (buf.advance addr.room) (rl.rlocMtx ++ rest) := by
  obtain ⟨rloc, priority, weight, L, r⟩ := rl
  cases rloc with
  | inet port addr4 zero =>
      obtain rfl : Address.inet addr4 = addr := Option.some_inj.mp haddr
      simp only [MapEntry.toBytes, SockUnion.toBytes, Option.map_some,
        Option.getD_some, List.append_assoc, Mem.holds_append] at h
      rw [length_sockaddrIn] at h
      exact ⟨holdsSockaddr_of_sockaddrIn h.1, Mem.holds_append.mpr h.2⟩
  | inet6 port flowinfo addr6 scopeId =>
      obtain rfl : Address.inet6 addr6 = addr := Option.some_inj.mp haddr
      simp only [MapEntry.toBytes, SockUnion.toBytes, Option.map_some,
        Option.getD_some, List.append_assoc, Mem.holds_append] at h
      rw [length_sockaddrIn6] at h
      exact ⟨holdsSockaddr_of_sockaddrIn6 h.1, Mem.holds_append.mpr h.2⟩
  | other family => cases haddr

end HyLisp.ControlPlane
