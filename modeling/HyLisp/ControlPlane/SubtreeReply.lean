import HyLisp.ControlPlane.RegisterMessage
import HyLisp.ControlPlane.ReplyWriter

/-!
# Map-Replies for a subtree

A Map-Reply has a record for the node that a request matches and for every mapping below
it.  The attributes of all the records are taken from the node that is matched, and the
version is converted before it is cut to its field.
-/

namespace HyLisp.ControlPlane

open DataPlane

/-- `sizeof(struct map_reply_hdr)` -/
def sizeofMapReplyHdr : ℕ := 12

/-! ## The message -/

/-- `ms_get_tree` -/
def msGetTree (flag : UInt8) : DbTree DbNode → List (Prefix × DbNode)
  | .nil => []
  | .node p nd left right =>
      (if nd.isType flag then [(p, nd)] else []) ++ msGetTree flag left ++
        msGetTree flag right

/-- The mappings of a subtree. -/
def mappings (rn : DbTree DbNode) : List (Prefix × DbNode) :=
  rn.nodes.filter fun e => e.2.isType (typeMapp ||| typeMappXtr)

/-- `udp_reply_add`, for a request with the probe bit given. -/
def udpReplyAdd (requestProbe : Option Bool) : RplEntry where
  recordCount := 0
  rlocProbe := false
  requestProbe := requestProbe
  body := []

section Reply

variable (fncs : Functions) (lispTe : Bool) (di : SockUnion)

/-- The locator count of a record, before it is cut to a byte. -/
def replyCount (info : List RegisterEntry) : ℕ :=
  if fncs.writesPaths lispTe then countPaths info else info.length

/-- The loop over the locators of a node. -/
def addReplyLocators : List RegisterEntry → RplEntry → Option RplEntry
  | [], rpk => some rpk
  | e :: rest, rpk =>
      (udpReplyAddLocator fncs lispTe di rpk e).bind (addReplyLocators rest)

/-- The loop over the nodes.  A node without a list of locators is a failed assertion. -/
def replyNodes (mflags : DbFlags) : List (Prefix × DbNode) → RplEntry → Option RplEntry
  | [], rpk => some rpk
  | (p, nd) :: rest, rpk =>
      match nd.info with
      | none => none
      | some (_, info) =>
          let rpk := udpReplyAddRecord rpk p (.ofNat mflags.ttl)
            (.ofNat (replyCount fncs lispTe info)) (.ofNat mflags.version)
            (if mflags.A then 1 else 0) mflags.act
          (addReplyLocators fncs lispTe di info rpk).bind (replyNodes mflags rest)

/-- `_request_reply`, for a node that has flags, up to the message that is sent.  A
message that does not fit its buffer is not one that can be relied on. -/
def requestReply (requestProbe : Option Bool) (rn : DbTree DbNode) : Option RplEntry :=
  match rn with
  | .nil => none
  | .node _ nd _ _ =>
      (nd.flags.bind fun mflags =>
        replyNodes fncs lispTe di mflags (msGetTree (typeMapp ||| typeMappXtr) rn)
          (udpReplyAdd requestProbe)).filter
            fun rpk => decide (sizeofMapReplyHdr + rpk.body.length ≤ pkbuflen)

/-! ## What the message is to hold -/

variable (rlocProbe : Bool)

/-- The locators that are written for a node. -/
def infoLocators : List RegisterEntry → Option (List (List UInt8))
  | [] => some []
  | e :: rest =>
      (replyLocators fncs lispTe rlocProbe di e).bind fun locators =>
        (infoLocators rest).map fun more => locators ++ more

end Reply

section Locators

variable {fncs : Functions} {lispTe rlocProbe : Bool} {di : SockUnion}
  {e : RegisterEntry} {info : List RegisterEntry} {locators : List (List UInt8)}

/-- What the loop over the locators adds. -/
theorem addReplyLocators_eq (info : List RegisterEntry) (rpk : RplEntry) :
    addReplyLocators fncs lispTe di info rpk =
      (infoLocators fncs lispTe di rpk.rlocProbe info).map fun locators =>
        { rpk with body := rpk.body ++ locators.flatten } := by
  induction info generalizing rpk with
  | nil => simp [addReplyLocators, infoLocators]
  | cons e info ih =>
      rw [addReplyLocators, infoLocators, udpReplyAddLocator]
      cases replyLocators fncs lispTe rpk.rlocProbe di e with
      | none => rfl
      | some locators =>
          rw [Option.map_some, Option.bind_some, Option.bind_some, ih, Option.map_map]
          simp [Function.comp_def]

end Locators

/-! ## Records -/

section Records

variable {fncs : Functions} {lispTe rlocProbe : Bool} {di : SockUnion} {mflags : DbFlags}
  {info : List RegisterEntry} {locators : List (List UInt8)}

/-- The bytes of the record of a node and of its locators. -/
def nodeBytes (fncs : Functions) (lispTe : Bool) (mflags : DbFlags) (p : Prefix)
    (info : List RegisterEntry) (locators : List (List UInt8)) : List UInt8 :=
  recordBytes p (.ofNat mflags.ttl) (.ofNat (replyCount fncs lispTe info))
    (.ofNat mflags.version) (if mflags.A then 1 else 0) mflags.act ++ locators.flatten

/-- The bytes of the records of several nodes. -/
def nodesBytes (fncs : Functions) (lispTe : Bool) (di : SockUnion) (rlocProbe : Bool)
    (mflags : DbFlags) : List (Prefix × DbNode) → Option (List UInt8)
  | [] => some []
  | (p, nd) :: rest =>
      match nd.info with
      | none => none
      | some (_, info) =>
          (infoLocators fncs lispTe di rlocProbe info).bind fun locators =>
            (nodesBytes fncs lispTe di rlocProbe mflags rest).map fun more =>
              nodeBytes fncs lispTe mflags p info locators ++ more

/-- The loop over the nodes adds their bytes, and counts them. -/
theorem replyNodes_eq (es : List (Prefix × DbNode)) {rpk : RplEntry}
    (hprobe : (rpk.rlocProbe || rpk.requestProbe.getD false) = rlocProbe) :
    (replyNodes fncs lispTe di mflags es rpk).map (fun rpk => (rpk.recordCount, rpk.body)) =
      (nodesBytes fncs lispTe di rlocProbe mflags es).map fun bytes =>
        (rpk.recordCount + .ofNat es.length, rpk.body ++ bytes) := by
  induction es generalizing rpk with
  | nil => simp [replyNodes, nodesBytes]
  | cons e es ih =>
      obtain ⟨p, nd⟩ := e
      rw [replyNodes, nodesBytes]
      cases nd.info with
      | none => rfl
      | some found =>
          obtain ⟨id, info⟩ := found
          dsimp only
          rw [addReplyLocators_eq, udpReplyAddRecord]
          dsimp only
          rw [hprobe]
          cases infoLocators fncs lispTe di rlocProbe info with
          | none => rfl
          | some locators =>
              rw [Option.map_some, Option.bind_some, Option.bind_some,
                ih (by rw [← hprobe, Bool.or_assoc, Bool.or_self]), Option.map_map]
              congr 1
              funext more
              simp [nodeBytes, UInt8.add_assoc, Nat.add_comm es.length]

theorem actByte_act {act : UInt8} (h : act < 8) (lcount : UInt8) (A : Bool) :
    actByte lcount (if A then 1 else 0) act >>> 5 = if lcount = 0 then act else 0 := by
  have hshift : ∀ A : Bool, ∀ b : BitVec 8, UInt8.ofBitVec b < 8 →
      (UInt8.ofBitVec b <<< 5 ||| ((if A then 1 else 0 : UInt8) &&& 1) <<< 4) >>> 5 =
        UInt8.ofBitVec b := by
    decide +kernel
  rw [actByte]
  split
  · exact hshift A act.toBitVec h
  · exact hshift A 0 (by decide)

end Records

/-- `ms_get_tree` finds the nodes of a type. -/
theorem msGetTree_eq (flag : UInt8) (t : DbTree DbNode) :
    msGetTree flag t = t.nodes.filter fun e => e.2.isType flag := by
  induction t with
  | nil => rfl
  | node p nd left right ihleft ihright =>
      rw [msGetTree, ihleft, ihright, DbTree.nodes, List.filter_cons, List.filter_append]
      split
      · rfl
      · rfl

section Reply

variable {fncs : Functions} {lispTe : Bool} {di : SockUnion} {requestProbe : Option Bool}
  {p : Prefix} {nd : DbNode} {left right : DbTree DbNode} {mflags : DbFlags}

/-- The Map-Reply for a node with flags. -/
theorem requestReply_eq (hflags : nd.flags = some mflags) :
    requestReply fncs lispTe di requestProbe (.node p nd left right) =
      (replyNodes fncs lispTe di mflags (mappings (.node p nd left right))
        (udpReplyAdd requestProbe)).filter
          fun rpk => decide (sizeofMapReplyHdr + rpk.body.length ≤ pkbuflen) := by
  rw [requestReply, hflags, Option.bind_some, msGetTree_eq]
  rfl

/-- The header counts the records, which are the body. -/
theorem replyNodes_udpReplyAdd (es : List (Prefix × DbNode)) :
    (replyNodes fncs lispTe di mflags es (udpReplyAdd requestProbe)).map
        (fun rpk => (rpk.recordCount, rpk.body)) =
      (nodesBytes fncs lispTe di (requestProbe.getD false) mflags es).map fun bytes =>
        (.ofNat es.length, bytes) := by
  have hprobe : ((udpReplyAdd requestProbe).rlocProbe ||
      (udpReplyAdd requestProbe).requestProbe.getD false) = requestProbe.getD false :=
    Bool.false_or _
  rw [replyNodes_eq es hprobe]
  simp [udpReplyAdd]

end Reply

end HyLisp.ControlPlane
