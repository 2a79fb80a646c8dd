import HyLisp.DataPlane.MapOutput
import HyLisp.Support.OrderedInsertion
import Mathlib.Data.List.Lex
import Mathlib.Tactic.IntervalCases

/-!
# The locator chain of a mapping

The RLOCs of a message are put into a chain in the order of their priorities and
addresses, and the status bits number them in this order.  The chain is the same for
every order of the RLOCs in the message.  An RLOC that occurs twice is an error, and so
is one with a nonce for the database; the RLOCs in front of it are then lost.
-/

namespace HyLisp.DataPlane.LocatorChain

/-- `rloc_mtx`; a nonce is kept as its 24 bits. -/
structure RlocMtx where
  priority : UInt8
  weight : UInt8
  flags : UInt16
  mtu : UInt32
  txNonce : UInt32
  rxNonce : UInt32
  deriving DecidableEq, Repr

/-- An RLOC as a message has it: its sockaddr with the room this takes, and its metrics. -/
structure Rloc where
  rlocAddr : List UInt8
  rlocmtx : RlocMtx
  deriving DecidableEq, Repr

/-- `locator`, with the block of its sockaddr and what lies behind the block. -/
structure Locator where
  rloc : Rloc
  behind : Mem
  rlocHit : UInt64

/-- The memory at `rloc_addr`. -/
def Locator.rlocAddr (l : Locator) : Mem :=
  Mem.ofList l.rloc.rlocAddr l.behind

/-- What ends a call: an error, or the read of a null pointer. -/
inductive Fault
  | errno (e : Errno)
  | nullPointer
  deriving DecidableEq, Repr

/-- The loop of `order_addr` and the comparison behind it. -/
def orderBytes : ℕ → Mem → Mem → Bool
  | 0, chptr1, chptr2 => chptr1 0 < chptr2 0
  | n + 1, chptr1, chptr2 =>
      if chptr1 0 = chptr2 0 then orderBytes n (chptr1.advance 1) (chptr2.advance 1)
      else chptr1 0 < chptr2 0

/-- `order_addr` -/
def orderAddr (saddr1 saddr2 : Mem) : Except Fault Bool :=
  if saddr1 1 ≠ saddr2 1 then .ok (saddr1 1 = afInet)
  else if saddr1 1 = afInet then
    .ok (orderBytes (ssSize (saddr1 0)) (saddr1.advance 4) (saddr2.advance 4))
  else if saddr1 1 = afInet6 then
    .ok (orderBytes (ssSize (saddr1 0)) (saddr1.advance 8) (saddr2.advance 8))
  else .error .nullPointer

/-- The loop of `map_insertrloc` that checks for duplicates. -/
def isDuplicate (newrloc : Locator) (rlocchain : List Locator) : Bool :=
  rlocchain.any fun rcp => rcp.rlocAddr 1 == newrloc.rlocAddr 1 &&
    Mem.sameBytes rcp.rlocAddr newrloc.rlocAddr (ssSize (rcp.rlocAddr 0))

/-- Whether the loop that looks for the place of `newrloc` goes on behind `rcp`. -/
def goesOn (rcp newrloc : Locator) : Except Fault Bool :=
  if rcp.rloc.rlocmtx.priority < newrloc.rloc.rlocmtx.priority then .ok true
  else if rcp.rloc.rlocmtx.priority = newrloc.rloc.rlocmtx.priority then
    orderAddr rcp.rlocAddr newrloc.rlocAddr
  else .ok false

/-- The rest of `map_insertrloc`. -/
def insertOrdered (newrloc : Locator) : List Locator → Except Fault (List Locator)
  | [] => .ok [newrloc]
  | rcp :: next => do
      if ← goesOn rcp newrloc then return rcp :: (← insertOrdered newrloc next)
      else return newrloc :: rcp :: next

/-- `map_insertrloc` -/
def mapInsertrloc (rlocchain : List Locator) (newrloc : Locator) :
    Except Fault (List Locator) :=
  if isDuplicate newrloc rlocchain then .error (.errno .einval)
  else insertOrdered newrloc rlocchain

/-- `htonl` on a little-endian host. -/
def htonl (x : UInt32) : UInt32 :=
  x <<< 24 ||| (x <<< 8 &&& (0xFF0000 : UInt32)) ||| (x >>> 8 &&& (0xFF00 : UInt32)) ||| x >>> 24

/-- `map_copylsbit`, from the locator number `ct` on. -/
def mapCopylsbit : ℕ → List Locator → UInt32 → UInt32
  | _, [], locbits => locbits
  | ct, l :: next, locbits =>
      if ct ≤ 32 then
        mapCopylsbit (ct + 1) next
          (if l.rloc.rlocmtx.flags &&& rlocfUp ≠ 0 then
            locbits ||| htonl (1 <<< UInt32.ofNat (ct % 32))
          else locbits)
      else locbits

/-- The RLOC that `map_setrlocs` reads at `cp`. -/
def readRloc (mapmsg : Mem) (db : Bool) (cp : ℕ) : Rloc :=
  let ss := mapmsg.advance cp
  let mtx := ss.advance (ssSize (ss 0))
  { rlocAddr := ss.toList (ssSize (ss 0))
    rlocmtx :=
      { priority := mtx 0
        weight := mtx 1
        flags := .ofNat (mtx.le16 2)
        mtu := .ofNat (mtx.le32 4)
        txNonce := if db then 0 else htonl (UInt32.ofNat (mtx.le32 8) >>> 8) >>> 8
        rxNonce := 0 } }

/-- The loop of `map_setrlocs`.  An error comes with the locators that were allocated. -/
def setrlocsLoop (behind : ℕ → Mem) (mapmsg : Mem) (db : Bool) :
    ℕ → ℕ → List Locator → Except (Fault × List Locator) (List Locator)
  | 0, _, lc => .ok lc
  | rlocsCounter + 1, cp, lc =>
      let rloc := readRloc mapmsg db cp
      if db ∧ rloc.rlocmtx.flags &&& rlocfTxnonce ≠ 0 then .error (.errno .einval, lc)
      else
        match mapInsertrloc lc ⟨rloc, behind rlocsCounter, 0⟩ with
        | .error fault => .error (fault, lc)
        | .ok lc =>
            setrlocsLoop behind mapmsg db rlocsCounter
              (cp + ssSize (mapmsg cp) + sizeofRlocMtx) lc

/-- `map_setrlocs`: the chain and the status bits.  On an error the locators allocated so
far are neither handed over nor freed. -/
def mapSetrlocs (behind : ℕ → Mem) (mapmsg : Mem) (db : Bool) (rlocsCt cp : ℕ)
    (lsbits : UInt32) : Except (Fault × List Locator) (List Locator × UInt32) :=
  (setrlocsLoop behind mapmsg db rlocsCt cp []).map fun lc => (lc, mapCopylsbit 0 lc lsbits)

/-- `maprequest` with `MAPM_ADD`, in what it does with the message: its own checks, and the
RLOCs of the new mapping with their status bits.  The tables are not looked at. -/
def maprequestAdd (behind : ℕ → Mem) (mapmsg : Mem) (info : MapAddrinfo) :
    Except Fault (List Locator × UInt32) :=
  let negative := info.mapiFlags &&& mapfNegative ≠ 0
  if info.mapiFlags &&& mapfAll ≠ 0 then .error (.errno .einval)
  else if info.eid = none ∨ (¬negative ∧ (info.rloc = none ∨ info.mapiRlocCount = 0)) ∨
      (negative ∧ (info.rloc ≠ none ∨ info.mapiRlocCount ≠ 0)) then
    .error (.errno .einval)
  else
    match info.rloc with
    | none => .ok ([], 0)
    | some rloc =>
        (mapSetrlocs behind mapmsg (info.mapiFlags &&& mapfDb ≠ 0)
          info.mapiRlocCount.toNat rloc 0).mapError Prod.fst

/-! ## RLOCs with an address -/

/-- The sockaddr of the RLOC holds the address, in the room for one of its family. -/
structure Rloc.Holds (r : Rloc) (addr : Address) : Prop where
  length : r.rlocAddr.length = addr.room
  sockaddr : HoldsSockaddr (Mem.ofList r.rlocAddr fun _ => 0) addr

/-- The RLOCs of a message. -/
def rlocsOf (mapmsg : Mem) (db : Bool) : ℕ → ℕ → List Rloc
  | 0, _ => []
  | rlocsCounter + 1, cp =>
      readRloc mapmsg db cp ::
        rlocsOf mapmsg db rlocsCounter (cp + ssSize (mapmsg cp) + sizeofRlocMtx)

theorem length_rlocsOf (mapmsg : Mem) (db : Bool) (n cp : ℕ) :
    (rlocsOf mapmsg db n cp).length = n := by
  induction n generalizing cp with
  | zero => rfl
  | succ n ih => rw [rlocsOf, List.length_cons, ih]

/-- The order of addresses: IPv4 before IPv6, and within a family by all bytes. -/
def addressKey : Address → List ℕ
  | .inet addr => 0 :: addr.toList.map UInt8.toNat
  | .inet6 addr => 1 :: addr.toList.map UInt8.toNat

/-- The address of an RLOC. -/
def Rloc.address (r : Rloc) : Option Address :=
  sockaddrAddress (Mem.ofList r.rlocAddr fun _ => 0)

/-- The order of RLOCs: by priority, and then by address. -/
def Rloc.key (r : Rloc) : List ℕ :=
  r.rlocmtx.priority.toNat :: (r.address.map addressKey).getD []

/-! ## Addresses -/

theorem holdsSockaddr_congr {ss ss' : Mem} {addr : Address} (h : Mem.Agree addr.room ss ss')
    (hss : HoldsSockaddr ss addr) : HoldsSockaddr ss' addr := by
  have hroom : 2 ≤ addr.room := by
    cases addr with
    | inet addr => exact (by decide : 2 ≤ 16)
    | inet6 addr => exact (by decide : 2 ≤ 32)
  have h0 := h 0 (by omega)
  have h1 := h 1 (by omega)
  refine ⟨h0 ▸ hss.length_ne_zero, h0 ▸ hss.length_le, h0 ▸ hss.ssSize_eq, h1 ▸ hss.family, ?_⟩
  have haddr := hss.address
  rw [sockaddrAddress, h1] at haddr
  rw [sockaddrAddress]
  by_cases hinet : ss' 1 = afInet
  · rw [if_pos hinet] at haddr ⊢
    obtain rfl := Option.some.inj haddr
    rw [h.bytes (by decide : 4 + 4 ≤ 16)]
  · rw [if_neg hinet] at haddr ⊢
    by_cases hinet6 : ss' 1 = afInet6
    · rw [if_pos hinet6] at haddr ⊢
      obtain rfl := Option.some.inj haddr
      rw [h.bytes (by decide : 8 + 16 ≤ 32)]
    · rw [if_neg hinet6] at haddr
      cases haddr

theorem agree_ofList (data : List UInt8) (rest rest' : Mem) :
    Mem.Agree data.length (Mem.ofList data rest) (Mem.ofList data rest') := by
  intro i hi
  rw [Mem.ofList, Mem.ofList, dif_pos hi, dif_pos hi]

/-- What lies behind the block of an RLOC does not matter. -/
theorem Locator.holdsSockaddr {l : Locator} {addr : Address} (h : l.rloc.Holds addr) :
    HoldsSockaddr l.rlocAddr addr := by
  have hagree := agree_ofList l.rloc.rlocAddr (fun _ => 0) l.behind
  rw [h.length] at hagree
  exact holdsSockaddr_congr hagree h.sockaddr

theorem Rloc.Holds.address_eq {r : Rloc} {addr : Address} (h : r.Holds addr) :
    r.address = some addr :=
  h.sockaddr.address

theorem Rloc.Holds.key_eq {r : Rloc} {addr : Address} (h : r.Holds addr) :
    r.key = r.rlocmtx.priority.toNat :: addressKey addr := by
  rw [Rloc.key, h.address_eq]
  rfl

theorem map_toNat_inj {xs ys : List UInt8} :
    xs.map UInt8.toNat = ys.map UInt8.toNat ↔ xs = ys :=
  List.map_inj_right fun _ _ h => UInt8.toNat_inj.mp h

theorem addressKey_inj {a b : Address} : addressKey a = addressKey b ↔ a = b := by
  cases a with
  | inet addr =>
      cases b with
      | inet addr' =>
          rw [addressKey, addressKey, List.cons_inj_right, map_toNat_inj, Vector.toList_inj,
            Address.inet.injEq]
      | inet6 addr' => simp [addressKey]
  | inet6 addr =>
      cases b with
      | inet addr' => simp [addressKey]
      | inet6 addr' =>
          rw [addressKey, addressKey, List.cons_inj_right, map_toNat_inj, Vector.toList_inj,
            Address.inet6.injEq]

theorem cons_le_cons_self {n : ℕ} {xs ys : List ℕ} : n :: xs ≤ n :: ys ↔ xs ≤ ys := by
  rw [← not_lt, ← not_lt, List.cons_lt_cons_self]

/-! ## The comparison -/

/-- Where the first `n` bytes differ, they are compared like lists. -/
theorem orderBytes_eq {n k : ℕ} {a b : Mem} (hn : n ≤ k) (hne : a.toList n ≠ b.toList n) :
    orderBytes k a b = decide ((a.toList n).map UInt8.toNat < (b.toList n).map UInt8.toNat) := by
  induction k generalizing n a b with
  | zero =>
      obtain rfl := Nat.le_zero.mp hn
      exact absurd rfl hne
  | succ k ih =>
      cases n with
      | zero => exact absurd rfl hne
      | succ n =>
          rw [Nat.add_comm n 1, Mem.toList_add, Mem.toList_add] at hne ⊢
          have hone : ∀ m : Mem, m.toList 1 = [m 0] := fun _ => rfl
          rw [hone, hone, List.singleton_append, List.singleton_append] at hne ⊢
          rw [orderBytes, List.map_cons, List.map_cons]
          by_cases hhead : a 0 = b 0
          · rw [if_pos hhead]
            rw [hhead] at hne ⊢
            rw [ih (Nat.le_of_succ_le_succ hn) fun h => hne (congrArg _ h)]
            exact decide_eq_decide.mpr List.cons_lt_cons_self.symm
          · rw [if_neg hhead]
            have hnat : (a 0).toNat ≠ (b 0).toNat := fun h => hhead (UInt8.toNat_inj.mp h)
            apply decide_eq_decide.mpr
            rw [UInt8.lt_iff_toNat_lt]
            constructor
            · intro hlt
              exact List.Lex.rel hlt
            · intro hlex
              rcases List.cons_lt_cons_iff.mp hlex with hlt | ⟨heq, -⟩
              · exact hlt
              · exact absurd heq hnat

section Compare

variable {a b : Address} {ss ss' : Mem}

theorem bytes_toList {m : Mem} {k n : ℕ} : (m.bytes k n).toList = (m.advance k).toList n := by
  apply List.ext_getElem
  · rw [Vector.length_toList, Mem.length_toList]
  · intro i hi _
    rw [Vector.length_toList] at hi
    rw [Vector.getElem_toList, Mem.getElem_bytes]
    simp [Mem.toList]

theorem bytes_of_inet {addr : Vector UInt8 4} (h : HoldsSockaddr ss (.inet addr)) :
    ss 1 = afInet ∧ (ss.advance 4).toList 4 = addr.toList ∧ ssSize (ss 0) = 16 := by
  have haddr := h.address
  rw [sockaddrAddress] at haddr
  by_cases hinet : ss 1 = afInet
  · rw [if_pos hinet] at haddr
    rw [← bytes_toList, Address.inet.inj (Option.some.inj haddr)]
    exact ⟨hinet, rfl, h.ssSize_eq⟩
  · rw [if_neg hinet] at haddr
    split at haddr
    all_goals cases haddr

theorem bytes_of_inet6 {addr : Vector UInt8 16} (h : HoldsSockaddr ss (.inet6 addr)) :
    ss 1 = afInet6 ∧ (ss.advance 8).toList 16 = addr.toList ∧ ssSize (ss 0) = 32 := by
  have haddr := h.address
  rw [sockaddrAddress] at haddr
  by_cases hinet : ss 1 = afInet
  · rw [if_pos hinet] at haddr
    cases haddr
  · rw [if_neg hinet] at haddr
    by_cases hinet6 : ss 1 = afInet6
    · rw [if_pos hinet6] at haddr
      rw [← bytes_toList, Address.inet6.inj (Option.some.inj haddr)]
      exact ⟨hinet6, rfl, h.ssSize_eq⟩
    · rw [if_neg hinet6] at haddr
      cases haddr

theorem orderAddr_of_inet {addr addr' : Vector UInt8 4} (h : HoldsSockaddr ss (.inet addr))
    (h' : HoldsSockaddr ss' (.inet addr')) :
    orderAddr ss ss' = .ok (orderBytes 16 (ss.advance 4) (ss'.advance 4)) := by
  obtain ⟨hfamily, -, hsize⟩ := bytes_of_inet h
  obtain ⟨hfamily', -, -⟩ := bytes_of_inet h'
  rw [orderAddr, hfamily, hfamily', if_neg (not_not_intro rfl), if_pos rfl, hsize]

theorem orderAddr_of_inet6 {addr addr' : Vector UInt8 16} (h : HoldsSockaddr ss (.inet6 addr))
    (h' : HoldsSockaddr ss' (.inet6 addr')) :
    orderAddr ss ss' = .ok (orderBytes 32 (ss.advance 8) (ss'.advance 8)) := by
  obtain ⟨hfamily, -, hsize⟩ := bytes_of_inet6 h
  obtain ⟨hfamily', -, -⟩ := bytes_of_inet6 h'
  rw [orderAddr, hfamily, hfamily', if_neg (not_not_intro rfl), if_neg (by decide), if_pos rfl,
    hsize]

/-- Of two addresses `order_addr` tells which one is smaller. -/
theorem orderAddr_of_ne (h : HoldsSockaddr ss a) (h' : HoldsSockaddr ss' b) (hne : a ≠ b) :
    orderAddr ss ss' = .ok (decide (addressKey a < addressKey b)) := by
  cases a with
  | inet addr =>
      obtain ⟨hfamily, hbytes, -⟩ := bytes_of_inet h
      cases b with
      | inet addr' =>
          obtain ⟨-, hbytes', -⟩ := bytes_of_inet h'
          have hlist : addr.toList ≠ addr'.toList :=
            fun heq => hne (congrArg Address.inet (Vector.toList_inj.mp heq))
          rw [← hbytes, ← hbytes'] at hlist
          rw [orderAddr_of_inet h h', orderBytes_eq (by decide) hlist, hbytes, hbytes']
          exact congrArg _ (decide_eq_decide.mpr List.cons_lt_cons_self.symm)
      | inet6 addr' =>
          obtain ⟨hfamily', -, -⟩ := bytes_of_inet6 h'
          rw [orderAddr, hfamily, hfamily', if_pos (by decide)]
          exact congrArg _ (decide_eq_decide.mpr
            (iff_of_true rfl (List.Lex.rel Nat.one_pos)))
  | inet6 addr =>
      obtain ⟨hfamily, hbytes, -⟩ := bytes_of_inet6 h
      cases b with
      | inet addr' =>
          obtain ⟨hfamily', -, -⟩ := bytes_of_inet h'
          rw [orderAddr, hfamily, hfamily', if_pos (by decide)]
          exact congrArg _ (decide_eq_decide.mpr
            (iff_of_false (by decide) (not_lt_of_gt (List.Lex.rel Nat.one_pos))))
      | inet6 addr' =>
          obtain ⟨-, hbytes', -⟩ := bytes_of_inet6 h'
          have hlist : addr.toList ≠ addr'.toList :=
            fun heq => hne (congrArg Address.inet6 (Vector.toList_inj.mp heq))
          rw [← hbytes, ← hbytes'] at hlist
          rw [orderAddr_of_inet6 h h', orderBytes_eq (by decide) hlist, hbytes, hbytes']
          exact congrArg _ (decide_eq_decide.mpr List.cons_lt_cons_self.symm)

/-- `order_addr` never puts a greater address in front. -/
theorem orderAddr_spec (h : HoldsSockaddr ss a) (h' : HoldsSockaddr ss' b) :
    ∃ smaller, orderAddr ss ss' = .ok smaller ∧
      (smaller = true → addressKey a ≤ addressKey b) ∧
      (smaller = false → addressKey b ≤ addressKey a) := by
  by_cases heq : a = b
  · subst heq
    cases a with
    | inet addr =>
        exact ⟨_, orderAddr_of_inet h h', fun _ => le_refl _, fun _ => le_refl _⟩
    | inet6 addr =>
        exact ⟨_, orderAddr_of_inet6 h h', fun _ => le_refl _, fun _ => le_refl _⟩
  · refine ⟨_, orderAddr_of_ne h h' heq, fun hlt => ?_, fun hge => ?_⟩
    · exact (of_decide_eq_true hlt).le
    · exact not_lt.mp (of_decide_eq_false hge)

end Compare

/-! ## Insertion -/

section Insert

variable {l : Locator} (new : Locator) {chain : List Locator}

/-- Each locator of the chain has an address. -/
def HaveAddresses (chain : List Locator) : Prop :=
  ∀ l ∈ chain, ∃ addr, l.rloc.Holds addr

theorem goesOn_spec (hl : ∃ addr, l.rloc.Holds addr) (hnew : ∃ addr, new.rloc.Holds addr) :
    ∃ on, goesOn l new = .ok on ∧ (on = true → l.rloc.key ≤ new.rloc.key) ∧
      (on = false → new.rloc.key ≤ l.rloc.key) := by
  obtain ⟨a, ha⟩ := hl
  obtain ⟨b, hb⟩ := hnew
  rw [ha.key_eq, hb.key_eq, goesOn]
  rcases Nat.lt_trichotomy l.rloc.rlocmtx.priority.toNat new.rloc.rlocmtx.priority.toNat with
    hlt | heq | hgt
  · rw [if_pos (UInt8.lt_iff_toNat_lt.mpr hlt)]
    exact ⟨true, rfl, fun _ => le_of_lt (List.Lex.rel hlt), fun h => absurd h (by decide)⟩
  · rw [if_neg (mt UInt8.lt_iff_toNat_lt.mp (Nat.not_lt.mpr heq.ge)),
      if_pos (UInt8.toNat_inj.mp heq), heq, cons_le_cons_self, cons_le_cons_self]
    exact orderAddr_spec (Locator.holdsSockaddr ha) (Locator.holdsSockaddr hb)
  · rw [if_neg (mt UInt8.lt_iff_toNat_lt.mp (Nat.not_lt.mpr hgt.le)),
      if_neg fun heq => hgt.ne' (congrArg UInt8.toNat heq)]
    exact ⟨false, rfl, fun h => absurd h (by decide), fun _ => le_of_lt (List.Lex.rel hgt)⟩

/-- The chain is in the order of the keys. -/
def Sorted (chain : List Locator) : Prop :=
  chain.Pairwise fun a b => a.rloc.key ≤ b.rloc.key

/-- The new locator comes to its place in the chain. -/
theorem insertOrdered_spec (hchain : HaveAddresses chain)
    (hnew : ∃ addr, new.rloc.Holds addr) :
    ∃ chain', insertOrdered new chain = .ok chain' ∧ chain'.Perm (new :: chain) ∧
      (Sorted chain → Sorted chain') := by
  induction chain with
  | nil => exact ⟨[new], rfl, List.Perm.refl _, fun _ => List.pairwise_singleton _ _⟩
  | cons l chain ih =>
      obtain ⟨on, hon, hbefore, hbehind⟩ := goesOn_spec new (hchain l List.mem_cons_self) hnew
      obtain ⟨rest, hrest, hperm, hsorted⟩ :=
        ih fun l' hl' => hchain l' (List.mem_cons_of_mem _ hl')
      cases on with
      | true =>
          refine ⟨l :: rest, ?_, (hperm.cons l).trans (List.Perm.swap _ _ _), fun h => ?_⟩
          · simp only [insertOrdered, hon, hrest]
            rfl
          · obtain ⟨hhead, htail⟩ := List.pairwise_cons.mp h
            refine List.pairwise_cons.mpr ⟨fun l' hl' => ?_, hsorted htail⟩
            rcases List.mem_cons.mp (hperm.mem_iff.mp hl') with rfl | hmem
            · exact hbefore rfl
            · exact hhead l' hmem
      | false =>
          refine ⟨new :: l :: chain, ?_, List.Perm.refl _, fun h => ?_⟩
          · simp only [insertOrdered, hon]
            rfl
          · obtain ⟨hhead, -⟩ := List.pairwise_cons.mp h
            refine List.pairwise_cons.mpr ⟨fun l' hl' => ?_, h⟩
            rcases List.mem_cons.mp hl' with rfl | hmem
            · exact hbehind rfl
            · exact (hbehind rfl).trans (hhead l' hmem)

theorem sameBytes_iff_toList {a b : Mem} {n : ℕ} :
    Mem.sameBytes a b n = true ↔ a.toList n = b.toList n := by
  rw [Mem.sameBytes_iff, Mem.toList, Mem.toList, List.map_inj_left]
  simp only [List.mem_range]

theorem toList_ofList_length (data : List UInt8) (rest : Mem) :
    (Mem.ofList data rest).toList data.length = data := by
  apply List.ext_getElem
  · rw [Mem.length_toList]
  · intro i _ hi
    simp [Mem.toList, Mem.ofList, hi]

/-- A duplicate is a sockaddr that the chain has already. -/
theorem isDuplicate_iff (hchain : HaveAddresses chain) (hnew : ∃ addr, new.rloc.Holds addr) :
    isDuplicate new chain = true ↔ new.rloc.rlocAddr ∈ chain.map fun l => l.rloc.rlocAddr := by
  obtain ⟨b, hb⟩ := hnew
  rw [isDuplicate, List.any_eq_true, List.mem_map]
  refine exists_congr fun l => and_congr_right fun hl => ?_
  obtain ⟨a, ha⟩ := hchain l hl
  have hsize := (Locator.holdsSockaddr ha).ssSize_eq
  have hlist := toList_ofList_length l.rloc.rlocAddr l.behind
  rw [ha.length, ← hsize] at hlist
  rw [Bool.and_eq_true, beq_iff_eq, sameBytes_iff_toList]
  constructor
  · rintro ⟨-, hsame⟩
    have hsize' : ssSize (l.rlocAddr 0) = new.rloc.rlocAddr.length := by
      have hzero := sameBytes_iff_toList.mpr hsame
      have hpos : 0 < ssSize (l.rlocAddr 0) := by
        rw [hsize]
        cases a with
        | inet addr => exact (by decide : 0 < 16)
        | inet6 addr => exact (by decide : 0 < 32)
      rw [Mem.sameBytes_iff.mp hzero 0 hpos, (Locator.holdsSockaddr hb).ssSize_eq, hb.length]
    have hlist' := toList_ofList_length new.rloc.rlocAddr new.behind
    rw [← hsize', ← Locator.rlocAddr, ← hsame] at hlist'
    exact hlist.symm.trans hlist'
  · intro heq
    have hroom : l.rloc.rlocAddr.length = ssSize (l.rlocAddr 0) := by rw [ha.length, hsize]
    have hagree : Mem.Agree l.rloc.rlocAddr.length l.rlocAddr new.rlocAddr := by
      rw [Locator.rlocAddr, Locator.rlocAddr, ← heq]
      exact agree_ofList _ _ _
    have htwo : 1 < l.rloc.rlocAddr.length := by
      rw [ha.length]
      cases a with
      | inet addr => exact (by decide : 1 < 16)
      | inet6 addr => exact (by decide : 1 < 32)
    exact ⟨hagree 1 htwo, hroom ▸ hagree.toList⟩

end Insert

/-! ## The RLOCs of a message -/

/-- The number of the first RLOC that is refused: it has a nonce for the database, or a
sockaddr that was seen before. -/
def firstRefused (db : Bool) : List (List UInt8) → List Rloc → Option ℕ
  | _, [] => none
  | seen, r :: rs =>
      if (db ∧ r.rlocmtx.flags &&& rlocfTxnonce ≠ 0) ∨ r.rlocAddr ∈ seen then some 0
      else (firstRefused db (r.rlocAddr :: seen) rs).map (· + 1)

theorem firstRefused_congr {db : Bool} {rs : List Rloc} {seen seen' : List (List UInt8)}
    (h : ∀ ss, ss ∈ seen ↔ ss ∈ seen') : firstRefused db seen rs = firstRefused db seen' rs := by
  induction rs generalizing seen seen' with
  | nil => rfl
  | cons r rs ih =>
      have hcons : ∀ ss, ss ∈ r.rlocAddr :: seen ↔ ss ∈ r.rlocAddr :: seen' := by
        intro ss
        rw [List.mem_cons, List.mem_cons, h]
      rw [firstRefused, firstRefused, ih hcons]
      simp only [h]

/-- No RLOC is refused when the sockaddrs differ, and no nonce is for the database. -/
theorem firstRefused_eq_none_iff {db : Bool} {rs : List Rloc} {seen : List (List UInt8)} :
    firstRefused db seen rs = none ↔
      (∀ r ∈ rs, ¬(db ∧ r.rlocmtx.flags &&& rlocfTxnonce ≠ 0) ∧ r.rlocAddr ∉ seen) ∧
        (rs.map Rloc.rlocAddr).Nodup := by
  induction rs generalizing seen with
  | nil => exact iff_of_true rfl ⟨fun r hr => absurd hr List.not_mem_nil, List.nodup_nil⟩
  | cons r rs ih =>
      rw [firstRefused, List.map_cons, List.nodup_cons, List.forall_mem_cons]
      by_cases hr : (db ∧ r.rlocmtx.flags &&& rlocfTxnonce ≠ 0) ∨ r.rlocAddr ∈ seen
      · rw [if_pos hr]
        refine iff_of_false (by simp) fun h => ?_
        rcases hr with hnonce | hseen
        · exact h.1.1.1 hnonce
        · exact h.1.1.2 hseen
      · rw [if_neg hr, Option.map_eq_none_iff, ih]
        rw [not_or] at hr
        constructor
        · rintro ⟨hall, hnodup⟩
          refine ⟨⟨hr, fun r' hr' => ?_⟩, fun hmem => ?_, hnodup⟩
          · exact ⟨(hall r' hr').1, fun hseen => (hall r' hr').2 (List.mem_cons_of_mem _ hseen)⟩
          · obtain ⟨r', hr', heq⟩ := List.mem_map.mp hmem
            exact (hall r' hr').2 (heq ▸ List.mem_cons_self)
        · rintro ⟨⟨-, hall⟩, hnot, hnodup⟩
          refine ⟨fun r' hr' => ⟨(hall r' hr').1, fun hseen => ?_⟩, hnodup⟩
          rcases List.mem_cons.mp hseen with heq | hmem
          · exact hnot (heq ▸ List.mem_map_of_mem hr')
          · exact (hall r' hr').2 hmem

section Setrlocs

variable {behind : ℕ → Mem} {mapmsg : Mem} {db : Bool}

/-- The chain that the loop makes out of `lc` and the RLOCs `rs`, or what it loses. -/
def LoopResult (db : Bool) (lc : List Locator) (rs : List Rloc) :
    Except (Fault × List Locator) (List Locator) → Prop
  | .ok chain =>
      firstRefused db (lc.map fun l => l.rloc.rlocAddr) rs = none ∧
        (chain.map Locator.rloc).Perm (lc.map Locator.rloc ++ rs) ∧ (Sorted lc → Sorted chain)
  | .error (fault, lost) =>
      fault = .errno .einval ∧ ∃ k,
        firstRefused db (lc.map fun l => l.rloc.rlocAddr) rs = some k ∧
          (lost.map Locator.rloc).Perm (lc.map Locator.rloc ++ rs.take k)

/-- The next RLOC is inserted, and the loop goes on. -/
theorem LoopResult.cons (new : Locator) {lc lc' : List Locator} {rs : List Rloc}
    {result : Except (Fault × List Locator) (List Locator)}
    (hnonce : ¬(db ∧ new.rloc.rlocmtx.flags &&& rlocfTxnonce ≠ 0))
    (hmem : new.rloc.rlocAddr ∉ lc.map fun l => l.rloc.rlocAddr) (hperm : lc'.Perm (new :: lc))
    (hsorted : Sorted lc → Sorted lc') (h : LoopResult db lc' rs result) :
    LoopResult db lc (new.rloc :: rs) result := by
  have hseen : firstRefused db (lc'.map fun l => l.rloc.rlocAddr) rs =
      firstRefused db (new.rloc.rlocAddr :: lc.map fun l => l.rloc.rlocAddr) rs :=
    firstRefused_congr fun ss => (hperm.map fun l => l.rloc.rlocAddr).mem_iff
  have hgo : firstRefused db (lc.map fun l => l.rloc.rlocAddr) (new.rloc :: rs) =
      (firstRefused db (lc'.map fun l => l.rloc.rlocAddr) rs).map (· + 1) := by
    rw [firstRefused, if_neg (not_or.mpr ⟨hnonce, hmem⟩), hseen]
  have hstep : ∀ rs : List Rloc, (lc'.map Locator.rloc ++ rs).Perm
      (lc.map Locator.rloc ++ new.rloc :: rs) := by
    intro rs
    have hrlocs : (lc'.map Locator.rloc).Perm (new.rloc :: lc.map Locator.rloc) :=
      hperm.map Locator.rloc
    exact (hrlocs.append_right rs).trans List.perm_middle.symm
  cases result with
  | ok chain =>
      obtain ⟨hnone, hchain, hsort⟩ := h
      refine ⟨?_, hchain.trans (hstep rs), fun hlc => hsort (hsorted hlc)⟩
      rw [hgo, hnone, Option.map_none]
  | error e =>
      obtain ⟨hfault, k, hk, hlost⟩ := h
      refine ⟨hfault, k + 1, ?_, hlost.trans (hstep (rs.take k))⟩
      rw [hgo, hk, Option.map_some]

theorem setrlocsLoop_spec {n cp : ℕ} {lc : List Locator} (hlc : HaveAddresses lc)
    (hrs : ∀ r ∈ rlocsOf mapmsg db n cp, ∃ addr, r.Holds addr) :
    LoopResult db lc (rlocsOf mapmsg db n cp) (setrlocsLoop behind mapmsg db n cp lc) := by
  induction n generalizing cp lc with
  | zero =>
      refine ⟨rfl, ?_, id⟩
      rw [rlocsOf, List.append_nil]
  | succ n ih =>
      rw [rlocsOf] at hrs ⊢
      have hnew := hrs _ List.mem_cons_self
      have hdup := isDuplicate_iff ⟨readRloc mapmsg db cp, behind n, 0⟩ hlc hnew
      rw [setrlocsLoop]
      by_cases hnonce : db ∧ (readRloc mapmsg db cp).rlocmtx.flags &&& rlocfTxnonce ≠ 0
      · rw [if_pos hnonce]
        refine ⟨rfl, 0, if_pos (Or.inl hnonce), ?_⟩
        rw [List.take_zero, List.append_nil]
      · rw [if_neg hnonce]
        by_cases hmem : (readRloc mapmsg db cp).rlocAddr ∈ lc.map fun l => l.rloc.rlocAddr
        · have hinsert : mapInsertrloc lc ⟨readRloc mapmsg db cp, behind n, 0⟩ =
              .error (.errno .einval) := if_pos (hdup.mpr hmem)
          rw [hinsert]
          refine ⟨rfl, 0, if_pos (Or.inr hmem), ?_⟩
          rw [List.take_zero, List.append_nil]
        · obtain ⟨lc', hlc', hperm, hsorted⟩ :=
            insertOrdered_spec ⟨readRloc mapmsg db cp, behind n, 0⟩ hlc hnew
          have hinsert : mapInsertrloc lc ⟨readRloc mapmsg db cp, behind n, 0⟩ = .ok lc' :=
            (if_neg (mt hdup.mp hmem)).trans hlc'
          have haddresses : HaveAddresses lc' := by
            intro l hl
            rcases List.mem_cons.mp (hperm.mem_iff.mp hl) with rfl | hl'
            · exact hnew
            · exact hlc l hl'
          have hrest := @ih (cp + ssSize (mapmsg cp) + sizeofRlocMtx) lc' haddresses
            fun r hr => hrs r (List.mem_cons_of_mem _ hr)
          have hcons := LoopResult.cons ⟨readRloc mapmsg db cp, behind n, 0⟩
            hnonce hmem hperm hsorted hrest
          rw [hinsert]
          exact hcons

/-- `map_setrlocs` hands over all RLOCs in order, or refuses one of them and loses those in
front of it. -/
theorem mapSetrlocs_cases (behind : ℕ → Mem) {n cp : ℕ} (lsbits : UInt32)
    (hrs : ∀ r ∈ rlocsOf mapmsg db n cp, ∃ addr, r.Holds addr) :
    (firstRefused db [] (rlocsOf mapmsg db n cp) = none →
      ∃ chain, mapSetrlocs behind mapmsg db n cp lsbits =
          .ok (chain, mapCopylsbit 0 chain lsbits) ∧
        (chain.map Locator.rloc).Perm (rlocsOf mapmsg db n cp) ∧ Sorted chain) ∧
      ∀ k, firstRefused db [] (rlocsOf mapmsg db n cp) = some k →
        ∃ lost, mapSetrlocs behind mapmsg db n cp lsbits = .error (.errno .einval, lost) ∧
          (lost.map Locator.rloc).Perm ((rlocsOf mapmsg db n cp).take k) := by
  have hspec : LoopResult db [] (rlocsOf mapmsg db n cp)
      (setrlocsLoop behind mapmsg db n cp []) :=
    setrlocsLoop_spec (fun l hl => absurd hl List.not_mem_nil) hrs
  rw [mapSetrlocs]
  cases hloop : setrlocsLoop behind mapmsg db n cp [] with
  | ok chain =>
      rw [hloop] at hspec
      obtain ⟨hnone, hperm, hsorted⟩ := hspec
      refine ⟨fun _ => ⟨chain, rfl, hperm, hsorted List.Pairwise.nil⟩, fun k hk => ?_⟩
      cases hnone.symm.trans hk
  | error e =>
      obtain ⟨fault, lost⟩ := e
      rw [hloop] at hspec
      obtain ⟨rfl, k, hk, hperm⟩ := hspec
      refine ⟨fun hnone => ?_, fun k' hk' => ?_⟩
      · cases hnone.symm.trans hk
      · obtain rfl := Option.some.inj (hk.symm.trans hk')
        exact ⟨lost, rfl, hperm⟩

end Setrlocs

/-! ## Status bits -/

/-- The RLOC is up. -/
def Rloc.up (r : Rloc) : Bool :=
  r.rlocmtx.flags &&& rlocfUp ≠ 0

theorem htonl_or (a b : UInt32) : htonl (a ||| b) = htonl a ||| htonl b := by
  apply UInt32.toBitVec_inj.mp
  ext i hi
  interval_cases i <;> simp [htonl]

theorem htonl_htonl (a : UInt32) : htonl (htonl a) = a := by
  apply UInt32.toBitVec_inj.mp
  ext i hi
  interval_cases i <;> simp [htonl]

/-- The number `ct` stands for a bit of the status bits. -/
theorem testBit_one_shiftLeft (ct i : ℕ) :
    (1 <<< UInt32.ofNat (ct % 32) : UInt32).toNat.testBit i = decide (ct % 32 = i) := by
  have hlt : ct % 32 < 32 := Nat.mod_lt _ (by decide)
  have hpow : 2 ^ (ct % 32) < 2 ^ 32 := Nat.pow_lt_pow_right (by decide) hlt
  rw [UInt32.toNat_shiftLeft, UInt32.toNat_ofNat', Nat.mod_eq_of_lt (by omega : ct % 32 < 2 ^ 32),
    Nat.mod_eq_of_lt hlt, UInt32.toNat_one, Nat.one_shiftLeft, Nat.mod_eq_of_lt hpow,
    Nat.testBit_two_pow]

/-- A bit is set where it was, and where one of the locators with its number is up. -/
theorem testBit_mapCopylsbit (ct : ℕ) (chain : List Locator) (locbits : UInt32) (i : ℕ) :
    (htonl (mapCopylsbit ct chain locbits)).toNat.testBit i = true ↔
      (htonl locbits).toNat.testBit i = true ∨
        ∃ j, (chain[j]?.map fun l => l.rloc.up) = some true ∧ ct + j ≤ 32 ∧
          (ct + j) % 32 = i := by
  induction chain generalizing ct locbits with
  | nil =>
      refine ⟨Or.inl, fun h => ?_⟩
      rcases h with hbit | ⟨j, hj, -, -⟩
      · exact hbit
      · cases hj
  | cons l chain ih =>
      rw [mapCopylsbit]
      by_cases hct : ct ≤ 32
      · rw [if_pos hct, ih]
        have hhead : (htonl (if l.rloc.rlocmtx.flags &&& rlocfUp ≠ 0 then
              locbits ||| htonl (1 <<< UInt32.ofNat (ct % 32)) else locbits)).toNat.testBit i =
              true ↔
            (htonl locbits).toNat.testBit i = true ∨ (l.rloc.up = true ∧ ct % 32 = i) := by
          by_cases hup : l.rloc.rlocmtx.flags &&& rlocfUp ≠ 0
          · rw [if_pos hup, htonl_or, htonl_htonl, UInt32.toNat_or, Nat.testBit_or,
              testBit_one_shiftLeft, Bool.or_eq_true, decide_eq_true_eq, Rloc.up,
              decide_eq_true_eq]
            exact or_congr_right (and_iff_right hup).symm
          · rw [if_neg hup, Rloc.up, decide_eq_true_eq]
            exact (or_iff_left fun h => hup h.1).symm
        rw [hhead, or_assoc]
        refine or_congr_right ?_
        constructor
        · rintro (⟨hup, hi⟩ | ⟨j, hj, hle, hi⟩)
          · exact ⟨0, congrArg some hup, hct, hi⟩
          · refine ⟨j + 1, hj, by omega, ?_⟩
            rw [← hi, Nat.add_right_comm]
            rfl
        · rintro ⟨j, hj, hle, hi⟩
          cases j with
          | zero => exact Or.inl ⟨Option.some.inj hj, hi⟩
          | succ j =>
              refine Or.inr ⟨j, hj, by omega, ?_⟩
              rw [← hi, Nat.add_right_comm]
              rfl
      · rw [if_neg hct]
        refine (or_iff_left ?_).symm
        rintro ⟨j, -, hle, -⟩
        omega

/-- In a chain of up to 32 locators each one has its own bit. -/
theorem testBit_statusBits {chain : List Locator} (hlen : chain.length ≤ 32) (i : ℕ) :
    (htonl (mapCopylsbit 0 chain 0)).toNat.testBit i = true ↔
      (chain[i]?.map fun l => l.rloc.up) = some true := by
  have hnumber : ∀ j, (chain[j]?.map fun l => l.rloc.up) = some true → j < 32 := by
    intro j hj
    obtain ⟨l, hl, -⟩ := Option.map_eq_some_iff.mp hj
    obtain ⟨hlt, -⟩ := List.getElem?_eq_some_iff.mp hl
    omega
  have hzero : (htonl 0).toNat.testBit i = false := Nat.zero_testBit i
  rw [testBit_mapCopylsbit, hzero]
  constructor
  · rintro (hbit | ⟨j, hj, -, hi⟩)
    · cases hbit
    · have hlt := hnumber j hj
      rw [Nat.zero_add, Nat.mod_eq_of_lt hlt] at hi
      exact hi ▸ hj
  · intro hi
    have hlt := hnumber i hi
    refine Or.inr ⟨i, hi, by omega, ?_⟩
    rw [Nat.zero_add, Nat.mod_eq_of_lt hlt]

theorem mapCopylsbit_congr {chain chain' : List Locator}
    (h : chain'.map Locator.rloc = chain.map Locator.rloc) (ct : ℕ) (locbits : UInt32) :
    mapCopylsbit ct chain' locbits = mapCopylsbit ct chain locbits := by
  induction chain generalizing chain' ct locbits with
  | nil =>
      rw [List.map_nil, List.map_eq_nil_iff] at h
      rw [h]
  | cons l chain ih =>
      cases chain' with
      | nil => cases h
      | cons l' chain' =>
          obtain ⟨hhead, htail⟩ := List.cons.inj h
          rw [mapCopylsbit, mapCopylsbit, hhead, ih htail]

/-! ## The order of the message -/

theorem Rloc.key_injOn {r r' : Rloc} (h : ∃ addr, r.Holds addr) (h' : ∃ addr, r'.Holds addr)
    (hkey : r.key = r'.key) : r.address = r'.address := by
  obtain ⟨a, ha⟩ := h
  obtain ⟨b, hb⟩ := h'
  rw [ha.key_eq, hb.key_eq] at hkey
  rw [ha.address_eq, hb.address_eq, addressKey_inj.mp (List.cons.inj hkey).2]

/-- RLOCs with different addresses have one order. -/
theorem eq_of_sorted {rs rs' : List Rloc} (hrs : ∀ r ∈ rs, ∃ addr, r.Holds addr)
    (hdistinct : (rs.map Rloc.address).Nodup) (hperm : rs'.Perm rs)
    (hsorted : rs.Pairwise fun a b => a.key ≤ b.key)
    (hsorted' : rs'.Pairwise fun a b => a.key ≤ b.key) : rs' = rs := by
  refine List.Perm.eq_of_pairwise (fun a b ha hb hab hba => ?_) hsorted' hsorted hperm
  have hmem := hperm.mem_iff.mp ha
  exact List.inj_on_of_nodup_map hdistinct hmem hb
    (Rloc.key_injOn (hrs a hmem) (hrs b hb) (le_antisymm hab hba))

section Message

variable {behind behind' : ℕ → Mem} {mapmsg mapmsg' : Mem} {db : Bool} {n cp cp' : ℕ}

theorem firstRefused_eq_none_of_perm {rs rs' : List Rloc} (hperm : rs'.Perm rs)
    (h : firstRefused db [] rs = none) : firstRefused db [] rs' = none := by
  rw [firstRefused_eq_none_iff] at h ⊢
  exact ⟨fun r hr => h.1 r (hperm.mem_iff.mp hr), (hperm.map Rloc.rlocAddr).nodup_iff.mpr h.2⟩

/-- The chain is in the order of priorities and addresses, and the status bits follow it,
in whatever order the message has the RLOCs. -/
theorem chain_of_any_order
    (hrs : ∀ r ∈ rlocsOf mapmsg db n cp, ∃ addr, r.Holds addr)
    (hok : firstRefused db [] (rlocsOf mapmsg db n cp) = none)
    (hdistinct : ((rlocsOf mapmsg db n cp).map Rloc.address).Nodup)
    (hperm : (rlocsOf mapmsg' db n cp').Perm (rlocsOf mapmsg db n cp)) :
    ∃ chain chain' bits,
      mapSetrlocs behind mapmsg db n cp 0 = .ok (chain, bits) ∧
      mapSetrlocs behind' mapmsg' db n cp' 0 = .ok (chain', bits) ∧
      chain'.map Locator.rloc = chain.map Locator.rloc ∧
      (chain.map Locator.rloc).Perm (rlocsOf mapmsg db n cp) ∧ Sorted chain ∧
      (n ≤ 32 → ∀ i, (htonl bits).toNat.testBit i = true ↔
        (chain[i]?.map fun l => l.rloc.up) = some true) := by
  have hrs' : ∀ r ∈ rlocsOf mapmsg' db n cp', ∃ addr, r.Holds addr :=
    fun r hr => hrs r (hperm.mem_iff.mp hr)
  obtain ⟨chain, hchain, hmem, hsorted⟩ := (mapSetrlocs_cases behind 0 hrs).1 hok
  obtain ⟨chain', hchain', hmem', hsorted'⟩ := (mapSetrlocs_cases behind' 0 hrs').1
    (firstRefused_eq_none_of_perm hperm hok)
  have heq : chain'.map Locator.rloc = chain.map Locator.rloc := by
    refine eq_of_sorted (fun r hr => hrs r (hmem.mem_iff.mp hr)) ?_
      ((hmem'.trans hperm).trans hmem.symm) ?_ ?_
    · exact (hmem.map Rloc.address).nodup_iff.mpr hdistinct
    · exact List.pairwise_map.mpr hsorted
    · exact List.pairwise_map.mpr hsorted'
  rw [mapCopylsbit_congr heq] at hchain'
  refine ⟨chain, chain', _, hchain, hchain', heq, hmem, hsorted, fun hn i => ?_⟩
  have hlen : chain.length ≤ 32 := by
    have hlength := hmem.length_eq
    rw [List.length_map, length_rlocsOf] at hlength
    exact hlength.le.trans hn
  exact testBit_statusBits hlen i

end Message

/-- An IPv4 RLOC of a message: the sockaddr, the priority, a weight and the flag for up. -/
def inetRloc (last priority : UInt8) : List UInt8 :=
  [16, 2, 0, 0, 192, 0, 2, last, 0, 0, 0, 0, 0, 0, 0, 0] ++
    [priority, 100, 1, 0, 0, 0, 0, 0, 0, 0, 0, 0, 0, 0, 0, 0]

/-- The memory of two RLOCs. -/
def twoRlocs (first second : UInt8) : Mem :=
  Mem.ofList (inetRloc first 1 ++ inetRloc second 1) fun _ => 0

theorem holds_inetRloc {r : Rloc} {a b : UInt8}
    (h : r.rlocAddr = (inetRloc a b).take 16) : r.Holds (.inet #v[192, 0, 2, a]) := by
  refine ⟨by rw [h]; rfl, ?_⟩
  rw [h]
  refine holdsSockaddr_inet rfl rfl ?_
  ext i hi
  rw [Mem.getElem_bytes]
  interval_cases i <;> rfl

theorem holds_twoRlocs (first second : UInt8) :
    ∀ r ∈ rlocsOf (twoRlocs first second) true 2 0, ∃ addr, r.Holds addr := by
  have hsize : ssSize (twoRlocs first second 0) = 16 := ssSize_sockaddrIn
  have hsize' : ssSize (twoRlocs first second (0 + 16 + sizeofRlocMtx)) = 16 :=
    ssSize_sockaddrIn
  have hread : ∀ cp, (readRloc (twoRlocs first second) true cp).rlocAddr =
      ((twoRlocs first second).advance cp).toList (ssSize (twoRlocs first second cp)) :=
    fun _ => rfl
  intro r hr
  rw [rlocsOf, rlocsOf, rlocsOf, hsize] at hr
  rcases List.mem_cons.mp hr with rfl | hr
  · refine ⟨_, holds_inetRloc (a := first) (b := 1) ?_⟩
    rw [hread, hsize]
    rfl
  · obtain rfl := List.mem_singleton.mp hr
    refine ⟨_, holds_inetRloc (a := second) (b := 1) ?_⟩
    rw [hread, hsize']
    rfl

theorem mapSetrlocs_cases_twice :
    ∃ lost, mapSetrlocs (fun _ _ => 0) (twoRlocs 1 1) true 2 0 0 =
        .error (.errno .einval, lost) ∧
      (lost.map Locator.rloc).Perm ((rlocsOf (twoRlocs 1 1) true 2 0).take 1) :=
  (mapSetrlocs_cases (fun _ _ => 0) 0 (holds_twoRlocs 1 1)).2 1 (by decide)

theorem chain_of_any_order_two :
    ∃ chain chain' bits,
      mapSetrlocs (fun _ _ => 0) (twoRlocs 1 2) true 2 0 0 = .ok (chain, bits) ∧
      mapSetrlocs (fun _ _ => 0) (twoRlocs 2 1) true 2 0 0 = .ok (chain', bits) ∧
      chain'.map Locator.rloc = chain.map Locator.rloc ∧
      (chain.map Locator.rloc).Perm (rlocsOf (twoRlocs 1 2) true 2 0) ∧ Sorted chain ∧
      (2 ≤ 32 → ∀ i, (htonl bits).toNat.testBit i = true ↔
        (chain[i]?.map fun l => l.rloc.up) = some true) :=
  chain_of_any_order (holds_twoRlocs 1 2) (by decide) (by decide) (by decide)

end HyLisp.DataPlane.LocatorChain
