import HyLisp.ControlPlane.MappingDatabase
import HyLisp.Support.OrderedInsertion
import Mathlib.Data.List.Lex

/-!
# The order of the locators of a mapping

A locator is inserted into the list of its mapping by its address.  The comparison
takes the address of both families from `sin_addr` on.  For IPv6 the flow information
lies there, so the first twelve bytes of the address are compared and the last four
are not.
-/

namespace HyLisp.ControlPlane

open DataPlane OrderedInsertion

/-! ## The list and its comparison -/

/-- `sa_family` -/
def SockUnion.family : SockUnion → UInt8
  | .inet .. => afInet
  | .inet6 .. => afInet6
  | .other family => family

/-- A sockaddr from `sin_addr` on, whatever its family. -/
def SockUnion.sinAddr : SockUnion → Mem
  | .inet _ addr zero => Mem.ofList (addr.toList ++ zero.toList) fun _ => 0
  | .inet6 _ flowinfo addr scopeId =>
      Mem.ofList (flowinfo.toList ++ addr.toList ++ scopeId.toList) fun _ => 0
  | .other _ => fun _ => 0

/-- The loop of `_insert_ip_ordered` over the bytes, and what follows it. -/
def compareIp : ℕ → Mem → Mem → ℤ
  | 0, _, _ => 0
  | mmask + 1, insIp, exisIp =>
      if insIp 0 = exisIp 0 then compareIp mmask (insIp.advance 1) (exisIp.advance 1)
      else if insIp 0 > exisIp 0 then 1 else -1

/-- `_insert_ip_ordered` -/
def insertIpOrderedCmp (data entry : RegisterEntry) : ℤ :=
  let insS := data.rloc
  let exisS := entry.rloc
  if insS.family ≠ exisS.family then
    if insS.family = afInet then -1 else 1
  else
    match insS with
    | .inet .. => compareIp 4 insS.sinAddr exisS.sinAddr
    | .inet6 .. => compareIp 16 insS.sinAddr exisS.sinAddr
    | .other _ => 0

/-- `list_insert` with a comparison. -/
def listInsert {α : Type} (entryCmpFct : α → α → ℤ) (data : α) : List α → List α
  | [] => [data]
  | c :: rest =>
      if entryCmpFct data c ≤ 0 then data :: c :: rest
      else c :: listInsert entryCmpFct data rest

/-- `generic_mapping_add_rloc`, on the list of the mapping. -/
def genericMappingAddRloc (locs : List RegisterEntry) (entry : RegisterEntry) :
    List RegisterEntry :=
  listInsert insertIpOrderedCmp entry locs

/-- Several calls, from the empty list on. -/
def addRlocs (entries : List RegisterEntry) : List RegisterEntry :=
  entries.foldl genericMappingAddRloc []

/-! ## Keys -/

/-- The order of addresses: IPv4 before IPv6, and within a family by all bytes. -/
def addressKey (e : RegisterEntry) : List ℕ :=
  match e.rloc with
  | .inet _ addr _ => 0 :: addr.toList.map UInt8.toNat
  | .inet6 _ _ addr _ => 1 :: addr.toList.map UInt8.toNat
  | .other _ => []

/-- The order of what is compared. -/
def comparedKey (e : RegisterEntry) : List ℕ :=
  match e.rloc with
  | .inet _ addr _ => 0 :: addr.toList.map UInt8.toNat
  | .inet6 _ flowinfo addr _ =>
      1 :: (flowinfo.toList ++ addr.toList.take 12).map UInt8.toNat
  | .other _ => []

/-- The bytes of IPv6 locators that are compared, the flow information and the first
twelve of the address, are in the order of the addresses. -/
def ComparedFollow (entries : List RegisterEntry) : Prop :=
  ∀ a ∈ entries, ∀ b ∈ entries, ∀ port flowinfo addr scopeId port' flowinfo' addr' scopeId',
    a.rloc = .inet6 port flowinfo addr scopeId →
    b.rloc = .inet6 port' flowinfo' addr' scopeId' →
    addr.toList.map UInt8.toNat < addr'.toList.map UInt8.toNat →
    (flowinfo.toList ++ addr.toList.take 12).map UInt8.toNat <
      (flowinfo'.toList ++ addr'.toList.take 12).map UInt8.toNat

/-- The locators of a mapping are in the order of their addresses, only equal addresses
compare as equal, and the addresses of the list are the same in whatever order the
locators are added. -/
structure InAddressOrder (entries : List RegisterEntry) : Prop where
  sorted : (addRlocs entries).Pairwise fun a b => addressKey a ≤ addressKey b
  eq_of_cmp : ∀ a ∈ entries, ∀ b ∈ entries, insertIpOrderedCmp a b = 0 →
    a.rloc.address = b.rloc.address
  independent : ∀ entries', entries'.Perm entries →
    (addRlocs entries').map (fun e => e.rloc.address) =
      (addRlocs entries).map fun e => e.rloc.address

section Compare

variable {a b : RegisterEntry} {entries : List RegisterEntry}

theorem toList_succ (m : Mem) (n : ℕ) :
    m.toList (n + 1) = m 0 :: (m.advance 1).toList n := by
  rw [Mem.toList, List.range_succ_eq_map, List.map_cons, List.map_map, Mem.toList]
  congr 1
  apply List.map_congr_left
  intro i _
  rw [Function.comp_apply, Mem.advance_apply, Nat.succ_eq_add_one, Nat.add_comm]

theorem toList_ofList {n : ℕ} {data : List UInt8} (rest : Mem) (h : n ≤ data.length) :
    (Mem.ofList data rest).toList n = data.take n := by
  apply List.ext_getElem
  · simp [Mem.toList, h]
  · intro i hi _
    have hlt : i < data.length := by
      simp only [Mem.toList, List.length_map, List.length_range] at hi
      omega
    simp [Mem.toList, Mem.ofList, hlt]

/-- The loop compares the bytes like lists. -/
theorem compareIp_spec (n : ℕ) (x y : Mem) :
    (compareIp n x y ≤ 0 ↔
        (x.toList n).map UInt8.toNat ≤ (y.toList n).map UInt8.toNat) ∧
      (compareIp n x y = 0 ↔ x.toList n = y.toList n) := by
  induction n generalizing x y with
  | zero => exact ⟨iff_of_true le_rfl le_rfl, iff_of_true rfl rfl⟩
  | succ n ih =>
      obtain ⟨hle, heq⟩ := ih (x.advance 1) (y.advance 1)
      rw [compareIp, toList_succ, toList_succ, List.map_cons, List.map_cons]
      by_cases hhead : x 0 = y 0
      · rw [if_pos hhead, hle, heq, hhead]
        refine ⟨?_, by rw [List.cons_inj_right]⟩
        rw [← not_lt, ← not_lt, List.cons_lt_cons_self]
      · have hne : (x 0).toNat ≠ (y 0).toNat := fun h => hhead (UInt8.toNat_inj.mp h)
        have hcons : x 0 :: (x.advance 1).toList n ≠ y 0 :: (y.advance 1).toList n :=
          fun h => hhead (List.cons.inj h).1
        rw [if_neg hhead]
        by_cases hgt : x 0 > y 0
        · have hlt : (y 0).toNat < (x 0).toNat := UInt8.lt_iff_toNat_lt.mp hgt
          rw [if_pos hgt]
          refine ⟨iff_of_false (by decide) (not_le_of_gt (List.Lex.rel hlt)), ?_⟩
          exact iff_of_false (by decide) hcons
        · have hlt : (x 0).toNat < (y 0).toNat := by
            have hnot := mt UInt8.lt_iff_toNat_lt.mpr hgt
            omega
          rw [if_neg hgt]
          refine ⟨iff_of_true (by decide) (le_of_lt (List.Lex.rel hlt)), ?_⟩
          exact iff_of_false (by decide) hcons

/-- The bytes compared for an IPv4 address are the address. -/
theorem toList_sinAddr_inet (port : Vector UInt8 2) (addr : Vector UInt8 4)
    (zero : Vector UInt8 8) :
    (SockUnion.inet port addr zero).sinAddr.toList 4 = addr.toList := by
  rw [SockUnion.sinAddr, toList_ofList _ (by simp), List.take_append_of_le_length (by simp),
    List.take_of_length_le (by simp)]

/-- For IPv6 they begin four bytes before the address. -/
theorem toList_sinAddr_inet6 (port : Vector UInt8 2) (flowinfo : Vector UInt8 4)
    (addr : Vector UInt8 16) (scopeId : Vector UInt8 4) :
    (SockUnion.inet6 port flowinfo addr scopeId).sinAddr.toList 16 =
      flowinfo.toList ++ addr.toList.take 12 := by
  rw [SockUnion.sinAddr, toList_ofList _ (by simp), List.append_assoc, List.take_append,
    List.take_append_of_le_length (by simp), List.take_of_length_le (by simp)]
  simp

theorem map_toNat_inj {xs ys : List UInt8} :
    xs.map UInt8.toNat = ys.map UInt8.toNat ↔ xs = ys :=
  List.map_inj_right fun _ _ h => UInt8.toNat_inj.mp h

theorem SockUnion.cases_of_isSome {s : SockUnion} (h : s.address.isSome = true) :
    (∃ port addr zero, s = .inet port addr zero) ∨
      ∃ port flowinfo addr scopeId, s = .inet6 port flowinfo addr scopeId := by
  cases s with
  | inet port addr zero => exact Or.inl ⟨port, addr, zero, rfl⟩
  | inet6 port flowinfo addr scopeId =>
      exact Or.inr ⟨port, flowinfo, addr, scopeId, rfl⟩
  | other family => cases h

theorem cons_le_cons_self {n : ℕ} {xs ys : List ℕ} : n :: xs ≤ n :: ys ↔ xs ≤ ys := by
  rw [← not_lt, ← not_lt, List.cons_lt_cons_self]

/-- The comparison is the one of the keys. -/
theorem insertIpOrderedCmp_spec (ha : a.rloc.address.isSome = true)
    (hb : b.rloc.address.isSome = true) :
    (insertIpOrderedCmp a b ≤ 0 ↔ comparedKey a ≤ comparedKey b) ∧
      (insertIpOrderedCmp a b = 0 ↔ comparedKey a = comparedKey b) := by
  rw [comparedKey, comparedKey]
  rcases SockUnion.cases_of_isSome ha with ⟨port, addr, zero, hra⟩ |
    ⟨port, flowinfo, addr, scopeId, hra⟩
  · rcases SockUnion.cases_of_isSome hb with ⟨port', addr', zero', hrb⟩ |
      ⟨port', flowinfo', addr', scopeId', hrb⟩
    · obtain ⟨hle, heq⟩ := compareIp_spec 4 a.rloc.sinAddr b.rloc.sinAddr
      have hcmp : insertIpOrderedCmp a b = compareIp 4 a.rloc.sinAddr b.rloc.sinAddr := by
        rw [insertIpOrderedCmp, hra, hrb]
        rfl
      rw [hcmp, hle, heq, hra, hrb, toList_sinAddr_inet, toList_sinAddr_inet]
      exact ⟨cons_le_cons_self.symm, by rw [List.cons_inj_right, map_toNat_inj]⟩
    · have hcmp : insertIpOrderedCmp a b = -1 := by
        rw [insertIpOrderedCmp, hra, hrb]
        rfl
      rw [hcmp, hra, hrb]
      refine ⟨iff_of_true (by decide) (le_of_lt (List.Lex.rel Nat.one_pos)), ?_⟩
      exact iff_of_false (by decide) fun h => absurd (List.cons.inj h).1 (by decide)
  · rcases SockUnion.cases_of_isSome hb with ⟨port', addr', zero', hrb⟩ |
      ⟨port', flowinfo', addr', scopeId', hrb⟩
    · have hcmp : insertIpOrderedCmp a b = 1 := by
        rw [insertIpOrderedCmp, hra, hrb]
        rfl
      rw [hcmp, hra, hrb]
      refine ⟨iff_of_false (by decide) (not_le_of_gt (List.Lex.rel Nat.one_pos)), ?_⟩
      exact iff_of_false (by decide) fun h => absurd (List.cons.inj h).1 (by decide)
    · obtain ⟨hle, heq⟩ := compareIp_spec 16 a.rloc.sinAddr b.rloc.sinAddr
      have hcmp : insertIpOrderedCmp a b = compareIp 16 a.rloc.sinAddr b.rloc.sinAddr := by
        rw [insertIpOrderedCmp, hra, hrb]
        rfl
      rw [hcmp, hle, heq, hra, hrb, toList_sinAddr_inet6, toList_sinAddr_inet6]
      exact ⟨cons_le_cons_self.symm, by rw [List.cons_inj_right, map_toNat_inj]⟩

/-- Entries have one key exactly when they have one address. -/
theorem addressKey_inj (ha : a.rloc.address.isSome = true)
    (hb : b.rloc.address.isSome = true) :
    addressKey a = addressKey b ↔ a.rloc.address = b.rloc.address := by
  rw [addressKey, addressKey]
  rcases SockUnion.cases_of_isSome ha with ⟨port, addr, zero, hra⟩ |
    ⟨port, flowinfo, addr, scopeId, hra⟩
  · rcases SockUnion.cases_of_isSome hb with ⟨port', addr', zero', hrb⟩ |
      ⟨port', flowinfo', addr', scopeId', hrb⟩
    · rw [hra, hrb, List.cons_inj_right, map_toNat_inj, Vector.toList_inj]
      simp [SockUnion.address]
    · rw [hra, hrb]
      simp [SockUnion.address]
  · rcases SockUnion.cases_of_isSome hb with ⟨port', addr', zero', hrb⟩ |
      ⟨port', flowinfo', addr', scopeId', hrb⟩
    · rw [hra, hrb]
      simp [SockUnion.address]
    · rw [hra, hrb, List.cons_inj_right, map_toNat_inj, Vector.toList_inj]
      simp [SockUnion.address]

end Compare

/-! ## Lists -/

section Lists

variable {entries : List RegisterEntry}

theorem listInsert_eq {α : Type} {cmp : α → α → ℤ} {r : α → α → Prop} [DecidableRel r]
    {data : α} {l : List α} (h : ∀ c ∈ l, cmp data c ≤ 0 ↔ r data c) :
    listInsert cmp data l = l.orderedInsert r data := by
  induction l with
  | nil => rfl
  | cons c rest ih =>
      have hhead := h c List.mem_cons_self
      have hrest := ih fun c' hc' => h c' (List.mem_cons_of_mem _ hc')
      rw [listInsert, List.orderedInsert_cons, hrest]
      by_cases hr : r data c
      · rw [if_pos hr, if_pos (hhead.mpr hr)]
      · rw [if_neg hr, if_neg (mt hhead.mp hr)]

/-- The locators are inserted in the order of what is compared. -/
theorem addRlocs_eq (h : ∀ e ∈ entries, e.rloc.address.isSome = true) :
    addRlocs entries = insertAll comparedKey entries := by
  induction entries using List.reverseRecOn with
  | nil => rfl
  | append_singleton entries e ih =>
      have hentries : ∀ e' ∈ entries, e'.rloc.address.isSome = true :=
        fun e' he' => h e' (List.mem_append_left _ he')
      have hadd : addRlocs (entries ++ [e]) =
          listInsert insertIpOrderedCmp e (addRlocs entries) := by
        rw [addRlocs, List.foldl_append]
        rfl
      have hinsert : insertAll comparedKey (entries ++ [e]) =
          (insertAll comparedKey entries).orderedInsert
            (fun a b => comparedKey a ≤ comparedKey b) e := by
        rw [insertAll, List.foldl_append]
        rfl
      rw [hadd, hinsert, ih hentries]
      refine listInsert_eq fun c hc => ?_
      have hmem := (perm_insertAll comparedKey entries).mem_iff.mp hc
      exact (insertIpOrderedCmp_spec (h e (by simp)) (hentries c hmem)).1

/-- What is compared follows the addresses when it does so for IPv6. -/
theorem follows_iff (h : ∀ e ∈ entries, e.rloc.address.isSome = true) :
    Follows comparedKey addressKey entries ↔ ComparedFollow entries := by
  constructor
  · intro hfollows a ha b hb port flowinfo addr scopeId port' flowinfo' addr' scopeId'
      hra hrb hlt
    have hkeys := hfollows a ha b hb
    rw [addressKey, addressKey, comparedKey, comparedKey, hra, hrb] at hkeys
    exact List.cons_lt_cons_self.mp (hkeys (List.cons_lt_cons_self.mpr hlt))
  · intro hcompared a ha b hb hlt
    rw [addressKey, addressKey] at hlt
    rw [comparedKey, comparedKey]
    rcases SockUnion.cases_of_isSome (h a ha) with ⟨port, addr, zero, hra⟩ |
      ⟨port, flowinfo, addr, scopeId, hra⟩
    · rcases SockUnion.cases_of_isSome (h b hb) with ⟨port', addr', zero', hrb⟩ |
        ⟨port', flowinfo', addr', scopeId', hrb⟩
      · rwa [hra, hrb] at hlt ⊢
      · rw [hra, hrb]
        exact List.Lex.rel Nat.one_pos
    · rcases SockUnion.cases_of_isSome (h b hb) with ⟨port', addr', zero', hrb⟩ |
        ⟨port', flowinfo', addr', scopeId', hrb⟩
      · rw [hra, hrb] at hlt
        exact absurd hlt (not_lt_of_gt (List.Lex.rel Nat.one_pos))
      · rw [hra, hrb] at hlt ⊢
        exact List.cons_lt_cons_self.mpr (hcompared a ha b hb _ _ _ _ _ _ _ _ hra hrb
          (List.cons_lt_cons_self.mp hlt))

/-- The locators are in the order of their addresses exactly when, for IPv6, what is
compared of them is. -/
theorem inAddressOrder_iff (entries : List RegisterEntry)
    (h : ∀ e ∈ entries, e.rloc.address.isSome = true) :
    InAddressOrder entries ↔ ComparedFollow entries := by
  have hzero : ∀ a ∈ entries, ∀ b ∈ entries,
      ((insertIpOrderedCmp a b = 0 → a.rloc.address = b.rloc.address) ↔
        (comparedKey a = comparedKey b → addressKey a = addressKey b)) := by
    intro a ha b hb
    rw [(insertIpOrderedCmp_spec (h a ha) (h b hb)).2, addressKey_inj (h a ha) (h b hb)]
  rw [← follows_iff h]
  constructor
  · intro horder
    have hsorted := horder.sorted
    rw [addRlocs_eq h] at hsorted
    exact (pairwise_and_injOn_iff comparedKey addressKey entries).mp
      ⟨hsorted, fun a ha b hb => (hzero a ha b hb).mp (horder.eq_of_cmp a ha b hb)⟩
  · intro hfollows
    obtain ⟨hsorted, hties⟩ :=
      (pairwise_and_injOn_iff comparedKey addressKey entries).mpr hfollows
    refine ⟨by rwa [addRlocs_eq h], fun a ha b hb => ?_, fun entries' hperm => ?_⟩
    · exact (hzero a ha b hb).mpr (hties a ha b hb)
    · have h' : ∀ e ∈ entries', e.rloc.address.isSome = true :=
        fun e he => h e (hperm.mem_iff.mp he)
      rw [addRlocs_eq h, addRlocs_eq h']
      exact map_insertAll_of_perm hperm hfollows fun a ha b hb =>
        (addressKey_inj (h a ha) (h b hb)).mp

/-- No locator gets lost, whatever is compared. -/
theorem perm_addRlocs (entries : List RegisterEntry) :
    (addRlocs entries).Perm entries := by
  have hinsert : ∀ (locs : List RegisterEntry) (e : RegisterEntry),
      (genericMappingAddRloc locs e).Perm (e :: locs) := by
    intro locs e
    induction locs with
    | nil => exact List.Perm.refl _
    | cons c rest ih =>
        rw [genericMappingAddRloc, listInsert]
        split
        · exact List.Perm.refl _
        · exact (ih.cons c).trans (List.Perm.swap e c rest)
  induction entries using List.reverseRecOn with
  | nil => exact List.Perm.refl _
  | append_singleton entries e ih =>
      rw [addRlocs, List.foldl_append]
      refine (hinsert _ e).trans ((ih.cons e).trans ?_)
      exact (List.perm_append_singleton e entries).symm

end Lists

/-! ## Locators without flow information -/

theorem take_le_take {xs ys : List ℕ} (h : xs < ys) (n : ℕ) : xs.take n ≤ ys.take n := by
  induction n generalizing xs ys with
  | zero => rw [List.take_zero, List.take_zero]
  | succ n ih =>
      cases ys with
      | nil => exact absurd h (List.not_lt_nil xs)
      | cons y ys =>
          cases xs with
          | nil => exact not_lt.mp (List.not_lt_nil _)
          | cons x xs =>
              rw [List.take_succ_cons, List.take_succ_cons]
              rcases List.cons_lt_cons_iff.mp h with hlt | ⟨rfl, hlt⟩
              · exact le_of_lt (List.Lex.rel hlt)
              · exact cons_le_cons_self.mpr (ih hlt)

theorem rloc_of_address_inet6 {s : SockUnion} {addr : Vector UInt8 16}
    (h : s.address = some (.inet6 addr)) :
    ∃ port flowinfo scopeId, s = .inet6 port flowinfo addr scopeId := by
  cases s with
  | inet port addr' zero => cases h
  | inet6 port flowinfo addr' scopeId =>
      obtain rfl := Address.inet6.inj (Option.some.inj h)
      exact ⟨port, flowinfo, scopeId, rfl⟩
  | other family => cases h

/-- Without flow information the addresses have to differ in their first twelve
bytes. -/
theorem comparedFollow_iff_of_noFlow {entries : List RegisterEntry}
    (h : ∀ e ∈ entries, ∀ port flowinfo addr scopeId,
      e.rloc = .inet6 port flowinfo addr scopeId → flowinfo = zeros 4) :
    ComparedFollow entries ↔
      ∀ a ∈ entries, ∀ b ∈ entries, ∀ addr addr',
        a.rloc.address = some (.inet6 addr) → b.rloc.address = some (.inet6 addr') →
        addr.toList.take 12 = addr'.toList.take 12 → addr = addr' := by
  constructor
  · intro hfollow a ha b hb addr addr' haddr haddr' htake
    obtain ⟨port, flowinfo, scopeId, hra⟩ := rloc_of_address_inet6 haddr
    obtain ⟨port', flowinfo', scopeId', hrb⟩ := rloc_of_address_inet6 haddr'
    have hflow : flowinfo = flowinfo' :=
      (h a ha _ _ _ _ hra).trans (h b hb _ _ _ _ hrb).symm
    by_contra hne
    have hkeys : addr.toList.map UInt8.toNat ≠ addr'.toList.map UInt8.toNat :=
      fun heq => hne (Vector.toList_inj.mp (map_toNat_inj.mp heq))
    rcases lt_or_gt_of_ne hkeys with hlt | hgt
    · have hcompared := hfollow a ha b hb _ _ _ _ _ _ _ _ hra hrb hlt
      rw [hflow, htake] at hcompared
      exact lt_irrefl _ hcompared
    · have hcompared := hfollow b hb a ha _ _ _ _ _ _ _ _ hrb hra hgt
      rw [hflow, htake] at hcompared
      exact lt_irrefl _ hcompared
  · intro hdistinct a ha b hb port flowinfo addr scopeId port' flowinfo' addr' scopeId'
      hra hrb hlt
    have htake := take_le_take hlt 12
    rw [← List.map_take, ← List.map_take] at htake
    have hne : (addr.toList.take 12).map UInt8.toNat ≠
        (addr'.toList.take 12).map UInt8.toNat := by
      intro heq
      have haddr := hdistinct a ha b hb addr addr' (by rw [hra]; rfl) (by rw [hrb]; rfl)
        (map_toNat_inj.mp heq)
      rw [haddr] at hlt
      exact lt_irrefl _ hlt
    rw [h a ha _ _ _ _ hra, h b hb _ _ _ _ hrb, List.map_append, List.map_append]
    exact List.append_left_lt (lt_of_le_of_ne htake hne)

/-- The order of bytes is the one of their values. -/
theorem map_toNat_lt {xs ys : List UInt8} :
    xs.map UInt8.toNat < ys.map UInt8.toNat ↔ xs < ys := by
  induction xs generalizing ys with
  | nil =>
      cases ys with
      | nil => exact iff_of_false (List.not_lt_nil _) (List.not_lt_nil _)
      | cons y ys => exact iff_of_true (List.nil_lt_cons _ _) (List.nil_lt_cons _ _)
  | cons x xs ih =>
      cases ys with
      | nil => exact iff_of_false (List.not_lt_nil _) (List.not_lt_nil _)
      | cons y ys =>
          rw [List.map_cons, List.map_cons, List.cons_lt_cons_iff, List.cons_lt_cons_iff,
            ih, UInt8.lt_iff_toNat_lt, UInt8.toNat_inj]

/-- A sockaddr with nothing but its address. -/
def RegisterEntry.IsBare (e : RegisterEntry) : Prop :=
  ∃ addr, e.rloc = addressSockUnion addr

theorem comparedKey_of_isBare {e : RegisterEntry} (h : e.IsBare) :
    comparedKey e = (orderBytes e.toReplyEntry).map UInt8.toNat ∧
      e.rloc.address.isSome = true := by
  obtain ⟨addr, hrloc⟩ := h
  cases addr with
  | inet addr =>
      rw [comparedKey, orderBytes, hrloc]
      exact ⟨rfl, rfl⟩
  | inet6 addr =>
      rw [comparedKey, orderBytes, hrloc]
      exact ⟨rfl, rfl⟩

/-- The locators of a Map-Referral are inserted in the same way. -/
theorem genericMappingAddRloc_eq {locs : List RegisterEntry} {e : RegisterEntry}
    (hlocs : ∀ c ∈ locs, c.IsBare) (he : e.IsBare) :
    genericMappingAddRloc locs e = insertIpOrdered locs e := by
  have hcmp : ∀ c ∈ locs, insertIpOrderedCmp e c ≤ 0 ↔
      ¬orderBytes c.toReplyEntry < orderBytes e.toReplyEntry := by
    intro c hc
    obtain ⟨hkey, haddr⟩ := comparedKey_of_isBare (hlocs c hc)
    obtain ⟨hkey', haddr'⟩ := comparedKey_of_isBare he
    rw [(insertIpOrderedCmp_spec haddr' haddr).1, hkey, hkey', ← not_lt, map_toNat_lt]
  have hinsert := listInsert_eq (r := fun a b : RegisterEntry =>
    ¬orderBytes b.toReplyEntry < orderBytes a.toReplyEntry) hcmp
  rw [genericMappingAddRloc, hinsert, List.orderedInsert_eq_take_drop, insertIpOrdered,
    List.span_eq_takeWhile_dropWhile]
  simp only [not_not]

/-! ## Examples of the order -/

/-- 2001:db8::`host`, without flow information. -/
def rlocDocumentation (host : UInt8) : RegisterEntry :=
  ⟨⟨⟨addressSockUnion (.inet6 #v[0x20, 1, 0x0D, 0xB8, 0, 0, 0, 0, 0, 0, 0, 0, 0, 0, 0,
    host]), 1, 100, true, true⟩, 255, 0, false⟩, none⟩

/-- 198.18.0.1 -/
def rlocBenchmark : RegisterEntry :=
  ⟨⟨⟨addressSockUnion (.inet #v[198, 18, 0, 1]), 2, 100, true, true⟩, 255, 0, false⟩, none⟩

/-- 2001:db8:`subnet`::1, without flow information. -/
def rlocSubnet (subnet : UInt8) : RegisterEntry :=
  ⟨⟨⟨addressSockUnion (.inet6 #v[0x20, 1, 0x0D, 0xB8, 0, subnet, 0, 0, 0, 0, 0, 0, 0, 0, 0,
    1]), 1, 100, true, true⟩, 255, 0, false⟩, none⟩

/-- IPv6 locators of different networks come in their order, behind one of IPv4. -/
theorem inAddressOrder_iff_families :
    InAddressOrder [rlocSubnet 2, rlocSubnet 1, rlocBenchmark] ∧
      addRlocs [rlocSubnet 2, rlocSubnet 1, rlocBenchmark] =
        [rlocBenchmark, rlocSubnet 1, rlocSubnet 2] := by
  refine ⟨(inAddressOrder_iff _ (by decide)).mpr
    ((comparedFollow_iff_of_noFlow ?_).mpr ?_), by decide⟩
  · intro e he port flowinfo addr scopeId hrloc
    simp only [List.mem_cons, List.not_mem_nil, or_false] at he
    rcases he with rfl | rfl | rfl
    · exact (SockUnion.inet6.inj hrloc).2.1.symm
    · exact (SockUnion.inet6.inj hrloc).2.1.symm
    · cases hrloc
  · intro a ha b hb addr addr' haddr haddr' htake
    have hdistinct : ∀ a ∈ [rlocSubnet 2, rlocSubnet 1, rlocBenchmark],
        ∀ b ∈ [rlocSubnet 2, rlocSubnet 1, rlocBenchmark],
          orderBytes a.toReplyEntry = orderBytes b.toReplyEntry →
            a.rloc.address = b.rloc.address := by
      decide
    have horder : orderBytes a.toReplyEntry = orderBytes b.toReplyEntry := by
      rw [orderBytes, orderBytes, haddr, haddr']
      dsimp only
      rw [htake]
    have hsame := hdistinct a ha b hb horder
    rw [haddr, haddr'] at hsame
    exact Address.inet6.inj (Option.some.inj hsame)

/-- Two addresses that part in the last byte compare as equal. -/
theorem not_inAddressOrder_lastByte :
    ¬ ∀ entries : List RegisterEntry,
      (∀ e ∈ entries, e.rloc.address.isSome = true) → InAddressOrder entries := by
  intro h
  have horder := h [rlocDocumentation 1, rlocDocumentation 2] (by decide)
  have haddr := horder.eq_of_cmp (rlocDocumentation 1) (by simp) (rlocDocumentation 2)
    (by simp) (by decide)
  exact absurd haddr (by decide)

end HyLisp.ControlPlane
