import Mathlib.Data.Fintype.EquivFin
import Mathlib.Data.List.Chain
import Mathlib.Data.List.Nodup
import Mathlib.Logic.Function.Basic
import Mathlib.Tactic.Common

/-!
# Doubly linked lists

A list lies in memory between two sentinels, and a counter is kept beside it.
Each node points to the one before it and to the one behind it.  Nodes that are
not allocated cannot be read or written: an operation that would touch one, or
that would follow a null pointer, fails.

`Represents` says which entries a memory holds, in order.  Inserting an entry
before the last sentinel and removing one keep it, and it tells which entry the
last sentinel and the last entry point back to.
-/

/-- A pointer that is not null: to one of the sentinels, or to an entry. -/
inductive ListPtr
  | head
  | tail
  | entry (address : ℕ)
  deriving DecidableEq, Repr

/-- A node; a sentinel has no data. -/
structure ListNode (δ : Type) where
  data : Option δ
  previous : Option ListPtr
  next : Option ListPtr

/-- The nodes that are allocated, and the counter. -/
structure LinkedList (δ : Type) where
  node : ListPtr → Option (ListNode δ)
  count : ℕ

namespace LinkedList

variable {δ : Type}

/-! ## Operations -/

/-- The pointer behind a node; `none` also for a node that is not allocated. -/
def next (l : LinkedList δ) (p : ListPtr) : Option ListPtr :=
  (l.node p).bind ListNode.next

/-- The pointer before a node. -/
def previous (l : LinkedList δ) (p : ListPtr) : Option ListPtr :=
  (l.node p).bind ListNode.previous

/-- The data of a node. -/
def data (l : LinkedList δ) (p : ListPtr) : Option δ :=
  (l.node p).bind ListNode.data

/-- The node is allocated. -/
def allocated (l : LinkedList δ) (p : ListPtr) : Bool :=
  (l.node p).isSome

/-- A node is written, or freed. -/
def write (l : LinkedList δ) (p : ListPtr) (n : Option (ListNode δ)) : LinkedList δ :=
  { l with node := Function.update l.node p n }

/-- `p->next = q` -/
def setNext (l : LinkedList δ) (p q : Option ListPtr) : Option (LinkedList δ) := do
  let p ← p
  let n ← l.node p
  some (l.write p (some { n with next := q }))

/-- `p->previous = q` -/
def setPrevious (l : LinkedList δ) (p q : Option ListPtr) : Option (LinkedList δ) := do
  let p ← p
  let n ← l.node p
  some (l.write p (some { n with previous := q }))

/-- A list without entries. -/
def empty : LinkedList δ where
  node
    | .head => some ⟨none, none, some .tail⟩
    | .tail => some ⟨none, some .head, none⟩
    | .entry _ => none
  count := 0

/-- A new entry before the node `c`. -/
def insertBefore (l : LinkedList δ) (c : ListPtr) (address : ℕ) (d : δ) :
    Option (LinkedList δ) := do
  let n ← l.node c
  let l := l.write (.entry address) (some ⟨some d, n.previous, some c⟩)
  let l ← l.setNext n.previous (some (.entry address))
  let l ← l.setPrevious (some c) (some (.entry address))
  some { l with count := l.count + 1 }

/-- A node is unlinked and freed, unless the list counts no entries. -/
def remove (l : LinkedList δ) (p : ListPtr) : Option (LinkedList δ) :=
  if l.count = 0 then some l
  else do
    let n ← l.node p
    let l ← l.setNext n.previous n.next
    let n ← l.node p
    let l ← l.setPrevious n.next n.previous
    some { l.write p none with count := l.count - 1 }

/-! ## What an operation changes -/

section Changes

variable {l l' : LinkedList δ} {p q : ListPtr} {n : ListNode δ}

theorem exists_node_of_next (h : l.next p = some q) : ∃ n, l.node p = some n :=
  let ⟨n, hn, _⟩ := Option.bind_eq_some_iff.mp h
  ⟨n, hn⟩

theorem exists_node_of_previous (h : l.previous p = some q) : ∃ n, l.node p = some n :=
  let ⟨n, hn, _⟩ := Option.bind_eq_some_iff.mp h
  ⟨n, hn⟩

theorem next_eq (h : l.node p = some n) : l.next p = n.next := by
  rw [next, h, Option.bind_some]

theorem previous_eq (h : l.node p = some n) : l.previous p = n.previous := by
  rw [previous, h, Option.bind_some]

theorem data_eq (h : l.node p = some n) : l.data p = n.data := by
  rw [data, h, Option.bind_some]

section Write

variable (l : LinkedList δ) (p : ListPtr) (n : Option (ListNode δ))

theorem next_write :
    (l.write p n).next = Function.update l.next p (n.bind ListNode.next) := by
  funext x
  by_cases hx : x = p
  · subst hx
    simp only [next, write, Function.update_self]
  · simp only [next, write, Function.update_of_ne hx]

theorem previous_write :
    (l.write p n).previous = Function.update l.previous p (n.bind ListNode.previous) := by
  funext x
  by_cases hx : x = p
  · subst hx
    simp only [previous, write, Function.update_self]
  · simp only [previous, write, Function.update_of_ne hx]

theorem data_write :
    (l.write p n).data = Function.update l.data p (n.bind ListNode.data) := by
  funext x
  by_cases hx : x = p
  · subst hx
    simp only [data, write, Function.update_self]
  · simp only [data, write, Function.update_of_ne hx]

theorem allocated_write :
    (l.write p n).allocated = Function.update l.allocated p n.isSome := by
  funext x
  by_cases hx : x = p
  · subst hx
    simp only [allocated, write, Function.update_self]
  · simp only [allocated, write, Function.update_of_ne hx]

end Write

/-- The two memories have the same nodes with the same data and the same counter, but
for their pointers. -/
structure SameNodes (l l' : LinkedList δ) : Prop where
  data : l'.data = l.data
  allocated : l'.allocated = l.allocated
  count : l'.count = l.count

theorem SameNodes.trans {l'' : LinkedList δ} (h : SameNodes l l') (h' : SameNodes l' l'') :
    SameNodes l l'' :=
  ⟨h'.data.trans h.data, h'.allocated.trans h.allocated, h'.count.trans h.count⟩

theorem sameNodes_write (hp : l.node p = some n) {n' : ListNode δ} (hn : n'.data = n.data) :
    SameNodes l (l.write p (some n')) where
  data := by
    rw [data_write, Option.bind_some, hn, ← data_eq hp, Function.update_eq_self]
  allocated := by
    have halloc : (some n').isSome = l.allocated p := by rw [allocated, hp]; rfl
    rw [allocated_write, halloc, Function.update_eq_self]
  count := rfl

/-- A pointer of a node that is there can be set. -/
theorem exists_setNext (hp : l.node p = some n) (r : Option ListPtr) :
    ∃ l', l.setNext (some p) r = some l' ∧ l'.next = Function.update l.next p r ∧
      l'.previous = l.previous ∧ SameNodes l l' := by
  refine ⟨l.write p (some { n with next := r }), ?_, next_write _ _ _, ?_,
    sameNodes_write hp rfl⟩
  · rw [setNext, Option.bind_eq_bind, Option.bind_some, hp]
    rfl
  · rw [previous_write, Option.bind_some, ← previous_eq hp, Function.update_eq_self]

theorem exists_setPrevious (hp : l.node p = some n) (r : Option ListPtr) :
    ∃ l', l.setPrevious (some p) r = some l' ∧ l'.next = l.next ∧
      l'.previous = Function.update l.previous p r ∧ SameNodes l l' := by
  refine ⟨l.write p (some { n with previous := r }), ?_, ?_, previous_write _ _ _,
    sameNodes_write hp rfl⟩
  · rw [setPrevious, Option.bind_eq_bind, Option.bind_some, hp]
    rfl
  · rw [next_write, Option.bind_some, ← next_eq hp, Function.update_eq_self]

end Changes

/-! ## Links -/

/-- The nodes point to each other. -/
structure Link (l : LinkedList δ) (p q : ListPtr) : Prop where
  next : l.next p = some q
  previous : l.previous q = some p

section Links

variable {l l' : LinkedList δ} {p q : ListPtr} {address : ℕ} {d : δ}

/-- The entry is new in `l'`, between `p` and `q`. -/
structure Inserted (l l' : LinkedList δ) (p q : ListPtr) (address : ℕ) (d : δ) : Prop where
  next : l'.next =
    Function.update (Function.update l.next (.entry address) (some q)) p
      (some (.entry address))
  previous : l'.previous =
    Function.update (Function.update l.previous (.entry address) (some p)) q
      (some (.entry address))
  data : l'.data = Function.update l.data (.entry address) (some d)
  allocated : l'.allocated = Function.update l.allocated (.entry address) true
  count : l'.count = l.count + 1

/-- An entry can be inserted between two nodes that are linked. -/
theorem exists_insertBefore (h : Link l p q) (hp : .entry address ≠ p)
    (hq : .entry address ≠ q) (d : δ) :
    ∃ l', l.insertBefore q address d = some l' ∧ Inserted l l' p q address d := by
  obtain ⟨np, hnp⟩ := exists_node_of_next h.next
  obtain ⟨nq, hnq⟩ := exists_node_of_previous h.previous
  have hback : nq.previous = some p := (previous_eq hnq).symm.trans h.previous
  let l₁ := l.write (.entry address) (some ⟨some d, nq.previous, some q⟩)
  have hnp₁ : l₁.node p = some np := (Function.update_of_ne hp.symm _ _).trans hnp
  obtain ⟨l₂, hset₂, hnext₂, hprev₂, hsame₂⟩ := exists_setNext hnp₁ (some (.entry address))
  have hq₂ : l₂.previous q = some p := by
    rw [hprev₂, previous_write, Function.update_of_ne hq.symm, h.previous]
  obtain ⟨nq₂, hnq₂⟩ := exists_node_of_previous hq₂
  obtain ⟨l₃, hset₃, hnext₃, hprev₃, hsame₃⟩ :=
    exists_setPrevious hnq₂ (some (.entry address))
  have hsame := hsame₂.trans hsame₃
  refine ⟨{ l₃ with count := l₃.count + 1 }, ?_, ?_⟩
  · rw [insertBefore, Option.bind_eq_bind, hnq, Option.bind_some]
    change (l₁.setNext nq.previous _).bind _ = _
    rw [hback, hset₂, Option.bind_some, hset₃]
    rfl
  · refine ⟨?_, ?_, ?_, ?_, congrArg (· + 1) hsame.count⟩
    · change l₃.next = _
      rw [hnext₃, hnext₂, next_write]
      rfl
    · change l₃.previous = _
      rw [hprev₃, hprev₂, previous_write, Option.bind_some, hback]
    · exact hsame.data.trans (data_write l _ _)
    · exact hsame.allocated.trans (allocated_write l _ _)

/-- The node is gone in `l'`, and `p` and `q`, which it was between, are linked. -/
structure Removed (l l' : LinkedList δ) (p e q : ListPtr) : Prop where
  next : l'.next = Function.update (Function.update l.next p (some q)) e none
  previous : l'.previous = Function.update (Function.update l.previous q (some p)) e none
  data : l'.data = Function.update l.data e none
  allocated : l'.allocated = Function.update l.allocated e false
  count : l'.count = l.count - 1

/-- A node that is linked on both sides can be removed. -/
theorem exists_remove {e : ListPtr} (hp : Link l p e) (hq : Link l e q) (hpe : e ≠ p)
    (hcount : l.count ≠ 0) : ∃ l', l.remove e = some l' ∧ Removed l l' p e q := by
  obtain ⟨np, hnp⟩ := exists_node_of_next hp.next
  obtain ⟨n, hn⟩ := exists_node_of_next hq.next
  have hback : n.previous = some p := (previous_eq hn).symm.trans hp.previous
  have hforth : n.next = some q := (next_eq hn).symm.trans hq.next
  obtain ⟨l₁, hset₁, hnext₁, hprev₁, hsame₁⟩ := exists_setNext hnp (some q)
  have he₁ : l₁.next e = some q := by
    rw [hnext₁, Function.update_of_ne hpe, hq.next]
  have hb₁ : l₁.previous e = some p := by rw [hprev₁, hp.previous]
  obtain ⟨n₁, hn₁⟩ := exists_node_of_next he₁
  have hback₁ : n₁.previous = some p := (previous_eq hn₁).symm.trans hb₁
  have hforth₁ : n₁.next = some q := (next_eq hn₁).symm.trans he₁
  have hq₁ : l₁.previous q = some e := by rw [hprev₁, hq.previous]
  obtain ⟨nq₁, hnq₁⟩ := exists_node_of_previous hq₁
  obtain ⟨l₂, hset₂, hnext₂, hprev₂, hsame₂⟩ := exists_setPrevious hnq₁ (some p)
  have hsame := hsame₁.trans hsame₂
  refine ⟨{ l₂.write e none with count := l₂.count - 1 }, ?_, ?_⟩
  · rw [remove, if_neg hcount, Option.bind_eq_bind, hn, Option.bind_some, hback, hforth,
      Option.bind_eq_bind, hset₁, Option.bind_some, hn₁, Option.bind_some, hback₁, hforth₁,
      hset₂]
    rfl
  · refine ⟨?_, ?_, ?_, ?_, congrArg (· - 1) hsame.count⟩
    · change (l₂.write e none).next = _
      rw [next_write, hnext₂, hnext₁]
      rfl
    · change (l₂.write e none).previous = _
      rw [previous_write, hprev₂, hprev₁]
      rfl
    · change (l₂.write e none).data = _
      rw [data_write, hsame.data]
      rfl
    · change (l₂.write e none).allocated = _
      rw [allocated_write, hsame.allocated]
      rfl

/-- Links between other nodes stay. -/
theorem Inserted.link {x y : ListPtr} (h : Inserted l l' p q address d) (hxy : Link l x y)
    (hxa : x ≠ .entry address) (hya : y ≠ .entry address) (hxp : x ≠ p) (hyq : y ≠ q) :
    Link l' x y where
  next := by rw [h.next, Function.update_of_ne hxp, Function.update_of_ne hxa, hxy.next]
  previous := by
    rw [h.previous, Function.update_of_ne hyq, Function.update_of_ne hya, hxy.previous]

theorem Removed.link {e x y : ListPtr} (h : Removed l l' p e q) (hxy : Link l x y)
    (hxe : x ≠ e) (hye : y ≠ e) (hxp : x ≠ p) (hyq : y ≠ q) : Link l' x y where
  next := by rw [h.next, Function.update_of_ne hxe, Function.update_of_ne hxp, hxy.next]
  previous := by
    rw [h.previous, Function.update_of_ne hye, Function.update_of_ne hyq, hxy.previous]

end Links

/-! ## Chains of links -/

section Chains

variable {l l' : LinkedList δ} {ps qs : List ListPtr} {p q : ListPtr}

/-- The part of a chain before the node `p` stays when no other link is touched. -/
theorem isChain_before (h : (ps ++ [p]).IsChain (Link l)) (hp : p ∉ ps)
    (hlink : ∀ x ∈ ps, ∀ y ∈ ps ++ [p], x ≠ p → Link l x y → Link l' x y) :
    (ps ++ [p]).IsChain (Link l') := by
  induction ps with
  | nil => exact List.isChain_singleton p
  | cons x ps ih =>
      rw [List.cons_append, List.isChain_cons] at h ⊢
      refine ⟨fun y hy => ?_, ih h.2 (fun hmem => hp (List.mem_cons_of_mem _ hmem)) ?_⟩
      · exact hlink x List.mem_cons_self y (List.mem_cons_of_mem _ (List.mem_of_mem_head? hy))
          (fun hxp => hp (hxp ▸ List.mem_cons_self)) (h.1 y hy)
      · intro x' hx' y hy
        exact hlink x' (List.mem_cons_of_mem _ hx') y (List.mem_cons_of_mem _ hy)

/-- The part behind the node `q` stays, too. -/
theorem isChain_behind (h : (q :: qs).IsChain (Link l)) (hq : q ∉ qs)
    (hlink : ∀ x ∈ q :: qs, ∀ y ∈ qs, y ≠ q → Link l x y → Link l' x y) :
    (q :: qs).IsChain (Link l') := by
  refine List.IsChain.imp_of_mem_tail_imp (fun x y hx hy hxy => ?_) h
  exact hlink x hx y hy (fun hyq => hq (hyq ▸ hy)) hxy

/-- Both parts of a chain stay when no links are touched but those of a node that is in
neither, the one behind `p` and the one before `q`. -/
theorem isChain_parts {e : ListPtr} (hbefore : (ps ++ [p]).IsChain (Link l))
    (hbehind : (q :: qs).IsChain (Link l)) (hnodup : (ps ++ p :: q :: qs).Nodup)
    (he : e ∉ ps ++ p :: q :: qs)
    (hlink : ∀ {x y}, Link l x y → x ≠ e → y ≠ e → x ≠ p → y ≠ q → Link l' x y) :
    (ps ++ [p]).IsChain (Link l') ∧ (q :: qs).IsChain (Link l') := by
  rw [List.append_cons] at hnodup he
  obtain ⟨hp, hq, hdisjoint⟩ := List.nodup_append.mp hnodup
  have hpps : p ∉ ps :=
    fun hmem => (List.nodup_append.mp hp).2.2 p hmem p (List.mem_singleton_self p) rfl
  have hebefore : e ∉ ps ++ [p] := fun hmem => he (List.mem_append_left _ hmem)
  have hebehind : e ∉ q :: qs := fun hmem => he (List.mem_append_right _ hmem)
  constructor
  · refine isChain_before hbefore hpps fun x hx y hy hxp hxy => ?_
    have hxmem : x ∈ ps ++ [p] := List.mem_append_left _ hx
    refine hlink hxy (ne_of_mem_of_not_mem hxmem hebefore) (ne_of_mem_of_not_mem hy hebefore)
      hxp ?_
    exact hdisjoint y hy q List.mem_cons_self
  · refine isChain_behind hbehind (List.nodup_cons.mp hq).1 fun x hx y hy hyq hxy => ?_
    have hymem : y ∈ q :: qs := List.mem_cons_of_mem _ hy
    refine hlink hxy (ne_of_mem_of_not_mem hx hebehind) (ne_of_mem_of_not_mem hymem hebehind)
      ?_ hyq
    exact (hdisjoint p (List.mem_append_right _ (List.mem_singleton_self p)) x hx).symm

/-- A node is put between two nodes of a chain. -/
theorem isChain_insert {address : ℕ} {d : δ}
    (h : (ps ++ p :: q :: qs).IsChain (Link l)) (hnodup : (ps ++ p :: q :: qs).Nodup)
    (haddress : .entry address ∉ ps ++ p :: q :: qs) (hins : Inserted l l' p q address d) :
    (ps ++ p :: .entry address :: q :: qs).IsChain (Link l') := by
  obtain ⟨hbefore, hpq, hbehind⟩ := List.isChain_append_cons_cons.mp h
  obtain ⟨hbefore', hbehind'⟩ := isChain_parts hbefore hbehind hnodup haddress hins.link
  have hap : .entry address ≠ p := fun heq => haddress (by simp [heq])
  have haq : .entry address ≠ q := fun heq => haddress (by simp [heq])
  refine List.isChain_append_cons_cons.mpr
    ⟨hbefore', ⟨?_, ?_⟩, List.isChain_cons_cons.mpr ⟨⟨?_, ?_⟩, hbehind'⟩⟩
  · rw [hins.next, Function.update_self]
  · rw [hins.previous, Function.update_of_ne haq, Function.update_self]
  · rw [hins.next, Function.update_of_ne hap, Function.update_self]
  · rw [hins.previous, Function.update_self]

/-- A node is taken out of a chain. -/
theorem isChain_remove {e : ListPtr} (h : (ps ++ p :: e :: q :: qs).IsChain (Link l))
    (hnodup : (ps ++ p :: e :: q :: qs).Nodup) (hrem : Removed l l' p e q) :
    (ps ++ p :: q :: qs).IsChain (Link l') := by
  obtain ⟨hbefore, hpe, hbehind⟩ := List.isChain_append_cons_cons.mp h
  obtain ⟨heq, hbehind⟩ := List.isChain_cons_cons.mp hbehind
  rw [List.append_cons, List.nodup_middle, ← List.append_cons, List.nodup_cons] at hnodup
  obtain ⟨he, hnodup⟩ := hnodup
  obtain ⟨hbefore', hbehind'⟩ := isChain_parts hbefore hbehind hnodup he hrem.link
  have hpe' : p ≠ e := fun heq => he (by simp [heq])
  have hqe' : q ≠ e := fun heq => he (by simp [heq])
  refine List.isChain_append_cons_cons.mpr ⟨hbefore', ⟨?_, ?_⟩, hbehind'⟩
  · rw [hrem.next, Function.update_of_ne hpe', Function.update_self]
  · rw [hrem.previous, Function.update_of_ne hqe', Function.update_self]

end Chains

/-! ## The entries of a list -/

/-- The nodes of a list in order, with the sentinels. -/
def path (addresses : List ℕ) : List ListPtr :=
  .head :: addresses.map .entry ++ [.tail]

theorem nodup_path {addresses : List ℕ} (h : addresses.Nodup) : (path addresses).Nodup := by
  have hentries : (addresses.map ListPtr.entry).Nodup :=
    h.map fun a b hab => ListPtr.entry.inj hab
  simp [path, List.nodup_append, hentries]

theorem mem_path {addresses : List ℕ} {a : ℕ} :
    .entry a ∈ path addresses ↔ a ∈ addresses := by
  simp [path]

/-- The nodes up to an entry of the list, and those from it on. -/
theorem path_append (xs ys : List ℕ) :
    ∃ ps p q qs, path (xs ++ ys) = ps ++ p :: q :: qs ∧
      ∀ a, path (xs ++ a :: ys) = ps ++ p :: .entry a :: q :: qs := by
  obtain ⟨ps, p, hbefore⟩ : ∃ ps p, ListPtr.head :: xs.map .entry = ps ++ [p] :=
    ⟨_, _, (List.dropLast_append_getLast (List.cons_ne_nil _ _)).symm⟩
  obtain ⟨q, qs, hbehind⟩ : ∃ q qs, ys.map ListPtr.entry ++ [.tail] = q :: qs :=
    List.exists_cons_of_ne_nil (by simp)
  refine ⟨ps, p, q, qs, ?_, fun a => ?_⟩
  · rw [path, List.map_append, ← List.cons_append, hbefore, List.append_assoc, hbehind,
      List.append_assoc, List.singleton_append]
  · rw [path, List.map_append, ← List.cons_append, hbefore, List.map_cons,
      List.append_assoc, List.cons_append, hbehind, List.append_assoc,
      List.singleton_append]

/-- The memory holds the entries, with their addresses, in order, and no others. -/
structure Represents (l : LinkedList δ) (es : List (ℕ × δ)) : Prop where
  links : (path (es.map Prod.fst)).IsChain (Link l)
  data : ∀ e ∈ es, l.data (.entry e.1) = some e.2
  allocated : ∀ a, l.allocated (.entry a) = true ↔ a ∈ es.map Prod.fst
  nodup : (es.map Prod.fst).Nodup
  count : l.count = es.length

theorem represents_empty : (empty : LinkedList δ).Represents [] where
  links := List.isChain_pair.mpr ⟨rfl, rfl⟩
  data := fun _ he => absurd he List.not_mem_nil
  allocated := fun _ => ⟨fun h => Bool.noConfusion h, fun h => absurd h List.not_mem_nil⟩
  nodup := List.nodup_nil
  count := rfl

namespace Represents

variable {l : LinkedList δ} {xs ys es : List (ℕ × δ)} {e f : ℕ × δ}

/-- There is always an address that is free. -/
theorem exists_free (h : l.Represents es) : ∃ a, l.allocated (.entry a) = false := by
  obtain ⟨a, ha⟩ := Infinite.exists_notMem_finset (es.map Prod.fst).toFinset
  refine ⟨a, Bool.eq_false_iff.mpr fun hused => ha ?_⟩
  exact List.mem_toFinset.mpr ((h.allocated a).mp hused)

/-- An entry can be inserted at the end, at an address that is free. -/
theorem insertLast (h : l.Represents es) {address : ℕ}
    (hfree : l.allocated (.entry address) = false) (d : δ) :
    ∃ l', l.insertBefore .tail address d = some l' ∧
      l'.Represents (es ++ [(address, d)]) := by
  have hnew : address ∉ es.map Prod.fst := by
    intro hmem
    rw [(h.allocated address).mpr hmem] at hfree
    cases hfree
  obtain ⟨ps, p, hps⟩ : ∃ ps p, ListPtr.head :: (es.map Prod.fst).map .entry = ps ++ [p] :=
    ⟨_, _, (List.dropLast_append_getLast (List.cons_ne_nil _ _)).symm⟩
  have hpath : path (es.map Prod.fst) = ps ++ p :: .tail :: [] := by
    rw [path, hps, List.append_assoc, List.singleton_append]
  have hnewpath : path ((es ++ [(address, d)]).map Prod.fst) =
      ps ++ p :: .entry address :: .tail :: [] := by
    rw [path, List.map_append, List.map_append, ← List.cons_append, hps]
    simp
  have hnodup := nodup_path h.nodup
  have haddress : .entry address ∉ path (es.map Prod.fst) := mt mem_path.mp hnew
  have hlinks := h.links
  rw [hpath] at hnodup haddress hlinks
  have hlink : Link l p .tail := (List.isChain_append_cons_cons.mp hlinks).2.1
  have hp : .entry address ≠ p := fun heq => haddress (by simp [heq])
  obtain ⟨l', hinsert, hins⟩ := exists_insertBefore hlink hp ListPtr.noConfusion d
  refine ⟨l', hinsert, ?_, ?_, ?_, ?_, ?_⟩
  · rw [hnewpath]
    exact isChain_insert hlinks hnodup haddress hins
  · intro e he
    rw [hins.data]
    rcases List.mem_append.mp he with hold | hlast
    · have hne : ListPtr.entry e.1 ≠ .entry address := by
        intro heq
        exact hnew (ListPtr.entry.inj heq ▸ List.mem_map_of_mem hold)
      rw [Function.update_of_ne hne, h.data e hold]
    · obtain rfl := List.mem_singleton.mp hlast
      rw [Function.update_self]
  · intro a
    rw [hins.allocated, List.map_append, List.mem_append, ← h.allocated a]
    by_cases ha : a = address
    · subst ha
      simp
    · rw [Function.update_of_ne fun heq => ha (ListPtr.entry.inj heq)]
      simp [ha]
  · rw [List.map_append]
    refine List.nodup_append.mpr ⟨h.nodup, List.nodup_singleton _, ?_⟩
    rintro a ha b hb rfl
    obtain rfl := List.mem_singleton.mp hb
    exact hnew ha
  · rw [hins.count, h.count, List.length_append, List.length_singleton]

/-- An entry can be removed. -/
theorem remove (h : l.Represents (xs ++ e :: ys)) :
    ∃ l', l.remove (.entry e.1) = some l' ∧ l'.Represents (xs ++ ys) := by
  obtain ⟨ps, p, q, qs, hpath, hwith⟩ := path_append (xs.map Prod.fst) (ys.map Prod.fst)
  have hlinks := h.links
  have hnodup := nodup_path h.nodup
  have hdistinct := h.nodup
  rw [List.map_append, List.map_cons] at hlinks hnodup hdistinct
  rw [hwith e.1] at hlinks hnodup
  have hmiddle := List.nodup_middle.mp hdistinct
  rw [List.nodup_cons, ← List.map_append] at hmiddle
  obtain ⟨hgone, hrest⟩ := hmiddle
  obtain ⟨-, hpe, hbehind⟩ := List.isChain_append_cons_cons.mp hlinks
  have heq : Link l (.entry e.1) q := (List.isChain_cons_cons.mp hbehind).1
  have hpe' : .entry e.1 ≠ p := by
    rintro rfl
    simp [List.nodup_append] at hnodup
  have hcount : l.count ≠ 0 := by
    rw [h.count, List.length_append, List.length_cons]
    exact Nat.succ_ne_zero _
  obtain ⟨l', hremove, hrem⟩ := exists_remove hpe heq hpe' hcount
  refine ⟨l', hremove, ?_, ?_, ?_, hrest, ?_⟩
  · rw [List.map_append, hpath]
    exact isChain_remove hlinks hnodup hrem
  · intro e' he'
    have hne : ListPtr.entry e'.1 ≠ .entry e.1 := by
      intro heq
      exact hgone (ListPtr.entry.inj heq ▸ List.mem_map_of_mem he')
    have hmem : e' ∈ xs ++ e :: ys := by
      rcases List.mem_append.mp he' with hx | hy
      · exact List.mem_append_left _ hx
      · exact List.mem_append_right _ (List.mem_cons_of_mem _ hy)
    rw [hrem.data, Function.update_of_ne hne, h.data e' hmem]
  · intro a
    rw [hrem.allocated]
    by_cases ha : a = e.1
    · subst ha
      simpa using hgone
    · rw [Function.update_of_ne fun heq => ha (ListPtr.entry.inj heq), h.allocated a]
      simp [ha]
  · rw [hrem.count, h.count, List.length_append, List.length_cons, List.length_append]
    rfl

/-- The last sentinel points back to the last entry. -/
theorem previous_tail (h : l.Represents (xs ++ [e])) :
    l.previous .tail = some (.entry e.1) := by
  have hpath : path ((xs ++ [e]).map Prod.fst) =
      (.head :: (xs.map Prod.fst).map .entry) ++ .entry e.1 :: .tail :: [] := by
    simp [path]
  have hlinks := h.links
  rw [hpath] at hlinks
  exact (List.isChain_append_cons_cons.mp hlinks).2.1.previous

/-- An entry points back to the one before it. -/
theorem previous_entry (h : l.Represents (xs ++ f :: e :: ys)) :
    l.previous (.entry e.1) = some (.entry f.1) := by
  have hpath : path ((xs ++ f :: e :: ys).map Prod.fst) =
      (.head :: (xs.map Prod.fst).map .entry) ++
        .entry f.1 :: .entry e.1 :: ((ys.map Prod.fst).map .entry ++ [.tail]) := by
    simp [path]
  have hlinks := h.links
  rw [hpath] at hlinks
  exact (List.isChain_append_cons_cons.mp hlinks).2.1.previous

end Represents

end LinkedList
