import HyLisp.DataPlane.MapTables
import HyLisp.Support.LongestMatch
import HyLisp.Support.ThreadHoldings
import HyLisp.Support.Transition

/-!
# References to mappings

A mapping of the data plane is used by packets after its table is unlocked, and each of
its users counts in `map_refcnt`.  The packets give their references back with
`MAP_REMREF`, the map socket with `MAPFREE`, which frees a mapping that is out of its
table.  This is the table of one address family with the threads that use it.

The radix tree is the one of the kernel: it finds the longest prefix that covers an
address.  A failed assertion, a panic and the use of a freed mapping are `none`.

A packet holds no lock in `MAP_REMREF`, so others can come in between its load of the count
and its store: these are two steps.  What is done under the lock of the mapping is one step.
So is each update of `maptrash`, although one lock protects its increment and another one its
decrement.
-/

namespace HyLisp.DataPlane.MapReferences

/-- `MAPF_EXPIRED` -/
def mapfExpired : UInt32 := 0x040

/-- `map_key` and `map_mask` of a mapping. -/
structure EidPrefix (w : ℕ) where
  key : BitVec w
  mask : BitVec w
  deriving DecidableEq, Repr

/-- `IN_ARE_MASKED_ADDR_EQUAL` -/
def EidPrefix.covers {w : ℕ} (p : EidPrefix w) (addr : BitVec w) : Prop :=
  p.key = p.mask &&& addr

instance {w : ℕ} (p : EidPrefix w) (addr : BitVec w) : Decidable (p.covers addr) :=
  inferInstanceAs (Decidable (p.key = p.mask &&& addr))

/-- `mapentry`, as far as the references go. -/
structure Mapentry (w : ℕ) where
  eid : EidPrefix w
  mapFlags : UInt32
  mapRefcnt : ℤ
  mapLastused : ℕ
  deriving DecidableEq, Repr

/-- The mappings of a family: those allocated in `mapzone`, the tree, and `maptrash`.
An addition to a prefix that is taken leaves a mapping that nothing points to. -/
structure Maptables (ι : Type) (w : ℕ) where
  entries : AList fun _ : ι => Mapentry w
  table : AList fun _ : EidPrefix w => ι
  maptrash : ℤ
  strays : List ι

/-- What an addition is refused with. -/
inductive AddErrno
  | einval
  | eexist
  /-- the error of `map_setrlocs` or `map_fix_local_rlocs` -/
  | rlocs
  deriving DecidableEq, Repr

/-- The arguments of an addition.  What the RLOCs come to is given with them. -/
structure AddRequest (w : ℕ) where
  eid : BitVec w
  eidmask : BitVec w
  flags : UInt32
  rloc : Bool
  rlocnum : ℕ
  setrlocsFails : Bool
  fixLocalRlocsFails : Bool
  deriving Repr

variable {ι : Type} {w : ℕ} [DecidableEq ι]

namespace Maptables

/-- Writes an allocated mapping. -/
def write (s : Maptables ι w) (i : ι) (e : Mapentry w) : Maptables ι w :=
  { s with entries := s.entries.insert i e }

/-- `MAP_ADDREF` -/
def addref (s : Maptables ι w) (i : ι) : Option (Maptables ι w) := do
  let e ← s.entries.lookup i
  if 0 ≤ e.mapRefcnt then some (s.write i { e with mapRefcnt := e.mapRefcnt + 1 })
  else none

/-- `MAP_REMREF` -/
def remref (s : Maptables ι w) (i : ι) : Option (Maptables ι w) := do
  let e ← s.entries.lookup i
  if 0 < e.mapRefcnt then some (s.write i { e with mapRefcnt := e.mapRefcnt - 1 })
  else none

/-- The tree has the node of the mapping. -/
def Active (s : Maptables ι w) (i : ι) : Prop :=
  ∃ x ∈ s.table.entries, x.2 = i

instance (s : Maptables ι w) (i : ι) : Decidable (s.Active i) :=
  inferInstanceAs (Decidable (∃ x ∈ s.table.entries, x.2 = i))

/-- `mapfree` -/
def mapfree (s : Maptables ι w) (i : ι) : Option (Maptables ι w) := do
  let s ← s.remref i
  let e ← s.entries.lookup i
  if e.mapRefcnt > 0 then some s
  else if e.mapFlags &&& mapfUp = 0 then
    if s.Active i then none
    else some { s with maptrash := s.maptrash - 1, entries := s.entries.erase i }
  else some s

/-- `MAPFREE` -/
def mapFree (s : Maptables ι w) (i : ι) : Option (Maptables ι w) := do
  let e ← s.entries.lookup i
  if e.mapRefcnt ≤ 1 then s.mapfree i else s.remref i

/-! ## Lookups -/

/-- `rnh_matchaddr` -/
def matchaddr (s : Maptables ι w) (addr : BitVec w) : Option ι :=
  (LongestMatch.scan (fun x => x.1.covers addr) (fun x => x.1.mask.toNat)
    s.table.entries none).map fun x => x.2

/-- `maplookup` -/
def maplookup (s : Maptables ι w) (addr : BitVec w) (dbflag : UInt32) (now : ℕ) :
    Option (Maptables ι w × Option ι) :=
  match s.matchaddr addr with
  | none => some (s, none)
  | some i => do
      let e ← s.entries.lookup i
      if dbflag ≠ e.mapFlags &&& mapfDb then some (s, none)
      else do
        let s ← (s.write i { e with mapLastused := now }).addref i
        return (s, some i)

/-- `dblookup` -/
def dblookup (s : Maptables ι w) (addr : BitVec w) (now : ℕ) :
    Option (Maptables ι w × Option ι) :=
  s.maplookup addr mapfDb now

/-- `cachelookup` -/
def cachelookup (s : Maptables ι w) (addr : BitVec w) (now : ℕ) :
    Option (Maptables ι w × Option ι) := do
  let (s, mapping) ← s.maplookup addr 0 now
  match mapping with
  | none => return (s, none)
  | some i =>
      let e ← s.entries.lookup i
      if e.mapFlags &&& mapfDb ≠ 0 then
        let s ← s.remref i
        return (s, none)
      else return (s, some i)

/-! ## Changes of the table -/

/-- `maprequest` with `MAPM_DELETE`; `none` for the mapping is `ESRCH`.  `ret` says that
the caller wants the mapping. -/
def maprequestDelete (s : Maptables ι w) (p : EidPrefix w) (ret : Bool) :
    Option (Maptables ι w × Option ι) :=
  match s.table.lookup p with
  | none => some (s, none)
  | some i => do
      let s := { s with table := s.table.erase p }
      if s.Active i then none
      else do
        let s ← s.addref i
        let e ← s.entries.lookup i
        let s := s.write i { e with mapFlags := e.mapFlags &&& ~~~mapfUp }
        let s := { s with maptrash := s.maptrash + 1 }
        if ret then return (s, some i)
        else do
          let s ← s.mapFree i
          return (s, some i)

/-- `maprequest` with `MAPM_ADD`, into the free mapping `i`. -/
def maprequestAdd (s : Maptables ι w) (i : ι) (req : AddRequest w) (now : ℕ) :
    Maptables ι w × Except AddErrno ι :=
  let neid : EidPrefix w := ⟨req.eidmask &&& req.eid, req.eidmask⟩
  let mapt : Mapentry w := ⟨neid, mapfUp ||| req.flags, 0, 0⟩
  if req.flags &&& mapfAll ≠ 0 then (s, .error .einval)
  else if (req.flags &&& mapfNegative = 0 ∧ (req.rloc = false ∨ req.rlocnum = 0)) ∨
      (req.flags &&& mapfNegative ≠ 0 ∧ (req.rloc ∨ req.rlocnum ≠ 0)) then
    (s, .error .einval)
  else if neid ∈ s.table then
    -- the new mapping is neither linked to the tree nor freed
    ({ s.write i mapt with strays := i :: s.strays }, .error .eexist)
  else if req.rlocnum ≠ 0 ∧ req.setrlocsFails then (s, .error .rlocs)
  else if req.flags &&& mapfNegative = 0 ∧ req.flags &&& mapfDb ≠ 0 ∧
      req.fixLocalRlocsFails then (s, .error .rlocs)
  else
    ({ s.write i { mapt with mapLastused := now, mapRefcnt := 1 } with
        table := s.table.insert neid i }, .ok i)

/-- `lisp_cache_expired` on the mapping of a prefix. -/
def lispCacheExpired (s : Maptables ι w) (p : EidPrefix w) (now xpgto : ℕ) :
    Option (Maptables ι w) :=
  match s.table.lookup p with
  | none => some s
  | some i => do
      let e ← s.entries.lookup i
      if e.mapFlags &&& mapfDb = 0 ∧ e.mapFlags &&& mapfStatic = 0 ∧
          (now : ℤ) - e.mapLastused > xpgto then do
        let s := s.write i { e with mapFlags := e.mapFlags ||| mapfExpired }
        let (s, _) ← s.maprequestDelete e.eid false
        return s
      else return s

end Maptables

/-! ## The users of the mappings -/

/-- Where a thread that uses mappings stands.  The packets of `lisp_output`, of
`lisp_ip_needencap` and of the end of `lisp_check_ip_mappings`, and an addition, only
give back their references. -/
inductive Position (ι : Type) (w : ℕ)
  /-- `lisp_ip_mapencap` in front of its second lookup -/
  | mapencap (dst : BitVec w) (localmap : ι)
  /-- `lisp_check_ip_mappings` behind its first lookup -/
  | checkMappings (localMap : ι)
  /-- ahead of one `MAP_REMREF` for each mapping -/
  | leaving (held : List ι)
  /-- in a `MAP_REMREF` that has loaded the count, and ahead of those for the rest -/
  | storing (i : ι) (mapRefcnt : ℤ) (rest : List ι)
  /-- `map_output` ahead of `MAPFREE` -/
  | reporting (map : ι)

/-- The references of a thread. -/
def Position.held : Position ι w → Multiset ι
  | .mapencap _ localmap => {localmap}
  | .checkMappings localMap => {localMap}
  | .leaving held => held
  | .storing i _ rest => i ::ₘ (rest : Multiset ι)
  | .reporting map => {map}

/-- A table with its users.  The references in `lost` were in an `eidmap` that was freed. -/
structure Kernel (T ι : Type) (w : ℕ) where
  tables : Maptables ι w
  threads : AList fun _ : T => Position ι w
  lost : List ι

/-- What a thread does up to where other threads can come in between. -/
inductive Event (T ι : Type) (w : ℕ)
  /-- `lisp_ip_mapencap` up to its second lookup -/
  | mapencap (t : T) (src dst : BitVec w) (now : ℕ)
  /-- `lisp_ip_mapencap` has no memory for the second `eidmap` -/
  | noBufs (t : T)
  /-- `lisp_ip_mapencap` from its second lookup -/
  | mapencapRemote (t : T) (now : ℕ)
  /-- `lisp_ip_needencap` up to where it gives the mapping back -/
  | needencap (t : T) (src : BitVec w) (now : ℕ)
  /-- `lisp_check_ip_mappings` up to its first lookup -/
  | checkMappings (t : T) (dst : BitVec w) (now : ℕ)
  /-- `lisp_check_ip_mappings` does not find the RLOC -/
  | noRloc (t : T)
  /-- `lisp_check_ip_mappings` with its second lookup -/
  | checkRemote (t : T) (src : BitVec w) (now : ℕ)
  /-- `MAP_REMREF` up to its load of the count -/
  | loadRefcnt (t : T) (i : ι)
  /-- the store of a `MAP_REMREF` -/
  | storeRefcnt (t : T)
  /-- `map_output` with `MAPM_ADD`, which is given free memory -/
  | add (t : T) (i : ι) (req : AddRequest w) (now : ℕ)
  /-- `map_output` with `MAPM_DELETE` up to its report -/
  | delete (t : T) (p : EidPrefix w)
  /-- `map_output` with `MAPM_GET`, which finds the prefix, up to its report -/
  | get (t : T) (p : EidPrefix w)
  /-- `MAPFREE` at the end of `map_output` -/
  | mapFree (t : T)
  /-- the timer comes to the mapping of a prefix -/
  | expire (p : EidPrefix w) (now xpgto : ℕ)

namespace Kernel

variable {T : Type} [DecidableEq T]

/-- All references: those of the threads, and those that are lost. -/
def refs (k : Kernel T ι w) : Multiset ι :=
  ThreadTable.holdings Position.held k.threads + (k.lost : Multiset ι)

/-- The kernel with empty tables. -/
def empty : Kernel T ι w := ⟨⟨∅, ∅, 0, []⟩, ∅, []⟩

def enter (k : Kernel T ι w) (t : T) (pos : Position ι w) : Kernel T ι w :=
  { k with threads := k.threads.insert t pos }

def leave (k : Kernel T ι w) (t : T) : Kernel T ι w :=
  { k with threads := k.threads.erase t }

/-- `lisp_ip_mapencap` up to its second lookup -/
def mapencap (k : Kernel T ι w) (t : T) (src dst : BitVec w) (now : ℕ) :
    Option (Kernel T ι w) :=
  if src = 0 then some k
  else do
    let (tables, mapping) ← k.tables.dblookup src now
    let k := { k with tables := tables }
    match mapping with
    | none => return k
    | some i =>
        let e ← k.tables.entries.lookup i
        if e.mapFlags &&& mapfNegative = 0 ∧ ¬e.eid.covers dst then
          return k.enter t (.mapencap dst i)
        else
          -- `free(localmap, M_TEMP)` without `MAP_REMREF`
          return { k with lost := i :: k.lost }

/-- `lisp_ip_mapencap` from its second lookup, and `lisp_output` -/
def mapencapRemote (k : Kernel T ι w) (t : T) (dst : BitVec w) (localmap : ι) (now : ℕ) :
    Option (Kernel T ι w) := do
  let (tables, mapping) ← k.tables.cachelookup dst now
  let k := { k with tables := tables }
  match mapping with
  | none => return k.enter t (.leaving [localmap])
  | some i =>
      let e ← k.tables.entries.lookup i
      if e.mapFlags &&& mapfNegative ≠ 0 then
        -- both are freed without `MAP_REMREF`
        return { k.leave t with lost := localmap :: i :: k.lost }
      else return k.enter t (.leaving [localmap, i])

/-- `lisp_ip_needencap` up to where it gives the mapping back -/
def needencap (k : Kernel T ι w) (t : T) (src : BitVec w) (now : ℕ) :
    Option (Kernel T ι w) :=
  if src = 0 then some k
  else do
    let (tables, mapping) ← k.tables.dblookup src now
    let k := { k with tables := tables }
    match mapping with
    | none => return k
    | some i => return k.enter t (.leaving [i])

/-- `lisp_check_ip_mappings` up to its first lookup -/
def checkMappings (k : Kernel T ι w) (t : T) (dst : BitVec w) (now : ℕ) :
    Option (Kernel T ι w) := do
  let (tables, mapping) ← k.tables.dblookup dst now
  let k := { k with tables := tables }
  match mapping with
  | none => return k
  | some i => return k.enter t (.checkMappings i)

/-- `lisp_check_ip_mappings` with its second lookup -/
def checkRemote (k : Kernel T ι w) (t : T) (localMap : ι) (src : BitVec w) (now : ℕ) :
    Option (Kernel T ι w) := do
  let (tables, mapping) ← k.tables.cachelookup src now
  let k := { k with tables := tables }
  match mapping with
  | none => return k.enter t (.leaving [localMap])
  | some i => return k.enter t (.leaving [localMap, i])

/-- `MAP_REMREF` of a thread up to its load of the count -/
def loadRefcnt (k : Kernel T ι w) (t : T) (held : List ι) (i : ι) : Option (Kernel T ι w) := do
  let e ← k.tables.entries.lookup i
  if 0 < e.mapRefcnt then some (k.enter t (.storing i e.mapRefcnt (held.erase i)))
  else none

/-- The store of a `MAP_REMREF` of a thread, the last one of which ends it. -/
def storeRefcnt (k : Kernel T ι w) (t : T) (i : ι) (mapRefcnt : ℤ) (rest : List ι) :
    Option (Kernel T ι w) := do
  let e ← k.tables.entries.lookup i
  let k := { k with tables := k.tables.write i { e with mapRefcnt := mapRefcnt - 1 } }
  match rest with
  | [] => return k.leave t
  | rest => return k.enter t (.leaving rest)

/-- `map_output` with `MAPM_ADD` -/
def add (k : Kernel T ι w) (t : T) (i : ι) (req : AddRequest w) (now : ℕ) : Kernel T ι w :=
  match k.tables.maprequestAdd i req now with
  | (tables, .error _) => { k with tables := tables }
  | (tables, .ok i) => { k with tables := tables }.enter t (.leaving [i])

/-- `map_output` with `MAPM_DELETE` up to its report -/
def delete (k : Kernel T ι w) (t : T) (p : EidPrefix w) : Option (Kernel T ι w) := do
  let (tables, mapping) ← k.tables.maprequestDelete p true
  let k := { k with tables := tables }
  match mapping with
  | none => return k
  | some i => return k.enter t (.reporting i)

/-- `map_output` with `MAPM_GET` up to its report -/
def get (k : Kernel T ι w) (t : T) (p : EidPrefix w) : Option (Kernel T ι w) :=
  match k.tables.table.lookup p with
  | none => some k
  | some i => do
      let tables ← k.tables.addref i
      return { k with tables := tables }.enter t (.reporting i)

/-- The event of a thread can take place when the thread stands there, and the event of a
new thread when there is no such thread yet. -/
def Enabled (k : Kernel T ι w) : Event T ι w → Prop
  | .mapencap t _ _ _ | .needencap t _ _ | .checkMappings t _ _ | .delete t _ | .get t _ =>
      t ∉ k.threads
  | .noBufs t | .mapencapRemote t _ =>
      ∃ dst i, k.threads.lookup t = some (.mapencap dst i)
  | .noRloc t | .checkRemote t _ _ => ∃ i, k.threads.lookup t = some (.checkMappings i)
  | .loadRefcnt t i => ∃ held, k.threads.lookup t = some (.leaving held) ∧ i ∈ held
  | .storeRefcnt t => ∃ i n rest, k.threads.lookup t = some (.storing i n rest)
  | .add t i _ _ => t ∉ k.threads ∧ i ∉ k.tables.entries
  | .mapFree t => ∃ i, k.threads.lookup t = some (.reporting i)
  | .expire _ _ _ => True

/-- The store of a `MAP_REMREF` finds the count that was loaded. -/
def Undisturbed (k : Kernel T ι w) : Event T ι w → Prop
  | .storeRefcnt t =>
      match k.threads.lookup t with
      | some (.storing i n _) => ∀ e ∈ k.tables.entries.lookup i, e.mapRefcnt = n
      | _ => True
  | _ => True

instance (k : Kernel T ι w) (e : Event T ι w) : Decidable (k.Undisturbed e) := by
  unfold Undisturbed
  split
  · split <;> infer_instance
  · infer_instance

/-- What an enabled event does. -/
def step (k : Kernel T ι w) : Event T ι w → Option (Kernel T ι w)
  | .mapencap t src dst now => if t ∈ k.threads then none else k.mapencap t src dst now
  | .noBufs t =>
      match k.threads.lookup t with
      | some (.mapencap _ i) => some (k.enter t (.leaving [i]))
      | _ => none
  | .mapencapRemote t now =>
      match k.threads.lookup t with
      | some (.mapencap dst i) => k.mapencapRemote t dst i now
      | _ => none
  | .needencap t src now => if t ∈ k.threads then none else k.needencap t src now
  | .checkMappings t dst now => if t ∈ k.threads then none else k.checkMappings t dst now
  | .noRloc t =>
      match k.threads.lookup t with
      | some (.checkMappings i) => some (k.enter t (.leaving [i]))
      | _ => none
  | .checkRemote t src now =>
      match k.threads.lookup t with
      | some (.checkMappings i) => k.checkRemote t i src now
      | _ => none
  | .loadRefcnt t i =>
      match k.threads.lookup t with
      | some (.leaving held) => if i ∈ held then k.loadRefcnt t held i else none
      | _ => none
  | .storeRefcnt t =>
      match k.threads.lookup t with
      | some (.storing i n rest) => k.storeRefcnt t i n rest
      | _ => none
  | .add t i req now =>
      if t ∈ k.threads ∨ i ∈ k.tables.entries then none else some (k.add t i req now)
  | .delete t p => if t ∈ k.threads then none else k.delete t p
  | .get t p => if t ∈ k.threads then none else k.get t p
  | .mapFree t =>
      match k.threads.lookup t with
      | some (.reporting i) => do
          let tables ← k.tables.mapFree i
          return { k with tables := tables }.leave t
      | _ => none
  | .expire p now xpgto => do
      let tables ← k.tables.lispCacheExpired p now xpgto
      return { k with tables := tables }

end Kernel

end HyLisp.DataPlane.MapReferences
