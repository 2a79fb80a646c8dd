import HyLisp.DataPlane.MapReferences
import Mathlib

/-!
# The reference counts of the mappings

The count of a mapping is the number of references to it, over the threads that use it
and the references that are lost.  So no assertion fails and no mapping is freed under a
user.  `maptrash` counts the mappings that are neither freed nor in the tree, apart from
those that an addition to a taken prefix leaves.
-/

namespace HyLisp.DataPlane.MapReferences

variable {ι : Type} {w : ℕ} [DecidableEq ι]

/-- `MAPF_UP` is off. -/
def Mapentry.down (e : Mapentry w) : Bool :=
  e.mapFlags &&& mapfUp = 0

namespace Maptables

variable {s s' : Maptables ι w} {r : Multiset ι} {i j : ι} {e : Mapentry w}

/-- The part of a mapping that only additions, deletions and the timer change. -/
def shape (s : Maptables ι w) (i : ι) : Option (EidPrefix w × UInt32) :=
  (s.entries.lookup i).map fun e => (e.eid, e.mapFlags)

/-- The tree has the mappings with `MAPF_UP`, apart from those that are left over, and
`maptrash` counts the ones that are out of it. -/
structure Linked (s : Maptables ι w) : Prop where
  table_up : ∀ {p i}, s.table.lookup p = some i →
    ∃ f, s.shape i = some (p, f) ∧ f &&& mapfUp ≠ 0
  up_linked : ∀ {i p f}, s.shape i = some (p, f) → f &&& mapfUp ≠ 0 →
    s.table.lookup p = some i ∨ i ∈ s.strays
  stray_up : ∀ i ∈ s.strays, ∃ p f, s.shape i = some (p, f) ∧ f &&& mapfUp ≠ 0
  stray_unlinked : ∀ i ∈ s.strays, ∀ p, s.table.lookup p ≠ some i
  trash : s.maptrash = (ThreadTable.count Mapentry.down s.entries : ℕ)

/-- The counts are those of the references `r`. -/
structure Counted (s : Maptables ι w) (r : Multiset ι) : Prop where
  linked : s.Linked
  refcnt : ∀ {i e}, s.entries.lookup i = some e → e.mapRefcnt = r.count i
  live : ∀ i ∈ r, i ∈ s.entries
  stray_unheld : ∀ i ∈ s.strays, i ∉ r

/-- Nothing changes but the counts and the times of use. -/
structure SameTable (s s' : Maptables ι w) : Prop where
  table : s'.table = s.table
  maptrash : s'.maptrash = s.maptrash
  strays : s'.strays = s.strays
  down : ThreadTable.count Mapentry.down s'.entries = ThreadTable.count Mapentry.down s.entries
  shape : ∀ i, s'.shape i = s.shape i

namespace SameTable

theorem refl (s : Maptables ι w) : SameTable s s :=
  ⟨rfl, rfl, rfl, rfl, fun _ => rfl⟩

theorem trans {s'' : Maptables ι w} (h : SameTable s s') (h' : SameTable s' s'') :
    SameTable s s'' where
  table := h'.table.trans h.table
  maptrash := h'.maptrash.trans h.maptrash
  strays := h'.strays.trans h.strays
  down := h'.down.trans h.down
  shape := fun i => (h'.shape i).trans (h.shape i)

theorem mem_iff (h : SameTable s s') : i ∈ s'.entries ↔ i ∈ s.entries := by
  have hshape := congrArg Option.isSome (h.shape i)
  unfold Maptables.shape at hshape
  rw [Option.isSome_map, Option.isSome_map] at hshape
  rw [← AList.lookup_isSome, ← AList.lookup_isSome, hshape]

theorem linked (h : SameTable s s') (hs : s.Linked) : s'.Linked where
  table_up := fun hp => by
    rw [h.table] at hp
    rw [h.shape]
    exact hs.table_up hp
  up_linked := fun hi hup => by
    rw [h.shape] at hi
    rw [h.table, h.strays]
    exact hs.up_linked hi hup
  stray_up := fun i hi => by
    rw [h.strays] at hi
    rw [h.shape]
    exact hs.stray_up i hi
  stray_unlinked := fun i hi => by
    rw [h.strays] at hi
    rw [h.table]
    exact hs.stray_unlinked i hi
  trash := by
    rw [h.maptrash, h.down]
    exact hs.trash

end SameTable

/-! ## One mapping -/

theorem lookup_write (s : Maptables ι w) (e : Mapentry w) :
    (s.write i e).entries.lookup j = if j = i then some e else s.entries.lookup j := by
  change (s.entries.insert i e).lookup j = _
  split
  case isTrue h => rw [h, AList.lookup_insert]
  case isFalse h => rw [AList.lookup_insert_ne h]

theorem sameTable_write {e' : Mapentry w} (h : s.entries.lookup i = some e)
    (heid : e'.eid = e.eid) (hflags : e'.mapFlags = e.mapFlags) :
    SameTable s (s.write i e') where
  table := rfl
  maptrash := rfl
  strays := rfl
  down := by
    have hmove := ThreadTable.count_move Mapentry.down e' h
    have hdown : e'.down = e.down := by
      unfold Mapentry.down
      rw [hflags]
    rw [hdown] at hmove
    exact Nat.add_right_cancel hmove
  shape := fun j => by
    unfold shape
    rw [lookup_write]
    split
    case isTrue hji => rw [hji, h, Option.map_some, Option.map_some, heid, hflags]
    case isFalse => rfl

theorem mem_of_lookup (h : s.entries.lookup i = some e) : i ∈ s.entries :=
  ThreadTable.mem_of_lookup h

theorem exists_lookup (h : i ∈ s.entries) : ∃ e, s.entries.lookup i = some e :=
  Option.isSome_iff_exists.mp (AList.lookup_isSome.mpr h)

/-- Writing a count that fits the references. -/
theorem Counted.write {r' : Multiset ι} {e' : Mapentry w} (h : s.Counted r)
    (he : s.entries.lookup i = some e) (heid : e'.eid = e.eid)
    (hflags : e'.mapFlags = e.mapFlags) (hcount : e'.mapRefcnt = r'.count i)
    (hother : ∀ j ≠ i, r'.count j = r.count j) (hstray : i ∉ s.strays) :
    (s.write i e').Counted r' ∧ SameTable s (s.write i e') := by
  have hsame := sameTable_write he heid hflags
  have hmem : ∀ j ∈ r', j ≠ i → j ∈ r := fun j hj hne => by
    rw [← Multiset.count_pos, ← hother j hne]
    exact Multiset.count_pos.mpr hj
  refine ⟨⟨hsame.linked h.linked, ?_, fun j hj => ?_, fun j hj hjr => ?_⟩, hsame⟩
  · intro j d hd
    rw [lookup_write] at hd
    by_cases hji : j = i
    · rw [if_pos hji, Option.some_inj] at hd
      rw [← hd, hcount, hji]
    · rw [if_neg hji] at hd
      rw [h.refcnt hd, hother j hji]
  · rw [hsame.mem_iff]
    by_cases hji : j = i
    · rw [hji]
      exact mem_of_lookup he
    · exact h.live j (hmem j hj hji)
  · have hne : j ≠ i := fun hji => hstray (hji ▸ hj)
    exact h.stray_unheld j hj (hmem j hjr hne)

theorem addref_eq (he : s.entries.lookup i = some e) (hcount : 0 ≤ e.mapRefcnt) :
    s.addref i = some (s.write i { e with mapRefcnt := e.mapRefcnt + 1 }) := by
  rw [addref, he, Option.bind_eq_bind, Option.bind_some, if_pos hcount]

theorem addref_spec (h : s.Counted r) (hi : i ∈ s.entries) (hstray : i ∉ s.strays) :
    ∃ s', s.addref i = some s' ∧ s'.Counted (i ::ₘ r) ∧ SameTable s s' := by
  obtain ⟨e, he⟩ := exists_lookup hi
  have hcount := h.refcnt he
  have hpos : 0 ≤ e.mapRefcnt := by
    rw [hcount]
    exact Int.natCast_nonneg _
  refine ⟨_, addref_eq he hpos, ?_⟩
  refine h.write he rfl rfl ?_ (fun j hj => Multiset.count_cons_of_ne hj r) hstray
  rw [Multiset.count_cons_self, Nat.cast_succ, ← hcount]

theorem remref_spec (h : s.Counted (i ::ₘ r)) :
    ∃ s', s.remref i = some s' ∧ s'.Counted r ∧ SameTable s s' := by
  have hmem : i ∈ i ::ₘ r := Multiset.mem_cons_self i r
  obtain ⟨e, he⟩ := exists_lookup (h.live i hmem)
  have hcount := h.refcnt he
  rw [Multiset.count_cons_self, Nat.cast_succ] at hcount
  have hpos : 0 < e.mapRefcnt := by omega
  refine ⟨s.write i { e with mapRefcnt := e.mapRefcnt - 1 }, ?_, ?_⟩
  · rw [remref, he, Option.bind_eq_bind, Option.bind_some, if_pos hpos]
  · refine h.write he rfl rfl ?_ (fun j hj => (Multiset.count_cons_of_ne hj r).symm)
      fun hstray => h.stray_unheld i hstray hmem
    change e.mapRefcnt - 1 = _
    omega

theorem remref_eq_write {n : ℤ} (he : s.entries.lookup i = some e) (hcount : e.mapRefcnt = n)
    (h : s.remref i = some s') : s' = s.write i { e with mapRefcnt := n - 1 } := by
  rw [remref, he, Option.bind_eq_bind, Option.bind_some, hcount] at h
  split at h
  · exact (Option.some_inj.mp h).symm
  · cases h

/-! ## `MAPFREE` -/

/-- The mapping has `MAPF_UP`. -/
def Up (s : Maptables ι w) (i : ι) : Prop :=
  ∃ p f, s.shape i = some (p, f) ∧ f &&& mapfUp ≠ 0

theorem shape_eq (h : s.entries.lookup i = some e) : s.shape i = some (e.eid, e.mapFlags) := by
  rw [shape, h, Option.map_some]

theorem up_iff (h : s.entries.lookup i = some e) : s.Up i ↔ e.mapFlags &&& mapfUp ≠ 0 := by
  rw [Up, shape_eq h]
  constructor
  · rintro ⟨p, f, hpf, hup⟩
    rw [Option.some_inj, Prod.mk.injEq] at hpf
    rwa [hpf.2]
  · intro hup
    exact ⟨_, _, rfl, hup⟩

theorem down_iff (h : s.entries.lookup i = some e) : e.down = true ↔ ¬s.Up i := by
  rw [up_iff h, not_not, Mapentry.down, decide_eq_true_iff]

theorem SameTable.up_iff (h : SameTable s s') : s'.Up i ↔ s.Up i := by
  unfold Up
  rw [h.shape]

omit [DecidableEq ι] in
theorem active_iff : s.Active i ↔ ∃ p, s.table.lookup p = some i := by
  constructor
  · rintro ⟨x, hx, rfl⟩
    exact ⟨x.1, ThreadTable.mem_entries_iff.mp hx⟩
  · rintro ⟨p, hp⟩
    exact ⟨⟨p, i⟩, ThreadTable.mem_entries_iff.mpr hp, rfl⟩

theorem Linked.not_active (h : s.Linked) (hdown : ¬s.Up i) : ¬s.Active i := by
  rw [active_iff]
  rintro ⟨p, hp⟩
  obtain ⟨f, hf, hup⟩ := h.table_up hp
  exact hdown ⟨p, f, hf, hup⟩

/-- A mapping that is out of the tree is freed. -/
theorem Counted.free (h : s.Counted r) (hi : i ∈ s.entries) (hdown : ¬s.Up i) (hr : i ∉ r) :
    Counted { s with maptrash := s.maptrash - 1, entries := s.entries.erase i } r := by
  have hshape : ∀ j ≠ i, (s.entries.erase i).lookup j = s.entries.lookup j := fun j hj =>
    AList.lookup_erase_ne hj
  have hkeep : ∀ {j p f}, s.shape j = some (p, f) → f &&& mapfUp ≠ 0 → j ≠ i := by
    rintro j p f hj hup rfl
    exact hdown ⟨p, f, hj, hup⟩
  refine ⟨⟨fun {p j} hp => ?_, fun {j p f} hj hup => ?_, fun j hj => ?_, h.linked.stray_unlinked,
    ?_⟩, fun {j e} hj => ?_, fun j hj => ?_, h.stray_unheld⟩
  · obtain ⟨f, hf, hup⟩ := h.linked.table_up hp
    refine ⟨f, ?_, hup⟩
    unfold shape
    rw [hshape j (hkeep hf hup)]
    exact hf
  · have hne : j ≠ i := by
      rintro rfl
      simp [shape] at hj
    unfold shape at hj
    rw [hshape j hne] at hj
    exact h.linked.up_linked hj hup
  · obtain ⟨p, f, hf, hup⟩ := h.linked.stray_up j hj
    refine ⟨p, f, ?_, hup⟩
    unfold shape
    rw [hshape j (hkeep hf hup)]
    exact hf
  · obtain ⟨e, he⟩ := exists_lookup hi
    have htrash := h.linked.trash
    have hcount := ThreadTable.count_erase Mapentry.down he
    rw [(down_iff he).mpr hdown, Bool.toNat_true] at hcount
    change s.maptrash - 1 = (ThreadTable.count Mapentry.down (s.entries.erase i) : ℕ)
    omega
  · exact h.refcnt (ThreadTable.lookup_erase_iff.mp hj).2
  · have hne : j ≠ i := fun hji => hr (hji ▸ hj)
    exact AList.mem_erase.mpr ⟨hne, h.live j hj⟩

/-- What `MAPFREE` leaves: the mapping is freed when no one else has a reference and it is
out of the tree. -/
structure Released (s s' : Maptables ι w) (i : ι) (r : Multiset ι) : Prop where
  table : s'.table = s.table
  mem_iff : ∀ j, j ∈ s'.entries ↔ j ∈ s.entries ∧ ¬(j = i ∧ i ∉ r ∧ ¬s.Up i)

theorem mapFree_spec (h : s.Counted (i ::ₘ r)) :
    ∃ s', s.mapFree i = some s' ∧ s'.Counted r ∧ Released s s' i r := by
  have hlive := h.live i (Multiset.mem_cons_self i r)
  obtain ⟨e, he⟩ := exists_lookup hlive
  obtain ⟨s₁, hrem, hcounted, hsame⟩ := remref_spec h
  have hcount := h.refcnt he
  rw [Multiset.count_cons_self, Nat.cast_succ] at hcount
  have hstay : i ∈ r ∨ s.Up i → Released s s₁ i r := fun hor => by
    refine ⟨hsame.table, fun j => ?_⟩
    rw [hsame.mem_iff]
    refine ⟨fun hj => ⟨hj, ?_⟩, And.left⟩
    rintro ⟨-, hr, hdown⟩
    exact hor.elim hr hdown
  rw [mapFree, he, Option.bind_eq_bind, Option.bind_some]
  by_cases hr : i ∈ r
  · have hpos := Multiset.count_pos.mpr hr
    refine ⟨s₁, ?_, hcounted, hstay (Or.inl hr)⟩
    rw [if_neg (by omega)]
    exact hrem
  · have hzero := Multiset.count_eq_zero.mpr hr
    have hlast : e.mapRefcnt ≤ 1 := by omega
    obtain ⟨e₁, he₁⟩ := exists_lookup (hsame.mem_iff.mpr hlive)
    have hcount₁ := hcounted.refcnt he₁
    rw [hzero, Nat.cast_zero] at hcount₁
    have hgone : ¬e₁.mapRefcnt > 0 := by omega
    rw [if_pos hlast, mapfree, hrem, Option.bind_eq_bind, Option.bind_some, he₁,
      Option.bind_eq_bind, Option.bind_some, if_neg hgone]
    by_cases hup : s₁.Up i
    · refine ⟨s₁, ?_, hcounted, hstay (Or.inr (hsame.up_iff.mp hup))⟩
      rw [if_neg ((Maptables.up_iff he₁).mp hup)]
    · have hflags : e₁.mapFlags &&& mapfUp = 0 := by
        by_contra hne
        exact hup ((Maptables.up_iff he₁).mpr hne)
      refine ⟨_, ?_, hcounted.free (mem_of_lookup he₁) hup hr, hsame.table, fun j => ?_⟩
      · rw [if_pos hflags, if_neg (hcounted.linked.not_active hup)]
      · change j ∈ s₁.entries.erase i ↔ _
        rw [AList.mem_erase, hsame.mem_iff, and_comm]
        apply and_congr_right
        intro _
        constructor
        · rintro hne ⟨hji, -⟩
          exact hne hji
        · intro hnot hji
          exact hnot ⟨hji, hr, fun hs => hup (hsame.up_iff.mpr hs)⟩

/-! ## Lookups -/

omit [DecidableEq ι] in
theorem exists_lookup_of_matchaddr {addr : BitVec w} (h : s.matchaddr addr = some i) :
    ∃ p, s.table.lookup p = some i := by
  obtain ⟨x, hx, rfl⟩ := Option.map_eq_some_iff.mp h
  exact ⟨x.1, ThreadTable.mem_entries_iff.mp (LongestMatch.scan_isLongest hx).mem⟩

theorem Linked.mem_entries {p : EidPrefix w} (h : s.Linked) (hp : s.table.lookup p = some i) :
    i ∈ s.entries := by
  obtain ⟨f, hf, -⟩ := h.table_up hp
  obtain ⟨e, he, -⟩ := Option.map_eq_some_iff.mp hf
  exact mem_of_lookup he

theorem Linked.not_stray {p : EidPrefix w} (h : s.Linked) (hp : s.table.lookup p = some i) :
    i ∉ s.strays :=
  fun hi => h.stray_unlinked i hi p hp

/-- What a lookup leaves: a reference to the mapping that it finds in the tree. -/
structure Found (s s' : Maptables ι w) (mapping : Option ι) (r : Multiset ι) : Prop where
  counted : s'.Counted (mapping.toList + r)
  same : SameTable s s'
  linked : ∀ i ∈ mapping, ∃ p, s.table.lookup p = some i

theorem found_none (h : s.Counted r) : Found s s none r :=
  ⟨(zero_add r).symm ▸ h, .refl s, fun _ hi => nomatch hi⟩

theorem maplookup_spec (h : s.Counted r) (addr : BitVec w) (dbflag : UInt32) (now : ℕ) :
    ∃ s' mapping, s.maplookup addr dbflag now = some (s', mapping) ∧
      Found s s' mapping r := by
  unfold maplookup
  cases hmatch : s.matchaddr addr with
  | none => exact ⟨s, none, rfl, found_none h⟩
  | some i =>
      obtain ⟨p, hp⟩ := exists_lookup_of_matchaddr hmatch
      have hlive := h.linked.mem_entries hp
      have hstray := h.linked.not_stray hp
      obtain ⟨e, he⟩ := exists_lookup hlive
      dsimp only
      rw [he, Option.bind_eq_bind, Option.bind_some]
      by_cases hdb : dbflag ≠ e.mapFlags &&& mapfDb
      · rw [if_pos hdb]
        exact ⟨s, none, rfl, found_none h⟩
      · rw [if_neg hdb]
        have hcount := h.refcnt he
        have hused : (s.write i { e with mapLastused := now }).Counted r ∧
            SameTable s (s.write i { e with mapLastused := now }) :=
          h.write he rfl rfl hcount (fun _ _ => rfl) hstray
        obtain ⟨hwrite, hsame⟩ := hused
        obtain ⟨s', hadd, hcounted, hsame'⟩ := addref_spec hwrite (hsame.mem_iff.mpr hlive) hstray
        refine ⟨s', some i, ?_, hcounted, hsame.trans hsame', ?_⟩
        · rw [hadd]
          rfl
        · rintro j ⟨⟩
          exact ⟨p, hp⟩

theorem dblookup_spec (h : s.Counted r) (addr : BitVec w) (now : ℕ) :
    ∃ s' mapping, s.dblookup addr now = some (s', mapping) ∧ Found s s' mapping r :=
  maplookup_spec h addr mapfDb now

theorem cachelookup_spec (h : s.Counted r) (addr : BitVec w) (now : ℕ) :
    ∃ s' mapping, s.cachelookup addr now = some (s', mapping) ∧ Found s s' mapping r := by
  obtain ⟨s', mapping, hlookup, hfound⟩ := maplookup_spec h addr 0 now
  unfold cachelookup
  rw [hlookup, Option.bind_eq_bind, Option.bind_some]
  cases mapping with
  | none => exact ⟨s', none, rfl, hfound⟩
  | some i =>
      have hcounted : s'.Counted (i ::ₘ r) := hfound.counted
      obtain ⟨e, he⟩ := exists_lookup (hcounted.live i (Multiset.mem_cons_self i r))
      dsimp only
      rw [he, Option.bind_eq_bind, Option.bind_some]
      by_cases hdb : e.mapFlags &&& mapfDb ≠ 0
      · obtain ⟨s'', hrem, hcounted'', hsame⟩ := remref_spec hcounted
        rw [if_pos hdb, hrem]
        refine ⟨s'', none, rfl, ?_, hfound.same.trans hsame, fun _ hi => nomatch hi⟩
        exact (zero_add r).symm ▸ hcounted''
      · rw [if_neg hdb]
        exact ⟨s', some i, rfl, hfound⟩

/-! ## Deletions -/

/-- The mapping of a prefix taken out of the tree, with a reference for who did it. -/
def unlinked (s : Maptables ι w) (p : EidPrefix w) (i : ι) (e : Mapentry w) : Maptables ι w :=
  { s with
    table := s.table.erase p
    entries := s.entries.insert i
      { e with mapRefcnt := e.mapRefcnt + 1, mapFlags := e.mapFlags &&& ~~~mapfUp }
    maptrash := s.maptrash + 1 }

theorem Linked.eq_of_lookup {p q : EidPrefix w} (h : s.Linked)
    (hp : s.table.lookup p = some i) (hq : s.table.lookup q = some i) : p = q := by
  obtain ⟨f, hf, -⟩ := h.table_up hp
  obtain ⟨g, hg, -⟩ := h.table_up hq
  rw [hf, Option.some_inj, Prod.mk.injEq] at hg
  exact hg.1

theorem maprequestDelete_eq {p : EidPrefix w} (hp : s.table.lookup p = some i)
    (honly : ∀ q, s.table.lookup q = some i → q = p) (he : s.entries.lookup i = some e)
    (hcount : 0 ≤ e.mapRefcnt) (ret : Bool) :
    s.maprequestDelete p ret =
      if ret then some (s.unlinked p i e, some i)
      else ((s.unlinked p i e).mapFree i).map fun s' => (s', some i) := by
  have hidle : ¬Active { s with table := s.table.erase p } i := by
    rw [active_iff]
    rintro ⟨q, hq⟩
    obtain ⟨hne, hq⟩ := ThreadTable.lookup_erase_iff.mp hq
    exact hne (honly q hq)
  have hadd : addref { s with table := s.table.erase p } i = some _ := addref_eq he hcount
  unfold maprequestDelete
  rw [hp]
  dsimp only
  rw [if_neg hidle, hadd]
  simp only [Option.bind_eq_bind, Option.bind_some, write, AList.lookup_insert,
    AList.insert_insert]
  cases ret with
  | true => rfl
  | false =>
      rw [if_neg Bool.false_ne_true, if_neg Bool.false_ne_true, Option.map_eq_bind]
      rfl

theorem and_not_mapfUp (f : UInt32) : f &&& ~~~mapfUp &&& mapfUp = 0 := by
  rw [UInt32.and_assoc]
  have hzero : ~~~mapfUp &&& mapfUp = 0 := by decide
  rw [hzero, UInt32.and_zero]

theorem counted_unlinked {p : EidPrefix w} (h : s.Counted r) (hp : s.table.lookup p = some i)
    (hcount : e.mapRefcnt = r.count i) : (s.unlinked p i e).Counted (i ::ₘ r) := by
  have hlive := h.linked.mem_entries hp
  have hstray := h.linked.not_stray hp
  have hother : ∀ {j}, j ≠ i →
      (s.unlinked p i e).entries.lookup j = s.entries.lookup j := fun hj =>
    AList.lookup_insert_ne hj
  have hself : (s.unlinked p i e).entries.lookup i =
      some { e with mapRefcnt := e.mapRefcnt + 1, mapFlags := e.mapFlags &&& ~~~mapfUp } :=
    AList.lookup_insert _
  have hshape : ∀ {j}, j ≠ i → (s.unlinked p i e).shape j = s.shape j := fun hj => by
    unfold shape
    rw [hother hj]
  refine ⟨⟨fun {q j} hq => ?_, fun {j q f} hj hup => ?_, fun j hj => ?_, fun j hj q hq => ?_,
    ?_⟩, fun {j d} hj => ?_, fun j hj => ?_, fun j hj hjr => ?_⟩
  · obtain ⟨hne, hkept⟩ := ThreadTable.lookup_erase_iff.mp hq
    have hji : j ≠ i := by
      rintro rfl
      exact hne (h.linked.eq_of_lookup hkept hp)
    rw [hshape hji]
    exact h.linked.table_up hkept
  · have hji : j ≠ i := by
      rintro rfl
      rw [shape_eq hself, Option.some_inj, Prod.mk.injEq] at hj
      exact hup (hj.2 ▸ and_not_mapfUp e.mapFlags)
    rw [hshape hji] at hj
    apply (h.linked.up_linked hj hup).imp_left
    intro hq
    refine ThreadTable.lookup_erase_iff.mpr ⟨?_, hq⟩
    rintro rfl
    exact hji (Option.some_inj.mp (hq.symm.trans hp))
  · have hji : j ≠ i := fun hji => hstray (hji ▸ hj)
    rw [hshape hji]
    exact h.linked.stray_up j hj
  · exact h.linked.stray_unlinked j hj q (ThreadTable.lookup_erase_iff.mp hq).2
  · obtain ⟨d, hd⟩ := exists_lookup hlive
    obtain ⟨f, hf, hup⟩ := h.linked.table_up hp
    have htrash := h.linked.trash
    have hmove := ThreadTable.count_move Mapentry.down
      { e with mapRefcnt := e.mapRefcnt + 1, mapFlags := e.mapFlags &&& ~~~mapfUp } hd
    have hold : d.down = false :=
      Bool.eq_false_iff.mpr fun hdown => (down_iff hd).mp hdown ⟨p, f, hf, hup⟩
    have hnew : Mapentry.down { e with
        mapRefcnt := e.mapRefcnt + 1, mapFlags := e.mapFlags &&& ~~~mapfUp } = true :=
      decide_eq_true (and_not_mapfUp e.mapFlags)
    rw [hold, hnew, Bool.toNat_false, Bool.toNat_true] at hmove
    change s.maptrash + 1 = (ThreadTable.count Mapentry.down (s.entries.insert i _) : ℕ)
    omega
  · by_cases hji : j = i
    · subst hji
      rw [hself, Option.some_inj] at hj
      rw [← hj, Multiset.count_cons_self, Nat.cast_succ, ← hcount]
    · rw [hother hji] at hj
      rw [Multiset.count_cons_of_ne hji]
      exact h.refcnt hj
  · refine (AList.mem_insert _).mpr ?_
    exact (Multiset.mem_cons.mp hj).imp_right (h.live j)
  · rcases Multiset.mem_cons.mp hjr with rfl | hjr
    · exact hstray hj
    · exact h.stray_unheld j hj hjr

/-- A deletion for the map socket. -/
theorem maprequestDelete_spec {p : EidPrefix w} (h : s.Counted r)
    (hp : s.table.lookup p = some i) :
    ∃ s', s.maprequestDelete p true = some (s', some i) ∧ s'.Counted (i ::ₘ r) ∧
      s'.table = s.table.erase p ∧ ∀ j, j ∈ s'.entries ↔ j ∈ s.entries := by
  have hlive := h.linked.mem_entries hp
  obtain ⟨e, he⟩ := exists_lookup hlive
  have hcount := h.refcnt he
  have hpos : 0 ≤ e.mapRefcnt := by
    rw [hcount]
    exact Int.natCast_nonneg _
  have honly : ∀ q, s.table.lookup q = some i → q = p := fun q hq => h.linked.eq_of_lookup hq hp
  refine ⟨_, maprequestDelete_eq hp honly he hpos true, counted_unlinked h hp hcount, rfl,
    fun j => (AList.mem_insert _).trans ?_⟩
  constructor
  · rintro (rfl | hj)
    · exact hlive
    · exact hj
  · exact Or.inr

/-- The timer takes out the mapping of the prefix, frees it if no one uses it, or leaves
everything as it is. -/
theorem lispCacheExpired_spec (h : s.Counted r) (p : EidPrefix w) (now xpgto : ℕ) :
    ∃ s', s.lispCacheExpired p now xpgto = some s' ∧ s'.Counted r ∧
      (∀ q j, s'.table.lookup q = some j → s.table.lookup q = some j) ∧
      ∀ j ∈ s.entries, j ∉ s'.entries → ∃ q, s.table.lookup q = some j := by
  have hkeep : s.Counted r ∧ (∀ q j, s.table.lookup q = some j → s.table.lookup q = some j) ∧
      ∀ j ∈ s.entries, j ∉ s.entries → ∃ q, s.table.lookup q = some j :=
    ⟨h, fun _ _ => id, fun _ hj hnot => absurd hj hnot⟩
  unfold lispCacheExpired
  cases hp : s.table.lookup p with
  | none => exact ⟨s, rfl, hkeep⟩
  | some i =>
      have hlive := h.linked.mem_entries hp
      obtain ⟨e, he⟩ := exists_lookup hlive
      dsimp only
      rw [he, Option.bind_eq_bind, Option.bind_some]
      by_cases hold : e.mapFlags &&& mapfDb = 0 ∧ e.mapFlags &&& mapfStatic = 0 ∧
          (now : ℤ) - e.mapLastused > xpgto
      · rw [if_pos hold]
        have heid : e.eid = p := by
          obtain ⟨f, hf, -⟩ := h.linked.table_up hp
          rw [shape_eq he, Option.some_inj, Prod.mk.injEq] at hf
          exact hf.1
        subst heid
        have hcount := h.refcnt he
        have hpos : 0 ≤ e.mapRefcnt := by
          rw [hcount]
          exact Int.natCast_nonneg _
        set e' : Mapentry w := { e with mapFlags := e.mapFlags ||| mapfExpired } with he'
        have hwritten : (s.write i e').entries.lookup i = some e' := AList.lookup_insert _
        have hexpired : (s.write i e').table.lookup e.eid = some i := hp
        have honly : ∀ q, (s.write i e').table.lookup q = some i → q = e.eid := fun q hq =>
          h.linked.eq_of_lookup hq hp
        have hdelete := maprequestDelete_eq hexpired honly hwritten hpos false
        have hunlinked : (s.write i e').unlinked e.eid i e' = s.unlinked e.eid i e' := by
          unfold unlinked write
          dsimp only
          rw [AList.insert_insert]
        have hcounted : (s.unlinked e.eid i e').Counted (i ::ₘ r) := counted_unlinked h hp hcount
        obtain ⟨s', hfree, hcounted', hreleased⟩ := mapFree_spec hcounted
        rw [hdelete, if_neg Bool.false_ne_true, hunlinked, hfree]
        refine ⟨s', rfl, hcounted', fun q j hq => ?_, fun j hj hnot => ⟨e.eid, ?_⟩⟩
        · rw [hreleased.table] at hq
          exact (ThreadTable.lookup_erase_iff.mp hq).2
        · have hmem : j ∈ (s.unlinked e.eid i e').entries := (AList.mem_insert _).mpr (Or.inr hj)
          by_contra hne
          apply hnot
          refine (hreleased.mem_iff j).mpr ⟨hmem, ?_⟩
          rintro ⟨rfl, -⟩
          exact hne hp
      · rw [if_neg hold]
        exact ⟨s, rfl, hkeep⟩

/-! ## Additions -/

theorem mapfUp_or_and (f : UInt32) : (mapfUp ||| f) &&& mapfUp ≠ 0 := by
  have habsorb : (mapfUp ||| f) &&& mapfUp = mapfUp := by
    apply UInt32.toBitVec_inj.mp
    ext k hk
    simp only [UInt32.toBitVec_and, UInt32.toBitVec_or, BitVec.getElem_and, BitVec.getElem_or]
    cases mapfUp.toBitVec[k] <;> simp
  rw [habsorb]
  decide

theorem count_down_insert (hnew : i ∉ s.entries) (hup : e.mapFlags &&& mapfUp ≠ 0) :
    ThreadTable.count Mapentry.down (s.entries.insert i e) =
      ThreadTable.count Mapentry.down s.entries := by
  have hdown : e.down = false := decide_eq_false hup
  rw [ThreadTable.count_insert_new _ _ hnew, hdown]
  rfl

section New

variable {e : Mapentry w} (h : s.Counted r) (hnew : i ∉ s.entries)
include h hnew

theorem Counted.notMem_of_new : i ∉ r :=
  fun hi => hnew (h.live i hi)

/-- A new mapping that nothing points to. -/
theorem counted_stray (hcount : e.mapRefcnt = 0) (hup : e.mapFlags &&& mapfUp ≠ 0) :
    Counted { s.write i e with strays := i :: s.strays } r := by
  have hr := h.notMem_of_new hnew
  have hne : ∀ {j}, j ∈ s.entries → j ≠ i := fun hj hji => hnew (hji ▸ hj)
  have hother : ∀ {j}, j ≠ i → (s.write i e).shape j = s.shape j := fun hj => by
    rw [shape, lookup_write, if_neg hj, shape]
  have hself : (s.write i e).shape i = some (e.eid, e.mapFlags) :=
    shape_eq (by rw [lookup_write, if_pos rfl])
  refine ⟨⟨fun {p j} hp => ?_, fun {j p f} hj hf => ?_, fun j hj => ?_, fun j hj p hp => ?_, ?_⟩,
    fun {j d} hj => ?_, fun j hj => ?_, fun j hj => ?_⟩
  · have hj := hne (h.linked.mem_entries hp)
    obtain ⟨f, hf, hfup⟩ := h.linked.table_up hp
    exact ⟨f, (hother hj).trans hf, hfup⟩
  · by_cases hji : j = i
    · exact Or.inr (hji ▸ List.mem_cons_self)
    · have hold := h.linked.up_linked ((hother hji).symm.trans hj) hf
      exact hold.imp_right (List.mem_cons_of_mem i)
  · rcases List.mem_cons.mp hj with rfl | hj
    · exact ⟨_, _, hself, hup⟩
    · obtain ⟨p, f, hf, hfup⟩ := h.linked.stray_up j hj
      obtain ⟨d, hd, -⟩ := Option.map_eq_some_iff.mp hf
      exact ⟨p, f, (hother (hne (mem_of_lookup hd))).trans hf, hfup⟩
  · rcases List.mem_cons.mp hj with rfl | hj
    · exact hnew (h.linked.mem_entries hp)
    · exact h.linked.stray_unlinked j hj p hp
  · exact h.linked.trash.trans (congrArg Nat.cast (count_down_insert hnew hup).symm)
  · change (s.write i e).entries.lookup j = some d at hj
    rw [lookup_write] at hj
    by_cases hji : j = i
    · rw [if_pos hji, Option.some_inj] at hj
      rw [← hj, hcount, hji, Multiset.count_eq_zero.mpr hr, Nat.cast_zero]
    · rw [if_neg hji] at hj
      exact h.refcnt hj
  · exact (AList.mem_insert _).mpr (Or.inr (h.live j hj))
  · rcases List.mem_cons.mp hj with rfl | hj
    · exact hr
    · exact h.stray_unheld j hj

/-- A new mapping in the tree, with a reference for who added it. -/
theorem counted_linked {p : EidPrefix w} (hp : p ∉ s.table) (heid : e.eid = p)
    (hcount : e.mapRefcnt = 1) (hup : e.mapFlags &&& mapfUp ≠ 0) :
    Counted { s.write i e with table := s.table.insert p i } (i ::ₘ r) := by
  have hr := h.notMem_of_new hnew
  have hne : ∀ {j}, j ∈ s.entries → j ≠ i := fun hj hji => hnew (hji ▸ hj)
  have hother : ∀ {j}, j ≠ i → (s.write i e).shape j = s.shape j := fun hj => by
    rw [shape, lookup_write, if_neg hj, shape]
  have hself : (s.write i e).shape i = some (p, e.mapFlags) := by
    rw [← heid]
    exact shape_eq (by rw [lookup_write, if_pos rfl])
  have hstray : ∀ {j}, j ∈ s.strays → j ≠ i := fun {j} hj => by
    obtain ⟨q, f, hf, -⟩ := h.linked.stray_up j hj
    obtain ⟨d, hd, -⟩ := Option.map_eq_some_iff.mp hf
    exact hne (mem_of_lookup hd)
  refine ⟨⟨fun {q j} hq => ?_, fun {j q f} hj hf => ?_, fun j hj => ?_, fun j hj q hq => ?_, ?_⟩,
    fun {j d} hj => ?_, fun j hj => ?_, fun j hj hjr => ?_⟩
  · rcases ThreadTable.lookup_insert_iff.mp hq with ⟨rfl, rfl⟩ | ⟨-, hq⟩
    · exact ⟨_, hself, hup⟩
    · obtain ⟨f, hf, hfup⟩ := h.linked.table_up hq
      exact ⟨f, (hother (hne (h.linked.mem_entries hq))).trans hf, hfup⟩
  · by_cases hji : j = i
    · subst hji
      have hpair := hself.symm.trans hj
      rw [Option.some_inj, Prod.mk.injEq] at hpair
      refine Or.inl (ThreadTable.lookup_insert_iff.mpr (Or.inl ⟨hpair.1.symm, rfl⟩))
    · apply (h.linked.up_linked ((hother hji).symm.trans hj) hf).imp_left
      intro hq
      refine ThreadTable.lookup_insert_iff.mpr (Or.inr ⟨?_, hq⟩)
      rintro rfl
      exact hp (ThreadTable.mem_of_lookup hq)
  · obtain ⟨q, f, hf, hfup⟩ := h.linked.stray_up j hj
    exact ⟨q, f, (hother (hstray hj)).trans hf, hfup⟩
  · rcases ThreadTable.lookup_insert_iff.mp hq with ⟨-, hij⟩ | ⟨-, hq⟩
    · exact hstray hj hij.symm
    · exact h.linked.stray_unlinked j hj q hq
  · exact h.linked.trash.trans (congrArg Nat.cast (count_down_insert hnew hup).symm)
  · change (s.write i e).entries.lookup j = some d at hj
    rw [lookup_write] at hj
    by_cases hji : j = i
    · rw [if_pos hji, Option.some_inj] at hj
      rw [← hj, hcount, hji, Multiset.count_cons_self, Multiset.count_eq_zero.mpr hr]
      rfl
    · rw [if_neg hji] at hj
      rw [Multiset.count_cons_of_ne hji]
      exact h.refcnt hj
  · refine (AList.mem_insert _).mpr ?_
    exact (Multiset.mem_cons.mp hj).imp_right (h.live j)
  · rcases Multiset.mem_cons.mp hjr with rfl | hjr
    · exact hstray hj rfl
    · exact h.stray_unheld j hj hjr

end New

/-- What an addition leaves. -/
def AddResult (s : Maptables ι w) (i : ι) (r : Multiset ι) :
    Maptables ι w × Except AddErrno ι → Prop
  | (s', .error _) => s'.Counted r ∧ s'.table = s.table ∧ ∀ j ∈ s.entries, j ∈ s'.entries
  | (s', .ok j) => j = i ∧ s'.Counted (i ::ₘ r) ∧ (∃ p, s'.table = s.table.insert p i) ∧
      ∀ j ∈ s.entries, j ∈ s'.entries

theorem maprequestAdd_spec (h : s.Counted r) (hnew : i ∉ s.entries) (req : AddRequest w)
    (now : ℕ) : AddResult s i r (s.maprequestAdd i req now) := by
  have hkeep : AddResult s i r (s, .error .einval) := ⟨h, rfl, fun _ => id⟩
  have hinsert : ∀ (e : Mapentry w), ∀ j ∈ s.entries, j ∈ s.entries.insert i e := fun e j hj =>
    (AList.mem_insert _).mpr (Or.inr hj)
  unfold maprequestAdd
  dsimp only
  split
  · exact hkeep
  split
  · exact hkeep
  split
  · exact ⟨counted_stray h hnew rfl (mapfUp_or_and req.flags), rfl, hinsert _⟩
  case isFalse hp =>
    split
    · exact hkeep
    split
    · exact hkeep
    · exact ⟨rfl, counted_linked h hnew hp rfl rfl (mapfUp_or_and req.flags), ⟨_, rfl⟩,
        hinsert _⟩

end Maptables

end HyLisp.DataPlane.MapReferences
