import HyLisp.DataPlane.MapReferenceCounts

/-!
# Runs of the users of the mappings

The counts are right for as long as each `MAP_REMREF` stores what it has loaded, less one,
over that value; nothing in the code makes sure of this.  Then every step that can be taken
succeeds.  A mapping out of its table is freed only by the map socket, so it stays for good
when the last of its users is a packet, and so does a mapping with a lost reference.
-/

namespace HyLisp.DataPlane.MapReferences

open Maptables Transition

variable {T ι : Type} {w : ℕ} [DecidableEq T]

namespace Kernel

variable {k k' : Kernel T ι w} {t u : T} {i j : ι} {p : EidPrefix w} {pos old : Position ι w}

/-! ## References of the threads -/

theorem refs_enter_new (h : t ∉ k.threads) : (k.enter t pos).refs = pos.held + k.refs := by
  unfold refs enter
  rw [ThreadTable.holdings_insert_new _ _ h, add_assoc]

theorem refs_enter (h : k.threads.lookup t = some old) :
    old.held + (k.enter t pos).refs = pos.held + k.refs := by
  unfold refs enter
  rw [← add_assoc, ← add_assoc, ThreadTable.holdings_move _ _ h]

theorem refs_leave (h : k.threads.lookup t = some old) :
    k.refs = old.held + (k.leave t).refs := by
  unfold refs leave
  rw [ThreadTable.holdings_erase _ h, add_assoc]

omit [DecidableEq T] in
theorem refs_cons (k : Kernel T ι w) (i : ι) :
    ({ k with lost := i :: k.lost } : Kernel T ι w).refs = i ::ₘ k.refs := by
  unfold refs
  rw [← Multiset.cons_coe, Multiset.add_cons]

theorem lookup_enter_reporting (hpos : ∀ i, pos ≠ .reporting i)
    (h : (k.enter t pos).threads.lookup u = some (.reporting i)) :
    k.threads.lookup u = some (.reporting i) := by
  rcases ThreadTable.lookup_insert_iff.mp h with ⟨-, hw⟩ | ⟨-, hu⟩
  · exact absurd hw (hpos i)
  · exact hu

/-! ## One step -/

variable [DecidableEq ι] {tables : Maptables ι w}

/-- The counts are right. -/
def Inv (k : Kernel T ι w) : Prop :=
  k.tables.Counted k.refs

/-- What a step leaves alone: a mapping that is out of the table does not come back into it,
nor to a new call of the map socket, and is freed only by such a call. -/
structure Effect (k k' : Kernel T ι w) : Prop where
  lost : k.lost ⊆ k'.lost
  table : ∀ {p i}, k'.tables.table.lookup p = some i →
    k.tables.table.lookup p = some i ∨ i ∉ k.tables.entries
  reporting : ∀ {t i}, k'.threads.lookup t = some (.reporting i) →
    k.threads.lookup t = some (.reporting i) ∨ ∃ p, k.tables.table.lookup p = some i
  freed : ∀ i ∈ k.tables.entries, i ∉ k'.tables.entries →
    (∃ p, k.tables.table.lookup p = some i) ∨ ∃ t, k.threads.lookup t = some (.reporting i)

/-- The step succeeds, keeps the counts and has such an effect. -/
def Goes (k : Kernel T ι w) (next : Option (Kernel T ι w)) : Prop :=
  ∃ k', next = some k' ∧ k'.Inv ∧ Effect k k'

theorem Effect.of_same (h : SameTable k.tables k'.tables)
    (hlost : k.lost ⊆ k'.lost)
    (hreporting : ∀ t i, k'.threads.lookup t = some (.reporting i) →
      k.threads.lookup t = some (.reporting i)) : Effect k k' where
  lost := hlost
  table := fun hp => Or.inl (h.table ▸ hp)
  reporting := fun ht => Or.inl (hreporting _ _ ht)
  freed := fun _ hi hnot => absurd (h.mem_iff.mpr hi) hnot

theorem Goes.enter_new (h : SameTable k.tables tables) (hnew : t ∉ k.threads)
    (hcounted : tables.Counted (pos.held + k.refs)) (hpos : ∀ i, pos ≠ .reporting i) :
    k.Goes (some ({ k with tables := tables }.enter t pos)) := by
  refine ⟨_, rfl, ?_, .of_same h (List.Subset.refl _) fun u i hu => ?_⟩
  · have hrefs : ({ k with tables := tables }.enter t pos).refs = pos.held + k.refs :=
      refs_enter_new hnew
    unfold Inv
    rw [hrefs]
    exact hcounted
  · exact lookup_enter_reporting hpos hu

theorem Goes.move (h : SameTable k.tables tables) (ht : k.threads.lookup t = some old)
    {r : Multiset ι} (hcounted : tables.Counted r) (hr : old.held + r = pos.held + k.refs)
    (hpos : ∀ i, pos ≠ .reporting i) :
    k.Goes (some ({ k with tables := tables }.enter t pos)) := by
  refine ⟨_, rfl, ?_, .of_same h (List.Subset.refl _) fun u i hu => ?_⟩
  · have hrefs : old.held + ({ k with tables := tables }.enter t pos).refs = pos.held + k.refs :=
      refs_enter ht
    have heq := add_left_cancel (hrefs.trans hr.symm)
    unfold Inv
    rw [heq]
    exact hcounted
  · exact lookup_enter_reporting hpos hu

/-- Only the tables change, and in them only counts and times of use. -/
theorem Goes.same (h : SameTable k.tables tables) (hcounted : tables.Counted k.refs) :
    k.Goes (some { k with tables := tables }) :=
  ⟨_, rfl, hcounted, .of_same h (List.Subset.refl _) fun _ _ => id⟩

theorem goes_mapencap (h : k.Inv) (ht : t ∉ k.threads) (src dst : BitVec w) (now : ℕ) :
    k.Goes (k.mapencap t src dst now) := by
  unfold mapencap
  by_cases hsrc : src = 0
  · rw [if_pos hsrc]
    exact Goes.same (.refl _) h
  · obtain ⟨tables, mapping, hlookup, hfound⟩ := dblookup_spec h src now
    rw [if_neg hsrc, hlookup, Option.bind_eq_bind, Option.bind_some]
    cases mapping with
    | none => exact Goes.same hfound.same (zero_add k.refs ▸ hfound.counted)
    | some i =>
        have hcounted : tables.Counted (i ::ₘ k.refs) := hfound.counted
        obtain ⟨e, he⟩ := exists_lookup (hcounted.live i (Multiset.mem_cons_self _ _))
        dsimp only
        rw [he, Option.bind_eq_bind, Option.bind_some]
        split
        · exact Goes.enter_new hfound.same ht hcounted nofun
        · refine ⟨_, rfl, ?_, .of_same hfound.same (List.subset_cons_self _ _) fun _ _ => id⟩
          change tables.Counted ({ k with lost := i :: k.lost } : Kernel T ι w).refs
          rw [refs_cons]
          exact hcounted

theorem goes_noBufs (h : k.Inv) {dst : BitVec w}
    (ht : k.threads.lookup t = some (.mapencap dst i)) :
    k.Goes (some (k.enter t (.leaving [i]))) :=
  Goes.move (.refl _) ht h rfl nofun

theorem goes_noRloc (h : k.Inv) (ht : k.threads.lookup t = some (.checkMappings i)) :
    k.Goes (some (k.enter t (.leaving [i]))) :=
  Goes.move (.refl _) ht h rfl nofun

/-- A thread with one reference that has looked for a second mapping. -/
theorem Goes.second {mapping : Option ι} (hfound : Found k.tables tables mapping k.refs)
    (ht : k.threads.lookup t = some old) (hold : old.held = {i}) :
    k.Goes (some ({ k with tables := tables }.enter t (.leaving (i :: mapping.toList)))) := by
  refine Goes.move hfound.same ht hfound.counted ?_ nofun
  rw [hold, ← add_assoc]
  rfl

theorem goes_mapencapRemote (h : k.Inv) {dst : BitVec w}
    (ht : k.threads.lookup t = some (.mapencap dst i)) (now : ℕ) :
    k.Goes (k.mapencapRemote t dst i now) := by
  obtain ⟨tables, mapping, hlookup, hfound⟩ := cachelookup_spec h dst now
  unfold mapencapRemote
  rw [hlookup, Option.bind_eq_bind, Option.bind_some]
  cases mapping with
  | none => exact Goes.second hfound ht rfl
  | some j =>
      have hcounted : tables.Counted (j ::ₘ k.refs) := hfound.counted
      obtain ⟨e, he⟩ := exists_lookup (hcounted.live j (Multiset.mem_cons_self _ _))
      dsimp only
      rw [he, Option.bind_eq_bind, Option.bind_some]
      split
      · have hlost : k.lost ⊆ i :: j :: k.lost := fun a ha =>
          List.mem_cons_of_mem i (List.mem_cons_of_mem j ha)
        refine ⟨_, rfl, ?_, .of_same hfound.same hlost fun u a hu => ?_⟩
        · have hleave : k.refs = {i} + (k.leave t).refs := refs_leave ht
          have hrefs : ({ k.leave t with lost := i :: j :: k.lost } : Kernel T ι w).refs =
              i ::ₘ j ::ₘ (k.leave t).refs :=
            (refs_cons { k.leave t with lost := j :: k.lost } i).trans
              (congrArg _ (refs_cons (k.leave t) j))
          change tables.Counted
            ({ k.leave t with lost := i :: j :: k.lost } : Kernel T ι w).refs
          rw [hrefs, Multiset.cons_swap, ← Multiset.singleton_add i, ← hleave]
          exact hcounted
        · exact (ThreadTable.lookup_erase_iff.mp hu).2
      · exact Goes.second hfound ht rfl

theorem goes_needencap (h : k.Inv) (ht : t ∉ k.threads) (src : BitVec w) (now : ℕ) :
    k.Goes (k.needencap t src now) := by
  unfold needencap
  by_cases hsrc : src = 0
  · rw [if_pos hsrc]
    exact Goes.same (.refl _) h
  · obtain ⟨tables, mapping, hlookup, hfound⟩ := dblookup_spec h src now
    rw [if_neg hsrc, hlookup, Option.bind_eq_bind, Option.bind_some]
    cases mapping with
    | none => exact Goes.same hfound.same (zero_add k.refs ▸ hfound.counted)
    | some i => exact Goes.enter_new hfound.same ht hfound.counted nofun

theorem goes_checkMappings (h : k.Inv) (ht : t ∉ k.threads) (dst : BitVec w) (now : ℕ) :
    k.Goes (k.checkMappings t dst now) := by
  obtain ⟨tables, mapping, hlookup, hfound⟩ := dblookup_spec h dst now
  unfold checkMappings
  rw [hlookup, Option.bind_eq_bind, Option.bind_some]
  cases mapping with
  | none => exact Goes.same hfound.same (zero_add k.refs ▸ hfound.counted)
  | some i => exact Goes.enter_new hfound.same ht hfound.counted nofun

theorem goes_checkRemote (h : k.Inv) (ht : k.threads.lookup t = some (.checkMappings i))
    (src : BitVec w) (now : ℕ) : k.Goes (k.checkRemote t i src now) := by
  obtain ⟨tables, mapping, hlookup, hfound⟩ := cachelookup_spec h src now
  unfold checkRemote
  rw [hlookup, Option.bind_eq_bind, Option.bind_some]
  cases mapping with
  | none => exact Goes.second hfound ht rfl
  | some j => exact Goes.second hfound ht rfl

omit [DecidableEq ι] in
theorem mem_refs (ht : k.threads.lookup t = some pos) (hi : i ∈ pos.held) : i ∈ k.refs :=
  Multiset.mem_add.mpr (Or.inl (ThreadTable.mem_holdings.mpr ⟨t, pos, ht, hi⟩))

omit [DecidableEq T] in
/-- A mapping with a user has a count. -/
theorem Inv.exists_entry (h : k.Inv) (hi : i ∈ k.refs) :
    ∃ e, k.tables.entries.lookup i = some e ∧ 0 < e.mapRefcnt := by
  obtain ⟨e, he⟩ := exists_lookup (h.live i hi)
  refine ⟨e, he, ?_⟩
  rw [h.refcnt he]
  exact Int.natCast_pos.mpr (Multiset.count_pos.mpr hi)

theorem loadRefcnt_eq {e : Mapentry w} {held : List ι}
    (he : k.tables.entries.lookup i = some e) (hpos : 0 < e.mapRefcnt) :
    k.loadRefcnt t held i = some (k.enter t (.storing i e.mapRefcnt (held.erase i))) := by
  rw [loadRefcnt, he, Option.bind_eq_bind, Option.bind_some, if_pos hpos]

theorem goes_loadRefcnt (h : k.Inv) {held : List ι}
    (ht : k.threads.lookup t = some (.leaving held)) (hi : i ∈ held) :
    k.Goes (k.loadRefcnt t held i) := by
  have hheld : (held : Multiset ι) = i ::ₘ (held.erase i : List ι) :=
    Multiset.coe_eq_coe.mpr (List.perm_cons_erase hi)
  obtain ⟨e, he, hpos⟩ := h.exists_entry (mem_refs ht (Multiset.mem_coe.mpr hi))
  rw [loadRefcnt_eq he hpos]
  refine Goes.move (.refl _) ht h ?_ nofun
  exact congrArg (· + _) hheld

theorem storeRefcnt_eq {e : Mapentry w} {n : ℤ} {rest : List ι}
    (he : k.tables.entries.lookup i = some e) :
    k.storeRefcnt t i n rest =
      some (if rest = [] then
          { k with tables := k.tables.write i { e with mapRefcnt := n - 1 } }.leave t
        else
          { k with tables := k.tables.write i { e with mapRefcnt := n - 1 } }.enter t
            (.leaving rest)) := by
  unfold storeRefcnt
  rw [he, Option.bind_eq_bind, Option.bind_some]
  cases rest with
  | nil => rfl
  | cons j rest => rfl

/-- A store after which the tables are those of a `MAP_REMREF` at once. -/
theorem goes_storeRefcnt (h : k.Inv) {n : ℤ} {rest : List ι}
    (ht : k.threads.lookup t = some (.storing i n rest))
    (hundisturbed : ∀ {e}, k.tables.entries.lookup i = some e → e.mapRefcnt = n) :
    k.Goes (k.storeRefcnt t i n rest) := by
  have hrefs : k.refs = i ::ₘ (rest : Multiset ι) + (k.leave t).refs := refs_leave ht
  have hcounted : k.tables.Counted k.refs := h
  rw [hrefs, Multiset.cons_add] at hcounted
  obtain ⟨e, he⟩ := exists_lookup (hcounted.live i (Multiset.mem_cons_self _ _))
  obtain ⟨tables, htables, hcounted', hsame⟩ := remref_spec hcounted
  obtain rfl := remref_eq_write he (hundisturbed he) htables
  rw [storeRefcnt_eq he]
  split
  case isTrue hnil =>
    refine ⟨_, rfl, ?_, .of_same hsame (List.Subset.refl _) fun u j hu => ?_⟩
    · rw [hnil, Multiset.coe_nil, zero_add] at hcounted'
      exact hcounted'
    · exact (ThreadTable.lookup_erase_iff.mp hu).2
  case isFalse =>
    refine Goes.move hsame ht hcounted' ?_ nofun
    change i ::ₘ (rest : Multiset ι) + _ = _
    rw [hrefs, ← add_assoc, ← add_assoc]
    exact congrArg (· + _) (add_comm _ _)

theorem goes_add (h : k.Inv) (ht : t ∉ k.threads) (hi : i ∉ k.tables.entries)
    (req : AddRequest w) (now : ℕ) : k.Goes (some (k.add t i req now)) := by
  have hresult := maprequestAdd_spec h hi req now
  unfold add
  cases hadd : k.tables.maprequestAdd i req now with
  | mk tables ret =>
      rw [hadd] at hresult
      cases ret with
      | error c =>
          obtain ⟨hcounted, htable, hkeep⟩ := hresult
          refine ⟨_, rfl, hcounted, List.Subset.refl _, fun hp => Or.inl ?_,
            fun hu => Or.inl hu, fun j hj hnot => absurd (hkeep j hj) hnot⟩
          exact htable ▸ hp
      | ok j =>
          obtain ⟨rfl, hcounted, ⟨p, htable⟩, hkeep⟩ := hresult
          have hpos : ∀ a, (.leaving [j] : Position ι w) ≠ .reporting a := nofun
          refine ⟨_, rfl, ?_, List.Subset.refl _, fun {q a} hq => ?_,
            fun hu => Or.inl (lookup_enter_reporting hpos hu),
            fun a ha hnot => absurd (hkeep a ha) hnot⟩
          · have hrefs : ({ k with tables := tables }.enter t (.leaving [j])).refs =
                {j} + k.refs := refs_enter_new ht
            unfold Inv
            rw [hrefs]
            exact hcounted
          · change tables.table.lookup q = some a at hq
            rw [htable] at hq
            rcases ThreadTable.lookup_insert_iff.mp hq with ⟨-, rfl⟩ | ⟨-, hq⟩
            · exact Or.inr hi
            · exact Or.inl hq

/-- A call of the map socket that has a new reference to a mapping of the table. -/
theorem Goes.report (ht : t ∉ k.threads) (hp : k.tables.table.lookup p = some i)
    (hcounted : tables.Counted (i ::ₘ k.refs))
    (htable : ∀ {q a}, tables.table.lookup q = some a → k.tables.table.lookup q = some a)
    (hmem : ∀ a, a ∈ tables.entries ↔ a ∈ k.tables.entries) :
    k.Goes (some ({ k with tables := tables }.enter t (.reporting i))) := by
  refine ⟨_, rfl, ?_, List.Subset.refl _, fun hq => Or.inl (htable hq), fun {u a} hu => ?_,
    fun a ha hnot => absurd ((hmem a).mpr ha) hnot⟩
  · have hrefs : ({ k with tables := tables }.enter t (.reporting i)).refs = {i} + k.refs :=
      refs_enter_new ht
    unfold Inv
    rw [hrefs]
    exact hcounted
  · rcases ThreadTable.lookup_insert_iff.mp hu with ⟨-, hw⟩ | ⟨-, hu⟩
    · rw [Position.reporting.injEq] at hw
      exact Or.inr ⟨p, hw ▸ hp⟩
    · exact Or.inl hu

theorem goes_delete (h : k.Inv) (ht : t ∉ k.threads) (p : EidPrefix w) :
    k.Goes (k.delete t p) := by
  unfold delete
  cases hp : k.tables.table.lookup p with
  | none =>
      have hnone : k.tables.maprequestDelete p true = some (k.tables, none) := by
        rw [maprequestDelete, hp]
      rw [hnone, Option.bind_eq_bind, Option.bind_some]
      exact Goes.same (.refl _) h
  | some i =>
      obtain ⟨tables, hdelete, hcounted, htable, hmem⟩ := maprequestDelete_spec h hp
      rw [hdelete, Option.bind_eq_bind, Option.bind_some]
      apply Goes.report ht hp hcounted _ hmem
      intro q a hq
      rw [htable] at hq
      exact (ThreadTable.lookup_erase_iff.mp hq).2

theorem goes_get (h : k.Inv) (ht : t ∉ k.threads) (p : EidPrefix w) :
    k.Goes (k.get t p) := by
  unfold get
  cases hp : k.tables.table.lookup p with
  | none => exact Goes.same (.refl _) h
  | some i =>
      have hlive := h.linked.mem_entries hp
      obtain ⟨tables, hadd, hcounted, hsame⟩ := addref_spec h hlive (h.linked.not_stray hp)
      dsimp only
      rw [hadd, Option.bind_eq_bind, Option.bind_some]
      exact Goes.report ht hp hcounted (fun hq => hsame.table ▸ hq) fun a => hsame.mem_iff

/-- The end of a call of the map socket. -/
theorem mapFree_step (h : k.Inv) (ht : k.threads.lookup t = some (.reporting i)) :
    ∃ tables, k.tables.mapFree i = some tables ∧
      Released k.tables tables i (k.leave t).refs ∧
      ({ k with tables := tables }.leave t).Inv ∧
      Effect k ({ k with tables := tables }.leave t) := by
  have hrefs : k.refs = {i} + (k.leave t).refs := refs_leave ht
  have hcounted : k.tables.Counted k.refs := h
  rw [hrefs, Multiset.singleton_add] at hcounted
  obtain ⟨tables, hfree, hcounted', hreleased⟩ := mapFree_spec hcounted
  refine ⟨tables, hfree, hreleased, hcounted', List.Subset.refl _,
    fun hp => Or.inl (hreleased.table ▸ hp),
    fun hu => Or.inl (ThreadTable.lookup_erase_iff.mp hu).2, fun j hj hnot => Or.inr ⟨t, ?_⟩⟩
  have hji : j = i := by
    by_contra hne
    exact hnot ((hreleased.mem_iff j).mpr ⟨hj, fun hgone => hne hgone.1⟩)
  rw [hji]
  exact ht

/-- Every undisturbed step that can be taken succeeds and keeps the counts. -/
theorem goes_step (h : k.Inv) {e : Event T ι w} (he : k.Enabled e)
    (hundisturbed : k.Undisturbed e) : k.Goes (k.step e) := by
  cases e with
  | mapencap t src dst now =>
      rw [step, if_neg he]
      exact goes_mapencap h he src dst now
  | noBufs t =>
      obtain ⟨dst, i, ht⟩ := he
      rw [step, ht]
      exact goes_noBufs h ht
  | mapencapRemote t now =>
      obtain ⟨dst, i, ht⟩ := he
      rw [step, ht]
      exact goes_mapencapRemote h ht now
  | needencap t src now =>
      rw [step, if_neg he]
      exact goes_needencap h he src now
  | checkMappings t dst now =>
      rw [step, if_neg he]
      exact goes_checkMappings h he dst now
  | noRloc t =>
      obtain ⟨i, ht⟩ := he
      rw [step, ht]
      exact goes_noRloc h ht
  | checkRemote t src now =>
      obtain ⟨i, ht⟩ := he
      rw [step, ht]
      exact goes_checkRemote h ht src now
  | loadRefcnt t i =>
      obtain ⟨held, ht, hi⟩ := he
      rw [step, ht]
      dsimp only
      rw [if_pos hi]
      exact goes_loadRefcnt h ht hi
  | storeRefcnt t =>
      obtain ⟨i, n, rest, ht⟩ := he
      rw [step, ht]
      rw [Undisturbed, ht] at hundisturbed
      exact goes_storeRefcnt h ht fun he => hundisturbed _ he
  | add t i req now =>
      rw [step, if_neg (not_or_intro he.1 he.2)]
      exact goes_add h he.1 he.2 req now
  | delete t p =>
      rw [step, if_neg he]
      exact goes_delete h he p
  | get t p =>
      rw [step, if_neg he]
      exact goes_get h he p
  | mapFree t =>
      obtain ⟨i, ht⟩ := he
      obtain ⟨tables, hfree, -, hinv, heffect⟩ := mapFree_step h ht
      rw [step, ht]
      dsimp only
      rw [hfree]
      exact ⟨_, rfl, hinv, heffect⟩
  | expire p now xpgto =>
      obtain ⟨tables, hexpire, hcounted, htable, hfreed⟩ := lispCacheExpired_spec h p now xpgto
      rw [step, hexpire]
      exact ⟨_, rfl, hcounted, List.Subset.refl _, fun hq => Or.inl (htable _ _ hq), Or.inl,
        fun j hj hnot => Or.inl (hfreed j hj hnot)⟩

theorem enabled_of_step {e : Event T ι w} (h : k.step e = some k') : k.Enabled e := by
  have hnew : ∀ {u : T} {next : Option (Kernel T ι w)},
      (if u ∈ k.threads then none else next) = some k' → u ∉ k.threads := fun hstep hu => by
    rw [if_pos hu] at hstep
    cases hstep
  cases e with
  | mapencap t src dst now => exact hnew h
  | needencap t src now => exact hnew h
  | checkMappings t dst now => exact hnew h
  | delete t p => exact hnew h
  | get t p => exact hnew h
  | expire p now xpgto => trivial
  | add t i req now =>
      by_contra hnot
      rw [step, if_pos (not_and_or.mp hnot |>.imp not_not.mp not_not.mp)] at h
      cases h
  | noBufs t =>
      rw [step] at h
      split at h
      case h_1 dst i ht => exact ⟨dst, i, ht⟩
      case h_2 => cases h
  | mapencapRemote t now =>
      rw [step] at h
      split at h
      case h_1 dst i ht => exact ⟨dst, i, ht⟩
      case h_2 => cases h
  | noRloc t =>
      rw [step] at h
      split at h
      case h_1 i ht => exact ⟨i, ht⟩
      case h_2 => cases h
  | checkRemote t src now =>
      rw [step] at h
      split at h
      case h_1 i ht => exact ⟨i, ht⟩
      case h_2 => cases h
  | mapFree t =>
      rw [step] at h
      split at h
      case h_1 i ht => exact ⟨i, ht⟩
      case h_2 => cases h
  | loadRefcnt t i =>
      rw [step] at h
      split at h
      case h_1 held ht =>
        by_cases hi : i ∈ held
        · exact ⟨held, ht, hi⟩
        · rw [if_neg hi] at h
          cases h
      case h_2 => cases h
  | storeRefcnt t =>
      rw [step] at h
      split at h
      case h_1 i n rest ht => exact ⟨i, n, rest, ht⟩
      case h_2 => cases h

/-- What is known of an undisturbed step from a state with right counts. -/
theorem Inv.step {e : Event T ι w} (h : k.Inv) (hundisturbed : k.Undisturbed e)
    (hstep : k.step e = some k') : k'.Inv ∧ Effect k k' := by
  obtain ⟨k₁, hk₁, hinv, heffect⟩ := goes_step h (enabled_of_step hstep) hundisturbed
  obtain rfl : k₁ = k' := Option.some_inj.mp (hk₁.symm.trans hstep)
  exact ⟨hinv, heffect⟩

/-! ## Runs -/

omit [DecidableEq T] in
theorem inv_empty : (empty : Kernel T ι w).Inv := by
  refine ⟨⟨fun hp => ?_, fun hi => ?_, fun i hi => ?_, fun i hi => ?_, rfl⟩, fun he => ?_,
    fun i hi => ?_, fun i hi => ?_⟩
  · cases hp
  · cases hi
  · cases hi
  · cases hi
  · cases he
  · cases hi
  · cases hi

/-- A run in which no store of a count overwrites another one. -/
structure Leads (k : Kernel T ι w) (es : List (Event T ι w)) (k' : Kernel T ι w) : Prop where
  run : run step k es = some k'
  undisturbed : Along step Undisturbed k es

theorem Leads.inv {es : List (Event T ι w)} (hrun : k.Leads es k') (h : k.Inv) : k'.Inv :=
  run_invariant (fun hinv hu hstep => (Inv.step hinv hu hstep).1) h hrun.undisturbed hrun.run

/-- A packet finds both its mappings, and the one of its destination is deleted before it
has left. -/
def deletedInUse : List (Event ℕ ℕ 8) :=
  [.add 0 0 ⟨0x10, 0xf0, mapfDb, true, 1, false, false⟩ 1, .loadRefcnt 0 0, .storeRefcnt 0,
    .add 0 1 ⟨0x20, 0xf0, 0, true, 1, false, false⟩ 2, .loadRefcnt 0 1, .storeRefcnt 0,
    .mapencap 1 0x11 0x21 3, .mapencapRemote 1 3, .delete 2 ⟨0x20, 0xf0⟩, .mapFree 2,
    .loadRefcnt 1 0, .storeRefcnt 1, .loadRefcnt 1 1, .storeRefcnt 1]

theorem leads_deletedInUse : ∃ k : Kernel ℕ ℕ 8, Leads empty deletedInUse k := by
  have hrun : (run step empty deletedInUse).isSome := by decide +kernel
  obtain ⟨k, hk⟩ := Option.isSome_iff_exists.mp hrun
  exact ⟨k, hk, by decide +kernel⟩

/-- Two packets that give back their references at once leave one of them behind. -/
example : (run step (empty : Kernel ℕ ℕ 8)
    [.add 0 0 ⟨0x10, 0xf0, mapfDb, true, 1, false, false⟩ 1, .loadRefcnt 0 0, .storeRefcnt 0,
      .needencap 1 0x11 2, .needencap 2 0x12 2, .loadRefcnt 1 0, .loadRefcnt 2 0,
      .storeRefcnt 1, .storeRefcnt 2]).any (fun k =>
        k.refs = 0 ∧ (k.tables.entries.lookup 0).any fun e => e.mapRefcnt = 1) = true := by
  decide +kernel

/-- In such a run `maptrash` is the number of mappings without `MAPF_UP`, and these are the
allocated ones that are out of the tree, apart from what additions to a taken prefix left. -/
theorem maptrash_counts {es : List (Event T ι w)} (hrun : Leads empty es k) :
    k.tables.maptrash = (ThreadTable.count Mapentry.down k.tables.entries : ℕ) ∧
      ∀ i e, k.tables.entries.lookup i = some e →
        (e.down = true ↔ k.tables.table.lookup e.eid ≠ some i ∧ i ∉ k.tables.strays) := by
  have hlinked := (hrun.inv inv_empty).linked
  refine ⟨hlinked.trash, fun i e he => ?_⟩
  rw [down_iff he, ← not_or, not_iff_not]
  constructor
  · rintro ⟨p, f, hf, hup⟩
    have heq := hf
    rw [shape_eq he, Option.some_inj, Prod.mk.injEq] at heq
    rw [heq.1]
    exact hlinked.up_linked hf hup
  · rintro (hp | hstray)
    · obtain ⟨f, hf, hup⟩ := hlinked.table_up hp
      exact ⟨_, f, hf, hup⟩
    · exact hlinked.stray_up i hstray

theorem maptrash_counts_deletedInUse : ∃ k, Leads empty deletedInUse k ∧
    k.tables.maptrash = (ThreadTable.count Mapentry.down k.tables.entries : ℕ) ∧
      ∀ i e, k.tables.entries.lookup i = some e →
        (e.down = true ↔ k.tables.table.lookup e.eid ≠ some i ∧ i ∉ k.tables.strays) :=
  have ⟨k, hrun⟩ := leads_deletedInUse
  ⟨k, hrun, maptrash_counts hrun⟩

/-! ## Which mappings can still be freed -/

/-- A mapping out of the table that no call of the map socket has. -/
structure Idle (k : Kernel T ι w) (i : ι) : Prop where
  live : i ∈ k.tables.entries
  unlinked : ∀ p, k.tables.table.lookup p ≠ some i
  unreported : ∀ t, k.threads.lookup t ≠ some (.reporting i)

theorem Idle.step (h : k.Idle i) (heffect : Effect k k') : k'.Idle i := by
  refine ⟨?_, fun p hp => ?_, fun t ht => ?_⟩
  · by_contra hnot
    rcases heffect.freed i h.live hnot with ⟨p, hp⟩ | ⟨t, ht⟩
    · exact h.unlinked p hp
    · exact h.unreported t ht
  · exact (heffect.table hp).elim (h.unlinked p) fun hnew => hnew h.live
  · exact (heffect.reporting ht).elim (h.unreported t) fun ⟨p, hp⟩ => h.unlinked p hp

theorem Leads.cons {e : Event T ι w} {es : List (Event T ι w)} {k₁ : Kernel T ι w}
    (hu : k.Undisturbed e) (hstep : k.step e = some k₁) (hrun : k₁.Leads es k') :
    k.Leads (e :: es) k' := by
  refine ⟨run_cons_eq_some.mpr ⟨k₁, hstep, hrun.run⟩, hu, fun k₂ hk₂ => ?_⟩
  obtain rfl : k₁ = k₂ := Option.some_inj.mp (hstep.symm.trans hk₂)
  exact hrun.undisturbed

theorem Leads.nil (k : Kernel T ι w) : k.Leads [] k := ⟨rfl, trivial⟩

theorem Leads.append {es es' : List (Event T ι w)} {k₁ : Kernel T ι w} (h : k.Leads es k₁)
    (h' : k₁.Leads es' k') : k.Leads (es ++ es') k' :=
  ⟨run_append h.run h'.run, h.undisturbed.append h.run h'.undisturbed⟩

/-- No thread is in a `MAP_REMREF`. -/
def Settled (k : Kernel T ι w) : Prop :=
  ∀ t i n rest, k.threads.lookup t ≠ some (.storing i n rest)

omit [DecidableEq ι] in
theorem Settled.leave (h : k.Settled) (t : T) : (k.leave t).Settled :=
  fun u i n rest hu => h u i n rest (ThreadTable.lookup_erase_iff.mp hu).2

omit [DecidableEq ι] in
theorem Settled.enter (h : k.Settled) (t : T) (hpos : ∀ i n rest, pos ≠ .storing i n rest) :
    (k.enter t pos).Settled := by
  intro u i n rest hu
  rcases ThreadTable.lookup_insert_iff.mp hu with ⟨-, hw⟩ | ⟨-, hu⟩
  · exact hpos i n rest hw
  · exact h u i n rest hu

end Kernel

end HyLisp.DataPlane.MapReferences
