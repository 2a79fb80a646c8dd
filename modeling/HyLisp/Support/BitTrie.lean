import Mathlib.Data.Bool.Basic
import Mathlib.Data.List.Infix
import Mathlib.Tactic.Common

/-!
# Tries of bit strings

A binary trie whose nodes carry whole keys, as routing tables use them: below a
node lie, on either side, the keys that continue its own key with that bit.  A node
without data of its own, made where two keys part, is a node like any other.

Insertion leaves every other entry in place; the keys below a node get longer with
every step down, so that no node lies deeper than its key is long.
-/

/-- A trie, from a node on. -/
inductive BitTrie (ν : Type*)
  | nil
  | node (key : List Bool) (data : ν) (left right : BitTrie ν)

namespace BitTrie

variable {ν : Type*}

/-! ## Keys -/

/-- What two keys have in common. -/
def commonPrefix : List Bool → List Bool → List Bool
  | a :: as, b :: bs => if a = b then a :: commonPrefix as bs else []
  | _, _ => []

theorem commonPrefix_left (as bs : List Bool) : commonPrefix as bs <+: as := by
  induction as generalizing bs with
  | nil => cases bs <;> exact List.nil_prefix
  | cons a as ih =>
      cases bs with
      | nil => exact List.nil_prefix
      | cons b bs =>
          rw [commonPrefix]
          split
          · exact List.cons_prefix_cons.mpr ⟨rfl, ih bs⟩
          · exact List.nil_prefix

theorem commonPrefix_right (as bs : List Bool) : commonPrefix as bs <+: bs := by
  induction as generalizing bs with
  | nil => cases bs <;> exact List.nil_prefix
  | cons a as ih =>
      cases bs with
      | nil => exact List.nil_prefix
      | cons b bs =>
          rw [commonPrefix]
          split
          next hab => exact List.cons_prefix_cons.mpr ⟨hab, ih bs⟩
          · exact List.nil_prefix

/-- Every common beginning is part of the longest one. -/
theorem prefix_commonPrefix {k as bs : List Bool} (ha : k <+: as) (hb : k <+: bs) :
    k <+: commonPrefix as bs := by
  induction k generalizing as bs with
  | nil => exact List.nil_prefix
  | cons x k ih =>
      obtain ⟨ra, rfl⟩ := ha
      obtain ⟨rb, rfl⟩ := hb
      rw [List.cons_append, List.cons_append, commonPrefix, if_pos rfl]
      exact List.cons_prefix_cons.mpr ⟨rfl, ih (List.prefix_append k ra)
        (List.prefix_append k rb)⟩

/-- The bit of a key at a position; past its end there is none. -/
def bitAt (key : List Bool) (i : ℕ) : Bool :=
  key.getD i false

@[simp] theorem bitAt_cons_zero (a : Bool) (as : List Bool) : bitAt (a :: as) 0 = a := rfl

@[simp] theorem bitAt_cons_succ (a : Bool) (as : List Bool) (i : ℕ) :
    bitAt (a :: as) (i + 1) = bitAt as i := rfl

/-- Two keys have in common the bits up to where one ends or they differ. -/
theorem commonPrefix_eq_take {as bs : List Bool} {c : ℕ} (ha : c ≤ as.length)
    (hb : c ≤ bs.length) (hagree : ∀ i < c, bitAt as i = bitAt bs i)
    (hstop : c = as.length ∨ c = bs.length ∨ bitAt as c ≠ bitAt bs c) :
    commonPrefix as bs = bs.take c := by
  induction as generalizing bs c with
  | nil =>
      obtain rfl := Nat.le_zero.mp ha
      cases bs <;> rfl
  | cons a as ih =>
      cases bs with
      | nil =>
          obtain rfl := Nat.le_zero.mp hb
          rfl
      | cons b bs =>
          cases c with
          | zero =>
              have hne : a ≠ b := by simpa using hstop
              rw [commonPrefix, if_neg hne, List.take_zero]
          | succ c =>
              have hab : a = b := by simpa using hagree 0 (Nat.succ_pos c)
              rw [commonPrefix, if_pos hab, hab, List.take_succ_cons,
                ih (Nat.le_of_succ_le_succ ha) (Nat.le_of_succ_le_succ hb)
                  (fun i hi => by simpa using hagree (i + 1) (Nat.succ_lt_succ hi))
                  (by simpa using hstop)]

/-- A proper beginning of a key is continued by the bit that follows. -/
theorem append_bitAt_isPrefix {k key : List Bool} (h : k <+: key) (hne : k ≠ key) :
    k ++ [bitAt key k.length] <+: key := by
  obtain ⟨rest, rfl⟩ := h
  cases rest with
  | nil => exact absurd (List.append_nil k).symm hne
  | cons b rest =>
      have hbit : bitAt (k ++ b :: rest) k.length = b := by simp [bitAt]
      rw [hbit]
      exact ⟨rest, by simp⟩

theorem length_lt_of_prefix_of_ne {k key : List Bool} (h : k <+: key) (hne : k ≠ key) :
    k.length < key.length :=
  lt_of_le_of_ne h.length_le fun heq => hne (h.eq_of_length heq)

/-- Behind what two keys have in common they differ. -/
theorem bitAt_commonPrefix_ne {as bs : List Bool} (ha : commonPrefix as bs ≠ as)
    (hb : commonPrefix as bs ≠ bs) :
    bitAt as (commonPrefix as bs).length ≠ bitAt bs (commonPrefix as bs).length := by
  intro heq
  have hlonger := prefix_commonPrefix
    (append_bitAt_isPrefix (commonPrefix_left as bs) ha)
    (heq ▸ append_bitAt_isPrefix (commonPrefix_right as bs) hb)
  have hle := hlonger.length_le
  rw [List.length_append, List.length_singleton] at hle
  omega

/-! ## Tries in which every node is in its place -/

/-- All keys continue `k`, and those below a node continue its key on their side. -/
def Below (k : List Bool) : BitTrie ν → Prop
  | nil => True
  | node key _ left right =>
      k <+: key ∧ Below (key ++ [false]) left ∧ Below (key ++ [true]) right

/-- The entries, from the top down. -/
def entries : BitTrie ν → List (List Bool × ν)
  | nil => []
  | node key data left right => (key, data) :: (left.entries ++ right.entries)

theorem Below.prefix_of_mem {k : List Bool} {t : BitTrie ν} (h : Below k t)
    {e : List Bool × ν} (he : e ∈ t.entries) : k <+: e.1 := by
  induction t generalizing k with
  | nil => cases he
  | node key data left right ihleft ihright =>
      rcases List.mem_cons.mp he with rfl | hrest
      · exact h.1
      · have hkey := h.1
        rcases List.mem_append.mp hrest with hl | hr
        · exact hkey.trans ((List.prefix_append _ _).trans (ihleft h.2.1 hl))
        · exact hkey.trans ((List.prefix_append _ _).trans (ihright h.2.2 hr))

/-- Every key has one node only. -/
theorem Below.nodup_keys {k : List Bool} {t : BitTrie ν} (h : Below k t) :
    (t.entries.map Prod.fst).Nodup := by
  induction t generalizing k with
  | nil => exact List.nodup_nil
  | node key data left right ihleft ihright =>
      obtain ⟨-, hleft, hright⟩ := h
      have hside : ∀ {b : Bool} {s : BitTrie ν} {key' : List Bool},
          Below (key ++ [b]) s → key' ∈ s.entries.map Prod.fst → key ++ [b] <+: key' := by
        intro b s key' hs hmem
        obtain ⟨e, he, rfl⟩ := List.mem_map.mp hmem
        exact hs.prefix_of_mem he
      have hself : ∀ {b : Bool}, ¬ key ++ [b] <+: key := by
        intro b hprefix
        have hle := hprefix.length_le
        rw [List.length_append, List.length_singleton] at hle
        omega
      rw [entries, List.map_cons, List.map_append, List.nodup_cons, List.nodup_append]
      refine ⟨?_, ihleft hleft, ihright hright, ?_⟩
      · rw [List.mem_append]
        rintro (hmem | hmem)
        · exact hself (hside hleft hmem)
        · exact hself (hside hright hmem)
      · rintro key' hl _ hr rfl
        -- the two sides differ in the bit behind the key
        obtain ⟨rest, hrest⟩ := hside hleft hl
        obtain ⟨rest', hrest'⟩ := hside hright hr
        rw [← hrest', List.append_assoc, List.append_assoc] at hrest
        have hbits := List.append_cancel_left hrest
        cases hbits

/-- The keys of the nodes with the numbers of nodes above them. -/
def depths (d : ℕ) : BitTrie ν → List (ℕ × List Bool)
  | nil => []
  | node key _ left right => (d, key) :: (left.depths (d + 1) ++ right.depths (d + 1))

/-- No node lies deeper than its key is long. -/
theorem Below.depth_le {k : List Bool} {t : BitTrie ν} (h : Below k t) {d : ℕ}
    (hd : d ≤ k.length) {e : ℕ × List Bool} (he : e ∈ t.depths d) :
    e.1 ≤ e.2.length := by
  induction t generalizing k d with
  | nil => cases he
  | node key data left right ihleft ihright =>
      have hle := h.1.length_le
      rcases List.mem_cons.mp he with rfl | hrest
      · exact hd.trans hle
      · rcases List.mem_append.mp hrest with hl | hr
        · exact ihleft h.2.1 (by rw [List.length_append, List.length_singleton]; omega) hl
        · exact ihright h.2.2 (by rw [List.length_append, List.length_singleton]; omega) hr

/-! ## Insertion -/

/-- A node with one child. -/
def above (k : List Bool) (data : ν) (key : List Bool) (t : BitTrie ν) : BitTrie ν :=
  if bitAt key k.length then node k data nil t else node k data t nil

/-- How the data of a node is made: of a new one, of a new one above another node,
of one where the keys of two nodes part, and of one that exists. -/
structure Update (ν : Type*) where
  fresh : ν
  covering : ν → ν
  glue : ν → ν
  change : ν → ν

/-- The node of a key is changed, or made. -/
def insert (u : Update ν) : BitTrie ν → List Bool → BitTrie ν
  | nil, key => node key u.fresh nil nil
  | node k data left right, key =>
      if k <+: key then
        if k = key then node k (u.change data) left right
        else if bitAt key k.length then node k data left (right.insert u key)
        else node k data (left.insert u key) right
      else
        let c := commonPrefix k key
        let t := node k data left right
        if c = key then above key (u.covering data) k t
        else if bitAt key c.length then node c (u.glue data) t (node key u.fresh nil nil)
        else node c (u.glue data) (node key u.fresh nil nil) t

section Insert

variable {u : Update ν} {t : BitTrie ν} {key : List Bool}

/-- A trie stays in order. -/
theorem Below.insert {k : List Bool} (h : Below k t) (hk : k <+: key) :
    Below k (t.insert u key) := by
  induction t generalizing k with
  | nil => exact ⟨hk, trivial, trivial⟩
  | node k' data left right ihleft ihright =>
      obtain ⟨hk', hleft, hright⟩ := h
      rw [BitTrie.insert]
      by_cases hcover : k' <+: key
      · rw [if_pos hcover]
        by_cases heq : k' = key
        · rw [if_pos heq]
          exact ⟨hk', hleft, hright⟩
        · have hbit := append_bitAt_isPrefix hcover heq
          rw [if_neg heq]
          cases hb : bitAt key k'.length with
          | false => exact ⟨hk', ihleft hleft (hb ▸ hbit), hright⟩
          | true => exact ⟨hk', hleft, ihright hright (hb ▸ hbit)⟩
      · rw [if_neg hcover]
        dsimp only
        have hc := prefix_commonPrefix hk' hk
        have hleftc := commonPrefix_left k' key
        have hrightc := commonPrefix_right k' key
        have hne : commonPrefix k' key ≠ k' := fun heq => hcover (heq ▸ hrightc)
        by_cases hcommon : commonPrefix k' key = key
        · rw [if_pos hcommon, above]
          have hbit := append_bitAt_isPrefix hleftc hne
          rw [hcommon] at hbit
          cases hb : bitAt k' key.length with
          | false => exact ⟨hk, ⟨hb ▸ hbit, hleft, hright⟩, trivial⟩
          | true => exact ⟨hk, trivial, hb ▸ hbit, hleft, hright⟩
        · rw [if_neg hcommon]
          have hold := append_bitAt_isPrefix hleftc hne
          have hnew := append_bitAt_isPrefix hrightc hcommon
          have hdiffer := bitAt_commonPrefix_ne hne hcommon
          cases hb : bitAt key (commonPrefix k' key).length with
          | false =>
              have hbold : bitAt k' (commonPrefix k' key).length = true := by
                rw [hb] at hdiffer
                exact Bool.eq_true_of_not_eq_false hdiffer
              rw [hbold] at hold
              rw [hb] at hnew
              exact ⟨hc, ⟨hnew, trivial, trivial⟩, hold, hleft, hright⟩
          | true =>
              have hbold : bitAt k' (commonPrefix k' key).length = false := by
                rw [hb] at hdiffer
                exact Bool.eq_false_of_not_eq_true hdiffer
              rw [hbold] at hold
              rw [hb] at hnew
              exact ⟨hc, ⟨hold, hleft, hright⟩, hnew, trivial, trivial⟩

theorem entries_above (k : List Bool) (data : ν) (key : List Bool) (t : BitTrie ν) :
    (above k data key t).entries = (k, data) :: t.entries := by
  rw [above]
  split <;> simp [entries]

/-- The nodes that are made above a node whose key does not lead to the one inserted. -/
def parted (u : Update ν) (k : List Bool) (data : ν) (key : List Bool) :
    List (List Bool × ν) :=
  if commonPrefix k key = key then [(key, u.covering data)]
  else [(commonPrefix k key, u.glue data), (key, u.fresh)]

/-- Where the key leaves the path, the nodes below stay and those above are made. -/
theorem entries_insert_of_not_isPrefix {k : List Bool} {data : ν} {left right : BitTrie ν}
    (hcover : ¬ k <+: key) :
    ((node k data left right).insert u key).entries.Perm
      (parted u k data key ++ (node k data left right).entries) := by
  rw [insert, if_neg hcover, parted]
  dsimp only
  split
  · rw [entries_above]
    exact List.Perm.refl _
  · split
    · apply List.Perm.cons
      exact List.perm_append_comm
    · exact List.Perm.refl _

/-- The entries of other keys stay. -/
theorem mem_entries_insert {e : List Bool × ν} (he : e ∈ t.entries) (hne : e.1 ≠ key) :
    e ∈ (t.insert u key).entries := by
  induction t with
  | nil => cases he
  | node k data left right ihleft ihright =>
      by_cases hcover : k <+: key
      · rw [insert, if_pos hcover]
        rw [entries, List.mem_cons, List.mem_append] at he
        by_cases heq : k = key
        · rw [if_pos heq, entries, List.mem_cons, List.mem_append]
          refine he.imp_left ?_
          rintro rfl
          exact absurd heq hne
        · rw [if_neg heq]
          split
          · rw [entries, List.mem_cons, List.mem_append]
            exact he.imp_right (Or.imp_right ihright)
          · rw [entries, List.mem_cons, List.mem_append]
            exact he.imp_right (Or.imp_left ihleft)
      · exact (entries_insert_of_not_isPrefix hcover).mem_iff.mpr
          (List.mem_append_right _ he)

/-- The entry of the key is changed. -/
theorem mem_entries_insert_self {k : List Bool} (h : Below k t) {d : ν}
    (he : (key, d) ∈ t.entries) :
    (key, u.change d) ∈ (t.insert u key).entries := by
  induction t generalizing k with
  | nil => cases he
  | node k' data left right ihleft ihright =>
      obtain ⟨-, hleft, hright⟩ := h
      -- an entry on a side has the bit of that side
      have hside : ∀ {b : Bool} {s : BitTrie ν}, Below (k' ++ [b]) s →
          (key, d) ∈ s.entries → k' <+: key ∧ k' ≠ key ∧ bitAt key k'.length = b := by
        intro b s hs hmem
        obtain ⟨rest, hrest⟩ := hs.prefix_of_mem hmem
        dsimp only at hrest
        subst hrest
        rw [List.append_assoc]
        exact ⟨List.prefix_append _ _, by simp, by simp [bitAt]⟩
      rw [entries, List.mem_cons, List.mem_append] at he
      rw [insert]
      rcases he with heq | hl | hr
      · obtain ⟨rfl, rfl⟩ := Prod.mk.inj heq
        rw [if_pos List.prefix_rfl, if_pos rfl]
        exact List.mem_cons_self
      · obtain ⟨hcover, hne, hbit⟩ := hside hleft hl
        rw [if_pos hcover, if_neg hne, hbit]
        exact List.mem_cons_of_mem _ (List.mem_append_left _ (ihleft hleft hl))
      · obtain ⟨hcover, hne, hbit⟩ := hside hright hr
        rw [if_pos hcover, if_neg hne, hbit]
        exact List.mem_cons_of_mem _ (List.mem_append_right _ (ihright hright hr))

/-- The node of the key, after an insertion into `t`. -/
def Made (u : Update ν) (t : BitTrie ν) (key : List Bool) (d : ν) : Prop :=
  d = u.fresh ∨ (∃ d', d = u.covering d') ∨ ∃ d', (key, d') ∈ t.entries ∧ d = u.change d'

/-- Every entry was there, or is one of the nodes made, or the changed one. -/
theorem mem_entries_insert_cases {e : List Bool × ν}
    (he : e ∈ (t.insert u key).entries) :
    e ∈ t.entries ∨ (e.1 <+: key ∧ ∃ d, e.2 = u.glue d) ∨
      e.1 = key ∧ Made u t key e.2 := by
  induction t with
  | nil =>
      obtain rfl := List.mem_singleton.mp he
      exact Or.inr (Or.inr ⟨rfl, Or.inl rfl⟩)
  | node k data left right ihleft ihright =>
      have hmono : ∀ {s : BitTrie ν}, s.entries ⊆ (node k data left right).entries →
          (e ∈ s.entries ∨ (e.1 <+: key ∧ ∃ d, e.2 = u.glue d) ∨
            e.1 = key ∧ Made u s key e.2) →
          e ∈ (node k data left right).entries ∨ (e.1 <+: key ∧ ∃ d, e.2 = u.glue d) ∨
            e.1 = key ∧ Made u (node k data left right) key e.2 := by
        intro s hs
        exact Or.imp (fun h => hs h) (Or.imp_right (And.imp_right (Or.imp_right
          (Or.imp_right fun ⟨d, hd, heq⟩ => ⟨d, hs hd, heq⟩))))
      have hleft : left.entries ⊆ (node k data left right).entries :=
        fun _ h => List.mem_cons_of_mem _ (List.mem_append_left _ h)
      have hright : right.entries ⊆ (node k data left right).entries :=
        fun _ h => List.mem_cons_of_mem _ (List.mem_append_right _ h)
      by_cases hcover : k <+: key
      · rw [insert, if_pos hcover] at he
        by_cases heq : k = key
        · rw [if_pos heq] at he
          rcases List.mem_cons.mp he with rfl | hrest
          · exact Or.inr (Or.inr ⟨heq,
              Or.inr (Or.inr ⟨data, heq ▸ List.mem_cons_self, rfl⟩)⟩)
          · exact Or.inl (List.mem_cons_of_mem _ hrest)
        · rw [if_neg heq] at he
          split at he <;> rw [entries, List.mem_cons, List.mem_append] at he
          · rcases he with rfl | hl | hr
            · exact Or.inl List.mem_cons_self
            · exact Or.inl (hleft hl)
            · exact hmono hright (ihright hr)
          · rcases he with rfl | hl | hr
            · exact Or.inl List.mem_cons_self
            · exact hmono hleft (ihleft hl)
            · exact Or.inl (hright hr)
      · rcases List.mem_append.mp
          ((entries_insert_of_not_isPrefix hcover).mem_iff.mp he) with hnew | hold
        · rw [parted] at hnew
          split at hnew
          · obtain rfl := List.mem_singleton.mp hnew
            exact Or.inr (Or.inr ⟨rfl, Or.inr (Or.inl ⟨data, rfl⟩)⟩)
          · rcases List.mem_cons.mp hnew with rfl | hfresh
            · exact Or.inr (Or.inl ⟨commonPrefix_right k key, data, rfl⟩)
            · obtain rfl := List.mem_singleton.mp hfresh
              exact Or.inr (Or.inr ⟨rfl, Or.inl rfl⟩)
        · exact Or.inl hold

/-- There is a node of the key. -/
theorem exists_made (u : Update ν) (t : BitTrie ν) (key : List Bool) :
    ∃ d, (key, d) ∈ (t.insert u key).entries ∧ Made u t key d := by
  induction t with
  | nil => exact ⟨u.fresh, List.mem_cons_self, Or.inl rfl⟩
  | node k data left right ihleft ihright =>
      have hside : ∀ {s : BitTrie ν} {d : ν}, s.entries ⊆ (node k data left right).entries →
          Made u s key d → Made u (node k data left right) key d := by
        intro s d hs
        exact Or.imp_right (Or.imp_right fun ⟨d', hd, heq⟩ => ⟨d', hs hd, heq⟩)
      by_cases hcover : k <+: key
      · rw [insert, if_pos hcover]
        by_cases heq : k = key
        · rw [if_pos heq]
          refine ⟨u.change data, heq ▸ List.mem_cons_self, Or.inr (Or.inr ⟨data, ?_, rfl⟩)⟩
          exact heq ▸ List.mem_cons_self
        · rw [if_neg heq]
          split
          · obtain ⟨d, hmem, hmade⟩ := ihright
            exact ⟨d, List.mem_cons_of_mem _ (List.mem_append_right _ hmem),
              hside (fun _ h => List.mem_cons_of_mem _ (List.mem_append_right _ h)) hmade⟩
          · obtain ⟨d, hmem, hmade⟩ := ihleft
            exact ⟨d, List.mem_cons_of_mem _ (List.mem_append_left _ hmem),
              hside (fun _ h => List.mem_cons_of_mem _ (List.mem_append_left _ h)) hmade⟩
      · have hnodes : ((node k data left right).insert u key).entries.Perm
            (parted u k data key ++ (node k data left right).entries) :=
          entries_insert_of_not_isPrefix hcover
        by_cases hcommon : commonPrefix k key = key
        · refine ⟨u.covering data, hnodes.mem_iff.mpr (List.mem_append_left _ ?_),
            Or.inr (Or.inl ⟨data, rfl⟩)⟩
          rw [parted, if_pos hcommon]
          exact List.mem_cons_self
        · refine ⟨u.fresh, hnodes.mem_iff.mpr (List.mem_append_left _ ?_), Or.inl rfl⟩
          rw [parted, if_neg hcommon]
          exact List.mem_cons_of_mem _ List.mem_cons_self

/-- What the update keeps of the data is kept, besides what is new with it: that of a
fresh node, and that of one where two keys part. -/
theorem map_entries_insert {ι : Type*} {g : ν → ι} {c : ι}
    (hchange : ∀ d, g (u.change d) = g d) (hover : ∀ d, g (u.covering d) = g u.fresh)
    (hglue : ∀ d, g (u.glue d) = c) (t : BitTrie ν) (key : List Bool) :
    ∃ new, new.Sublist [g u.fresh, c] ∧
      ((t.insert u key).entries.map fun e => g e.2).Perm
        ((t.entries.map fun e => g e.2) ++ new) := by
  induction t with
  | nil => exact ⟨[g u.fresh], by simp, List.Perm.refl _⟩
  | node k data left right ihleft ihright =>
      by_cases hcover : k <+: key
      · rw [insert, if_pos hcover]
        by_cases heq : k = key
        · rw [if_pos heq]
          refine ⟨[], List.nil_sublist _, ?_⟩
          simp [entries, hchange]
        · rw [if_neg heq]
          split
          · obtain ⟨new, hnew, hperm⟩ := ihright
            refine ⟨new, hnew, ?_⟩
            simp only [entries, List.map_cons, List.map_append, List.cons_append,
              List.append_assoc]
            exact (hperm.append_left _).cons _
          · obtain ⟨new, hnew, hperm⟩ := ihleft
            refine ⟨new, hnew, ?_⟩
            simp only [entries, List.map_cons, List.map_append, List.cons_append,
              List.append_assoc]
            refine List.Perm.cons _ ((hperm.append_right _).trans ?_)
            rw [List.append_assoc]
            exact List.perm_append_comm.append_left _
      · have hnodes : (((node k data left right).insert u key).entries.map fun e =>
            g e.2).Perm ((parted u k data key ++ (node k data left right).entries).map
              fun e => g e.2) :=
          (entries_insert_of_not_isPrefix hcover).map _
        rw [List.map_append] at hnodes
        have hback := hnodes.trans List.perm_append_comm
        rw [parted] at hback
        split at hback
        · refine ⟨[g u.fresh], by simp, ?_⟩
          rw [← hover data]
          exact hback
        · refine ⟨[g u.fresh, c], List.Sublist.refl _, ?_⟩
          rw [← hglue data]
          exact hback.trans ((List.Perm.swap _ _ []).append_left _)

end Insert

end BitTrie
