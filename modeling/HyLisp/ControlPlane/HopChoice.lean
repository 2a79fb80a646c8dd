import HyLisp.ControlPlane.RecordRoundTrip

/-!
# The hop that is chosen from a path

From an explicit locator path `read_rec` takes the first hop on an xTR, the hop behind
its own on an RTR, and the last one without LISP-TE.  The test for the last hop counts
the bytes of an IPv6 hop twice over, and is made with LISP-TE too, so that a hop near
the end of the path can be taken early.
-/

namespace HyLisp.ControlPlane

open DataPlane

/-! ## Paths in memory -/

/-- The size of a path. -/
def pathLen (hops : List Address) : ℕ :=
  (hops.map hopSize).sum

/-- The hops from a position on are those of a list. -/
def HopsAt (lcaf : Mem) : ℕ → List Address → Prop
  | _, [] => True
  | hop, addr :: rest =>
      readHop (lcaf.advance hop) = some (addr, hopSize addr) ∧
        HopsAt lcaf (hop + hopSize addr) rest

/-- The locator is a path with the hops, whose sizes fill the payload announced. -/
structure IsPath (loc : Mem) (hops : List Address) : Prop where
  afi : (loc.advance 6).be16 0 = lcafAfi
  type : loc.advance 6 4 = lcafTe
  payload : (loc.advance 6).be16 6 = pathLen hops
  hops : HopsAt (loc.advance 6) sizeofLcafHdr hops

/-- The hops with their positions. -/
def positions : ℕ → List Address → List (ℕ × Address)
  | _, [] => []
  | hop, addr :: rest => (hop, addr) :: positions (hop + hopSize addr) rest

/-! ## Which hop to choose -/

/-- The hop behind `before`, with the hops `after` behind it, is the one to choose: the
first one on an xTR, the one that follows the node's own address on an RTR, and the last
one without LISP-TE. -/
def IsDue (cfg : ReplyConfig) (before after : List Address) : Prop :=
  if cfg.lispTe then
    if cfg.fncXtr then before = []
    else cfg.fncRtr = true ∧ ∃ passed own, before = passed ++ [own] ∧
      cfg.isMyAddr own = true ∧ ∀ addr ∈ passed, cfg.isMyAddr addr = false
  else after = []

/-- The address becomes the RLOC. -/
def ChoosesRloc (cfg : ReplyConfig) (loc : Mem) (addr : Address) : Prop :=
  ∃ entry size, readLocator cfg loc = some (entry, size) ∧ entry.rloc.address = some addr

/-- An IPv6 hop with less than 400 bytes from its start to the end of the path. -/
def nearEnd (rest : List Address) : Address → Bool
  | .inet _ => false
  | .inet6 addr => decide (pathLen (.inet6 addr :: rest) < sizeofRloc6Te * sizeofRloc6Te)

/-- The first of the hops `before` that is near the end, with `rest` behind them. -/
def cutShort : List Address → List Address → Option Address
  | [], _ => none
  | addr :: before, rest =>
      if nearEnd (before ++ rest) addr then some addr else cutShort before rest

/-! ## The two loops -/

section Loops

variable {cfg : ReplyConfig} {lcaf : Mem} {hop n : ℕ} {addr : Address}
  {hops before after : List Address}

@[simp] theorem pathLen_nil : pathLen [] = 0 := rfl

@[simp] theorem pathLen_cons (addr : Address) (hops : List Address) :
    pathLen (addr :: hops) = hopSize addr + pathLen hops := rfl

theorem hopSize_pos (addr : Address) : 0 < hopSize addr := by
  cases addr with
  | inet _ => exact Nat.zero_lt_succ 7
  | inet6 _ => exact Nat.zero_lt_succ 19

theorem pathLen_pos (before after : List Address) (addr : Address) :
    0 < pathLen (before ++ addr :: after) := by
  cases before with
  | nil => exact Nat.add_pos_left (hopSize_pos addr) _
  | cons first before => exact Nat.add_pos_left (hopSize_pos first) _

/-- The first loop passes over the hops. -/
theorem readHops_of_hopsAt (h : HopsAt lcaf hop hops) (hn : pathLen hops ≤ n) :
    readHops lcaf (hop + pathLen hops) n hop = some (positions hop hops) := by
  induction hops generalizing hop n with
  | nil =>
      cases n with
      | zero => rfl
      | succ n => rw [readHops, if_neg (by simp)]; rfl
  | cons addr rest ih =>
      obtain ⟨hread, hrest⟩ := h
      have hpos := hopSize_pos addr
      rw [pathLen_cons] at hn ⊢
      cases n with
      | zero => omega
      | succ n =>
          rw [readHops, if_pos (by omega), hread]
          dsimp only
          rw [← Nat.add_assoc, ih hrest (by omega)]
          rfl

/-- With LISP-TE, the last hop is looked for among those of IPv6 only. -/
theorem isLastHop_of_lispTe (hte : cfg.lispTe = true) (hop : ℕ) (addr : Address)
    (rest : List Address) :
    isLastHop cfg (hop + pathLen (addr :: rest)) hop addr = nearEnd rest addr := by
  cases addr with
  | inet addr => simp [isLastHop, nearEnd, hte]
  | inet6 addr => exact decide_eq_decide.mpr Nat.add_lt_add_iff_left

/-- Without it, a hop with others behind it is the last one if it is near the end. -/
theorem isLastHop_of_pos (hop : ℕ) (addr : Address) {rest : List Address}
    (hrest : 0 < pathLen rest) :
    isLastHop cfg (hop + pathLen (addr :: rest)) hop addr = nearEnd rest addr := by
  cases addr with
  | inet addr =>
      have hsize : ¬hop + sizeofRlocTe ≥ hop + (hopSize (.inet addr) + pathLen rest) := by
        rw [hopSize]
        omega
      simp [isLastHop, nearEnd, hsize]
  | inet6 addr => exact decide_eq_decide.mpr Nat.add_lt_add_iff_left

/-- Without LISP-TE, the loop ends at the last hop, or at one that is near the end. -/
theorem chooseHop_of_lispTe_off (hte : cfg.lispTe = false) (before : List Address)
    (hop : ℕ) (first rtr : Bool) :
    chooseHop cfg (hop + pathLen (before ++ [addr])) (positions hop (before ++ [addr]))
      first rtr = some ((cutShort before [addr]).getD addr) := by
  induction before generalizing hop first rtr with
  | nil =>
      have hlast : isLastHop cfg (hop + pathLen [addr]) hop addr = true := by
        cases addr with
        | inet addr => simp [isLastHop, hte, hopSize]
        | inet6 addr => simp [isLastHop, hopSize, sizeofRloc6Te]
      rw [List.nil_append, positions, chooseHop, hlast]
      simp [hte, cutShort]
  | cons passed before ih =>
      have hlast : isLastHop cfg (hop + pathLen (passed :: (before ++ [addr]))) hop passed =
          nearEnd (before ++ [addr]) passed :=
        isLastHop_of_pos hop passed (pathLen_pos before [] addr)
      rw [List.cons_append, positions, chooseHop, hlast, cutShort]
      simp only [hte, Bool.and_false, Bool.false_and, Bool.false_eq_true, ↓reduceIte]
      split
      · rfl
      · rw [pathLen_cons, ← Nat.add_assoc]
        exact ih _ false false

/-- An RTR ends at the hop behind its own, or at one that is near the end. -/
theorem chooseHop_of_rtr (hte : cfg.lispTe = true) (hxtr : cfg.fncXtr = false)
    (hrtr : cfg.fncRtr = true) {own : Address} (hown : cfg.isMyAddr own = true)
    {passed : List Address} (hpassed : ∀ addr ∈ passed, cfg.isMyAddr addr = false)
    (hop : ℕ) (first : Bool) :
    chooseHop cfg (hop + pathLen (passed ++ own :: addr :: after))
      (positions hop (passed ++ own :: addr :: after)) first false =
        some ((cutShort (passed ++ [own]) (addr :: after)).getD addr) := by
  induction passed generalizing hop first with
  | nil =>
      rw [List.nil_append, positions, positions, chooseHop, isLastHop_of_lispTe hte,
        List.nil_append, cutShort, List.nil_append]
      simp only [hxtr, hte, hrtr, hown, Bool.and_false, Bool.and_true, Bool.false_eq_true,
        ↓reduceIte]
      split
      · rfl
      · rw [chooseHop]
        simp [hxtr, hte, hrtr, cutShort]
  | cons skipped passed ih =>
      rw [List.forall_mem_cons] at hpassed
      rw [List.cons_append, positions, chooseHop, isLastHop_of_lispTe hte,
        List.cons_append, cutShort, List.append_assoc, List.singleton_append]
      simp only [hxtr, hte, hrtr, hpassed.1, Bool.and_false, Bool.and_true,
        Bool.false_eq_true, ↓reduceIte]
      split
      · rfl
      · rw [pathLen_cons, ← Nat.add_assoc]
        exact ih hpassed.2 _ false

/-- The second loop takes the hop that is due, unless one before it is near the end. -/
theorem chooseHop_of_isDue (h : IsDue cfg before after) (hop : ℕ) (addr : Address) :
    chooseHop cfg (hop + pathLen (before ++ addr :: after))
      (positions hop (before ++ addr :: after)) true false =
        some ((cutShort before (addr :: after)).getD addr) := by
  unfold IsDue at h
  split at h
  next hte =>
    split at h
    next hxtr =>
      rw [h, List.nil_append, positions, chooseHop]
      simp [hte, hxtr, cutShort]
    next hxtr =>
      obtain ⟨hrtr, passed, own, rfl, hown, hpassed⟩ := h
      rw [List.append_assoc, List.singleton_append]
      exact chooseHop_of_rtr hte ((Bool.not_eq_true _).mp hxtr) hrtr hown hpassed hop true
  next hte =>
    rw [h]
    exact chooseHop_of_lispTe_off ((Bool.not_eq_true _).mp hte) before hop true false

/-- A path has a hop to choose: on an xTR, on an RTR whose address comes before the last
hop, and without LISP-TE. -/
theorem exists_isDue (hops : List Address) (hne : hops ≠ [])
    (h : cfg.lispTe = true → cfg.fncXtr = true ∨
      cfg.fncRtr = true ∧ ∃ own ∈ hops.dropLast, cfg.isMyAddr own = true) :
    ∃ before addr after, hops = before ++ addr :: after ∧ IsDue cfg before after := by
  by_cases hte : cfg.lispTe = true
  · by_cases hxtr : cfg.fncXtr = true
    · simp only [IsDue, if_pos hte, if_pos hxtr]
      obtain ⟨addr, after, rfl⟩ := List.exists_cons_of_ne_nil hne
      exact ⟨[], addr, after, rfl, rfl⟩
    · obtain ⟨hrtr, own, hmem, hown⟩ := (h hte).resolve_left hxtr
      simp only [IsDue, if_pos hte, if_neg hxtr]
      -- the first of the node's own addresses
      have hsome : (hops.dropLast.find? cfg.isMyAddr).isSome = true :=
        List.find?_isSome.mpr ⟨own, hmem, hown⟩
      obtain ⟨mine, hmine⟩ := Option.isSome_iff_exists.mp hsome
      obtain ⟨hmy, passed, rest, hdrop, hpassed⟩ := List.find?_eq_some_iff_append.mp hmine
      have hsplit : hops = passed ++ mine :: (rest ++ [hops.getLast hne]) := by
        rw [← List.cons_append, ← List.append_assoc, ← hdrop,
          List.dropLast_append_getLast hne]
      obtain ⟨addr, after, htail⟩ :=
        List.exists_cons_of_ne_nil (List.append_ne_nil_of_right_ne_nil rest
          (List.cons_ne_nil (hops.getLast hne) []))
      refine ⟨passed ++ [mine], addr, after, ?_, hrtr, passed, mine, rfl, hmy, ?_⟩
      · rw [List.append_assoc, List.singleton_append, ← htail]
        exact hsplit
      · intro addr haddr
        exact (Bool.not_eq_true' _).mp (hpassed addr haddr)
  · simp only [IsDue, if_neg hte]
    exact ⟨hops.dropLast, hops.getLast hne, [],
      (List.dropLast_append_getLast hne).symm, rfl⟩

end Loops

/-- What is read of a path. -/
theorem readLocator_of_isPath {cfg : ReplyConfig} {loc : Mem} {before after : List Address}
    {addr : Address} (hpath : IsPath loc (before ++ addr :: after))
    (hdue : IsDue cfg before after) :
    readLocator cfg loc =
      some (replyEntry loc ((cutShort before (addr :: after)).getD addr),
        6 + (sizeofLcafHdr + pathLen (before ++ addr :: after))) := by
  rw [readLocator, if_pos ⟨hpath.afi, hpath.type⟩, hpath.payload]
  dsimp only
  rw [readHops_of_hopsAt hpath.hops (Nat.le_refl _)]
  dsimp only
  rw [chooseHop_of_isDue hdue, Option.map_some]

/-- A path with a hop to choose is read as one RLOC, and stepped over as a whole. -/
theorem exists_readLocator {cfg : ReplyConfig} {loc : Mem} {hops : List Address}
    (hpath : IsPath loc hops) (hne : hops ≠ [])
    (h : cfg.lispTe = true → cfg.fncXtr = true ∨
      cfg.fncRtr = true ∧ ∃ own ∈ hops.dropLast, cfg.isMyAddr own = true) :
    ∃ entry, readLocator cfg loc = some (entry, 6 + (sizeofLcafHdr + pathLen hops)) := by
  obtain ⟨before, addr, after, rfl, hdue⟩ := exists_isDue hops hne h
  exact ⟨_, readLocator_of_isPath hpath hdue⟩

/-- A path gives its RLOC one address. -/
theorem choosesRloc_iff_eq {cfg : ReplyConfig} {loc : Mem} {before after : List Address}
    {addr : Address} (hpath : IsPath loc (before ++ addr :: after))
    (hdue : IsDue cfg before after) :
    ChoosesRloc cfg loc addr ↔ (cutShort before (addr :: after)).getD addr = addr := by
  have hread := readLocator_of_isPath hpath hdue
  constructor
  · rintro ⟨entry, size, hentry, haddr⟩
    rw [hread, Option.some_inj, Prod.mk.injEq] at hentry
    rw [← hentry.1] at haddr
    exact Option.some_inj.mp ((address_addressSockUnion _).symm.trans haddr)
  · intro hget
    refine ⟨_, _, hread, ?_⟩
    rw [hget]
    exact address_addressSockUnion addr

/-- The hop that is due becomes the RLOC exactly when the first hop before it that is
near the end of the path, if there is one, has its address. -/
theorem choosesRloc_iff {cfg : ReplyConfig} {loc : Mem} {before after : List Address}
    {addr : Address} (hpath : IsPath loc (before ++ addr :: after))
    (hdue : IsDue cfg before after) :
    ChoosesRloc cfg loc addr ↔ ∀ short ∈ cutShort before (addr :: after), short = addr := by
  rw [choosesRloc_iff_eq hpath hdue]
  cases cutShort before (addr :: after) with
  | none => simp
  | some short => simp

/-- A path over 2001:db8::1 to 203.0.113.9, as a locator. -/
def mixedPath : List UInt8 :=
  [1, 100, 255, 0, 0, 1, 0x40, 0x03, 0, 0, 10, 0, 0, 28,
    0, 2, 0, 0, 0x20, 0x01, 0x0d, 0xb8, 0, 0, 0, 0, 0, 0, 0, 0, 0, 0, 0, 1,
    0, 1, 0, 0, 203, 0, 113, 9]

/-- Its first hop. -/
def mixedFirst : Address :=
  .inet6 #v[0x20, 0x01, 0x0d, 0xb8, 0, 0, 0, 0, 0, 0, 0, 0, 0, 0, 0, 1]

/-- Its last hop. -/
def mixedLast : Address :=
  .inet #v[203, 0, 113, 9]

theorem isPath_mixedPath :
    IsPath (Mem.ofList mixedPath fun _ => 0) ([mixedFirst] ++ mixedLast :: []) :=
  ⟨by decide, by decide, by decide, by decide, by decide, trivial⟩

/-- An xTR takes the first hop. -/
theorem choosesRloc_iff_mixed :
    ChoosesRloc ⟨true, true, false, fun _ => false⟩ (Mem.ofList mixedPath fun _ => 0)
        mixedFirst ↔
      ∀ short ∈ cutShort [] [mixedFirst, mixedLast], short = mixedFirst := by
  have hdue : IsDue ⟨true, true, false, fun _ => false⟩ [] [mixedLast] := rfl
  exact choosesRloc_iff isPath_mixedPath hdue

/-- Without LISP-TE the first hop is taken, which is not the last one. -/
theorem not_choosesRloc_mixed :
    ¬ ∀ cfg loc (before after : List Address) addr, IsPath loc (before ++ addr :: after) →
      IsDue cfg before after → ChoosesRloc cfg loc addr := by
  intro h
  have hdue : IsDue ⟨false, true, false, fun _ => false⟩ [mixedFirst] [] := rfl
  have hchosen := h _ _ _ _ mixedLast isPath_mixedPath hdue
  rw [choosesRloc_iff_eq isPath_mixedPath hdue] at hchosen
  exact absurd hchosen (by decide)

end HyLisp.ControlPlane
