import Dkmp.Csdb.Layout

/-! # Finding an entry

Both searches of a child list answer the same question of the tree: is there a
child of this name, and where is it? The bisection counts positions from one and
walks the list from its head to each of them. Its bounds never leave the 32-bit
range as long as a child list is shorter than half of it; on a longer list it may run
for ever, but what it returns is still right.
-/

namespace Dkmp.Csdb

open Machine

variable {b : Search} {db : Database} {L : Layout} {t : Tree} {p : UpPath} {d : Node}

/-! ## The linear search -/

/-- The linear search over the part `l₂` of the child list. -/
theorem findLoop_spec (h : Rep b db L t) (hd : t.node p = some d) (name : CStr)
    (l₁ l₂ : List CStr) (hk : d.kids = l₁ ++ l₂) (fuel : Nat) (hfuel : l₂.length < fuel) :
    loop (findBody db name) fuel (l₂.head?.map (L.kid p)) =
      .ok (if name ∈ l₂ then some (L.kid p name) else none) := by
  induction l₂ generalizing l₁ fuel with
  | nil =>
      obtain ⟨fuel, rfl⟩ : ∃ f, fuel = f + 1 := ⟨fuel - 1, by omega⟩
      exact loop_exit (by rfl)
  | cons n l₂ ih =>
      obtain ⟨fuel, rfl⟩ : ∃ f, fuel = f + 1 := ⟨fuel - 1, by omega⟩
      obtain ⟨d', c, hd', hc, hrep, hnext, -⟩ := h.kid_cell hd hk
      obtain ⟨a, hname, hstr, -⟩ := hrep.name
      have hbody : findBody db name (some (L.kid p n)) =
          if strcmp n name = .eq then .ok (.inr (some (L.kid p n))) else .ok (.inl c.next) := by
        simp [findBody, Heap.load_some hc, hname, Heap.load_some hstr, nameOf]
      by_cases hn : n = name
      · subst hn
        rw [List.head?_cons, Option.map_some, loop_exit (r := some (L.kid p n)) (by
          rw [hbody, if_pos (strcmp_self n)])]
        simp
      · have hstep : findBody db name (some (L.kid p n)) = .ok (.inl c.next) := by
          rw [hbody, if_neg (fun he => hn (strcmp_eq_iff.mp he))]
        rw [List.head?_cons, Option.map_some, loop_next hstep, hnext,
          ih (l₁ ++ [n]) (by simp [hk]) fuel (by simpa using hfuel)]
        simp [Ne.symm hn]

/-! ## The bisection -/

theorem seekLoop_spec (h : Rep b db L t) (hd : t.node p = some d) (hops : Nat)
    (l₁ l₂ : List CStr) (n : CStr) (hk : d.kids = l₁ ++ n :: l₂) (fuel : Nat)
    (hfuel : hops < fuel + l₁.length + 1) (hpos : 0 < fuel) :
    loop (seekBody db hops) fuel (l₁.length + 1, some (L.kid p n)) =
      .ok ((n :: l₂)[min (hops - 1 - l₁.length) l₂.length]?.map (L.kid p)) := by
  induction l₂ generalizing l₁ n fuel with
  | nil =>
      obtain ⟨fuel, rfl⟩ : ∃ f, fuel = f + 1 := ⟨fuel - 1, by omega⟩
      obtain ⟨d', c, -, hc, -, hnext, -⟩ := h.kid_cell hd hk
      apply loop_exit
      by_cases hlt : l₁.length + 1 < hops
      · simp [seekBody, hlt, Heap.load_some hc, hnext]
      · simp [seekBody, hlt]
  | cons m l₂ ih =>
      obtain ⟨fuel, rfl⟩ : ∃ f, fuel = f + 1 := ⟨fuel - 1, by omega⟩
      obtain ⟨d', c, -, hc, -, hnext, -⟩ := h.kid_cell hd hk
      by_cases hlt : l₁.length + 1 < hops
      · have hstep : seekBody db hops (l₁.length + 1, some (L.kid p n)) =
            .ok (.inl (l₁.length + 1 + 1, some (L.kid p m))) := by
          simp [seekBody, hlt, Heap.load_some hc, hnext]
        have hrec := ih (l₁ ++ [n]) m (by simp [hk]) fuel (by simp; omega) (by omega)
        rw [List.length_append, List.length_singleton] at hrec
        have hidx : min (hops - 1 - l₁.length) (m :: l₂).length =
            min (hops - 1 - (l₁.length + 1)) l₂.length + 1 := by
          simp only [List.length_cons]
          omega
        rw [loop_next hstep, hrec, hidx, List.getElem?_cons_succ]
      · have hidx : min (hops - 1 - l₁.length) (m :: l₂).length = 0 := by omega
        rw [hidx]
        exact loop_exit (by simp [seekBody, hlt])

theorem csdbSeek_spec (h : Rep b db L t) (hd : t.node p = some d) (hops : Nat) :
    csdbSeek db (d.kids.head?.map (L.kid p)) hops =
      .ok (d.kids[min (hops - 1) (d.kids.length - 1)]?.map (L.kid p)) := by
  unfold csdbSeek
  cases hk : d.kids with
  | nil => exact loop_exit (by simp [seekBody])
  | cons n l₂ =>
      have hspec := seekLoop_spec h hd hops [] l₂ n hk (hops + 1) (by rw [List.length_nil]; omega)
        (by omega)
      simpa using hspec

/-- The names before a position are smaller than `name`, those from another one
on are greater. -/
structure Bracket (kids : List CStr) (name : CStr) (below above : Nat) : Prop where
  lt : ∀ j m, kids[j]? = some m → j < below → strcmp m name = .lt
  gt : ∀ j m, kids[j]? = some m → above ≤ j → strcmp name m = .lt

theorem Bracket.not_mem {kids : List CStr} {name : CStr} {k : Nat}
    (h : Bracket kids name k k) : name ∉ kids := by
  intro hmem
  obtain ⟨j, hj⟩ := List.mem_iff_getElem?.mp hmem
  by_cases hjk : j < k
  · exact strcmp_ne_of_lt (h.lt j name hj hjk) rfl
  · exact strcmp_ne_of_lt (h.gt j name hj (by omega)) rfl

theorem Bracket.start (kids : List CStr) (name : CStr) : Bracket kids name 0 kids.length := by
  refine ⟨fun j m _ hj => by omega, ?_⟩
  intro j m hj hle
  rw [List.getElem?_eq_none hle] at hj
  cases hj

theorem sorted_getElem? {kids : List CStr} (hs : kids.Pairwise (strcmp · · = .lt)) {i j : Nat}
    {m n : CStr} (hi : kids[i]? = some m) (hj : kids[j]? = some n) (hij : i < j) :
    strcmp m n = .lt := by
  obtain ⟨hi', rfl⟩ := List.getElem?_eq_some_iff.mp hi
  obtain ⟨hj', rfl⟩ := List.getElem?_eq_some_iff.mp hj
  exact List.pairwise_iff_getElem.mp hs i j hi' hj' hij

/-- The probe at position `i` is smaller: so is everything before it. -/
theorem Bracket.raise {kids : List CStr} {name m : CStr} {lo hi i : Nat}
    (h : Bracket kids name lo hi) (hs : kids.Pairwise (strcmp · · = .lt))
    (hm : kids[i]? = some m) (hlt : strcmp m name = .lt) : Bracket kids name (i + 1) hi := by
  refine ⟨?_, h.gt⟩
  intro j x hj hji
  by_cases heq : j = i
  · subst heq
    rw [hm] at hj
    exact Option.some.inj hj ▸ hlt
  · exact strcmp_lt_trans (sorted_getElem? hs hj hm (by omega)) hlt

theorem Bracket.lower {kids : List CStr} {name m : CStr} {lo hi i : Nat}
    (h : Bracket kids name lo hi) (hs : kids.Pairwise (strcmp · · = .lt))
    (hm : kids[i]? = some m) (hlt : strcmp name m = .lt) : Bracket kids name lo i := by
  refine ⟨h.lt, ?_⟩
  intro j x hj hij
  by_cases heq : j = i
  · subst heq
    rw [hm] at hj
    exact Option.some.inj hj ▸ hlt
  · exact strcmp_lt_trans hlt (sorted_getElem? hs hm hj (by omega))

def BisectPost (kids : List CStr) (kid : CStr → Nat) (name : CStr) : Bisect → Prop
  | .found entry => name ∈ kids ∧ entry = some (kid name)
  | .absent l => 0 < l ∧ l ≤ kids.length + 1 ∧ Bracket kids name (l - 1) (l - 1)

/-- The loop bounds: the open positions are `l` to `u`, counted from one. -/
structure BisectInv (kids : List CStr) (name : CStr) (s : Nat × Nat) : Prop where
  pos : 0 < s.1
  le : s.1 ≤ s.2 + 1
  top : s.2 ≤ kids.length
  bracket : Bracket kids name (s.1 - 1) s.2

theorem Bracket.mono {kids : List CStr} {name : CStr} {lo lo' hi : Nat}
    (h : Bracket kids name lo hi) (hle : lo' ≤ lo) : Bracket kids name lo' hi :=
  ⟨fun j m hj hlt => h.lt j m hj (by omega), h.gt⟩

/-- One comparison: the probe is the element at position `i`, counted from one, or the
first one if `i` is 0. -/
theorem bisectBody_probe (h : Rep .binary db L t) (hd : t.node p = some d) (name : CStr)
    {l u k : Nat} {m : CStr} (hlu : ¬ u < l)
    (hk : min (uint (l + u) / 2 - 1) (d.kids.length - 1) = k) (hm : d.kids[k]? = some m) :
    bisectBody db (d.kids.head?.map (L.kid p)) name (l, u) =
      match strcmp name m with
      | .lt => .ok (.inl (l, uint (uint (l + u) / 2 + 2 ^ 32 - 1)))
      | .gt => .ok (.inl (uint (uint (l + u) / 2 + 1), u))
      | .eq => .ok (.inr (.found (some (L.kid p m)))) := by
  obtain ⟨l₁, l₂, hsplit⟩ := List.append_of_mem (List.mem_of_getElem? hm)
  obtain ⟨d', c, -, hc, hrep, -, -⟩ := h.kid_cell hd hsplit
  obtain ⟨a, hname, hstr, -⟩ := hrep.name
  simp only [bisectBody, csdbSeek_spec h hd, ok_bind]
  rw [if_neg hlu, hk, hm, Option.map_some, Heap.load_some hc, ok_bind, hname,
    Heap.load_some hstr, ok_bind]
  cases hcmp : strcmp name m <;> simp only [nameOf, hcmp]

/-- The state of the loop, which a list of the greatest length never lets go of. -/
def BisectState (kids : List CStr) (name : CStr) (s : Nat × Nat) : Prop :=
  BisectInv kids name s ∧ (kids.length + 1 = 2 ^ 32 → s = (1, kids.length))

/-- What the loop returns; nothing can be added to a list of the greatest length. -/
def BisectResult (kids : List CStr) (kid : CStr → Nat) (name : CStr) (r : Bisect) : Prop :=
  BisectPost kids kid name r ∧ ∀ l, r = .absent l → kids.length + 1 < 2 ^ 32

theorem bisectBody_found {kids : List CStr} {kid : CStr → Nat} {name m : CStr} {k : Nat}
    (hm : kids[k]? = some m) (hcmp : strcmp name m = .eq) :
    BisectResult kids kid name (.found (some (kid m))) := by
  have hnm : name = m := strcmp_eq_iff.mp hcmp
  refine ⟨⟨hnm ▸ List.mem_of_getElem? hm, by rw [hnm]⟩, ?_⟩
  intro l hl
  cases hl

theorem bisectBody_middle (h : Rep .binary db L t) (hd : t.node p = some d)
    (hb : d.kids.length < 2 ^ 32) (name : CStr) {l u : Nat} (hs : BisectState d.kids name (l, u))
    (hlu : ¬ u < l) (hsum : l + u < 2 ^ 32) :
    (∃ s', bisectBody db (d.kids.head?.map (L.kid p)) name (l, u) = .ok (.inl s') ∧
      BisectState d.kids name s' ∧ s'.2 + 1 - s'.1 < u + 1 - l) ∨
    (∃ r, bisectBody db (d.kids.head?.map (L.kid p)) name (l, u) = .ok (.inr r) ∧
      BisectResult d.kids (L.kid p) name r) := by
  obtain ⟨⟨hpos, hle, htop, hbr⟩, hfull⟩ := hs
  simp only at hpos hle htop hbr
  have hnotfull : d.kids.length + 1 ≠ 2 ^ 32 := by
    intro heq
    have hbounds := Prod.mk.inj (hfull heq)
    omega
  have hi : uint (l + u) = l + u := Nat.mod_eq_of_lt hsum
  obtain ⟨k, hk⟩ : ∃ k, (l + u) / 2 = k + 1 := ⟨(l + u) / 2 - 1, by omega⟩
  have hidx : min (uint (l + u) / 2 - 1) (d.kids.length - 1) = k := by omega
  obtain ⟨m, hm⟩ : ∃ m, d.kids[k]? = some m :=
    ⟨_, List.getElem?_eq_getElem (show k < d.kids.length by omega)⟩
  have hsorted := h.sorted rfl p d hd
  rw [bisectBody_probe h hd name hlu hidx hm, hi]
  cases hcmp : strcmp name m with
  | lt =>
      have hu : uint ((l + u) / 2 + 2 ^ 32 - 1) = k := by
        unfold uint
        omega
      refine Or.inl ⟨(l, k), by simp only [hu], ⟨⟨hpos, by simp only; omega, by simp only; omega, ?_⟩,
        fun heq => absurd heq hnotfull⟩, by simp only; omega⟩
      exact hbr.lower hsorted hm hcmp
  | gt =>
      have hl : uint ((l + u) / 2 + 1) = k + 2 := by
        unfold uint
        omega
      refine Or.inl ⟨(k + 2, u), by simp only [hl], ⟨⟨by simp, by simp only; omega, htop, ?_⟩,
        fun heq => absurd heq hnotfull⟩, by simp only; omega⟩
      exact hbr.raise hsorted hm (strcmp_gt_iff.mp hcmp)
  | eq => exact Or.inr ⟨_, rfl, bisectBody_found hm hcmp⟩

/-- When the sum of the bounds wraps around, the probe lies below them: the lower bound
falls back, or nothing changes. -/
theorem bisectBody_wrapped (h : Rep .binary db L t) (hd : t.node p = some d)
    (hb : d.kids.length < 2 ^ 32) (name : CStr) {l u : Nat} (hs : BisectState d.kids name (l, u))
    (hlu : ¬ u < l) (hsum : 2 ^ 32 ≤ l + u) :
    (∃ s', bisectBody db (d.kids.head?.map (L.kid p)) name (l, u) = .ok (.inl s') ∧
      BisectState d.kids name s') ∨
    (∃ r, bisectBody db (d.kids.head?.map (L.kid p)) name (l, u) = .ok (.inr r) ∧
      BisectResult d.kids (L.kid p) name r) := by
  obtain ⟨⟨hpos, hle, htop, hbr⟩, hfull⟩ := hs
  simp only at hpos hle htop hbr
  have hi : uint (l + u) = l + u - 2 ^ 32 := by
    unfold uint
    omega
  obtain ⟨k, hidx⟩ : ∃ k, min (uint (l + u) / 2 - 1) (d.kids.length - 1) = k := ⟨_, rfl⟩
  obtain ⟨m, hm⟩ : ∃ m, d.kids[k]? = some m :=
    ⟨_, List.getElem?_eq_getElem (show k < d.kids.length by omega)⟩
  have hup : uint ((l + u - 2 ^ 32) / 2 + 1) = (l + u - 2 ^ 32) / 2 + 1 :=
    Nat.mod_eq_of_lt (by omega)
  rw [bisectBody_probe h hd name hlu hidx hm, hi]
  rw [hi] at hidx
  by_cases hone : l = 1
  · -- the list has the greatest length, and the bounds are where they were at first
    have hu : u = 2 ^ 32 - 1 := by omega
    have hlen : d.kids.length = 2 ^ 32 - 1 := by omega
    have hstart : BisectState d.kids name (1, d.kids.length) :=
      ⟨⟨by simp, by simp, by simp, Bracket.start d.kids name⟩, fun _ => rfl⟩
    subst hone hu
    cases hcmp : strcmp name m with
    | lt => exact Or.inl ⟨(1, d.kids.length), by rw [hlen]; rfl, hstart⟩
    | gt => exact Or.inl ⟨(1, d.kids.length), by rw [hlen]; rfl, hstart⟩
    | eq => exact Or.inr ⟨_, rfl, bisectBody_found hm hcmp⟩
  · have hsmaller : strcmp m name = .lt := hbr.lt k m hm (by omega)
    rw [strcmp_gt_iff.mpr hsmaller]
    refine Or.inl ⟨((l + u - 2 ^ 32) / 2 + 1, u), by simp only [hup],
      ⟨by simp, by simp only; omega, htop, ?_⟩, ?_⟩
    · exact hbr.mono (by simp only; omega)
    · intro heq
      have hbounds := Prod.mk.inj (hfull heq)
      exact absurd hbounds.1 hone

/-- The loop ends where the bounds have crossed. -/
theorem bisectBody_end (h : Rep .binary db L t) (hd : t.node p = some d) (name : CStr) {l u : Nat}
    (hb : d.kids.length < 2 ^ 32) (hs : BisectState d.kids name (l, u)) (hul : u < l) :
    ∃ r, bisectBody db (d.kids.head?.map (L.kid p)) name (l, u) = .ok (.inr r) ∧
      BisectResult d.kids (L.kid p) name r := by
  obtain ⟨⟨hpos, hle, htop, hbr⟩, hfull⟩ := hs
  simp only at hpos hle htop hbr
  refine ⟨.absent l, ?_, ⟨hpos, by omega, ?_⟩, ?_⟩
  · simp only [bisectBody, csdbSeek_spec h hd, ok_bind, if_pos hul]
  · rwa [show l - 1 = u by omega] at hbr ⊢
  · intro l' _
    by_contra hge
    have hbounds := Prod.mk.inj (hfull (by omega))
    omega

theorem bisect_start (kids : List CStr) (name : CStr) : BisectState kids name (1, kids.length) :=
  ⟨⟨by simp, by simp, by simp, Bracket.start kids name⟩, fun _ => rfl⟩

/-- With the binary search, positions in a child list must fit the counter; the sum of
two of them may wrap around only if it is conceded that a search runs for ever. -/
def Room (D : Prop) (b : Search) (kids : List CStr) : Prop :=
  b = .binary → kids.length < 2 ^ 31 ∨ (D ∧ kids.length < 2 ^ 32)

theorem Fits.room {kids : List CStr} (h : Fits b kids) (D : Prop) : Room D b kids :=
  fun hb => Or.inl (h hb)

theorem Room.count {D : Prop} {kids : List CStr} (h : Room D .binary kids) :
    kids.length < 2 ^ 32 := by
  rcases h rfl with h | ⟨-, h⟩ <;> omega

theorem bisect_total (h : Rep .binary db L t) (hd : t.node p = some d)
    (hb : d.kids.length < 2 ^ 31) (name : CStr) :
    ∃ r, bisect db (d.kids.head?.map (L.kid p)) d.kids.length name = .ok r ∧
      BisectResult d.kids (L.kid p) name r := by
  apply loop_total (BisectState d.kids name) _ (fun s => s.2 + 1 - s.1)
  · rintro ⟨l, u⟩ hs
    have htop := hs.1.top
    have hle := hs.1.le
    simp only at htop hle
    by_cases hul : u < l
    · exact Or.inr (bisectBody_end h hd name (by omega) hs hul)
    · exact bisectBody_middle h hd (by omega) name hs hul (by omega)
  · exact bisect_start d.kids name
  · simp only
    omega

theorem bisect_counted (h : Rep .binary db L t) (hd : t.node p = some d)
    (hb : d.kids.length < 2 ^ 32) (name : CStr) :
    Settles True (bisect db (d.kids.head?.map (L.kid p)) d.kids.length name)
      (BisectResult d.kids (L.kid p) name) := by
  apply loop_settles (BisectState d.kids name)
  · rintro ⟨l, u⟩ hs
    by_cases hul : u < l
    · exact Or.inr (bisectBody_end h hd name hb hs hul)
    by_cases hsum : l + u < 2 ^ 32
    · rcases bisectBody_middle h hd hb name hs hul hsum with ⟨s', hbody, hs', -⟩ | hr
      · exact Or.inl ⟨s', hbody, hs'⟩
      · exact Or.inr hr
    · exact bisectBody_wrapped h hd hb name hs hul (by omega)
  · exact bisect_start d.kids name

theorem bisect_settles {D : Prop} (h : Rep .binary db L t) (hd : t.node p = some d)
    (hb : Room D .binary d.kids) (name : CStr) :
    Settles D (bisect db (d.kids.head?.map (L.kid p)) d.kids.length name)
      (BisectResult d.kids (L.kid p) name) := by
  rcases hb rfl with hbound | ⟨hD, hbound⟩
  · exact Or.inr (bisect_total h hd hbound name)
  · exact (bisect_counted h hd hbound name).elim (fun hdiv => Or.inl ⟨hD, hdiv.2⟩) Or.inr

/-! ## Child and entry -/

/-- Both builds find the child of a given name. -/
theorem csdbFindChild_settles {D : Prop} (h : Rep b db L t) (hd : t.node p = some d)
    (hb : Room D b d.kids) (name : CStr) (hname : name ≠ [dot]) :
    Settles D (csdbFindChild b db (some (L.addr p)) name)
      (· = if name ∈ d.kids then some (L.kid p name) else none) := by
  obtain ⟨c, hc, hrep⟩ := h.cell p d hd
  have hroot : ¬ strcmp name [dot] = .eq := fun he => hname (strcmp_eq_iff.mp he)
  cases b with
  | linear =>
      have hlen := h.kids_length_le hd
      simp only [csdbFindChild, Heap.load_some hc, ok_bind, if_neg hroot, hrep.childs]
      exact .of_ok (findLoop_spec h hd name [] d.kids rfl _ (by omega)) rfl
  | binary =>
      have hcount := hrep.nbrEntries hb.count
      simp only [csdbFindChild, if_neg hroot, Heap.load_some hc, ok_bind, hrep.childs, hcount]
      cases hk : d.kids with
      | nil => exact .of_ok (by simp) rfl
      | cons n l =>
          rw [← hk, if_neg (by simp [hk])]
          apply (bisect_settles h hd hb name).bind
          intro r hr
          cases r with
          | found entry =>
              obtain ⟨hmem, rfl⟩ := hr.1
              exact .of_ok rfl (by rw [if_pos hmem])
          | absent l => exact .of_ok rfl (by rw [if_neg hr.1.2.2.not_mem])

theorem getEntryLoop_settles {D : Prop} (h : Rep b db L t)
    (hb : ∀ p d, t.node p = some d → Room D b d.kids) (names : List CStr)
    (hnames : ∀ n ∈ names, dot ∉ n) (p : UpPath) (hp : (t.node p).isSome) :
    Settles D (getEntryLoop b db (some (L.addr p)) names)
      (· = if (t.node (names.reverse ++ p)).isSome then some (L.addr (names.reverse ++ p))
        else none) := by
  induction names generalizing p with
  | nil => exact .of_ok rfl (by simp [hp])
  | cons n names ih =>
      obtain ⟨d, hd⟩ := Option.isSome_iff_exists.mp hp
      have hn : n ≠ [dot] := by
        rintro rfl
        exact hnames [dot] (by simp) (by simp)
      have hpath : (n :: names).reverse ++ p = names.reverse ++ n :: p := by simp
      rw [getEntryLoop, hpath]
      apply (csdbFindChild_settles h hd (hb p d hd) n hn).bind
      rintro entry rfl
      by_cases hmem : n ∈ d.kids
      · rw [if_pos hmem]
        exact ih (fun m hm => hnames m (by simp [hm])) (n :: p) (t.kid_isSome hd hmem)
      · have hnone : ¬ (t.node (names.reverse ++ n :: p)).isSome := fun hs =>
          hmem ((t.mem_kids_iff hd).mpr (t.suffix_isSome (List.suffix_append _ _) hs))
        rw [if_neg hmem, if_neg hnone]
        exact .of_ok (by cases names <;> rfl) rfl

theorem getEntryLoop_spec (h : Rep b db L t) (hb : Bounded b t) (names : List CStr)
    (hnames : ∀ n ∈ names, dot ∉ n) (p : UpPath) (hp : (t.node p).isSome) :
    getEntryLoop b db (some (L.addr p)) names =
      .ok (if (t.node (names.reverse ++ p)).isSome then some (L.addr (names.reverse ++ p))
        else none) :=
  (getEntryLoop_settles h (fun p d hd => (hb p d hd).room False) names hnames p hp).eq_ok id

/-- A key that begins with a dot and is not the root names the entry of its parts, also
when it is not valid. -/
theorem csdbGetEntry_dot (h : Rep b db L t) (hb : Bounded b t) {rest : CStr} (hne : rest ≠ []) :
    csdbGetEntry b db (dot :: rest) =
      .ok (if (t.node (readParts (rest.splitOn dot)).reverse).isSome then
        some (L.addr (readParts (rest.splitOn dot)).reverse) else none) := by
  have hnames : ∀ n ∈ readParts (rest.splitOn dot), dot ∉ n := fun n hn =>
    splitOn_no_dot rest n (readParts_subset _ hn)
  rw [csdbGetEntry, csdbParseKey_dot hne, ok_bind]
  simp only [h.root]
  simpa using getEntryLoop_spec h hb _ hnames [] t.root

/-- The address of the entry a valid key names, read from the root downwards. -/
theorem csdbGetEntry_settles {D : Prop} (h : Rep b db L t)
    (hb : ∀ p d, t.node p = some d → Room D b d.kids) {key : CStr}
    (hv : csdbIsValidKey key = true) :
    Settles D (csdbGetEntry b db key)
      (· = if (t.node (keyPath key).reverse).isSome then some (L.addr (keyPath key).reverse)
        else none) := by
  by_cases hk : key = [dot]
  · subst hk
    have hpath : keyPath [dot] = [] := rfl
    obtain ⟨d, hd⟩ := Option.isSome_iff_exists.mp t.root
    obtain ⟨c, hc, -⟩ := h.cell [] d hd
    have hfind : csdbFindChild b db (some (L.addr [])) [dot] = .ok (some (L.addr [])) := by
      cases b <;> simp [csdbFindChild, h.root, Heap.load_some hc]
    refine .of_ok (a := some (L.addr [])) ?_ (by simp [hpath, t.root])
    simp [csdbGetEntry, csdbParseKey_root, h.root, getEntryLoop, hfind]
  · rw [csdbGetEntry, csdbParseKey_valid hv hk, ok_bind]
    simp only [h.root]
    simpa using getEntryLoop_settles h hb (keyPath key) (keyPath_valid hv hk).1.no_dot [] t.root

theorem csdbGetEntry_spec (h : Rep b db L t) (hb : Bounded b t) {key : CStr}
    (hv : csdbIsValidKey key = true) :
    csdbGetEntry b db key =
      .ok (if (t.node (keyPath key).reverse).isSome then some (L.addr (keyPath key).reverse)
        else none) :=
  (csdbGetEntry_settles h (fun p d hd => (hb p d hd).room False) hv).eq_ok id

end Dkmp.Csdb
