import Mathlib.Order.Basic

/-!
# Monotone reads through a polled cache

An owner has values that only grow, serves copies of them to polls, and keeps a table with a row for each
key, blank at first and then the last value. A viewer polls and reads the table; it shows a blank row as the
value that it has in its cache. `Viewer.Inv` is the invariant by which what it shows of a key never goes
back: a reply is below what is shown for every row that is read after it.

`Owner.Advances` is what the owner may do between two actions of the viewer; each action of the viewer has
one lemma.
-/

set_option autoImplicit false

namespace TestingSystem

universe u v

/-- The rows of a table: blank rows are shown from a cache, the others as they are. -/
structure RowScheme (K : Type u) (V : Type v) [Preorder V] where
  key : V → K
  pending : V → Bool
  /-- How a pending row is shown that is not in the cache. -/
  reset : V → V
  blank : V → Prop
  key_eq : ∀ {v w}, v ≤ w → key v = key w
  blank_le : ∀ {v w}, blank v → key v = key w → v ≤ w
  blank_of_le : ∀ {v w}, v ≤ w → blank w → blank v
  pending_of_blank : ∀ {v}, blank v → pending v = true
  reset_blank : ∀ {v}, blank v → blank (reset v) ∧ key (reset v) = key v

/-- The values of the owner, those that it serves, its table and the keys that it has given out. -/
structure Owner (K : Type u) (V : Type v) where
  live : K → Option V
  served : K → Option V
  rows : K → Option V
  used : K → Prop

/-- A row that was read; `earlier` is a history: the replies before. -/
structure Reading (V : Type v) where
  row : V
  earlier : List V

/-- The viewer; `carried` are the values of the poll under way. -/
structure Viewer (K : Type u) (V : Type v) where
  cache : K → Option V
  carried : List V
  readings : List (Reading V)
  replies : List V

variable {K : Type u} {V : Type v} [Preorder V] {G : RowScheme K V}

/-- How a row is shown. -/
def RowScheme.view (G : RowScheme K V) (cache : K → Option V) (row : V) : V :=
  if G.pending row = true then (cache (G.key row)).getD (G.reset row) else row

/-- The invariant of the owner. -/
structure Owner.Sound (G : RowScheme K V) (o : Owner K V) : Prop where
  live : ∀ k v, o.live k = some v → G.key v = k
  served : ∀ k v, o.served k = some v → ∃ w, o.live k = some w ∧ v ≤ w
  rows : ∀ k v, o.rows k = some v →
    G.key v = k ∧ o.used k ∧ (G.blank v ∨ G.pending v = false ∧ o.live k = some v)

/-- What the owner may do: values grow, new ones are blank, and no key gets a pending row twice. -/
structure Owner.Advances (G : RowScheme K V) (o p : Owner K V) : Prop where
  used : ∀ k, o.used k → p.used k
  live : ∀ k v, o.live k = some v → ∃ w, p.live k = some w ∧ v ≤ w
  born : ∀ k w, o.live k = none → p.live k = some w → G.blank w
  served : ∀ k v w, o.live k = some v → p.served k = some w → ∃ u, o.served k = some u ∧ u ≤ w
  rows : ∀ k w, o.used k → p.rows k = some w → G.pending w = true → o.rows k = some w

/-- A copy that the owner has served. -/
structure Owner.Behind (G : RowScheme K V) (o : Owner K V) (v : V) : Prop where
  live : ∃ w, o.live (G.key v) = some w ∧ v ≤ w
  served : ∀ w, o.served (G.key v) = some w → v ≤ w

/-- A row that was in the table. -/
structure Owner.Stored (G : RowScheme K V) (o : Owner K V) (row : V) : Prop where
  used : o.used (G.key row)
  cases : G.blank row ∨ G.pending row = false ∧ (∃ w, o.live (G.key row) = some w ∧ row ≤ w) ∧
    ∀ w, o.rows (G.key row) = some w → row ≤ w

/-- A reply: nothing that is shown later is below it. -/
structure Owner.Shown (G : RowScheme K V) (o : Owner K V) (cache : K → Option V) (reply : V) : Prop where
  used : o.used (G.key reply)
  unborn : o.live (G.key reply) = none → G.blank reply
  live : ∀ w, o.live (G.key reply) = some w → reply ≤ w
  rows : ∀ w, o.rows (G.key reply) = some w → reply ≤ G.view cache w

/-- The invariant of the viewer. -/
structure Viewer.Inv (G : RowScheme K V) (o : Owner K V) (v : Viewer K V) : Prop where
  cache : ∀ k c, v.cache k = some c → G.key c = k ∧ o.Behind G c
  carried : ∀ e ∈ v.carried, o.Behind G e
  order : ∀ c e, v.cache (G.key e) = some c → e ∈ v.carried → c ≤ e
  replies : ∀ reply ∈ v.replies, o.Shown G v.cache reply
  readings : ∀ reading ∈ v.readings, o.Stored G reading.row ∧
    ∀ reply ∈ reading.earlier, G.key reply = G.key reading.row → reply ≤ G.view v.cache reading.row

variable {o p : Owner K V} {v : Viewer K V} {cache cache' : K → Option V} {row c : V}

namespace RowScheme

theorem view_pending (hpending : G.pending row = true) :
    G.view cache row = (cache (G.key row)).getD (G.reset row) := if_pos hpending

theorem view_final (hfinal : G.pending row = false) : G.view cache row = row := by
  apply if_neg
  rw [hfinal]
  exact Bool.false_ne_true

theorem view_blank (hblank : G.blank row) (hnone : cache (G.key row) = none) :
    G.view cache row = G.reset row := by
  rw [view_pending (G.pending_of_blank hblank), hnone]
  rfl

theorem view_cached (hblank : G.blank row) (hget : cache (G.key row) = some c) :
    G.view cache row = c := by
  rw [view_pending (G.pending_of_blank hblank), hget]
  rfl

theorem key_view (hblank : G.blank row) (hcache : ∀ k c, cache k = some c → G.key c = k) :
    G.key (G.view cache row) = G.key row := by
  cases hget : cache (G.key row) with
  | none =>
    rw [view_blank hblank hget]
    exact (G.reset_blank hblank).2
  | some c =>
    rw [view_cached hblank hget]
    exact hcache _ _ hget

/-- What is shown does not go back when values in the cache are replaced by later ones. -/
theorem view_mono (hrow : G.blank row ∨ G.pending row = false)
    (hcache : ∀ k, cache' k = cache k ∨ ∃ e, cache' k = some e ∧ G.key e = k ∧
      ∀ c, cache k = some c → c ≤ e) : G.view cache row ≤ G.view cache' row := by
  rcases hrow with hblank | hfinal
  · rcases hcache (G.key row) with hsame | ⟨e, hget', hkey, hle⟩
    · rw [view_pending (G.pending_of_blank hblank), view_pending (G.pending_of_blank hblank), hsame]
    · rw [view_cached hblank hget']
      cases hget : cache (G.key row) with
      | none =>
        rw [view_blank hblank hget]
        obtain ⟨hreset, hkey'⟩ := G.reset_blank hblank
        exact G.blank_le hreset (hkey'.trans hkey.symm)
      | some c =>
        rw [view_cached hblank hget]
        exact hle c hget
  · rw [view_final hfinal, view_final hfinal]

end RowScheme

namespace Owner

/-! ## Steps of the owner -/

theorem Behind.advances (h : o.Behind G c) (ha : o.Advances G p) : p.Behind G c := by
  obtain ⟨w, hlive, hle⟩ := h.live
  refine ⟨?_, ?_⟩
  · obtain ⟨w', hlive', hle'⟩ := ha.live _ w hlive
    exact ⟨w', hlive', hle.trans hle'⟩
  · intro s hserved
    obtain ⟨s₀, hserved₀, hle₀⟩ := ha.served _ w s hlive hserved
    exact (h.served s₀ hserved₀).trans hle₀

theorem Stored.advances (h : o.Stored G row) (ha : o.Advances G p) (hp : p.Sound G) :
    p.Stored G row := by
  refine ⟨ha.used _ h.used, h.cases.imp_right ?_⟩
  rintro ⟨hfinal, ⟨w, hlive, hle⟩, hrows⟩
  obtain ⟨w', hlive', hle'⟩ := ha.live _ w hlive
  refine ⟨hfinal, ⟨w', hlive', hle.trans hle'⟩, ?_⟩
  intro new hnew
  obtain ⟨-, -, hblank | ⟨-, hlast⟩⟩ := hp.rows _ new hnew
  · exact hrows new (ha.rows _ new h.used hnew (G.pending_of_blank hblank))
  · obtain rfl := Option.some.inj (hlast.symm.trans hlive')
    exact hle.trans hle'

theorem Shown.advances (h : o.Shown G cache row) (ha : o.Advances G p) (hp : p.Sound G) :
    p.Shown G cache row := by
  have hlive : ∀ w, p.live (G.key row) = some w → row ≤ w := by
    intro w hget
    cases hold : o.live (G.key row) with
    | none => exact G.blank_le (h.unborn hold) (hp.live _ w hget).symm
    | some u =>
      obtain ⟨w', hget', hle⟩ := ha.live _ u hold
      obtain rfl := Option.some.inj (hget'.symm.trans hget)
      exact (h.live u hold).trans hle
  refine ⟨ha.used _ h.used, ?_, hlive, ?_⟩
  · intro hnone
    cases hold : o.live (G.key row) with
    | none => exact h.unborn hold
    | some u =>
      obtain ⟨w, hget, -⟩ := ha.live _ u hold
      rw [hnone] at hget
      cases hget
  · intro new hnew
    obtain ⟨-, -, hblank | ⟨hfinal, hlast⟩⟩ := hp.rows _ new hnew
    · exact h.rows new (ha.rows _ new h.used hnew (G.pending_of_blank hblank))
    · rw [RowScheme.view_final hfinal]
      exact hlive new hlast

end Owner

namespace Viewer

theorem Inv.advances (h : v.Inv G o) (ha : o.Advances G p) (hp : p.Sound G) : v.Inv G p where
  cache k c hget := ⟨(h.cache k c hget).1, (h.cache k c hget).2.advances ha⟩
  carried e hmem := (h.carried e hmem).advances ha
  order := h.order
  replies reply hmem := (h.replies reply hmem).advances ha hp
  readings reading hmem := ⟨(h.readings reading hmem).1.advances ha hp, (h.readings reading hmem).2⟩

/-! ## Steps of the viewer -/

theorem inv_new : Inv G o { cache := fun _ => none, carried := [], readings := [], replies := [] } where
  cache k c hget := by cases hget
  carried e hmem := by cases hmem
  order c e hget := by cases hget
  replies reply hmem := by cases hmem
  readings reading hmem := by cases hmem

/-- A poll fetches values that are served. -/
theorem Inv.poll (h : v.Inv G o) (ho : o.Sound G) {es : List V}
    (hes : ∀ e ∈ es, o.served (G.key e) = some e) : Inv G o { v with carried := es } := by
  refine ⟨h.cache, ?_, ?_, h.replies, h.readings⟩
  · intro e hmem
    have hserved := hes e hmem
    refine ⟨ho.served _ e hserved, ?_⟩
    intro w hget
    exact (Option.some.inj (hserved.symm.trans hget)).le
  · intro c e hget hmem
    obtain ⟨hkey, hbehind⟩ := h.cache _ c hget
    apply hbehind.served
    rw [hkey]
    exact hes e hmem

/-- The values of the poll arrive, all or none of them. -/
theorem Inv.deliver (h : v.Inv G o) (ho : o.Sound G)
    (hcache : ∀ k, cache' k = v.cache k ∨ ∃ e ∈ v.carried, G.key e = k ∧ cache' k = some e) :
    Inv G o { v with cache := cache', carried := [] } := by
  have hmono : ∀ k, cache' k = v.cache k ∨ ∃ e, cache' k = some e ∧ G.key e = k ∧
      ∀ c, v.cache k = some c → c ≤ e := by
    intro k
    rcases hcache k with hsame | ⟨e, hmem, rfl, hget⟩
    · exact .inl hsame
    · exact .inr ⟨e, hget, rfl, fun c hold => h.order c e hold hmem⟩
  refine ⟨?_, ?_, ?_, ?_, ?_⟩
  · intro k c hget
    rcases hcache k with hsame | ⟨e, hmem, rfl, hnew⟩
    · exact h.cache k c (hsame.symm.trans hget)
    · obtain rfl := Option.some.inj (hnew.symm.trans hget)
      exact ⟨rfl, h.carried e hmem⟩
  · intro e hmem
    cases hmem
  · intro c e _ hmem
    cases hmem
  · intro reply hmem
    have hshown := h.replies reply hmem
    refine ⟨hshown.used, hshown.unborn, hshown.live, ?_⟩
    intro w hget
    refine (hshown.rows w hget).trans (RowScheme.view_mono ?_ hmono)
    exact (ho.rows _ w hget).2.2.imp_right And.left
  · intro reading hmem
    obtain ⟨hstored, hearlier⟩ := h.readings reading hmem
    refine ⟨hstored, ?_⟩
    intro reply hreply hkey
    refine (hearlier reply hreply hkey).trans (RowScheme.view_mono ?_ hmono)
    exact hstored.cases.imp_right And.left

/-- A row is read. -/
theorem Inv.read (h : v.Inv G o) (ho : o.Sound G) {k : K} (hrow : o.rows k = some row) :
    Inv G o { v with readings := ⟨row, v.replies⟩ :: v.readings } := by
  obtain ⟨rfl, hused, hcases⟩ := ho.rows k row hrow
  refine ⟨h.cache, h.carried, h.order, h.replies, ?_⟩
  intro reading hmem
  rcases List.mem_cons.1 hmem with rfl | hmem
  · refine ⟨⟨hused, hcases.imp_right ?_⟩, ?_⟩
    · rintro ⟨hfinal, hlive⟩
      refine ⟨hfinal, ⟨row, hlive, le_rfl⟩, ?_⟩
      intro w hget
      exact (Option.some.inj (hrow.symm.trans hget)).le
    · intro reply hreply hkey
      apply (h.replies reply hreply).rows
      rw [hkey]
      exact hrow
  · exact h.readings reading hmem

theorem Inv.key_view (h : v.Inv G o) (hblank : G.blank row) : G.key (G.view v.cache row) = G.key row :=
  RowScheme.key_view hblank fun k c hget => (h.cache k c hget).1

/-- Nothing was polled yet: what is shown is blank. -/
theorem Inv.shown_unpolled (h : v.Inv G o) (ho : o.Sound G) (hused : o.used (G.key row))
    (hblank : G.blank row) (hnone : v.cache (G.key row) = none) :
    o.Shown G v.cache (G.view v.cache row) := by
  have hkey := h.key_view hblank
  obtain ⟨hreset, -⟩ := G.reset_blank hblank
  rw [RowScheme.view_blank hblank hnone] at hkey ⊢
  refine ⟨hkey ▸ hused, fun _ => hreset, ?_, ?_⟩
  · intro w hlive
    exact G.blank_le hreset (ho.live _ w hlive).symm
  · intro w hrow
    obtain ⟨hkey', -, hcases⟩ := ho.rows _ w hrow
    apply G.blank_le hreset
    rcases hcases with hblank' | ⟨hfinal, -⟩
    · rw [h.key_view hblank']
      exact hkey'.symm
    · rw [RowScheme.view_final hfinal]
      exact hkey'.symm

/-- A blank row is shown as the value in the cache. -/
theorem Inv.shown_cached (h : v.Inv G o) (ho : o.Sound G) (hused : o.used (G.key row))
    (hblank : G.blank row) (hget : v.cache (G.key row) = some c) :
    o.Shown G v.cache (G.view v.cache row) := by
  obtain ⟨hkey, hbehind⟩ := h.cache _ c hget
  obtain ⟨u, hlive, hle⟩ := hbehind.live
  rw [RowScheme.view_cached hblank hget]
  refine ⟨hkey ▸ hused, ?_, ?_, ?_⟩
  · intro hnone
    rw [hlive] at hnone
    cases hnone
  · intro w hlive'
    obtain rfl := Option.some.inj (hlive.symm.trans hlive')
    exact hle
  · intro w hrow
    obtain ⟨hkey', -, hblank' | ⟨hfinal, hlast⟩⟩ := ho.rows _ w hrow
    · rw [RowScheme.view_cached hblank' (c := c)]
      rw [hkey', hkey]
      exact hget
    · rw [RowScheme.view_final hfinal]
      obtain rfl := Option.some.inj (hlive.symm.trans hlast)
      exact hle

/-- A row that is not pending is shown as it is, and no blank row replaces it. -/
theorem shown_final (ho : o.Sound G) (hused : o.used (G.key row)) (hfinal : G.pending row = false)
    (hbehind : ∃ w, o.live (G.key row) = some w ∧ row ≤ w)
    (hrows : ∀ w, o.rows (G.key row) = some w → row ≤ w) : o.Shown G cache (G.view cache row) := by
  obtain ⟨u, hlive, hle⟩ := hbehind
  rw [RowScheme.view_final hfinal]
  refine ⟨hused, ?_, ?_, ?_⟩
  · intro hnone
    rw [hlive] at hnone
    cases hnone
  · intro w hlive'
    obtain rfl := Option.some.inj (hlive.symm.trans hlive')
    exact hle
  · intro w hrow
    obtain ⟨-, -, hblank | ⟨hfinal', -⟩⟩ := ho.rows _ w hrow
    · have hpending := G.pending_of_blank (G.blank_of_le (hrows w hrow) hblank)
      rw [hfinal] at hpending
      cases hpending
    · rw [RowScheme.view_final hfinal']
      exact hrows w hrow

/-- What is shown for a row that was read. -/
theorem Inv.shown (h : v.Inv G o) (ho : o.Sound G) (hstored : o.Stored G row) :
    o.Shown G v.cache (G.view v.cache row) := by
  rcases hstored.cases with hblank | ⟨hfinal, hbehind, hrows⟩
  · cases hget : v.cache (G.key row) with
    | none => exact h.shown_unpolled ho hstored.used hblank hget
    | some c => exact h.shown_cached ho hstored.used hblank hget
  · exact shown_final ho hstored.used hfinal hbehind hrows

/-- A reading is answered. -/
theorem Inv.reply (h : v.Inv G o) (ho : o.Sound G) {reading : Reading V}
    (hmem : reading ∈ v.readings) {rest : List (Reading V)} (hrest : ∀ r ∈ rest, r ∈ v.readings) :
    Inv G o { v with readings := rest, replies := G.view v.cache reading.row :: v.replies } := by
  refine ⟨h.cache, h.carried, h.order, ?_, fun r hr => h.readings r (hrest r hr)⟩
  intro reply hreply
  rcases List.mem_cons.1 hreply with rfl | hreply
  · exact h.shown ho (h.readings reading hmem).1
  · exact h.replies reply hreply

end Viewer

end TestingSystem
