import Mathlib.Data.List.Induction
import Shogun.Port.Equiv.PortManager

/-!
# Releases and the clients' handles

A handle is the address of a slot, so one that was released before may meanwhile be another
client's.  `Clients` keeps the handles handed out beside the registry, each with the port it was
requested for and whether its holder has released it.

* `Owned`: every slot in use belongs to a handle not yet released (in every run).
* `Held`: every handle not yet released still has its slot (as long as no handle is released after
  its slot went to another one).
* `releases_own_iff`: releases free only the releasing client's port in a run exactly if none of
  them is made with such a handle.
-/

namespace Shogun.Port

/-! ### Clients -/

/-- A handle handed out: its slot, the port it was requested for, and whether its holder has
released it since. -/
structure Grant where
  port : UInt16
  slot : Slot
  released : Bool
  deriving DecidableEq, Repr

/-- The registry and the handles handed out so far, in order. -/
structure Clients where
  registry : Registry
  grants : List Grant

/-- A call of a client: a request, or a release of the `k`-th handle by the client that got it,
which may have released it before. -/
inductive ClientOp where
  | request (port : UInt16)
  | release (k : ℕ)
  deriving DecidableEq, Repr

/-- A client requests a port, and keeps the handle if it gets one. -/
def Clients.request (c : Clients) (port : UInt16) : Clients :=
  match requestPort c.registry port with
  | (some slot, r) => ⟨r, c.grants ++ [⟨port, slot, false⟩]⟩
  | (none, r) => ⟨r, c.grants⟩

/-- The holder of the `k`-th handle releases it. -/
def Clients.release (c : Clients) (k : ℕ) : Clients :=
  match c.grants[k]? with
  | some g => ⟨releasePort c.registry (.slot g.slot), c.grants.set k { g with released := true }⟩
  | none => c

/-- The effect of one call. -/
def Clients.step (c : Clients) : ClientOp → Clients
  | .request port => c.request port
  | .release k => c.release k

/-- No handle handed out yet. -/
def Clients.start : Clients := ⟨.static, []⟩

/-- The calls of a sequence in turn. -/
def Clients.run (c : Clients) (ops : List ClientOp) : Clients := ops.foldl Clients.step c

/-! ### The property and its condition -/

/-- The call changes the use of no port but the one of its own handle. -/
def Clients.ReleasesOwn (c : Clients) : ClientOp → Prop
  | .request _ => True
  | .release k => ∀ g, c.grants[k]? = some g → ∀ q, q ≠ g.port →
      isPortInUse (c.release k).registry q = isPortInUse c.registry q

/-- The port of every handle is in use until its holder releases it. -/
def Clients.HeldInUse (c : Clients) : Prop :=
  ∀ g ∈ c.grants, g.released = false → isPortInUse c.registry g.port = true

/-- The slot of the `k`-th handle belongs to another handle that its holder has not released. -/
def Clients.Recycled (c : Clients) (k : ℕ) : Prop :=
  ∃ (g : Grant) (k' : ℕ) (g' : Grant), c.grants[k]? = some g ∧ c.grants[k']? = some g' ∧
    k' ≠ k ∧ g'.slot = g.slot ∧ g'.released = false

/-! ### Every run -/

/-- The registry is valid and every slot in use belongs to a handle not yet released. -/
structure Clients.Owned (c : Clients) : Prop where
  valid : c.registry.Valid
  owner : ∀ i, (c.registry.portRegistry i).inUse = true →
    ∃ (k : ℕ) (g : Grant), c.grants[k]? = some g ∧ g.slot = i ∧ g.released = false

theorem owned_start : Clients.start.Owned :=
  ⟨valid_static, fun _ h => absurd h Bool.false_ne_true⟩

/-- What a request does to the registry and the handles. -/
theorem request_cases {c : Clients} (h : c.Owned) (port : UInt16) :
    c.request port = ⟨c.registry.ready, c.grants⟩ ∨
    ∃ i, (c.registry.portRegistry i).inUse = false ∧
      c.request port = ⟨c.registry.ready.fill i port, c.grants ++ [⟨port, i, false⟩]⟩ := by
  unfold Clients.request
  rcases requestPort_cases h.valid port with ⟨-, hr⟩ | ⟨-, -, hr⟩ | ⟨-, i, hi, hr⟩
  · rw [hr]
    exact .inl rfl
  · rw [hr]
    exact .inl rfl
  · rw [hr]
    exact .inr ⟨i, hi, rfl⟩

/-- What a release does to them: its slot is free afterwards. -/
theorem release_cases (c : Clients) (k : ℕ) :
    (∃ g, c.grants[k]? = some g ∧ (c.registry.portRegistry g.slot).inUse = true ∧
      c.release k = ⟨c.registry.free g.slot, c.grants.set k { g with released := true }⟩) ∨
    (∃ g, c.grants[k]? = some g ∧ (c.registry.portRegistry g.slot).inUse = false ∧
      c.release k = ⟨c.registry, c.grants.set k { g with released := true }⟩) ∨
    (c.grants[k]? = none ∧ c.release k = c) := by
  unfold Clients.release
  cases hg : c.grants[k]? with
  | none => exact .inr (.inr ⟨rfl, rfl⟩)
  | some g =>
    dsimp only
    rcases releasePort_cases c.registry (.slot g.slot) with ⟨i, hi, hused, hr⟩ | ⟨hfree, hr⟩
    · cases hi
      exact .inl ⟨g, rfl, hused, by rw [hr]⟩
    · exact .inr (.inl ⟨g, rfl, hfree _ rfl, by rw [hr]⟩)

/-- A handle other than the `k`-th is not touched by its release. -/
theorem getElem?_set_released {grants : List Grant} {k k' : ℕ} {g g' : Grant} (h : k' ≠ k)
    (hg' : grants[k']? = some g') :
    (grants.set k { g with released := true })[k']? = some g' := by
  rw [List.getElem?_set_ne (Ne.symm h)]
  exact hg'

/-- A handle not released after a release was not released before and is another one. -/
theorem of_getElem?_set_released {grants : List Grant} {k k' : ℕ} {g g' : Grant}
    (hg' : (grants.set k { g with released := true })[k']? = some g')
    (hreleased : g'.released = false) : k' ≠ k ∧ grants[k']? = some g' := by
  have hne : k' ≠ k := by
    rintro rfl
    by_cases hlt : k' < grants.length
    · rw [List.getElem?_set_self hlt] at hg'
      cases hg'
      cases hreleased
    · rw [List.getElem?_eq_none (by rw [List.length_set]; omega)] at hg'
      cases hg'
  rw [List.getElem?_set_ne (Ne.symm hne)] at hg'
  exact ⟨hne, hg'⟩

theorem request_registry (c : Clients) (port : UInt16) :
    (c.request port).registry = (requestPort c.registry port).2 := by
  unfold Clients.request
  split
  · rename_i hr
    rw [hr]
  · rename_i hr
    rw [hr]

namespace Clients.Owned

variable {c : Clients}

theorem request (h : c.Owned) (port : UInt16) : (c.request port).Owned := by
  refine ⟨?_, ?_⟩
  · rw [request_registry]
    exact h.valid.requestPort port
  · intro j hj
    rcases request_cases h port with hr | ⟨i, -, hr⟩
    · rw [hr] at hj ⊢
      rw [h.valid.ready_inUse] at hj
      exact h.owner j hj
    · rw [hr] at hj ⊢
      by_cases hji : j = i
      · -- the slot handed out belongs to the new handle
        exact ⟨c.grants.length, ⟨port, i, false⟩, List.getElem?_concat_length, hji.symm, rfl⟩
      · rw [fill_of_ne _ hji, h.valid.ready_inUse] at hj
        obtain ⟨k, g, hg, hslot, hreleased⟩ := h.owner j hj
        refine ⟨k, g, ?_, hslot, hreleased⟩
        rw [List.getElem?_append_left (List.getElem?_eq_some_iff.mp hg).1]
        exact hg

theorem release (h : c.Owned) (k : ℕ) : (c.release k).Owned := by
  rcases release_cases c k with ⟨g, hg, hused, hr⟩ | ⟨g, hg, hfree, hr⟩ | ⟨-, hr⟩
  · rw [hr]
    refine ⟨h.valid.free _, ?_⟩
    intro j hj
    have hji : j ≠ g.slot := by
      rintro rfl
      rw [free_self] at hj
      exact absurd hj Bool.false_ne_true
    rw [free_of_ne _ hji] at hj
    obtain ⟨k', g', hg', hslot, hreleased⟩ := h.owner j hj
    -- the owner of another slot is another handle
    have hne : k' ≠ k := by
      rintro rfl
      rw [hg] at hg'
      cases hg'
      exact hji hslot.symm
    exact ⟨k', g', getElem?_set_released hne hg', hslot, hreleased⟩
  · rw [hr]
    refine ⟨h.valid, ?_⟩
    intro j hj
    obtain ⟨k', g', hg', hslot, hreleased⟩ := h.owner j hj
    have hne : k' ≠ k := by
      rintro rfl
      rw [hg] at hg'
      cases hg'
      rw [hslot, hj] at hfree
      cases hfree
    exact ⟨k', g', getElem?_set_released hne hg', hslot, hreleased⟩
  · rw [hr]
    exact h

theorem step (h : c.Owned) (op : ClientOp) : (c.step op).Owned := by
  cases op with
  | request port => exact h.request port
  | release k => exact h.release k

theorem run (h : c.Owned) (ops : List ClientOp) : (c.run ops).Owned := by
  induction ops generalizing c with
  | nil => exact h
  | cons op ops ih => exact ih (h.step op)

end Clients.Owned

/-! ### Runs without recycled releases -/

/-- Every handle not yet released has its slot, with its port. -/
def Clients.Held (c : Clients) : Prop :=
  ∀ (k : ℕ) (g : Grant), c.grants[k]? = some g → g.released = false →
    c.registry.portRegistry g.slot = ⟨g.port, true⟩

namespace Clients.Held

variable {c : Clients}

theorem heldInUse (h : c.Held) : c.HeldInUse := by
  intro g hmem hreleased
  obtain ⟨k, hk⟩ := List.mem_iff_getElem?.mp hmem
  have hslot := h k g hk hreleased
  exact (isPortInUse_iff _ _).mpr ⟨g.slot, by rw [hslot], by rw [hslot]⟩

theorem request (h : c.Held) (ho : c.Owned) (port : UInt16) : (c.request port).Held := by
  intro k g hg hreleased
  have hkeep : c.grants[k]? = some g →
      c.registry.ready.portRegistry g.slot = ⟨g.port, true⟩ := by
    intro hold
    have hslot := h k g hold hreleased
    rw [ho.valid.ready_portRegistry (by rw [hslot]), hslot]
  rcases request_cases ho port with hr | ⟨i, hi, hr⟩
  · rw [hr] at hg ⊢
    exact hkeep hg
  · rw [hr] at hg ⊢
    by_cases hlt : k < c.grants.length
    · rw [List.getElem?_append_left hlt] at hg
      have hslot := h k g hg hreleased
      have hne : g.slot ≠ i := by
        rintro rfl
        rw [hslot] at hi
        cases hi
      rw [fill_of_ne _ hne]
      exact hkeep hg
    · -- the new handle
      rw [List.getElem?_append_right (by omega)] at hg
      have hmem := List.mem_singleton.mp (List.mem_of_getElem? hg)
      rw [hmem, fill_self]

/-- The slot of a handle is not the one of a release by another, if that is not recycled. -/
theorem release (h : c.Held) {k : ℕ} (hk : ¬ c.Recycled k) : (c.release k).Held := by
  intro k' g' hg' hreleased
  rcases release_cases c k with ⟨g, hg, -, hr⟩ | ⟨g, hg, -, hr⟩ | ⟨-, hr⟩
  · rw [hr] at hg' ⊢
    obtain ⟨hne, hold⟩ := of_getElem?_set_released hg' hreleased
    have hslot : g'.slot ≠ g.slot := by
      intro hslot
      exact hk ⟨g, k', g', hg, hold, hne, hslot, hreleased⟩
    rw [free_of_ne _ hslot]
    exact h k' g' hold hreleased
  · rw [hr] at hg' ⊢
    exact h k' g' (of_getElem?_set_released hg' hreleased).2 hreleased
  · rw [hr] at hg' ⊢
    exact h k' g' hg' hreleased

/-- Such a release concerns the port of its own handle only. -/
theorem releasesOwn (h : c.Held) (ho : c.Owned) {k : ℕ} (hk : ¬ c.Recycled k) :
    c.ReleasesOwn (.release k) := by
  intro g hg q hq
  rcases release_cases c k with ⟨g₀, hg₀, hused, hr⟩ | ⟨_, _, _, hr⟩ | ⟨-, hr⟩
  · rw [hg] at hg₀
    cases hg₀
    obtain ⟨k', g', hg', hslot, hreleased⟩ := ho.owner _ hused
    -- the owner of the slot is the releasing handle itself
    have hkk : k' = k := by
      by_contra hne
      exact hk ⟨g, k', g', hg, hg', hne, hslot, hreleased⟩
    rw [hkk, hg] at hg'
    cases hg'
    have hport := h k g hg hreleased
    rw [hr, Bool.eq_iff_iff, isPortInUse_free ho.valid hused, hport]
    exact ⟨fun hand => hand.2, fun hin => ⟨hq, hin⟩⟩
  · rw [hr]
  · rw [hr]

/-- A recycled release takes the port of the other handle out of use. -/
theorem not_heldInUse (h : c.Held) (ho : c.Owned) {k : ℕ} (hk : c.Recycled k) :
    ¬ (c.release k).HeldInUse := by
  obtain ⟨g, k', g', hg, hg', hne, hslot, hreleased⟩ := hk
  intro hheld
  have hport := h k' g' hg' hreleased
  rw [hslot] at hport
  have hused : (c.registry.portRegistry g.slot).inUse = true := by rw [hport]
  rcases release_cases c k with ⟨g₀, hg₀, -, hr⟩ | ⟨g₀, hg₀, hfree, -⟩ | ⟨hnone, -⟩
  · rw [hg] at hg₀
    cases hg₀
    rw [hr] at hheld
    have hin := hheld g' (List.mem_of_getElem? (getElem?_set_released hne hg')) hreleased
    rw [isPortInUse_free ho.valid hused, hport] at hin
    exact hin.1 rfl
  · rw [hg] at hg₀
    cases hg₀
    rw [hused] at hfree
    cases hfree
  · rw [hg] at hnone
    cases hnone

theorem step (h : c.Held) (ho : c.Owned) {op : ClientOp}
    (hop : ∀ k, op = .release k → ¬ c.Recycled k) : (c.step op).Held ∧ c.ReleasesOwn op := by
  cases op with
  | request port => exact ⟨h.request ho port, trivial⟩
  | release k => exact ⟨h.release (hop k rfl), h.releasesOwn ho (hop k rfl)⟩

end Clients.Held

theorem held_start : Clients.start.Held := by
  intro k g hg
  cases hg

theorem run_concat (c : Clients) (ops : List ClientOp) (op : ClientOp) :
    c.run (ops ++ [op]) = (c.run ops).step op := by
  unfold Clients.run
  rw [List.foldl_append]
  rfl

/-- A run without recycled releases. -/
theorem held_run {ops : List ClientOp}
    (h : ∀ pre k, pre ++ [.release k] <+: ops → ¬ (Clients.start.run pre).Recycled k) :
    (Clients.start.run ops).Held := by
  induction ops using List.reverseRecOn with
  | nil => exact held_start
  | append_singleton ops op ih =>
    rw [run_concat]
    have hops := ih fun pre k hpre => h pre k (hpre.trans (List.prefix_append ops [op]))
    refine (hops.step (owned_start.run ops) ?_).1
    rintro k rfl
    exact h ops k (List.prefix_refl _)

/-- **Releases free only the releasing client's port, and ports stay in use until their own holder
releases them, exactly in the runs that release no handle whose slot has gone to another one.** -/
theorem releases_own_iff (ops : List ClientOp) :
    (∀ pre op, pre ++ [op] <+: ops →
      (Clients.start.run pre).ReleasesOwn op ∧ (Clients.start.run (pre ++ [op])).HeldInUse) ↔
    ∀ pre k, pre ++ [.release k] <+: ops → ¬ (Clients.start.run pre).Recycled k := by
  constructor
  · intro h pre
    -- by induction on the length of the prefix: no release before its end was recycled
    induction hn : pre.length using Nat.strong_induction_on generalizing pre with
    | _ n ih =>
      intro k hpre hrecycled
      have hheld : (Clients.start.run pre).Held := held_run fun pre' k' hpre' => by
        have hlen := hpre'.length_le
        rw [List.length_append, List.length_singleton] at hlen
        exact ih pre'.length (by omega) pre' rfl k'
          (hpre'.trans ((List.prefix_append pre _).trans hpre))
      apply hheld.not_heldInUse (owned_start.run pre) hrecycled
      have hin := (h pre (.release k) hpre).2
      rw [run_concat] at hin
      exact hin
  · intro h pre op hpre
    have hheld : (Clients.start.run pre).Held := held_run fun pre' k hpre' =>
      h pre' k (hpre'.trans ((List.prefix_append pre [op]).trans hpre))
    have hop : ∀ k, op = .release k → ¬ (Clients.start.run pre).Recycled k := by
      rintro k rfl
      exact h pre k hpre
    obtain ⟨hnext, hown⟩ := hheld.step (owned_start.run pre) hop
    rw [run_concat]
    exact ⟨hown, hnext.heldInUse⟩

/-- Port `1` is requested and released, its slot goes to port `2`, and the first handle is released
once more: port `2` is out of use while its holder still has it. -/
theorem second_release_frees_other :
    ∃ pre op, pre ++ [op] <+: [ClientOp.request 1, .release 0, .request 2, .release 0] ∧
      ¬ (Clients.start.run pre).ReleasesOwn op ∧
      ¬ (Clients.start.run (pre ++ [op])).HeldInUse := by
  refine ⟨[.request 1, .release 0, .request 2], .release 0, List.prefix_refl _, ?_, ?_⟩
  · intro h
    exact absurd (h ⟨1, ⟨0, by decide⟩, true⟩ (by decide) 2 (by decide)) (by decide)
  · intro h
    exact absurd (h ⟨2, ⟨0, by decide⟩, false⟩ (by decide) rfl) (by decide)

end Shogun.Port
