import Shogun.Port.PortManager

/-!
# A port is held by one slot

* `Registry.Valid`: no two slots in use hold the same port, and before `init_port_manager` none is
  in use.
* `requestPort_cases`: what a request can do to a valid registry; `Valid.step`, `Valid.run`.
* `Refused`, `Granted`, `Released`: the registry after a single call.
* `requestPort_exclusive`: requests after every sequence of calls.
-/

namespace Shogun.Port

/-! ### Looking at the table -/

theorem isPortInUse_iff (r : Registry) (port : UInt16) :
    isPortInUse r port = true ↔
      ∃ i, (r.portRegistry i).inUse = true ∧ (r.portRegistry i).port = port := by
  unfold isPortInUse Registry.holds
  rw [List.any_eq_true]
  constructor
  · rintro ⟨i, -, hi⟩
    rw [Bool.and_eq_true, beq_iff_eq] at hi
    exact ⟨i, hi⟩
  · rintro ⟨i, hi⟩
    refine ⟨i, List.mem_finRange i, ?_⟩
    rw [Bool.and_eq_true, beq_iff_eq]
    exact hi

/-- The number of slots in use. -/
def slotsInUse (r : Registry) : ℕ :=
  (List.finRange maxTrackedPorts).countP fun i => (r.portRegistry i).inUse

theorem slotsInUse_eq_iff (r : Registry) :
    slotsInUse r = 64 ↔ ∀ i, (r.portRegistry i).inUse = true := by
  have hlen : (List.finRange maxTrackedPorts).length = 64 := List.length_finRange
  unfold slotsInUse
  rw [← hlen, List.countP_eq_length]
  constructor
  · intro h i
    exact h i (List.mem_finRange i)
  · intro h i _
    exact h i

/-! ### The invariant -/

/-- No two slots in use hold the same port; before the initialisation no slot is in use. -/
structure Registry.Valid (r : Registry) : Prop where
  unique : ∀ i j, (r.portRegistry i).inUse = true → (r.portRegistry j).inUse = true →
    (r.portRegistry i).port = (r.portRegistry j).port → i = j
  idle : r.initialized = false → ∀ i, (r.portRegistry i).inUse = false

theorem valid_static : Registry.static.Valid :=
  ⟨fun _ _ h => absurd h Bool.false_ne_true, fun _ _ => rfl⟩

/-- The registry after the initialisation that `request_port` makes sure of. -/
def Registry.ready (r : Registry) : Registry := if r.initialized then r else initPortManager r

namespace Registry.Valid

variable {r : Registry}

/-- The initialisation changes no slot in use. -/
theorem ready_portRegistry (h : r.Valid) {i : Slot} (hi : (r.portRegistry i).inUse = true) :
    r.ready.portRegistry i = r.portRegistry i := by
  unfold Registry.ready
  split_ifs with hinit
  · rfl
  · rw [h.idle (Bool.eq_false_iff.mpr hinit) i] at hi
    exact absurd hi Bool.false_ne_true

theorem ready_inUse (h : r.Valid) (i : Slot) :
    (r.ready.portRegistry i).inUse = (r.portRegistry i).inUse := by
  unfold Registry.ready initPortManager
  split_ifs with hinit
  · rfl
  · exact (h.idle (Bool.eq_false_iff.mpr hinit) i).symm

theorem ready (h : r.Valid) : r.ready.Valid := by
  refine ⟨?_, ?_⟩
  · intro i j hi hj
    rw [h.ready_inUse] at hi hj
    rw [h.ready_portRegistry hi, h.ready_portRegistry hj]
    exact h.unique i j hi hj
  · intro hinit i
    unfold Registry.ready initPortManager at hinit
    split_ifs at hinit with hr
    exact absurd hr (Bool.eq_false_iff.mp hinit)

theorem isPortInUse_ready (h : r.Valid) (port : UInt16) :
    isPortInUse r.ready port = isPortInUse r port := by
  rw [Bool.eq_iff_iff, isPortInUse_iff, isPortInUse_iff]
  constructor
  · rintro ⟨i, hi, hport⟩
    rw [h.ready_inUse] at hi
    rw [h.ready_portRegistry hi] at hport
    exact ⟨i, hi, hport⟩
  · rintro ⟨i, hi, hport⟩
    refine ⟨i, ?_, ?_⟩
    · rw [h.ready_inUse, hi]
    · rw [h.ready_portRegistry hi, hport]

end Registry.Valid

/-! ### Filling and freeing a slot -/

/-- `r` with `port` in slot `i`. -/
def Registry.fill (r : Registry) (i : Slot) (port : UInt16) : Registry :=
  { r with portRegistry := Function.update r.portRegistry i ⟨port, true⟩ }

theorem fill_self (r : Registry) (i : Slot) (port : UInt16) :
    (r.fill i port).portRegistry i = ⟨port, true⟩ :=
  Function.update_self ..

theorem fill_of_ne (r : Registry) {i j : Slot} (h : j ≠ i) (port : UInt16) :
    (r.fill i port).portRegistry j = r.portRegistry j :=
  Function.update_of_ne h ..

/-- Filling a free slot puts exactly its port in use. -/
theorem isPortInUse_fill {r : Registry} {i : Slot} (hi : (r.portRegistry i).inUse = false)
    (port q : UInt16) :
    isPortInUse (r.fill i port) q = true ↔ q = port ∨ isPortInUse r q = true := by
  rw [isPortInUse_iff, isPortInUse_iff]
  constructor
  · rintro ⟨j, hj, hport⟩
    by_cases hji : j = i
    · rw [hji, fill_self] at hport
      exact .inl hport.symm
    · rw [fill_of_ne r hji] at hj hport
      exact .inr ⟨j, hj, hport⟩
  · rintro (rfl | ⟨j, hj, hport⟩)
    · exact ⟨i, by rw [fill_self], by rw [fill_self]⟩
    · have hji : j ≠ i := by
        rintro rfl
        rw [hi] at hj
        exact absurd hj Bool.false_ne_true
      exact ⟨j, by rw [fill_of_ne r hji, hj], by rw [fill_of_ne r hji, hport]⟩

theorem Registry.Valid.fill {r : Registry} (h : r.Valid) (hinit : r.initialized = true) {i : Slot}
    {port : UInt16} (hport : isPortInUse r port = false) : (r.fill i port).Valid := by
  have hother : ∀ j, (r.portRegistry j).inUse = true → (r.portRegistry j).port ≠ port := by
    intro j hj heq
    rw [(isPortInUse_iff r port).mpr ⟨j, hj, heq⟩] at hport
    cases hport
  refine ⟨?_, ?_⟩
  · intro j k hj hk heq
    by_cases hji : j = i <;> by_cases hki : k = i
    · rw [hji, hki]
    · rw [hji, fill_self, fill_of_ne r hki] at heq
      rw [fill_of_ne r hki] at hk
      exact absurd heq.symm (hother k hk)
    · rw [hki, fill_self, fill_of_ne r hji] at heq
      rw [fill_of_ne r hji] at hj
      exact absurd heq (hother j hj)
    · rw [fill_of_ne r hji] at hj heq
      rw [fill_of_ne r hki] at hk heq
      exact h.unique j k hj hk heq
  · intro hfalse
    cases hinit.symm.trans hfalse

/-- `r` with slot `i` free. -/
def Registry.free (r : Registry) (i : Slot) : Registry :=
  { r with
    portRegistry := Function.update r.portRegistry i { r.portRegistry i with inUse := false } }

theorem free_self (r : Registry) (i : Slot) : ((r.free i).portRegistry i).inUse = false := by
  unfold Registry.free
  dsimp only
  rw [Function.update_self]

theorem free_of_ne (r : Registry) {i j : Slot} (h : j ≠ i) :
    (r.free i).portRegistry j = r.portRegistry j :=
  Function.update_of_ne h ..

theorem Registry.Valid.free {r : Registry} (h : r.Valid) (i : Slot) : (r.free i).Valid := by
  -- a slot in use after the release is another one, as it was before
  have hother : ∀ j, ((r.free i).portRegistry j).inUse = true →
      (r.free i).portRegistry j = r.portRegistry j := by
    intro j hj
    apply free_of_ne
    rintro rfl
    rw [free_self] at hj
    exact absurd hj Bool.false_ne_true
  refine ⟨?_, ?_⟩
  · intro j k hj hk heq
    have hj' := hother j hj
    have hk' := hother k hk
    rw [hj'] at hj heq
    rw [hk'] at hk heq
    exact h.unique j k hj hk heq
  · intro hinit j
    by_cases hji : j = i
    · rw [hji, free_self]
    · rw [free_of_ne r hji]
      exact h.idle hinit j

/-- Freeing a slot in use takes exactly its port out of use. -/
theorem isPortInUse_free {r : Registry} (h : r.Valid) {i : Slot}
    (hi : (r.portRegistry i).inUse = true) (q : UInt16) :
    isPortInUse (r.free i) q = true ↔ q ≠ (r.portRegistry i).port ∧ isPortInUse r q = true := by
  rw [isPortInUse_iff, isPortInUse_iff]
  constructor
  · rintro ⟨j, hj, hport⟩
    have hji : j ≠ i := by
      rintro rfl
      rw [free_self] at hj
      exact absurd hj Bool.false_ne_true
    rw [free_of_ne r hji] at hj hport
    refine ⟨?_, j, hj, hport⟩
    rintro rfl
    exact hji (h.unique j i hj hi hport)
  · rintro ⟨hne, j, hj, hport⟩
    have hji : j ≠ i := by
      rintro rfl
      exact hne hport.symm
    exact ⟨j, by rw [free_of_ne r hji, hj], by rw [free_of_ne r hji, hport]⟩

/-! ### The calls -/

/-- What a request does: it is refused because its port is in use or because every slot is, or it
fills a free slot. -/
theorem requestPort_cases {r : Registry} (h : r.Valid) (port : UInt16) :
    (isPortInUse r port = true ∧ requestPort r port = (none, r.ready)) ∨
    (isPortInUse r port = false ∧ (∀ i, (r.portRegistry i).inUse = true) ∧
      requestPort r port = (none, r.ready)) ∨
    (isPortInUse r port = false ∧ ∃ i, (r.portRegistry i).inUse = false ∧
      requestPort r port = (some i, r.ready.fill i port)) := by
  have hready := h.isPortInUse_ready port
  cases hport : isPortInUse r port with
  | true => exact .inl ⟨rfl, if_pos (hready.trans hport)⟩
  | false =>
    have hpast : ¬ isPortInUse r.ready port = true := by
      rw [hready, hport]
      exact Bool.false_ne_true
    -- the second loop of `request_port` looks for the first free slot
    cases hfind : (List.finRange maxTrackedPorts).find?
        fun i => !(r.ready.portRegistry i).inUse with
    | none =>
      refine .inr (.inl ⟨rfl, ?_, (if_neg hpast).trans ?_⟩)
      · intro i
        have hused := List.find?_eq_none.mp hfind i (List.mem_finRange i)
        rw [h.ready_inUse] at hused
        simpa using hused
      · unfold Registry.ready at hfind
        rw [hfind]
        rfl
    | some i =>
      refine .inr (.inr ⟨rfl, i, ?_, (if_neg hpast).trans ?_⟩)
      · have hfree := List.find?_some hfind
        rw [h.ready_inUse] at hfree
        simpa using hfree
      · unfold Registry.ready at hfind
        rw [hfind]
        rfl

/-- What a release does: it frees its slot, or nothing. -/
theorem releasePort_cases (r : Registry) (handle : Handle) :
    (∃ i, handle = .slot i ∧ (r.portRegistry i).inUse = true ∧
      releasePort r handle = r.free i) ∨
    ((∀ i, handle = .slot i → (r.portRegistry i).inUse = false) ∧ releasePort r handle = r) := by
  cases handle with
  | null => exact .inr ⟨fun i hi => Handle.noConfusion hi, rfl⟩
  | outside => exact .inr ⟨fun i hi => Handle.noConfusion hi, rfl⟩
  | slot i =>
    unfold releasePort
    dsimp only
    split_ifs with hi
    · exact .inl ⟨i, rfl, hi, rfl⟩
    · refine .inr ⟨?_, rfl⟩
      rintro j ⟨⟩
      exact Bool.eq_false_iff.mpr hi

theorem ready_initialized (r : Registry) : r.ready.initialized = true := by
  unfold Registry.ready initPortManager
  split_ifs with hinit
  · exact hinit
  · rfl

namespace Registry.Valid

variable {r : Registry}

theorem requestPort (h : r.Valid) (port : UInt16) : (requestPort r port).2.Valid := by
  rcases requestPort_cases h port with ⟨-, hr⟩ | ⟨-, -, hr⟩ | ⟨hport, i, -, hr⟩
  · rw [hr]
    exact h.ready
  · rw [hr]
    exact h.ready
  · rw [hr]
    apply h.ready.fill (ready_initialized r)
    rw [h.isPortInUse_ready, hport]

theorem releasePort (h : r.Valid) (handle : Handle) : (releasePort r handle).Valid := by
  rcases releasePort_cases r handle with ⟨i, -, -, hr⟩ | ⟨-, hr⟩
  · rw [hr]
    exact h.free i
  · rw [hr]
    exact h

theorem step (h : r.Valid) (op : PortOp) : (r.step op).Valid := by
  cases op with
  | request port => exact h.requestPort port
  | release handle => exact h.releasePort handle

theorem run (h : r.Valid) (ops : List PortOp) : (r.run ops).Valid := by
  induction ops generalizing r with
  | nil => exact h
  | cons op ops ih => exact ih (h.step op)

end Registry.Valid

/-! ### Single calls -/

/-- `r'` is `r` after a request that was refused. -/
structure Refused (r r' : Registry) : Prop where
  valid : r'.Valid
  inUse : ∀ q, isPortInUse r' q = isPortInUse r q
  other : ∀ j, (r.portRegistry j).inUse = true → r'.portRegistry j = r.portRegistry j

/-- `r'` is `r` after a request of `port` that got slot `i`. -/
structure Granted (r : Registry) (port : UInt16) (i : Slot) (r' : Registry) : Prop where
  valid : r'.Valid
  slot : r'.portRegistry i = ⟨port, true⟩
  unused : isPortInUse r port = false
  inUse : ∀ q, isPortInUse r' q = true ↔ q = port ∨ isPortInUse r q = true
  other : ∀ j, (r.portRegistry j).inUse = true → j ≠ i ∧ r'.portRegistry j = r.portRegistry j

theorem refused_of_requestPort {r r' : Registry} {port : UInt16} (h : r.Valid)
    (hr : requestPort r port = (none, r')) : Refused r r' := by
  have hready : r' = r.ready := by
    rcases requestPort_cases h port with ⟨-, hr'⟩ | ⟨-, -, hr'⟩ | ⟨-, i, -, hr'⟩
    · exact (Prod.mk.inj (hr.symm.trans hr')).2
    · exact (Prod.mk.inj (hr.symm.trans hr')).2
    · exact absurd (Prod.mk.inj (hr.symm.trans hr')).1 (Option.some_ne_none i).symm
  rw [hready]
  exact ⟨h.ready, h.isPortInUse_ready, fun _ hj => h.ready_portRegistry hj⟩

theorem granted_of_requestPort {r r' : Registry} {port : UInt16} {i : Slot} (h : r.Valid)
    (hr : requestPort r port = (some i, r')) : Granted r port i r' := by
  rcases requestPort_cases h port with ⟨-, hr'⟩ | ⟨-, -, hr'⟩ | ⟨hport, j, hj, hr'⟩
  · exact absurd (Prod.mk.inj (hr.symm.trans hr')).1 (Option.some_ne_none i)
  · exact absurd (Prod.mk.inj (hr.symm.trans hr')).1 (Option.some_ne_none i)
  · obtain ⟨hij, rfl⟩ := Prod.mk.inj (hr.symm.trans hr')
    obtain rfl := Option.some.inj hij
    have hfree : (r.ready.portRegistry i).inUse = false := by rw [h.ready_inUse, hj]
    have hvalid := h.requestPort port
    rw [hr'] at hvalid
    refine ⟨hvalid, fill_self _ _ _, hport, ?_, ?_⟩
    · intro q
      rw [isPortInUse_fill hfree, h.isPortInUse_ready]
    · -- the slot was free, so it is none of those in use
      intro k hk
      have hki : k ≠ i := by
        rintro rfl
        rw [hj] at hk
        exact absurd hk Bool.false_ne_true
      exact ⟨hki, by rw [fill_of_ne _ hki, h.ready_portRegistry hk]⟩

/-- A slot in use keeps its port. -/
theorem Granted.keeps {r r' : Registry} {port p : UInt16} {i j : Slot} (h : Granted r port i r')
    (hj : r.portRegistry j = ⟨p, true⟩) : j ≠ i ∧ r'.portRegistry j = ⟨p, true⟩ := by
  obtain ⟨hne, hkept⟩ := h.other j (by rw [hj])
  exact ⟨hne, hkept.trans hj⟩

/-- `r'` is `r` after the release of slot `i`, which held `port`. -/
structure Released (r : Registry) (port : UInt16) (i : Slot) (r' : Registry) : Prop where
  valid : r'.Valid
  inUse : ∀ q, isPortInUse r' q = true ↔ q ≠ port ∧ isPortInUse r q = true
  other : ∀ j, j ≠ i → r'.portRegistry j = r.portRegistry j

theorem released_of_slot {r : Registry} {port : UInt16} {i : Slot} (h : r.Valid)
    (hi : r.portRegistry i = ⟨port, true⟩) : Released r port i (releasePort r (.slot i)) := by
  have hused : (r.portRegistry i).inUse = true := by rw [hi]
  have hr : releasePort r (.slot i) = r.free i := if_pos hused
  rw [hr]
  refine ⟨h.free i, ?_, ?_⟩
  · intro q
    rw [isPortInUse_free h hused, hi]
  · intro j hj
    exact free_of_ne r hj

/-- **Ports are handed out exclusively.**  After every sequence of calls no two slots in use hold
the same port, a request is refused exactly when its port or every slot is in use, and otherwise
puts exactly its port in use. -/
theorem requestPort_exclusive (ops : List PortOp) :
    let r := Registry.static.run ops
    (∀ i j, (r.portRegistry i).inUse = true → (r.portRegistry j).inUse = true →
      (r.portRegistry i).port = (r.portRegistry j).port → i = j) ∧
    ∀ port,
      ((requestPort r port).1 = none ↔ isPortInUse r port = true ∨ slotsInUse r = 64) ∧
      ((requestPort r port).1 ≠ none →
        isPortInUse r port = false ∧ isPortInUse (requestPort r port).2 port = true ∧
        ∀ q, q ≠ port → isPortInUse (requestPort r port).2 q = isPortInUse r q) := by
  intro r
  have hvalid : r.Valid := valid_static.run ops
  refine ⟨hvalid.unique, ?_⟩
  intro port
  rw [slotsInUse_eq_iff]
  rcases requestPort_cases hvalid port with ⟨hport, hr⟩ | ⟨hport, hfull, hr⟩ | ⟨hport, i, hi, hr⟩
  · -- the port is in use
    rw [hr]
    exact ⟨⟨fun _ => .inl hport, fun _ => rfl⟩, fun hne => absurd rfl hne⟩
  · rw [hr]
    exact ⟨⟨fun _ => .inr hfull, fun _ => rfl⟩, fun hne => absurd rfl hne⟩
  · rw [hr]
    -- a free slot is filled, whatever port it held before
    have hfill := isPortInUse_fill (r := r.ready) (i := i) (by rw [hvalid.ready_inUse, hi]) port
    refine ⟨⟨fun hnone => absurd hnone (Option.some_ne_none i), ?_⟩, ?_⟩
    · rintro (hused | hfull)
      · rw [hport] at hused
        exact absurd hused Bool.false_ne_true
      · have hused := hfull i
        rw [hi] at hused
        exact absurd hused Bool.false_ne_true
    · intro _
      refine ⟨hport, (hfill port).mpr (.inl rfl), ?_⟩
      intro q hq
      rw [Bool.eq_iff_iff, hfill, hvalid.isPortInUse_ready]
      exact ⟨fun hor => hor.resolve_left hq, .inr⟩

end Shogun.Port
